import Mailman.Model.Stages

/-!
# Stage numbers stay 1 to k

In the order in which they were added, the stages of a campaign hold the numbers from 1 on after
every sequence of calls (`stages_one_to_k`). A deletion renumbers the rows one statement at a
time. What each statement keeps is that the numbers of a campaign rise along the table: the rows
already visited hold 1 to `i`, so the next one holds more than `i` and may be given `i + 1`
(`renumber_rising`). No statement is refused by the constraint on the numbers.
-/

set_option autoImplicit false

namespace Mailman.Analysis

open Mailman.Library Mailman.Model

/-- Along the table, the numbers of each campaign rise. -/
def Rising (rows : List StageRow) : Prop :=
  rows.Pairwise fun r s => r.campaignId = s.campaignId → r.stageNumber < s.stageNumber

/-- The ids that calls answered for the stages they added to a campaign, in order. -/
def addedTo (c : ℕ) (log : List (StageCall × Except StageError StageAnswer)) : List ℕ :=
  log.filterMap fun entry =>
    match entry with
    | (.add c' _, .ok (.added id _)) => if c' = c then some id else none
    | _ => none

/-- The ids of the stages of a campaign that calls deleted. -/
def deletedFrom (c : ℕ) (log : List (StageCall × Except StageError StageAnswer)) : List ℕ :=
  log.filterMap fun entry =>
    match entry with
    | (.delete c' id, .ok .deleted) => if c' = c then some id else none
    | _ => none

/-- The stages that were added to a campaign and not deleted, in the order in which they were
added. -/
def survivors (c : ℕ) (log : List (StageCall × Except StageError StageAnswer)) : List ℕ :=
  (addedTo c log).filter (· ∉ deletedFrom c log)

variable {rows pre post : List StageRow} {c k : ℕ}

/-! ## Numbers that rise -/

/-- Rising numbers are unique. -/
theorem Rising.uniqueNumbers (h : Rising rows) : UniqueNumbers rows := by
  unfold UniqueNumbers List.Nodup
  rw [List.pairwise_map]
  refine h.imp ?_
  intro r s hlt heq
  rw [Prod.mk.injEq] at heq
  have hnumber : r.stageNumber < s.stageNumber := hlt heq.1
  omega

/-- Rising numbers pass the check of the constraint. -/
theorem Rising.checkNumbers_eq (h : Rising rows) : checkNumbers rows = .ok rows :=
  if_pos h.uniqueNumbers

/-- Numbers rise exactly when those of each campaign do. -/
theorem rising_iff :
    Rising rows ↔ ∀ c, ((rows.filter (·.campaignId = c)).map (·.stageNumber)).Pairwise (· < ·) := by
  induction rows with
  | nil => simp [Rising]
  | cons r rows ih =>
    unfold Rising at ih ⊢
    rw [List.pairwise_cons, ih]
    constructor
    · rintro ⟨hr, hrows⟩ c
      rw [List.filter_cons]
      split_ifs with hc
      · rw [List.map_cons, List.pairwise_cons]
        refine ⟨?_, hrows c⟩
        intro n hn
        obtain ⟨s, hs, rfl⟩ := List.mem_map.mp hn
        rw [List.mem_filter] at hs
        have hcampaign : r.campaignId = s.campaignId := by simp_all
        exact hr s hs.1 hcampaign
      · exact hrows c
    · intro h
      constructor
      · intro s hs hcampaign
        have hc := h s.campaignId
        rw [List.filter_cons, if_pos (by simpa using hcampaign), List.map_cons,
          List.pairwise_cons] at hc
        apply hc.1
        exact List.mem_map_of_mem (List.mem_filter.mpr ⟨hs, by simp⟩)
      · intro c
        have hc := h c
        rw [List.filter_cons] at hc
        split_ifs at hc
        · rw [List.map_cons, List.pairwise_cons] at hc
          exact hc.2
        · exact hc

/-- Where the numbers rise, the rows of a campaign in the order of the table are its stages. -/
theorem Rising.stagesOf_eq (h : Rising rows) :
    stagesOf c rows = rows.filter (·.campaignId = c) := by
  have hsorted : (rows.filter (·.campaignId = c)).Pairwise
      fun r s => r.stageNumber ≤ s.stageNumber := by
    have hlt := rising_iff.mp h c
    rw [List.pairwise_map] at hlt
    exact hlt.imp Nat.le_of_lt
  exact hsorted.insertionSort_eq

/-! ## One row at a time -/

/-- The rows of a campaign numbered from `i` on, in the order of the table. -/
def numberFrom (c : ℕ) : ℕ → List StageRow → List StageRow
  | _, [] => []
  | i, r :: rows =>
    if r.campaignId = c then { r with stageNumber := i } :: numberFrom c (i + 1) rows
    else r :: numberFrom c i rows

/-- An `UPDATE` by id changes the one row of that id. -/
theorem updateRows_id {r : StageRow} {f : StageRow → StageRow}
    (hids : ((pre ++ r :: post).map (·.id)).Nodup) :
    updateRows (pre ++ r :: post) (·.id = r.id) f = (pre ++ [f r]) ++ post := by
  have hother : ∀ s ∈ pre ++ post, s.id ≠ r.id := by
    intro s hs heq
    rw [List.map_append, List.map_cons, List.nodup_middle, List.nodup_cons] at hids
    apply hids.1
    rw [← heq, ← List.map_append]
    exact List.mem_map_of_mem hs
  have hsame : ∀ l : List StageRow, (∀ s ∈ l, s.id ≠ r.id) →
      updateRows l (·.id = r.id) f = l := by
    intro l hl
    unfold updateRows
    conv_rhs => rw [← List.map_id l]
    apply List.map_congr_left
    intro s hs
    simp [hl s hs]
  have hpre := hsame pre fun s hs => hother s (List.mem_append_left _ hs)
  have hpost := hsame post fun s hs => hother s (List.mem_append_right _ hs)
  unfold updateRows at hpre hpost ⊢
  rw [List.map_append, List.map_cons, hpre, hpost]
  simp

/-- A row that is given the next number keeps the numbers rising. -/
theorem Rising.setNumber {r : StageRow} (h : Rising (pre ++ r :: post))
    (hpre : ∀ s ∈ pre, s.campaignId = r.campaignId → s.stageNumber ≤ k)
    (hlow : k < r.stageNumber) :
    Rising (pre ++ { r with stageNumber := k + 1 } :: post) := by
  unfold Rising at h ⊢
  rw [List.pairwise_append, List.pairwise_cons] at h ⊢
  obtain ⟨hpre', ⟨hr, hpost⟩, hbetween⟩ := h
  refine ⟨hpre', ⟨?_, hpost⟩, ?_⟩
  · intro s hs hcampaign
    have hlt := hr s hs hcampaign
    show k + 1 < s.stageNumber
    omega
  · intro s hs t ht hcampaign
    rw [List.mem_cons] at ht
    rcases ht with rfl | ht
    · have hle := hpre s hs hcampaign
      show s.stageNumber < k + 1
      omega
    · exact hbetween s hs t (List.mem_cons_of_mem _ ht) hcampaign

/-- What the renumbering does when the rows before have their numbers already. The induction is
on the rows still ahead; a row of another campaign is passed by. -/
theorem renumber_rising (h : Rising (pre ++ post)) (hids : ((pre ++ post).map (·.id)).Nodup)
    (hpre : ∀ s ∈ pre, s.campaignId = c → s.stageNumber ≤ k)
    (hpost : ∀ s ∈ post, s.campaignId = c → k < s.stageNumber) :
    renumber ((post.filter (·.campaignId = c)).map (·.id)) (k + 1) (pre ++ post) =
      .ok (pre ++ numberFrom c (k + 1) post) := by
  induction post generalizing pre k with
  | nil => rfl
  | cons r post ih =>
    by_cases hc : r.campaignId = c
    · subst hc
      have hlow : k < r.stageNumber := hpost r (by simp) rfl
      have hrise := h.setNumber hpre hlow
      have hupdate := updateRows_id hids (f := fun r => { r with stageNumber := k + 1 })
      rw [List.filter_cons, if_pos (by simp), List.map_cons, numberFrom, if_pos rfl, renumber,
        hupdate]
      rw [← List.append_cons, hrise.checkNumbers_eq]
      show renumber _ (k + 1 + 1) _ = _
      rw [List.append_cons pre _ post, List.append_cons pre _ (numberFrom _ _ post)]
      apply ih
      · rw [← List.append_cons]
        exact hrise
      · simpa using hids
      · intro s hs hcampaign
        rw [List.mem_append, List.mem_singleton] at hs
        rcases hs with hs | rfl
        · have hle := hpre s hs hcampaign
          omega
        · exact le_rfl
      · intro s hs hcampaign
        have hlt : r.stageNumber < s.stageNumber := by
          unfold Rising at h
          rw [List.pairwise_append, List.pairwise_cons] at h
          exact h.2.1.1 s hs hcampaign.symm
        omega
    · rw [List.filter_cons, if_neg (by simpa using hc), numberFrom, if_neg hc,
        List.append_cons pre _ post, List.append_cons pre _ (numberFrom _ _ post)]
      apply ih
      · rw [← List.append_cons]
        exact h
      · rw [← List.append_cons]
        exact hids
      · intro s hs hcampaign
        rw [List.mem_append, List.mem_singleton] at hs
        rcases hs with hs | rfl
        · exact hpre s hs hcampaign
        · exact absurd hcampaign hc
      · exact fun s hs => hpost s (List.mem_cons_of_mem _ hs)

/-- Numbering keeps the ids. -/
theorem map_id_numberFrom : (numberFrom c k rows).map (·.id) = rows.map (·.id) := by
  induction rows generalizing k with
  | nil => rfl
  | cons r rows ih =>
    rw [numberFrom]
    split_ifs <;> simp [ih]

/-- Numbering one campaign leaves the others. -/
theorem filter_numberFrom_other {other : ℕ} (hother : other ≠ c) :
    (numberFrom c k rows).filter (·.campaignId = other) = rows.filter (·.campaignId = other) := by
  induction rows generalizing k with
  | nil => rfl
  | cons r rows ih =>
    rw [numberFrom]
    split_ifs with hc
    · simp [ih, hc, Ne.symm hother]
    · simp [List.filter_cons, ih]

/-- Numbering keeps the ids of a campaign. -/
theorem map_id_filter_numberFrom :
    ((numberFrom c k rows).filter (·.campaignId = c)).map (·.id) =
      (rows.filter (·.campaignId = c)).map (·.id) := by
  induction rows generalizing k with
  | nil => rfl
  | cons r rows ih =>
    rw [numberFrom]
    split_ifs with hc <;> simp [hc, ih]

/-- The numbers that are given are consecutive. -/
theorem numbers_numberFrom :
    ((numberFrom c k rows).filter (·.campaignId = c)).map (·.stageNumber) =
      List.range' k (rows.filter (·.campaignId = c)).length := by
  induction rows generalizing k with
  | nil => rfl
  | cons r rows ih =>
    rw [numberFrom]
    split_ifs with hc
    · simp [hc, ih, List.range'_succ]
    · simp [hc, ih]

/-! ## What a call leaves -/

/-- The numbers of every campaign are 1 to `k` in the order of the table, and no two rows share
an id. -/
structure Numbered (rows : List StageRow) : Prop where
  ids : (rows.map (·.id)).Nodup
  numbers : ∀ c, (rows.filter (·.campaignId = c)).map (·.stageNumber) =
    List.range' 1 (rows.filter (·.campaignId = c)).length

/-- Consecutive numbers rise. -/
theorem Numbered.rising (h : Numbered rows) : Rising rows := by
  rw [rising_iff]
  intro c
  rw [h.numbers c]
  exact List.pairwise_lt_range'

/-- A campaign's stages are in the order of the table. -/
theorem Numbered.stagesOf_eq (h : Numbered rows) :
    stagesOf c rows = rows.filter (·.campaignId = c) :=
  h.rising.stagesOf_eq

/-- Numbers start at one. -/
theorem Numbered.pos (h : Numbered rows) {r : StageRow} (hr : r ∈ rows) : 0 < r.stageNumber := by
  have hmem : r.stageNumber ∈
      (rows.filter (·.campaignId = r.campaignId)).map (·.stageNumber) :=
    List.mem_map_of_mem (List.mem_filter.mpr ⟨hr, by simp⟩)
  rw [h.numbers, List.mem_range'_1] at hmem
  omega

/-- The largest of the first numbers is their count. -/
theorem foldl_max_range' (n : ℕ) : (List.range' 1 n).foldl max 0 = n := by
  induction n with
  | zero => rfl
  | succ n ih =>
    rw [List.range'_1_concat, List.foldl_append, ih]
    simp [Nat.add_comm]

/-- The next number is one more than the number of stages. -/
theorem Numbered.nextNumber_eq (h : Numbered rows) :
    nextNumber c rows = (rows.filter (·.campaignId = c)).length + 1 := by
  unfold nextNumber
  rw [h.numbers c, foldl_max_range']

/-- A stage with a new id and the next number keeps the table numbered. -/
theorem Numbered.add (h : Numbered rows) {r : StageRow} (hid : ∀ s ∈ rows, s.id ≠ r.id)
    (hnumber : r.stageNumber = nextNumber r.campaignId rows) : Numbered (rows ++ [r]) where
  ids := by
    rw [List.map_append, List.nodup_append]
    refine ⟨h.ids, by simp, ?_⟩
    intro id hmem id' hid' heq
    obtain ⟨s, hs, rfl⟩ := List.mem_map.mp hmem
    exact hid s hs (heq.trans (by simpa using hid'))
  numbers c := by
    rw [h.nextNumber_eq] at hnumber
    rw [List.filter_append, List.map_append, h.numbers c]
    by_cases hc : r.campaignId = c
    · subst hc
      have hone : [r].filter (·.campaignId = r.campaignId) = [r] := by simp
      rw [hone, List.length_append, List.length_singleton, List.range'_1_concat, List.map_cons,
        List.map_nil, hnumber, Nat.add_comm 1]
    · simp [hc]

/-- A campaign that does not have the stage keeps its rows. -/
theorem filter_without {id other : ℕ} (hc : ∀ r ∈ rows, r.id = id → r.campaignId = c)
    (hother : other ≠ c) :
    (rows.filter (·.id ≠ id)).filter (·.campaignId = other) =
      rows.filter (·.campaignId = other) := by
  rw [List.filter_filter]
  apply List.filter_congr
  intro r hr
  have hne : r.campaignId = other → r.id ≠ id := by
    intro hcampaign hid
    exact hother (hcampaign.symm.trans (hc r hr hid))
  by_cases hcampaign : r.campaignId = other
  · simp [hcampaign, hne hcampaign]
  · simp [hcampaign]

/-- Without one stage, and with the rows of its campaign numbered anew, the table is numbered. -/
theorem Numbered.delete (h : Numbered rows) (id c : ℕ)
    (hc : ∀ r ∈ rows, r.id = id → r.campaignId = c) :
    Numbered (numberFrom c 1 (rows.filter (·.id ≠ id))) where
  ids := by
    rw [map_id_numberFrom]
    exact h.ids.sublist (List.filter_sublist.map _)
  numbers other := by
    by_cases hother : other = c
    · subst hother
      have hlen := congrArg List.length (@numbers_numberFrom (rows.filter (·.id ≠ id)) other 1)
      rw [List.length_map, List.length_range'] at hlen
      rw [numbers_numberFrom, hlen]
    · rw [filter_numberFrom_other hother, filter_without hc hother]
      exact h.numbers other

/-! ## Calls -/

section updateRows

variable {α : Type} {p : StageRow → Bool} {f : StageRow → StageRow}

/-- An update that keeps a column keeps the rows that a search by it finds. -/
theorem filter_updateRows_of_eq {rows : List StageRow} {q : StageRow → Bool}
    (h : ∀ r, q (f r) = q r) :
    (updateRows rows p f).filter q = updateRows (rows.filter q) p f := by
  unfold updateRows
  rw [List.filter_map]
  congr 1
  apply List.filter_congr
  intro r _
  by_cases hp : p r <;> simp [hp, h]

/-- An update that keeps a key keeps the list of keys. -/
theorem map_updateRows_of_eq {rows : List StageRow} {key : StageRow → α}
    (h : ∀ r, key (f r) = key r) : (updateRows rows p f).map key = rows.map key := by
  unfold updateRows
  rw [List.map_map]
  apply List.map_congr_left
  intro r _
  by_cases hp : p r <;> simp [hp, h]

end updateRows

section calls

variable (scheduledForOr400 : String → Option String) {t t' : StageTables} {d : StageDesk}
  {call : StageCall} {answer : StageAnswer}

/-- The row that `add_stage` inserts. -/
def newStage (t : StageTables) (c : ℕ) (body : StageIn) (sf : String) : StageRow where
  id := t.nextId
  campaignId := c
  stageNumber := nextNumber c t.stages
  templateId := body.templateId
  scheduledFor := sf
  note := body.note

/-- A call that is carried out, by what it was. -/
inductive CallDone (t : StageTables) : StageCall → StageAnswer → StageTables → Prop
  | add (c : ℕ) (body : StageIn) (sf : String) :
    CallDone t (.add c body) (.added t.nextId (nextNumber c t.stages))
      { t with stages := t.stages ++ [newStage t c body sf], nextId := t.nextId + 1 }
  | update (c id : ℕ) (body : StageIn) (sf : String) (h : t.holds c id) :
    CallDone t (.update c id body) .updated
      { t with stages := updateRows t.stages (·.id = id) fun r =>
          { r with templateId := body.templateId, scheduledFor := sf, note := body.note } }
  | delete (c id : ℕ) (h : t.holds c id) :
    CallDone t (.delete c id) .deleted
      { t with stages := numberFrom c 1 (t.stages.filter (·.id ≠ id)) }

/-- A stage is held where the table has it for the campaign. -/
theorem holds_iff {id : ℕ} :
    t.holds c id = true ↔ ∃ r ∈ t.stages, r.id = id ∧ r.campaignId = c := by
  simp [StageTables.holds]

/-- No two rows share an id, so every row of the id is the campaign's. -/
theorem Numbered.campaign_of_holds (h : Numbered t.stages) {id : ℕ} (hholds : t.holds c id) :
    ∀ r ∈ t.stages, r.id = id → r.campaignId = c := by
  intro r hr hid
  obtain ⟨s, hs, hsid, hcampaign⟩ := holds_iff.mp hholds
  have heq : r = s := List.inj_on_of_nodup_map h.ids hr hs (hid.trans hsid.symm)
  rw [heq]
  exact hcampaign

/-- A deletion is not refused by the constraint, at any of its statements. -/
theorem Numbered.renumber_eq (h : Numbered rows) (id : ℕ) :
    renumber ((stagesOf c (rows.filter (·.id ≠ id))).map (·.id)) 1 (rows.filter (·.id ≠ id)) =
      .ok (numberFrom c 1 (rows.filter (·.id ≠ id))) := by
  have hrise : Rising (rows.filter (·.id ≠ id)) := h.rising.sublist List.filter_sublist
  rw [hrise.stagesOf_eq]
  apply @renumber_rising [] _ c 0 hrise
  · exact h.ids.sublist (List.filter_sublist.map _)
  · simp
  · exact fun s hs _ => h.pos (List.mem_of_mem_filter hs)

/-- What a call does: it is carried out, or it is refused, and never by the constraint on the
numbers. -/
theorem run_cases (h : Numbered t.stages) (hbelow : ∀ r ∈ t.stages, r.id < t.nextId)
    (call : StageCall) :
    (∃ e, e ≠ .sameNumber ∧ call.run scheduledForOr400 t = .error e) ∨
      ∃ answer t', CallDone t call answer t' ∧
        call.run scheduledForOr400 t = .ok (answer, t') := by
  cases call with
  | add c body =>
    simp only [StageCall.run, addNumberedStage]
    cases hsf : scheduledForOr400 body.scheduledFor with
    | none => exact .inl ⟨.badTime, by simp, rfl⟩
    | some sf =>
      by_cases hc : c ∈ t.campaigns
      · by_cases ht : body.templateId ∈ t.templates
        · right
          refine ⟨_, _, .add c body sf, ?_⟩
          have hnumbered : Numbered (t.stages ++ [newStage t c body sf]) :=
            h.add (fun s hs => (hbelow s hs).ne) rfl
          have hcheck := hnumbered.rising.checkNumbers_eq
          simp only [newStage] at hcheck ⊢
          simp [hc, ht, hcheck, bind, Except.bind, pure, Except.pure]
        · exact .inl ⟨.noSuchTemplate, by simp, by
            simp [hc, ht, bind, Except.bind, throw, throwThe, MonadExceptOf.throw]⟩
      · exact .inl ⟨.noSuchCampaign, by simp, by
          simp [hc, bind, Except.bind, throw, throwThe, MonadExceptOf.throw]⟩
  | update c id body =>
    simp only [StageCall.run, updateNumberedStage]
    cases hsf : scheduledForOr400 body.scheduledFor with
    | none => exact .inl ⟨.badTime, by simp, rfl⟩
    | some sf =>
      by_cases hholds : t.holds c id
      · by_cases ht : body.templateId ∈ t.templates
        · right
          refine ⟨_, _, .update c id body sf hholds, ?_⟩
          simp [hholds, ht, pure, Except.pure]
        · exact .inl ⟨.foreignKey, by simp, by
            simp [hholds, ht, bind, Except.bind, throw, throwThe, MonadExceptOf.throw]⟩
      · exact .inl ⟨.noSuchStage, by simp, by
          simp [hholds, bind, Except.bind, throw, throwThe, MonadExceptOf.throw]⟩
  | delete c id =>
    simp only [StageCall.run, deleteNumberedStage]
    by_cases hholds : t.holds c id
    · right
      refine ⟨_, _, .delete c id hholds, ?_⟩
      rw [h.renumber_eq]
      simp [hholds, bind, Except.bind, pure, Except.pure]
    · exact .inl ⟨.noSuchStage, by simp, by
        simp [hholds, bind, Except.bind, throw, throwThe, MonadExceptOf.throw]⟩

/-- A call that is carried out keeps the table numbered. -/
theorem Numbered.done (h : Numbered t.stages) (hbelow : ∀ r ∈ t.stages, r.id < t.nextId)
    (hdone : CallDone t call answer t') : Numbered t'.stages := by
  cases hdone with
  | add c body sf => exact h.add (fun s hs => (hbelow s hs).ne) rfl
  | update c id body sf _ =>
    constructor
    · rw [map_updateRows_of_eq (by intro r; rfl)]
      exact h.ids
    · intro c
      rw [filter_updateRows_of_eq (by intro r; rfl), map_updateRows_of_eq (by intro r; rfl),
        h.numbers c]
      unfold updateRows
      rw [List.length_map]
  | delete c id hholds => exact h.delete id c (h.campaign_of_holds hholds)

/-- The stages of the other campaigns are unchanged. -/
theorem Numbered.other (h : Numbered t.stages) {other : ℕ} (hother : other ≠ call.campaignId)
    (hdone : CallDone t call answer t') :
    t'.stages.filter (·.campaignId = other) = t.stages.filter (·.campaignId = other) := by
  cases hdone with
  | add c body sf =>
    have hne : c ≠ other := Ne.symm hother
    simp [newStage, hne]
  | update c id body sf hholds =>
    have hcampaign := h.campaign_of_holds hholds
    rw [filter_updateRows_of_eq (by intro r; rfl)]
    unfold updateRows
    conv_rhs => rw [← List.map_id (t.stages.filter (·.campaignId = other))]
    apply List.map_congr_left
    intro r hr
    rw [List.mem_filter] at hr
    have hne : r.id ≠ id := by
      intro hid
      apply hother
      rw [← of_decide_eq_true hr.2]
      exact hcampaign r hr.1 hid
    simp [hne]
  | delete c id hholds =>
    have hne : other ≠ c := hother
    rw [filter_numberFrom_other hne, filter_without (h.campaign_of_holds hholds) hne]

end calls

/-! ## A whole run -/

variable (scheduledForOr400 : String → Option String) {d : StageDesk}

/-- What holds of the tables and the answers after every sequence of calls. -/
structure StageTerms (d : StageDesk) : Prop where
  numbered : Numbered d.tables.stages
  below : ∀ r ∈ d.tables.stages, r.id < d.tables.nextId
  gone : ∀ c, ∀ id ∈ deletedFrom c d.log, id < d.tables.nextId
  surviving : ∀ c, (d.tables.stages.filter (·.campaignId = c)).map (·.id) = survivors c d.log
  accepted : ∀ entry ∈ d.log, entry.2 ≠ .error .sameNumber

/-- Tables without stages meet the terms. -/
theorem StageTerms.fresh (campaigns templates : List ℕ) (nextId : ℕ) :
    StageTerms { tables := { campaigns, templates, nextId } } where
  numbered := ⟨List.nodup_nil, fun _ => rfl⟩
  below := by simp
  gone := by simp [deletedFrom]
  surviving := by simp [survivors, addedTo]
  accepted := by simp

section log

variable {log log' : List (StageCall × Except StageError StageAnswer)} {call : StageCall}

/-- What two logs added is what each did. -/
@[simp] theorem addedTo_append : addedTo c (log ++ log') = addedTo c log ++ addedTo c log' :=
  List.filterMap_append

/-- What two logs deleted is what each did. -/
@[simp] theorem deletedFrom_append :
    deletedFrom c (log ++ log') = deletedFrom c log ++ deletedFrom c log' :=
  List.filterMap_append

/-- A refused call adds nothing. -/
@[simp] theorem addedTo_error {e : StageError} : addedTo c [(call, .error e)] = [] := by
  cases call <;> rfl

/-- A refused call deletes nothing. -/
@[simp] theorem deletedFrom_error {e : StageError} : deletedFrom c [(call, .error e)] = [] := by
  cases call <;> rfl

variable {c' id n : ℕ} {body : StageIn} {answer : Except StageError StageAnswer}

/-- An added stage is its campaign's. -/
@[simp] theorem addedTo_add : addedTo c [(.add c' body, .ok (.added id n))] =
    if c' = c then [id] else [] := by
  by_cases hc : c' = c <;> simp [addedTo, hc]

/-- An update adds nothing. -/
@[simp] theorem addedTo_update : addedTo c [(.update c' id body, answer)] = [] := rfl

/-- A delete adds nothing. -/
@[simp] theorem addedTo_delete : addedTo c [(.delete c' id, answer)] = [] := rfl

/-- An add deletes nothing. -/
@[simp] theorem deletedFrom_add : deletedFrom c [(.add c' body, answer)] = [] := rfl

/-- An update deletes nothing. -/
@[simp] theorem deletedFrom_update : deletedFrom c [(.update c' id body, answer)] = [] := rfl

/-- A deleted stage is its campaign's. -/
@[simp] theorem deletedFrom_delete : deletedFrom c [(.delete c' id, .ok .deleted)] =
    if c' = c then [id] else [] := by
  by_cases hc : c' = c <;> simp [deletedFrom, hc]

end log

section done

variable {t t' : StageTables} {call : StageCall} {answer : StageAnswer}

/-- Ids are never given again. -/
theorem CallDone.nextId_le (hdone : CallDone t call answer t') : t.nextId ≤ t'.nextId := by
  cases hdone with
  | add c body sf => exact Nat.le_succ _
  | update c id body sf hholds => exact le_rfl
  | delete c id hholds => exact le_rfl

/-- Every id stays below the next one. -/
theorem CallDone.below (hdone : CallDone t call answer t') (h : ∀ r ∈ t.stages, r.id < t.nextId) :
    ∀ r ∈ t'.stages, r.id < t'.nextId := by
  have hids : ∀ id ∈ t'.stages.map (·.id), id ∈ t.stages.map (·.id) ∨ id < t'.nextId := by
    cases hdone with
    | add c body sf =>
      intro id hid
      rw [List.map_append, List.mem_append] at hid
      apply hid.imp_right
      intro hnew
      simp_all [newStage]
    | update c id body sf hholds =>
      intro id hid
      rw [map_updateRows_of_eq (by intro r; rfl)] at hid
      exact .inl hid
    | delete c id hholds =>
      intro id hid
      rw [map_id_numberFrom] at hid
      exact .inl (List.filter_sublist.map _ |>.subset hid)
  intro r hr
  rcases hids r.id (List.mem_map_of_mem hr) with hold | hnew
  · obtain ⟨s, hs, hid⟩ := List.mem_map.mp hold
    have hlt := h s hs
    have hle := hdone.nextId_le
    omega
  · exact hnew

/-- A stage that a call deletes was in the table. -/
theorem CallDone.deleted_lt (hdone : CallDone t call answer t')
    (h : ∀ r ∈ t.stages, r.id < t.nextId) {id : ℕ}
    (hid : id ∈ deletedFrom c [(call, .ok answer)]) : id < t'.nextId := by
  cases hdone with
  | add c' body sf => simp [deletedFrom] at hid
  | update c' id' body sf hholds => simp [deletedFrom] at hid
  | delete c' id' hholds =>
    obtain ⟨r, hr, hrid, -⟩ := holds_iff.mp hholds
    have heq : id = id' := by
      simp only [deletedFrom, List.filterMap_cons, List.filterMap_nil] at hid
      split_ifs at hid <;> simp_all
    rw [heq, ← hrid]
    exact h r hr

/-- The stages of a campaign stay the surviving ones. -/
theorem StageTerms.surviving_done (h : StageTerms d) (hdone : CallDone d.tables call answer t')
    (c : ℕ) : (t'.stages.filter (·.campaignId = c)).map (·.id) =
      survivors c (d.log ++ [(call, .ok answer)]) := by
  have hbefore := h.surviving c
  unfold survivors at hbefore ⊢
  rw [addedTo_append, deletedFrom_append]
  cases hdone with
  | add c' body sf =>
    have hnew : d.tables.nextId ∉ deletedFrom c d.log := fun hmem =>
      lt_irrefl _ (h.gone c _ hmem)
    rw [List.filter_append, List.map_append, hbefore]
    by_cases hc : c' = c
    · simp [newStage, hc, hnew, List.filter_append]
    · simp [newStage, hc]
  | update c' id body sf hholds =>
    rw [filter_updateRows_of_eq (by intro r; rfl), map_updateRows_of_eq (by intro r; rfl)]
    simpa using hbefore
  | delete c' id hholds =>
    by_cases hc : c = c'
    · subst hc
      rw [map_id_filter_numberFrom, addedTo_delete, deletedFrom_delete, if_pos rfl,
        List.append_nil]
      have hcomm : (d.tables.stages.filter (·.id ≠ id)).filter (·.campaignId = c) =
          (d.tables.stages.filter (·.campaignId = c)).filter (·.id ≠ id) :=
        List.filter_comm ..
      have hmap : ((d.tables.stages.filter (·.campaignId = c)).filter (·.id ≠ id)).map (·.id) =
          ((d.tables.stages.filter (·.campaignId = c)).map (·.id)).filter (· ≠ id) := by
        rw [List.filter_map]
        rfl
      rw [hcomm, hmap, hbefore, List.filter_filter]
      apply List.filter_congr
      intro i _
      simp [and_comm]
    · have hne : c ≠ (StageCall.delete c' id).campaignId := hc
      have hsame := h.numbered.other hne (.delete c' id hholds)
      rw [hsame, hbefore]
      simp [Ne.symm hc]

end done

/-- A call keeps the terms. -/
theorem StageTerms.call (h : StageTerms d) (call : StageCall) :
    StageTerms (d.call scheduledForOr400 call) := by
  unfold StageDesk.call
  rcases run_cases scheduledForOr400 h.numbered h.below call with
    ⟨e, he, hrun⟩ | ⟨answer, t', hdone, hrun⟩
  · rw [hrun]
    constructor
    · exact h.numbered
    · exact h.below
    · simpa using h.gone
    · simpa [survivors] using h.surviving
    · intro entry hentry
      rw [List.mem_append, List.mem_singleton] at hentry
      rcases hentry with hentry | rfl
      · exact h.accepted entry hentry
      · simpa using he
  · rw [hrun]
    constructor
    · exact h.numbered.done h.below hdone
    · exact hdone.below h.below
    · intro c id hid
      rw [deletedFrom_append, List.mem_append] at hid
      rcases hid with hid | hid
      · exact (h.gone c id hid).trans_le hdone.nextId_le
      · exact hdone.deleted_lt h.below hid
    · exact h.surviving_done hdone
    · intro entry hentry
      rw [List.mem_append, List.mem_singleton] at hentry
      rcases hentry with hentry | rfl
      · exact h.accepted entry hentry
      · simp

/-- Any calls keep the terms. -/
theorem StageTerms.calls (h : StageTerms d) (cs : List StageCall) :
    StageTerms (d.calls scheduledForOr400 cs) := by
  unfold StageDesk.calls
  induction cs generalizing d with
  | nil => exact h
  | cons c cs ih => exact ih (h.call scheduledForOr400 c)

/-- A call leaves the stages of the other campaigns as they were. -/
theorem StageTerms.call_other (h : StageTerms d) (call : StageCall) {other : ℕ}
    (hother : other ≠ call.campaignId) :
    stagesOf other (d.call scheduledForOr400 call).tables.stages =
      stagesOf other d.tables.stages := by
  have hafter := h.call scheduledForOr400 call
  rw [hafter.numbered.stagesOf_eq, h.numbered.stagesOf_eq]
  unfold StageDesk.call
  rcases run_cases scheduledForOr400 h.numbered h.below call with
    ⟨e, he, hrun⟩ | ⟨answer, t', hdone, hrun⟩
  · rw [hrun]
  · rw [hrun]
    exact h.numbered.other hother hdone

/-- After every sequence of calls, the stages of each campaign are those that were added to it
and not deleted, in that order, and hold the numbers from 1 on. No statement was refused by the
constraint on the numbers, and a further call leaves the other campaigns' stages as they are. -/
theorem stages_one_to_k (scheduledForOr400 : String → Option String)
    (campaigns templates : List ℕ) (nextId : ℕ) (cs : List StageCall) :
    let d := StageDesk.calls scheduledForOr400 { tables := { campaigns, templates, nextId } } cs
    (∀ c, (stagesOf c d.tables.stages).map (·.stageNumber) =
        List.range' 1 (stagesOf c d.tables.stages).length) ∧
      (∀ c, (stagesOf c d.tables.stages).map (·.id) = survivors c d.log) ∧
      (∀ entry ∈ d.log, entry.2 ≠ .error .sameNumber) ∧
      ∀ call : StageCall, ∀ other, other ≠ call.campaignId →
        stagesOf other (d.call scheduledForOr400 call).tables.stages =
          stagesOf other d.tables.stages := by
  intro d
  have h : StageTerms d := (StageTerms.fresh campaigns templates nextId).calls _ cs
  refine ⟨?_, ?_, h.accepted, ?_⟩
  · intro c
    rw [h.numbered.stagesOf_eq]
    exact h.numbered.numbers c
  · intro c
    rw [h.numbered.stagesOf_eq]
    exact h.surviving c
  · intro call other hother
    exact h.call_other _ call hother

end Mailman.Analysis
