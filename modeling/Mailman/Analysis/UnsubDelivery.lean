import Mailman.Analysis.SuppressionOrder
import Mailman.Interface.UnsubTerms

/-!
# When no unsubscribe is lost

Every request of `put_unsub` and of a pull is an `UnsubStep`, so a run that keeps the promise
`NothingBehind` keeps the terms of the unsubscribe log, and pulls that complete then bring every
returned call to the terminal. Inside one second the code does not keep the promise: a row
whose hash sorts before the cursor is never served.
-/

set_option autoImplicit false

namespace Mailman.Analysis

open Mailman.Library Mailman.Model Mailman.Interface

/-! ## The merge -/

/-- A table covers a scope when it blocks the hash for as much. -/
theorem covers_iff {t : Suppressions} {h : String} {scope : UnsubScope} :
    Covers t h scope ↔
      (blocked t h).isSome ∧ (scope = .all → blocked t h = some .everything) := by
  unfold Covers
  rw [suppressedMap_promotional, suppressedMap_transactional]

/-- One merged signal that blocks everything is enough. -/
theorem foldl_keep_of_merged {l : List Signal} {s : Signal} (hs : s ∈ l)
    (he : s.strength = .everything) (hm : s.merged = true) (b : Option Strength) :
    l.foldl Signal.keep b = some .everything := by
  induction l generalizing b with
  | nil => cases hs
  | cons s' l ih =>
    rw [List.foldl_cons]
    rcases List.mem_cons.mp hs with rfl | hs
    · have hkeep : s.keep b = some .everything := by
        rw [join_of_merged hm]
        simp [Signal.join, he]
      rw [hkeep]
      exact foldl_keep_everything l
    · exact ih hs _

/-- A merge takes nothing off the table. -/
theorem covers_mergeUnsubs {t : Suppressions} {h : String} {scope : UnsubScope} (now : String)
    (unsubs : List UnsubIn) (hc : Covers t h scope) :
    Covers (mergeUnsubs now t unsubs).1 h scope := by
  rw [covers_iff] at hc ⊢
  unfold mergeUnsubs
  rw [blocked_mergeUnsubs, foldl_keep_isSome]
  refine ⟨.inl hc.1, fun hall => ?_⟩
  rw [hc.2 hall]
  exact foldl_keep_everything _

/-- A served scope is read back. -/
theorem ofText_toIn (stampText : ℕ → String) (r : UnsubLogRow) :
    UnsubScope.ofText (r.toIn stampText).scope = r.scope := by
  unfold UnsubLogRow.toIn
  cases r.scope <;> rfl

/-- A merge covers every row it is given. -/
theorem covers_mergeUnsubs_mem {unsubs : List UnsubLogRow} {r : UnsubLogRow} (hr : r ∈ unsubs)
    (h0 : r.emailHash ≠ "") (now : String) (stampText : ℕ → String) (t : Suppressions) :
    Covers (mergeUnsubs now t (unsubs.map (·.toIn stampText))).1 r.emailHash r.scope := by
  have hsignal : unsubSignal (r.toIn stampText) =
      some ⟨r.emailHash, rowStrength .unsubscribe r.scope, true⟩ := by
    have hhash : (r.toIn stampText).emailHash.getD "" = r.emailHash := rfl
    unfold unsubSignal
    rw [ofText_toIn, hhash, if_neg h0]
  have hmem : (⟨r.emailHash, rowStrength .unsubscribe r.scope, true⟩ : Signal) ∈
      ((unsubs.map (·.toIn stampText)).filterMap unsubSignal).filter
        (·.hash = r.emailHash) := by
    rw [List.mem_filter]
    refine ⟨List.mem_filterMap.mpr ⟨r.toIn stampText, List.mem_map_of_mem hr, hsignal⟩, ?_⟩
    simp
  rw [covers_iff]
  unfold mergeUnsubs
  rw [blocked_mergeUnsubs, foldl_keep_isSome]
  refine ⟨.inr (List.ne_nil_of_mem hmem), fun hall => ?_⟩
  exact foldl_keep_of_merged hmem (by simp [rowStrength, hall]) rfl _

/-! ## The programs -/

/-- The terms on which `put_unsub` calls and pulls run side by side. -/
def unsubDiscipline : Discipline UnsubWorld where
  inv := UnsubInv
  rely _ := UnsubLater
  guar _ := UnsubStep
  cond := NothingBehind
  rely_refl _ := .refl
  rely_trans _ _ _ _ := .trans
  guar_rely _ _ _ _ _ _ h hc := h.later hc
  keep _ _ _ hs h hc := h.inv hs hc

section programs

variable {α β : Type} {n : ℕ} {Q : β → UnsubWorld → Prop} {s : UnsubWorld}

/-- A request of `put_unsub`: it writes at most one log row. -/
theorem safe_unsubCloud {f : UnsubWorld → UnsubInput → UnsubWorld × α} {k : α → UnsubProc β}
    (hf : ∀ t i, (f t i).1.table = t.table ∧ (f t i).1.cursor = t.cursor ∧
      (f t i).1.served = t.served ∧ (f t i).1.missed = t.missed ∧
      ((f t i).1.log = t.log ∨ ∃ row, (f t i).1.log = (t.putLog row).log))
    (h : ∀ a t, unsubDiscipline.Safe n (k a) Q t) :
    unsubDiscipline.Safe n ((Proc.act f).bind k) Q s := by
  refine Discipline.Safe.act fun t _ _ i => ⟨?_, h _ _⟩
  obtain ⟨h₁, h₂, h₃, h₄, h₅⟩ := hf t i
  exact .cloud h₁ h₂ h₃ h₄ h₅

/-- A call keeps the terms. -/
theorem safe_putUnsub (h : String) (scope : UnsubScope) :
    unsubDiscipline.Safe n (putUnsub h scope) (fun _ _ => True) s := by
  unfold putUnsub
  refine safe_unsubCloud (fun _ _ => ⟨rfl, rfl, rfl, rfl, .inl rfl⟩) fun now t => ?_
  refine safe_unsubCloud (fun t _ => ?_) fun isNew t => ?_
  · split
    · exact ⟨rfl, rfl, rfl, rfl, .inl rfl⟩
    · dsimp only
      split <;> exact ⟨rfl, rfl, rfl, rfl, .inl rfl⟩
  dsimp only [Proc.bind_eq]
  split
  · refine safe_unsubCloud (fun _ _ => ⟨rfl, rfl, rfl, rfl, .inl rfl⟩) fun _ t => ?_
    split
    · exact safe_unsubCloud (fun _ _ => ⟨rfl, rfl, rfl, rfl, .inr ⟨_, rfl⟩⟩) fun _ _ => trivial
    · trivial
  · split
    · exact safe_unsubCloud (fun _ _ => ⟨rfl, rfl, rfl, rfl, .inr ⟨_, rfl⟩⟩) fun _ _ => trivial
    · trivial

/-- Behind the cursor a pull has read, everything stays blocked. -/
theorem covers_behind {t u : UnsubWorld} (ht : UnsubInv t) (htu : UnsubLater t u)
    {r : UnsubLogRow} (hr : r ∈ u.log) (h0 : r.emailHash ≠ "")
    (hpast : pastCursor t.cursor r = false) : Covers u.table r.emailHash r.scope := by
  rcases htu.log r hr with hold | hnew
  · exact htu.table _ _ (ht.passed r hold h0 hpast)
  · obtain ⟨c, hcur, hle⟩ := pastCursor_eq_false hpast
    obtain ⟨q, hq, rfl⟩ := ht.reached c hcur
    exact hnew ⟨q, hq, hle⟩

/-- A row up to the last one of a page is behind the cursor, on the page, or was passed over. -/
theorem mem_listUnsubs_or_passed {u : UnsubWorld} (hu : UnsubInv u) {since : Option UnsubKey}
    {limit : ℕ} {hidden : List UnsubLogRow} {r last : UnsubLogRow} (hr : r ∈ u.log)
    (hpast : pastCursor since r = true) (hlast : last ∈ u.listUnsubs since limit hidden)
    (hle : r.key ≤ last.key) :
    r ∈ u.listUnsubs since limit hidden ∨
      r ∈ u.log.filter fun r => pastCursor since r &&
        !(u.listUnsubs since limit hidden).contains r &&
        (u.listUnsubs since limit hidden).any (r.key < ·.key) := by
  by_cases hmem : r ∈ u.listUnsubs since limit hidden
  · exact .inl hmem
  right
  have hlog : last ∈ u.log := List.mem_of_mem_filter (mem_of_mem_page hlast)
  have hlt : r.key < last.key := by
    refine lt_of_le_of_ne hle fun heq => hmem ?_
    rwa [List.inj_on_of_nodup_map hu.keys hr hlog heq]
  rw [List.mem_filter, Bool.and_eq_true, Bool.and_eq_true, List.any_eq_true]
  exact ⟨hr, ⟨hpast, by simpa using hmem⟩, last, hlast, by simpa using hlt⟩

/-- A pull keeps the terms. -/
theorem safe_pullUnsubs : unsubDiscipline.Safe n pullUnsubs (fun _ _ => True) s := by
  unfold pullUnsubs
  refine Discipline.Safe.act fun t _ ht _ => ⟨.cloud rfl rfl rfl rfl (.inl rfl), ?_⟩
  refine Discipline.Safe.act fun u htu hu i => ⟨?_, ?_⟩
  · exact .query rfl rfl rfl rfl (fun q hq => List.mem_append_right _ hq)
      fun r hr => List.mem_append_right _ hr
  dsimp only
  generalize hpage : u.listUnsubs t.cursor 1000 i.hidden = page
  generalize hpassed : (u.log.filter fun r => pastCursor t.cursor r && !page.contains r &&
    page.any (r.key < ·.key)) = passed
  cases hlast : page.getLast? with
  | none => trivial
  | some last =>
    have hmem : last ∈ page := List.mem_of_getLast? hlast
    -- what the page leaves out up to its last row was blocked before or is in `passed`
    have hleft : ∀ r ∈ u.log, r.emailHash ≠ "" → r.key ≤ last.key →
        Covers u.table r.emailHash r.scope ∨ r ∈ page ∨ r ∈ passed := by
      intro r hr h0 hle
      cases hpast : pastCursor t.cursor r with
      | false => exact .inl (covers_behind ht htu hr h0 hpast)
      | true =>
        subst hpage hpassed
        exact .inr (mem_listUnsubs_or_passed hu hr hpast hmem hle)
    refine Discipline.Safe.act fun w hvw hw j => ⟨?_, ?_⟩
    · exact .merge (fun _ _ hk => covers_mergeUnsubs _ _ hk) rfl rfl rfl rfl rfl
    -- after the merge only rows in `missed` may be uncovered up to the last row
    have hmerged : ∀ r ∈ w.log, r.emailHash ≠ "" → r.key ≤ last.key →
        Covers (mergeUnsubs j.nowText w.table (page.map (·.toIn j.stampText))).1
          r.emailHash r.scope ∨ r ∈ w.missed := by
      intro r hr h0 hle
      rcases hvw.log r hr with hold | hnew
      · rcases hleft r hold h0 hle with hcov | hin | hin
        · exact .inl (covers_mergeUnsubs _ _ (hvw.table _ _ hcov))
        · exact .inl (covers_mergeUnsubs_mem hin h0 _ _ _)
        · exact .inr (hvw.missed r (List.mem_append_left _ hin))
      · have hcov := hnew ⟨last, List.mem_append_left _ hmem, hle⟩
        exact .inl (covers_mergeUnsubs _ _ hcov)
    have hserved : last ∈ w.served := hvw.served last (List.mem_append_left _ hmem)
    refine Discipline.Safe.act fun x hwx hx _ => ⟨?_, trivial⟩
    refine .advance last.key rfl rfl rfl rfl rfl rfl ⟨last, hwx.served last hserved, rfl⟩ ?_
    intro r hr h0 hle
    rcases hwx.log r hr with hold | hnew
    · rcases hmerged r hold h0 hle with hcov | hin
      · exact hwx.table _ _ hcov
      · exact hx.missed r (hwx.missed r hin)
    · exact hnew ⟨last, hserved, hle⟩

/-- Every operation keeps the terms of the unsubscribe log. -/
theorem unsubCode_safe (n : ℕ) (op : UnsubOp) (s : UnsubWorld) :
    unsubDiscipline.Safe n (unsubCode n op) (fun _ _ => True) s := by
  cases op with
  | put h scope => exact Discipline.Safe.bind ((safe_putUnsub h scope).weaken fun _ _ _ => trivial)
  | pull => exact safe_pullUnsubs

end programs

/-! ## Pulls that complete -/

/-- A round of the pull loop that nothing interrupts, whatever number `n` was at before. -/
def pullCycle (n : ℕ) (i : UnsubInput) : List (Event UnsubOp UnsubInput) :=
  .stop n :: .start n .pull :: (List.replicate 4 i).map (.step n)

/-- What such a round leaves. -/
def pullRound (s : UnsubWorld) (i : UnsubInput) : UnsubWorld :=
  let unsubs := s.listUnsubs s.cursor 1000 i.hidden
  let passed := s.log.filter fun r =>
    pastCursor s.cursor r && !unsubs.contains r && unsubs.any (r.key < ·.key)
  let s' := { s with served := unsubs ++ s.served, missed := passed ++ s.missed }
  match unsubs.getLast? with
  | none => s'
  | some last => { s' with
      table := (mergeUnsubs i.nowText s.table (unsubs.map (·.toIn i.stampText))).1
      cursor := some last.key }

/-- The rows a pull can still serve. -/
def waiting (s : UnsubWorld) : List UnsubLogRow := s.log.filter (pastCursor s.cursor)

/-- A pull alone is a round. -/
theorem alone_pullUnsubs (s : UnsubWorld) (i : UnsubInput) :
    (pullUnsubs.alone s (List.replicate 4 i)).1 = pullRound s i := by
  unfold pullRound
  simp only [pullUnsubs, syncPull, Proc.get, Proc.act, Proc.bind_eq, Proc.bind, List.replicate,
    Proc.alone]
  cases (s.listUnsubs s.cursor 1000 i.hidden).getLast? <;> rfl

/-- A pull that runs to its end is a round. -/
theorem run_pullCycle (p : Pool UnsubWorld UnsubInput) (n : ℕ) (i : UnsubInput) :
    (p.run unsubCode (pullCycle n i)).state = pullRound p.state i := by
  unfold pullCycle
  rw [Pool.run_restart, Pool.run_loaded]
  exact alone_pullUnsubs p.state i

/-- A query that sees everything passes over nothing. -/
theorem passed_eq_nil (s : UnsubWorld) (since : Option UnsubKey) (limit : ℕ) :
    (s.log.filter fun r => pastCursor since r && !(s.listUnsubs since limit []).contains r &&
      (s.listUnsubs since limit []).any (r.key < ·.key)) = [] := by
  rw [List.filter_eq_nil_iff]
  intro r hr hall
  rw [Bool.and_eq_true, Bool.and_eq_true, List.any_eq_true] at hall
  obtain ⟨⟨hpast, hnot⟩, q, hq, hlt⟩ := hall
  have hmem : r ∈ s.listUnsubs since limit [] :=
    mem_page_of_lt hq (List.mem_filter.mpr ⟨hr, by simp [hpast]⟩) (by simpa using hlt)
  simp [hmem] at hnot

/-- Pulls keep the promise by themselves. -/
theorem steps_pullCycle (p : Pool UnsubWorld UnsubInput) (n : ℕ) {i : UnsubInput}
    (hi : i.hidden = []) : p.Steps unsubCode NothingBehind (pullCycle n i) := by
  have hrefl : ∀ s, NothingBehind s s := fun s => .of_eq rfl rfl rfl
  refine Pool.steps_restart _ hrefl p n _ _ (Pool.steps_loaded _ hrefl p n _ _ ?_)
  have hpassed := passed_eq_nil p.state p.state.cursor 1000
  simp only [unsubCode, pullUnsubs, syncPull, Proc.get, Proc.act, Proc.bind_eq, Proc.bind,
    List.replicate, Proc.AloneSteps, hi]
  refine ⟨hrefl _, .of_eq rfl rfl (congrArg (· ++ p.state.missed) hpassed), ?_⟩
  split
  · trivial
  · exact ⟨.of_eq rfl rfl rfl, .of_eq rfl rfl rfl, trivial⟩

/-- A round leaves the log and the calls. -/
theorem pullRound_log (s : UnsubWorld) (i : UnsubInput) :
    (pullRound s i).log = s.log ∧ (pullRound s i).done = s.done := by
  unfold pullRound
  dsimp only
  split <;> exact ⟨rfl, rfl⟩

/-- Every round takes a thousand rows off what is waiting. -/
theorem length_waiting_pullRound {s : UnsubWorld} (hs : UnsubInv s) {i : UnsubInput}
    (hi : i.hidden = []) : (waiting (pullRound s i)).length ≤ (waiting s).length - 1000 := by
  have hsees : s.listUnsubs s.cursor 1000 i.hidden = page UnsubLogRow.key 1000 (waiting s) := by
    simp [UnsubWorld.listUnsubs, waiting, hi]
  have hnodup : (waiting s).Nodup := (List.Nodup.of_map _ hs.keys).filter _
  unfold pullRound
  rw [hsees]
  generalize hpage : page UnsubLogRow.key 1000 (waiting s) = unsubs
  dsimp only
  cases hlast : unsubs.getLast? with
  | none =>
    -- an empty page means that nothing is waiting
    have hnil : unsubs = [] := List.getLast?_eq_none_iff.mp hlast
    have hempty : waiting s = [] := by
      rw [List.eq_nil_iff_forall_not_mem]
      intro r hr
      have hmem : r ∈ page UnsubLogRow.key 1000 (waiting s) :=
        mem_page_of_length_lt (by simp [hpage, hnil]) hr
      simp [hpage, hnil] at hmem
    change (waiting s).length ≤ _
    simp [hempty]
  | some last =>
    have hmem : last ∈ unsubs := List.mem_of_getLast? hlast
    have hwait : last ∈ waiting s := mem_of_mem_page (hpage ▸ hmem)
    -- the page and what waits behind its last row are disjoint parts of what was waiting
    have hbehind : ∀ r ∈ s.log.filter (pastCursor (some last.key)),
        r ∈ waiting s ∧ r ∉ unsubs := by
      intro r hr
      obtain ⟨hlog, hlt⟩ := List.mem_filter.mp hr
      have hlt : last.key < r.key := by simpa [pastCursor] using hlt
      refine ⟨List.mem_filter.mpr ⟨hlog, ?_⟩, fun hin => ?_⟩
      · have hpast := (List.mem_filter.mp hwait).2
        unfold pastCursor at hpast ⊢
        split
        · rfl
        · next c hc =>
          rw [hc] at hpast
          exact decide_eq_true (lt_trans (of_decide_eq_true hpast) hlt)
      · have hsorted : unsubs.Pairwise fun a b => a.key ≤ b.key := hpage ▸ pairwise_page
        obtain ⟨front, rfl⟩ := List.getLast?_eq_some_iff.mp hlast
        rcases List.mem_append.mp hin with hf | hf
        · have := (List.pairwise_append.mp hsorted).2.2 r hf last (List.mem_singleton_self _)
          exact absurd this (not_le.mpr hlt)
        · rw [List.mem_singleton.mp hf] at hlt
          exact lt_irrefl _ hlt
    have hsub : (unsubs ++ s.log.filter (pastCursor (some last.key))).Subperm (waiting s) := by
      refine List.subperm_of_subset ?_ ?_
      · rw [List.nodup_append]
        refine ⟨hpage ▸ nodup_page hnodup, (List.Nodup.of_map _ hs.keys).filter _, ?_⟩
        rintro a ha b hb rfl
        exact (hbehind a hb).2 ha
      · intro r hr
        rcases List.mem_append.mp hr with hr | hr
        · exact mem_of_mem_page (hpage ▸ hr)
        · exact (hbehind r hr).1
    have hlen := hsub.length_le
    rw [List.length_append] at hlen
    change (s.log.filter (pastCursor (some last.key))).length ≤ _
    rcases Nat.lt_or_ge unsubs.length 1000 with hshort | hfull
    · -- a short page was everything
      have hall : (waiting s).length ≤ unsubs.length := by
        refine (List.subperm_of_subset hnodup fun r hr => ?_).length_le
        rw [← hpage] at hshort ⊢
        exact mem_page_of_length_lt hshort hr
      omega
    · omega

/-- The terms hold after a run that keeps the promise. -/
theorem unsubRun_sound (table : Suppressions) (es : List (Event UnsubOp UnsubInput))
    (hC : (Pool.idle { table := table }).Steps unsubCode NothingBehind es) :
    unsubDiscipline.Sound ((Pool.idle { table := table }).run unsubCode es) := by
  have h0 : UnsubInv { table := table } := by constructor <;> simp
  have hsound : unsubDiscipline.Sound
      (Pool.idle { table := table } : Pool UnsubWorld UnsubInput) :=
    Discipline.sound_idle h0
  exact Discipline.run_sound (fun n op s _ => unsubCode_safe n op s) hsound es hC

/-- After `k` rounds at most what `k` pages cannot hold is waiting. -/
theorem run_pullCycles {p : Pool UnsubWorld UnsubInput} (h : unsubDiscipline.Sound p) (n : ℕ)
    {i : UnsubInput} (hi : i.hidden = []) (k : ℕ) :
    unsubDiscipline.Sound (p.run unsubCode (List.replicate k (pullCycle n i)).flatten) ∧
    (p.run unsubCode (List.replicate k (pullCycle n i)).flatten).state.log = p.state.log ∧
    (p.run unsubCode (List.replicate k (pullCycle n i)).flatten).state.done = p.state.done ∧
    (waiting (p.run unsubCode (List.replicate k (pullCycle n i)).flatten).state).length ≤
      (waiting p.state).length - 1000 * k := by
  induction k generalizing p with
  | zero => exact ⟨h, rfl, rfl, Nat.le_refl _⟩
  | succ k ih =>
    have hnext : unsubDiscipline.Sound (p.run unsubCode (pullCycle n i)) :=
      Discipline.run_sound (fun n op s _ => unsubCode_safe n op s) h _ (steps_pullCycle p n hi)
    obtain ⟨hsound, hlog, hdone, hlen⟩ := ih hnext
    have hround := length_waiting_pullRound h.1 hi
    rw [run_pullCycle] at hlog hdone hlen
    rw [List.replicate_succ, List.flatten_cons, Pool.run_append]
    refine ⟨hsound, hlog.trans (pullRound_log _ _).1, hdone.trans (pullRound_log _ _).2, ?_⟩
    omega

/-- **No unsubscribe is lost** in a run of `put_unsub` calls and pulls, crashes included, in
which every step keeps the promise: once as many more pulls have completed as the log has pages,
the terminal blocks the hash of every call that has returned for at least its scope.
SOURCE: cloud/dynamo.py:673-756, cloud/sync.py:41-70, terminal/sync_client.py:113-149, 206-245 -/
theorem unsub_delivered (table : Suppressions) (es : List (Event UnsubOp UnsubInput))
    (hC : (Pool.idle { table := table }).Steps unsubCode NothingBehind es) (n : ℕ) (i : UnsubInput)
    (hi : i.hidden = []) (k : ℕ)
    (hk : ((Pool.idle { table := table }).run unsubCode es).state.log.length ≤ 1000 * k) :
    ∀ c ∈ ((Pool.idle { table := table }).run unsubCode es).state.done, c.1 ≠ "" →
      Covers ((Pool.idle { table := table }).run unsubCode
        (es ++ (List.replicate k (pullCycle n i)).flatten)).state.table c.1 c.2 := by
  intro c hc h0
  have hsound := unsubRun_sound table es hC
  rw [Pool.run_append]
  generalize (Pool.idle { table := table }).run unsubCode es = p at hsound hk hc ⊢
  obtain ⟨hend, hlog, hdone, hlen⟩ := run_pullCycles hsound n hi k
  generalize p.run unsubCode (List.replicate k (pullCycle n i)).flatten = q at hend hlog hdone hlen
  rcases hend.1.done c (hdone ▸ hc) with hcov | ⟨r, hr, hhash, hle⟩
  · exact hcov
  -- nothing is waiting any more, so the row is behind the cursor
  have hnone : waiting q.state = [] := by
    have hfew : (waiting p.state).length ≤ p.state.log.length := List.length_filter_le _ _
    exact List.eq_nil_of_length_eq_zero (by omega)
  have hpast : pastCursor q.state.cursor r = false := by
    simpa using List.filter_eq_nil_iff.mp hnone r hr
  have hcov := hend.1.passed r hr (hhash ▸ h0) hpast
  rw [hhash] at hcov
  exact hcov.mono hle

/-! ## Without the promise -/

/-- When nothing waits behind the cursor, no pull changes the table. -/
theorem run_pullCycles_idle {p : Pool UnsubWorld UnsubInput} (h : waiting p.state = []) (n : ℕ)
    (k : ℕ) :
    (p.run unsubCode (List.replicate k (pullCycle n {})).flatten).state.table = p.state.table := by
  induction k generalizing p with
  | zero => rfl
  | succ k ih =>
    have hpage : p.state.listUnsubs p.state.cursor 1000 [] = [] := by
      have hsees : p.state.listUnsubs p.state.cursor 1000 [] =
          page UnsubLogRow.key 1000 (waiting p.state) := by
        simp [UnsubWorld.listUnsubs, waiting]
      rw [hsees, h]
      rfl
    have hround : pullRound p.state {} = p.state := by
      unfold pullRound
      simp [hpage]
    have hnext := run_pullCycle p n {}
    rw [hround] at hnext
    rw [List.replicate_succ, List.flatten_cons, Pool.run_append]
    have := ih (p := p.run unsubCode (pullCycle n {})) (by rw [hnext]; exact h)
    rw [this, hnext]

section witness

/-- One call that blocks everything. -/
private def unsubPut (n tick : ℕ) (h : String) : List (Event UnsubOp UnsubInput) :=
  .start n (.put h .all) :: List.replicate 3 (.step n { tick := tick })

/-- Two calls in one second with a pull between them, the second one's hash past the cursor. -/
private def aroundPull : List (Event UnsubOp UnsubInput) :=
  unsubPut 0 5 "a" ++ pullCycle 1 {} ++ unsubPut 2 0 "b"

/-- The second call of the second is delivered by the next pull. -/
theorem unsub_delivered_demo :
    Covers ((Pool.idle {}).run unsubCode
      (aroundPull ++ (List.replicate 1 (pullCycle 1 {})).flatten)).state.table "b" .all :=
  unsub_delivered (fun _ => none) aroundPull (by decide +kernel) 1 {} rfl 1 (by decide +kernel)
    ("b", .all) (by decide +kernel) (by decide)

/-- Two calls in one second with a pull between them: the second one's hash sorts before the
cursor, and no number of pulls delivers it. -/
theorem unsub_lost :
    ¬ ∀ (es : List (Event UnsubOp UnsubInput)),
      ∀ c ∈ ((Pool.idle {}).run unsubCode es).state.done, c.1 ≠ "" →
        ∃ enough, ∀ k, enough ≤ k → Covers ((Pool.idle {}).run unsubCode
          (es ++ (List.replicate k (pullCycle 9 {})).flatten)).state.table c.1 c.2 := by
  intro hall
  have hdone : (("a", .all) : String × UnsubScope) ∈ ((Pool.idle {}).run unsubCode
      (unsubPut 0 5 "b" ++ pullCycle 1 {} ++ unsubPut 2 0 "a")).state.done := by decide
  obtain ⟨enough, hk⟩ := hall _ _ hdone (by decide)
  have hcov := hk enough (Nat.le_refl _)
  rw [Pool.run_append] at hcov
  have hwait : waiting ((Pool.idle {}).run unsubCode
      (unsubPut 0 5 "b" ++ pullCycle 1 {} ++ unsubPut 2 0 "a")).state = [] := by decide
  rw [run_pullCycles_idle hwait] at hcov
  revert hcov
  decide

end witness

end Mailman.Analysis
