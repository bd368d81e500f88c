import Mathlib.Data.Finset.Card
import Mathlib.Data.List.Pairwise
import Mailman.Interface.OutcomeView

/-!
# The outcome cursor misses nothing and repeats nothing

The invariant `Delivered` splits the resolved packs at the cursor: what the pages have
returned lies at or before it, and the newest resolution of every pack lies past it or on a
page. A write keeps the second half because the cursor never enters the newest seconds; a
poll keeps it because a page has no gap. Once everything has settled, every poll that still
owes something returns at least one newest resolution.
-/

set_option autoImplicit false

namespace Mailman.Analysis

open Mailman.Library Mailman.Model Mailman.Interface

variable {Id : Type} [LinearOrder Id]

/-- Where the cursor stands between the pages and what is still to come. -/
structure Delivered (w : OutcomeWorld Id) : Prop where
  versions : Versions w.cloud
  increasing : w.pages.flatten.Pairwise fun a b => outcomeKey a < outcomeKey b
  behind : ∀ row ∈ w.pages.flatten, w.cursor.before (outcomeKey row) = false
  settled : w.cursor = .start ∨
    ∃ (t : ℕ) (pid : Id), w.cursor = .after t pid ∧ t + resolvedSettleS ≤ w.polledAt
  owed : ∀ id row, w.cloud.lookup id = some row → row.status.resolved = true →
    w.cursor.before (outcomeKey row) = true ∨ row ∈ w.pages.flatten

/-! ## The order of keys at a cursor -/

/-- What is not past a cursor comes before what is. -/
theorem lt_of_before {since : OutcomeCursor Id} {k k' : Stamp ×ₗ Id}
    (hk : since.before k = false) (hk' : since.before k' = true) : k < k' := by
  cases since with
  | start => exact absurd hk (by simp [OutcomeCursor.before])
  | time t =>
    simp only [OutcomeCursor.before, decide_eq_false_iff_not, decide_eq_true_eq, not_lt] at hk hk'
    exact Prod.Lex.lt_iff.mpr (.inl (lt_of_le_of_lt hk hk'))
  | after t pid =>
    simp only [OutcomeCursor.before, decide_eq_false_iff_not, decide_eq_true_eq, not_lt] at hk hk'
    exact lt_of_le_of_lt hk hk'

/-- A key is past a row's cursor when it is greater than the row's key. -/
theorem outcomeCursor_before_iff (row : Pack Id) (k : Stamp ×ₗ Id) :
    (outcomeCursor row).before k = true ↔ outcomeKey row < k := by
  simp [outcomeCursor, OutcomeCursor.before, outcomeKey]

omit [LinearOrder Id] in
/-- Rows of different packs have different keys. -/
theorem key_ne_of_packId_ne {a b : Pack Id} (h : a.packId ≠ b.packId) :
    outcomeKey a ≠ outcomeKey b := by
  intro heq
  have hpair : (outcomeTime a, a.packId) = (outcomeTime b, b.packId) := toLex.injective heq
  exact h (Prod.mk.inj hpair).2

/-- A later outcome time is past a cursor of an earlier one. -/
theorem key_lt_of_time_lt {a b : Pack Id} (h : outcomeTime a < outcomeTime b) :
    outcomeKey a < outcomeKey b := Prod.Lex.lt_iff.mpr (.inl h)

/-! ## A request on the table -/

/-- What a write may do to the versions: nothing, or one new version of one item, which is
resolved if the item was and carries a stamp no poll has passed if it is. -/
theorem write_cases {w : OutcomeWorld Id} (hv : Versions w.cloud) {i : CloudInput Id}
    {req : CloudWrite Id} (hok : w.WriteOk i req) :
    (w.exec (.write req i)).cloud.packs = w.cloud.packs ∨
    ∃ id new, (w.exec (.write req i)).cloud.packs =
        Function.update w.cloud.packs id (new :: w.cloud.packs id) ∧
      new.packId = id ∧
      (∀ old, w.cloud.lookup id = some old → old.status.resolved = true →
        new.status.resolved = true) ∧
      (new.status.resolved = true → w.polledAt < outcomeTime new + resolvedSettleS) := by
  have hfiled : ∀ id old, w.cloud.lookup id = some old → old.packId = id := fun id old h =>
    hv.filed id old (List.mem_of_mem_head? h)
  cases req with
  | put p pushedBy =>
    simp only [OutcomeWorld.exec, CloudWrite.request, putPack, Proc.act, Proc.bind_eq, Proc.bind,
      Proc.alone]
    cases hl : w.cloud.lookup p.packId with
    | some old => exact .inl rfl
    | none =>
      refine .inr ⟨p.packId, p.item pushedBy i.now, rfl, rfl, ?_, ?_⟩
      · intro old hold
        rw [hl] at hold
        exact absurd hold (by simp)
      · exact fun h => absurd h (by simp [PackIn.item, PackStatus.resolved, resolvedPackStatuses])
  | claim n id =>
    simp only [OutcomeWorld.exec, CloudWrite.request, claimPack, Proc.act, Proc.bind_eq, Proc.bind,
      Proc.alone]
    cases hl : w.cloud.lookup id with
    | none => exact .inl rfl
    | some old =>
      by_cases hpending : old.status = .pending
      · simp only [hpending, if_true]
        refine .inr ⟨id, _, rfl, hfiled id old hl, ?_, ?_⟩
        · rintro old' hold hres
          rw [hl, Option.some.injEq] at hold
          subst hold
          exact absurd hres (by simp [hpending, PackStatus.resolved, resolvedPackStatuses])
        · exact fun h => absurd h (by simp [PackStatus.resolved, resolvedPackStatuses])
      · simp only [hpending, if_false]
        exact .inl rfl
  | update id fields =>
    obtain ⟨hst, hstamp, hlate⟩ := hok
    simp only [OutcomeWorld.exec, CloudWrite.request, updatePack, Proc.modify, Proc.act,
      Proc.alone, Cloud.updatePack]
    cases hl : w.cloud.lookup id with
    | none => exact .inl rfl
    | some old =>
      obtain ⟨st, hfields, hres⟩ : ∃ st, fields.status = some st ∧ st.resolved = true := by
        simpa [Option.any_eq_true] using hst
      refine .inr ⟨id, _, rfl, hfiled id old hl, ?_, ?_⟩
      · intro _ _ _
        simp [PackFields.apply, stampResolved, hfields, hstamp, hres]
      · intro _
        simp [outcomeTime, PackFields.apply, stampResolved, hfields, hstamp, hres, hlate]
  | cancel id =>
    simp only [OutcomeWorld.exec, CloudWrite.request, cancelPack, Proc.act, Proc.bind_eq,
      Proc.bind, Proc.alone]
    cases hl : w.cloud.lookup id with
    | none => exact .inl rfl
    | some old =>
      by_cases hpending : old.status = .pending
      · simp only [hpending, if_true]
        refine .inr ⟨id, _, rfl, hfiled id old hl, fun _ _ _ => rfl, fun _ => ?_⟩
        exact hok
      · simp only [hpending, if_false]
        exact .inl rfl
  | expire id claimedAt =>
    simp only [OutcomeWorld.exec, CloudWrite.request, expireClaim, Proc.act, Proc.bind_eq,
      Proc.bind, Proc.alone]
    cases hl : w.cloud.lookup id with
    | none => exact .inl rfl
    | some old =>
      by_cases hclaim : old.status = .claimed ∧ old.claimedAt = claimedAt
      · simp only [hclaim, and_self, if_true]
        refine .inr ⟨id, _, rfl, hfiled id old hl, fun _ _ _ => rfl, fun _ => ?_⟩
        exact hok
      · simp only [hclaim, if_false]
        exact .inl rfl

/-- A write keeps what was delivered in order. -/
theorem Delivered.write {w : OutcomeWorld Id} (hd : Delivered w) {i : CloudInput Id}
    {req : CloudWrite Id} (hok : w.WriteOk i req) : Delivered (w.exec (.write req i)) := by
  rcases write_cases hd.versions hok with hpacks | ⟨id, new, hpacks, hid, hres, hlate⟩
  · refine ⟨⟨?_, ?_⟩, hd.increasing, hd.behind, hd.settled, ?_⟩
    · rw [hpacks]; exact hd.versions.filed
    · rw [hpacks]; exact hd.versions.resolved
    · intro id row hrow
      rw [Cloud.lookup, hpacks] at hrow
      exact hd.owed id row hrow
  · refine ⟨⟨?_, ?_⟩, hd.increasing, hd.behind, hd.settled, ?_⟩
    · intro id' v hv
      rw [hpacks] at hv
      rcases eq_or_ne id' id with rfl | hne
      · rw [Function.update_self, List.mem_cons] at hv
        rcases hv with rfl | hv
        · exact hid
        · exact hd.versions.filed _ v hv
      · rw [Function.update_of_ne hne] at hv
        exact hd.versions.filed id' v hv
    · intro id'
      rw [hpacks]
      rcases eq_or_ne id' id with rfl | hne
      · rw [Function.update_self, List.pairwise_cons]
        refine ⟨?_, hd.versions.resolved id'⟩
        intro old hold hr
        cases hp : w.cloud.packs id' with
        | nil => rw [hp] at hold; exact absurd hold (by simp)
        | cons newest older =>
          have hhead : newest.status.resolved = true := by
            rw [hp, List.mem_cons] at hold
            rcases hold with rfl | hold
            · exact hr
            · have hpair := hd.versions.resolved id'
              rw [hp, List.pairwise_cons] at hpair
              exact hpair.1 old hold hr
          exact hres newest (by rw [Cloud.lookup, hp]; rfl) hhead
      · rw [Function.update_of_ne hne]
        exact hd.versions.resolved id'
    · intro id' row hrow hr
      rw [Cloud.lookup, hpacks] at hrow
      rcases eq_or_ne id' id with rfl | hne
      · rw [Function.update_self, List.head?_cons, Option.some.injEq] at hrow
        subst hrow
        left
        change w.cursor.before (outcomeKey new) = true
        -- the cursor keeps out of the seconds that may still be stamped
        rcases hd.settled with hstart | ⟨t, pid, hcursor, ht⟩
        · rw [hstart]; rfl
        · have hlt : t < outcomeTime new := by
            have := hlate hr
            omega
          rw [hcursor]
          exact decide_eq_true (Prod.Lex.lt_iff.mpr (.inl hlt))
      · rw [Function.update_of_ne hne] at hrow
        exact hd.owed id' row hrow hr

/-! ## A poll -/

/-- The rows a poll returns. -/
def answer (w : OutcomeWorld Id) (limit : ℕ) (r : PollRead Id) : List (Pack Id) :=
  listResolvedPacks w.cursor limit (some (isoAgo r.now resolvedSettleS)) (w.cloud.queryStatus r)

/-- A poll adds its answer to the pages. -/
theorem poll_pages (w : OutcomeWorld Id) (limit : ℕ) (r : PollRead Id) :
    (w.poll limit r).pages.flatten = w.pages.flatten ++ answer w limit r := by
  simp [OutcomeWorld.poll, answer]

section answers

variable {w : OutcomeWorld Id} {limit : ℕ} {r : PollRead Id}

/-- An answered row is due. -/
theorem mem_due_of_mem_answer (h : w.PollOk limit r) {row : Pack Id}
    (hrow : row ∈ answer w limit r) : row ∈ due w r := by
  rw [answer, listResolvedPacks_eq h] at hrow
  exact mem_of_mem_page hrow

/-- Different due rows have different keys. -/
theorem key_ne_of_due (hv : Versions w.cloud) (h : w.PollOk limit r) {a b : Pack Id}
    (ha : a ∈ due w r) (hb : b ∈ due w r) (hne : a ≠ b) : outcomeKey a ≠ outcomeKey b := by
  have hsymm : Std.Symm fun a b : Pack Id => a.packId ≠ b.packId := ⟨fun _ _ hab => Ne.symm hab⟩
  exact key_ne_of_packId_ne ((pairwise_due hv h).forall ha hb hne)

/-- The rows of an answer go upward. -/
theorem pairwise_answer (hv : Versions w.cloud) (h : w.PollOk limit r) :
    (answer w limit r).Pairwise fun a b => outcomeKey a < outcomeKey b := by
  have hsorted : (answer w limit r).Pairwise fun a b => outcomeKey a ≤ outcomeKey b := by
    rw [answer, listResolvedPacks_eq h]
    exact pairwise_page
  have hperm : (orderBy outcomeKey (due w r)).Pairwise fun a b => a.packId ≠ b.packId :=
    (perm_orderBy (due w r)).symm.pairwise (pairwise_due hv h) fun hab => Ne.symm hab
  have hdiff : (answer w limit r).Pairwise fun a b => a.packId ≠ b.packId := by
    rw [answer, listResolvedPacks_eq h]
    exact hperm.sublist (List.take_sublist _ _)
  exact (hsorted.and hdiff).imp fun hab => lt_of_le_of_ne hab.1 (key_ne_of_packId_ne hab.2)

/-- The last row of an answer has the greatest key. -/
theorem le_last_of_mem_answer (hv : Versions w.cloud) (h : w.PollOk limit r) {last row : Pack Id}
    (hlast : (answer w limit r).getLast? = some last) (hrow : row ∈ answer w limit r) :
    outcomeKey row ≤ outcomeKey last := by
  obtain ⟨front, hsplit⟩ := List.getLast?_eq_some_iff.mp hlast
  have hsorted := pairwise_answer hv h
  rw [hsplit, List.pairwise_append] at hsorted
  rw [hsplit, List.mem_append, List.mem_singleton] at hrow
  rcases hrow with hfront | rfl
  · exact (hsorted.2.2 row hfront last (by simp)).le
  · exact le_rfl

/-- A due row that an answer leaves out comes after all of the answer. -/
theorem last_lt_of_notMem_answer (hv : Versions w.cloud) (h : w.PollOk limit r)
    {last row : Pack Id} (hlast : (answer w limit r).getLast? = some last)
    (hdue : row ∈ due w r) (hrow : row ∉ answer w limit r) : outcomeKey last < outcomeKey row := by
  have hmem : last ∈ answer w limit r := List.mem_of_getLast? hlast
  have hne : last ≠ row := fun heq => hrow (heq ▸ hmem)
  have hkey := key_ne_of_due hv h (mem_due_of_mem_answer h hmem) hdue hne
  rw [answer, listResolvedPacks_eq h] at hmem hrow
  exact lt_of_le_of_ne (le_of_mem_of_notMem_page hmem hdue hrow) hkey

/-- An empty answer means that nothing is due. -/
theorem due_eq_nil (h : w.PollOk limit r) (hnil : answer w limit r = []) : due w r = [] := by
  rw [List.eq_nil_iff_forall_not_mem]
  intro row hrow
  have hlen : (page outcomeKey limit (due w r)).length < limit := by
    rw [← listResolvedPacks_eq h]
    change (answer w limit r).length < limit
    rw [hnil]
    exact h.limit_pos
  have hmem : row ∈ page outcomeKey limit (due w r) := mem_page_of_length_lt hlen hrow
  rw [← listResolvedPacks_eq h] at hmem
  change row ∈ answer w limit r at hmem
  rw [hnil] at hmem
  exact absurd hmem (by simp)

/-- An empty answer leaves the cursor. -/
theorem poll_cursor_of_nil (hnil : answer w limit r = []) :
    (w.poll limit r).cursor = w.cursor := by
  change maxId w.cursor (answer w limit r) = w.cursor
  rw [hnil]
  rfl

/-- The cursor moves to the last row of an answer. -/
theorem poll_cursor_of_last {last : Pack Id} (hlast : (answer w limit r).getLast? = some last) :
    (w.poll limit r).cursor = outcomeCursor last := by
  change maxId w.cursor (answer w limit r) = outcomeCursor last
  rw [maxId, hlast]

/-- An answer is empty or has a last row. -/
theorem answer_cases (w : OutcomeWorld Id) (limit : ℕ) (r : PollRead Id) :
    answer w limit r = [] ∨ ∃ last, (answer w limit r).getLast? = some last := by
  cases hl : (answer w limit r).getLast? with
  | none => exact .inl (List.getLast?_eq_none_iff.mp hl)
  | some last => exact .inr ⟨last, rfl⟩

/-- A poll keeps what was delivered in order. -/
theorem Delivered.poll (hd : Delivered w) (h : w.PollOk limit r) :
    Delivered (w.poll limit r) := by
  have hv := hd.versions
  have hpast : ∀ row ∈ answer w limit r, w.cursor.before (outcomeKey row) = true := fun row hrow =>
    (mem_due.mp (mem_due_of_mem_answer h hrow)).2.2
  have hinc : (w.poll limit r).pages.flatten.Pairwise
      fun a b => outcomeKey a < outcomeKey b := by
    rw [poll_pages, List.pairwise_append]
    exact ⟨hd.increasing, pairwise_answer hv h,
      fun a ha b hb => lt_of_before (hd.behind a ha) (hpast b hb)⟩
  rcases answer_cases w limit r with hnil | ⟨last, hlast⟩
  · have hcursor := poll_cursor_of_nil hnil
    refine ⟨hv, hinc, ?_, ?_, ?_⟩
    · rw [poll_pages, hnil, List.append_nil, hcursor]
      exact hd.behind
    · rw [hcursor]
      refine hd.settled.imp_right ?_
      rintro ⟨t, pid, hc, ht⟩
      exact ⟨t, pid, hc, le_trans ht h.now_mono⟩
    · rw [poll_pages, hnil, List.append_nil, hcursor]
      exact hd.owed
  · have hcursor := poll_cursor_of_last hlast
    have hmem : last ∈ answer w limit r := List.mem_of_getLast? hlast
    have hsettled : Settled r.now last := (mem_due.mp (mem_due_of_mem_answer h hmem)).2.1
    refine ⟨hv, hinc, ?_, .inr ⟨_, _, hcursor, hsettled⟩, ?_⟩
    · intro row hrow
      rw [hcursor, Bool.eq_false_iff, Ne, outcomeCursor_before_iff, not_lt]
      rw [poll_pages, List.mem_append] at hrow
      rcases hrow with hold | hnew
      · exact (lt_of_before (hd.behind row hold) (hpast last hmem)).le
      · exact le_last_of_mem_answer hv h hlast hnew
    · intro id row hrow hres
      rw [hcursor, outcomeCursor_before_iff, poll_pages, List.mem_append]
      rcases hd.owed id row hrow hres with hbefore | hpage
      · by_cases hs : Settled r.now row
        · have hdue : row ∈ due w r :=
            mem_due.mpr ⟨mem_shown_of_settled h hrow hres hs, hs, hbefore⟩
          by_cases hans : row ∈ answer w limit r
          · exact .inr (.inr hans)
          · exact .inl (last_lt_of_notMem_answer hv h hlast hdue hans)
        · left
          -- a resolution that is held back is later than anything on the page
          apply key_lt_of_time_lt
          unfold Settled at hs hsettled
          omega
      · exact .inr (.inl hpage)

end answers

/-- A row that is found has its id. -/
theorem find?_toList_head? (rows : List (Pack Id)) (id : Id) :
    ∀ v ∈ (rows.find? (·.packId = id)).toList, v.packId = id := by
  intro v hv
  rw [Option.mem_toList] at hv
  simpa using List.find?_some hv

/-- At the start nothing has been delivered. -/
theorem delivered_start (rows : List (Pack Id)) : Delivered (OutcomeWorld.start rows) where
  versions :=
    { filed := fun id v hv => find?_toList_head? rows id v hv
      resolved := fun id => by
        change List.Pairwise _ (rows.find? (·.packId = id)).toList
        cases rows.find? (·.packId = id) <;> simp }
  increasing := by simp [OutcomeWorld.start]
  behind := by simp [OutcomeWorld.start]
  settled := .inl rfl
  owed := fun _ _ _ _ => .inl rfl

/-- The invariant holds after every legal run. -/
theorem Delivered.run {w : OutcomeWorld Id} (hd : Delivered w) (es : List (OutcomeEvent Id))
    (h : w.Legal es) : Delivered (w.run es) := by
  induction es generalizing w with
  | nil => exact hd
  | cons e es ih =>
    cases e with
    | write req i => exact ih (hd.write h.1) h.2
    | poll limit r => exact ih (hd.poll h.1) h.2

/-! ## Once everything has settled -/

/-- Every resolution in the table has settled for a poll at `now`. -/
def AllSettled (w : OutcomeWorld Id) (now : ℕ) : Prop :=
  ∀ id row, w.cloud.lookup id = some row → row.status.resolved = true → Settled now row

/-- The packs among `ids` whose newest resolution the cursor has not reached. -/
def owing (w : OutcomeWorld Id) (ids : Finset Id) : Finset Id :=
  ids.filter fun id => (w.cloud.lookup id).any fun row =>
    row.status.resolved && w.cursor.before (outcomeKey row)

/-- What is owed is resolved and past the cursor. -/
theorem mem_owing {w : OutcomeWorld Id} {ids : Finset Id} {id : Id} :
    id ∈ owing w ids ↔ id ∈ ids ∧ ∃ row, w.cloud.lookup id = some row ∧
      row.status.resolved = true ∧ w.cursor.before (outcomeKey row) = true := by
  simp [owing, Option.any_eq_true]

/-- A poll with everything settled leaves nothing owing, or owes fewer packs than before. -/
theorem card_owing_poll {w : OutcomeWorld Id} (hd : Delivered w) {limit : ℕ} {r : PollRead Id}
    (h : w.PollOk limit r) (hall : AllSettled w r.now) {ids : Finset Id}
    (hids : ∀ id, w.cloud.packs id ≠ [] → id ∈ ids) :
    owing (w.poll limit r) ids = ∅ ∨
      (owing (w.poll limit r) ids).card < (owing w ids).card := by
  have hcloud : (w.poll limit r).cloud = w.cloud := rfl
  rcases answer_cases w limit r with hnil | ⟨last, hlast⟩
  · left
    rw [Finset.eq_empty_iff_forall_notMem]
    intro id hid
    obtain ⟨-, row, hrow, hres, hbefore⟩ := mem_owing.mp hid
    rw [poll_cursor_of_nil hnil] at hbefore
    rw [hcloud] at hrow
    have hs := hall id row hrow hres
    have hdue : row ∈ due w r := mem_due.mpr ⟨mem_shown_of_settled h hrow hres hs, hs, hbefore⟩
    rw [due_eq_nil h hnil] at hdue
    exact absurd hdue (by simp)
  · right
    have hmem : last ∈ answer w limit r := List.mem_of_getLast? hlast
    obtain ⟨hshown, -, hlastBefore⟩ := mem_due.mp (mem_due_of_mem_answer h hmem)
    have hlookup := lookup_of_mem_shown hd.versions h hall hshown
    apply Finset.card_lt_card
    rw [Finset.ssubset_iff_of_subset]
    · -- the pack of the last row is paid
      refine ⟨last.packId, mem_owing.mpr ⟨?_, last, hlookup, (mem_shown.mp hshown).1,
        hlastBefore⟩, ?_⟩
      · apply hids
        intro hpacks
        rw [Cloud.lookup, hpacks] at hlookup
        exact absurd hlookup (by simp)
      · intro howing
        obtain ⟨-, row, hrow, -, hbefore⟩ := mem_owing.mp howing
        rw [hcloud, hlookup, Option.some.injEq] at hrow
        subst hrow
        rw [poll_cursor_of_last hlast, outcomeCursor_before_iff] at hbefore
        exact absurd hbefore (lt_irrefl _)
    · intro id hid
      obtain ⟨hmemIds, row, hrow, hres, hbefore⟩ := mem_owing.mp hid
      refine mem_owing.mpr ⟨hmemIds, row, hrow, hres, ?_⟩
      by_contra hnot
      rw [Bool.not_eq_true] at hnot
      rw [poll_cursor_of_last hlast, outcomeCursor_before_iff] at hbefore
      exact absurd (lt_of_before hnot hlastBefore) hbefore.not_gt

/-- The polls of a run without writes. -/
def polling (polls : List (ℕ × PollRead Id)) : List (OutcomeEvent Id) :=
  polls.map fun p => .poll p.1 p.2

/-- Polls leave the table. -/
theorem run_polling (w : OutcomeWorld Id) (polls : List (ℕ × PollRead Id)) :
    (w.run (polling polls)).cloud = w.cloud := by
  induction polls generalizing w with
  | nil => rfl
  | cons p polls ih => exact ih (w.poll p.1 p.2)

/-- Polls with everything settled pay what is owing, at least one pack each. -/
theorem owing_polling {w : OutcomeWorld Id} (hd : Delivered w) {ids : Finset Id}
    (hids : ∀ id, w.cloud.packs id ≠ [] → id ∈ ids) (polls : List (ℕ × PollRead Id))
    (h : w.Legal (polling polls)) (hall : ∀ p ∈ polls, AllSettled w p.2.now)
    (hlen : (owing w ids).card ≤ polls.length) : owing (w.run (polling polls)) ids = ∅ := by
  induction polls generalizing w with
  | nil => exact Finset.card_eq_zero.mp (Nat.le_zero.mp hlen)
  | cons p polls ih =>
    have hpoll : w.PollOk p.1 p.2 := h.1
    refine ih (hd.poll hpoll) hids h.2 (fun q hq => hall q (List.mem_cons_of_mem _ hq)) ?_
    rw [List.length_cons] at hlen
    change (owing (w.poll p.1 p.2) ids).card ≤ polls.length
    rcases card_owing_poll hd hpoll (hall p List.mem_cons_self) hids with hzero | hlt
    · rw [hzero]
      exact Nat.zero_le _
    · omega

/-- **Outcomes are delivered exactly once and in order.** In every legal run no pair of a
pack and an outcome time is returned twice and the pages, put end to end, are strictly
increasing; and once everything has settled, as many further polls as there are packs have
returned the newest resolution of every pack. -/
theorem outcomes_exactly_once (rows : List (Pack Id)) (es : List (OutcomeEvent Id))
    (h : (OutcomeWorld.start rows).Legal es) :
    (((OutcomeWorld.start rows).run es).pages.flatten.map
      fun row => (row.packId, outcomeTime row)).Nodup ∧
    ((OutcomeWorld.start rows).run es).pages.flatten.Pairwise
      (fun a b => outcomeKey a < outcomeKey b) ∧
    ∀ (ids : Finset Id) (polls : List (ℕ × PollRead Id)),
      (∀ id, ((OutcomeWorld.start rows).run es).cloud.packs id ≠ [] → id ∈ ids) →
      ((OutcomeWorld.start rows).run es).Legal (polling polls) →
      (∀ p ∈ polls, AllSettled ((OutcomeWorld.start rows).run es) p.2.now) →
      ids.card ≤ polls.length →
      ∀ id row, ((OutcomeWorld.start rows).run es).cloud.lookup id = some row →
        row.status.resolved = true →
        row ∈ (((OutcomeWorld.start rows).run es).run (polling polls)).pages.flatten := by
  have hd : Delivered ((OutcomeWorld.start rows).run es) := (delivered_start rows).run es h
  refine ⟨?_, hd.increasing, ?_⟩
  · refine List.pairwise_map.mpr (hd.increasing.imp ?_)
    intro a b hlt heq
    have hkey : outcomeKey a = outcomeKey b := by
      unfold outcomeKey
      rw [(Prod.mk.inj heq).1, (Prod.mk.inj heq).2]
    exact absurd hkey hlt.ne
  · intro ids polls hids hlegal hall hlen id row hrow hres
    have hd' := hd.run (polling polls) hlegal
    have hcard : (owing ((OutcomeWorld.start rows).run es) ids).card ≤ polls.length :=
      le_trans (Finset.card_filter_le _ _) hlen
    have hnone := owing_polling hd hids polls hlegal hall hcard
    have hrow' : (((OutcomeWorld.start rows).run es).run (polling polls)).cloud.lookup id =
        some row := by rw [run_polling, hrow]
    refine (hd'.owed id row hrow' hres).resolve_left fun hbefore => ?_
    have hid : id ∈ ids := by
      apply hids
      intro hpacks
      rw [Cloud.lookup, hpacks] at hrow
      exact absurd hrow (by simp)
    have howing := mem_owing.mpr ⟨hid, row, hrow', hres, hbefore⟩
    rw [hnone] at howing
    exact absurd howing (Finset.notMem_empty id)

section witness

private def outcomePack : PackIn (Fin 2) where
  packId := 1
  campaignId := 1
  recipientHash := "h"
  contentHash := "c"
  sendAt := 4
  keyId := "k"
  encryptedBlob := .garbage ""

/-- A pack resolved at second 3, before there was a `resolved_at`. -/
private def legacyRow : Pack (Fin 2) :=
  { outcomePack.item .operator 3 with packId := 0, status := .sent }

private def outcomeRead (now : ℕ) : PollRead (Fin 2) where
  now := now
  lag := fun _ _ => 0
  visited := fun _ => [[0], [1]]

/-- A stale claim is resolved as unknown, and its dispatcher records the send after that;
between the two a poll holds the first resolution back. -/
private def outcomeEvents : List (OutcomeEvent (Fin 2)) :=
  [.write (.put outcomePack .client) { now := 5 }, .write (.claim 0 1) { now := 6 },
    .poll 1 (outcomeRead 20), .write (.expire 1 (some 6)) { now := 22 },
    .poll 1 (outcomeRead 25), .write (.update 1 { status := some .sent }) { now := 27 }]

/-- A read of everything is in order. -/
private theorem outcomeRead_ok (w : OutcomeWorld (Fin 2)) (now : ℕ) (h : w.polledAt ≤ now) :
    w.PollOk 1 (outcomeRead now) where
  limit_pos := le_rfl
  now_mono := h
  nodup := fun _ _ => by change ([0, 1] : List (Fin 2)).Nodup; decide
  complete := fun _ _ id _ => by
    have hall : ∀ id : Fin 2, id ∈ ([[0], [1]] : List (List (Fin 2))).flatten := by decide
    exact hall id
  visible := fun _ _ _ j hj => absurd hj (Nat.not_lt_zero j)
  below_cap := fun st _ => by
    have hle : (w.cloud.queryStatus (outcomeRead now) st).flatten.length ≤ 2 := by
      rw [query_flatten]
      exact le_trans (List.length_filter_le _ _) (List.length_filterMap_le _ _)
    have hcap : 2 < workCap 1 := by decide
    omega

/-- A legacy row that is overwritten late is delivered. -/
theorem outcomes_exactly_once_demo :
    ∃ row, ((OutcomeWorld.start [legacyRow]).run outcomeEvents).cloud.lookup 1 = some row ∧
      row ∈ (((OutcomeWorld.start [legacyRow]).run outcomeEvents).run
        (polling [(1, outcomeRead 37), (1, outcomeRead 38)])).pages.flatten := by
  obtain ⟨row, hrow⟩ : ∃ row,
      ((OutcomeWorld.start [legacyRow]).run outcomeEvents).cloud.lookup 1 = some row :=
    Option.isSome_iff_exists.mp (by decide)
  have hres : (((OutcomeWorld.start [legacyRow]).run outcomeEvents).cloud.lookup 1).all
      (·.status.resolved) = true := by decide
  rw [hrow] at hres
  refine ⟨row, hrow, (outcomes_exactly_once [legacyRow] outcomeEvents ?_).2.2 {0, 1}
    [(1, outcomeRead 37), (1, outcomeRead 38)] ?_ ?_ ?_ ?_ 1 row hrow hres⟩
  · exact ⟨trivial, trivial, outcomeRead_ok _ _ (by decide), show 20 < 22 + 10 by decide,
      outcomeRead_ok _ _ (by decide), ⟨by decide, by decide, by decide⟩, trivial⟩
  · have hall : ∀ id : Fin 2, id ∈ ({0, 1} : Finset (Fin 2)) := by decide
    exact fun id _ => hall id
  · exact ⟨outcomeRead_ok _ _ (by decide), outcomeRead_ok _ _ (by decide), trivial⟩
  · intro p hp id row hrow _
    have hnow : 37 ≤ p.2.now := by
      rw [List.mem_cons, List.mem_singleton] at hp
      rcases hp with rfl | rfl <;> decide
    have htime : outcomeTime row ≤ 27 := by
      have hall : ∀ id, (((OutcomeWorld.start [legacyRow]).run outcomeEvents).cloud.lookup id).all
          (outcomeTime · ≤ 27) = true := by decide
      have hid := hall id
      rw [hrow] at hid
      exact of_decide_eq_true hid
    unfold Settled resolvedSettleS
    omega
  · decide

end witness

end Mailman.Analysis
