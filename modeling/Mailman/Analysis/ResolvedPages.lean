import Mailman.Interface.OutcomeView

/-!
# The answer of `list_resolved_packs`

What the outcome query is to answer is the first `limit` resolved packs past the cursor, in the
order of their outcome key. It reads each index partition page by page and stops at the scan
cap, so a partition that is longer than the cap is not read in full, and its pages come in the
order of `send_at`, not of the outcome key. The answer is the specified one if and only if every
row it left unread has `limit` rows before it.
-/

set_option autoImplicit false

namespace Mailman.Analysis

open Mailman.Library Mailman.Model Mailman.Interface

variable {Id : Type} [LinearOrder Id]

/-- The settle bound of a call at `now`. SOURCE: cloud/dynamo.py:555 -/
def settleBound (now : ℕ) (settleS : ℤ) : Option ℤ :=
  if 0 < settleS then some ((now : ℤ) - settleS) else none

/-- The pack is resolved, its outcome key is past the cursor, and the settle bound does not hold
it back. -/
def isDue (since : OutcomeCursor Id) (upper : Option ℤ) (row : Pack Id) : Bool :=
  row.status.resolved && since.before (outcomeKey row) &&
    upper.all fun u => (outcomeTime row : ℤ) ≤ u

/-- What `list_resolved_packs` is to answer on a table. -/
def resolvedAnswer (since : OutcomeCursor Id) (limit : ℕ) (upper : Option ℤ)
    (table : List (Pack Id)) : List (Pack Id) :=
  page outcomeKey limit (table.filter (isDue since upper))

/-- The rows of the pages past the one at which the page loop stops. -/
def pastCap (cap : ℕ) : ℕ → List (List (Pack Id)) → List (Pack Id)
  | _, [] => []
  | scanned, items :: rest =>
    if cap ≤ scanned + items.length then rest.flatten else pastCap cap (scanned + items.length) rest

/-- The pages of the status index on a table: each partition holds the packs of its status. -/
def IndexPages (table : List (Pack Id)) (query : PackStatus → List (List (Pack Id))) : Prop :=
  ∀ st ∈ resolvedPackStatuses, (query st).flatten.Perm (table.filter (·.status = st))

/-! ## The page loop -/

section pages

variable {cap scanned : ℕ} {pages : List (List (Pack Id))} {keep : Pack Id → Bool} {row : Pack Id}

omit [LinearOrder Id] in
/-- What a scan keeps is in its pages, in their order. -/
theorem scanPages_sublist : (scanPages cap keep scanned pages).Sublist pages.flatten := by
  induction pages generalizing scanned with
  | nil => exact List.Sublist.refl []
  | cons items rest ih =>
    rw [List.flatten_cons]
    apply List.Sublist.append List.filter_sublist
    split
    · exact List.nil_sublist _
    · exact ih

omit [LinearOrder Id] in
/-- A row that passes the filter is read, unless it comes past the cap. -/
theorem mem_scanPages_or (hrow : row ∈ pages.flatten) (hkeep : keep row = true) :
    row ∈ scanPages cap keep scanned pages ∨ row ∈ pastCap cap scanned pages := by
  induction pages generalizing scanned with
  | nil => cases hrow
  | cons items rest ih =>
    rw [List.flatten_cons, List.mem_append] at hrow
    unfold scanPages pastCap
    rcases hrow with hitem | hrest
    · exact .inl (List.mem_append_left _ (List.mem_filter.mpr ⟨hitem, hkeep⟩))
    · split
      · exact .inr hrest
      · exact (ih hrest).imp_left (List.mem_append_right _)

omit [LinearOrder Id] in
/-- What is past the cap is in the pages. -/
theorem mem_of_mem_pastCap (h : row ∈ pastCap cap scanned pages) : row ∈ pages.flatten := by
  induction pages generalizing scanned with
  | nil => cases h
  | cons items rest ih =>
    rw [List.flatten_cons]
    unfold pastCap at h
    split at h
    · exact List.mem_append_right _ h
    · exact List.mem_append_right _ (ih h)

omit [LinearOrder Id] in
/-- A row past the cap is not read. -/
theorem notMem_scanPages (hnodup : pages.flatten.Nodup) (hrow : row ∈ pastCap cap scanned pages) :
    row ∉ scanPages cap keep scanned pages := by
  induction pages generalizing scanned with
  | nil => cases hrow
  | cons items rest ih =>
    rw [List.flatten_cons, List.nodup_append] at hnodup
    obtain ⟨-, hrest, hdisj⟩ := hnodup
    unfold pastCap at hrow
    unfold scanPages
    split at hrow
    · next hstop =>
      rw [if_pos hstop, List.append_nil]
      exact fun h => hdisj row (List.mem_of_mem_filter h) row hrow rfl
    · next hgo =>
      rw [if_neg hgo, List.mem_append, not_or]
      refine ⟨fun h => ?_, ih hrest hrow⟩
      have hflat : row ∈ rest.flatten := mem_of_mem_pastCap hrow
      exact hdisj row (List.mem_of_mem_filter h) row hflat rfl

end pages

/-! ## The rows that are due -/

section table

variable {since : OutcomeCursor Id} {limit : ℕ} {upper : Option ℤ} {table : List (Pack Id)}
  {query : PackStatus → List (List (Pack Id))} {row : Pack Id}

/-- A row is due when it is resolved and past the cursor. -/
theorem isDue_iff : isDue since upper row = true ↔
    row.status ∈ resolvedPackStatuses ∧ afterCursor (outcomeKey row) since upper = true := by
  have htime : (ofLex (outcomeKey row)).1 = outcomeTime row := rfl
  unfold isDue afterCursor PackStatus.resolved
  cases upper with
  | none => simp
  | some u =>
    rw [htime]
    by_cases hu : u < (outcomeTime row : ℤ)
    · simp [hu, not_le.mpr hu]
    · simp [hu, not_lt.mp hu]

/-- A due row passes the filter. -/
theorem filterExpression_of_due (h : isDue since upper row = true) :
    filterExpression since row = true := by
  unfold isDue at h
  rw [Bool.and_eq_true, Bool.and_eq_true] at h
  exact filterExpression_of_before h.1.2

/-- The rows the page loops read. -/
def readRows (since : OutcomeCursor Id) (limit : ℕ) (upper : Option ℤ)
    (query : PackStatus → List (List (Pack Id))) : List (Pack Id) :=
  (resolvedPackStatuses.flatMap fun st =>
    scanPages (workCap limit) (filterExpression since) 0 (query st)).filter fun r =>
      afterCursor (outcomeKey r) since upper

/-- A read row comes of the scan of a status and is past the cursor. -/
theorem mem_readRows : row ∈ readRows since limit upper query ↔
    (∃ st ∈ resolvedPackStatuses,
      row ∈ scanPages (workCap limit) (filterExpression since) 0 (query st)) ∧
      afterCursor (outcomeKey row) since upper = true := by
  unfold readRows
  rw [List.mem_filter, List.mem_flatMap]

omit [LinearOrder Id] in
/-- A row of a partition is a row of the table with that status. -/
theorem mem_partition (hpages : IndexPages table query) {st : PackStatus}
    (hst : st ∈ resolvedPackStatuses) :
    row ∈ (query st).flatten ↔ row ∈ table ∧ row.status = st := by
  rw [(hpages st hst).mem_iff, List.mem_filter, decide_eq_true_eq]

/-- Read rows are due rows of the table. -/
theorem readRows_subset (hpages : IndexPages table query) :
    readRows since limit upper query ⊆ table.filter (isDue since upper) := by
  intro row hrow
  obtain ⟨⟨st, hst, hscan⟩, hafter⟩ := mem_readRows.mp hrow
  obtain ⟨hmem, rfl⟩ := (mem_partition hpages hst).mp (mem_of_mem_scanPages hscan)
  exact List.mem_filter.mpr ⟨hmem, isDue_iff.mpr ⟨hst, hafter⟩⟩

/-- No row is read twice. -/
theorem nodup_readRows (htable : table.Nodup) (hpages : IndexPages table query) :
    (readRows since limit upper query).Nodup := by
  apply List.Nodup.filter
  apply List.nodup_flatMap.mpr
  constructor
  · intro st hst
    have hflat : (query st).flatten.Nodup := (hpages st hst).nodup_iff.mpr (htable.filter _)
    exact hflat.sublist scanPages_sublist
  · have hdistinct : resolvedPackStatuses.Nodup := by decide
    apply List.Pairwise.imp_of_mem _ hdistinct
    intro st st' hst hst' hne row hrow hrow'
    have hrow := (mem_partition hpages hst).mp (mem_of_mem_scanPages hrow)
    have hrow' := (mem_partition hpages hst').mp (mem_of_mem_scanPages hrow')
    exact hne (hrow.2.symm.trans hrow'.2)

omit [LinearOrder Id] in
/-- No two packs of a table share an outcome key. -/
theorem nodup_outcomeKey (htable : (table.map (·.packId)).Nodup) :
    (table.map outcomeKey).Nodup := by
  apply List.Nodup.of_map (fun key : Stamp ×ₗ Id => (ofLex key).2)
  rw [List.map_map]
  exact htable

/-- The due rows that are not read are those past the cap. -/
theorem notMem_readRows (htable : table.Nodup) (hpages : IndexPages table query)
    (hrow : row ∈ table) (hdue : isDue since upper row = true) :
    row ∉ readRows since limit upper query ↔
      row ∈ pastCap (workCap limit) 0 (query row.status) := by
  obtain ⟨hst, hafter⟩ := isDue_iff.mp hdue
  have hflat : row ∈ (query row.status).flatten := (mem_partition hpages hst).mpr ⟨hrow, rfl⟩
  have hnodup : (query row.status).flatten.Nodup :=
    (hpages _ hst).nodup_iff.mpr (htable.filter _)
  constructor
  · intro hunread
    apply (mem_scanPages_or hflat (filterExpression_of_due hdue)).resolve_left
    intro hscan
    exact hunread (mem_readRows.mpr ⟨⟨row.status, hst, hscan⟩, hafter⟩)
  · intro hpast hread
    obtain ⟨⟨st, hst', hscan⟩, -⟩ := mem_readRows.mp hread
    obtain ⟨-, rfl⟩ := (mem_partition hpages hst').mp (mem_of_mem_scanPages hscan)
    exact notMem_scanPages hnodup hpast hscan

/-- The answer is the specified one if and only if every due row past the cap has `limit` due
rows before it. -/
theorem listResolvedPacks_eq_iff (since : OutcomeCursor Id) (limit : ℕ) (upper : Option ℤ)
    (htable : (table.map (·.packId)).Nodup) (hpages : IndexPages table query) :
    listResolvedPacks since limit upper query = resolvedAnswer since limit upper table ↔
      ∀ row ∈ table.filter (isDue since upper),
        row ∈ pastCap (workCap limit) 0 (query row.status) →
        limit ≤ (rowsBefore outcomeKey (table.filter (isDue since upper)) row).length := by
  have hnodup : table.Nodup := htable.of_map _
  have hkeys : ((table.filter (isDue since upper)).map outcomeKey).Nodup :=
    (nodup_outcomeKey htable).sublist (List.filter_sublist.map _)
  have hread : listResolvedPacks since limit upper query =
      page outcomeKey limit (readRows since limit upper query) := rfl
  rw [hread]
  unfold resolvedAnswer
  rw [page_eq_iff hkeys (nodup_readRows hnodup hpages) (readRows_subset hpages)]
  apply forall₂_congr
  intro row hrow
  obtain ⟨hmem, hdue⟩ := List.mem_filter.mp hrow
  rw [notMem_readRows hnodup hpages hmem hdue]

end table

/-- **`list_resolved_packs` answers as specified**, whatever the table, the cursor, the limit,
the settle time and the pages, if and only if every due row past the page at which the scan of
its partition stops has `limit` due rows before it. -/
theorem list_resolved_packs_agrees (since : OutcomeCursor Id) (limit now : ℕ) (settleS : ℤ)
    (table : List (Pack Id)) (htable : (table.map (·.packId)).Nodup)
    (query : PackStatus → List (List (Pack Id))) (hpages : IndexPages table query) :
    listResolvedPacks since limit (settleBound now settleS) query =
        resolvedAnswer since limit (settleBound now settleS) table ↔
      ∀ row ∈ table.filter (isDue since (settleBound now settleS)),
        row ∈ pastCap (workCap limit) 0 (query row.status) →
        limit ≤ (rowsBefore outcomeKey
          (table.filter (isDue since (settleBound now settleS))) row).length :=
  listResolvedPacks_eq_iff since limit (settleBound now settleS) htable hpages

section witness

/-- A pack that was to be sent at `sendAt` and was cancelled at `cancelledAt`. -/
private def cancelledPack (n sendAt cancelledAt : ℕ) : Pack ℕ where
  packId := n
  campaignId := 1
  recipientHash := ""
  contentHash := ""
  sendAt := sendAt
  keyId := ""
  encryptedPayload := none
  status := .cancelled
  enqueuedAt := 0
  pushedBy := .operator
  resolvedAt := some cancelledAt

/-- The pages of a table of cancelled packs. -/
private def cancelledPages (pages : List (List (Pack ℕ))) : PackStatus → List (List (Pack ℕ))
  | .cancelled => pages
  | _ => []

/-- The pages of the example are pages of an index. -/
private theorem indexPages_cancelled {pages : List (List (Pack ℕ))}
    (h : ∀ row ∈ pages.flatten, row.status = .cancelled) :
    IndexPages pages.flatten (cancelledPages pages) := by
  intro st _
  by_cases hst : st = .cancelled
  · subst hst
    have hall : pages.flatten.filter (fun row => decide (row.status = .cancelled)) = pages.flatten :=
      List.filter_eq_self.mpr fun row hrow => by simp [h row hrow]
    rw [hall]
    exact List.Perm.refl _
  · have hnone : pages.flatten.filter (fun row => decide (row.status = st)) = [] := by
      apply List.filter_eq_nil_iff.mpr
      intro row hrow
      simp [h row hrow, Ne.symm hst]
    have hempty : cancelledPages pages st = [] := by cases st <;> first | rfl | exact absurd rfl hst
    rw [hnone, hempty]
    exact List.Perm.refl _

/-- A short table is answered as specified. -/
theorem list_resolved_packs_agrees_demo :
    listResolvedPacks .start 2 (settleBound 100 10)
        (cancelledPages [[cancelledPack 1 0 20], [cancelledPack 2 5 10]]) =
      resolvedAnswer .start 2 (settleBound 100 10) [cancelledPack 1 0 20, cancelledPack 2 5 10] := by
  apply (list_resolved_packs_agrees .start 2 100 10 [cancelledPack 1 0 20, cancelledPack 2 5 10]
    (by decide) (cancelledPages [[cancelledPack 1 0 20], [cancelledPack 2 5 10]])
    (indexPages_cancelled (by decide))).mpr
  decide

/-- Two thousand packs cancelled at second 20, and one cancelled at second 10 whose send time
was after all of theirs. -/
private def longPages : List (List (Pack ℕ)) :=
  [(List.range 2000).map fun n => cancelledPack n n 20, [cancelledPack 2000 3000 10]]

/-- The pack that was cancelled first is past the cap, and is left out. -/
theorem list_resolved_packs_skips :
    (longPages.flatten.map (·.packId)).Nodup ∧
    IndexPages longPages.flatten (cancelledPages longPages) ∧
    listResolvedPacks .start 200 (settleBound 100 10) (cancelledPages longPages) ≠
      resolvedAnswer .start 200 (settleBound 100 10) longPages.flatten := by
  have hrows : ∀ row ∈ longPages.flatten,
      row = cancelledPack 2000 3000 10 ∨ ∃ n < 2000, row = cancelledPack n n 20 := by
    intro row hrow
    simp only [longPages, List.flatten_cons, List.flatten_nil, List.append_nil, List.mem_append,
      List.mem_map, List.mem_range, List.mem_singleton] at hrow
    rcases hrow with ⟨n, hn, rfl⟩ | rfl
    · exact .inr ⟨n, hn, rfl⟩
    · exact .inl rfl
  have hnodup : (longPages.flatten.map (·.packId)).Nodup := by
    have hids (m : ℕ) : ((List.range m).map fun n => cancelledPack n n 20).map (·.packId) =
        List.range m := by
      rw [List.map_map]
      exact List.map_id _
    have hall : longPages.flatten.map (·.packId) = List.range 2000 ++ [2000] := by
      rw [← hids 2000]
      simp only [longPages, List.flatten_cons, List.flatten_nil, List.append_nil, List.map_append,
        List.map_cons, List.map_nil]
      rfl
    rw [hall, ← List.range_succ]
    exact List.nodup_range
  have hpages : IndexPages longPages.flatten (cancelledPages longPages) := by
    apply indexPages_cancelled
    intro row hrow
    rcases hrows row hrow with rfl | ⟨n, -, rfl⟩
    · rfl
    · rfl
  refine ⟨hnodup, hpages, fun heq => ?_⟩
  have hcond := (listResolvedPacks_eq_iff .start 200 (settleBound 100 10) hnodup hpages).mp heq
  have hdue : cancelledPack 2000 3000 10 ∈
      longPages.flatten.filter (isDue .start (settleBound 100 10)) := by
    apply List.mem_filter.mpr
    refine ⟨by simp [longPages], by decide⟩
  have hpast : cancelledPack 2000 3000 10 ∈ pastCap (workCap 200) 0
      (cancelledPages longPages (cancelledPack 2000 3000 10).status) := by
    simp [cancelledPages, cancelledPack, longPages, pastCap, workCap]
  have hfirst : rowsBefore outcomeKey (longPages.flatten.filter
      (isDue .start (settleBound 100 10))) (cancelledPack 2000 3000 10) = [] := by
    apply List.filter_eq_nil_iff.mpr
    intro row hrow
    rcases hrows row (List.mem_of_mem_filter hrow) with rfl | ⟨n, -, rfl⟩
    · simp
    · simp [outcomeKey, outcomeTime, cancelledPack, Prod.Lex.toLex_lt_toLex]
  have hlen := hcond _ hdue hpast
  rw [hfirst] at hlen
  exact absurd hlen (by decide)

end witness

end Mailman.Analysis
