import Mathlib.Data.List.Flatten
import Mailman.Model.OutcomeCursor

/-!
# What a poll sees

`OutcomeView` is what a poll needs to know about the rows its queries show: those that are
not held back belong to different packs (`pairwise_shown`), and the newest resolution of a
pack is among them once it has settled (`mem_shown_of_settled`). Below the scan cap the
answer of `list_resolved_packs` is a page of the shown rows past the cursor
(`listResolvedPacks_eq`).
-/

set_option autoImplicit false

namespace Mailman.Interface

open Mailman.Library Mailman.Model

variable {Id : Type}

/-- What holds of the versions of every item: each is filed under its own id, and an item
that is resolved stays resolved. -/
structure Versions (s : Cloud Id) : Prop where
  filed : ∀ id, ∀ v ∈ s.packs id, v.packId = id
  resolved : ∀ id, (s.packs id).Pairwise fun newer older =>
    older.status.resolved = true → newer.status.resolved = true

/-- A row whose outcome time a poll at `now` does not hold back. -/
def Settled (now : ℕ) (row : Pack Id) : Prop := outcomeTime row + resolvedSettleS ≤ now

/-- Below the cap the page loop reads the whole partition. -/
theorem scanPages_eq {cap : ℕ} (keep : Pack Id → Bool) (scanned : ℕ) (pages : List (List (Pack Id)))
    (h : scanned + pages.flatten.length < cap) :
    scanPages cap keep scanned pages = pages.flatten.filter keep := by
  induction pages generalizing scanned with
  | nil => rfl
  | cons items rest ih =>
    rw [List.flatten_cons, List.length_append] at h
    have hgo : ¬ cap ≤ scanned + items.length := by omega
    rw [scanPages, if_neg hgo, ih _ (by omega), List.flatten_cons, List.filter_append]

/-- A scanned row is in the pages. -/
theorem mem_of_mem_scanPages {cap : ℕ} {keep : Pack Id → Bool} {scanned : ℕ}
    {pages : List (List (Pack Id))} {row : Pack Id} (h : row ∈ scanPages cap keep scanned pages) :
    row ∈ pages.flatten := by
  induction pages generalizing scanned with
  | nil => exact h
  | cons items rest ih =>
    rw [List.flatten_cons, List.mem_append]
    rcases List.mem_append.mp h with hitem | hrest
    · exact .inl (List.mem_of_mem_filter hitem)
    · split at hrest
      · cases hrest
      · exact .inr (ih hrest)

/-- The rows the queries of a poll show. -/
def shown (w : OutcomeWorld Id) (r : PollRead Id) : List (Pack Id) :=
  resolvedPackStatuses.flatMap fun st => (w.cloud.queryStatus r st).flatten

/-- The rows of a query are the visited ones with the status. -/
theorem query_flatten (w : OutcomeWorld Id) (r : PollRead Id) (st : PackStatus) :
    (w.cloud.queryStatus r st).flatten =
      ((r.visited st).flatten.filterMap fun id => (w.cloud.packs id)[r.lag st id]?).filter
        (·.status = st) := by
  unfold Cloud.queryStatus
  rw [List.filterMap_flatten, List.filter_flatten, List.map_map]
  rfl

/-- A shown row is resolved and visited. -/
theorem mem_shown {w : OutcomeWorld Id} {r : PollRead Id} {row : Pack Id} :
    row ∈ shown w r ↔ row.status.resolved = true ∧
      ∃ id ∈ (r.visited row.status).flatten,
        (w.cloud.packs id)[r.lag row.status id]? = some row := by
  have hres : row.status ∈ resolvedPackStatuses ↔ row.status.resolved = true := by
    simp [PackStatus.resolved]
  simp only [shown, List.mem_flatMap, query_flatten, List.mem_filter, List.mem_filterMap,
    decide_eq_true_eq]
  constructor
  · rintro ⟨st, hst, ⟨id, hid, hrow⟩, rfl⟩
    exact ⟨hres.mp hst, id, hid, hrow⟩
  · rintro ⟨hst, id, hid, hrow⟩
    exact ⟨row.status, hres.mpr hst, ⟨id, hid, hrow⟩, rfl⟩

/-- A partition is never behind a resolved version that has settled. -/
theorem lag_le_of_settled {w : OutcomeWorld Id} {limit : ℕ} {r : PollRead Id}
    (h : w.PollOk limit r) {st : PackStatus} (hst : st ∈ resolvedPackStatuses) {id : Id} {j : ℕ}
    {row : Pack Id} (hrow : (w.cloud.packs id)[j]? = some row)
    (hres : row.status.resolved = true) (hs : Settled r.now row) : r.lag st id ≤ j := by
  by_contra hlt
  rw [not_le] at hlt
  obtain ⟨S, hS, hnow⟩ := h.visible st hst id j hlt row hrow hres
  have htime : outcomeTime row = S := by rw [outcomeTime, hS, Option.getD_some]
  rw [Settled, htime] at hs
  omega

/-- The newest resolution of a pack is shown once it has settled. -/
theorem mem_shown_of_settled {w : OutcomeWorld Id} {limit : ℕ} {r : PollRead Id}
    (h : w.PollOk limit r) {id : Id} {row : Pack Id} (hrow : w.cloud.lookup id = some row)
    (hres : row.status.resolved = true) (hs : Settled r.now row) : row ∈ shown w r := by
  have hst : row.status ∈ resolvedPackStatuses := by simpa [PackStatus.resolved] using hres
  rw [Cloud.lookup, List.head?_eq_getElem?] at hrow
  have hlag : r.lag row.status id = 0 := Nat.le_zero.mp (lag_le_of_settled h hst hrow hres hs)
  have hne : w.cloud.packs id ≠ [] := by
    intro hnil
    rw [hnil] at hrow
    exact absurd hrow (by simp)
  refine mem_shown.mpr ⟨hres, id, h.complete _ hst id hne, ?_⟩
  rw [hlag]
  exact hrow

/-- When the newest resolution of every pack has settled, nothing older is shown. -/
theorem lookup_of_mem_shown {w : OutcomeWorld Id} {limit : ℕ} {r : PollRead Id}
    (hv : Versions w.cloud) (h : w.PollOk limit r)
    (hall : ∀ id v, w.cloud.lookup id = some v → v.status.resolved = true → Settled r.now v)
    {row : Pack Id} (hrow : row ∈ shown w r) : w.cloud.lookup row.packId = some row := by
  obtain ⟨hres, id, -, hget⟩ := mem_shown.mp hrow
  have hst : row.status ∈ resolvedPackStatuses := by simpa [PackStatus.resolved] using hres
  have hid : row.packId = id := hv.filed id row (List.mem_of_getElem? hget)
  subst hid
  rw [Cloud.lookup]
  generalize hlag : r.lag row.status row.packId = lag at hget
  cases hp : w.cloud.packs row.packId with
  | nil => rw [hp] at hget; exact absurd hget (by simp)
  | cons newest older =>
    rw [hp] at hget
    cases lag with
    | zero => exact hget
    | succ lag =>
      -- a newer version is resolved as well and has settled, so no partition is behind it
      have hmem : row ∈ older := List.mem_of_getElem? hget
      have hpair := hv.resolved row.packId
      rw [hp, List.pairwise_cons] at hpair
      have hnew : newest.status.resolved = true := hpair.1 row hmem hres
      have hhead : w.cloud.lookup row.packId = some newest := by rw [Cloud.lookup, hp]; rfl
      have hle : r.lag row.status row.packId ≤ 0 :=
        lag_le_of_settled h hst (by rw [hp]; rfl) hnew (hall _ _ hhead hnew)
      omega

/-- Settled rows that are shown are of different packs. -/
theorem pairwise_shown {w : OutcomeWorld Id} {limit : ℕ} {r : PollRead Id}
    (hv : Versions w.cloud) (h : w.PollOk limit r) :
    (shown w r).Pairwise fun a b => Settled r.now a → Settled r.now b → a.packId ≠ b.packId := by
  rw [shown, List.pairwise_flatMap]
  constructor
  · intro st hst
    rw [query_flatten]
    refine List.Pairwise.filter _ (List.Pairwise.filterMap _ ?_ (h.nodup st hst))
    intro id id' hne a ha b hb _ _
    rw [hv.filed id a (List.mem_of_getElem? ha), hv.filed id' b (List.mem_of_getElem? hb)]
    exact hne
  · have hne : resolvedPackStatuses.Pairwise (· ≠ ·) := by decide
    refine hne.imp_of_mem ?_
    intro st st' hst hst' hdiff a ha b hb hsa hsb heq
    rw [query_flatten, List.mem_filter, List.mem_filterMap] at ha hb
    obtain ⟨⟨id, -, hgeta⟩, hstat⟩ := ha
    obtain ⟨⟨id', -, hgetb⟩, hstat'⟩ := hb
    rw [decide_eq_true_eq] at hstat hstat'
    have hid : id = id' := by
      rw [← hv.filed id a (List.mem_of_getElem? hgeta), heq,
        hv.filed id' b (List.mem_of_getElem? hgetb)]
    subst hid
    have hresa : a.status.resolved = true := by rw [hstat]; simpa [PackStatus.resolved] using hst
    have hresb : b.status.resolved = true := by
      rw [hstat']; simpa [PackStatus.resolved] using hst'
    have hle : r.lag st' id ≤ r.lag st id := lag_le_of_settled h hst' hgeta hresa hsa
    have hge : r.lag st id ≤ r.lag st' id := lag_le_of_settled h hst hgetb hresb hsb
    rw [le_antisymm hle hge, hgeta] at hgetb
    rw [Option.some.injEq] at hgetb
    exact hdiff (by rw [← hstat, ← hstat', hgetb])

/-- A filter behind a narrower one changes nothing. -/
private theorem flatMap_filter_filter {α β : Type} (l : List α) (f : α → List β) (p q : β → Bool)
    (h : ∀ b, q b = true → p b = true) :
    (l.flatMap fun a => (f a).filter p).filter q = (l.flatMap f).filter q := by
  rw [List.filter_flatMap, List.filter_flatMap]
  congr 1
  funext a
  rw [List.filter_filter]
  refine List.filter_congr fun b _ => ?_
  cases hq : q b with
  | false => rfl
  | true => rw [h b hq]; rfl

/-! ## The rows past the cursor -/

variable [LinearOrder Id]

/-- A row is answered when it is settled and past the cursor. -/
theorem afterCursor_iff (row : Pack Id) (since : OutcomeCursor Id) (now : ℕ) :
    afterCursor (outcomeKey row) since (some (isoAgo now resolvedSettleS)) = true ↔
      Settled now row ∧ since.before (outcomeKey row) = true := by
  have hheld : isoAgo now resolvedSettleS < (outcomeTime row : ℤ) ↔ ¬ Settled now row := by
    unfold isoAgo Settled
    omega
  have htime : (ofLex (outcomeKey row)).1 = outcomeTime row := rfl
  unfold afterCursor
  simp only [htime, Option.any_some, decide_eq_true_eq, hheld]
  split <;> simp_all

/-- The filter expression keeps every row past the cursor. -/
theorem filterExpression_of_before {row : Pack Id} {since : OutcomeCursor Id}
    (h : since.before (outcomeKey row) = true) : filterExpression since row = true := by
  have htime : ∀ t, t ≤ outcomeTime row →
      (row.resolvedAt.any (t ≤ ·) || decide (t ≤ row.enqueuedAt)) = true := by
    intro t ht
    unfold outcomeTime at ht
    cases hr : row.resolvedAt with
    | none => rw [hr, Option.getD_none] at ht; simp [ht]
    | some S => rw [hr, Option.getD_some] at ht; simp [ht]
  cases since with
  | start => rfl
  | time t =>
    apply htime
    exact (of_decide_eq_true h).le
  | after t pid =>
    apply htime
    simp only [OutcomeCursor.before, outcomeKey, decide_eq_true_eq, Prod.Lex.toLex_lt_toLex] at h
    rcases h with hlt | ⟨heq, -⟩
    · exact hlt.le
    · exact heq.le

/-- The shown rows past the cursor that are not held back. -/
def due (w : OutcomeWorld Id) (r : PollRead Id) : List (Pack Id) :=
  (shown w r).filter fun row =>
    afterCursor (outcomeKey row) w.cursor (some (isoAgo r.now resolvedSettleS))

/-- A due row is shown, settled and past the cursor. -/
theorem mem_due {w : OutcomeWorld Id} {r : PollRead Id} {row : Pack Id} :
    row ∈ due w r ↔ row ∈ shown w r ∧ Settled r.now row ∧
      w.cursor.before (outcomeKey row) = true := by
  rw [due, List.mem_filter, afterCursor_iff]

/-- **Below the scan cap an answer is a page of the due rows.** -/
theorem listResolvedPacks_eq {w : OutcomeWorld Id} {limit : ℕ} {r : PollRead Id}
    (h : w.PollOk limit r) :
    listResolvedPacks w.cursor limit (some (isoAgo r.now resolvedSettleS)) (w.cloud.queryStatus r) =
      page outcomeKey limit (due w r) := by
  have hscan : (resolvedPackStatuses.flatMap fun st =>
      scanPages (workCap limit) (filterExpression w.cursor) 0 (w.cloud.queryStatus r st)) =
      resolvedPackStatuses.flatMap fun st =>
        ((w.cloud.queryStatus r st).flatten.filter (filterExpression w.cursor)) := by
    refine List.flatMap_congr fun st hst => scanPages_eq _ 0 _ ?_
    have := h.below_cap st hst
    omega
  unfold listResolvedPacks due shown
  simp only [hscan]
  rw [flatMap_filter_filter]
  intro row hrow
  exact filterExpression_of_before ((afterCursor_iff row _ _).mp hrow).2

/-- Due rows are of different packs. -/
theorem pairwise_due {w : OutcomeWorld Id} {limit : ℕ} {r : PollRead Id}
    (hv : Versions w.cloud) (h : w.PollOk limit r) :
    (due w r).Pairwise fun a b => a.packId ≠ b.packId := by
  rw [due, List.pairwise_filter]
  refine (pairwise_shown hv h).imp ?_
  intro a b hab ha hb
  exact hab ((afterCursor_iff a _ _).mp ha).1 ((afterCursor_iff b _ _).mp hb).1

/-- With any cap, a row of an answer is a resolved version of its pack, past the cursor and
settled. -/
theorem mem_listResolvedPacks {s : Cloud Id} {r : PollRead Id} {since : OutcomeCursor Id}
    {limit now : ℕ} {row : Pack Id}
    (h : row ∈ listResolvedPacks since limit (some (isoAgo now resolvedSettleS))
      (s.queryStatus r)) :
    row.status.resolved = true ∧ (∃ id, row ∈ s.packs id) ∧ Settled now row ∧
      since.before (outcomeKey row) = true := by
  have hkept := mem_of_mem_page h
  rw [List.mem_filter, afterCursor_iff, List.mem_flatMap] at hkept
  obtain ⟨⟨st, hst, hscan⟩, hafter⟩ := hkept
  have hrow := mem_of_mem_scanPages hscan
  unfold Cloud.queryStatus at hrow
  simp only [List.mem_flatten, List.mem_map, exists_exists_and_eq_and, List.mem_filter,
    List.mem_filterMap, decide_eq_true_eq] at hrow
  obtain ⟨ids, -, ⟨id, -, hget⟩, rfl⟩ := hrow
  exact ⟨by simpa [PackStatus.resolved] using hst, ⟨id, List.mem_of_getElem? hget⟩, hafter⟩

end Mailman.Interface
