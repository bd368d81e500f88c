import Mathlib.Data.List.Induction
import Mailman.Library.Backlog
import Mailman.Analysis.InboxDelivery

/-!
# Progress of the materialiser

A batch is the first fifty rows that are not marked, and a row that cannot be opened stays one of
them. So a run of batches is a backlog read from the front: how far it gets is worked out from how
many of the rows it has been through cannot be opened.
-/

set_option autoImplicit false

namespace Mailman.Analysis

open Mailman.Library Mailman.Model Mailman.Interface

variable {Id : Type} {emailHash : String → String} {bundle : KeyBundle}

/-- The rows that are not marked. -/
def pendingRows (db : Db Id) : List InboxRow := db.inbox.filter (·.materialisedAt = none)

/-- The rows that are not marked, in event order. -/
def backlog (db : Db Id) : List InboxRow := orderBy (·.eventId) (pendingRows db)

/-- Batch after batch, each with the text of its clock. -/
def batches (emailHash : String → String) (bundle : KeyBundle) (db : Db Id)
    (nows : List String) : Db Id :=
  nows.foldl (fun db nowIso => (materialiseInboxBatch emailHash bundle nowIso db).1) db

/-- The row cannot be opened or applied. -/
def stays (bundle : KeyBundle) (r : InboxRow) : Bool := !opens bundle r.payload

/-- A materialised row is marked, and no other. -/
theorem materialiseRow_inbox {nowIso : String} {db db' : Db Id} {r : InboxRow}
    (h : materialiseRow emailHash bundle nowIso db r = some db') :
    db'.inbox = updateRows db.inbox (·.eventId = r.eventId) fun r =>
      { r with materialisedAt := some nowIso } := by
  obtain ⟨db₁, happly, rfl⟩ := Option.map_eq_some_iff.mp h
  unfold markMaterialised
  rw [(applyRow_frame happly).1]

/-- A row fails to materialise exactly when it stays. -/
theorem materialiseRow_eq_none {nowIso : String} {db : Db Id} {r : InboxRow} :
    materialiseRow emailHash bundle nowIso db r = none ↔ stays bundle r = true := by
  unfold materialiseRow stays
  have happly : (applyRow emailHash bundle nowIso db r).isSome = opens bundle r.payload :=
    applyRow_isSome nowIso db r
  rw [Option.map_eq_none_iff, ← happly]
  simp

/-- The rows that are still unmarked after those of one event id were marked. -/
theorem filter_marked (nowIso : String) (eventId : ℕ) (rows : List InboxRow) :
    (updateRows rows (·.eventId = eventId) fun r =>
      { r with materialisedAt := some nowIso }).filter (·.materialisedAt = none) =
        (rows.filter (·.materialisedAt = none)).filter (·.eventId ≠ eventId) := by
  induction rows with
  | nil => rfl
  | cons r rows ih =>
    unfold updateRows at ih ⊢
    rw [List.map_cons]
    by_cases hid : r.eventId = eventId
    · rw [List.filter_cons_of_neg (by simp [hid]), ih]
      by_cases hmarked : r.materialisedAt = none
      · rw [List.filter_cons_of_pos (by simpa using hmarked), List.filter_cons_of_neg (by simpa)]
      · rw [List.filter_cons_of_neg (by simpa using hmarked)]
    · by_cases hmarked : r.materialisedAt = none
      · rw [List.filter_cons_of_pos (by simpa [hid] using hmarked), ih,
          List.filter_cons_of_pos (by simpa using hmarked), List.filter_cons_of_pos (by simpa)]
        simp [hid]
      · rw [List.filter_cons_of_neg (by simpa [hid] using hmarked), ih,
          List.filter_cons_of_neg (by simpa using hmarked)]

/-- What a batch leaves unmarked: everything but its rows that could be opened. -/
theorem pendingRows_counted (nowIso : String) (rows : List InboxRow) (db : Db Id) (applied : ℕ) :
    pendingRows (materialiseRowsCounted emailHash bundle nowIso rows (db, applied)).1 =
      (pendingRows db).filter fun r =>
        rows.all fun r' => stays bundle r' || decide (r.eventId ≠ r'.eventId) := by
  induction rows generalizing db applied with
  | nil => simp [materialiseRowsCounted]
  | cons row rows ih =>
    rw [materialiseRowsCounted]
    cases hrow : materialiseRow emailHash bundle nowIso db row with
    | none =>
      have hstays := materialiseRow_eq_none.mp hrow
      dsimp only
      rw [ih]
      simp [hstays]
    | some db' =>
      have hopens : stays bundle row = false := by
        have hiff : materialiseRow emailHash bundle nowIso db row = none ↔
            stays bundle row = true := materialiseRow_eq_none
        rw [← Bool.not_eq_true, ← hiff, hrow]
        exact Option.some_ne_none _
      have hpending : pendingRows db' =
          (pendingRows db).filter fun r => decide (r.eventId ≠ row.eventId) := by
        unfold pendingRows
        rw [materialiseRow_inbox hrow]
        exact filter_marked nowIso row.eventId db.inbox
      dsimp only
      rw [ih, hpending, List.filter_filter]
      simp [hopens, Bool.and_comm]

/-- A batch is one round of the backlog. -/
theorem backlog_batch {db : Db Id} (hids : (db.inbox.map (·.eventId)).Nodup) (nowIso : String) :
    backlog (materialiseInboxBatch emailHash bundle nowIso db).1 =
      Backlog.round (stays bundle) 50 (backlog db) := by
  have hpending : ((pendingRows db).map (·.eventId)).Nodup :=
    hids.sublist (List.filter_sublist.map _)
  have hbacklog : ((backlog db).map (·.eventId)).Nodup :=
    ((perm_orderBy (pendingRows db)).map _).nodup_iff.mpr hpending
  have hbatch : db.inboxBatch = (backlog db).take 50 := rfl
  unfold materialiseInboxBatch
  rw [backlog, pendingRows_counted, orderBy_filter hpending, hbatch]
  change (backlog db).filter _ = _
  unfold Backlog.round
  conv => lhs; arg 2; rw [← List.take_append_drop 50 (backlog db)]
  rw [List.filter_append]
  rw [← List.take_append_drop 50 (backlog db), List.map_append, List.nodup_append] at hbacklog
  obtain ⟨htake, -, hapart⟩ := hbacklog
  congr 1
  · apply List.filter_congr
    intro r hr
    rw [Bool.eq_iff_iff, List.all_eq_true]
    constructor
    · intro hall
      simpa using hall r hr
    · intro hstays r' hr'
      by_cases hid : r.eventId = r'.eventId
      · obtain rfl := List.inj_on_of_nodup_map htake hr hr' hid
        simp [hstays]
      · simp [hid]
  · apply List.filter_eq_self.mpr
    intro r hr
    rw [List.all_eq_true]
    intro r' hr'
    have hne : r'.eventId ≠ r.eventId :=
      hapart _ (List.mem_map_of_mem hr') _ (List.mem_map_of_mem hr)
    simp [hne.symm]

/-- A batch changes no event id. -/
theorem counted_ids (nowIso : String) (rows : List InboxRow) (db : Db Id) (applied : ℕ) :
    (materialiseRowsCounted emailHash bundle nowIso rows (db, applied)).1.inbox.map (·.eventId) =
      db.inbox.map (·.eventId) := by
  induction rows generalizing db applied with
  | nil => rfl
  | cons row rows ih =>
    rw [materialiseRowsCounted]
    cases hrow : materialiseRow emailHash bundle nowIso db row with
    | none => exact ih db applied
    | some db' =>
      dsimp only
      rw [ih, materialiseRow_inbox hrow, updateRows, List.map_map]
      apply List.map_congr_left
      intro r _
      rw [Function.comp_apply]
      split <;> rfl

/-- Batches keep the ids of the inbox. -/
theorem batches_ids (db : Db Id) (nows : List String) :
    (batches emailHash bundle db nows).inbox.map (·.eventId) = db.inbox.map (·.eventId) := by
  induction nows generalizing db with
  | nil => rfl
  | cons nowIso nows ih => exact (ih _).trans (counted_ids nowIso db.inboxBatch db 0)

/-- A run of batches is so many rounds of the backlog. -/
theorem backlog_batches {db : Db Id} (hids : (db.inbox.map (·.eventId)).Nodup)
    (nows : List String) :
    backlog (batches emailHash bundle db nows) =
      Backlog.rounds (stays bundle) 50 nows.length (backlog db) := by
  induction nows using List.reverseRecOn with
  | nil => rfl
  | append_singleton nows nowIso ih =>
    have hids' : ((batches emailHash bundle db nows).inbox.map (·.eventId)).Nodup := by
      rw [batches_ids]
      exact hids
    have hlast : batches emailHash bundle db (nows ++ [nowIso]) =
        (materialiseInboxBatch emailHash bundle nowIso (batches emailHash bundle db nows)).1 := by
      unfold batches
      rw [List.foldl_append]
      rfl
    rw [hlast, backlog_batch hids', ih, List.length_append, List.length_singleton, Backlog.rounds]

/-- The backlog is what is not materialised. -/
theorem mem_backlog {db : Db Id} {r : InboxRow} :
    r ∈ backlog db ↔ r ∈ db.inbox ∧ r.materialisedAt = none := by
  unfold backlog pendingRows
  rw [mem_orderBy, List.mem_filter, decide_eq_true_eq]

/-- What is left after a number of batches, by the reach of as many rounds. -/
theorem settled_iff {db : Db Id} (hids : (db.inbox.map (·.eventId)).Nodup) (nows : List String) :
    (∀ r ∈ (batches emailHash bundle db nows).inbox, r.materialisedAt = none →
      stays bundle r = true) ↔
      ∀ r ∈ (backlog db).drop (Backlog.reach (stays bundle) 50 (backlog db) nows.length),
        stays bundle r = true := by
  rw [← Backlog.all_rounds_iff, ← backlog_batches hids]
  constructor
  · intro h r hr
    obtain ⟨hmem, hunmarked⟩ := mem_backlog.mp hr
    exact h r hmem hunmarked
  · intro h r hmem hunmarked
    exact h r (mem_backlog.mpr ⟨hmem, hunmarked⟩)

/-- However many batches there are from `⌈n / 50⌉` on, every row that can be opened is marked,
exactly when all rows past the reach of `⌈n / 50⌉` rounds cannot be opened. -/
theorem progress_iff {db : Db Id} (hids : (db.inbox.map (·.eventId)).Nodup) :
    (∀ nows : List String, ((pendingRows db).length + 49) / 50 ≤ nows.length →
      ∀ r ∈ (batches emailHash bundle db nows).inbox, r.materialisedAt = none →
        stays bundle r = true) ↔
      ∀ r ∈ (backlog db).drop (Backlog.reach (stays bundle) 50 (backlog db)
        (((pendingRows db).length + 49) / 50)), stays bundle r = true := by
  constructor
  · intro h
    have hexact := (settled_iff hids
      (List.replicate (((pendingRows db).length + 49) / 50) "")).mp (h _ (by simp))
    rw [List.length_replicate] at hexact
    exact hexact
  · intro h nows hlength
    apply (settled_iff hids nows).mpr
    intro r hr
    have hreach : Backlog.reach (stays bundle) 50 (backlog db)
        (((pendingRows db).length + 49) / 50) ≤
          Backlog.reach (stays bundle) 50 (backlog db) nows.length := Backlog.reach_mono hlength
    obtain ⟨d, hd⟩ := Nat.exists_eq_add_of_le hreach
    rw [hd, ← List.drop_drop] at hr
    exact h r (List.mem_of_mem_drop hr)

/-! ## Rows that cannot be opened -/

private def inboxRow (payload : Option BothEnvelope) (eventId : ℕ) : InboxRow where
  eventId := eventId
  table := .webhookEvent
  rowId := ""
  revision := 0
  payload := payload

/-- So many rows that cannot be opened, and one after them that can. -/
def badRows (bad : ℕ) : Db ℕ where
  inbox := (List.range bad).map (inboxRow (some .garbage)) ++ [inboxRow none bad]

private def anyBundle : KeyBundle := ⟨.operator, ⟨0⟩⟩

/-- With one bad row the good one is marked in the first batch. -/
theorem progress_iff_one :
    (∀ nows : List String, ((pendingRows (badRows 1)).length + 49) / 50 ≤ nows.length →
      ∀ r ∈ (batches id anyBundle (badRows 1) nows).inbox, r.materialisedAt = none →
        stays anyBundle r = true) ↔
      ∀ r ∈ (backlog (badRows 1)).drop (Backlog.reach (stays anyBundle) 50 (backlog (badRows 1))
        (((pendingRows (badRows 1)).length + 49) / 50)), stays anyBundle r = true :=
  progress_iff (by decide)

/-- Behind fifty bad rows the good one is never read. -/
theorem fifty_bad_rows : ¬ ∀ nows : List String,
    ((pendingRows (badRows 50)).length + 49) / 50 ≤ nows.length →
      ∀ r ∈ (batches id anyBundle (badRows 50) nows).inbox, r.materialisedAt = none →
        stays anyBundle r = true := by
  intro h
  have htwo := h ["", ""] (by decide +kernel)
  revert htwo
  decide +kernel

end Mailman.Analysis
