import Mathlib.Data.List.Nodup
import Mailman.Interface.WorldTurns

/-!
# The marks of an unfinished send

What a crash or a fault leaves of a send that was under way: `dispatch_started_at` on a batch,
and `relaunch_open` on the campaign. `Marks.press` is what one Re-launch press that nothing
disturbs does to them.
-/

set_option autoImplicit false

namespace Mailman.Interface

open Mailman.Library Mailman.Model

/-- `relaunch_gen` and `relaunch_open` of a campaign, and the numbers of its batches whose
dispatch was interrupted. -/
@[ext]
structure Marks where
  gen : ℕ
  isOpen : Bool
  batches : List ℕ

namespace Marks

/-- The unfinished sends. -/
def unfinished (m : Marks) : ℕ := m.batches.length + m.isOpen.toNat

/-- One batch is finished. -/
def close (b : ℕ) (m : Marks) : Marks := { m with batches := m.batches.filter (· ≠ b) }

/-- One press: it finishes the first interrupted batch, or else the open generation, or else a
new one. -/
def press (m : Marks) : Marks :=
  match m.batches.min? with
  | some b => m.close b
  | none => { m with gen := if m.isOpen then m.gen else m.gen + 1, isOpen := false }

variable {m : Marks}

/-- A press closes the first batch that is marked. -/
theorem press_eq_close {b : ℕ} (h : m.batches.min? = some b) : m.press = m.close b := by
  unfold press
  rw [h]

/-- Without a marked batch a press finishes the generation, or a new one. -/
theorem press_eq_open (h : m.batches.min? = none) :
    m.press = ⟨if m.isOpen then m.gen else m.gen + 1, false, []⟩ := by
  unfold press
  rw [h, List.min?_eq_none_iff.mp h]

/-- A press finishes one send if there is one. -/
theorem press_unfinished (hm : m.batches.Nodup) (h : 0 < m.unfinished) :
    m.press.unfinished + 1 = m.unfinished ∧ m.press.gen = m.gen := by
  cases hmin : m.batches.min? with
  | none =>
    rw [press_eq_open hmin]
    have hnil := List.min?_eq_none_iff.mp hmin
    cases hopen : m.isOpen with
    | false => simp [unfinished, hnil, hopen] at h
    | true => simp [unfinished, hnil, hopen]
  | some b =>
    rw [press_eq_close hmin]
    have hmem : b ∈ m.batches := List.min?_mem hmin
    have herase : m.batches.filter (· ≠ b) = m.batches.erase b := (hm.erase_eq_filter b).symm ▸ by
      simp [bne, beq_eq_decide]
    have hpos : 0 < m.batches.length := List.length_pos_of_mem hmem
    have hlen : (m.batches.filter (· ≠ b)).length = m.batches.length - 1 := by
      rw [herase, List.length_erase_of_mem hmem]
    refine ⟨?_, rfl⟩
    unfold unfinished close
    dsimp only
    omega

/-- A press opens and finishes a new generation if nothing is unfinished. -/
theorem press_finished (h : m.unfinished = 0) :
    m.press.gen = m.gen + 1 ∧ m.press.unfinished = 0 := by
  unfold unfinished at h
  have hnil : m.batches = [] := List.eq_nil_of_length_eq_zero (by omega)
  have hopen : m.isOpen = false := by
    cases ho : m.isOpen
    · rfl
    · simp [ho] at h
  rw [press_eq_open (by simp [hnil])]
  simp [unfinished, hopen]

end Marks

variable {Id : Type} {may : ℕ → WriteKind → Prop} {c b : ℕ} {t t' : Terminal Id}

/-- The numbers of the interrupted batches of a campaign. -/
def markedOf (c : ℕ) (batches : List CampaignBatch) : List ℕ :=
  ((batches.filter (·.campaignId = c)).filter (·.dispatchStartedAt ≠ none)).map (·.batchNo)

/-- The marks of a campaign. -/
def marksOf (c : ℕ) (t : Terminal Id) : Marks where
  gen := ((t.campaign? c).map (·.relaunchGen)).getD 0
  isOpen := (t.campaign? c).any (·.relaunchOpen)
  batches := markedOf c t.batches

/-- The interrupted batch is the first one that is marked. -/
theorem interrupted?_eq (c : ℕ) (t : Terminal Id) :
    t.interrupted? c = (marksOf c t).batches.min? := by
  unfold Terminal.interrupted? marksOf markedOf
  rw [List.filter_filter]
  congr 3
  funext x
  simp [Bool.and_comm]

/-- No batch is marked twice. -/
theorem marked_nodup (h : (t.batches.map batchKey).Nodup) : (marksOf c t).batches.Nodup := by
  unfold marksOf markedOf
  have hsub : ((t.batches.filter (·.campaignId = c)).filter (·.dispatchStartedAt ≠ none)).Sublist
      t.batches := List.filter_sublist.trans List.filter_sublist
  have hkeys := (hsub.map batchKey).nodup h
  refine List.Nodup.of_map (fun b => (c, b)) ?_
  rw [List.map_map]
  refine (List.map_congr_left fun x hx => ?_) ▸ hkeys
  obtain ⟨-, hc⟩ := List.mem_filter.mp (List.mem_filter.mp hx).1
  have hc : x.campaignId = c := by simpa using hc
  simp [batchKey, hc]

/-! ## What a write does to the marks -/

/-- Everything but the ends of sends keeps the marks. -/
theorem marks_turn (h : TerminalTurn may t t') (hopen : ¬ may c .openGen)
    (hclose : ¬ may c .closeGen) (hcancel : ¬ may c .cancel) (hbatch : ¬ may c .batch) :
    marksOf c t' = marksOf c t := by
  have hrow := h.rows c
  have hbatches : (t'.batches.filter (·.campaignId = c)) = t.batches.filter (·.campaignId = c) :=
    (h.batches c).resolve_left hbatch
  unfold marksOf markedOf
  rw [hbatches]
  generalize t.campaign? c = x at hrow ⊢
  generalize t'.campaign? c = y at hrow ⊢
  cases hrow with
  | same => rfl
  | create x hx => simp [hx.gen, hx.closed]
  | write x y hw =>
    cases hw with
    | openGen h => exact absurd h hopen
    | closeGen h => exact absurd h hclose
    | cancel clear h => exact absurd h hcancel
    | claim | dispatch | retry | pause | change | edit | confirm | archive | tested => rfl

/-- The batches after an update of one that clears its mark. -/
theorem marked_clear {f : CampaignBatch → CampaignBatch} (hkey : ∀ x, batchKey (f x) = batchKey x)
    (hf : ∀ x, (f x).dispatchStartedAt = none) (rows : List CampaignBatch) :
    markedOf c (updateRows rows (fun x => x.campaignId = c ∧ x.batchNo = b) f) =
      (markedOf c rows).filter (· ≠ b) := by
  induction rows with
  | nil => rfl
  | cons x rows ih =>
    have hx : (f x).campaignId = x.campaignId := congrArg Prod.fst (hkey x)
    unfold markedOf updateRows at ih ⊢
    by_cases hc : x.campaignId = c
    · by_cases hb : x.batchNo = b
      · by_cases hm : x.dispatchStartedAt = none <;> simp_all
      · by_cases hm : x.dispatchStartedAt = none <;> simp_all
    · simp_all

/-- The batches after an update of one that keeps all marks but its own. -/
theorem marked_touch {f : CampaignBatch → CampaignBatch} (hkey : ∀ x, batchKey (f x) = batchKey x)
    (rows : List CampaignBatch) :
    (markedOf c (updateRows rows (fun x => x.campaignId = c ∧ x.batchNo = b) f)).filter (· ≠ b) =
      (markedOf c rows).filter (· ≠ b) := by
  induction rows with
  | nil => rfl
  | cons x rows ih =>
    have hx : (f x).campaignId = x.campaignId := congrArg Prod.fst (hkey x)
    have hn : (f x).batchNo = x.batchNo := congrArg Prod.snd (hkey x)
    unfold markedOf updateRows at ih ⊢
    by_cases hc : x.campaignId = c
    · by_cases hb : x.batchNo = b
      · by_cases hm : x.dispatchStartedAt = none <;>
          by_cases hm' : (f x).dispatchStartedAt = none <;> simp_all
      · by_cases hm : x.dispatchStartedAt = none <;> simp_all
    · simp_all

/-- The batches after an update that keeps every mark. -/
theorem marked_keep {p : CampaignBatch → Bool} {f : CampaignBatch → CampaignBatch}
    (hkey : ∀ x, batchKey (f x) = batchKey x)
    (hf : ∀ x, (f x).dispatchStartedAt = x.dispatchStartedAt) (rows : List CampaignBatch) :
    markedOf c (updateRows rows p f) = markedOf c rows := by
  induction rows with
  | nil => rfl
  | cons x rows ih =>
    have hx : (f x).campaignId = x.campaignId := congrArg Prod.fst (hkey x)
    have hn : (f x).batchNo = x.batchNo := congrArg Prod.snd (hkey x)
    unfold markedOf updateRows at ih ⊢
    by_cases hp : p x
    · by_cases hc : x.campaignId = c
      · by_cases hm : x.dispatchStartedAt = none <;> simp_all
      · simp_all
    · by_cases hc : x.campaignId = c
      · by_cases hm : x.dispatchStartedAt = none <;> simp_all
      · simp_all

section updates

variable {f : CampaignBatch → CampaignBatch}

/-- Clearing a batch's mark closes it. -/
theorem marksOf_clear (hkey : ∀ x, batchKey (f x) = batchKey x)
    (hf : ∀ x, (f x).dispatchStartedAt = none) :
    marksOf c (t.updateBatches c (·.batchNo = b) f) = (marksOf c t).close b := by
  have hmarked := marked_clear (c := c) (b := b) hkey hf t.batches
  unfold marksOf Marks.close
  dsimp only
  rw [← hmarked]
  simp [Terminal.updateBatches, Terminal.campaign?]

/-- Writing a batch that is then closed leaves the marks. -/
theorem marksOf_touch (hkey : ∀ x, batchKey (f x) = batchKey x) :
    (marksOf c (t.updateBatches c (·.batchNo = b) f)).close b = (marksOf c t).close b := by
  have hmarked := marked_touch (c := c) (b := b) hkey t.batches
  unfold marksOf Marks.close
  dsimp only
  rw [← hmarked]
  simp [Terminal.updateBatches, Terminal.campaign?]

/-- An update that keeps the marks keeps them. -/
theorem marksOf_keep {c' : ℕ} {p : CampaignBatch → Bool} (hkey : ∀ x, batchKey (f x) = batchKey x)
    (hf : ∀ x, (f x).dispatchStartedAt = x.dispatchStartedAt) :
    marksOf c (t.updateBatches c' p f) = marksOf c t := by
  unfold marksOf
  rw [← marked_keep (c := c) hkey hf t.batches]
  rfl

/-- The marks after an update of the campaign row. -/
theorem marksOf_updateCampaign {p : Campaign → Bool} {f : Campaign → Campaign} {x : Campaign}
    (hid : ∀ x, (f x).id = x.id) (hx : t.campaign? c = some x) :
    marksOf c (t.updateCampaign c p f) = { marksOf c t with
      gen := (if p x then f x else x).relaunchGen
      isOpen := (if p x then f x else x).relaunchOpen } := by
  have hxid := campaign?_id hx
  unfold marksOf
  rw [campaign?_updateCampaign hid, hx]
  simp only [Option.map_some, hxid, true_and, Option.getD_some, Option.any_some]
  rfl

/-- What `_open_relaunch` writes. -/
theorem marksOf_openGen {x : Campaign} (hx : t.campaign? c = some x) :
    marksOf c (t.updateCampaign c (fun x => !x.relaunchOpen) fun x =>
        { x with relaunchGen := x.relaunchGen + 1, relaunchOpen := true }) =
      ⟨if x.relaunchOpen then x.relaunchGen else x.relaunchGen + 1, true, (marksOf c t).batches⟩ := by
  have hid : ∀ x : Campaign, ({ x with
      relaunchGen := x.relaunchGen + 1, relaunchOpen := true } : Campaign).id = x.id :=
    fun _ => rfl
  rw [marksOf_updateCampaign hid hx]
  cases hopen : x.relaunchOpen with
  | true => simp [hopen]
  | false => simp

/-- What the end of a Re-launch writes. -/
theorem marksOf_closeGen {gen : ℕ} (hgen : (marksOf c t).gen = gen) :
    marksOf c (t.updateCampaign c (·.relaunchGen = gen) fun x => { x with relaunchOpen := false }) =
      ⟨gen, false, (marksOf c t).batches⟩ := by
  have hid : ∀ x : Campaign, ({ x with relaunchOpen := false } : Campaign).id = x.id :=
    fun _ => rfl
  cases hx : t.campaign? c with
  | none =>
    have hgen : 0 = gen := by simpa [marksOf, hx] using hgen
    unfold marksOf
    rw [campaign?_updateCampaign hid, hx, ← hgen]
    rfl
  | some x =>
    have hgen : x.relaunchGen = gen := by simpa [marksOf, hx] using hgen
    rw [marksOf_updateCampaign hid hx]
    simp [hgen]

end updates

end Mailman.Interface
