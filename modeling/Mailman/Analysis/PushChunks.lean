import Mailman.Analysis.PushSafe
import Mailman.Model.PushFaults

/-!
# The chunks of a push

What a push leaves in the cloud, wherever one of its chunks stops: packs stay stored, the
acknowledged ones are among the first, and every pack that is reported as held is one of its own.
-/

set_option autoImplicit false

namespace Mailman.Analysis

open Mailman.Library Mailman.Model

variable {Id : Type} [LinearOrder Id]

/-! ## The chunks -/

section chunks

/-- The chunks before the first that is not answered. -/
def ackedParts {α : Type} (fate : ℕ → ChunkFate) : ℕ → List (List α) → List (List α)
  | _, [] => []
  | n, part :: parts => match fate n with
    | .answered => part :: ackedParts fate (n + 1) parts
    | .raised _ _ => []

/-- The error of the first chunk that is not answered. -/
def pushError {α : Type} (fate : ℕ → ChunkFate) : ℕ → List (List α) → Option LaunchError
  | _, [] => none
  | n, _ :: parts => match fate n with
    | .answered => pushError fate (n + 1) parts
    | .raised _ e => some e

/-- The acknowledged parts are the first ones. -/
theorem ackedParts_prefix {α : Type} (fate : ℕ → ChunkFate) (n : ℕ) (parts : List (List α)) :
    ackedParts fate n parts <+: parts := by
  induction parts generalizing n with
  | nil => exact List.prefix_rfl
  | cons part parts ih =>
    unfold ackedParts
    split
    · exact (List.prefix_cons_inj part).mpr (ih (n + 1))
    · exact List.nil_prefix

/-- Without an error all parts are acknowledged. -/
theorem ackedParts_eq_self {α : Type} {fate : ℕ → ChunkFate} {n : ℕ} {parts : List (List α)}
    (h : pushError fate n parts = none) : ackedParts fate n parts = parts := by
  induction parts generalizing n with
  | nil => rfl
  | cons part parts ih =>
    unfold pushError at h
    unfold ackedParts
    split at h
    · next hfate =>
      rw [ih h]
    · cases h

/-- Where every chunk is answered there is no error. -/
theorem pushError_answered {α : Type} {fate : ℕ → ChunkFate} (h : ∀ n, fate n = .answered) (n : ℕ)
    (parts : List (List α)) : pushError fate n parts = none := by
  induction parts generalizing n with
  | nil => rfl
  | cons part parts ih =>
    unfold pushError
    rw [h n]
    exact ih (n + 1)

/-- The acknowledged packs are the first ones. -/
theorem flatten_ackedParts {α : Type} (fate : ℕ → ChunkFate) {size : ℕ} (hsize : 0 < size)
    (xs : List α) : (ackedParts fate 0 (sliceBy size xs.length xs)).flatten =
      xs.take (ackedParts fate 0 (sliceBy size xs.length xs)).flatten.length := by
  obtain ⟨rest, hrest⟩ := ackedParts_prefix fate 0 (sliceBy size xs.length xs)
  have hflat := flatten_sliceBy hsize xs.length xs (Nat.le_refl _)
  rw [← hrest, List.flatten_append] at hflat
  have htake := congrArg
    (List.take (ackedParts fate 0 (sliceBy size xs.length xs)).flatten.length) hflat
  rwa [List.take_left] at htake

variable {c : Cloud Id} {i : CloudInput Id} {actor : Actor} {now : Stamp}

/-- What is stored after a store. -/
theorem stored_store (c : Cloud Id) (id id' : Id) (p : Pack Id) :
    Stored (c.store id p) id' ↔ Stored c id' ∨ id' = id := by
  unfold Stored Cloud.status Cloud.lookup Cloud.store
  by_cases h : id' = id
  · subst h
    simp
  · simp [h]

/-- Every version of an item is filed under its id. -/
def Filed (c : Cloud Id) : Prop := ∀ id, ∀ p ∈ c.packs id, p.packId = id

/-- What serving some packs does to the cloud, and what it says is held. -/
structure Serves (c c' : Cloud Id) (packs : List (PackIn Id)) (held : List (PackOutcome Id)) :
    Prop where
  stored : ∀ id, Stored c' id ↔ Stored c id ∨ ∃ p ∈ packs, p.packId = id
  held : ∀ o ∈ held, ∃ p ∈ packs, o.packId = p.packId
  filed : Filed c'

/-- The result of a sequence comes of its parts. -/
theorem result_bind {σ ι α β : Type} (p : Proc σ ι α) (k : α → Proc σ ι β) (s : σ) (i : ι) :
    (p >>= k).result s i = (k (p.result s i).2).result (p.result s i).1 i := by
  induction p generalizing s with
  | ret r => rfl
  | atom upd next ih => exact ih s i (upd s i)

omit [LinearOrder Id] in
/-- Serving one pack and then the others. -/
theorem Serves.trans {c₁ c₂ c₃ : Cloud Id} {p : PackIn Id} {packs : List (PackIn Id)}
    {held held' : List (PackOutcome Id)} (h : Serves c₁ c₂ [p] held)
    (h' : Serves c₂ c₃ packs held') : Serves c₁ c₃ (p :: packs) (held ++ held') where
  stored id := by
    rw [h'.stored, h.stored]
    simp [or_assoc]
  held o ho := by
    rcases List.mem_append.mp ho with ho | ho
    · obtain ⟨q, hq, heq⟩ := h.held o ho
      exact ⟨q, List.mem_cons.mpr (Or.inl (List.mem_singleton.mp hq)), heq⟩
    · obtain ⟨q, hq, heq⟩ := h'.held o ho
      exact ⟨q, List.mem_cons_of_mem _ hq, heq⟩
  filed := h'.filed

/-- A pack that is there is not stored again. -/
theorem putPack_again {p : PackIn Id} {q : Pack Id} (h : c.lookup p.packId = some q) :
    (putPack p actor).result c i = (c, false) := by
  simp only [putPack, Proc.act, Proc.result, h]

/-- A new pack is stored. -/
theorem putPack_new {p : PackIn Id} (h : c.lookup p.packId = none) :
    (putPack p actor).result c i = (c.store p.packId (p.item actor i.now), true) := by
  simp only [putPack, Proc.act, Proc.result, h]

/-- A pack that is posted is stored, and the rest of the table stays as it is. -/
theorem putPack_serves (hfiled : Filed c) (p : PackIn Id) :
    Serves c ((putPack p actor).result c i).1 [p] [] ∧
      (((putPack p actor).result c i).2 = false → ((putPack p actor).result c i).1 = c) := by
  cases hlookup : c.lookup p.packId with
  | some q =>
    have hstored : Stored c p.packId := by
      unfold Stored Cloud.status
      rw [hlookup]
      exact Option.some_ne_none _
    rw [putPack_again hlookup]
    refine ⟨⟨fun id => ?_, by simp, hfiled⟩, fun _ => rfl⟩
    constructor
    · exact Or.inl
    · rintro (h | ⟨q, hq, rfl⟩)
      · exact h
      · rwa [List.mem_singleton.mp hq]
  | none =>
    rw [putPack_new hlookup]
    refine ⟨⟨fun id => ?_, by simp, ?_⟩, fun h => absurd h (by simp)⟩
    · rw [stored_store]
      simp [eq_comm]
    · intro id q hq
      change q ∈ Function.update c.packs p.packId _ id at hq
      by_cases hid : id = p.packId
      · subst hid
        rw [Function.update_self] at hq
        rcases List.mem_cons.mp hq with rfl | hq
        · rfl
        · exact hfiled _ q hq
      · rw [Function.update_of_ne hid] at hq
        exact hfiled id q hq

/-- The loop of a push serves its packs. -/
theorem packsPushLoop_serves (hfiled : Filed c) (packs : List (PackIn Id)) (ack : PushAck Id) :
    ∃ held, ((packsPushLoop now actor packs ack).result c i).2.held = ack.held ++ held ∧
      Serves c ((packsPushLoop now actor packs ack).result c i).1 packs held := by
  induction packs generalizing c ack with
  | nil =>
    refine ⟨[], (List.append_nil _).symm, fun id => ?_, by simp, hfiled⟩
    show Stored c id ↔ _
    simp
  | cons p packs ih =>
    obtain ⟨hput, hsame⟩ := @putPack_serves _ _ c i actor hfiled p
    unfold packsPushLoop
    rw [result_bind]
    cases hinserted : ((putPack p actor).result c i).2 with
    | true =>
      rw [if_pos rfl]
      obtain ⟨held, hheld, hserves⟩ := ih hput.filed (if p.sendAt ≤ now then
          { ack with accepted := ack.accepted + 1, enqueued := ack.enqueued + 1 }
        else { ack with accepted := ack.accepted + 1, deferred := ack.deferred + 1 })
      refine ⟨held, ?_, hput.trans hserves⟩
      rw [hheld]
      split_ifs
      · rfl
      · rfl
    | false =>
      rw [if_neg Bool.false_ne_true, result_bind]
      have hgot : ∀ o ∈ (((getPack p.packId).result ((putPack p actor).result c i).1 i).2.map
          Pack.outcome).toList, o.packId = p.packId := by
        intro o ho
        obtain ⟨q, hq, rfl⟩ := Option.map_eq_some_iff.mp (Option.mem_toList.mp ho)
        exact hput.filed _ q (List.mem_of_getElem? hq)
      have hread : Serves c ((getPack p.packId).result ((putPack p actor).result c i).1 i).1 [p]
          (((getPack p.packId).result ((putPack p actor).result c i).1 i).2.map
            Pack.outcome).toList :=
        ⟨hput.stored, fun o ho => ⟨p, List.mem_singleton_self p, hgot o ho⟩, hput.filed⟩
      obtain ⟨held, hheld, hserves⟩ := ih hread.filed _
      exact ⟨_, by rw [hheld]; exact List.append_assoc _ _ _, hread.trans hserves⟩

/-- `packs_push`, as a whole. -/
theorem packsPush_serves (hfiled : Filed c) (packs : List (PackIn Id)) :
    Serves c ((packsPush actor packs).result c i).1 packs
      ((packsPush actor packs).result c i).2.held := by
  unfold packsPush
  rw [result_bind]
  obtain ⟨held, hheld, hserves⟩ := @packsPushLoop_serves _ _ c i actor i.now hfiled packs
    { submitted := packs.length }
  rw [List.nil_append] at hheld
  exact hheld ▸ hserves

/-- How the chunks end: `c'` is the cloud that they leave, `acked` the packs that were acknowledged,
the first of `packs`, and `pushed` how many were before them. -/
structure ChunksEnd (c c' : Cloud Id) (packs acked : List (PackIn Id)) (pushed : ℕ)
    (error : Option LaunchError) (agg : PushAck Id) (result : Except LaunchError (Pushed Id)) :
    Prop where
  filed : Filed c'
  keeps : ∀ id, Stored c id → Stored c' id
  reached : ∀ p ∈ acked, Stored c' p.packId
  only : ∀ id, Stored c' id → Stored c id ∨ ∃ p ∈ packs, p.packId = id
  done : error = none → ∃ ack, result = .ok (.done ack) ∧
    ∀ o ∈ ack.held, o ∈ agg.held ∨ ∃ p ∈ packs, o.packId = p.packId
  raised : ∀ e, error = some e → pushed + acked.length = 0 ∧ result = .error e ∨
    0 < pushed + acked.length ∧ ∃ held, result = .ok (.interrupted e (pushed + acked.length) held) ∧
      ∀ o ∈ held, o ∈ agg.held ∨ ∃ p ∈ packs, o.packId = p.packId

/-- How the chunks of a push end. -/
theorem pushChunks_end {faults : PushFaults Id} (hfiled : Filed c) (parts : List (List (PackIn Id)))
    (n pushed : ℕ) (agg : PushAck Id) :
    ChunksEnd c (pushChunks actor faults n parts pushed agg c).1 parts.flatten
      (ackedParts faults.fate n parts).flatten pushed (pushError faults.fate n parts) agg
      (pushChunks actor faults n parts pushed agg c).2 := by
  induction parts generalizing n pushed agg c with
  | nil =>
    refine ⟨hfiled, fun _ h => h, by simp [ackedParts], fun _ h => Or.inl h, fun _ => ?_, ?_⟩
    · exact ⟨agg, rfl, fun o ho => Or.inl ho⟩
    · intro e he
      cases he
  | cons part parts ih =>
    unfold pushChunks ackedParts pushError
    cases hfate : faults.fate n with
    | answered =>
      dsimp only
      have hserved := @packsPush_serves _ _ _ faults.cloud actor hfiled part
      have hrest := ih hserved.filed (n + 1) (pushed + part.length)
        (agg.add ((packsPush actor part).result c faults.cloud).2)
      have hheld : ∀ o, (o ∈ (agg.add ((packsPush actor part).result c faults.cloud).2).held ∨
          ∃ p ∈ parts.flatten, o.packId = p.packId) →
            o ∈ agg.held ∨ ∃ p ∈ (part :: parts).flatten, o.packId = p.packId := by
        rintro o (ho | ⟨p, hp, heq⟩)
        · rcases List.mem_append.mp ho with ho | ho
          · exact Or.inl ho
          · obtain ⟨p, hp, heq⟩ := hserved.held o ho
            exact Or.inr ⟨p, List.mem_append_left _ hp, heq⟩
        · exact Or.inr ⟨p, List.mem_append_right _ hp, heq⟩
      refine ⟨hrest.filed, fun id h => ?_, fun p hp => ?_, fun id h => ?_, fun he => ?_,
        fun e he => ?_⟩
      · exact hrest.keeps id ((hserved.stored id).mpr (Or.inl h))
      · rcases List.mem_append.mp hp with hp | hp
        · exact hrest.keeps _ ((hserved.stored _).mpr (Or.inr ⟨p, hp, rfl⟩))
        · exact hrest.reached p hp
      · rcases hrest.only id h with h | ⟨p, hp, heq⟩
        · rcases (hserved.stored id).mp h with h | ⟨p, hp, heq⟩
          · exact Or.inl h
          · exact Or.inr ⟨p, List.mem_append_left _ hp, heq⟩
        · exact Or.inr ⟨p, List.mem_append_right _ hp, heq⟩
      · obtain ⟨ack, hack, hin⟩ := hrest.done he
        exact ⟨ack, hack, fun o ho => hheld o (hin o ho)⟩
      · rw [List.flatten_cons, List.length_append, ← Nat.add_assoc]
        rcases hrest.raised e he with hnone | ⟨hsome, held, hresult, hin⟩
        · exact Or.inl hnone
        · exact Or.inr ⟨hsome, held, hresult, fun o ho => hheld o (hin o ho)⟩
    | raised stored e =>
      dsimp only
      have hserved :=
        @packsPush_serves _ _ _ faults.cloud actor hfiled (part.take stored)
      refine ⟨hserved.filed, fun id h => (hserved.stored id).mpr (Or.inl h), by simp,
        fun id h => ?_, by simp, fun e' he => ?_⟩
      · rcases (hserved.stored id).mp h with h | ⟨p, hp, heq⟩
        · exact Or.inl h
        · exact Or.inr ⟨p, List.mem_append_left _ (List.mem_of_mem_take hp), heq⟩
      · obtain rfl := Option.some.inj he
        simp only [List.flatten_nil, List.length_nil, Nat.add_zero]
        by_cases hpushed : 0 < pushed
        · right
          rw [if_pos hpushed]
          exact ⟨hpushed, agg.held, rfl, fun o ho => Or.inl ho⟩
        · left
          rw [if_neg hpushed]
          exact ⟨Nat.eq_zero_of_not_pos hpushed, rfl⟩

end chunks

end Mailman.Analysis
