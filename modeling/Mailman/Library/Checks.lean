import Mathlib.Data.List.Forall2

/-!
# Checks in sequence

Steps that return or raise, one after another and over a list: when the whole returns, and what it
raises when it does not.
-/

set_option autoImplicit false

namespace Mailman.Library

variable {ε α β : Type}

/-- Two steps return where both do. -/
theorem bind_eq_ok {x : Except ε α} {f : α → Except ε β} {b : β} :
    (x >>= f) = .ok b ↔ ∃ a, x = .ok a ∧ f a = .ok b := by
  constructor
  · intro h
    cases x with
    | error e => cases h
    | ok a => exact ⟨a, rfl, h⟩
  · rintro ⟨a, rfl, h⟩
    exact h

/-- Two steps raise where the first does, or the second after it. -/
theorem bind_eq_error {x : Except ε α} {f : α → Except ε β} {e : ε} :
    (x >>= f) = .error e ↔ x = .error e ∨ ∃ a, x = .ok a ∧ f a = .error e := by
  cases x with
  | error e' =>
    have hbind : (Except.error e' >>= f) = .error e' := rfl
    rw [hbind]
    simp
  | ok a =>
    have hbind : (Except.ok a >>= f) = f a := rfl
    rw [hbind]
    simp

/-- Checks over a list return where each does. -/
theorem mapM_eq_ok {f : α → Except ε β} {l : List α} {bs : List β} :
    l.mapM f = .ok bs ↔ List.Forall₂ (fun a b => f a = .ok b) l bs := by
  induction l generalizing bs with
  | nil =>
    rw [List.mapM_nil, List.forall₂_nil_left_iff]
    exact ⟨fun h => (Except.ok.inj h).symm, fun h => congrArg Except.ok h.symm⟩
  | cons a l ih =>
    rw [List.mapM_cons, bind_eq_ok, List.forall₂_cons_left_iff]
    constructor
    · rintro ⟨b, hb, hrest⟩
      obtain ⟨bs', hbs', hpure⟩ := bind_eq_ok.mp hrest
      exact ⟨b, bs', hb, ih.mp hbs', (Except.ok.inj hpure).symm⟩
    · rintro ⟨b, bs', hb, hrest, rfl⟩
      exact ⟨b, hb, bind_eq_ok.mpr ⟨bs', ih.mpr hrest, rfl⟩⟩

/-- What checks over a list raise, one of them does. -/
theorem error_of_mapM {f : α → Except ε β} {l : List α} {e : ε} (h : l.mapM f = .error e) :
    ∃ a ∈ l, f a = .error e := by
  induction l with
  | nil => cases h
  | cons a l ih =>
    rw [List.mapM_cons] at h
    rcases bind_eq_error.mp h with hfirst | ⟨b, -, hrest⟩
    · exact ⟨a, List.mem_cons_self, hfirst⟩
    · rcases bind_eq_error.mp hrest with hlater | ⟨bs, -, hpure⟩
      · obtain ⟨c, hc, he⟩ := ih hlater
        exact ⟨c, List.mem_cons_of_mem a hc, he⟩
      · cases hpure

/-- What checks over a list return, each of them does. -/
theorem ok_of_mapM {f : α → Except ε β} {l : List α} {bs : List β} (h : l.mapM f = .ok bs) {a : α}
    (ha : a ∈ l) : ∃ b ∈ bs, f a = .ok b := by
  rw [mapM_eq_ok] at h
  induction h with
  | nil => cases ha
  | cons hb _ ih =>
    rcases List.mem_cons.mp ha with rfl | ha
    · exact ⟨_, List.mem_cons_self, hb⟩
    · obtain ⟨b, hin, hb'⟩ := ih ha
      exact ⟨b, List.mem_cons_of_mem _ hin, hb'⟩

/-- Checks over a list return where each of them does. -/
theorem exists_mapM_iff {f : α → Except ε β} {l : List α} :
    (∃ bs, l.mapM f = .ok bs) ↔ ∀ a ∈ l, ∃ b, f a = .ok b := by
  constructor
  · rintro ⟨bs, hbs⟩ a ha
    obtain ⟨b, -, hb⟩ := ok_of_mapM hbs ha
    exact ⟨b, hb⟩
  · intro h
    cases hanswer : l.mapM f with
    | ok bs => exact ⟨bs, rfl⟩
    | error e =>
      obtain ⟨a, ha, he⟩ := error_of_mapM hanswer
      obtain ⟨b, hb⟩ := h a ha
      cases hb.symm.trans he

/-- A map with answers for all of a list answers with all of them. -/
theorem mapM_eq_some {f : α → Option β} {l : List α} {bs : List β} :
    l.mapM f = some bs ↔ List.Forall₂ (fun a b => f a = some b) l bs := by
  induction l generalizing bs with
  | nil =>
    rw [List.mapM_nil, List.forall₂_nil_left_iff]
    exact ⟨fun h => (Option.some.inj h).symm, fun h => congrArg some h.symm⟩
  | cons a l ih =>
    rw [List.mapM_cons, List.forall₂_cons_left_iff]
    constructor
    · intro h
      obtain ⟨b, hb, hrest⟩ := Option.bind_eq_some_iff.mp h
      obtain ⟨bs', hbs', hpure⟩ := Option.bind_eq_some_iff.mp hrest
      exact ⟨b, bs', hb, ih.mp hbs', (Option.some.inj hpure).symm⟩
    · rintro ⟨b, bs', hb, hrest, rfl⟩
      exact Option.bind_eq_some_iff.mpr ⟨b, hb, Option.bind_eq_some_iff.mpr ⟨bs', ih.mpr hrest, rfl⟩⟩

end Mailman.Library
