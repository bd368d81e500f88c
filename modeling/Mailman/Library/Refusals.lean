import Mathlib.Logic.Basic

/-!
# What a program returns, and what it leaves behind when it raises

A `Procedure` reads and writes a state and returns or raises; what it has written before it raises
stays written. `Keeps R s₀ p s` says that wherever `p` raises from `s` on, the state that it leaves
is related to `s₀`: a weakest precondition for the raising outcomes alone. `Returns Q p s` is the
one for what it returns. The rules are equivalences, so that along them a program is turned into
the exact condition.
-/

set_option autoImplicit false

namespace Mailman.Library

/-- A program over a state of its own that returns or raises. -/
abbrev Procedure (σ ε α : Type) := ExceptT ε (StateM σ) α

namespace Procedure

variable {σ ε α β : Type}

/-- What the program comes to from a state, and the state that it leaves. -/
def outcome (p : Procedure σ ε α) (s : σ) : Except ε α × σ := Id.run (StateT.run p.run s)

/-- Read the state, and raise or go on. -/
def check (f : σ → Except ε α) : Procedure σ ε α := ExceptT.mk (f <$> get)

/-- Write the state. -/
def write (f : σ → σ) : Procedure σ ε Unit := ExceptT.mk fun s => pure (.ok (), f s)

/-- A value is the outcome and changes nothing. -/
@[simp] theorem outcome_pure (a : α) (s : σ) : (pure a : Procedure σ ε α).outcome s = (.ok a, s) :=
  rfl

/-- A check answers and changes nothing. -/
@[simp] theorem outcome_check (f : σ → Except ε α) (s : σ) : (check f).outcome s = (f s, s) := rfl

/-- A check that passes leaves it to what follows. -/
theorem outcome_check_ok {f : σ → Except ε α} {k : α → Procedure σ ε β} {s : σ} {a : α}
    (h : f s = .ok a) : (check f >>= k).outcome s = (k a).outcome s := by
  simp [outcome, check, ExceptT.run_bind, h]

/-- A check that refuses ends the procedure. -/
theorem outcome_check_error {f : σ → Except ε α} {k : α → Procedure σ ε β} {s : σ} {e : ε}
    (h : f s = .error e) : (check f >>= k).outcome s = (.error e, s) := by
  simp [outcome, check, ExceptT.run_bind, h]

/-- A write leaves it to what follows. -/
@[simp] theorem outcome_write (f : σ → σ) (k : Unit → Procedure σ ε β) (s : σ) :
    (write f >>= k).outcome s = (k ()).outcome (f s) := rfl

/-- Where the program raises from `s` on, what it leaves is related to `s₀`. -/
def Keeps (R : σ → σ → Prop) (s₀ : σ) (p : Procedure σ ε α) (s : σ) : Prop :=
  ∀ e t, p.outcome s = (.error e, t) → R s₀ t

variable {R : σ → σ → Prop} {s₀ s : σ} {p : Procedure σ ε α} {k : α → Procedure σ ε β}
  {f : σ → Except ε α}

/-- Returning keeps any relation. -/
theorem keeps_pure (a : α) : Keeps R s₀ (pure a : Procedure σ ε α) s := by
  intro e t h
  rw [outcome_pure] at h
  cases h

/-- The rule for a check: it may raise only while the state is as it should be. -/
theorem keeps_check : Keeps R s₀ (check f >>= k) s ↔
    (∀ e, f s = .error e → R s₀ s) ∧ ∀ a, f s = .ok a → Keeps R s₀ (k a) s := by
  unfold Keeps
  cases h : f s with
  | ok a =>
    rw [outcome_check_ok h]
    simp
  | error e =>
    rw [outcome_check_error h]
    constructor
    · intro hkeeps
      exact ⟨fun _ _ => hkeeps e s rfl, by simp⟩
    · rintro ⟨hraises, -⟩ e' t heq
      cases heq
      exact hraises e rfl

/-- A check that raises while nothing is written does no harm. -/
theorem keeps_check_of_rel (hR : R s₀ s) : Keeps R s₀ (check f >>= k) s ↔
    ∀ a, f s = .ok a → Keeps R s₀ (k a) s := by
  rw [keeps_check]
  exact and_iff_right fun _ _ => hR

/-- A write at the front leaves it to what follows. -/
theorem keeps_write {g : σ → σ} {k : Unit → Procedure σ ε β} :
    Keeps R s₀ (write g >>= k) s ↔ Keeps R s₀ (k ()) (g s) := by
  unfold Keeps
  rw [outcome_write]

/-- Where the program returns from `s` on, what it returns meets `Q`. -/
def Returns (Q : α → Prop) (p : Procedure σ ε α) (s : σ) : Prop :=
  ∀ a t, p.outcome s = (.ok a, t) → Q a

variable {Q : β → Prop}

/-- A value that is returned. -/
theorem returns_pure {b : β} : Returns Q (pure b : Procedure σ ε β) s ↔ Q b := by
  unfold Returns
  rw [outcome_pure]
  constructor
  · intro h
    exact h b s rfl
  · intro h a t heq
    cases heq
    exact h

/-- The rule for a check that may be passed. -/
theorem returns_check : Returns Q (check f >>= k) s ↔ ∀ a, f s = .ok a → Returns Q (k a) s := by
  unfold Returns
  cases h : f s with
  | ok a =>
    rw [outcome_check_ok h]
    simp
  | error e =>
    rw [outcome_check_error h]
    simp

/-- The rule for a write. -/
theorem returns_write {g : σ → σ} {k : Unit → Procedure σ ε β} :
    Returns Q (write g >>= k) s ↔ Returns Q (k ()) (g s) := by
  unfold Returns
  rw [outcome_write]

end Procedure

end Mailman.Library
