import Mailman.Library.Process

/-!
# Programs that may raise

A `Fallible` program ends in a result or in an error, and an error ends everything after it
up to the next handler. `Discipline.SafeOr` is `Safe` for such a program: whatever happens,
its requests keep the guarantee; what `Q` says is promised only where it returns.

A discipline `Grows` along a preorder when everything that can happen follows it. What a
program has learnt and that preorder keeps, it may use at any later point: `SafeOr.bind`
hands each continuation the fact that the state has only grown.
-/

set_option autoImplicit false

namespace Mailman.Library

/-- A program over a shared state that returns or raises. -/
abbrev Fallible (σ ι ε α : Type) := ExceptT ε (Proc σ ι) α

namespace Fallible

variable {σ ι ε α β : Type}

/-- One atomic request that may raise. -/
def act (f : σ → ι → σ × Except ε α) : Fallible σ ι ε α := ExceptT.mk (Proc.act f)

/-- A program that does not raise. -/
def lift (p : Proc σ ι α) : Fallible σ ι ε α :=
  ExceptT.mk (p.bind fun a => .ret (.ok a))

/-- Run a program and hand its result or its error on as a value. -/
def attempt (p : Fallible σ ι ε α) : Fallible σ ι ε (Except ε α) := lift p.run

/-- Raise unless the condition holds. -/
def require (c : Prop) [Decidable c] (e : ε) : Fallible σ ι ε Unit :=
  if c then pure () else throw e

/-- Run a program if the condition holds. -/
def onlyIf (c : Prop) [Decidable c] (p : Fallible σ ι ε Unit) : Fallible σ ι ε Unit :=
  if c then p else pure ()

/-- A sequence runs on where its first part returns. -/
theorem run_bind (p : Fallible σ ι ε α) (k : α → Fallible σ ι ε β) :
    (p >>= k).run = p.run.bind fun r => match r with
      | .ok a => (k a).run
      | .error e => .ret (.error e) := by
  change Proc.bind _ _ = _
  congr 1

/-- A value returns at once. -/
@[simp] theorem run_pure (a : α) : (pure a : Fallible σ ι ε α).run = .ret (.ok a) := rfl

/-- An exception ends the run. -/
@[simp] theorem run_throw (e : ε) : (throw e : Fallible σ ι ε α).run = .ret (.error e) := rfl

/-- Sequences associate. -/
theorem bind_assoc {γ : Type} (p : Fallible σ ι ε α) (k : α → Fallible σ ι ε β)
    (f : β → Fallible σ ι ε γ) : p >>= k >>= f = p >>= fun a => k a >>= f := by
  apply ExceptT.ext
  rw [run_bind, run_bind, run_bind, Proc.bind_assoc]
  congr 1
  funext r
  cases r with
  | error e => rfl
  | ok a => exact (run_bind _ _).symm

/-- Returning the result changes nothing. -/
theorem bind_pure (p : Fallible σ ι ε α) : p >>= pure = p := by
  apply ExceptT.ext
  rw [run_bind]
  refine Eq.trans ?_ (Proc.bind_ret p.run)
  congr 1
  funext r
  cases r <;> rfl

/-- Every request of the program is a step of `R`, and where it returns, `Q` holds. -/
def Yields (R : σ → ι → σ → Prop) (Q : α → Prop) (p : Fallible σ ι ε α) : Prop :=
  p.run.Yields R fun r => ∀ a, r = .ok a → Q a

section yields

variable {R : σ → ι → σ → Prop} {Q : α → Prop} {P : β → Prop}

/-- A value that is good may be returned. -/
theorem Yields.pure {a : α} (h : Q a) : (pure a : Fallible σ ι ε α).Yields R Q := by
  intro b hb
  rw [Except.ok.injEq] at hb
  exact hb ▸ h

/-- An exception yields whatever is asked. -/
theorem Yields.throw {e : ε} : (throw e : Fallible σ ι ε α).Yields R Q := by
  intro a ha
  cases ha

/-- Sequences yield what their second part does of good first results. -/
theorem Yields.bind {p : Fallible σ ι ε α} {k : α → Fallible σ ι ε β} (h : p.Yields R Q)
    (hk : ∀ a, Q a → (k a).Yields R P) : (p >>= k).Yields R P := by
  unfold Yields
  rw [run_bind]
  refine Proc.Yields.bind h fun r hr => ?_
  cases r with
  | error e => exact fun a ha => by cases ha
  | ok a => exact hk a (hr a rfl)

/-- One request that keeps the relation yields what it answers. -/
theorem Yields.act {f : σ → ι → σ × Except ε α}
    (h : ∀ s i, R s i (f s i).1 ∧ ∀ a, (f s i).2 = .ok a → Q a) : (act f).Yields R Q := h

/-- A program without exceptions yields what it did before. -/
theorem Yields.lift {p : Proc σ ι α} (h : p.Yields R Q) :
    (lift p : Fallible σ ι ε α).Yields R Q := by
  refine Proc.Yields.bind h fun a ha => ?_
  intro b hb
  rw [Except.ok.injEq] at hb
  exact hb ▸ ha

/-- An attempt yields the result or the exception. -/
theorem Yields.attempt {p : Fallible σ ι ε α} (h : p.Yields R Q) :
    p.attempt.Yields R fun r => ∀ a, r = .ok a → Q a := Yields.lift h

/-- What is done only under a condition has it. -/
theorem Yields.onlyIf {c : Prop} [Decidable c] {p : Fallible σ ι ε Unit}
    (h : c → p.Yields R fun _ => True) : (Fallible.onlyIf c p).Yields R fun _ => True := by
  unfold Fallible.onlyIf
  split
  · next hc => exact h hc
  · exact Yields.pure trivial

/-- Past a requirement its condition holds. -/
theorem Yields.require {c : Prop} [Decidable c] {e : ε} :
    (Fallible.require c e : Fallible σ ι ε Unit).Yields R fun _ => c := by
  unfold Fallible.require
  split
  · next h => exact Yields.pure h
  · exact Yields.throw

/-- What is yielded under narrower terms is yielded under wider ones. -/
theorem Yields.mono {R' : σ → ι → σ → Prop} {Q' : α → Prop} {p : Fallible σ ι ε α}
    (h : p.Yields R Q) (hR : ∀ s i t, R s i t → R' s i t) (hQ : ∀ a, Q a → Q' a) :
    p.Yields R' Q' := Proc.Yields.mono h hR fun _ hr a ha => hQ a (hr a ha)

end yields

end Fallible

namespace Discipline

variable {σ ι ε ρ α β : Type} {D : Discipline σ} {n : ℕ} {G : σ → σ → Prop}

/-- The requests keep the guarantee, and where the program returns, `Q` holds. -/
def SafeOr (D : Discipline σ) (n : ℕ) (p : Fallible σ ι ε α) (Q : α → σ → Prop) (s : σ) : Prop :=
  D.Safe n p.run (fun r t => ∀ a, r = .ok a → Q a t) s

/-- Returning is safe where the goal holds. -/
theorem SafeOr.pure {a : α} {Q : α → σ → Prop} {s : σ} (h : Q a s) :
    D.SafeOr n (pure a : Fallible σ ι ε α) Q s := by
  intro b hb
  rw [Except.ok.injEq] at hb
  exact hb ▸ h

/-- Raising is safe. -/
theorem SafeOr.throw {e : ε} {Q : α → σ → Prop} {s : σ} :
    D.SafeOr n (throw e : Fallible σ ι ε α) Q s := by
  intro a ha
  cases ha

/-- A program that is safe for a goal is safe for a weaker one. -/
theorem SafeOr.weaken {p : Fallible σ ι ε α} {Q Q' : α → σ → Prop} {s : σ}
    (h : D.SafeOr n p Q s) (hq : ∀ a t, Q a t → Q' a t) : D.SafeOr n p Q' s :=
  Safe.weaken h fun _ t hr a ha => hq a t (hr a ha)

/-- The sequencing rule: the continuation may use that the state has grown. -/
theorem SafeOr.bind (hG : D.Grows G) {p : Fallible σ ι ε α} {k : α → Fallible σ ι ε β}
    {Q : α → σ → Prop} {R : β → σ → Prop} {s : σ} (h : D.SafeOr n p Q s)
    (hk : ∀ a t, G s t → Q a t → D.SafeOr n (k a) R t) : D.SafeOr n (p >>= k) R s := by
  unfold SafeOr
  rw [Fallible.run_bind]
  refine Safe.bind ((Safe.remember hG (hG.refl s) h).weaken ?_)
  rintro r t ⟨hgrown, hq⟩
  cases r with
  | error e => exact fun a ha => by cases ha
  | ok a => exact hk a t hgrown (hq a rfl)

/-- The rule for one request. -/
theorem SafeOr.act {f : σ → ι → σ × Except ε α} {Q : α → σ → Prop} {s : σ}
    (h : ∀ t, D.rely n s t → D.inv t → ∀ i,
      D.guar n t (f t i).1 ∧ ∀ a, (f t i).2 = .ok a → Q a (f t i).1) :
    D.SafeOr n (Fallible.act f) Q s := h

/-- The rule for a program that does not raise. -/
theorem SafeOr.lift {p : Proc σ ι α} {Q : α → σ → Prop} {s : σ} (h : D.Safe n p Q s) :
    D.SafeOr n (Fallible.lift p : Fallible σ ι ε α) Q s := by
  refine Safe.bind (h.weaken fun a t ha => ?_)
  intro b hb
  rw [Except.ok.injEq] at hb
  exact hb ▸ ha

/-- The rule for a handler: what it sees is the result or some error. -/
theorem SafeOr.attempt {p : Fallible σ ι ε α} {Q : α → σ → Prop} {s : σ} (h : D.SafeOr n p Q s) :
    D.SafeOr n p.attempt (fun r t => ∀ a, r = .ok a → Q a t) s :=
  SafeOr.lift h

/-- What is done only under a condition need be safe only there. -/
theorem SafeOr.onlyIf {c : Prop} [Decidable c] {p : Fallible σ ι ε Unit} {s : σ}
    (h : c → D.SafeOr n p (fun _ _ => True) s) :
    D.SafeOr n (Fallible.onlyIf c p) (fun _ _ => True) s := by
  unfold Fallible.onlyIf
  split
  · next hc => exact h hc
  · exact SafeOr.pure trivial

/-- Past a requirement its condition holds. -/
theorem SafeOr.require {c : Prop} [Decidable c] {e : ε} {s : σ} :
    D.SafeOr n (Fallible.require c e : Fallible σ ι ε Unit) (fun _ _ => c) s := by
  unfold Fallible.require
  split
  · next h => exact SafeOr.pure h
  · exact SafeOr.throw

end Discipline

end Mailman.Library
