import Mathlib.Logic.Function.Basic
import Mathlib.Data.List.Basic

/-!
# Processes over a shared store, and rely/guarantee reasoning about a pool of them

A `Proc σ ι ρ` is a sequential program whose only way to touch the shared state `σ`
is one atomic request at a time. What a request cannot know in advance (a clock, an
answer from outside, how stale a read is) is the input `ι` it is stepped with. A pool
runs any number of such programs; a run is a list of events, each of which starts a
program, lets one program make one request, or stops one for good at the point it has
reached. A run is total: an event that does not apply leaves the pool as it is.

The reasoning rule is rely/guarantee: a program is `Safe` when each of its requests
stays inside the program's guarantee, whatever the other programs did in between
inside its rely. `Discipline.run_sound` is the rule for invariants of a whole run and
`Discipline.run_stable` the one for what two states of a run have to do with each other.
-/

set_option autoImplicit false

namespace Mailman.Library

/-- A sequential program over a shared state: finished, or about to make one atomic
request that updates the state and decides how the program goes on. -/
inductive Proc (σ ι ρ : Type) : Type where
  | ret (r : ρ)
  | atom (upd : σ → ι → σ) (next : σ → ι → Proc σ ι ρ)

namespace Proc

variable {σ ι ρ α β : Type}

/-- Run `p`, then the program its result selects. -/
def bind : Proc σ ι α → (α → Proc σ ι β) → Proc σ ι β
  | .ret a, k => k a
  | .atom upd next, k => .atom upd fun s i => (next s i).bind k

instance : Monad (Proc σ ι) where
  pure := .ret
  bind := bind

/-- One atomic request with an answer. -/
def act (f : σ → ι → σ × α) : Proc σ ι α :=
  .atom (fun s i => (f s i).1) fun s i => .ret (f s i).2

/-- One atomic request that only reads. -/
def get (f : σ → ι → α) : Proc σ ι α :=
  act fun s i => (s, f s i)

/-- One atomic request that only writes. -/
def modify (f : σ → ι → σ) : Proc σ ι Unit :=
  act fun s i => (f s i, ())

/-- The same program run inside a larger state: `read` is the part it sees, `input` what it is
stepped with there, and `write` puts the part back. -/
def zoom {τ κ : Type} (read : τ → σ) (input : τ → κ → ι) (write : τ → κ → σ → τ) :
    Proc σ ι ρ → Proc τ κ ρ
  | .ret r => .ret r
  | .atom upd next => .atom (fun t i => write t i (upd (read t) (input t i)))
      fun t i => (next (read t) (input t i)).zoom read input write

/-- The state and the result after all requests of a program, each stepped with one input. -/
def result : Proc σ ι ρ → σ → ι → σ × ρ
  | .ret r, s, _ => (s, r)
  | .atom upd next, s, i => (next s i).result (upd s i) i

/-- The program's next requests, one for each input, with nothing in between: the state they
leave and what is still to do. -/
def alone : Proc σ ι ρ → σ → List ι → σ × Proc σ ι ρ
  | .ret r, s, _ => (s, .ret r)
  | .atom upd next, s, [] => (s, .atom upd next)
  | .atom upd next, s, i :: is => (next s i).alone (upd s i) is

/-- Each of these requests meets the condition `C` on the states before and after it. -/
def AloneSteps (C : σ → σ → Prop) : Proc σ ι ρ → σ → List ι → Prop
  | .ret _, _, _ => True
  | .atom _ _, _, [] => True
  | .atom upd next, s, i :: is => C s (upd s i) ∧ (next s i).AloneSteps C (upd s i) is

/-- Every request of the program, in whatever state it is made, is a step of `R`, and whatever it
ends in meets `Q`. -/
def Yields (R : σ → ι → σ → Prop) (Q : ρ → Prop) : Proc σ ι ρ → Prop
  | .ret r => Q r
  | .atom upd next => ∀ s i, R s i (upd s i) ∧ (next s i).Yields R Q

/-- The state after the next request. -/
def after : Proc σ ι ρ → σ → ι → σ
  | .ret _, s, _ => s
  | .atom upd _, s, i => upd s i

/-- What may be left of a program after some of its requests, in whatever states they were made. -/
inductive Rest : Proc σ ι ρ → Proc σ ι ρ → Prop where
  | refl (p) : Rest p p
  | step {p upd next} (h : Rest p (.atom upd next)) (s i) : Rest p (next s i)

/-- Every request of the program, in whatever state it is made, meets `R`, which is told what of
the program was left when it made it. -/
def EveryAs (R : Proc σ ι ρ → σ → ι → Prop) : Proc σ ι ρ → Prop
  | .ret _ => True
  | .atom upd next => ∀ s i, R (.atom upd next) s i ∧ (next s i).EveryAs R

/-- Every request of the program, in whatever state it is made, is a step of `R`. -/
abbrev Every (R : σ → ι → σ → Prop) (p : Proc σ ι ρ) : Prop := p.Yields R fun _ => True

/-- To return is to have returned. -/
@[simp] theorem pure_eq (a : α) : (pure a : Proc σ ι α) = .ret a := rfl

/-- A sequence in the notation of monads. -/
@[simp] theorem bind_eq (p : Proc σ ι α) (k : α → Proc σ ι β) : (p >>= k) = p.bind k := rfl

/-- Sequences associate. -/
theorem bind_assoc {γ : Type} (p : Proc σ ι α) (k : α → Proc σ ι β) (f : β → Proc σ ι γ) :
    (p.bind k).bind f = p.bind fun a => (k a).bind f := by
  induction p with
  | ret a => rfl
  | atom upd next ih =>
    simp only [bind]
    congr 1
    funext s i
    exact ih s i

/-- Returning the result changes nothing. -/
theorem bind_ret (p : Proc σ ι α) : p.bind .ret = p := by
  induction p with
  | ret a => rfl
  | atom upd next ih =>
    simp only [bind]
    congr 1
    funext s i
    exact ih s i

/-- A value goes straight into what follows. -/
@[simp] theorem ret_bind (a : α) (k : α → Proc σ ι β) : (ret a : Proc σ ι α).bind k = k a := rfl

/-- Programs on a part are sequenced as on the whole. -/
theorem zoom_bind {τ κ : Type} (read : τ → σ) (input : τ → κ → ι) (write : τ → κ → σ → τ)
    (p : Proc σ ι α) (k : α → Proc σ ι β) : (p.bind k).zoom read input write =
      (p.zoom read input write).bind fun a => (k a).zoom read input write := by
  induction p with
  | ret a => rfl
  | atom upd next ih =>
    simp only [bind, zoom]
    congr 1
    funext t i
    exact ih _ _

/-- Sequences yield what their second part does of good first results. -/
theorem Yields.bind {R : σ → ι → σ → Prop} {P : α → Prop} {Q : β → Prop} {p : Proc σ ι α}
    {k : α → Proc σ ι β} (h : p.Yields R P) (hk : ∀ a, P a → (k a).Yields R Q) :
    (p.bind k).Yields R Q := by
  induction p with
  | ret a => exact hk a h
  | atom upd next ih =>
    intro s i
    obtain ⟨hstep, hnext⟩ := h s i
    exact ⟨hstep, ih s i hnext⟩

/-- What is yielded under narrower terms is yielded under wider ones. -/
theorem Yields.mono {R R' : σ → ι → σ → Prop} {Q Q' : ρ → Prop} {p : Proc σ ι ρ}
    (h : p.Yields R Q) (hR : ∀ s i t, R s i t → R' s i t) (hQ : ∀ r, Q r → Q' r) :
    p.Yields R' Q' := by
  induction p with
  | ret r => exact hQ r h
  | atom upd next ih =>
    intro s i
    obtain ⟨hstep, hnext⟩ := h s i
    exact ⟨hR _ _ _ hstep, ih s i hnext⟩

/-- Sequences keep what both parts keep. -/
theorem Every.bind {R : σ → ι → σ → Prop} {p : Proc σ ι α} {k : α → Proc σ ι β}
    (h : p.Every R) (hk : ∀ a, (k a).Every R) : (p.bind k).Every R :=
  Yields.bind h fun a _ => hk a

/-- One request keeps what it keeps. -/
theorem Every.act {R : σ → ι → σ → Prop} {f : σ → ι → σ × α} (h : ∀ s i, R s i (f s i).1) :
    (act f).Every R := fun s i => ⟨h s i, trivial⟩

/-- A read keeps what doing nothing keeps. -/
theorem Every.get {R : σ → ι → σ → Prop} {f : σ → ι → α} (h : ∀ s i, R s i s) :
    (get f).Every R := Every.act h

/-- Every program does something. -/
theorem every_true (p : Proc σ ι ρ) : p.Every fun _ _ _ => True := by
  induction p with
  | ret r => trivial
  | atom upd next ih => exact fun s i => ⟨trivial, ih s i⟩

/-- A program that came to its end made its first request. -/
theorem alone_act_bind {f : σ → ι → σ × α} {k : α → Proc σ ι ρ} {s s' : σ} {is : List ι} {r : ρ}
    (h : ((act f).bind k).alone s is = (s', .ret r)) :
    ∃ i js, (k (f s i).2).alone (f s i).1 js = (s', .ret r) := by
  cases is with
  | nil => exact absurd (congrArg Prod.snd h) nofun
  | cons i is => exact ⟨i, is, h⟩

/-- A program that has returned leaves the state. -/
theorem alone_ret {s s' : σ} {is : List ι} {a r : ρ}
    (h : (ret a : Proc σ ι ρ).alone s is = (s', .ret r)) : s' = s := by
  cases is <;> exact (congrArg Prod.fst h).symm

/-- What is left of the rest is left of the program. -/
theorem Rest.trans {p q r : Proc σ ι ρ} (h : p.Rest q) (h' : q.Rest r) : p.Rest r := by
  induction h' with
  | refl => exact h
  | step _ s i ih => exact ih.step s i

/-- What a program has still to do after some requests of its own is left of it. -/
theorem rest_alone (p : Proc σ ι ρ) (s : σ) (is : List ι) : p.Rest (p.alone s is).2 := by
  induction is generalizing p s with
  | nil => cases p <;> exact .refl _
  | cons i is ih =>
    cases p with
    | ret r => exact .refl _
    | atom upd next => exact ((Rest.refl _).step s i).trans (ih _ _)

/-- What every request does, each of the rest does. -/
theorem Every.rest {R : σ → ι → σ → Prop} {p q : Proc σ ι ρ} (h : p.Every R) (hq : p.Rest q) :
    q.Every R := by
  induction hq with
  | refl => exact h
  | step _ s i ih => exact (ih s i).2

/-- What the program keeps, the rest of it keeps. -/
theorem EveryAs.rest {R : Proc σ ι ρ → σ → ι → Prop} {p q : Proc σ ι ρ} (h : p.EveryAs R)
    (hq : p.Rest q) : q.EveryAs R := by
  induction hq with
  | refl => exact h
  | step _ s i ih => exact (ih s i).2

/-- A first part whose requests are all steps of `R'`, and the rest. -/
theorem EveryAs.bind {R : Proc σ ι β → σ → ι → Prop} {R' : σ → σ → Prop} {P : α → Prop}
    {p : Proc σ ι α} {k : α → Proc σ ι β} (h : p.Yields (fun s _ t => R' s t) P)
    (hR : ∀ q s i, R' s (after q s i) → R q s i) (hk : ∀ a, P a → (k a).EveryAs R) :
    (p.bind k).EveryAs R := by
  induction p with
  | ret a => exact hk a h
  | atom upd next ih =>
    intro s i
    obtain ⟨hstep, hnext⟩ := h s i
    exact ⟨hR _ s i hstep, ih s i hnext⟩

/-- What every request keeps, it keeps whatever is left. -/
theorem EveryAs.of_every {R : Proc σ ι ρ → σ → ι → Prop} {R' : σ → σ → Prop} {p : Proc σ ι ρ}
    (h : p.Every fun s _ t => R' s t) (hR : ∀ q s i, R' s (after q s i) → R q s i) :
    p.EveryAs R := by
  induction p with
  | ret a => trivial
  | atom upd next ih =>
    intro s i
    obtain ⟨hstep, hnext⟩ := h s i
    exact ⟨hR _ s i hstep, ih s i hnext⟩

/-- A program on a part keeps what follows on the whole. -/
theorem Every.zoom {τ κ : Type} {R : σ → ι → σ → Prop} {R' : τ → κ → τ → Prop}
    {read : τ → σ} {input : τ → κ → ι} {write : τ → κ → σ → τ} {p : Proc σ ι ρ}
    (h : p.Every R) (hR : ∀ t i s, R (read t) (input t i) s → R' t i (write t i s)) :
    (p.zoom read input write).Every R' := by
  induction p with
  | ret r => trivial
  | atom upd next ih =>
    intro t i
    obtain ⟨hstep, hnext⟩ := h (read t) (input t i)
    exact ⟨hR t i _ hstep, ih _ _ hnext⟩

/-- What every request does, each request of a run alone does. -/
theorem Every.aloneSteps {R : σ → ι → σ → Prop} {C : σ → σ → Prop} {p : Proc σ ι ρ}
    (h : p.Every R) (s : σ) {is : List ι} (hR : ∀ i ∈ is, ∀ s t, R s i t → C s t) :
    p.AloneSteps C s is := by
  induction is generalizing p s with
  | nil => cases p <;> trivial
  | cons i is ih =>
    cases p with
    | ret r => trivial
    | atom upd next =>
      obtain ⟨hstep, hnext⟩ := h s i
      exact ⟨hR i (List.mem_cons_self ..) _ _ hstep,
        ih hnext _ fun j hj => hR j (List.mem_cons_of_mem _ hj)⟩

end Proc

/-- A pool: the shared state and what each numbered program has still to do. -/
structure Pool (σ ι : Type) where
  state : σ
  running : ℕ → Proc σ ι Unit

/-- What may happen to a pool. `start` on a number in use is ignored. -/
inductive Event (κ ι : Type) where
  | start (n : ℕ) (op : κ)
  | step (n : ℕ) (i : ι)
  | stop (n : ℕ)

namespace Pool

variable {σ ι κ : Type}

/-- A pool in which nothing runs yet. -/
def idle (s : σ) : Pool σ ι := ⟨s, fun _ => .ret ()⟩

/-- One event; `code n op` is the program that operation `op` runs under number `n`. -/
def exec (code : ℕ → κ → Proc σ ι Unit) (p : Pool σ ι) : Event κ ι → Pool σ ι
  | .start n op =>
    match p.running n with
    | .ret _ => { p with running := Function.update p.running n (code n op) }
    | .atom _ _ => p
  | .step n i =>
    match p.running n with
    | .ret _ => p
    | .atom upd next =>
      { state := upd p.state i, running := Function.update p.running n (next p.state i) }
  | .stop n => { p with running := Function.update p.running n (.ret ()) }

/-- A whole run. -/
def run (code : ℕ → κ → Proc σ ι Unit) (p : Pool σ ι) (es : List (Event κ ι)) : Pool σ ι :=
  es.foldl (exec code) p

/-- Every step of the run meets the condition `C` on the states before and after it. -/
def Steps (code : ℕ → κ → Proc σ ι Unit) (C : σ → σ → Prop) (p : Pool σ ι) :
    List (Event κ ι) → Prop
  | [] => True
  | e :: es => C p.state (p.exec code e).state ∧ (p.exec code e).Steps code C es

instance decidableSteps (code : ℕ → κ → Proc σ ι Unit) (C : σ → σ → Prop)
    [∀ s t, Decidable (C s t)] : ∀ (p : Pool σ ι) (es : List (Event κ ι)),
      Decidable (p.Steps code C es)
  | _, [] => .isTrue trivial
  | p, e :: es =>
    have := decidableSteps code C (p.exec code e) es
    inferInstanceAs (Decidable (_ ∧ _))

/-- No event leaves the pool as it is. -/
@[simp] theorem run_nil (code : ℕ → κ → Proc σ ι Unit) (p : Pool σ ι) : p.run code [] = p := rfl

/-- A run is its first event and then the others. -/
theorem run_cons (code : ℕ → κ → Proc σ ι Unit) (p : Pool σ ι) (e : Event κ ι)
    (es : List (Event κ ι)) : p.run code (e :: es) = (p.exec code e).run code es := rfl

/-- Two runs one after the other. -/
theorem run_append (code : ℕ → κ → Proc σ ι Unit) (p : Pool σ ι) (es fs : List (Event κ ι)) :
    p.run code (es ++ fs) = (p.run code es).run code fs := by
  simp [run]

/-- A condition that every step meets is met by every run. -/
theorem steps_of_forall (code : ℕ → κ → Proc σ ι Unit) {C : σ → σ → Prop}
    (h : ∀ s t, C s t) (p : Pool σ ι) (es : List (Event κ ι)) : p.Steps code C es := by
  induction es generalizing p with
  | nil => trivial
  | cons e es ih => exact ⟨h _ _, ih _⟩

/-- A weaker condition is met as well. -/
theorem Steps.mono {code : ℕ → κ → Proc σ ι Unit} {C C' : σ → σ → Prop}
    (hC : ∀ s t, C s t → C' s t) {p : Pool σ ι} {es : List (Event κ ι)} (h : p.Steps code C es) :
    p.Steps code C' es := by
  induction es generalizing p with
  | nil => trivial
  | cons e es ih => exact ⟨hC _ _ h.1, ih h.2⟩

/-- A preorder that contains every step relates the ends of a run. -/
theorem Steps.related {code : ℕ → κ → Proc σ ι Unit} {T : σ → σ → Prop} (refl : ∀ s, T s s)
    (trans : ∀ s t u, T s t → T t u → T s u) {p : Pool σ ι} {es : List (Event κ ι)}
    (h : p.Steps code T es) : T p.state (p.run code es).state := by
  induction es generalizing p with
  | nil => exact refl _
  | cons e es ih => exact trans _ _ _ h.1 (ih h.2)

/-- An event keeps what all programs keep. -/
theorem every_exec {code : ℕ → κ → Proc σ ι Unit} {R : σ → ι → σ → Prop}
    (hcode : ∀ n op, (code n op).Every R) {p : Pool σ ι} (hp : ∀ n, (p.running n).Every R)
    (e : Event κ ι) : ∀ n, ((p.exec code e).running n).Every R := by
  intro m
  cases e with
  | start n op =>
    simp only [exec]
    split
    · by_cases hm : m = n
      · subst hm; simpa using hcode m op
      · simpa [Function.update_of_ne hm] using hp m
    · exact hp m
  | stop n =>
    by_cases hm : m = n
    · subst hm; simp [exec, Proc.Yields]
    · simpa [exec, Function.update_of_ne hm] using hp m
  | step n i =>
    have hn := hp n
    simp only [exec]
    split
    · exact hp m
    · next upd next heq =>
      rw [heq] at hn
      obtain ⟨-, hnext⟩ := hn p.state i
      by_cases hm : m = n
      · subst hm; simpa using hnext
      · simpa [Function.update_of_ne hm] using hp m

/-- When every request of every program is a step of `R`, the steps of any run are. -/
theorem steps_of_every {code : ℕ → κ → Proc σ ι Unit} {R : σ → ι → σ → Prop}
    {C : σ → σ → Prop} (hcode : ∀ n op, (code n op).Every R) (hrefl : ∀ s, C s s)
    (hR : ∀ s i t, R s i t → C s t) {p : Pool σ ι} (hp : ∀ n, (p.running n).Every R)
    (es : List (Event κ ι)) : p.Steps code C es := by
  induction es generalizing p with
  | nil => trivial
  | cons e es ih =>
    refine ⟨?_, ih (every_exec hcode hp e)⟩
    cases e with
    | start n op => simp only [exec]; split <;> exact hrefl _
    | stop n => exact hrefl _
    | step n i =>
      have hn := hp n
      simp only [exec]
      split
      · exact hrefl _
      · next upd next heq =>
        rw [heq] at hn
        exact hR _ _ _ (hn p.state i).1

/-- What every request does, every request of a run has still to do. -/
theorem every_run {code : ℕ → κ → Proc σ ι Unit} {R : σ → ι → σ → Prop}
    (hcode : ∀ n op, (code n op).Every R) {p : Pool σ ι} (hp : ∀ n, (p.running n).Every R)
    (es : List (Event κ ι)) : ∀ n, ((p.run code es).running n).Every R := by
  induction es generalizing p with
  | nil => exact hp
  | cons e es ih => exact ih (every_exec hcode hp e)

/-- The steps of two runs are those of the first, then those of the second. -/
theorem steps_append (code : ℕ → κ → Proc σ ι Unit) (C : σ → σ → Prop) (p : Pool σ ι)
    (es fs : List (Event κ ι)) :
    p.Steps code C (es ++ fs) ↔ p.Steps code C es ∧ (p.run code es).Steps code C fs := by
  induction es generalizing p with
  | nil => simp [Steps]
  | cons e es ih => simp [Steps, run_cons, ih, and_assoc]

/-- Every request that is made in the run meets `C`, which is told what of the program was left
when it made it. -/
def Made (code : ℕ → κ → Proc σ ι Unit) (C : Proc σ ι Unit → σ → ι → Prop) (p : Pool σ ι)
    (es : List (Event κ ι)) : Prop :=
  ∀ fs n i, fs ++ [.step n i] <+: es →
    C ((p.run code fs).running n) (p.run code fs).state i

/-- Whatever is still running is what is left of an operation. -/
def Underway (code : ℕ → κ → Proc σ ι Unit) (p : Pool σ ι) : Prop :=
  ∀ n, p.running n = .ret () ∨ ∃ m op, (code m op).Rest (p.running n)

/-- A step is the next request of its program. -/
theorem exec_step_state (code : ℕ → κ → Proc σ ι Unit) (p : Pool σ ι) (n : ℕ) (i : ι) :
    (p.exec code (.step n i)).state = (p.running n).after p.state i := by
  simp only [exec]
  split <;> next h => rw [h]; rfl

/-- An event leaves each program as it was, ends it, or takes it further. -/
theorem exec_underway (code : ℕ → κ → Proc σ ι Unit) {p : Pool σ ι} (h : p.Underway code)
    (e : Event κ ι) : (p.exec code e).Underway code := by
  intro m
  cases e with
  | start n op =>
    simp only [exec]
    split
    · rcases eq_or_ne m n with rfl | hm
      · right
        exact ⟨m, op, by simpa using Proc.Rest.refl (code m op)⟩
      · simpa [Function.update_of_ne hm] using h m
    · exact h m
  | stop n =>
    rcases eq_or_ne m n with rfl | hm
    · left
      simp [exec]
    · simpa [exec, Function.update_of_ne hm] using h m
  | step n i =>
    simp only [exec]
    split
    · exact h m
    · next upd next heq =>
      rcases eq_or_ne m n with rfl | hm
      · right
        obtain hret | ⟨k, op, hrest⟩ := h m
        · rw [heq] at hret
          cases hret
        · rw [heq] at hrest
          exact ⟨k, op, by simpa using hrest.step p.state i⟩
      · simpa [Function.update_of_ne hm] using h m

/-- Runs keep what is under way so. -/
theorem run_underway (code : ℕ → κ → Proc σ ι Unit) {p : Pool σ ι} (h : p.Underway code)
    (es : List (Event κ ι)) : (p.run code es).Underway code := by
  induction es generalizing p with
  | nil => exact h
  | cons e es ih => exact ih (exec_underway code h e)

/-- In an idle pool nothing is under way. -/
theorem underway_idle (code : ℕ → κ → Proc σ ι Unit) (s : σ) :
    (idle s : Pool σ ι).Underway code := fun _ => .inl rfl

/-- Requests of a run that all meet `C` are, where the programs meet `R`, steps of `S`. -/
theorem Made.steps {code : ℕ → κ → Proc σ ι Unit} {R C : Proc σ ι Unit → σ → ι → Prop}
    {S : σ → σ → Prop} (hcode : ∀ n op, (code n op).EveryAs R) (hrefl : ∀ s, S s s)
    (hS : ∀ q s i, R q s i → C q s i → S s (q.after s i)) {p : Pool σ ι}
    (hp : p.Underway code) {es : List (Event κ ι)} (h : p.Made code C es) : p.Steps code S es := by
  induction es generalizing p with
  | nil => trivial
  | cons e es ih =>
    refine ⟨?_, ih (exec_underway code hp e) fun fs n i hfs => ?_⟩
    · cases e with
      | start n op =>
        simp only [exec]
        split <;> exact hrefl _
      | stop n => exact hrefl _
      | step n i =>
        rw [exec_step_state]
        have hmade : C (p.running n) p.state i := h [] n i (by simp)
        obtain hret | ⟨m, op, hrest⟩ := hp n
        · rw [hret]
          exact hrefl _
        · have hevery := (hcode m op).rest hrest
          generalize p.running n = q at hmade hevery ⊢
          cases q with
          | ret r => exact hrefl _
          | atom upd next => exact hS _ _ i (hevery p.state i).1 hmade
    · exact h (e :: fs) n i (List.cons_prefix_cons.mpr ⟨rfl, hfs⟩)

/-- Number `n` runs `q` next, whatever it did before. -/
def loaded (p : Pool σ ι) (n : ℕ) (q : Proc σ ι Unit) : Pool σ ι :=
  { p with running := Function.update p.running n q }

/-- A step of a loaded program makes its request. -/
theorem exec_loaded (code : ℕ → κ → Proc σ ι Unit) (p : Pool σ ι) (n : ℕ)
    (upd : σ → ι → σ) (next : σ → ι → Proc σ ι Unit) (i : ι) :
    (p.loaded n (.atom upd next)).exec code (.step n i) =
      loaded ⟨upd p.state i, p.running⟩ n (next p.state i) := by
  simp [exec, loaded]

/-- A loaded program that has returned makes no step. -/
theorem exec_loaded_ret (code : ℕ → κ → Proc σ ι Unit) (p : Pool σ ι) (n : ℕ) (i : ι) :
    (p.loaded n (.ret ())).exec code (.step n i) = p.loaded n (.ret ()) := by
  simp [exec, loaded]

/-- A stop and a start load the program of an operation. -/
theorem run_restart (code : ℕ → κ → Proc σ ι Unit) (p : Pool σ ι) (n : ℕ) (op : κ)
    (es : List (Event κ ι)) :
    p.run code (.stop n :: .start n op :: es) = (p.loaded n (code n op)).run code es := by
  simp [run, exec, loaded]

/-- Steps of one number only are a run of its program alone. -/
theorem run_loaded (code : ℕ → κ → Proc σ ι Unit) (p : Pool σ ι) (n : ℕ) (q : Proc σ ι Unit)
    (is : List ι) :
    (p.loaded n q).run code (is.map (.step n)) =
      loaded ⟨(q.alone p.state is).1, p.running⟩ n (q.alone p.state is).2 := by
  induction is generalizing p q with
  | nil => cases q <;> rfl
  | cons i is ih =>
    rw [List.map_cons, run_cons]
    cases q with
    | ret r => rw [exec_loaded_ret, ih]; rfl
    | atom upd next => rw [exec_loaded, ih]; rfl

/-- A program alone meets in the pool what it meets by itself. -/
theorem steps_loaded (code : ℕ → κ → Proc σ ι Unit) {C : σ → σ → Prop} (hC : ∀ s, C s s)
    (p : Pool σ ι) (n : ℕ) (q : Proc σ ι Unit) (is : List ι) (h : q.AloneSteps C p.state is) :
    (p.loaded n q).Steps code C (is.map (.step n)) := by
  induction is generalizing p q with
  | nil => trivial
  | cons i is ih =>
    rw [List.map_cons]
    cases q with
    | ret r =>
      refine ⟨?_, ?_⟩
      · rw [exec_loaded_ret]; exact hC _
      · rw [exec_loaded_ret]; exact ih p (.ret r) (by cases is <;> trivial)
    | atom upd next =>
      refine ⟨?_, ?_⟩
      · rw [exec_loaded]; exact h.1
      · rw [exec_loaded]; exact ih _ _ h.2

/-- A restarted program meets in the pool what it meets by itself. -/
theorem steps_restart (code : ℕ → κ → Proc σ ι Unit) {C : σ → σ → Prop} (hC : ∀ s, C s s)
    (p : Pool σ ι) (n : ℕ) (op : κ) (es : List (Event κ ι))
    (h : (p.loaded n (code n op)).Steps code C es) :
    p.Steps code C (.stop n :: .start n op :: es) := by
  refine ⟨hC _, ?_⟩
  simp only [Steps]
  have hstart : (p.exec code (.stop n)).exec code (.start n op) = p.loaded n (code n op) := by
    simp [exec, loaded]
  rw [hstart]
  exact ⟨hC _, h⟩

end Pool

/-- The terms on which the programs of a pool share their state: an invariant, what each
program may rely on while it waits, what each of its own requests guarantees, and a condition
on the steps of the run that no program can guarantee (`True` where there is none). -/
structure Discipline (σ : Type) where
  inv : σ → Prop
  rely : ℕ → σ → σ → Prop
  guar : ℕ → σ → σ → Prop
  cond : σ → σ → Prop := fun _ _ => True
  rely_refl : ∀ n s, rely n s s
  rely_trans : ∀ n s t u, rely n s t → rely n t u → rely n s u
  guar_rely : ∀ m n s t, m ≠ n → inv s → guar m s t → cond s t → rely n s t
  keep : ∀ n s t, inv s → guar n s t → cond s t → inv t

namespace Discipline

variable {σ ι κ ρ α β : Type} (D : Discipline σ)

/-- From `s` on, every request of the program keeps the guarantee of number `n`, and the
program ends in a result and a state related by `Q`. -/
def Safe (n : ℕ) : Proc σ ι ρ → (ρ → σ → Prop) → σ → Prop
  | .ret r, Q, s => Q r s
  | .atom upd next, Q, s => ∀ t, D.rely n s t → D.inv t → ∀ i,
      D.guar n t (upd t i) ∧ Safe n (next t i) Q (upd t i)

variable {D} {n : ℕ}

/-- Returning is safe where the goal holds. -/
theorem Safe.pure {r : ρ} {Q : ρ → σ → Prop} {s : σ} (h : Q r s) :
    D.Safe n (.ret r : Proc σ ι ρ) Q s := h

/-- The sequencing rule. -/
theorem Safe.bind {p : Proc σ ι α} {k : α → Proc σ ι β} {Q : β → σ → Prop} {s : σ}
    (h : D.Safe n p (fun a t => D.Safe n (k a) Q t) s) : D.Safe n (p.bind k) Q s := by
  induction p generalizing s with
  | ret a => exact h
  | atom upd next ih =>
    intro t hr hi i
    obtain ⟨hg, hs⟩ := h t hr hi i
    exact ⟨hg, ih t i hs⟩

/-- The rule of consequence for the result. -/
theorem Safe.weaken {p : Proc σ ι ρ} {Q Q' : ρ → σ → Prop} {s : σ} (h : D.Safe n p Q s)
    (hq : ∀ r t, Q r t → Q' r t) : D.Safe n p Q' s := by
  induction p generalizing s with
  | ret r => exact hq r s h
  | atom upd next ih =>
    intro t hr hi i
    obtain ⟨hg, hs⟩ := h t hr hi i
    exact ⟨hg, ih t i hs⟩

/-- The rule of consequence for the terms: what is safe stays safe when more may be assumed and
less is to be kept. -/
theorem Safe.of_terms {E : Discipline σ} {p : Proc σ ι ρ} {Q : ρ → σ → Prop} {s : σ}
    (h : D.Safe n p Q s) (hinv : ∀ s, E.inv s → D.inv s) (hrely : ∀ s t, E.rely n s t → D.rely n s t)
    (hguar : ∀ s t, E.inv s → D.guar n s t → E.guar n s t) : E.Safe n p Q s := by
  induction p generalizing s with
  | ret r => exact h
  | atom upd next ih =>
    intro t hr hi i
    obtain ⟨hg, hs⟩ := h t (hrely s t hr) (hinv t hi) i
    exact ⟨hguar _ _ hi hg, ih t i hs⟩

/-- A program whose requests are all guaranteed, whatever state they meet, needs nobody. -/
theorem Safe.of_every {R : σ → ι → σ → Prop} {p : Proc σ ι Unit} {s : σ} (h : p.Every R)
    (hR : ∀ s i t, D.inv s → R s i t → D.guar n s t) : D.Safe n p (fun _ _ => True) s := by
  induction p generalizing s with
  | ret r => trivial
  | atom upd next ih =>
    intro t _ hi i
    obtain ⟨hstep, hnext⟩ := h t i
    exact ⟨hR _ _ _ hi hstep, ih t i hnext⟩

/-- The rule for one request followed by the rest of the program. -/
theorem Safe.act {f : σ → ι → σ × α} {k : α → Proc σ ι β} {Q : β → σ → Prop} {s : σ}
    (h : ∀ t, D.rely n s t → D.inv t → ∀ i,
      D.guar n t (f t i).1 ∧ D.Safe n (k (f t i).2) Q (f t i).1) :
    D.Safe n ((Proc.act f).bind k) Q s := h

/-- A waiting program stays safe under what it relies on. -/
theorem Safe.rely {p : Proc σ ι Unit} {s t : σ} (h : D.Safe n p (fun _ _ => True) s)
    (hst : D.rely n s t) : D.Safe n p (fun _ _ => True) t := by
  cases p with
  | ret r => trivial
  | atom upd next => exact fun u hu hi i => h u (D.rely_trans n s t u hst hu) hi i

/-- Everything that can happen under the discipline follows the preorder `G`. -/
structure Grows (D : Discipline σ) (G : σ → σ → Prop) : Prop where
  refl : ∀ s, G s s
  trans : ∀ s t u, G s t → G t u → G s u
  rely : ∀ n s t, D.rely n s t → G s t
  guar : ∀ n s t, D.inv s → D.guar n s t → G s t

/-- A program may remember that the state has grown since it began. -/
theorem Safe.remember {G : σ → σ → Prop} (hG : D.Grows G) {p : Proc σ ι ρ} {Q : ρ → σ → Prop}
    {r s : σ} (hr : G r s) (h : D.Safe n p Q s) : D.Safe n p (fun a t => G r t ∧ Q a t) s := by
  induction p generalizing s with
  | ret a => exact ⟨hr, h⟩
  | atom upd next ih =>
    intro t ht hi i
    obtain ⟨hg, hs⟩ := h t ht hi i
    have hgrown : G s (upd t i) := hG.trans _ _ _ (hG.rely n s t ht) (hG.guar n _ _ hi hg)
    exact ⟨hg, ih t i (hG.trans _ _ _ hr hgrown) hs⟩

/-- The rule for a program that runs on a part of the state. The terms of the part may depend
on the state `r` the program was started in. -/
theorem Safe.zoom {τ κ : Type} {E : Discipline τ} {G : τ → τ → Prop} (hG : E.Grows G)
    {p : Proc σ ι ρ} {Q : ρ → σ → Prop} {r t : τ} {read : τ → σ} {input : τ → κ → ι}
    {write : τ → κ → σ → τ} (hread : ∀ t i s, read (write t i s) = s)
    (hrely : ∀ t u, E.rely n t u → D.rely n (read t) (read u))
    (hinv : ∀ t, E.inv t → D.inv (read t))
    (hguar : ∀ t i s, G r t → E.inv t → D.guar n (read t) s → E.guar n t (write t i s))
    (hr : G r t) (h : D.Safe n p Q (read t)) :
    E.Safe n (p.zoom read input write) (fun a u => Q a (read u)) t := by
  induction p generalizing t with
  | ret a => exact h
  | atom upd next ih =>
    intro u hu hiu i
    obtain ⟨hg, hs⟩ := h (read u) (hrely t u hu) (hinv u hiu) (input u i)
    have hru : G r u := hG.trans _ _ _ hr (hG.rely n t u hu)
    have hstep := hguar u i _ hru hiu hg
    refine ⟨hstep, ih (read u) (input u i) (hG.trans _ _ _ hru (hG.guar n _ _ hiu hstep)) ?_⟩
    rw [hread]
    exact hs

/-- The terms of a part, as the terms of the whole that only look at that part. -/
def along {τ : Type} (read : τ → σ) (D : Discipline σ) : Discipline τ where
  inv t := D.inv (read t)
  rely n t u := D.rely n (read t) (read u)
  guar n t u := D.guar n (read t) (read u)
  cond t u := D.cond (read t) (read u)
  rely_refl n t := D.rely_refl n (read t)
  rely_trans n t u v := D.rely_trans n (read t) (read u) (read v)
  guar_rely m n t u := D.guar_rely m n (read t) (read u)
  keep n t u := D.keep n (read t) (read u)

/-- A program that is safe on the part is safe on the whole. -/
theorem Safe.along {τ κ : Type} {p : Proc σ ι ρ} {Q : ρ → σ → Prop} {t : τ} {read : τ → σ}
    {input : τ → κ → ι} {write : τ → κ → σ → τ} (hread : ∀ t i s, read (write t i s) = s)
    (h : D.Safe n p Q (read t)) :
    (D.along read).Safe n (p.zoom read input write) (fun a u => Q a (read u)) t := by
  induction p generalizing t with
  | ret a => exact h
  | atom upd next ih =>
    intro u hu hi i
    obtain ⟨hg, hs⟩ := h (read u) hu hi (input u i)
    refine ⟨?_, ih _ _ ?_⟩
    · change D.guar n (read u) (read (write u i _))
      rw [hread]
      exact hg
    · rw [hread]
      exact hs

/-- A safe program that runs alone keeps the invariant. -/
theorem Safe.alone_inv {p : Proc σ ι ρ} {Q : ρ → σ → Prop} {s : σ} (h : D.Safe n p Q s)
    (hs : D.inv s) (keep : ∀ s t, D.inv s → D.guar n s t → D.inv t) (is : List ι) :
    D.inv (p.alone s is).1 := by
  induction is generalizing p s with
  | nil => cases p <;> exact hs
  | cons i is ih =>
    cases p with
    | ret r => exact hs
    | atom upd next =>
      obtain ⟨hg, hnext⟩ := h s (D.rely_refl n s) hs i
      exact ih hnext (keep _ _ hs hg)

/-- A pool is sound when its state meets the invariant and each of its programs is safe. -/
def Sound (D : Discipline σ) (p : Pool σ ι) : Prop :=
  D.inv p.state ∧ ∀ n, D.Safe n (p.running n) (fun _ _ => True) p.state

/-- A pool in which nothing runs is sound as soon as its state meets the invariant. -/
theorem sound_idle {s : σ} (h : D.inv s) : D.Sound (Pool.idle s : Pool σ ι) :=
  ⟨h, fun _ => trivial⟩

/-- A step of number `n` leaves the state alone or is one request inside its guarantee. -/
theorem step_guar (code : ℕ → κ → Proc σ ι Unit) {p : Pool σ ι} (h : D.Sound p) (n : ℕ) (i : ι) :
    (p.exec code (.step n i)).state = p.state ∨
      D.guar n p.state (p.exec code (.step n i)).state := by
  have hn := h.2 n
  simp only [Pool.exec]
  split
  · exact .inl rfl
  · next upd next heq =>
    rw [heq] at hn
    exact .inr (hn p.state (D.rely_refl n _) h.1 i).1

/-- One event leaves the state alone or is one request inside some program's guarantee. -/
theorem exec_guar (code : ℕ → κ → Proc σ ι Unit) {p : Pool σ ι} (h : D.Sound p)
    (e : Event κ ι) :
    (p.exec code e).state = p.state ∨ ∃ n, D.guar n p.state (p.exec code e).state := by
  cases e with
  | start n op => left; simp only [Pool.exec]; split <;> rfl
  | stop n => exact .inl rfl
  | step n i => exact (step_guar code h n i).imp_right fun hg => ⟨n, hg⟩

/-- A sound pool in which each number that has ended meets its promise `Q`. -/
def Keeps (D : Discipline σ) (Q : ℕ → σ → Prop) (p : Pool σ ι) : Prop :=
  D.inv p.state ∧ ∀ n, D.Safe n (p.running n) (fun _ s => D.inv s → Q n s) p.state

/-- A number that has ended meets its promise. -/
theorem Keeps.ended {Q : ℕ → σ → Prop} {p : Pool σ ι} (h : D.Keeps Q p) {n : ℕ}
    (hn : p.running n = .ret ()) : Q n p.state := by
  have hsafe := h.2 n
  rw [hn] at hsafe
  exact hsafe h.1

section runs

variable {code : ℕ → κ → Proc σ ι Unit}

/-- Promises survive one event whose step meets the condition; a number that is stopped has
nothing to promise. -/
theorem exec_keeps {Q : ℕ → σ → Prop} {p : Pool σ ι} (h : D.Keeps Q p) (e : Event κ ι)
    (stable : ∀ n s t, D.inv s → D.rely n s t → Q n s → Q n t)
    (safe : ∀ n op, e = .start n op → ∀ s, D.inv s → Q n s →
      D.Safe n (code n op) (fun _ s => D.inv s → Q n s) s)
    (hstop : ∀ n, e = .stop n → ∀ s, Q n s)
    (hC : D.cond p.state (p.exec code e).state) : D.Keeps Q (p.exec code e) := by
  have hsound : D.Sound p := ⟨h.1, fun n => (h.2 n).weaken fun _ _ _ => trivial⟩
  have hinv : D.inv (p.exec code e).state := by
    rcases exec_guar code hsound e with heq | ⟨n, hg⟩
    · rw [heq]; exact h.1
    · exact D.keep n _ _ h.1 hg hC
  refine ⟨hinv, fun m => ?_⟩
  cases e with
  | start n op =>
    simp only [Pool.exec]
    split
    · next r hret =>
      rcases eq_or_ne m n with rfl | hm
      · simpa using safe m op rfl p.state h.1 (h.ended hret)
      · simpa [Function.update_of_ne hm] using h.2 m
    · exact h.2 m
  | stop n =>
    rcases eq_or_ne m n with rfl | hm
    · simpa [Pool.exec, Safe] using fun _ => hstop m rfl _
    · simpa [Pool.exec, Function.update_of_ne hm] using h.2 m
  | step n i =>
    have hn := h.2 n
    simp only [Pool.exec] at hC ⊢
    split at hC
    · next heq => simpa only [heq] using h.2 m
    · next upd next heq =>
      dsimp only
      rw [heq] at hn
      obtain ⟨hg, hs⟩ := hn p.state (D.rely_refl n _) h.1 i
      rcases eq_or_ne m n with rfl | hm
      · simpa using hs
      · have hrely := D.guar_rely n m _ _ (Ne.symm hm) h.1 hg hC
        rw [Function.update_of_ne hm]
        have hwait := h.2 m
        cases hp : p.running m with
        | ret r =>
          rw [hp] at hwait
          exact fun _ => stable m _ _ h.1 hrely (hwait h.1)
        | atom upd' next' =>
          rw [hp] at hwait
          exact fun u hu hi j => hwait u (D.rely_trans m _ _ _ hrely hu) hi j

/-- **The promise rule**: after every run without a stop whose steps all meet the condition, what
has ended meets its promise. -/
theorem run_keeps {Q : ℕ → σ → Prop} {p : Pool σ ι} (h : D.Keeps Q p) (es : List (Event κ ι))
    (stable : ∀ n s t, D.inv s → D.rely n s t → Q n s → Q n t)
    (safe : ∀ n op s, D.inv s → Q n s → D.Safe n (code n op) (fun _ s => D.inv s → Q n s) s)
    (hstop : ∀ n, .stop n ∉ es) (hC : p.Steps code D.cond es) : D.Keeps Q (p.run code es) := by
  induction es generalizing p with
  | nil => exact h
  | cons e es ih =>
    obtain ⟨hfirst, hrest⟩ := hC
    refine ih (exec_keeps h e stable (fun n op _ => safe n op) (fun n he => ?_) hfirst)
      (fun n hn => hstop n (List.mem_cons_of_mem _ hn)) hrest
    exact absurd (he ▸ List.mem_cons_self ..) (hstop n)

/-- Soundness survives one event whose step meets the condition. -/
theorem exec_sound {p : Pool σ ι} (h : D.Sound p) (e : Event κ ι)
    (safe : ∀ n op, e = .start n op → ∀ s, D.inv s → D.Safe n (code n op) (fun _ _ => True) s)
    (hC : D.cond p.state (p.exec code e).state) : D.Sound (p.exec code e) := by
  have hkeeps : D.Keeps (fun _ _ => True) p :=
    ⟨h.1, fun n => (h.2 n).weaken fun _ _ _ _ => trivial⟩
  have hnext := exec_keeps hkeeps e (fun _ _ _ _ _ _ => trivial)
    (fun n op he s hs _ => (safe n op he s hs).weaken fun _ _ _ _ => trivial)
    (fun _ _ _ => trivial) hC
  exact ⟨hnext.1, fun n => (hnext.2 n).weaken fun _ _ _ => trivial⟩

/-- The invariant rule for a run that starts only safe programs. -/
theorem run_sound_on {p : Pool σ ι} (h : D.Sound p) (es : List (Event κ ι))
    (safe : ∀ n op, .start n op ∈ es → ∀ s, D.inv s → D.Safe n (code n op) (fun _ _ => True) s)
    (hC : p.Steps code D.cond es) : D.Sound (p.run code es) := by
  induction es generalizing p with
  | nil => exact h
  | cons e es ih =>
    refine ih (exec_sound h e (fun n op he => safe n op ?_) hC.1)
      (fun n op he => safe n op (List.mem_cons_of_mem _ he)) hC.2
    rw [he]
    exact List.mem_cons_self ..

variable (safe : ∀ n op s, D.inv s → D.Safe n (code n op) (fun _ _ => True) s)

include safe

/-- **The invariant rule**: soundness holds after every run whose steps all meet the
condition. -/
theorem run_sound {p : Pool σ ι} (h : D.Sound p) (es : List (Event κ ι))
    (hC : p.Steps code D.cond es) : D.Sound (p.run code es) :=
  run_sound_on h es (fun n op _ s => safe n op s) hC

/-- **The stability rule**: a preorder that contains every guaranteed step relates any state
of a run to any later one. -/
theorem run_stable {T : σ → σ → Prop} (refl : ∀ s, T s s)
    (trans : ∀ s t u, T s t → T t u → T s u)
    (step : ∀ n s t, D.inv s → D.guar n s t → D.cond s t → T s t)
    {p : Pool σ ι} (h : D.Sound p) (es : List (Event κ ι)) (hC : p.Steps code D.cond es) :
    T p.state (p.run code es).state := by
  induction es generalizing p with
  | nil => exact refl _
  | cons e es ih =>
    refine trans _ _ _ ?_ (ih (exec_sound h e (fun n op _ s => safe n op s) hC.1) hC.2)
    rcases exec_guar code h e with heq | ⟨n, hg⟩
    · rw [heq]; exact refl _
    · exact step n _ _ h.1 hg hC.1

end runs

end Discipline

end Mailman.Library
