import Mathlib.Algebra.Order.Group.Int
import Mathlib.Data.Finsupp.Order
import Mailman.Library.Fallible

/-!
# Following one program of a pool

A program is determined by what its requests meet: the state each is made in, whatever the
others did to it, and the input it is stepped with. `Proc.follow` is the program after that,
`Proc.wrote` what its requests did, and `Pool.met` reads what one number met off a run.

`Proc.Affords` bounds a quantity over a run by the potential method: a program holds a purse,
a request that raises the quantity pays from it, and one that lowers it may fill it.
-/

set_option autoImplicit false

namespace Mailman.Library

namespace Proc

variable {σ ι ρ α β : Type}

/-- What is still to do after the next requests met these states and inputs. -/
def follow : Proc σ ι ρ → List (σ × ι) → Proc σ ι ρ
  | p, [] => p
  | .ret r, _ :: _ => .ret r
  | .atom _ next, (s, i) :: l => (next s i).follow l

/-- The states before and after each of these requests. -/
def wrote : Proc σ ι ρ → List (σ × ι) → List (σ × σ)
  | _, [] => []
  | .ret _, _ :: _ => []
  | .atom upd next, (s, i) :: l => (s, upd s i) :: (next s i).wrote l

/-- Nothing met leaves the program as it is. -/
@[simp] theorem follow_nil (p : Proc σ ι ρ) : p.follow [] = p := by cases p <;> rfl

/-- Nothing met is nothing written. -/
@[simp] theorem wrote_nil (p : Proc σ ι ρ) : p.wrote [] = [] := by cases p <;> rfl

/-- A program that has returned stays so. -/
@[simp] theorem follow_ret (r : ρ) (l : List (σ × ι)) : (ret r : Proc σ ι ρ).follow l = .ret r := by
  cases l <;> rfl

/-- A program that has returned writes nothing. -/
@[simp] theorem wrote_ret (r : ρ) (l : List (σ × ι)) : (ret r : Proc σ ι ρ).wrote l = [] := by
  cases l <;> rfl

/-- What is written along two lists is written along the first, then along the second. -/
theorem wrote_append (p : Proc σ ι ρ) (l l' : List (σ × ι)) :
    p.wrote (l ++ l') = p.wrote l ++ (p.follow l).wrote l' := by
  induction l generalizing p with
  | nil => simp
  | cons x l ih =>
    cases p with
    | ret r => simp
    | atom upd next => exact congrArg _ (ih _)

/-- What a program yields, the rest of it yields. -/
theorem Yields.follow {R : σ → ι → σ → Prop} {Q : ρ → Prop} {p : Proc σ ι ρ}
    (h : p.Yields R Q) (l : List (σ × ι)) : (p.follow l).Yields R Q := by
  induction l generalizing p with
  | nil => simpa using h
  | cons x l ih =>
    cases p with
    | ret r => exact h
    | atom upd next => exact ih (h x.1 x.2).2

/-- What a program writes keeps its relation. -/
theorem Yields.wrote {R : σ → ι → σ → Prop} {Q : ρ → Prop} {p : Proc σ ι ρ}
    (h : p.Yields R Q) (l : List (σ × ι)) : ∀ x ∈ p.wrote l, ∃ i, R x.1 i x.2 := by
  induction l generalizing p with
  | nil => simp
  | cons y l ih =>
    cases p with
    | ret r => simp
    | atom upd next =>
      obtain ⟨hstep, hnext⟩ := h y.1 y.2
      intro x hx
      rcases List.mem_cons.mp hx with rfl | hx
      · exact ⟨y.2, hstep⟩
      · exact ih hnext x hx

/-- The next request of the program is a step of `R`, whatever state it meets. -/
def Head (R : σ → ι → σ → Prop) : Proc σ ι ρ → Prop
  | .ret _ => True
  | .atom upd _ => ∀ s i, R s i (upd s i)

/-- Whatever its requests meet, what is left of the program satisfies `P`. -/
def Always (P : Proc σ ι ρ → Prop) : Proc σ ι ρ → Prop
  | .ret r => P (.ret r)
  | .atom upd next => P (.atom upd next) ∧ ∀ s i, (next s i).Always P

/-- The requests of the program leave the state as it is until what is left satisfies `S`. -/
def LeadsTo (S : Proc σ ι ρ → Prop) : Proc σ ι ρ → Prop
  | .ret _ => True
  | .atom upd next => S (.atom upd next) ∨ ∀ s i, upd s i = s ∧ (next s i).LeadsTo S

/-- What always holds holds now. -/
theorem Always.here {P : Proc σ ι ρ → Prop} {p : Proc σ ι ρ} (h : p.Always P) : P p := by
  cases p with
  | ret r => exact h
  | atom upd next => exact h.1

/-- What follows of a program's terms always holds of it. -/
theorem Yields.always {R : σ → ι → σ → Prop} {Q : ρ → Prop} {P : Proc σ ι ρ → Prop}
    {p : Proc σ ι ρ} (h : p.Yields R Q) (hP : ∀ q, q.Head R → P q) : p.Always P := by
  induction p with
  | ret r => exact hP _ trivial
  | atom upd next ih => exact ⟨hP _ fun s i => (h s i).1, fun s i => ih s i (h s i).2⟩

/-- The sequencing rule for a first part whose requests are all steps of `R`. -/
theorem Always.bind {R : σ → ι → σ → Prop} {Q : α → Prop} {P : Proc σ ι β → Prop}
    {p : Proc σ ι α} {k : α → Proc σ ι β} (h : p.Yields R Q) (hP : ∀ q, q.Head R → P q)
    (hk : ∀ a, Q a → (k a).Always P) : (p.bind k).Always P := by
  induction p with
  | ret a => exact hk a h
  | atom upd next ih => exact ⟨hP _ fun s i => (h s i).1, fun s i => ih s i (h s i).2⟩

/-- A program that only reads leads on to what follows it. -/
theorem LeadsTo.bind {S : Proc σ ι β → Prop} {Q : α → Prop} {p : Proc σ ι α}
    {k : α → Proc σ ι β} (h : p.Yields (fun s _ t => t = s) Q)
    (hk : ∀ a, Q a → (k a).LeadsTo S) : (p.bind k).LeadsTo S := by
  induction p with
  | ret a => exact hk a h
  | atom upd next ih => exact .inr fun s i => ⟨(h s i).1, ih s i (h s i).2⟩

/-- A program that has reached `S`, where it comes only once, has not changed the state. -/
theorem LeadsTo.wrote {S : Proc σ ι ρ → Prop} {p : Proc σ ι ρ} (h : p.LeadsTo S)
    (once : ∀ upd next, S (.atom upd next) → ∀ s i l, ¬ S ((next s i).follow l))
    (l : List (σ × ι)) (hl : S (p.follow l)) : ∀ x ∈ p.wrote l, x.2 = x.1 := by
  induction l generalizing p with
  | nil => simp
  | cons y l ih =>
    cases p with
    | ret r => simp
    | atom upd next =>
      rcases h with hS | hstay
      · exact absurd hl (once upd next hS y.1 y.2 l)
      · intro x hx
        rcases List.mem_cons.mp hx with rfl | hx
        · exact (hstay y.1 y.2).1
        · exact ih (hstay y.1 y.2).2 hl x hx

end Proc

namespace Pool

variable {σ ι κ : Type} (code : ℕ → κ → Proc σ ι Unit)

/-- What is always so of the programs is so of what a run has left of them. -/
theorem always_run {P : Proc σ ι Unit → Prop} (hret : P (.ret ()))
    (hcode : ∀ n op, (code n op).Always P) {p : Pool σ ι} (hp : ∀ n, (p.running n).Always P)
    (es : List (Event κ ι)) : ∀ n, ((p.run code es).running n).Always P := by
  induction es generalizing p with
  | nil => exact hp
  | cons e es ih =>
    refine ih fun m => ?_
    cases e with
    | start n op =>
      simp only [exec]
      split
      · by_cases hm : m = n
        · subst hm
          simpa using hcode m op
        · simpa [Function.update_of_ne hm] using hp m
      · exact hp m
    | stop n =>
      by_cases hm : m = n
      · subst hm
        simpa [exec, Proc.Always] using hret
      · simpa [exec, Function.update_of_ne hm] using hp m
    | step n i =>
      have hn := hp n
      simp only [exec]
      split
      · exact hp m
      · next upd next heq =>
        rw [heq] at hn
        by_cases hm : m = n
        · subst hm
          simpa using hn.2 p.state i
        · simpa [Function.update_of_ne hm] using hp m

/-- The states and inputs that number `n` is stepped with in a run. -/
def met (n : ℕ) : Pool σ ι → List (Event κ ι) → List (σ × ι)
  | _, [] => []
  | p, e :: es => (match e with
      | .step m i => if m = n then [(p.state, i)] else []
      | _ => []) ++ met n (p.exec code e) es

/-- What is met in two runs is met in the first, then in the second. -/
theorem met_append (n : ℕ) (p : Pool σ ι) (es fs : List (Event κ ι)) :
    p.met code n (es ++ fs) = p.met code n es ++ (p.run code es).met code n fs := by
  induction es generalizing p with
  | nil => rfl
  | cons e es ih =>
    simp only [List.cons_append, met, ih, run_cons, List.append_assoc]

/-- What a number meets, it meets at one step of the run. -/
theorem mem_met {n : ℕ} {p : Pool σ ι} {es : List (Event κ ι)} {x : σ × ι}
    (hx : x ∈ p.met code n es) : ∃ es₁ es₂, es = es₁ ++ .step n x.2 :: es₂ ∧
      x.1 = (p.run code es₁).state := by
  induction es generalizing p with
  | nil => simp [met] at hx
  | cons e es ih =>
    rcases List.mem_append.mp hx with hhead | htail
    · cases e with
      | start m op => simp at hhead
      | stop m => simp at hhead
      | step m i =>
        dsimp only at hhead
        split at hhead
        · next hm =>
          subst hm
          rw [List.mem_singleton.mp hhead]
          exact ⟨[], es, rfl, rfl⟩
        · cases hhead
    · obtain ⟨es₁, es₂, rfl, hstate⟩ := ih htail
      exact ⟨e :: es₁, es₂, rfl, hstate⟩

/-- A number that makes no request meets nothing. -/
theorem met_eq_nil {n : ℕ} {p : Pool σ ι} {es : List (Event κ ι)} (h : ∀ i, .step n i ∉ es) :
    p.met code n es = [] := by
  apply List.eq_nil_iff_forall_not_mem.mpr
  intro x hx
  obtain ⟨es₁, es₂, rfl, -⟩ := mem_met code hx
  exact h x.2 (List.mem_append_right _ (List.mem_cons_self ..))

/-- A number that is neither started nor stopped follows what it meets. -/
theorem run_follow (n : ℕ) {p : Pool σ ι} {es : List (Event κ ι)}
    (hstart : ∀ op, .start n op ∉ es) (hstop : .stop n ∉ es) :
    (p.run code es).running n = (p.running n).follow (p.met code n es) := by
  induction es generalizing p with
  | nil => simp [met]
  | cons e es ih =>
    rw [run_cons, ih (fun op h => hstart op (List.mem_cons_of_mem _ h))
      fun h => hstop (List.mem_cons_of_mem _ h)]
    cases e with
    | start m op =>
      have hm : n ≠ m := fun hm => hstart op (hm ▸ List.mem_cons_self ..)
      have hrun : (p.exec code (.start m op)).running n = p.running n := by
        simp only [exec]
        split
        · simp [Function.update_of_ne hm]
        · rfl
      rw [hrun]
      rfl
    | stop m =>
      have hm : n ≠ m := fun hm => hstop (hm ▸ List.mem_cons_self ..)
      have hrun : (p.exec code (.stop m)).running n = p.running n := by
        simp [exec, Function.update_of_ne hm]
      rw [hrun]
      rfl
    | step m i =>
      by_cases hm : m = n
      · subst hm
        simp only [met, if_true, List.singleton_append]
        cases hp : p.running m with
        | ret r => simp [exec, hp]
        | atom upd next => simp [exec, hp, Proc.follow]
      · have hrun : (p.exec code (.step m i)).running n = p.running n := by
          simp only [exec]
          split
          · rfl
          · simp [Function.update_of_ne (Ne.symm hm)]
        rw [hrun]
        simp [met, hm]

end Pool

/-! ## Purses -/

namespace Proc

variable {σ ι ρ α β : Type} {I : σ → Prop} {g : σ → ℤ}

/-- With `k` in its purse the program can pay for what its requests add to `g`, wherever `I`
holds, and what it ends in and still has is related by `Q`. -/
def Affords (I : σ → Prop) (g : σ → ℤ) : Proc σ ι ρ → (ρ → ℕ → Prop) → ℕ → Prop
  | .ret r, Q, k => Q r k
  | .atom upd next, Q, k => ∀ s i, I s → ∃ k' : ℕ, g (upd s i) + k' ≤ g s + k ∧
      (next s i).Affords I g Q k'

/-- A sequence affords what its second part does of the first one's rest. -/
theorem Affords.bind {p : Proc σ ι α} {f : α → Proc σ ι β} {Q : β → ℕ → Prop} {k : ℕ}
    (h : p.Affords I g (fun a k => (f a).Affords I g Q k) k) : (p.bind f).Affords I g Q k := by
  induction p generalizing k with
  | ret a => exact h
  | atom upd next ih =>
    intro s i hs
    obtain ⟨k', hpay, hnext⟩ := h s i hs
    exact ⟨k', hpay, ih s i hnext⟩

/-- What affords a goal affords a weaker one. -/
theorem Affords.mono {p : Proc σ ι ρ} {Q Q' : ρ → ℕ → Prop} {k : ℕ} (h : p.Affords I g Q k)
    (hQ : ∀ r k, Q r k → Q' r k) : p.Affords I g Q' k := by
  induction p generalizing k with
  | ret r => exact hQ r k h
  | atom upd next ih =>
    intro s i hs
    obtain ⟨k', hpay, hnext⟩ := h s i hs
    exact ⟨k', hpay, ih s i hnext⟩

/-- A program that never raises `g` keeps its purse. -/
theorem Affords.of_yields {R : σ → ι → σ → Prop} {Q : ρ → Prop} {p : Proc σ ι ρ}
    (h : p.Yields R Q) (hR : ∀ s i t, R s i t → g t ≤ g s) (k : ℕ) :
    p.Affords I g (fun r k' => Q r ∧ k' = k) k := by
  induction p with
  | ret r => exact ⟨h, rfl⟩
  | atom upd next ih =>
    intro s i _
    obtain ⟨hstep, hnext⟩ := h s i
    have hg := hR _ _ _ hstep
    exact ⟨k, by omega, ih s i hnext⟩

/-- One request that raises `g` by no more than is in the purse. -/
theorem Affords.act {f : σ → ι → σ × α} {k : ℕ} (h : ∀ s i, g (f s i).1 ≤ g s + k) :
    (act f).Affords I g (fun _ j => j = 0) k :=
  fun s i _ => ⟨0, by simpa using h s i, rfl⟩

/-- What the requests of one program add to `g` is in its purse at the start. -/
theorem Affords.wrote {p : Proc σ ι ρ} {Q : ρ → ℕ → Prop} {k : ℕ} (h : p.Affords I g Q k)
    (l : List (σ × ι)) (hl : ∀ x ∈ l, I x.1) :
    ((p.wrote l).map fun x => g x.2 - g x.1).sum ≤ k := by
  induction l generalizing p k with
  | nil => simp
  | cons x l ih =>
    cases p with
    | ret r => simp
    | atom upd next =>
      obtain ⟨k', hpay, hnext⟩ := h x.1 x.2 (hl x (List.mem_cons_self ..))
      have hrest := ih hnext fun y hy => hl y (List.mem_cons_of_mem _ hy)
      simp only [Proc.wrote, List.map_cons, List.sum_cons]
      omega

end Proc

namespace Pool

variable {σ ι κ : Type} {code : ℕ → κ → Proc σ ι Unit} {I : σ → Prop} {g : σ → ℤ}

/-- Every program can pay from its own purse, and all of them together hold what is left of
`bound`. -/
def Funded (I : σ → Prop) (g : σ → ℤ) (bound : ℤ) (p : Pool σ ι) : Prop :=
  ∃ purse : ℕ →₀ ℕ, g p.state + (purse.sum fun _ k => (k : ℤ)) ≤ bound ∧
    ∀ n, (p.running n).Affords I g (fun _ _ => True) (purse n)

/-- An idle pool is funded by its state. -/
theorem funded_idle (s : σ) : (Pool.idle s : Pool σ ι).Funded I g (g s) :=
  ⟨0, by simp [idle], fun _ => trivial⟩

/-- Number `n` pays with its own purse, and all others keep theirs. -/
theorem funded_update {bound : ℤ} {p q : Pool σ ι} {n j : ℕ} {purse : ℕ →₀ ℕ}
    (hbound : g p.state + (purse.sum fun _ k => (k : ℤ)) ≤ bound)
    (hp : ∀ m, (p.running m).Affords I g (fun _ _ => True) (purse m))
    (hpay : g q.state + j ≤ g p.state + purse n)
    (hn : (q.running n).Affords I g (fun _ _ => True) j)
    (hq : ∀ m, m ≠ n → q.running m = p.running m) : q.Funded I g bound := by
  refine ⟨purse.update n j, ?_, fun m => ?_⟩
  · have hsum := Finsupp.sum_update_add purse n j (fun _ k => (k : ℤ)) (fun _ => rfl)
      fun _ a b => Int.natCast_add a b
    omega
  · by_cases hm : m = n
    · subst hm
      simpa using hn
    · rw [hq m hm, Finsupp.coe_update, Function.update_of_ne hm]
      exact hp m

/-- An event keeps a pool funded. -/
theorem exec_funded (hcode : ∀ n op, (code n op).Affords I g (fun _ _ => True) 0) {bound : ℤ}
    {p : Pool σ ι} (hp : p.Funded I g bound) (hI : I p.state) (e : Event κ ι) :
    (p.exec code e).Funded I g bound := by
  obtain ⟨purse, hbound, haff⟩ := hp
  cases e with
  | start n op =>
    simp only [exec]
    split
    · refine funded_update hbound haff (n := n) (j := 0) (by simp) (by simpa using hcode n op) ?_
      intro m hm
      simp [Function.update_of_ne hm]
    · exact ⟨purse, hbound, haff⟩
  | stop n =>
    refine funded_update hbound haff (n := n) (j := 0) (by simp [exec]) ?_ fun m hm => ?_
    · simp [exec, Proc.Affords]
    · simp [exec, Function.update_of_ne hm]
  | step n i =>
    have hn := haff n
    simp only [exec]
    split
    · exact ⟨purse, hbound, haff⟩
    · next upd next heq =>
      rw [heq] at hn
      obtain ⟨k', hpay, hnext⟩ := hn p.state i hI
      refine funded_update hbound haff hpay (by simpa using hnext) fun m hm => ?_
      simp [Function.update_of_ne hm]

/-- **The potential rule**: when every program starts with an empty purse, `g` never exceeds its
first value. -/
theorem run_affords (hcode : ∀ n op, (code n op).Affords I g (fun _ _ => True) 0) {bound : ℤ}
    {p : Pool σ ι} (hp : p.Funded I g bound) (hI : I p.state) (es : List (Event κ ι))
    (hC : p.Steps code (fun s t => I s → I t) es) : g (p.run code es).state ≤ bound := by
  induction es generalizing p with
  | nil =>
    obtain ⟨purse, hbound, -⟩ := hp
    have hpos : 0 ≤ purse.sum fun _ k => (k : ℤ) := Finsupp.sum_nonneg fun _ _ => Int.natCast_nonneg _
    change g p.state ≤ bound
    omega
  | cons e es ih => exact ih (exec_funded hcode hp hI e) (hC.1 hI) hC.2

end Pool

end Mailman.Library
