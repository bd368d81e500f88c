import Mailman.Library.Following

/-!
# A program that is left alone

While one number of a pool runs, the others may be held to a relation: `Pool.Undisturbed` says
that of the events of a run, and `Proc.Linked` of what the number meets. A program that is safe
under that relation keeps its promises along such a run to the end (`Safe.followed`).
-/

set_option autoImplicit false

namespace Mailman.Library

namespace Proc

variable {σ ι ρ α : Type} {R : σ → σ → Prop}

/-- The state after the last of these requests, which is `s` where there is none. -/
def leaves : Proc σ ι ρ → σ → List (σ × ι) → σ
  | _, s, [] => s
  | .ret _, s, _ :: _ => s
  | .atom upd next, _, (t, i) :: l => (next t i).leaves (upd t i) l

/-- A program that has returned leaves the state as it met it. -/
@[simp] theorem leaves_ret (r : ρ) (s : σ) (l : List (σ × ι)) :
    (ret r : Proc σ ι ρ).leaves s l = s := by
  cases l <;> rfl

/-- From `s` to the first request, and from one request to the next, the state changes only
along `R`. -/
def Linked (R : σ → σ → Prop) : Proc σ ι ρ → σ → List (σ × ι) → Prop
  | _, _, [] => True
  | .ret _, _, _ :: _ => True
  | .atom upd next, s, (t, i) :: l => R s t ∧ (next t i).Linked R (upd t i) l

/-- Links of a narrower relation are links of a wider one. -/
theorem Linked.mono {R' : σ → σ → Prop} (hR : ∀ s t, R s t → R' s t) {p : Proc σ ι ρ} {s : σ}
    {l : List (σ × ι)} (h : p.Linked R s l) : p.Linked R' s l := by
  induction l generalizing p s with
  | nil => cases p <;> trivial
  | cons x l ih =>
    cases p with
    | ret r => trivial
    | atom upd next => exact ⟨hR _ _ h.1, ih h.2⟩

/-- What is known of each state met is known along the links. -/
theorem Linked.and_of_mem {I : σ → Prop} {p : Proc σ ι ρ} {s : σ} {l : List (σ × ι)}
    (h : p.Linked R s l) (hl : ∀ x ∈ l, I x.1) : p.Linked (fun s t => R s t ∧ I t) s l := by
  induction l generalizing p s with
  | nil => cases p <;> trivial
  | cons x l ih =>
    cases p with
    | ret r => trivial
    | atom upd next =>
      obtain ⟨hfirst, hrest⟩ := h
      exact ⟨⟨hfirst, hl x (List.mem_cons_self ..)⟩,
        ih hrest fun y hy => hl y (List.mem_cons_of_mem _ hy)⟩

/-! ## What a program has done so far -/

/-- However many linked requests the program has made, the state they leave and what they did are
related by `Q`. -/
def Traces (R : σ → σ → Prop) (p : Proc σ ι ρ) (s : σ) (Q : σ → List (σ × σ) → Prop) : Prop :=
  ∀ l, p.Linked R s l → Q (p.leaves s l) (p.wrote l)

/-- A program that has returned has an empty trace. -/
theorem Traces.ret {r : ρ} {s : σ} {Q : σ → List (σ × σ) → Prop} (h : Q s []) :
    (.ret r : Proc σ ι ρ).Traces R s Q := by
  intro l _
  rwa [leaves_ret, wrote_ret]

/-- The rule for one request followed by the rest of the program. -/
theorem Traces.act {β : Type} {f : σ → ι → σ × α} {k : α → Proc σ ι β} {s : σ}
    {Q : σ → List (σ × σ) → Prop} (hnone : Q s [])
    (h : ∀ t i, R s t →
      (k (f t i).2).Traces R (f t i).1 fun u done => Q u ((t, (f t i).1) :: done)) :
    ((Proc.act f).bind k).Traces R s Q := by
  intro l hl
  cases l with
  | nil => exact hnone
  | cons x l => exact h x.1 x.2 hl.1 l hl.2

/-- A trace with a goal is one with a weaker goal. -/
theorem Traces.mono {p : Proc σ ι ρ} {s : σ} {Q Q' : σ → List (σ × σ) → Prop}
    (h : p.Traces R s Q) (hQ : ∀ u done, Q u done → Q' u done) : p.Traces R s Q' :=
  fun l hl => hQ _ _ (h l hl)

/-- Once the program has made `m` linked requests, or has ended, the state they leave meets `Q`. -/
def Finishes (R : σ → σ → Prop) (p : Proc σ ι ρ) (s : σ) (m : ℕ) (Q : σ → Prop) : Prop :=
  ∀ l, p.Linked R s l → m ≤ l.length → Q (p.leaves s l)

/-- A program that has returned finishes at once. -/
theorem Finishes.ret {r : ρ} {s : σ} {m : ℕ} {Q : σ → Prop} (h : Q s) :
    (.ret r : Proc σ ι ρ).Finishes R s m Q := by
  intro l _ _
  rwa [leaves_ret]

/-- What finishes within a number of steps finishes within more. -/
theorem Finishes.mono {p : Proc σ ι ρ} {s : σ} {m m' : ℕ} {Q : σ → Prop}
    (h : p.Finishes R s m Q) (hm : m ≤ m') : p.Finishes R s m' Q :=
  fun l hl hlen => h l hl (Nat.le_trans hm hlen)

/-- The rule for one request followed by the rest of the program. -/
theorem Finishes.act {β : Type} {f : σ → ι → σ × α} {k : α → Proc σ ι β} {s : σ} {m : ℕ}
    {Q : σ → Prop} (h : ∀ t i, R s t → (k (f t i).2).Finishes R (f t i).1 m Q) :
    ((Proc.act f).bind k).Finishes R s (m + 1) Q := by
  intro l hl hlen
  cases l with
  | nil => exact absurd hlen (Nat.not_succ_le_zero m)
  | cons x l => exact h x.1 x.2 hl.1 l hl.2 (Nat.le_of_succ_le_succ hlen)

/-! ## A program whose result is dropped -/

/-- Dropping the result keeps the links. -/
theorem linked_drop {p : Proc σ ι α} {r : ρ} {s : σ} {l : List (σ × ι)}
    (h : (p.bind fun _ => .ret r).Linked R s l) : p.Linked R s l := by
  induction l generalizing p s with
  | nil => cases p <;> trivial
  | cons x l ih =>
    cases p with
    | ret a => trivial
    | atom upd next => exact ⟨h.1, ih h.2⟩

/-- Dropping the result keeps what is left. -/
theorem leaves_drop (p : Proc σ ι α) (r : ρ) (s : σ) (l : List (σ × ι)) :
    (p.bind fun _ => .ret r).leaves s l = p.leaves s l := by
  induction l generalizing p s with
  | nil => cases p <;> rfl
  | cons x l ih =>
    cases p with
    | ret a => rfl
    | atom upd next => exact ih _ _

/-- Dropping the result keeps what is written. -/
theorem wrote_drop (p : Proc σ ι α) (r : ρ) (l : List (σ × ι)) :
    (p.bind fun _ => .ret r).wrote l = p.wrote l := by
  induction l generalizing p with
  | nil => cases p <;> rfl
  | cons x l ih =>
    cases p with
    | ret a => rfl
    | atom upd next => exact congrArg _ (ih _)

end Proc

namespace Pool

variable {σ ι κ : Type} (code : ℕ → κ → Proc σ ι Unit) {R : σ → σ → Prop} {n : ℕ}

/-- Every event of the run but the steps of number `n` changes the state only along `R`. -/
def Undisturbed (R : σ → σ → Prop) (n : ℕ) : Pool σ ι → List (Event κ ι) → Prop
  | _, [] => True
  | p, e :: es => ((∃ i, e = .step n i) ∨ R p.state (p.exec code e).state) ∧
      (p.exec code e).Undisturbed R n es

/-- An event of another number keeps the program. -/
theorem exec_running {p : Pool σ ι} {e : Event κ ι} (hstart : ∀ op, e ≠ .start n op)
    (hstop : e ≠ .stop n) (hstep : ∀ i, e ≠ .step n i) :
    (p.exec code e).running n = p.running n := by
  cases e with
  | start m op =>
    have hm : n ≠ m := fun hm => hstart op (hm ▸ rfl)
    simp only [exec]
    split
    · simp [Function.update_of_ne hm]
    · rfl
  | stop m =>
    have hm : n ≠ m := fun hm => hstop (hm ▸ rfl)
    simp [exec, Function.update_of_ne hm]
  | step m i =>
    have hm : n ≠ m := fun hm => hstep i (hm ▸ rfl)
    simp only [exec]
    split
    · rfl
    · simp [Function.update_of_ne hm]

/-- Nothing is met at an event of another number. -/
theorem met_cons_of_ne {p : Pool σ ι} {e : Event κ ι} {es : List (Event κ ι)}
    (hstep : ∀ i, e ≠ .step n i) :
    p.met code n (e :: es) = (p.exec code e).met code n es := by
  cases e with
  | start m op => rfl
  | stop m => rfl
  | step m i =>
    have hm : m ≠ n := fun hm => hstep i (hm ▸ rfl)
    simp [met, hm]

/-- A run of programs that change the state only along `R`, number `n` apart. -/
theorem undisturbed_of_every {S : σ → ι → σ → Prop} (refl : ∀ s, R s s)
    (hS : ∀ s i t, S s i t → R s t) {p : Pool σ ι} {es : List (Event κ ι)}
    (hp : ∀ m, m ≠ n → (p.running m).Every S)
    (hstart : ∀ m op, .start m op ∈ es → (code m op).Every S) : p.Undisturbed code R n es := by
  induction es generalizing p with
  | nil => trivial
  | cons e es ih =>
    have hrest : ∀ m op, .start m op ∈ es → (code m op).Every S :=
      fun m op h => hstart m op (List.mem_cons_of_mem _ h)
    cases e with
    | start m op =>
      refine ⟨.inr ?_, ih (fun k hk => ?_) hrest⟩
      · simp only [exec]
        split <;> exact refl _
      · simp only [exec]
        split
        · by_cases hkm : k = m
          · subst hkm
            simpa using hstart k op (List.mem_cons_self ..)
          · simpa [Function.update_of_ne hkm] using hp k hk
        · exact hp k hk
    | stop m =>
      refine ⟨.inr (refl _), ih (fun k hk => ?_) hrest⟩
      by_cases hkm : k = m
      · subst hkm
        simp [exec, Proc.Yields]
      · simpa [exec, Function.update_of_ne hkm] using hp k hk
    | step m i =>
      by_cases hm : m = n
      · subst hm
        refine ⟨.inl ⟨i, rfl⟩, ih (fun k hk => ?_) hrest⟩
        simp only [exec]
        split
        · exact hp k hk
        · simpa [Function.update_of_ne hk] using hp k hk
      · have hown := hp m hm
        cases hrun : p.running m with
        | ret r =>
          have hexec : p.exec code (.step m i) = p := by simp [exec, hrun]
          refine ⟨.inr ?_, ?_⟩
          · rw [hexec]
            exact refl _
          · rw [hexec]
            exact ih hp hrest
        | atom upd next =>
          rw [hrun] at hown
          obtain ⟨hstep, hnext⟩ := hown p.state i
          refine ⟨.inr ?_, ih (fun k hk => ?_) hrest⟩
          · simpa [exec, hrun] using hS _ _ _ hstep
          · by_cases hkm : k = m
            · subst hkm
              simpa [exec, hrun] using hnext
            · simpa [exec, hrun, Function.update_of_ne hkm] using hp k hk

/-- In a sound pool the others change the state only along what they guarantee. -/
theorem undisturbed_of_sound {D : Discipline σ} {n : ℕ} {p : Pool σ ι} {es : List (Event κ ι)}
    (refl : ∀ s, R s s)
    (safe : ∀ n op s, D.inv s → D.Safe n (code n op) (fun _ _ => True) s)
    (hR : ∀ m s t, m ≠ n → D.inv s → D.guar m s t → R s t) (h : D.Sound p)
    (hC : p.Steps code D.cond es) : p.Undisturbed code R n es := by
  induction es generalizing p with
  | nil => trivial
  | cons e es ih =>
    refine ⟨?_, ih (Discipline.exec_sound h e (fun n op _ s => safe n op s) hC.1) hC.2⟩
    cases e with
    | start m op =>
      right
      simp only [exec]
      split <;> exact refl _
    | stop m => exact .inr (refl _)
    | step m i =>
      by_cases hm : m = n
      · exact .inl ⟨i, by rw [hm]⟩
      · right
        rcases Discipline.step_guar code h m i with heq | hguar
        · rw [heq]
          exact refl _
        · exact hR m _ _ hm h.1 hguar

/-- What an undisturbed number meets is linked, and so is what it leaves to the end of the
run. -/
theorem linked_met (refl : ∀ s, R s s) (trans : ∀ s t u, R s t → R t u → R s u) {p : Pool σ ι}
    {s : σ} (hs : R s p.state) {es : List (Event κ ι)} (h : p.Undisturbed code R n es)
    (hstart : ∀ op, .start n op ∉ es) (hstop : .stop n ∉ es) :
    (p.running n).Linked R s (p.met code n es) ∧
      R ((p.running n).leaves s (p.met code n es)) (p.run code es).state := by
  induction es generalizing p s with
  | nil => cases hp : p.running n <;> exact ⟨trivial, hs⟩
  | cons e es ih =>
    obtain ⟨hstart₁, hstart'⟩ := forall_and.mp fun op => not_or.mp (mt List.mem_cons.mpr (hstart op))
    obtain ⟨hstop₁, hstop'⟩ := not_or.mp (mt List.mem_cons.mpr hstop)
    rw [run_cons]
    by_cases hown : ∃ i, e = .step n i
    · obtain ⟨i, rfl⟩ := hown
      simp only [met, if_true, List.singleton_append]
      cases hp : p.running n with
      | ret r =>
        have hexec : p.exec code (.step n i) = p := by simp [exec, hp]
        have hrest := ih (hexec ▸ hs) h.2 hstart' hstop'
        rw [hexec, hp] at hrest
        rw [hexec]
        refine ⟨trivial, ?_⟩
        cases hl : p.met code n es with
        | nil => simpa [hl, Proc.leaves] using hrest.2
        | cons x l => simpa [hl, Proc.leaves] using hrest.2
      | atom upd next =>
        have hstate : (p.exec code (.step n i)).state = upd p.state i := by simp [exec, hp]
        have hrun : (p.exec code (.step n i)).running n = next p.state i := by simp [exec, hp]
        have hrest := ih (s := upd p.state i) (hstate ▸ refl _) h.2 hstart' hstop'
        rw [hrun] at hrest
        exact ⟨⟨hs, hrest.1⟩, hrest.2⟩
    · have hne : ∀ i, e ≠ .step n i := fun i hi => hown ⟨i, hi⟩
      have hkeep : R p.state (p.exec code e).state := h.1.resolve_left hown
      have hrest := ih (trans _ _ _ hs hkeep) h.2 hstart' hstop'
      rw [exec_running code (fun op => Ne.symm (hstart₁ op)) (Ne.symm hstop₁) hne] at hrest
      rw [met_cons_of_ne code hne]
      exact hrest

/-- Each request of a number is one step of the run. -/
theorem mem_wrote_met {p : Pool σ ι} {es : List (Event κ ι)} (hstart : ∀ op, .start n op ∉ es)
    (hstop : .stop n ∉ es) {x : σ × σ} (hx : x ∈ (p.running n).wrote (p.met code n es)) :
    ∃ es₁ i es₂, es = es₁ ++ .step n i :: es₂ ∧ x.1 = (p.run code es₁).state ∧
      x.2 = (p.run code (es₁ ++ [.step n i])).state := by
  induction es generalizing p with
  | nil => simp [met] at hx
  | cons e es ih =>
    obtain ⟨hstart₁, hstart'⟩ := forall_and.mp fun op => not_or.mp (mt List.mem_cons.mpr (hstart op))
    obtain ⟨hstop₁, hstop'⟩ := not_or.mp (mt List.mem_cons.mpr hstop)
    have hlater : x ∈ ((p.exec code e).running n).wrote ((p.exec code e).met code n es) →
        ∃ es₁ i es₂, e :: es = es₁ ++ .step n i :: es₂ ∧ x.1 = (p.run code es₁).state ∧
          x.2 = (p.run code (es₁ ++ [.step n i])).state := by
      intro hx
      obtain ⟨es₁, i, es₂, rfl, h₁, h₂⟩ := ih hstart' hstop' hx
      exact ⟨e :: es₁, i, es₂, rfl, h₁, h₂⟩
    by_cases hown : ∃ i, e = .step n i
    · obtain ⟨i, rfl⟩ := hown
      simp only [met, if_true, List.singleton_append] at hx
      cases hp : p.running n with
      | ret r => simp [hp] at hx
      | atom upd next =>
        have hstate : (p.exec code (.step n i)).state = upd p.state i := by simp [exec, hp]
        have hrun : (p.exec code (.step n i)).running n = next p.state i := by simp [exec, hp]
        rw [hp] at hx
        rcases List.mem_cons.mp hx with rfl | hx
        · exact ⟨[], i, es, rfl, rfl, hstate.symm⟩
        · exact hlater (hrun ▸ hx)
    · have hne : ∀ i, e ≠ .step n i := fun i hi => hown ⟨i, hi⟩
      rw [met_cons_of_ne code hne,
        ← exec_running code (fun op => Ne.symm (hstart₁ op)) (Ne.symm hstop₁) hne] at hx
      exact hlater hx

end Pool

namespace Discipline

variable {σ ι ε ρ α : Type} {D : Discipline σ} {n : ℕ} {G : σ → σ → Prop}

/-- **The rule for a program left alone**: along what it meets under its rely it keeps its
guarantee, and what is left of it is safe. -/
theorem Safe.followed {p : Proc σ ι ρ} {Q : ρ → σ → Prop} {s : σ} {l : List (σ × ι)}
    (h : D.Safe n p Q s) (hl : p.Linked (fun s t => D.rely n s t ∧ D.inv t) s l) :
    D.Safe n (p.follow l) Q (p.leaves s l) ∧ ∀ x ∈ p.wrote l, D.guar n x.1 x.2 := by
  induction l generalizing p s with
  | nil => cases p <;> exact ⟨h, by simp⟩
  | cons y l ih =>
    cases p with
    | ret r => exact ⟨h, by simp⟩
    | atom upd next =>
      obtain ⟨⟨hrely, hinv⟩, hrest⟩ := hl
      obtain ⟨hguar, hnext⟩ := h y.1 hrely hinv y.2
      obtain ⟨hsafe, hall⟩ := ih hnext hrest
      refine ⟨hsafe, fun x hx => ?_⟩
      rcases List.mem_cons.mp hx with rfl | hx
      · exact hguar
      · exact hall x hx

/-- What every request does keeps the guarantee, and leads along a preorder that nothing the
others do leaves. -/
theorem Safe.of_yields {R : σ → ι → σ → Prop} {P : ρ → Prop} (refl : ∀ s, G s s)
    (trans : ∀ s t u, G s t → G t u → G s u) (hrely : ∀ s t, D.rely n s t → G s t)
    (hR : ∀ s i t, R s i t → D.guar n s t ∧ G s t) {p : Proc σ ι ρ} (h : p.Yields R P) (s : σ) :
    D.Safe n p (fun a t => P a ∧ G s t) s := by
  suffices hall : ∀ r, G r s → D.Safe n p (fun a t => P a ∧ G r t) s from hall s (refl s)
  intro r hr
  induction p generalizing s with
  | ret a => exact ⟨h, hr⟩
  | atom upd next ih =>
    intro t hst _ i
    obtain ⟨hstep, hnext⟩ := h t i
    obtain ⟨hguar, hgo⟩ := hR _ _ _ hstep
    have hrt : G r t := trans _ _ _ hr (hrely _ _ hst)
    exact ⟨hguar, ih t i hnext _ (trans _ _ _ hrt hgo)⟩

/-! ## A pool in which some programs are only watched -/

variable {κ : Type} {code : ℕ → κ → Proc σ ι Unit} {p : Pool σ ι}

/-- In the run to come, each number runs a safe program, or the requests it is still to make
happen to keep its guarantee. -/
def Behaves (D : Discipline σ) (code : ℕ → κ → Proc σ ι Unit) (p : Pool σ ι)
    (es : List (Event κ ι)) : Prop :=
  D.inv p.state ∧ ∀ n, D.Safe n (p.running n) (fun _ _ => True) p.state ∨
    ∀ x ∈ (p.running n).wrote (p.met code n es), D.guar n x.1 x.2

/-- A pool that behaves does so after its first event. -/
theorem Behaves.exec {e : Event κ ι} {es : List (Event κ ι)} (h : D.Behaves code p (e :: es))
    (safe : ∀ n op, e = .start n op → ∀ s, D.inv s → D.Safe n (code n op) (fun _ _ => True) s)
    (hstop : ∀ n, e ≠ .stop n) (hC : D.cond p.state (p.exec code e).state) :
    D.Behaves code (p.exec code e) es := by
  obtain ⟨hinv, hruns⟩ := h
  cases e with
  | stop n => exact absurd rfl (hstop n)
  | start n op =>
    have hstate : (p.exec code (.start n op)).state = p.state := by
      simp only [Pool.exec]
      split <;> rfl
    refine ⟨hstate ▸ hinv, fun m => ?_⟩
    by_cases hnew : m = n ∧ p.running n = .ret ()
    · obtain ⟨rfl, hret⟩ := hnew
      left
      rw [hstate]
      simpa [Pool.exec, hret] using safe m op rfl p.state hinv
    · have hrun : (p.exec code (.start n op)).running m = p.running m := by
        simp only [Pool.exec]
        split
        · next hret =>
          have hm : m ≠ n := fun hm => hnew ⟨hm, hret⟩
          simp [Function.update_of_ne hm]
        · rfl
      rw [hrun, hstate]
      exact hruns m
  | step n i =>
    cases hp : p.running n with
    | ret r =>
      have hexec : p.exec code (.step n i) = p := by simp [Pool.exec, hp]
      rw [hexec]
      refine ⟨hinv, fun m => (hruns m).imp_right fun hw => ?_⟩
      by_cases hm : m = n
      · subst hm
        simp [hp]
      · have hother : ∀ j, (Event.step n i : Event κ ι) ≠ .step m j :=
          fun j hj => hm (Event.step.inj hj).1.symm
        have hmet : p.met code m (.step n i :: es) = (p.exec code (.step n i)).met code m es :=
          Pool.met_cons_of_ne code hother
        rw [hmet, hexec] at hw
        exact hw
    | atom upd next =>
      have hstate : (p.exec code (.step n i)).state = upd p.state i := by simp [Pool.exec, hp]
      have hown : (p.exec code (.step n i)).running n = next p.state i := by simp [Pool.exec, hp]
      have hmet : p.met code n (.step n i :: es) =
          (p.state, i) :: (p.exec code (.step n i)).met code n es := by simp [Pool.met]
      -- the request keeps the guarantee, because the program is safe or because it happens to
      have hstep : D.guar n p.state (upd p.state i) ∧
          (D.Safe n (next p.state i) (fun _ _ => True) (upd p.state i) ∨
            ∀ x ∈ (next p.state i).wrote ((p.exec code (.step n i)).met code n es),
              D.guar n x.1 x.2) := by
        rcases hruns n with hsafe | hw
        · rw [hp] at hsafe
          obtain ⟨hguar, hnext⟩ := hsafe p.state (D.rely_refl n _) hinv i
          exact ⟨hguar, .inl hnext⟩
        · rw [hp, hmet] at hw
          exact ⟨hw _ (List.mem_cons_self ..), .inr fun x hx => hw x (List.mem_cons_of_mem _ hx)⟩
      rw [hstate] at hC
      refine ⟨hstate ▸ D.keep n _ _ hinv hstep.1 hC, fun m => ?_⟩
      by_cases hm : m = n
      · subst hm
        rw [hown, hstate]
        exact hstep.2
      · have hrun : (p.exec code (.step n i)).running m = p.running m := by
          simp [Pool.exec, hp, Function.update_of_ne hm]
        have hother : ∀ j, (Event.step n i : Event κ ι) ≠ .step m j :=
          fun j hj => hm (Event.step.inj hj).1.symm
        rw [hrun, hstate]
        refine (hruns m).imp (fun hsafe => ?_) fun hw => ?_
        · exact hsafe.rely (D.guar_rely n m _ _ (Ne.symm hm) hinv hstep.1 hC)
        · rw [Pool.met_cons_of_ne code hother] at hw
          exact hw

/-- **The rule for a pool with watched programs**: what behaves in a run behaves in the rest of it,
and so keeps the invariant throughout. -/
theorem Behaves.run {es fs : List (Event κ ι)} (h : D.Behaves code p (es ++ fs))
    (safe : ∀ n op, .start n op ∈ es → ∀ s, D.inv s → D.Safe n (code n op) (fun _ _ => True) s)
    (hstop : ∀ n, .stop n ∉ es) (hC : p.Steps code D.cond es) :
    D.Behaves code (p.run code es) fs := by
  induction es generalizing p with
  | nil => exact h
  | cons e es ih =>
    have hfirst : D.Behaves code (p.exec code e) (es ++ fs) := by
      refine h.exec (fun n op he => ?_) (fun n he => ?_) hC.1
      · exact safe n op (he ▸ List.mem_cons_self ..)
      · exact hstop n (he ▸ List.mem_cons_self ..)
    exact ih hfirst (fun n op he => safe n op (List.mem_cons_of_mem _ he))
      (fun n hn => hstop n (List.mem_cons_of_mem _ hn)) hC.2

end Discipline

end Mailman.Library
