import Mailman.Model.Dispatcher

/-!
# The life of one pack

What the cloud owes to one pack, without the table, the queue or the number of instances
that run: its status, which dispatcher holds the claim, how often it was POSTed, what the
provider answered and whether the finalizing write landed. `LifeStep n` is everything that
one request of dispatcher `n`, or of anything else that runs under that number, may do to
it. `Analysis.DispatcherSafe` shows that every request of the code is such a step.
-/

set_option autoImplicit false

namespace Mailman.Interface

open Mailman.Model

/-- The provider took the mail: an answer below 400. -/
def Accepted : HttpAnswer → Prop
  | .raised _ => False
  | .response code _ => code < 400

/-- The provider refused the mail for good: an answer from 400 up to 499. Every other answer
leaves it possible that the mail went out. -/
def Rejected : HttpAnswer → Prop
  | .raised _ => False
  | .response code _ => 400 ≤ code ∧ code < 500

/-- One pack, seen from outside. -/
structure Life where
  status : Option PackStatus
  owner : Option ℕ
  posts : ℕ
  answers : List HttpAnswer
  landed : ℕ

/-- The statuses that let the operator mail the recipient again. -/
def Dead (st : PackStatus) : Prop := st = .failed ∨ st = .stuckNoKey ∨ st = .cancelled

namespace Life

/-- A dispatcher has claimed the pack and may still be at work on it. -/
def Active (l : Life) : Prop := l.status = some .claimed ∨ l.status = some .unknown

/-- The finalizing write that `st` may be the status of: of a pack that was never POSTed, or
of the one answer there is. -/
def Finalizes (l : Life) (st : PackStatus) : Prop :=
  (l.posts = 0 ∧ l.answers = [] ∧ st = .failed) ∨
  ∃ a m f, l.posts = 1 ∧ l.answers = [a] ∧ readAnswer a = some (st, m, f)

/-- What the history of a pack always satisfies. -/
structure Ok (l : Life) : Prop where
  posts_le : l.posts ≤ 1
  answers_le : l.answers.length ≤ l.posts
  fresh : l.owner = none → l.posts = 0 ∧ l.landed = 0
  unclaimed : l.status = none ∨ l.status = some .pending ∨ l.status = some .cancelled →
    l.owner = none
  stuck : l.status = some .stuckNoKey → l.posts = 0
  failed : l.status = some .failed → ∀ a ∈ l.answers, Rejected a
  landed : l.landed ≠ 0 → ∃ st, l.status = some st ∧ l.Finalizes st

end Life

/-- Everything one request under number `n` may do to a pack. -/
inductive LifeStep (n : ℕ) (mayStore : Prop) : Life → Life → Prop where
  | stay (l) : LifeStep n mayStore l l
  | put (l) (h : l.status = none) (hm : mayStore) :
      LifeStep n mayStore l { l with status := some .pending }
  | claim (l) (h : l.status = some .pending) :
      LifeStep n mayStore l { l with status := some .claimed, owner := some n }
  | cancel (l) (h : l.status = some .pending) :
      LifeStep n mayStore l { l with status := some .cancelled }
  | expire (l) (h : l.status = some .claimed) :
      LifeStep n mayStore l { l with status := some .unknown }
  | post (l) (ho : l.owner = some n) (ha : l.Active) (hp : l.posts = 0) (hl : l.landed = 0) :
      LifeStep n mayStore l { l with posts := 1 }
  | answer (l) (a) (ho : l.owner = some n) (ha : l.Active) (hp : l.posts = 1)
      (hn : l.answers = []) (hl : l.landed = 0) : LifeStep n mayStore l { l with answers := [a] }
  | giveUp (l) (st) (ho : l.owner = some n) (ha : l.Active) (hp : l.posts = 0)
      (hl : l.landed = 0) (hs : st = .stuckNoKey ∨ st = .failed) :
      LifeStep n mayStore l { l with status := some st }
  | finalize (l) (st) (ho : l.owner = some n) (ha : l.Active) (hl : l.landed = 0)
      (hf : l.Finalizes st) : LifeStep n mayStore l { l with status := some st, landed := 1 }

/-- What dispatcher `n` may rely on for a pack whose claim it holds: nobody but the stale
claim sweep touches it. -/
def LifeRely (n : ℕ) (l l' : Life) : Prop :=
  l.owner = some n → l' = l ∨ (l.status = some .claimed ∧ l' = { l with status := some .unknown })

/-- How two moments of one pack's life are related. -/
structure LifeLater (l l' : Life) : Prop where
  stored : l.status ≠ none → l'.status ≠ none
  not_pending : l.status ≠ none → l.status ≠ some .pending → l'.status ≠ some .pending
  dead : ∀ st, Dead st → l.status = some st → l' = l
  sent : l.status = some .sent → l'.status = some .sent
  posts : l.posts ≤ l'.posts

/-- What an answer makes of a pack. -/
theorem readAnswer_status {a : HttpAnswer} {st : PackStatus} {m f : Option String}
    (h : readAnswer a = some (st, m, f)) : st = .unknown ∨ st = .failed ∨ st = .sent := by
  unfold readAnswer at h
  split at h
  · simp_all
  · split at h
    · simp_all
    · split at h
      · simp at h
      · split at h <;> simp_all
      · split at h <;> simp_all

/-- Only an answer from 400 up to 499 is reported as failed. -/
theorem rejected_of_readAnswer_failed {a : HttpAnswer} {m f : Option String}
    (h : readAnswer a = some (.failed, m, f)) : Rejected a := by
  unfold readAnswer at h
  split at h
  · simp at h
  · split at h
    · simp at h
    · next code body hcode =>
      split at h
      · simp at h
      · split at h
        · next hlow => exact ⟨hlow, by omega⟩
        · simp at h
      · split at h
        · next hlow => exact ⟨hlow, by omega⟩
        · simp at h

/-- An answer below 400 is reported as sent, if it is reported at all. -/
theorem readAnswer_of_accepted {a : HttpAnswer} {st : PackStatus} {m f : Option String}
    (ha : Accepted a) (h : readAnswer a = some (st, m, f)) : st = .sent := by
  cases a with
  | raised e => exact ha.elim
  | response code body =>
    have hcode : code < 400 := ha
    simp only [readAnswer, show ¬ 500 ≤ code by omega, if_false] at h
    cases body <;> simp_all [show ¬ 400 ≤ code by omega]

/-- What a life may end in. -/
theorem Life.Finalizes.status {l : Life} {st : PackStatus} (h : l.Finalizes st) :
    st = .unknown ∨ st = .failed ∨ st = .sent := by
  rcases h with ⟨-, -, rfl⟩ | ⟨a, m, f, -, -, h⟩
  · simp
  · exact readAnswer_status h

/-- A pack nobody stored yet has no history. -/
theorem Life.ok_none : Life.Ok ⟨none, none, 0, [], 0⟩ := by
  constructor <;> simp

/-- Every step keeps the history well formed. -/
theorem LifeStep.ok {n : ℕ} {mayStore : Prop} {l l' : Life} (h : LifeStep n mayStore l l')
    (hl : l.Ok) : l'.Ok := by
  have hnotActive : l.Active → l.owner ≠ none → ¬ (l.status = none ∨ l.status = some .pending ∨
      l.status = some .cancelled) := by
    intro _ ho hs
    exact ho (hl.unclaimed hs)
  cases h with
  | stay => exact hl
  | put hs =>
    have ho := hl.unclaimed (.inl hs)
    obtain ⟨hp, hz⟩ := hl.fresh ho
    exact ⟨hl.posts_le, hl.answers_le, hl.fresh, fun _ => ho, by simp, by simp,
      fun h => absurd hz h⟩
  | claim hs =>
    have ho := hl.unclaimed (.inr (.inl hs))
    obtain ⟨hp, hz⟩ := hl.fresh ho
    exact ⟨hl.posts_le, hl.answers_le, by simp, by simp, by simp, by simp,
      fun h => absurd hz h⟩
  | cancel hs =>
    have ho := hl.unclaimed (.inr (.inl hs))
    obtain ⟨hp, hz⟩ := hl.fresh ho
    exact ⟨hl.posts_le, hl.answers_le, hl.fresh, fun _ => ho, by simp, by simp,
      fun h => absurd hz h⟩
  | expire hs =>
    refine ⟨hl.posts_le, hl.answers_le, hl.fresh, by simp, by simp, by simp, fun h => ?_⟩
    -- a landed pack is never still claimed
    obtain ⟨st, hst, hf⟩ := hl.landed h
    rw [hs] at hst
    cases hst
    exact absurd hf.status (by simp)
  | post ho ha hp hz =>
    have hans : l.answers = [] := List.eq_nil_of_length_eq_zero (by have := hl.answers_le; omega)
    refine ⟨Nat.le_refl 1, by simp [hans], by simp [ho], hl.unclaimed, fun h => ?_, hl.failed,
      fun h => absurd hz h⟩
    rcases ha with ha | ha <;> simp [ha] at h
  | answer a ho ha hp hn hz =>
    refine ⟨hl.posts_le, by simp [hp], hl.fresh, hl.unclaimed, hl.stuck, fun h => ?_,
      fun h => absurd hz h⟩
    rcases ha with ha | ha <;> simp [ha] at h
  | giveUp st ho ha hp hz hs =>
    have hans : l.answers = [] := List.eq_nil_of_length_eq_zero (by have := hl.answers_le; omega)
    refine ⟨hl.posts_le, hl.answers_le, hl.fresh, fun h => ?_, fun _ => hp, fun _ => by simp [hans],
      fun h => absurd hz h⟩
    rcases hs with rfl | rfl <;> simp at h
  | finalize st ho ha hz hf =>
    refine ⟨hl.posts_le, hl.answers_le, by simp [ho], fun h => ?_, fun h => ?_, fun h => ?_,
      fun _ => ⟨st, rfl, hf⟩⟩
    · rcases hf.status with rfl | rfl | rfl <;> simp at h
    · rcases hf.status with rfl | rfl | rfl <;> simp at h
    · cases h
      rcases hf with ⟨-, hans, -⟩ | ⟨a, m, f, -, hans, hr⟩
      · simp [hans]
      · simpa [hans] using rejected_of_readAnswer_failed hr

/-- Every step leaves the claims of the others alone, up to the stale claim sweep. -/
theorem LifeStep.rely {m n : ℕ} {mayStore : Prop} {l l' : Life} (h : LifeStep m mayStore l l')
    (hl : l.Ok) (hmn : m ≠ n) :
    LifeRely n l l' := by
  intro ho
  have hne : l.owner ≠ some m := by rw [ho]; simp [Ne.symm hmn]
  cases h with
  | stay => exact .inl rfl
  | put hs => rw [hl.unclaimed (.inl hs)] at ho; cases ho
  | claim hs => rw [hl.unclaimed (.inr (.inl hs))] at ho; cases ho
  | cancel hs => rw [hl.unclaimed (.inr (.inl hs))] at ho; cases ho
  | expire hs => exact .inr ⟨hs, rfl⟩
  | post ho' | answer _ ho' | giveUp _ ho' | finalize _ ho' => exact absurd ho' hne

/-- A life goes on as it is. -/
theorem LifeRely.refl (n : ℕ) (l : Life) : LifeRely n l l := fun _ => .inl rfl

/-- Going on is transitive. -/
theorem LifeRely.trans {n : ℕ} {l l' l'' : Life} (h : LifeRely n l l') (h' : LifeRely n l' l'') :
    LifeRely n l l'' := by
  intro ho
  rcases h ho with rfl | ⟨hs, rfl⟩
  · exact h' ho
  · rcases h' ho with rfl | ⟨hs', rfl⟩
    · exact .inr ⟨hs, rfl⟩
    · cases hs'

/-- A life follows itself. -/
theorem LifeLater.refl (l : Life) : LifeLater l l :=
  ⟨id, fun _ h => h, fun _ _ _ => rfl, id, Nat.le_refl _⟩

/-- Later in a life is transitive. -/
theorem LifeLater.trans {l l' l'' : Life} (h : LifeLater l l') (h' : LifeLater l' l'') :
    LifeLater l l'' where
  stored hs := h'.stored (h.stored hs)
  not_pending hs hp := h'.not_pending (h.stored hs) (h.not_pending hs hp)
  dead st hd hs := by
    have heq := h.dead st hd hs
    subst heq
    exact h'.dead st hd hs
  sent hs := h'.sent (h.sent hs)
  posts := Nat.le_trans h.posts h'.posts

/-- Every step moves the pack forward: nothing is unstored, nothing becomes pending again,
and a dead or sent pack stays as it is. -/
theorem LifeStep.later {n : ℕ} {mayStore : Prop} {l l' : Life} (h : LifeStep n mayStore l l') :
    LifeLater l l' := by
  have hactive : l.Active → ∀ st, Dead st → l.status = some st → False := by
    rintro (ha | ha) st (rfl | rfl | rfl) hs <;> simp [ha] at hs
  have hsent : l.Active → l.status = some .sent → False := by
    rintro (ha | ha) hs <;> simp [ha] at hs
  cases h with
  | stay => exact .refl _
  | put hs => constructor <;> simp [hs]
  | claim hs | cancel hs =>
    constructor <;> simp [hs]
    rintro st (rfl | rfl | rfl) h <;> cases h
  | expire hs =>
    constructor <;> simp [hs]
    rintro st (rfl | rfl | rfl) h <;> cases h
  | post ho ha hp =>
    exact ⟨id, fun _ h => h, fun st hd hs => (hactive ha st hd hs).elim, id, by simp [hp]⟩
  | answer a ho ha =>
    exact ⟨id, fun _ h => h, fun st hd hs => (hactive ha st hd hs).elim, id, Nat.le_refl _⟩
  | giveUp st ho ha hp hz hs =>
    refine ⟨by simp, fun _ _ => ?_, fun st' hd hs' => (hactive ha st' hd hs').elim,
      fun h => (hsent ha h).elim, Nat.le_refl _⟩
    rcases hs with rfl | rfl <;> simp
  | finalize st ho ha hz hf =>
    refine ⟨by simp, fun _ _ => ?_, fun st' hd hs' => (hactive ha st' hd hs').elim,
      fun h => (hsent ha h).elim, Nat.le_refl _⟩
    rcases hf.status with rfl | rfl | rfl <;> simp

/-- A request may do what it may do where less may be stored. -/
theorem LifeStep.mono {n : ℕ} {m m' : Prop} {l l' : Life} (h : LifeStep n m l l')
    (hm : m → m') : LifeStep n m' l l' := by
  cases h with
  | stay => exact .stay _
  | put hs hstore => exact .put _ hs (hm hstore)
  | claim hs => exact .claim _ hs
  | cancel hs => exact .cancel _ hs
  | expire hs => exact .expire _ hs
  | post ho ha hp hl => exact .post _ ho ha hp hl
  | answer a ho ha hp hn hl => exact .answer _ a ho ha hp hn hl
  | giveUp st ho ha hp hl hs => exact .giveUp _ st ho ha hp hl hs
  | finalize st ho ha hl hf => exact .finalize _ st ho ha hl hf

/-- A request that may not store the pack does not. -/
theorem LifeStep.unstored {n : ℕ} {mayStore : Prop} {l l' : Life} (h : LifeStep n mayStore l l')
    (hm : ¬ mayStore) (hl : l.status = none) : l'.status = none := by
  have hactive : ¬ l.Active := by
    rintro (ha | ha) <;> simp [hl] at ha
  cases h with
  | stay => exact hl
  | put _ hm' => exact absurd hm' hm
  | claim hs | cancel hs | expire hs => rw [hl] at hs; cases hs
  | post | answer => exact hl
  | giveUp _ _ ha | finalize _ _ ha => exact absurd ha hactive

end Mailman.Interface
