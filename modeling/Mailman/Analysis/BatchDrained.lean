import Mailman.Model.BatchHandler

/-!
# A batch is drained once, in order

Each call of `_process` is recorded with its outcome, in a log of the program that makes it, which
no other program touches (`callDiscipline`). Both loops move one index, and each step of them looks
at the record there: a record that names a pack gets the one call of it, any other is counted as
failed. So a batch is always `InStep`: the calls so far are those of the first `i` records, in
order, none of them has raised, and the counters are theirs. The theorem is about every result a
call of `handler` can have, whatever `_process` does and whatever happens on the table in between.
-/

set_option autoImplicit false

namespace Mailman.Analysis

open Mailman.Library Mailman.Model

variable {Id σ ι : Type}

/-! ## The calls of a program -/

/-- The calls of `_process` that each program has made, with their outcomes, beside the table. -/
abbrev Calls (Id σ : Type) := σ × (ℕ → List (Id × Processed))

/-- `_process`, called by program `n` and recorded when it has returned or raised. -/
def recorded (n : ℕ) (process : Id → Proc σ ι Processed) (id : Id) :
    Proc (Calls Id σ) ι Processed := do
  let out ← (process id).zoom Prod.fst (fun _ i => i) fun t _ s => (s, t.2)
  Proc.modify fun t _ => (t.1, Function.update t.2 n (t.2 n ++ [(id, out)]))
  pure out

/-- A program writes to no log but its own. -/
def callDiscipline (Id σ : Type) : Discipline (Calls Id σ) where
  inv _ := True
  rely n s t := t.2 n = s.2 n
  guar m s t := ∀ n, n ≠ m → t.2 n = s.2 n
  rely_refl _ _ := rfl
  rely_trans _ _ _ _ h h' := h'.trans h
  guar_rely _ n _ _ hmn _ h _ := h n (Ne.symm hmn)
  keep _ _ _ _ _ _ := trivial

variable {α β : Type} {n : ℕ} {Q : β → Calls Id σ → Prop} {s : Calls Id σ}

/-- A program that runs on the table alone leaves the log as it is. -/
theorem safe_unrecorded {p : Proc σ ι α} {k : α → Proc (Calls Id σ) ι β}
    (h : ∀ t a, t.2 n = s.2 n → (callDiscipline Id σ).Safe n (k a) Q t) :
    (callDiscipline Id σ).Safe n
      ((p.zoom Prod.fst (fun _ i => i) fun t _ u => (u, t.2)).bind k) Q s := by
  induction p generalizing s with
  | ret a => exact h s a rfl
  | atom upd next ih =>
    intro t hrely _ i
    refine ⟨fun _ _ => rfl, ih t.1 i fun u a hu => h u a ?_⟩
    rw [hu]
    exact hrely

/-- A recorded call adds itself to the log, with the outcome it returns. -/
theorem safe_recorded {process : Id → Proc σ ι Processed} {id : Id}
    {k : Processed → Proc (Calls Id σ) ι β}
    (h : ∀ t out, t.2 n = s.2 n ++ [(id, out)] → (callDiscipline Id σ).Safe n (k out) Q t) :
    (callDiscipline Id σ).Safe n ((recorded n process id).bind k) Q s := by
  unfold recorded
  rw [Proc.bind_eq, Proc.bind_assoc]
  refine safe_unrecorded fun t out ht => ?_
  intro u hu _ i
  refine ⟨fun m hm => Function.update_of_ne hm .., h _ out ?_⟩
  change Function.update u.2 n (u.2 n ++ [(id, out)]) n = _
  rw [Function.update_self, show u.2 n = t.2 n from hu, ht]

/-! ## Where a batch stands -/

variable {process : Id → Proc σ ι Processed} {records : List (SqsRecord Id)} {b : Batch}
  {calls : List (Id × Processed)}

/-- The pack a record names. -/
def namedPack : SqsRecord Id → Option Id
  | .pack id => some id
  | _ => none

/-- A record with a pack id names it. -/
@[simp] theorem namedPack_pack (id : Id) : namedPack (.pack id) = some id := rfl

/-- A record whose body cannot be read names no pack. -/
@[simp] theorem namedPack_badBody : namedPack (.badBody : SqsRecord Id) = none := rfl

/-- A record that is no object names no pack. -/
@[simp] theorem namedPack_notObject : namedPack (.notObject : SqsRecord Id) = none := rfl

/-- The packs that the records name, in order. -/
def packIds (records : List (SqsRecord Id)) : List Id := records.filterMap namedPack

/-- The sum of the counters. -/
def BatchResults.total (r : BatchResults) : ℕ := r.processed + r.skipped + r.failed

/-- The counters for some records and the calls that were made for them. -/
def countersOf (records : List (SqsRecord Id)) (calls : List (Id × Processed)) : BatchResults where
  processed := calls.countP (·.2 ≠ .skipped)
  skipped := calls.countP (·.2 = .skipped)
  failed := records.countP fun r => (namedPack r).isNone

/-- The records before the index are looked at, each once and in order: the calls are theirs, none
has raised, and the counters say so. -/
structure InStep (records : List (SqsRecord Id)) (calls : List (Id × Processed)) (b : Batch) :
    Prop where
  le : b.i ≤ records.length
  examined : b.examined = List.range b.i
  called : calls.map Prod.fst = packIds (records.take b.i)
  returned : ∀ call ∈ calls, call.2 ≠ .raised
  counted : b.results = countersOf (records.take b.i) calls

/-- The records up to the one at the index are looked at, and that one raised: it is no object, or
its call, the last one, raised. -/
structure StoppedAt (records : List (SqsRecord Id)) (calls : List (Id × Processed)) (b : Batch) :
    Prop where
  examined : b.examined = List.range (b.i + 1)
  called : calls.map Prod.fst = packIds (records.take (b.i + 1))
  raised : (records[b.i]? = some .notObject ∧ ∀ call ∈ calls, call.2 ≠ .raised) ∨
    ∃ id before, records[b.i]? = some (.pack id) ∧ calls = before ++ [(id, .raised)] ∧
      ∀ call ∈ before, call.2 ≠ .raised

/-- How a call may end. -/
def Drained (records : List (SqsRecord Id)) (calls : List (Id × Processed)) : HandlerEnd → Prop
  | .done b =>
    b.examined = List.range records.length ∧ calls.map Prod.fst = packIds records ∧
      (∀ call ∈ calls, call.2 ≠ .raised) ∧ b.results = countersOf records calls ∧
      BatchResults.total b.results = records.length
  | .raised b => StoppedAt records calls b
  | .exhausted => False

/-- Each record is counted once: by its call, or as failed. -/
theorem total_countersOf (records : List (SqsRecord Id)) (calls : List (Id × Processed))
    (h : calls.map Prod.fst = packIds records) :
    BatchResults.total (countersOf records calls) = records.length := by
  have hcalls : calls.countP (·.2 ≠ .skipped) + calls.countP (·.2 = .skipped) = calls.length := by
    rw [List.length_eq_countP_add_countP (fun call => decide (call.2 = .skipped)), Nat.add_comm]
    simp
  have hlen : calls.length = (packIds records).length := by
    rw [← h, List.length_map]
  have hnamed : (packIds records).length + records.countP (fun r => (namedPack r).isNone) = records.length := by
    unfold packIds
    clear h hlen
    induction records with
    | nil => rfl
    | cons r records ih =>
      rw [List.filterMap_cons, List.countP_cons, List.length_cons]
      cases r <;> simp <;> omega
  unfold BatchResults.total countersOf
  dsimp only
  omega

/-- The end of a batch that goes through. -/
theorem InStep.done (h : InStep records calls b) (hi : records.length ≤ b.i) :
    Drained records calls (.done b) := by
  have hall : records.take b.i = records := List.take_of_length_le hi
  have heq : b.i = records.length := Nat.le_antisymm h.le hi
  have hcalled := h.called
  have hcounted := h.counted
  rw [hall] at hcalled hcounted
  refine ⟨heq ▸ h.examined, hcalled, h.returned, hcounted, ?_⟩
  rw [hcounted]
  exact total_countersOf records calls hcalled

/-- The records up to the index and the one there. -/
theorem take_next {r : SqsRecord Id} (hr : records[b.i]? = some r) :
    records.take (b.i + 1) = records.take b.i ++ [r] := by
  rw [List.take_add_one, hr, Option.toList_some]

/-- A record that names no pack is counted as failed. -/
theorem InStep.fail (h : InStep records calls b) {r : SqsRecord Id} (hr : records[b.i]? = some r)
    (hnone : namedPack r = none) : InStep records calls (b.count .fail) where
  le := (List.getElem?_eq_some_iff.mp hr).1
  examined := by
    change b.examined ++ [b.i] = List.range (b.i + 1)
    rw [h.examined, List.range_succ]
  called := by
    change calls.map Prod.fst = packIds (records.take (b.i + 1))
    rw [take_next hr, h.called]
    simp [packIds, hnone]
  returned := h.returned
  counted := by
    change b.results.fail = countersOf (records.take (b.i + 1)) calls
    rw [take_next hr, h.counted]
    simp [BatchResults.fail, countersOf, hnone]

/-- A record that names a pack gets its call, whose outcome is counted. -/
theorem InStep.call (h : InStep records calls b) {id : Id} (hr : records[b.i]? = some (.pack id))
    {out : Processed} (hout : out ≠ .raised) :
    InStep records (calls ++ [(id, out)]) (b.count out.bump) where
  le := (List.getElem?_eq_some_iff.mp hr).1
  examined := by
    change b.examined ++ [b.i] = List.range (b.i + 1)
    rw [h.examined, List.range_succ]
  called := by
    change (calls ++ [(id, out)]).map Prod.fst = packIds (records.take (b.i + 1))
    rw [take_next hr, List.map_append, h.called]
    simp [packIds]
  returned call hcall := by
    rcases List.mem_append.mp hcall with hcall | hcall
    · exact h.returned call hcall
    · rw [List.mem_singleton.mp hcall]
      exact hout
  counted := by
    change out.bump b.results = countersOf (records.take (b.i + 1)) (calls ++ [(id, out)])
    rw [take_next hr, h.counted]
    cases out with
    | skipped => simp [Processed.bump, countersOf]
    | processed n => simp [Processed.bump, countersOf]
    | raised => exact absurd rfl hout

/-- The record at the index is looked at when an exception ends the call. -/
theorem InStep.examine (h : InStep records calls b) :
    b.examine.examined = List.range (b.i + 1) := by
  change b.examined ++ [b.i] = List.range (b.i + 1)
  rw [h.examined, List.range_succ]

/-- The outer loop raises for a record that is no object. -/
theorem InStep.notObject (h : InStep records calls b) (hr : records[b.i]? = some .notObject) :
    StoppedAt records calls b.examine where
  examined := h.examine
  called := by
    change calls.map Prod.fst = packIds (records.take (b.i + 1))
    rw [take_next hr, h.called]
    simp [packIds]
  raised := .inl ⟨hr, h.returned⟩

/-- Both loops raise when a call does. -/
theorem InStep.raised (h : InStep records calls b) {id : Id}
    (hr : records[b.i]? = some (.pack id)) :
    StoppedAt records (calls ++ [(id, .raised)]) b.examine where
  examined := h.examine
  called := by
    change (calls ++ [(id, Processed.raised)]).map Prod.fst = packIds (records.take (b.i + 1))
    rw [take_next hr, List.map_append, h.called]
    simp [packIds]
  raised := .inr ⟨id, calls, hr, rfl, h.returned⟩

/-! ## The two loops -/

/-- The rest of a group goes on in step, as far as it gets. -/
theorem safe_drainGroup (k : ℕ) (h : InStep records calls b) {old : List (Id × Processed)}
    (hlog : s.2 n = old ++ calls) :
    (callDiscipline Id σ).Safe n (drainGroup (recorded n process) records k b)
      (fun (finished, u) t => ∃ calls', t.2 n = old ++ calls' ∧
        (finished = true → InStep records calls' u ∧ b.i ≤ u.i) ∧
        (finished = false → StoppedAt records calls' u)) s := by
  induction k generalizing b s calls with
  | zero =>
    exact ⟨calls, hlog, fun _ => ⟨h, Nat.le_refl _⟩, fun hne => absurd hne.symm Bool.false_ne_true⟩
  | succ k ih =>
    -- after the record at the index the group goes on with the next one
    have hnext : ∀ {t : Calls Id σ} {calls' : List (Id × Processed)}
        {bump : BatchResults → BatchResults}, InStep records calls' (b.count bump) →
        t.2 n = old ++ calls' →
        (callDiscipline Id σ).Safe n (drainGroup (recorded n process) records k (b.count bump))
          (fun (finished, u) t => ∃ calls', t.2 n = old ++ calls' ∧
            (finished = true → InStep records calls' u ∧ b.i ≤ u.i) ∧
            (finished = false → StoppedAt records calls' u)) t := by
      intro t calls' bump hstep ht
      refine (ih hstep ht).weaken fun (finished, u) v hv => ?_
      obtain ⟨calls'', hv, hfinished, hstopped⟩ := hv
      refine ⟨calls'', hv, fun hend => ?_, hstopped⟩
      obtain ⟨hin, hle⟩ := hfinished hend
      exact ⟨hin, Nat.le_trans (Nat.le_succ b.i) hle⟩
    simp only [drainGroup]
    cases hr : records[b.i]? with
    | none =>
      exact ⟨calls, hlog, fun _ => ⟨h, Nat.le_refl _⟩,
        fun hne => absurd hne.symm Bool.false_ne_true⟩
    | some r =>
      cases r with
      | notObject => exact hnext (h.fail hr rfl) hlog
      | badBody => exact hnext (h.fail hr rfl) hlog
      | pack id =>
        refine safe_recorded fun t out ht => ?_
        rw [hlog, List.append_assoc] at ht
        split
        · next hraised =>
          subst hraised
          exact ⟨_, ht, fun hne => absurd hne Bool.false_ne_true, fun _ => h.raised hr⟩
        · next hne => exact hnext (h.call hr hne) ht

/-- With fuel for the records that are left, the outer loop drains them. -/
theorem safe_drainBatch (fuel : ℕ) (h : InStep records calls b)
    (hfuel : records.length ≤ b.i + fuel) {old : List (Id × Processed)}
    (hlog : s.2 n = old ++ calls) :
    (callDiscipline Id σ).Safe n (drainBatch (recorded n process) records fuel b)
      (fun r t => ∃ calls', t.2 n = old ++ calls' ∧ Drained records calls' r) s := by
  induction fuel generalizing b s calls with
  | zero =>
    have hle : records.length ≤ b.i := hfuel
    simp only [drainBatch, if_pos hle, Proc.pure_eq]
    exact ⟨calls, hlog, h.done hle⟩
  | succ fuel ih =>
    simp only [drainBatch]
    cases hr : records[b.i]? with
    | none => exact ⟨calls, hlog, h.done (List.getElem?_eq_none_iff.mp hr)⟩
    | some r =>
      cases r with
      | notObject => exact ⟨calls, hlog, h.notObject hr⟩
      | badBody =>
        refine ih (h.fail hr rfl) ?_ hlog
        change records.length ≤ b.i + 1 + fuel
        omega
      | pack id =>
        refine safe_recorded fun t out ht => ?_
        rw [hlog, List.append_assoc] at ht
        split
        · next hraised =>
          subst hraised
          exact ⟨_, ht, h.raised hr⟩
        · next hne =>
          refine Discipline.Safe.bind ((safe_drainGroup _ (h.call hr hne) ht).weaken ?_)
          rintro ⟨finished, u⟩ v ⟨calls', hv, hfinished, hstopped⟩
          cases finished with
          | false => exact ⟨calls', hv, hstopped rfl⟩
          | true =>
            obtain ⟨hin, hle⟩ := hfinished rfl
            have hle' : b.i + 1 ≤ u.i := hle
            refine ih hin ?_ hv
            change records.length ≤ u.i + fuel
            omega

/-- However a call of `handler` ends, it has come to an end within its fuel. When it returns, it
has called `_process` for each record that names a pack, once and in the order of the list, no call
has raised, and the counters are those of the calls and of the other records and add up to the
number of records. When it raises, it has called `_process` for the records up to the one that
raised and for no other: that one is no object, or its call, the last, is the one that raised. -/
theorem batch_drained (process : Id → Proc σ ι Processed) (records : List (SqsRecord Id)) (n : ℕ)
    (s : Calls Id σ) :
    (callDiscipline Id σ).Safe n (handler (recorded n process) records)
      (fun r t => ∃ calls, t.2 n = s.2 n ++ calls ∧ Drained records calls r) s :=
  safe_drainBatch records.length ⟨Nat.zero_le _, rfl, rfl, fun _ h => absurd h List.not_mem_nil, rfl⟩
    (Nat.le_add_left _ _) (List.append_nil _).symm

end Mailman.Analysis
