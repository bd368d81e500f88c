import Mailman.Model.Inbox

/-!
# What webhook events say about one recipient

The status and the three marks of a recipient as a function of the webhook events of the
message, in the order they are applied. A bounce or a complaint is final for everything but
another bounce or complaint: `Engagement.step` is that rule, and the theorems below say what
a whole list of events leaves, whatever their order.
-/

set_option autoImplicit false

namespace Mailman.Interface

open Mailman.Model

/-- The status of a recipient, and which of the three marks are set. -/
structure Engagement where
  status : RecipientStatus
  clicked : Bool
  bounced : Bool
  complained : Bool
  deriving DecidableEq, Repr

/-- What a recipient row says. -/
def engagement (r : Recipient) : Engagement where
  status := r.status
  clicked := r.clickedAt.isSome
  bounced := r.bouncedAt.isSome
  complained := r.complainedAt.isSome

/-- Bounces and complaints. -/
def failure (t : WebhookType) : Bool := t = .bounced || t = .complained

/-- The status a bounce or a complaint leaves. -/
def failureStatus (t : WebhookType) : RecipientStatus :=
  if t = .bounced then .bounced else .complained

namespace Engagement

/-- A bounced or complained recipient. -/
def Failed (st : RecipientStatus) : Prop := st = .bounced ∨ st = .complained

instance (st : RecipientStatus) : Decidable (Failed st) := inferInstanceAs (Decidable (_ ∨ _))

/-- One event. -/
def step (e : Engagement) (t : WebhookType) : Engagement :=
  match t with
  | .bounced => { e with status := .bounced, bounced := true }
  | .complained => { e with status := .complained, complained := true }
  | .clicked => if Failed e.status then e else { e with status := .clicked, clicked := true }
  | _ => e

/-- The status after a list of events: that of the last bounce or complaint, if there is one;
else clicked after a click, unless the recipient had failed before. -/
def statusAfter (st : RecipientStatus) (ts : List WebhookType) : RecipientStatus :=
  match (ts.filter failure).getLast? with
  | some t => failureStatus t
  | none =>
    if .clicked ∈ ts ∧ ¬ Failed st then .clicked else st

/-- A bounce is known after any of the events was one. -/
theorem foldl_step_bounced (e : Engagement) (ts : List WebhookType) :
    (ts.foldl step e).bounced = true ↔ e.bounced = true ∨ .bounced ∈ ts := by
  induction ts generalizing e with
  | nil => simp
  | cons t ts ih =>
    rw [List.foldl_cons, ih, List.mem_cons]
    cases t <;> simp [step]
    split <;> rfl

/-- A complaint is known after any of the events was one. -/
theorem foldl_step_complained (e : Engagement) (ts : List WebhookType) :
    (ts.foldl step e).complained = true ↔ e.complained = true ∨ .complained ∈ ts := by
  induction ts generalizing e with
  | nil => simp
  | cons t ts ih =>
    rw [List.foldl_cons, ih, List.mem_cons]
    cases t <;> simp [step]
    split <;> rfl

/-- After a bounce or a complaint no click is marked any more. -/
theorem foldl_step_clicked_of_failed {e : Engagement} (h : Failed e.status) (ts : List WebhookType) :
    (ts.foldl step e).clicked = e.clicked := by
  induction ts generalizing e with
  | nil => rfl
  | cons t ts ih =>
    have hstep : Failed (e.step t).status ∧ (e.step t).clicked = e.clicked := by
      cases t with
      | bounced => exact ⟨.inl rfl, rfl⟩
      | complained => exact ⟨.inr rfl, rfl⟩
      | clicked => simp [step, h]
      | _ => exact ⟨h, rfl⟩
    rw [List.foldl_cons, ih hstep.1, hstep.2]

/-- A click is marked when it comes before every bounce and complaint. -/
theorem foldl_step_clicked {e : Engagement} (h : ¬ Failed e.status) (ts : List WebhookType) :
    (ts.foldl step e).clicked = true ↔
      e.clicked = true ∨ .clicked ∈ ts.takeWhile fun t => !failure t := by
  induction ts generalizing e with
  | nil => simp
  | cons t ts ih =>
    rw [List.foldl_cons]
    by_cases hf : failure t = true
    · have hfailed : Failed (e.step t).status ∧ (e.step t).clicked = e.clicked := by
        cases t <;> simp [failure] at hf <;> simp [step, Failed]
      rw [foldl_step_clicked_of_failed hfailed.1, hfailed.2]
      simp [hf]
    · have hstep : ¬ Failed (e.step t).status := by
        cases t <;> simp [failure] at hf <;> simp [step, h]
        simp [Failed]
      rw [ih hstep, List.takeWhile_cons]
      cases t <;> simp [failure] at hf <;> simp [step, h, failure]

/-- The status after a list of events. -/
theorem foldl_step_status (e : Engagement) (ts : List WebhookType) :
    (ts.foldl step e).status = statusAfter e.status ts := by
  induction ts generalizing e with
  | nil => simp [statusAfter]
  | cons t ts ih =>
    rw [List.foldl_cons, ih]
    unfold statusAfter
    by_cases hf : failure t = true
    · have hfailed : Failed (e.step t).status ∧ (e.step t).status = failureStatus t := by
        cases t <;> simp [failure] at hf <;> simp [step, Failed, failureStatus]
      rw [List.filter_cons_of_pos hf, List.getLast?_cons]
      cases (ts.filter failure).getLast? <;> simp [hfailed.1, hfailed.2.symm]
    · rw [List.filter_cons_of_neg hf]
      cases (ts.filter failure).getLast? with
      | some t' => rfl
      | none =>
        by_cases he : Failed e.status
        · cases t <;> simp [failure] at hf <;> simp [step, he]
        · cases t <;> simp [failure] at hf <;> simp [step, he]

end Engagement

end Mailman.Interface
