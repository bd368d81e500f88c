import Mathlib.Algebra.Order.Ring.Int
import Mathlib.Data.List.Nodup
import Mathlib.Data.List.ReduceOption
import Mailman.Analysis.PushRetries
import Mailman.Analysis.UnsubLinks
import Mailman.Library.Checks
import Mailman.Model.BeforePush

/-!
# What the settings ask of a send

The schedule must answer for the recipients and the seeds of a batch, the From header must be
writable, and no variable may be left in a mail once the links of the public host stand in it
(`SendsOut`): the packs of a batch are built exactly then. The checks that a press makes before its
commits see none of the three. Each can be read off the settings: a zone that is known, hours of a
day and a window that ends before the year 9999 (`refusing_schedule`), a name without words or an
address of ASCII (`fromHeader_ok_iff`), and a host without braces (`linksFit_of_host`).
-/

set_option autoImplicit false

namespace Mailman.Analysis

open Mailman.Library Mailman.Library.Text Mailman.Model

/-! ## The conditions -/

/-- The schedule of the settings answers for so many sends. -/
def Schedules (x : PressInput) (n : ℕ) (sendAts : List ℤ) : Prop :=
  computeSendAts n x.startAfter x.zone x.startHour x.windowHours x.pace x.draws = .ok sendAts

/-- The From header can be written: the name has no word, or the address is ASCII. -/
def Writable (sender : Sender) : Prop :=
  (∀ c ∈ sender.emailFromName.toList, isSpace c = true) ∨ isAscii sender.emailFrom = true

/-- With the links of the public host in it, the mail of a row has no variable left. -/
def LinksFit (set : Settings) (ctx : SendCtx) (row : SendRow) (tokens : String × String) : Prop :=
  ∃ mail, render ctx.tmpl row ctx.companyName = some mail ∧
    assertSendable (linkedMail (ctx.mailCtx set) mail (unsubLink ctx.publicHost tokens.1)
      (erasureLink ctx.publicHost tokens.2)) = .ok ()

/-- The mails of these rows can be built, in this order. -/
def Buildable (x : PressInput) (set : Settings) (ctx : SendCtx) (rows : List SendRow) : Prop :=
  ∀ n row, rows[n]? = some row → Writable ctx.sender ∧ LinksFit set ctx row (x.tokens n)

/-- There are times for these sends and the seeds, and each mail that gets one can be built. -/
def SendsOut (x : PressInput) (set : Settings) (ctx : SendCtx) (sends : List (Candidate × SendId))
    (seeds : List String) : Prop :=
  ∃ sendAts, Schedules x (sends.length + seeds.length) sendAts ∧
    Buildable x set ctx ((batchTargets sends seeds (sendAts.map Int.toNat)).map (·.row))

/-! ## The sender -/

section sender

variable {x : PressInput} {sender : Sender}

/-- A text has no words exactly when all of it is blank. -/
theorem no_words_iff (p : Char → Bool) (l : List Char) :
    (l.splitOnP p).filter (· ≠ []) = [] ↔ ∀ c ∈ l, p c = true := by
  rw [List.filter_eq_nil_iff]
  induction l with
  | nil => simp
  | cons c l ih =>
    rw [List.splitOnP_cons_eq_if_modifyHead]
    by_cases hc : p c = true
    · rw [if_pos hc, List.forall_mem_cons, ih, List.forall_mem_cons]
      simp [hc]
    · rw [if_neg hc]
      obtain ⟨w, ws, hws⟩ := List.exists_cons_of_ne_nil (List.splitOnP_ne_nil p l)
      rw [hws]
      simp [hc]

/-- Words that are joined leave a text. -/
theorem intercalate_ne_empty {s w : String} {ws : List String} (hw : w ≠ "") :
    s.intercalate (w :: ws) ≠ "" := by
  intro h
  cases ws with
  | nil => exact hw (by simpa using h)
  | cons v ws =>
    rw [String.intercalate_cons_cons, String.append_eq_empty_iff, String.append_eq_empty_iff] at h
    exact hw h.1.1

/-- The header is written exactly for a writable sender. -/
theorem fromHeader_ok_iff : (∃ s, fromHeader x sender = .ok s) ↔ Writable sender := by
  unfold fromHeader Writable
  dsimp only
  rw [← no_words_iff]
  cases hwords : (sender.emailFromName.toList.splitOnP isSpace).filter (· ≠ []) with
  | nil => simp
  | cons w ws =>
    have hw : w ≠ [] := by
      have hmem := List.mem_cons_self (a := w) (l := ws)
      rw [← hwords, List.mem_filter] at hmem
      simpa using hmem.2
    have hname : " ".intercalate ((w :: ws).map .ofList) ≠ "" :=
      intercalate_ne_empty (by simpa using hw)
    rw [if_neg hname]
    split_ifs with hascii
    · simp [hascii]
    · simp [hascii]

end sender

/-! ## The packs of a batch -/

section packs

variable {x : PressInput} {set : Settings} {ctx : SendCtx}

/-- A mail is packed exactly where its header is written and its links fit. -/
theorem mailPack_ok_iff {t : Target} {n : ℕ} : (∃ pack, mailPack x set ctx t n = .ok pack) ↔
    Writable ctx.sender ∧ LinksFit set ctx t.row (x.tokens n) := by
  have hmail : LinksFit set ctx t.row (x.tokens n) ↔
      ∃ m, mailText (ctx.mailCtx set) t.row (x.tokens n).1 (x.tokens n).2 = .ok m := by
    constructor
    · rintro ⟨mail, hrender, hsend⟩
      exact ⟨_, mailText_eq_ok.mpr ⟨mail, hrender, rfl, hsend⟩⟩
    · rintro ⟨m, hm⟩
      obtain ⟨mail, hrender, rfl, hsend⟩ := mailText_eq_ok.mp hm
      exact ⟨mail, hrender, hsend⟩
  rw [hmail, ← @fromHeader_ok_iff x]
  unfold mailPack
  cases mailText (ctx.mailCtx set) t.row (x.tokens n).1 (x.tokens n).2 with
  | error e => simp
  | ok m =>
    cases fromHeader x ctx.sender with
    | error e => simp [Except.map]
    | ok s => simp [Except.map]

/-- Mails are packed exactly where each can be. -/
theorem mailPacks_ok_iff {targets : List Target} :
    (∃ packs, mailPacks x set ctx targets = .ok packs) ↔
      Buildable x set ctx (targets.map (·.row)) := by
  unfold mailPacks Buildable
  rw [exists_mapM_iff]
  simp only [mailPack_ok_iff, List.getElem?_map, Option.map_eq_some_iff]
  constructor
  · rintro h n row ⟨t, ht, rfl⟩
    exact h (t, n) (List.mem_zipIdx_iff_getElem?.mpr ht)
  · rintro h ⟨t, n⟩ hin
    exact h n t.row ⟨t, List.mem_zipIdx_iff_getElem?.mp hin, rfl⟩

/-- **The packs of a batch** are built where the settings let them go out. -/
theorem batchPacks_ok_iff {sends : List (Candidate × SendId)} {seeds : List String} :
    (∃ packs, batchPacks x set ctx sends seeds = .ok packs) ↔ SendsOut x set ctx sends seeds := by
  unfold batchPacks SendsOut Schedules
  cases computeSendAts (sends.length + seeds.length) x.startAfter x.zone x.startHour x.windowHours
      x.pace x.draws with
  | error e => simp
  | ok sendAts =>
    simp only [Except.ok.injEq, exists_eq_left']
    exact mailPacks_ok_iff

end packs

/-! ## What the checks before the commits have seen -/

section checks

variable {Id : Type} [LinearOrder Id] {env : Setup Id} {x : PressInput} {set : Settings}
  {ctx : SendCtx} {r : SendRow}

/-- The recipients are sendable exactly where each is. -/
theorem assertRecipientsSendable_iff {mailCtx : MailCtx} {rows : List SendRow} :
    assertRecipientsSendable mailCtx rows = .ok () ↔ ∀ r ∈ rows, unsendable mailCtx r = .ok none := by
  unfold assertRecipientsSendable
  rw [bind_eq_ok]
  constructor
  · rintro ⟨found, hfound, hnone⟩ r hr
    dsimp only at hnone
    split_ifs at hnone with hbad
    obtain ⟨o, hin, ho⟩ := ok_of_mapM hfound hr
    cases o with
    | none => exact ho
    | some text =>
      have hmem : text ∈ found.reduceOption := List.reduceOption_mem_iff.mpr hin
      rw [hbad] at hmem
      cases hmem
  · intro h
    refine ⟨rows.map fun _ => none, mapM_eq_ok.mpr ?_, ?_⟩
    · rw [List.forall₂_map_right_iff, List.forall₂_same]
      exact h
    · have hnone : (rows.map fun _ => (none : Option String)).reduceOption = [] := by
        simp [List.reduceOption]
      rw [hnone]
      rfl

/-- A row that passed the check with the example links. -/
theorem unsendable_eq_none {mailCtx : MailCtx} (h : unsendable mailCtx r = .ok none) :
    ∃ mail, render mailCtx.template r mailCtx.companyName = some mail ∧
      assertSendable (exampleMail mailCtx mail) = .ok () := by
  unfold unsendable at h
  cases hrender : render mailCtx.template r mailCtx.companyName with
  | none =>
    rw [hrender] at h
    cases h
  | some mail =>
    refine ⟨mail, rfl, ?_⟩
    rw [hrender] at h
    dsimp only at h
    split_ifs at h with hbad
    · cases h
    · exact if_neg fun hany => hbad (.inr hany)

/-- **A host and tokens without braces** leave no variable in a mail that passed the check. -/
theorem linksFit_of_host {tokens : String × String}
    (h : unsendable (ctx.mailCtx set) r = .ok none) (hhost : IsLinkText ctx.publicHost)
    (hunsub : IsLinkText tokens.1) (herasure : IsLinkText tokens.2) : LinksFit set ctx r tokens := by
  obtain ⟨mail, hrender, hsend⟩ := unsendable_eq_none h
  have hexample : IsLink "https://example.com/u/x" ∧ IsLink "https://example.com/e/x" := by
    exact @isLink_of "example.com" "x" (isLinkText_of_all (by decide))
      (isLinkText_of_all (by decide))
  refine ⟨mail, hrender, ?_⟩
  exact sendable_of_sendable (isLink_of hhost hunsub).1 (isLink_of hhost herasure).2 hexample.1
    hexample.2 hsend

/-- A plan never fails; it sends to candidates that are not suppressed. -/
theorem plan_answers (env : Setup Id) (camp : Campaign) (sendKey : SendKey) (rows : List Candidate)
    (t : Terminal Id) : ∃ plan, planCheck env camp sendKey rows t = .ok plan ∧
      plan.sends.length ≤ rows.length ∧ ∀ s ∈ plan.sends, s.1 ∈ rows ∧
        suppressedMap camp.kind t.suppressions (env.emailHash s.1.email) = none := by
  choose single hsingle happend using planSend_single env camp.id camp.createdAt sendKey
    (suppressedMap camp.kind t.suppressions) (t.jobs.filter (·.campaignId = camp.id))
  refine ⟨_, foldlM_appended happend rows {}, ?_, ?_⟩
  · have hlen := length_singles hsingle rows
    simp only [List.nil_append]
    omega
  · intro s hs
    simp only [List.nil_append, List.mem_flatMap] at hs
    obtain ⟨r, hr, hin⟩ := hs
    have hplanned := hsingle r
    generalize single r = p at hin hplanned
    cases hplanned with
    | suppressed => cases hin
    | recorded => cases hin
    | send a hnone =>
      obtain rfl := List.mem_singleton.mp hin
      exact ⟨hr, hnone⟩

/-- A plan reads the suppressions and the jobs. -/
theorem planCheck_congr {t t' : Terminal Id} (hsuppressions : t'.suppressions = t.suppressions)
    (hjobs : t'.jobs = t.jobs) (camp : Campaign) (sendKey : SendKey) (rows : List Candidate) :
    planCheck env camp sendKey rows t' = planCheck env camp sendKey rows t := by
  unfold planCheck
  rw [hsuppressions, hjobs]

end checks

/-! ## The schedule -/

section schedule

variable {x : PressInput} {n : ℕ}

/-- The hours of a window cannot reach past the calendar. -/
theorem nextWindow_too_long {w : SendWindow} (hstart : 0 ≤ w.startHour)
    (hhours : 87649441 ≤ w.windowHours) (after : ℤ) : ∃ e, w.nextWindow after = .error e := by
  unfold SendWindow.nextWindow SendWindow.localDate
  split_ifs with hdate
  · have hnone : ∃ e, w.windowFor (w.dateOf after) = .error e := by
      unfold SendWindow.windowFor
      split_ifs with hhour hend
      · exact ⟨_, rfl⟩
      · simp only [SendWindow.dateOf, InCalendar, minSecond, maxSecond] at hdate hend
        omega
      · exact ⟨_, rfl⟩
    obtain ⟨e, he⟩ := hnone
    refine ⟨e, ?_⟩
    show SendWindow.search w after 400 (w.dateOf after) = .error e
    rw [SendWindow.search, he]
    rfl
  · exact ⟨_, rfl⟩

/-- **Settings that no schedule answers for**, as soon as there is one mail to send: a zone that is
not known, an hour that no day has, or a window that does not end within the years that there are. -/
theorem refusing_schedule (hn : 0 < n) (h : x.zone = none ∨ x.startHour < 0 ∨ 23 < x.startHour ∨
    87649441 ≤ x.windowHours) : ¬∃ sendAts, Schedules x n sendAts := by
  rintro ⟨sendAts, hanswer⟩
  unfold Schedules computeSendAts at hanswer
  rw [if_neg (by omega)] at hanswer
  cases hzone : x.zone with
  | none =>
    rw [hzone] at hanswer
    cases hanswer
  | some zone =>
    rw [hzone] at hanswer
    obtain ⟨first, hfirst, -⟩ := bind_eq_ok.mp hanswer
    obtain ⟨day, hday, hsearch⟩ := bind_eq_ok.mp hfirst
    by_cases hstart : 0 ≤ x.startHour ∧ x.startHour ≤ 23
    · have hhours : 87649441 ≤ x.windowHours := by
        rcases h with hnone | hneg | hlate | hlong
        · rw [hzone] at hnone
          cases hnone
        · omega
        · omega
        · exact hlong
      obtain ⟨e, he⟩ := nextWindow_too_long (w := ⟨zone, x.startHour, x.windowHours⟩) hstart.1 hhours
        x.startAfter
      cases hfirst.symm.trans he
    · obtain ⟨window, hwindow, -⟩ := bind_eq_ok.mp hsearch
      unfold SendWindow.windowFor at hwindow
      rw [if_pos (by dsimp only; omega)] at hwindow
      cases hwindow

end schedule

end Mailman.Analysis
