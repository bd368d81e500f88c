import Mailman.Analysis.TokensAgree

/-!
# Exceptions of the token checks

Of what the checks do with a token, the split and the payload's JSON are guarded, and the ASCII
encoding, the Base64 of the signature and `int` are not. A token that gets through those never
makes a check raise anything but its own errors, and every other token does.
-/

set_option autoImplicit false

namespace Mailman.Analysis

open Mailman.Library Mailman.Model.Tokens

/-- The payload is ASCII, the signature is Base64, and if it is right, the expiry is a number. -/
def Readable (rt : Runtime) (key : List UInt8) (token : String) : Prop :=
  ∀ a b, splitDot token = some (a, b) → ∃ message sig,
    ascii a = some message ∧ b64uDecode b = some sig ∧
      (sig = rt.hmac key message → ∀ members, loadsB64u rt a = some (.obj members) →
        ∀ h x, Json.lookup "h" members = some h → Json.lookup "x" members = some x →
          rt.int x ≠ none)

/-- The signature is Base64, and if it is right, a payload is an object and its expiry a number. -/
def SessionReadable (rt : Runtime) (jwtSecret token : String) : Prop :=
  jwtSecret ≠ "" → ∀ a b, splitDot token = some (a, b) → ∃ sig, b64uDecode b = some sig ∧
    (sig = rt.hmac (utf8 jwtSecret) (utf8 a) → ∀ payload, loadsB64u rt a = some payload →
      ∃ members, payload = .obj members ∧
        rt.int ((Json.lookup "exp" members).getD (.int 0)) ≠ none)

section checks

variable {rt : Runtime} {settings : Kind → String} {kind : Kind} {now : ℤ}

/-- When the reading of a payload raises nothing uncaught. -/
theorem readPayload_caught (payload : Option Json.Value) :
    readPayload rt payload now ≠ .error .uncaught ↔
      ∀ members, payload = some (.obj members) → ∀ h x, Json.lookup "h" members = some h →
        Json.lookup "x" members = some x → rt.int x ≠ none := by
  constructor
  · rintro hcaught members rfl h x hh hx hint
    apply hcaught
    simp only [readPayload, hh, hx, hint]
  · intro hint
    unfold readPayload
    split
    · simp
    · next members =>
      split
      · next h x hh hx =>
        cases hvalue : rt.int x with
        | none => exact absurd hvalue (hint members rfl h x hh hx)
        | some n =>
          dsimp only
          split <;> simp
      · simp
    · simp

/-- When the verification of a token raises nothing uncaught. -/
theorem verify_caught (token : String) :
    verify rt settings kind token now ≠ .error .uncaught ↔
      Readable rt (secretFor rt settings kind) token := by
  unfold verify Readable
  cases hsplit : splitDot token with
  | none => simp
  | some p =>
    obtain ⟨a, b⟩ := p
    dsimp only
    unfold verifyParts
    constructor
    · intro hcaught a' b' hparts
      obtain ⟨rfl, rfl⟩ := Prod.mk.inj (Option.some.inj hparts)
      cases hmessage : ascii a with
      | none => simp [hmessage] at hcaught
      | some message =>
        cases hsig : b64uDecode b with
        | none => simp [hmessage, hsig] at hcaught
        | some sig =>
          refine ⟨message, sig, rfl, rfl, fun heq => ?_⟩
          rw [hmessage, hsig] at hcaught
          dsimp only at hcaught
          rw [if_neg (not_not.mpr heq)] at hcaught
          exact (readPayload_caught _).mp hcaught
    · intro hreadable
      obtain ⟨message, sig, hmessage, hsig, hsigned⟩ := hreadable a b rfl
      rw [hmessage, hsig]
      dsimp only
      split
      · simp
      · next heq => exact (readPayload_caught _).mpr (hsigned (not_not.mp heq))

/-- When the reading of a session raises nothing. -/
theorem readSession_caught (payload : Option Json.Value) :
    readSession rt payload now ≠ .error () ↔
      ∀ v, payload = some v → ∃ members, v = .obj members ∧
        rt.int ((Json.lookup "exp" members).getD (.int 0)) ≠ none := by
  constructor
  · rintro hcaught v rfl
    cases v with
    | obj members =>
      refine ⟨members, rfl, fun hint => hcaught ?_⟩
      simp only [readSession, hint]
    | null => exact absurd rfl hcaught
    | bool b => exact absurd rfl hcaught
    | int n => exact absurd rfl hcaught
    | float t => exact absurd rfl hcaught
    | str t => exact absurd rfl hcaught
    | arr l => exact absurd rfl hcaught
  · intro hint
    unfold readSession
    split
    · simp
    · next members =>
      obtain ⟨members', heq, hvalue⟩ := hint _ rfl
      cases heq
      obtain ⟨n, hn⟩ := Option.ne_none_iff_exists'.mp hvalue
      simp [hn]
    · next v hnot =>
      obtain ⟨members, rfl, -⟩ := hint v rfl
      exact absurd rfl (hnot members)

/-- When the verification of a session raises nothing. -/
theorem verifySession_caught (jwtSecret token : String) :
    verifySession rt jwtSecret token now ≠ .error () ↔ SessionReadable rt jwtSecret token := by
  unfold verifySession SessionReadable
  by_cases hsecret : jwtSecret = ""
  · cases hsplit : splitDot token with
    | none => simp [hsecret]
    | some p => simp [hsecret]
  · cases hsplit : splitDot token with
    | none => simp
    | some p =>
      obtain ⟨a, b⟩ := p
      dsimp only
      rw [if_neg hsecret]
      constructor
      · intro hcaught _ a' b' hparts
        obtain ⟨rfl, rfl⟩ := Prod.mk.inj (Option.some.inj hparts)
        cases hsig : b64uDecode b with
        | none => simp [hsig] at hcaught
        | some sig =>
          refine ⟨sig, rfl, fun heq => ?_⟩
          rw [hsig] at hcaught
          dsimp only at hcaught
          rw [if_neg (not_not.mpr heq)] at hcaught
          exact (readSession_caught _).mp hcaught
      · intro hreadable
        obtain ⟨sig, hsig, hsigned⟩ := hreadable hsecret a b rfl
        rw [hsig]
        dsimp only
        split
        · simp
        · next heq => exact (readSession_caught _).mpr (hsigned (not_not.mp heq))

/-- An endpoint answers one of its four statuses, unless the check raised something else. -/
theorem statusOf_caught (verified : Except VerifyError Json.Text) (write : Option Bool) :
    statusOf verified write ∈ [200, 400, 410, 503] ↔ verified ≠ .error .uncaught := by
  cases verified with
  | ok h =>
    unfold statusOf
    dsimp only
    split <;> simp
  | error e => cases e <;> simp [statusOf]

/-- A cookie raises where its verification does. -/
theorem requireSession_caught (jwtSecret token : String) :
    requireSession rt jwtSecret (some token) now ≠ .error () ↔
      verifySession rt jwtSecret token now ≠ .error () := by
  unfold requireSession
  dsimp only
  cases verifySession rt jwtSecret token now with
  | ok payload => simp [Except.map]
  | error e => simp [Except.map]

/-- Every check and every endpoint answers as it should exactly for the tokens it can read. -/
theorem checks_caught_iff (rt : Runtime) (settings : Kind → String) (jwtSecret token : String)
    (now : ℤ) (written : Bool) (confirm : Option ℤ) :
    (∀ kind, verify rt settings kind token now ≠ .error .uncaught ↔
      Readable rt (secretFor rt settings kind) token) ∧
    (unsubLanding rt settings token now ∈ [200, 400, 410, 503] ↔
      Readable rt (secretFor rt settings .unsub) token) ∧
    (unsubPost rt settings token now written ∈ [200, 400, 410, 503] ↔
      Readable rt (secretFor rt settings .unsub) token) ∧
    (erasureLanding rt settings token confirm now written ∈ [200, 400, 410, 503] ↔
      Readable rt (secretFor rt settings .erasure) token) ∧
    (erasurePost rt settings token now written ∈ [200, 400, 410, 503] ↔
      Readable rt (secretFor rt settings .erasure) token) ∧
    (verifySession rt jwtSecret token now ≠ .error () ↔ SessionReadable rt jwtSecret token) ∧
    (requireSession rt jwtSecret (some token) now ≠ .error () ↔
      SessionReadable rt jwtSecret token) := by
  have hverify : ∀ kind, verify rt settings kind token now ≠ .error .uncaught ↔
      Readable rt (secretFor rt settings kind) token := fun kind => verify_caught token
  have hsession : verifySession rt jwtSecret token now ≠ .error () ↔
      SessionReadable rt jwtSecret token := verifySession_caught jwtSecret token
  refine ⟨hverify, ?_, ?_, ?_, ?_, hsession, ?_⟩
  · exact (statusOf_caught _ _).trans (hverify .unsub)
  · exact (statusOf_caught _ _).trans (hverify .unsub)
  · exact (statusOf_caught _ _).trans (hverify .erasure)
  · exact (statusOf_caught _ _).trans (hverify .erasure)
  · exact (requireSession_caught jwtSecret token).trans hsession

end checks

/-- A signature of one character, and a payload that is not ASCII. -/
theorem one_character_crashes :
    verify spelledOut twoSecrets .unsub "a.b" 0 = .error .uncaught ∧
      unsubPost spelledOut twoSecrets "a.b" 0 true = 500 ∧
      verify spelledOut twoSecrets .erasure "é.AAAA" 0 = .error .uncaught ∧
      erasurePost spelledOut twoSecrets "é.AAAA" 0 true = 500 ∧
      verifySession spelledOut "secret" "a.b" 0 = .error () := by
  refine ⟨by decide +kernel, by decide +kernel, by decide +kernel, by decide +kernel, ?_⟩
  have hsplit : splitDot "a.b" = some ("a", "b") := by decide +kernel
  have hsig : b64uDecode "b" = none := by decide +kernel
  unfold verifySession
  rw [hsplit]
  dsimp only
  rw [if_neg (by decide), hsig]

end Mailman.Analysis
