import Mailman.Analysis.SessionSafe
import Mailman.Analysis.TokensAgree

/-!
# Where a session comes from

A cookie that a login signed is accepted until it expires, under the secret it was signed with.
A client that presents a right signature has it from a login, or was told the secret; so every
session is that of a login, unless the secret was told, and then too somebody had logged in before.
-/

set_option autoImplicit false

namespace Mailman.Analysis

open Mailman.Interface Mailman.Library Mailman.Model Mailman.Model.Sessions

/-! ## Cookies -/

section cookies

variable {e : SessionEnv} {token secret : String} {g : Grant} {now : ℤ}

/-- The cookie holds the text of the grant and a signature of it, however that is spelled. -/
def Carries (e : SessionEnv) (token secret : String) (g : Grant) : Prop :=
  ∃ payloadB64 sigB64, Tokens.splitDot token = some (payloadB64, sigB64) ∧
    g.payloadB64 = some payloadB64 ∧ Tokens.b64uDecode sigB64 =
      some (e.rt.hmac (Tokens.utf8 secret) (Tokens.utf8 payloadB64))

/-- What a login answers carries its grant. -/
theorem carries_token (h : g.token e.rt secret = some token) : Carries e token secret g := by
  obtain ⟨payloadB64, hpayload, rfl⟩ := Option.map_eq_some_iff.mp h
  obtain ⟨payload, -, hb64⟩ := Option.map_eq_some_iff.mp hpayload
  have hdot : '.' ∉ payloadB64.toList := by
    rw [← hb64]
    exact fun hmem => (mem_b64u hmem).1 rfl
  exact ⟨payloadB64, _, splitDot_join hdot _, hpayload, b64uDecode_b64u _⟩

/-- The claims of a cookie are read until its expiry. -/
theorem readSession_claims (rt : Tokens.Runtime) (g : Grant) (now : ℤ) :
    Tokens.readSession rt (some (.obj g.claims)) now =
      .ok (if g.exp < now then none else some g.claims) := by
  have hexp : Json.lookup "exp" g.claims = some (.int g.exp) := by
    have hcodes : Json.codes "exp" = [101, 120, 112] := by decide
    have hiat : Json.codes "iat" = [105, 97, 116] := by decide
    have hrole : Json.codes "role" = [114, 111, 108, 101] := by decide
    have hsub : Json.codes "sub" = [115, 117, 98] := by decide
    simp [Json.lookup, Grant.claims, Grant.members, hcodes, hiat, hrole, hsub, List.lookup_cons,
      Json.Field.toValue]
  unfold Tokens.readSession
  simp only [hexp, Option.getD_some, Tokens.Runtime.int]

/-- What carries a grant is accepted as long as the grant lasts. -/
theorem verdict_carries
    (htext : ∀ b : List UInt8, (∀ u ∈ b, 0 < u.toNat ∧ u.toNat < 128) →
      e.rt.text b = some (b.map UInt8.toNat))
    (hsecret : secret ≠ "") (h : Carries e token secret g) :
    verdict e token secret now = .ok (if g.exp < now then none else some g.claims) := by
  obtain ⟨payloadB64, sigB64, hsplit, hpayload, hsig⟩ := h
  obtain ⟨payload, hdumps, rfl⟩ := Option.map_eq_some_iff.mp hpayload
  have hloads := loadsB64u_dumps htext hdumps (List.cons_ne_nil _ _)
  have hverify : Tokens.verifySession e.rt secret token now =
      .ok (if g.exp < now then none else some g.claims) := by
    unfold Tokens.verifySession
    rw [hsplit]
    dsimp only
    rw [if_neg hsecret, hsig]
    dsimp only
    rw [if_neg (not_not.mpr rfl), hloads]
    exact readSession_claims e.rt g now
  unfold verdict Tokens.requireSession
  dsimp only
  rw [hverify]
  by_cases hlate : g.exp < now
  · rw [if_pos hlate]
    rfl
  · rw [if_neg hlate]
    rfl

/-- The signature is that of the text before it. -/
def hasMac (e : SessionEnv) (token secret : String) : Bool :=
  (Tokens.splitDot token).any fun parts =>
    Tokens.b64uDecode parts.2 = some (e.rt.hmac (Tokens.utf8 secret) (Tokens.utf8 parts.1))

/-- Only what has a right signature is accepted. -/
theorem hasMac_of_verdict {claims : List (Json.Text × Json.Value)}
    (h : verdict e token secret now = .ok (some claims)) : hasMac e token secret = true := by
  unfold verdict Tokens.requireSession Tokens.verifySession at h
  unfold hasMac
  dsimp only at h
  cases hsplit : Tokens.splitDot token with
  | none =>
    rw [hsplit] at h
    cases h
  | some parts =>
    rw [hsplit] at h
    dsimp only at h
    split at h
    · cases h
    split at h
    · cases h
    · next sig hsig =>
      split at h
      · cases h
      · next hmac =>
        rw [Option.any_some, hsig, not_not.mp hmac]
        exact decide_eq_true rfl

end cookies

/-! ## Clients -/

/-- The mark tells a client the secret. -/
def tells (secret : String) : VaultMark → Bool
  | .wrote _ key value => key = "jwt_secret" && value = secret
  | .shown _ key value => key = "jwt_secret" && value = some secret
  | _ => false

/-- The mark is a login's that signed the text. -/
def signs (secret payloadB64 : String) : VaultMark → Bool
  | .signed _ key g => key = secret && g.payloadB64 = some payloadB64
  | _ => false

/-- Somebody knew the secret from the start, wrote it or was shown it. -/
def Told (known : List String) (secret : String) (ms : List VaultMark) : Prop :=
  secret ∈ known ∨ ∃ m ∈ ms, tells secret m = true

/-- A login signed what stands before the dot. -/
def SignedBefore (token secret : String) (ms : List VaultMark) : Prop :=
  ∃ m ∈ ms, (Tokens.splitDot token).any (fun parts => signs secret parts.1 m) = true

/-- Nobody makes a signature without the secret: a right one was made by a login before. -/
def Unforged (e : SessionEnv) (known : List String) (ms : List VaultMark) : Prop :=
  ∀ later n token secret now earlier, ms = later ++ .checked n token secret now :: earlier →
    hasMac e token secret = true → Told known secret earlier ∨ SignedBefore token secret earlier

section marks

variable {e : SessionEnv} {known : List String} {n : ℕ} {token secret : String} {now : ℤ}
  {later earlier ms : List VaultMark} {m : VaultMark} {g : Grant}

/-- Earlier marks have their reasons. -/
theorem justified_suffix (h : Justified e ms) (hms : earlier <:+ ms) : Justified e earlier := by
  obtain ⟨later, rfl⟩ := hms
  induction later with
  | nil => exact h
  | cons m later ih => exact ih h.2

/-- A mark has its reason in the marks before it. -/
theorem justified_at (h : Justified e (later ++ m :: earlier)) :
    Reason e m earlier ∧ Justified e earlier :=
  justified_suffix h (List.suffix_append _ _)

/-- Nobody had forged a cookie earlier. -/
theorem unforged_suffix (h : Unforged e known ms) (hms : earlier <:+ ms) :
    Unforged e known earlier := by
  obtain ⟨front, rfl⟩ := hms
  intro later n token secret now before hbefore
  refine h (front ++ later) n token secret now before ?_
  rw [hbefore, List.append_assoc]

/-- What stands behind a mark. -/
theorem suffix_after (later : List VaultMark) (m : VaultMark) (earlier : List VaultMark) :
    earlier <:+ later ++ m :: earlier :=
  (List.suffix_cons _ _).trans (List.suffix_append _ _)

/-- A signed mark has its login before it. -/
theorem loggedIn_of_signed (hj : Justified e ms) (h : .signed n secret g ∈ ms) :
    secret ≠ "" ∧ LoggedIn e n g ms := by
  obtain ⟨later, earlier, rfl⟩ := List.append_of_mem h
  obtain ⟨-, hsecret, -, hlogin⟩ := (justified_at hj).1
  exact ⟨hsecret, loggedIn_mono hlogin (suffix_after ..)⟩

/-- A cookie with a right signature was signed before. -/
theorem exists_signed (h : SignedBefore token secret ms) (hmac : hasMac e token secret = true) :
    ∃ n g, .signed n secret g ∈ ms ∧ Carries e token secret g := by
  obtain ⟨m, hm, hsigns⟩ := h
  unfold hasMac at hmac
  cases hsplit : Tokens.splitDot token with
  | none =>
    rw [hsplit] at hmac
    cases hmac
  | some parts =>
    rw [hsplit, Option.any_some] at hmac hsigns
    cases m with
    | signed n key g =>
      unfold signs at hsigns
      rw [Bool.and_eq_true, decide_eq_true_eq, decide_eq_true_eq] at hsigns
      obtain ⟨rfl, hpayload⟩ := hsigns
      exact ⟨n, g, hm, parts.1, parts.2, hsplit, hpayload, of_decide_eq_true hmac⟩
    | _ => cases hsigns

/-- An accepted cookie is that of a login, or the secret was told. -/
theorem origin_of_accepted
    (htext : ∀ b : List UInt8, (∀ u ∈ b, 0 < u.toNat ∧ u.toNat < 128) →
      e.rt.text b = some (b.map UInt8.toNat))
    (hj : Justified e earlier) (hu : Unforged e known (.checked n token secret now :: earlier))
    {claims : List (Json.Text × Json.Value)}
    (h : verdict e token secret now = .ok (some claims)) :
    Told known secret earlier ∨ ∃ m g, .signed m secret g ∈ earlier ∧ Carries e token secret g ∧
      now ≤ g.exp ∧ claims = g.claims ∧ LoggedIn e m g earlier := by
  have hmac := hasMac_of_verdict h
  refine (hu [] n token secret now earlier rfl hmac).imp_right fun hsigned => ?_
  obtain ⟨m, g, hmem, hcarries⟩ := exists_signed hsigned hmac
  obtain ⟨hsecret, hlogin⟩ := loggedIn_of_signed hj hmem
  rw [verdict_carries htext hsecret hcarries] at h
  have hvalid : ¬g.exp < now := by
    intro hlate
    rw [if_pos hlate] at h
    cases h
  rw [if_neg hvalid] at h
  refine ⟨m, g, hmem, hcarries, by omega, ?_, hlogin⟩
  exact (Option.some.inj (Except.ok.inj h)).symm

/-- The mark that tells the secret is of somebody who was let in. -/
theorem admitted_of_told (hj : Justified e ms) (h : Told [] secret ms) :
    ∃ n claims before, before <:+ ms ∧ before.length < ms.length ∧
      Admitted e n claims before := by
  obtain hnone | ⟨m, hm, htells⟩ := h
  · cases hnone
  obtain ⟨later, earlier, rfl⟩ := List.append_of_mem hm
  have hreason := (justified_at hj).1
  have hsuffix := suffix_after later m earlier
  have hshort : earlier.length < (later ++ m :: earlier).length := by
    rw [List.length_append, List.length_cons]
    omega
  cases m with
  | wrote n key value =>
    obtain ⟨claims, hclaims⟩ := hreason
    exact ⟨n, claims, earlier, hsuffix, hshort, hclaims⟩
  | shown n key value =>
    obtain ⟨⟨claims, hclaims⟩, -⟩ := hreason
    exact ⟨n, claims, earlier, hsuffix, hshort, hclaims⟩
  | _ => cases htells

/-- Where nobody knew a secret from the start, the first to be let in had logged in. -/
theorem login_of_admitted
    (htext : ∀ b : List UInt8, (∀ u ∈ b, 0 < u.toNat ∧ u.toNat < 128) →
      e.rt.text b = some (b.map UInt8.toNat))
    (hj : Justified e ms) (hu : Unforged e [] ms) {claims : List (Json.Text × Json.Value)}
    (h : Admitted e n claims ms) :
    ∃ m secret g, .signed m secret g ∈ ms ∧ LoggedIn e m g ms := by
  -- by the length of the marks: a secret that was told was told by somebody let in before
  induction hlen : ms.length using Nat.strong_induction_on generalizing ms n claims with
  | _ len ih =>
    obtain ⟨token, secret, now, hmem, hverdict⟩ := h
    obtain ⟨later, earlier, rfl⟩ := List.append_of_mem hmem
    have hsuffix := suffix_after later (.checked n token secret now) earlier
    have hj' := (justified_at hj).2
    have hu' := unforged_suffix hu (List.suffix_append later _)
    cases origin_of_accepted htext hj' hu' hverdict with
    | inl htold =>
      obtain ⟨n', claims', before, hbefore, hshort, hadmitted⟩ := admitted_of_told hj' htold
      have hall := hbefore.trans hsuffix
      have hlt : before.length < len := by
        rw [← hlen, List.length_append, List.length_cons]
        omega
      obtain ⟨m, secret', g, hsigned, hlogin⟩ := ih _ hlt (justified_suffix hj hall)
        (unforged_suffix hu hall) hadmitted rfl
      exact ⟨m, secret', g, hall.subset hsigned, loggedIn_mono hlogin hall⟩
    | inr horigin =>
      obtain ⟨m, g, hsigned, -, -, -, hlogin⟩ := horigin
      exact ⟨m, secret, g, hsuffix.subset hsigned, loggedIn_mono hlogin hsuffix⟩

end marks

/-! ## Sessions of a run -/

/-- A check of a cookie in a run: what a login signed under the same secret is accepted while it
lasts; what is accepted was so signed, or the secret was told; and if nobody knew it from the
start, somebody had logged in. -/
theorem session_origin (e : SessionEnv) (known : List String)
    (htext : ∀ b : List UInt8, (∀ u ∈ b, 0 < u.toNat ∧ u.toNat < 128) →
      e.rt.text b = some (b.map UInt8.toNat))
    (es : List (Event VaultOp VaultInput)) (hforge : Unforged e known (vaultRun e es).state.marks)
    {later earlier : List VaultMark} {n : ℕ} {token secret : String} {now : ℤ}
    (h : (vaultRun e es).state.marks = later ++ .checked n token secret now :: earlier) :
    (∀ m g, .signed m secret g ∈ earlier → Carries e token secret g → LoggedIn e m g earlier ∧
      verdict e token secret now = .ok (if g.exp < now then none else some g.claims)) ∧
    (∀ claims, verdict e token secret now = .ok (some claims) → Told known secret earlier ∨
      ∃ m g, .signed m secret g ∈ earlier ∧ Carries e token secret g ∧ now ≤ g.exp ∧
        claims = g.claims ∧ LoggedIn e m g earlier) ∧
    (known = [] → ∀ claims, verdict e token secret now = .ok (some claims) →
      ∃ m secret' g, .signed m secret' g ∈ earlier ∧ LoggedIn e m g earlier) := by
  have hj := (vaultRun_inv e es).justified
  rw [h] at hj hforge
  have hjust := (justified_at hj).2
  have hcheck := unforged_suffix hforge (List.suffix_append later _)
  refine ⟨fun m g hsigned hcarries => ?_, fun claims hverdict => ?_, ?_⟩
  · obtain ⟨hsecret, hlogin⟩ := loggedIn_of_signed hjust hsigned
    exact ⟨hlogin, verdict_carries htext hsecret hcarries⟩
  · exact origin_of_accepted htext hjust hcheck hverdict
  · rintro rfl claims hverdict
    cases origin_of_accepted htext hjust hcheck hverdict with
    | inl htold =>
      obtain ⟨n', claims', before, hbefore, -, hadmitted⟩ := admitted_of_told hjust htold
      obtain ⟨m, secret', g, hsigned, hlogin⟩ := login_of_admitted htext
        (justified_suffix hjust hbefore) (unforged_suffix hcheck (hbefore.trans
          (List.suffix_cons _ _))) hadmitted
      exact ⟨m, secret', g, hbefore.subset hsigned, loggedIn_mono hlogin hbefore⟩
    | inr horigin =>
      obtain ⟨m, g, hsigned, -, -, -, hlogin⟩ := horigin
      exact ⟨m, secret, g, hsigned, hlogin⟩

/-! ## A run -/

/-- Without marks nothing is forged. -/
theorem unforged_nil (e : SessionEnv) (known : List String) : Unforged e known [] := by
  intro later n token secret now earlier h
  exact absurd h (by simp)

/-- A mark that is no check forges nothing. -/
theorem unforged_cons {e : SessionEnv} {known : List String} {m : VaultMark}
    {ms : List VaultMark} (hm : ∀ n token secret now, m ≠ .checked n token secret now)
    (hrest : Unforged e known ms) : Unforged e known (m :: ms) := by
  intro later n token secret now earlier h
  cases later with
  | nil => exact absurd (List.cons.inj h).1 (hm n token secret now)
  | cons m' later => exact hrest later n token secret now earlier (List.cons.inj h).2

/-- A check of a known or signed cookie forges nothing. -/
theorem unforged_check {e : SessionEnv} {known : List String} {n : ℕ} {token secret : String}
    {now : ℤ} {ms : List VaultMark}
    (hcheck : hasMac e token secret = true → Told known secret ms ∨ SignedBefore token secret ms)
    (hrest : Unforged e known ms) : Unforged e known (.checked n token secret now :: ms) := by
  intro later n' token' secret' now' earlier h
  cases later with
  | nil =>
    obtain ⟨hhead, rfl⟩ := List.cons.inj h
    obtain ⟨rfl, rfl, rfl, rfl⟩ := VaultMark.checked.inj hhead
    exact hcheck
  | cons m' later => exact hrest later n' token' secret' now' earlier (List.cons.inj h).2

/-- A cookie that a login signed is not forged. -/
theorem signedBefore_token {e : SessionEnv} {m : ℕ} {token secret : String} {g : Grant}
    {ms : List VaultMark} (htoken : g.token e.rt secret = some token)
    (hsigned : .signed m secret g ∈ ms) : SignedBefore token secret ms := by
  obtain ⟨payloadB64, sigB64, hsplit, hpayload, -⟩ := carries_token htoken
  refine ⟨_, hsigned, ?_⟩
  rw [hsplit, Option.any_some]
  simp [signs, hpayload]

/-- Passwords that are their own hashes, and a MAC that is a sum. -/
def plainEnv : SessionEnv where
  rt := { spelledOut with hmac := fun key message => [(key ++ message).foldl (· + ·) 0] }
  lower := id
  intOf _ := none
  checkpw password hash := some (password = hash)
  hashpw password _ := some (.ofList (password.map fun u => Char.ofNat u.toNat))
  repr := id
  environ name :=
    [("JWT_SECRET", "s"), ("ADMIN_EMAIL", "a"), ("ADMIN_PASSWORD_HASH", "p")].lookup name
  blob _ value := value

def chiefGrant : Grant := { exp := 86500, iat := 100, role := .admin, sub := "a" }

def chiefCookie : String := (chiefGrant.token plainEnv.rt "s").getD ""

/-- The cookie of the example. -/
theorem chiefCookie_eq : chiefGrant.token plainEnv.rt "s" = some chiefCookie := by decide +kernel

/-- Call `n` runs alone for `k` requests. -/
def request (n : ℕ) (op : VaultOp) (now : ℤ) (k : ℕ) : List (Event VaultOp VaultInput) :=
  .start n op :: List.replicate k (.step n { now, random := [1, 2, 3] })

/-- The admin of the settings signs in. -/
def chiefSignedIn : List VaultMark :=
  [.signed 1 "s" chiefGrant, .read 1 "admin_password_hash" "p", .read 1 "admin_email" "a",
    .read 1 "jwt_secret" "s", .attempt 1 "a" "p"]

def clerk : Operator := { id := 1, email := "b", passwordHash := "q", role := .operator }

/-- And makes an operator. -/
def chiefRun : List (Event VaultOp VaultInput) :=
  request 1 (.login "a" "p") 100 9 ++
    request 2 (.createOperator (some chiefCookie) { email := "b", password := "q" }) 120 3

/-- What the run leaves of marks. -/
theorem chiefRun_marks : (vaultRun plainEnv chiefRun).state.marks =
    .added 2 clerk :: .checked 2 chiefCookie "s" 120 :: chiefSignedIn := by
  decide +kernel

/-- Nobody forges a cookie up to the check. -/
theorem unforged_chief : Unforged plainEnv []
    (.checked 2 chiefCookie "s" 120 :: chiefSignedIn) := by
  have hlogin : Unforged plainEnv [] chiefSignedIn := by
    unfold chiefSignedIn
    iterate 5 refine unforged_cons (fun _ _ _ _ => nofun) ?_
    exact unforged_nil plainEnv []
  have hsigned : SignedBefore chiefCookie "s" chiefSignedIn :=
    signedBefore_token chiefCookie_eq (List.mem_cons_self ..)
  exact unforged_check (fun _ => Or.inr hsigned) hlogin

/-- Nobody forges a cookie in the run. -/
theorem chiefRun_unforged : Unforged plainEnv [] (vaultRun plainEnv chiefRun).state.marks := by
  rw [chiefRun_marks]
  exact unforged_cons (fun _ _ _ _ => nofun) unforged_chief

/-- The admin's cookie is accepted with the claims of the login. -/
theorem session_origin_chief :
    ∃ later earlier, (vaultRun plainEnv chiefRun).state.marks =
        later ++ .checked 2 chiefCookie "s" 120 :: earlier ∧
      verdict plainEnv chiefCookie "s" 120 = .ok (some chiefGrant.claims) ∧
      LoggedIn plainEnv 1 chiefGrant earlier := by
  have hmarks : (vaultRun plainEnv chiefRun).state.marks =
      [.added 2 clerk] ++ .checked 2 chiefCookie "s" 120 :: chiefSignedIn := chiefRun_marks
  have hcarries : Carries plainEnv chiefCookie "s" chiefGrant := carries_token chiefCookie_eq
  have hsigned : .signed 1 "s" chiefGrant ∈ chiefSignedIn := List.mem_cons_self ..
  have horigin := (session_origin plainEnv [] (fun _ _ => rfl) chiefRun chiefRun_unforged
    hmarks).1 1 chiefGrant hsigned hcarries
  have hvalid : ¬chiefGrant.exp < 120 := by decide
  exact ⟨_, _, hmarks, horigin.2.trans (by rw [if_neg hvalid]), horigin.1⟩

end Mailman.Analysis
