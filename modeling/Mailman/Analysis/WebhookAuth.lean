import Mailman.Model.WebhookSignature

/-!
# Webhook authentication

The comparison raises on an entry that is not ASCII, if it gets there. It gets to every entry up
to the first one that the first secret signed. Apart from that it says whether some entry was made
with one of the keys, of the body as it is decoded.
-/

set_option autoImplicit false

namespace Mailman.Analysis

open Mailman.Library Mailman.Model.Tokens Mailman.Model.WebhookSignature

/-- Some entry is a MAC of the content under one of the keys. -/
def Signed (hmac : List UInt8 → List UInt8 → List UInt8) (keys : List (List UInt8))
    (content : List UInt8) (entries : List String) : Prop :=
  ∃ key ∈ keys, "v1," ++ b64encode (hmac key content) ∈ entries

/-- A `v1` entry that is not ASCII, before any that is the expected one. -/
def Hostile (expected : String) (entries : List String) : Prop :=
  ∃ front entry back, entries = front ++ entry :: back ∧ "v1," ++ expected ∉ front ∧
    ∃ signature, entry = "v1," ++ signature ∧ Text.isAscii signature = false

section compare

variable {expected : String} {entries : List String}

/-- A text with a prefix taken off. -/
theorem afterPrefix_eq_some {pre s t : String} (h : Text.afterPrefix pre s = some t) :
    s = pre ++ t := by
  obtain ⟨l, hl, rfl⟩ := Option.map_eq_some_iff.mp h
  apply String.toList_inj.mp
  rw [List.isPrefixOf?_eq_some_iff_append_eq] at hl
  simp [hl]

/-- Base64 is ASCII. -/
theorem isAscii_b64encode (b : List UInt8) : Text.isAscii (b64encode b) = true := by
  have hdigit : ∀ w : Fin 64, (Base64.digit w).toNat < 128 := by decide +kernel
  unfold Text.isAscii b64encode
  rw [String.toList_ofList, List.all_eq_true]
  intro c hc
  apply decide_eq_true
  cases List.mem_append.mp hc with
  | inl hcode =>
    obtain ⟨v, hv, rfl⟩ := Base64.mem_encode hcode
    exact hdigit ⟨v, hv⟩
  | inr hpad =>
    rw [List.eq_of_mem_replicate hpad]
    decide

/-- An entry before the others does not change what is hostile, unless it ends the search. -/
theorem hostile_cons {entry : String} (hmatch : entry ≠ "v1," ++ expected)
    (hascii : ∀ signature, entry = "v1," ++ signature → Text.isAscii signature = true) :
    Hostile expected (entry :: entries) ↔ Hostile expected entries := by
  constructor
  · rintro ⟨front, bad, back, heq, hfront, hbad⟩
    cases front with
    | nil =>
      obtain ⟨rfl, -⟩ := List.cons.inj heq
      obtain ⟨signature, hsig, hnot⟩ := hbad
      rw [hascii signature hsig] at hnot
      cases hnot
    | cons first front =>
      obtain ⟨rfl, rfl⟩ := List.cons.inj heq
      exact ⟨front, bad, back, rfl, fun hmem => hfront (List.mem_cons_of_mem _ hmem), hbad⟩
  · rintro ⟨front, bad, back, rfl, hfront, hbad⟩
    refine ⟨entry :: front, bad, back, rfl, ?_, hbad⟩
    rw [List.mem_cons, not_or]
    exact ⟨hmatch.symm, hfront⟩

/-- What the entries say of one expected value. -/
theorem compareEntries_spec (expected : String) (entries : List String)
    (hexpected : Text.isAscii expected = true) :
    (Hostile expected entries → compareEntries expected entries = .error ()) ∧
      (¬ Hostile expected entries →
        compareEntries expected entries = .ok (decide ("v1," ++ expected ∈ entries))) := by
  induction entries with
  | nil =>
    refine ⟨?_, fun _ => by simp [compareEntries]⟩
    rintro ⟨front, bad, back, heq, -⟩
    simp at heq
  | cons entry entries ih =>
    cases hpre : Text.afterPrefix "v1," entry with
    | none =>
      have hnot : ∀ s, entry ≠ "v1," ++ s := by
        rintro s rfl
        simp at hpre
      have hread : compareEntries expected (entry :: entries) =
          compareEntries expected entries := by rw [compareEntries, hpre]
      have hmem : "v1," ++ expected ∈ entry :: entries ↔ "v1," ++ expected ∈ entries := by
        rw [List.mem_cons, or_iff_right (hnot expected).symm]
      rw [hostile_cons (hnot expected) fun s hs => absurd hs (hnot s), hread]
      simpa only [hmem] using ih
    | some signature =>
      obtain rfl := afterPrefix_eq_some hpre
      by_cases hascii : Text.isAscii signature = true
      · have hdigest : compareDigest signature expected = .ok (decide (signature = expected)) := by
          rw [compareDigest, hascii, hexpected]
          rfl
        by_cases heq : signature = expected
        · subst heq
          have hread : compareEntries signature (("v1," ++ signature) :: entries) = .ok true := by
            rw [compareEntries, hpre]
            dsimp only
            rw [hdigest]
            simp
          have hnot : ¬ Hostile signature (("v1," ++ signature) :: entries) := by
            rintro ⟨front, bad, back, hsplit, hfront, s, rfl, hs⟩
            cases front with
            | nil =>
              obtain ⟨hfirst, -⟩ := List.cons.inj hsplit
              obtain rfl := (String.append_right_inj _).mp hfirst
              rw [hascii] at hs
              cases hs
            | cons first front =>
              obtain ⟨rfl, -⟩ := List.cons.inj hsplit
              exact hfront List.mem_cons_self
          refine ⟨fun h => absurd h hnot, fun _ => ?_⟩
          rw [hread]
          simp
        · have hne : "v1," ++ signature ≠ "v1," ++ expected := fun h => heq ((String.append_right_inj _).mp h)
          have hread : compareEntries expected (("v1," ++ signature) :: entries) =
              compareEntries expected entries := by
            rw [compareEntries, hpre]
            dsimp only
            rw [hdigest, decide_eq_false heq]
          have hmem : "v1," ++ expected ∈ ("v1," ++ signature) :: entries ↔
              "v1," ++ expected ∈ entries := by
            rw [List.mem_cons, or_iff_right hne.symm]
          rw [hostile_cons hne fun s hs => (String.append_right_inj _).mp hs ▸ hascii, hread]
          simpa only [hmem] using ih
      · have hnot : Text.isAscii signature = false := Bool.not_eq_true _ ▸ hascii
        have hhostile : Hostile expected (("v1," ++ signature) :: entries) :=
          ⟨[], _, entries, rfl, List.not_mem_nil, signature, rfl, hnot⟩
        refine ⟨fun _ => ?_, fun h => absurd hhostile h⟩
        rw [compareEntries, hpre]
        dsimp only
        rw [compareDigest, hnot]
        rfl

end compare

section secrets

variable {hmac : List UInt8 → List UInt8 → List UInt8} {signed : List UInt8}
  {entries : List String}

/-- Without a hostile entry for the first secret, all of them are compared. -/
theorem compareSecrets_spec (secret : List UInt8) (secrets : List (List UInt8)) :
    (Hostile (b64encode (hmac secret signed)) entries →
      compareSecrets hmac signed entries (secret :: secrets) = .error ()) ∧
      (¬ Hostile (b64encode (hmac secret signed)) entries →
        ∃ b, compareSecrets hmac signed entries (secret :: secrets) = .ok b ∧
          (b = true ↔ Signed hmac (secret :: secrets) signed entries)) := by
  induction secrets generalizing secret with
  | nil =>
    have hspec := compareEntries_spec (b64encode (hmac secret signed)) entries
      (isAscii_b64encode _)
    constructor
    · intro hhostile
      rw [compareSecrets, hspec.1 hhostile]
    · intro hnot
      refine ⟨decide ("v1," ++ b64encode (hmac secret signed) ∈ entries), ?_, ?_⟩
      · rw [compareSecrets, hspec.2 hnot]
        by_cases hmem : "v1," ++ b64encode (hmac secret signed) ∈ entries
        · rw [decide_eq_true hmem]
        · rw [decide_eq_false hmem, compareSecrets]
      · simp [Signed]
  | cons next secrets ih =>
    have hspec := compareEntries_spec (b64encode (hmac secret signed)) entries
      (isAscii_b64encode _)
    constructor
    · intro hhostile
      rw [compareSecrets, hspec.1 hhostile]
    · intro hnot
      by_cases hmem : "v1," ++ b64encode (hmac secret signed) ∈ entries
      · refine ⟨true, ?_, ?_⟩
        · rw [compareSecrets, hspec.2 hnot, decide_eq_true hmem]
        · have hsigned : Signed hmac (secret :: next :: secrets) signed entries :=
            ⟨secret, List.mem_cons_self, hmem⟩
          exact ⟨fun _ => hsigned, fun _ => rfl⟩
      · -- the first secret was compared with every entry, so none is hostile for another
        have hnext : ¬ Hostile (b64encode (hmac next signed)) entries := by
          rintro ⟨front, bad, back, rfl, -, hbad⟩
          exact hnot ⟨front, bad, back, rfl, fun h => hmem (List.mem_append_left _ h), hbad⟩
        obtain ⟨b, hb, hiff⟩ := (ih next).2 hnext
        refine ⟨b, ?_, hiff.trans ?_⟩
        · rw [compareSecrets, hspec.2 hnot, decide_eq_false hmem]
          exact hb
        · constructor
          · rintro ⟨key, hkey, hentry⟩
            exact ⟨key, List.mem_cons_of_mem _ hkey, hentry⟩
          · rintro ⟨key, hkey, hentry⟩
            cases List.mem_cons.mp hkey with
            | inl hfirst => exact absurd (hfirst ▸ hentry) hmem
            | inr hrest => exact ⟨key, hrest, hentry⟩

end secrets

/-! ## A request -/

section request

variable (hmac : List UInt8 → List UInt8 → List UInt8) (replaced : List UInt8 → List UInt8)
  (raw svixId svixTimestamp : String) (body : List UInt8) (header : String)

/-- What authentication is for: a Boolean, which says whether an entry was made with one of the
keys of this body, and no empty key. -/
def Authenticates : Prop :=
  (∃ b, verifySignature hmac replaced raw svixId svixTimestamp body header = .ok b ∧
    (b = true ↔ Signed hmac (allSecrets raw) (signedContent svixId svixTimestamp body)
      (words header)) ∧
    ((∀ key ∈ allSecrets raw, key = []) → b = false)) ∧
  ∀ key ∈ allSecrets raw, key ≠ []

/-- No entry that is not ASCII stands before the first that the first secret made; no piece of the
setting has an empty key; and decoding the body makes no difference to the entries. -/
def Authentic : Prop :=
  (∀ secret ∈ (allSecrets raw).head?,
    ¬ Hostile (b64encode (hmac secret (signedContent svixId svixTimestamp (replaced body))))
      (words header)) ∧
  (∀ key ∈ allSecrets raw, key ≠ []) ∧
  (Signed hmac (allSecrets raw) (signedContent svixId svixTimestamp (replaced body))
      (words header) ↔
    Signed hmac (allSecrets raw) (signedContent svixId svixTimestamp body) (words header))

variable {hmac replaced raw svixId svixTimestamp body header}

/-- Without a secret nothing is signed. -/
theorem not_signed_nil {content : List UInt8} {entries : List String} :
    ¬ Signed hmac [] content entries := by
  rintro ⟨key, hkey, -⟩
  cases hkey

/-- Without secrets nothing is verified. -/
theorem verifySignature_nil (h : allSecrets raw = []) :
    verifySignature hmac replaced raw svixId svixTimestamp body header = .ok false := by
  unfold verifySignature
  exact if_pos h

/-- With secrets the first one is compared first. -/
theorem verifySignature_cons {secret : List UInt8} {secrets : List (List UInt8)}
    (h : allSecrets raw = secret :: secrets) :
    verifySignature hmac replaced raw svixId svixTimestamp body header =
      compareSecrets hmac (signedContent svixId svixTimestamp (replaced body)) (words header)
        (secret :: secrets) := by
  unfold verifySignature
  rw [h]
  exact if_neg (List.cons_ne_nil _ _)

/-- What is answered where the comparison does not raise: whether the decoded body is signed. -/
theorem verifySignature_ok
    (h : ∀ secret ∈ (allSecrets raw).head?,
      ¬ Hostile (b64encode (hmac secret (signedContent svixId svixTimestamp (replaced body))))
        (words header)) :
    ∃ b, verifySignature hmac replaced raw svixId svixTimestamp body header = .ok b ∧
      (b = true ↔ Signed hmac (allSecrets raw)
        (signedContent svixId svixTimestamp (replaced body)) (words header)) := by
  cases hkeys : allSecrets raw with
  | nil => exact ⟨false, verifySignature_nil hkeys, by simp [not_signed_nil]⟩
  | cons secret secrets =>
    rw [verifySignature_cons hkeys]
    rw [hkeys] at h
    exact (compareSecrets_spec secret secrets).2 (h secret rfl)

/-- A hostile header raises at the first secret. -/
theorem verifySignature_raises {secret : List UInt8} (hsecret : secret ∈ (allSecrets raw).head?)
    (h : Hostile (b64encode (hmac secret (signedContent svixId svixTimestamp (replaced body))))
      (words header)) :
    verifySignature hmac replaced raw svixId svixTimestamp body header = .error () := by
  cases hkeys : allSecrets raw with
  | nil =>
    rw [hkeys] at hsecret
    cases hsecret
  | cons first secrets =>
    rw [hkeys] at hsecret
    obtain rfl := Option.some.inj hsecret
    rw [verifySignature_cons hkeys]
    exact (compareSecrets_spec first secrets).1 h

/-- An authentic request that nobody signed is refused. -/
theorem admission_refused (h : Authentic hmac replaced raw svixId svixTimestamp body header)
    (hunsigned : ¬ Signed hmac (allSecrets raw) (signedContent svixId svixTimestamp body)
      (words header)) (toInt : String → Option ℤ) (maxSkew now : ℤ) :
    admission hmac replaced toInt raw maxSkew now svixId svixTimestamp header body = .refused 400 ∨
      admission hmac replaced toInt raw maxSkew now svixId svixTimestamp header body =
        .refused 401 := by
  obtain ⟨b, hb, hiff⟩ := verifySignature_ok h.1
  have hfalse : b = false := by
    rw [← Bool.not_eq_true, hiff, h.2.2]
    exact hunsigned
  subst hfalse
  unfold admission
  split
  · exact .inl rfl
  · split
    · exact .inl rfl
    · split
      · exact .inl rfl
      · right
        rw [hb]

/-- Authentication does what it is for exactly under these conditions; without them it raises,
lets an empty key count, or misjudges a body that is not UTF-8. Then what is not signed is
refused. -/
theorem authenticates_iff (hmac : List UInt8 → List UInt8 → List UInt8)
    (replaced : List UInt8 → List UInt8) (raw svixId svixTimestamp : String) (body : List UInt8)
    (header : String) :
    (Authenticates hmac replaced raw svixId svixTimestamp body header ↔
      Authentic hmac replaced raw svixId svixTimestamp body header) ∧
    (Authentic hmac replaced raw svixId svixTimestamp body header →
      ¬ Signed hmac (allSecrets raw) (signedContent svixId svixTimestamp body) (words header) →
        ∀ toInt maxSkew now,
          admission hmac replaced toInt raw maxSkew now svixId svixTimestamp header body =
              .refused 400 ∨
            admission hmac replaced toInt raw maxSkew now svixId svixTimestamp header body =
              .refused 401) := by
  refine ⟨⟨?_, ?_⟩, admission_refused⟩
  · rintro ⟨⟨b, hb, hiff, -⟩, hkeys⟩
    have hquiet : ∀ secret ∈ (allSecrets raw).head?,
        ¬ Hostile (b64encode (hmac secret (signedContent svixId svixTimestamp (replaced body))))
          (words header) := by
      intro secret hsecret hhostile
      rw [verifySignature_raises hsecret hhostile] at hb
      cases hb
    refine ⟨hquiet, hkeys, ?_⟩
    obtain ⟨b', hb', hiff'⟩ := verifySignature_ok hquiet
    obtain rfl : b' = b := Except.ok.inj (hb'.symm.trans hb)
    exact hiff'.symm.trans hiff
  · rintro ⟨hquiet, hkeys, hbody⟩
    obtain ⟨b, hb, hiff⟩ := verifySignature_ok hquiet
    refine ⟨⟨b, hb, hiff.trans hbody, fun hempty => ?_⟩, hkeys⟩
    have hnone : allSecrets raw = [] :=
      List.eq_nil_iff_forall_not_mem.mpr fun key hkey => hkeys key hkey (hempty key hkey)
    rw [verifySignature_nil hnone] at hb
    exact (Except.ok.inj hb).symm

end request

/-- One entry that is not ASCII, and one piece that leaves nothing behind its prefix. -/
theorem odd_corners :
    verifySignature (fun key message => key ++ message) id "whsec_AAAA" "id" "1" [] "v1,é" =
        .error () ∧
      admission (fun key message => key ++ message) id (fun _ => some 1) "whsec_AAAA" 600 1 "id" "1"
        "v1,é" [] = .crashed ∧
      allSecrets "whsec_" = [[]] ∧
      admission (fun key message => key ++ message) id (fun _ => some 1) "whsec_" 600 1 "id" "1"
        "v1,aWQuMS4=" [] = .admitted := by
  exact ⟨by decide +kernel, by decide +kernel, by decide +kernel, by decide +kernel⟩

end Mailman.Analysis
