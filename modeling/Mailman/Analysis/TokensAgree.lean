import Mailman.Model.Tokens

/-!
# Tokens minted by the terminal, verified by the cloud

What `mintToken` writes, `verify` reads back: the payload through URL-safe Base64 without padding
and JSON, the signature through the key and the payload as it was written. A signature belongs to
one key and one payload when HMAC is injective.
-/

set_option autoImplicit false

namespace Mailman.Analysis

open Mailman.Library Mailman.Model.Tokens

/-! ## URL-safe Base64 -/

/-- A digit goes to its URL-safe form and back, and is no dot. -/
theorem urlSafe_digit {v : ℕ} (hv : v < 64) :
    fromUrlSafe (toUrlSafe (Base64.digit v)) = Base64.digit v ∧
      toUrlSafe (Base64.digit v) ≠ '=' ∧ toUrlSafe (Base64.digit v) ≠ '.' ∧
      (toUrlSafe (Base64.digit v)).toNat < 128 := by
  have hall : ∀ w : Fin 64, fromUrlSafe (toUrlSafe (Base64.digit w)) = Base64.digit w ∧
      toUrlSafe (Base64.digit w) ≠ '=' ∧ toUrlSafe (Base64.digit w) ≠ '.' ∧
        (toUrlSafe (Base64.digit w)).toNat < 128 := by decide +kernel
  exact hall ⟨v, hv⟩

/-- Dropping the padding leaves the digits. -/
theorem rdropWhile_padding {l : List Char} (hl : ∀ c ∈ l, c ≠ '=') (n : ℕ) :
    (l ++ List.replicate n '=').rdropWhile (· = '=') = l := by
  induction n with
  | zero =>
    rw [List.replicate_zero, List.append_nil, List.rdropWhile_eq_self_iff]
    intro hne
    simpa using hl _ (List.getLast_mem hne)
  | succ n ih =>
    rw [List.replicate_succ', ← List.append_assoc, List.rdropWhile_concat_pos _ _ _ (by simp), ih]

/-- The padding has no other form. -/
theorem map_padding {f : Char → Char} (hf : f '=' = '=') (n : ℕ) :
    (Base64.padding n).map f = Base64.padding n := by
  unfold Base64.padding
  rw [List.map_replicate, hf]

/-- The characters of the URL-safe form. -/
theorem toList_b64u (b : List UInt8) : (b64u b).toList = (Base64.encode b).map toUrlSafe := by
  have hne : ∀ c ∈ (Base64.encode b).map toUrlSafe, c ≠ '=' := by
    intro c hc
    obtain ⟨d, hd, rfl⟩ := List.mem_map.mp hc
    obtain ⟨v, hv, rfl⟩ := Base64.mem_encode hd
    exact (urlSafe_digit hv).2.1
  rw [b64u, String.toList_ofList, List.map_append, map_padding rfl]
  exact rdropWhile_padding hne _

/-- The URL-safe form is ASCII without dots. -/
theorem mem_b64u {b : List UInt8} {c : Char} (h : c ∈ (b64u b).toList) :
    c ≠ '.' ∧ c.toNat < 128 := by
  rw [toList_b64u] at h
  obtain ⟨d, hd, rfl⟩ := List.mem_map.mp h
  obtain ⟨v, hv, rfl⟩ := Base64.mem_encode hd
  exact (urlSafe_digit hv).2.2

/-- The URL-safe form is ASCII. -/
theorem isAscii_b64u (b : List UInt8) : Text.isAscii (b64u b) = true := by
  unfold Text.isAscii
  rw [List.all_eq_true]
  intro c hc
  exact decide_eq_true (mem_b64u hc).2

/-- Padding and translation undo what `b64u` left out. -/
theorem b64uDecode_b64u (b : List UInt8) : b64uDecode (b64u b) = some b := by
  have hback : ((Base64.encode b).map toUrlSafe).map fromUrlSafe = Base64.encode b := by
    rw [List.map_map]
    have hid : ∀ c ∈ Base64.encode b, (fromUrlSafe ∘ toUrlSafe) c = id c := by
      intro c hc
      obtain ⟨v, hv, rfl⟩ := Base64.mem_encode hc
      exact (urlSafe_digit hv).1
    rw [List.map_congr_left hid, List.map_id]
  have hlength : (b64u b).length = (Base64.encode b).length := by
    rw [← String.length_toList, toList_b64u, List.length_map]
  unfold b64uDecode
  rw [if_pos (isAscii_b64u b), toList_b64u, hlength, List.map_append, map_padding rfl, hback]
  exact Base64.decode_encode_pad b

/-! ## The parts of a token -/

/-- A text without dots in front of a dot is split there. -/
theorem splitDot_join {a : String} (ha : '.' ∉ a.toList) (b : String) :
    splitDot (a ++ "." ++ b) = some (a, b) := by
  have hall : ∀ c ∈ a.toList, decide (c ≠ '.') = true := by
    intro c hc
    have hne : c ≠ '.' := fun heq => ha (heq ▸ hc)
    exact decide_eq_true hne
  have hlist : (a ++ "." ++ b).toList = a.toList ++ '.' :: b.toList := by simp
  unfold splitDot
  rw [hlist, List.dropWhile_append_of_pos hall, List.takeWhile_append_of_pos hall]
  simp

/-- A split text is joined by its first dot. -/
theorem splitDot_eq {t a b : String} (h : splitDot t = some (a, b)) :
    '.' ∉ a.toList ∧ t = a ++ "." ++ b := by
  unfold splitDot at h
  cases hdrop : t.toList.dropWhile (· ≠ '.') with
  | nil =>
    rw [hdrop] at h
    cases h
  | cons c rest =>
    rw [hdrop] at h
    obtain ⟨rfl, rfl⟩ := Prod.mk.inj (Option.some.inj h)
    have hc : c = '.' := by
      have hhead := List.head?_dropWhile_not (fun c => decide (c ≠ '.')) t.toList
      rw [hdrop] at hhead
      simpa using hhead
    constructor
    · intro hmem
      rw [String.toList_ofList] at hmem
      simpa using List.mem_takeWhile_imp hmem
    · apply String.toList_inj.mp
      have hparts := List.takeWhile_append_dropWhile (p := fun c => decide (c ≠ '.')) (l := t.toList)
      rw [hdrop, hc] at hparts
      simpa using hparts.symm

/-- An ASCII text is known by its bytes. -/
theorem ascii_inj {a b : String} {m : List UInt8} (ha : ascii a = some m) (hb : ascii b = some m) :
    a = b := by
  unfold ascii at ha hb
  split at ha
  · next hasciiA =>
    split at hb
    · next hasciiB =>
      have hbytes : a.toList.map (fun c => UInt8.ofNat c.toNat) =
          b.toList.map (fun c => UInt8.ofNat c.toNat) :=
        (Option.some.inj ha).trans (Option.some.inj hb).symm
      have hsmall : ∀ (s : String), Text.isAscii s = true →
          (s.toList.map fun c => UInt8.ofNat c.toNat).map (fun u => Char.ofNat u.toNat) =
            s.toList := by
        intro s hs
        unfold Text.isAscii at hs
        rw [List.all_eq_true] at hs
        rw [List.map_map]
        have hid : ∀ c ∈ s.toList,
            ((fun u : UInt8 => Char.ofNat u.toNat) ∘ fun c => UInt8.ofNat c.toNat) c = id c := by
          intro c hc
          have hlt := of_decide_eq_true (hs c hc)
          have hbyte : (UInt8.ofNat c.toNat).toNat = c.toNat :=
            UInt8.toNat_ofNat_of_lt' (hlt.trans (by decide))
          simp only [Function.comp_apply, hbyte, Char.ofNat_toNat, id_eq]
        rw [List.map_congr_left hid, List.map_id]
      apply String.toList_inj.mp
      rw [← hsmall a hasciiA, ← hsmall b hasciiB, hbytes]
    · cases hb
  · cases ha

/-! ## Verifying -/

section verify

variable {rt : Runtime} {settings : Kind → String} {kind : Kind} {now : ℤ}

/-- A token in its parts. -/
theorem verify_join {a : String} (ha : '.' ∉ a.toList) (b : String) :
    verify rt settings kind (a ++ "." ++ b) now = verifyParts rt settings kind a b now := by
  unfold verify
  rw [splitDot_join ha]

/-- A signature that is read. -/
theorem verifyParts_signed {a b : String} {message sig : List UInt8} (ha : ascii a = some message)
    (hb : b64uDecode b = some sig) :
    verifyParts rt settings kind a b now =
      if sig ≠ rt.hmac (secretFor rt settings kind) message then .error (.invalid .badSignature)
      else readPayload rt (loadsB64u rt a) now := by
  unfold verifyParts
  rw [ha, hb]

/-- What is verified has the signature of its message. -/
theorem verifyParts_ok {a b : String} {h : Json.Text}
    (hok : verifyParts rt settings kind a b now = .ok h) :
    ∃ message, ascii a = some message ∧
      b64uDecode b = some (rt.hmac (secretFor rt settings kind) message) := by
  unfold verifyParts at hok
  split at hok
  · next message sig hmessage hsig =>
    refine ⟨message, hmessage, ?_⟩
    split at hok
    · cases hok
    · next heq => rw [hsig, not_not.mp heq]
  · cases hok

/-- What is accepted has a signature of what stands before its first dot. -/
theorem verify_ok {token : String} {h : Json.Text}
    (hok : verify rt settings kind token now = .ok h) :
    ∃ a b message, '.' ∉ a.toList ∧ token = a ++ "." ++ b ∧ ascii a = some message ∧
      b64uDecode b = some (rt.hmac (secretFor rt settings kind) message) := by
  cases hsplit : splitDot token with
  | none =>
    unfold verify at hok
    rw [hsplit] at hok
    cases hok
  | some p =>
    obtain ⟨a, b⟩ := p
    obtain ⟨ha, rfl⟩ := splitDot_eq hsplit
    rw [verify_join ha] at hok
    obtain ⟨message, hmessage, hsig⟩ := verifyParts_ok hok
    exact ⟨a, b, message, ha, rfl, hmessage, hsig⟩

/-- The parts of a minted token. -/
theorem mintToken_eq {emailHash token : String} {ttl : ℤ} {random : List UInt8}
    (hmint : mintToken rt settings kind emailHash ttl random now = some token) :
    ∃ payload message,
      Json.dumps [("h", .str emailHash), ("n", .str (b64u random)), ("x", .int (now + ttl))] =
        some payload ∧
      ascii (b64u (payload.map UInt8.ofNat)) = some message ∧
      token = b64u (payload.map UInt8.ofNat) ++ "." ++
        b64u (rt.hmac (secret rt settings kind) message) := by
  obtain ⟨payload, hpayload, hrest⟩ := Option.bind_eq_some_iff.mp hmint
  obtain ⟨message, hmessage, rfl⟩ := Option.map_eq_some_iff.mp hrest
  exact ⟨payload, message, hpayload, hmessage, rfl⟩

/-- The bytes of a dumped payload are read back. -/
theorem loadsB64u_dumps
    (htext : ∀ b : List UInt8, (∀ u ∈ b, 0 < u.toNat ∧ u.toNat < 128) →
      rt.text b = some (b.map UInt8.toNat))
    {members : List (String × Json.Field)} {payload : Json.Text}
    (hdumps : Json.dumps members = some payload) (hne : members ≠ []) :
    loadsB64u rt (b64u (payload.map UInt8.ofNat)) =
      some (.obj (members.map fun m => (Json.codes m.1, m.2.toValue))) := by
  have hprint := Json.printable_dumps hdumps
  have hbyte : ∀ c ∈ payload, (UInt8.ofNat c).toNat = c := by
    intro c hc
    exact UInt8.toNat_ofNat_of_lt' ((hprint c hc).2.trans_lt (by decide))
  have hbytes : rt.text (payload.map UInt8.ofNat) = some payload := by
    rw [htext]
    · have hid : ∀ c ∈ payload, (UInt8.toNat ∘ UInt8.ofNat) c = id c := hbyte
      rw [List.map_map, List.map_congr_left hid, List.map_id]
    · intro u hu
      obtain ⟨c, hc, rfl⟩ := List.mem_map.mp hu
      rw [hbyte c hc]
      have hrange := hprint c hc
      omega
  unfold loadsB64u
  rw [b64uDecode_b64u, Option.bind_some, hbytes, Option.bind_some, Json.loads_dumps hdumps hne]

end verify

/-! ## Two sides -/

section sides

variable {rt : Runtime} {terminal cloud : Kind → String}

/-- What `mintToken` writes, as `verify` reads it. -/
theorem readPayload_minted (h n : Json.Text) (x now : ℤ) :
    readPayload rt (some (.obj [(Json.codes "h", .str h), (Json.codes "n", .str n),
      (Json.codes "x", .int x)])) now = if x < now then .error .expired else .ok h := by
  have hh : Json.codes "h" = [104] := by decide
  have hn : Json.codes "n" = [110] := by decide
  have hx : Json.codes "x" = [120] := by decide
  simp [readPayload, Json.lookup, hh, hn, hx, List.lookup_cons, Runtime.int, Runtime.str]

/-- A minted token is the hash until its expiry, and expired after it. -/
theorem verify_mint
    (htext : ∀ b : List UInt8, (∀ u ∈ b, 0 < u.toNat ∧ u.toNat < 128) →
      rt.text b = some (b.map UInt8.toNat))
    (hequal : ∀ kind, secret rt terminal kind = secretFor rt cloud kind)
    {kind : Kind} {emailHash token : String} {ttl minted : ℤ} {random : List UInt8}
    (hmint : mintToken rt terminal kind emailHash ttl random minted = some token) (now : ℤ) :
    verify rt cloud kind token now =
      if minted + ttl < now then .error .expired else .ok (Json.codes emailHash) := by
  obtain ⟨payload, message, hdumps, hmessage, rfl⟩ := mintToken_eq hmint
  have hdot : '.' ∉ (b64u (payload.map UInt8.ofNat)).toList := fun h => (mem_b64u h).1 rfl
  rw [verify_join hdot, verifyParts_signed hmessage (b64uDecode_b64u _), if_neg, loadsB64u_dumps
    htext hdumps (List.cons_ne_nil _ _)]
  · exact readPayload_minted _ _ _ _
  · rw [hequal, not_not]

/-- A token that is minted for one kind has no signature of the other. -/
theorem verify_mint_other
    (hinj : ∀ key message key' message', rt.hmac key message = rt.hmac key' message' →
      key = key' ∧ message = message')
    (hequal : ∀ kind, secret rt terminal kind = secretFor rt cloud kind)
    (hdiff : secretFor rt cloud .unsub ≠ secretFor rt cloud .erasure)
    {kind kind' : Kind} (hkind : kind ≠ kind') {emailHash token : String} {ttl minted : ℤ}
    {random : List UInt8}
    (hmint : mintToken rt terminal kind emailHash ttl random minted = some token) (now : ℤ) :
    verify rt cloud kind' token now = .error (.invalid .badSignature) := by
  obtain ⟨payload, message, -, hmessage, rfl⟩ := mintToken_eq hmint
  have hdot : '.' ∉ (b64u (payload.map UInt8.ofNat)).toList := fun h => (mem_b64u h).1 rfl
  rw [verify_join hdot, verifyParts_signed hmessage (b64uDecode_b64u _), if_pos]
  intro heq
  have hsecret := (hinj _ _ _ _ heq).1
  rw [hequal] at hsecret
  cases kind with
  | unsub =>
    cases kind' with
    | unsub => exact hkind rfl
    | erasure => exact hdiff hsecret
  | erasure =>
    cases kind' with
    | unsub => exact hdiff hsecret.symm
    | erasure => exact hkind rfl

/-- No other payload goes with the signature of an accepted token. -/
theorem verify_other_payload
    (hinj : ∀ key message key' message', rt.hmac key message = rt.hmac key' message' →
      key = key' ∧ message = message')
    {kind : Kind} {token : String} {now : ℤ} {h : Json.Text}
    (hok : verify rt cloud kind token now = .ok h) :
    ∃ a b, '.' ∉ a.toList ∧ token = a ++ "." ++ b ∧
      ∀ a', '.' ∉ a'.toList → a' ≠ a → ∀ now' h',
        verify rt cloud kind (a' ++ "." ++ b) now' ≠ .ok h' := by
  obtain ⟨a, b, message, ha, rfl, hmessage, hsig⟩ := verify_ok hok
  refine ⟨a, b, ha, rfl, fun a' ha' hne now' h' hok' => ?_⟩
  rw [verify_join ha'] at hok'
  obtain ⟨message', hmessage', hsig'⟩ := verifyParts_ok hok'
  have heq := Option.some.inj (hsig.symm.trans hsig')
  obtain rfl := (hinj _ _ _ _ heq).2
  exact hne (ascii_inj hmessage' hmessage)

/-- The two implementations agree, a payload cannot be exchanged for another one without a dot,
and neither can a kind. -/
theorem tokens_agree
    (hinj : ∀ key message key' message', rt.hmac key message = rt.hmac key' message' →
      key = key' ∧ message = message')
    (htext : ∀ b : List UInt8, (∀ u ∈ b, 0 < u.toNat ∧ u.toNat < 128) →
      rt.text b = some (b.map UInt8.toNat))
    (hequal : ∀ kind, secret rt terminal kind = secretFor rt cloud kind)
    (hdiff : secretFor rt cloud .unsub ≠ secretFor rt cloud .erasure) :
    (∀ kind emailHash ttl random minted token,
      mintToken rt terminal kind emailHash ttl random minted = some token →
        (∀ now ≤ minted + ttl, verify rt cloud kind token now = .ok (Json.codes emailHash)) ∧
        (∀ now > minted + ttl, verify rt cloud kind token now = .error .expired) ∧
        ∀ kind' ≠ kind, ∀ now h, verify rt cloud kind' token now ≠ .ok h) ∧
      ∀ kind token now h, verify rt cloud kind token now = .ok h →
        ∃ a b, '.' ∉ a.toList ∧ token = a ++ "." ++ b ∧
          ∀ a', '.' ∉ a'.toList → a' ≠ a → ∀ now' h',
            verify rt cloud kind (a' ++ "." ++ b) now' ≠ .ok h' := by
  constructor
  · intro kind emailHash ttl random minted token hmint
    refine ⟨fun now hnow => ?_, fun now hnow => ?_, fun kind' hkind now h hok => ?_⟩
    · rw [verify_mint htext hequal hmint, if_neg (by omega)]
    · rw [verify_mint htext hequal hmint, if_pos hnow]
    · rw [verify_mint_other hinj hequal hdiff hkind.symm hmint] at hok
      cases hok
  · intro kind token now h hok
    exact verify_other_payload hinj hok

end sides

/-! ## Two links to unsubscribe -/

/-- A MAC that spells its key and message out. -/
def spelledOut : Runtime where
  hmac key message := List.replicate key.length 1 ++ 0 :: (key ++ message)
  sha256 b := b
  text b := some (b.map UInt8.toNat)
  intOf _ := none
  strOf _ := []

/-- The signature of the example spells out key and message. -/
theorem spelledOut_inj (key message key' message' : List UInt8)
    (h : spelledOut.hmac key message = spelledOut.hmac key' message') :
    key = key' ∧ message = message' := by
  have hcount : (List.replicate key.length (1 : UInt8)).count 0 =
      (List.replicate key'.length (1 : UInt8)).count 0 := by
    rw [List.count_replicate, List.count_replicate]
    rfl
  obtain ⟨hkeys, hrest⟩ := Text.append_cons_inj hcount h
  have hlength : key.length = key'.length := by
    simpa using congrArg List.length hkeys
  exact List.append_inj hrest hlength

def twoSecrets : Kind → String
  | .unsub => "u"
  | .erasure => "e"

/-- A token of the example is verified in time. -/
theorem tokens_agree_spelledOut : ∃ token,
    mintToken spelledOut twoSecrets .unsub "ab" 5 [1, 2] 100 = some token ∧
      verify spelledOut twoSecrets .unsub token 105 = .ok (Json.codes "ab") ∧
      verify spelledOut twoSecrets .unsub token 106 = .error .expired := by
  have hminted : (mintToken spelledOut twoSecrets .unsub "ab" 5 [1, 2] 100).isSome = true := by
    decide +kernel
  obtain ⟨token, htoken⟩ := Option.isSome_iff_exists.mp hminted
  have hequal : ∀ kind, secret spelledOut twoSecrets kind = secretFor spelledOut twoSecrets kind := by
    intro kind
    cases kind <;> rfl
  have hagree := tokens_agree spelledOut_inj (fun _ _ => rfl) hequal (by decide +kernel)
  obtain ⟨hvalid, hexpired, -⟩ := hagree.1 .unsub "ab" 5 [1, 2] 100 token htoken
  exact ⟨token, htoken, hvalid 105 (by decide), hexpired 106 (by decide)⟩

/-- The part before the first dot is exchanged for another minted token and a `=`: the reader
stops at the `=`, so the signature is the other token's own. -/
theorem payload_exchanged :
    verify spelledOut twoSecrets .unsub ("eyJoIjoiYWIiLCJuIjoiIiwieCI6MTB9" ++ "." ++
        "AQB1ZXlKb0lqb2lZV0lpTENKdUlqb2lJaXdpZUNJNk1UQjk") 10 = .ok (Json.codes "ab") ∧
    "eyJoIjoiY2QiLCJuIjoiIiwieCI6MTB9.AQB1ZXlKb0lqb2lZMlFpTENKdUlqb2lJaXdpZUNJNk1UQjk=" ≠
      "eyJoIjoiYWIiLCJuIjoiIiwieCI6MTB9" ∧
    verify spelledOut twoSecrets .unsub
      ("eyJoIjoiY2QiLCJuIjoiIiwieCI6MTB9.AQB1ZXlKb0lqb2lZMlFpTENKdUlqb2lJaXdpZUNJNk1UQjk=" ++ "."
        ++ "AQB1ZXlKb0lqb2lZV0lpTENKdUlqb2lJaXdpZUNJNk1UQjk") 10 = .ok (Json.codes "cd") :=
  ⟨by decide +kernel, by decide, by decide +kernel⟩

end Mailman.Analysis
