import Mathlib.Logic.Equiv.List
import Mailman.Analysis.PackPosted
import Mailman.Model.EventBytes

/-!
# What a terminal opens of a webhook event

The envelope of the webhook is the one the inbox knows without bytes: each terminal opens it by its
own key pair, and reads what the webhook has written.
-/

set_option autoImplicit false

namespace Mailman.Analysis

open Mailman.Library Mailman.Model Mailman.Model.EventBytes

variable {rt : EventBytes.Runtime}

/-! ## The envelope -/

/-- A sealed box opens for the private half of its public key, and for no other key pair. -/
def BoxesOpen (rt : EventBytes.Runtime) : Prop :=
  ∀ priv pub seed data, rt.boxDecrypt priv (rt.boxEncrypt pub seed data) =
    if rt.publicKey priv = pub then some data else none

/-- The public key of a role. -/
def pubkeyOf (pubkeys : Pubkeys) : Actor → PackBytes.Bytes
  | .operator => pubkeys.operator
  | .client => pubkeys.client

/-- An envelope for both opens under the two pairs in their roles, and under no others. -/
theorem decryptForBoth_encrypt (htext : ReadsAscii rt.toCipher)
    (hcipher : ∀ key nonce data, rt.decrypt key nonce (rt.encrypt key nonce data) = some data)
    (hbox : BoxesOpen rt) {pubkeys : Pubkeys} {d : EventBytes.Draws}
    {plaintext envelope : PackBytes.Bytes}
    (h : encryptForBoth rt pubkeys d plaintext = some envelope) (bundle : EventBytes.KeyBundle) :
    EventBytes.decryptForBoth rt envelope bundle =
      if rt.publicKey bundle.ownKemPriv = pubkeyOf pubkeys bundle.ownRole then some plaintext
      else none := by
  unfold encryptForBoth at h
  obtain ⟨t, ht, rfl⟩ := Option.map_eq_some_iff.mp h
  generalize hct : rt.encrypt d.key d.nonce plaintext = ct at ht
  generalize hwrapOp : rt.boxEncrypt pubkeys.operator d.opSeed d.key = wrapOp at ht
  generalize hwrapCl : rt.boxEncrypt pubkeys.client d.clSeed d.key = wrapCl at ht
  generalize hmembers : bothEnvelope d.nonce ct wrapOp wrapCl = members at ht
  have hmode : PackBytes.hasMode "K_op+K_cl" (Json.toMembers members) = true := by
    rw [← hmembers, hasMode_written rfl]
    rfl
  have hnonce : PackBytes.bytesField "nonce" (Json.toMembers members) = some d.nonce := by
    rw [← hmembers]
    exact bytesField_written rfl
  have hfield : PackBytes.bytesField "ct" (Json.toMembers members) = some ct := by
    rw [← hmembers]
    exact bytesField_written rfl
  have hwrap : ∃ seed, PackBytes.bytesField
      (if bundle.ownRole = .operator then "wrap_op" else "wrap_cl") (Json.toMembers members) =
        some (rt.boxEncrypt (pubkeyOf pubkeys bundle.ownRole) seed d.key) := by
    rw [← hmembers, ← hwrapOp, ← hwrapCl]
    cases bundle.ownRole with
    | operator => exact ⟨d.opSeed, bytesField_written rfl⟩
    | client => exact ⟨d.clSeed, bytesField_written rfl⟩
  obtain ⟨seed, hwrap⟩ := hwrap
  unfold EventBytes.decryptForBoth
  rw [loads_encode htext rfl ht, Json.Data.toValue]
  dsimp only
  rw [if_pos hmode, hwrap, Option.bind_eq_bind, Option.bind_some, hbox]
  by_cases hkey : rt.publicKey bundle.ownKemPriv = pubkeyOf pubkeys bundle.ownRole
  · rw [if_pos hkey, if_pos hkey, hnonce, hfield, ← hct]
    exact hcipher _ _ _
  · rw [if_neg hkey, if_neg hkey]
    rfl

/-- A key of packs opens no envelope of events. -/
theorem decryptWithTemp_both (htext : ReadsAscii rt.toCipher) {pubkeys : Pubkeys}
    {d : EventBytes.Draws} {plaintext envelope k : PackBytes.Bytes} (hk : k.length = 32)
    (h : encryptForBoth rt pubkeys d plaintext = some envelope) :
    PackBytes.decryptWithTemp rt.toCipher (some envelope) k = .error .wrongMode := by
  unfold encryptForBoth at h
  obtain ⟨t, ht, rfl⟩ := Option.map_eq_some_iff.mp h
  unfold PackBytes.decryptWithTemp
  rw [if_neg (not_not_intro hk), Option.bind_some, loads_encode htext rfl ht, Json.Data.toValue]
  dsimp only
  rw [if_neg]
  rw [hasMode_written rfl]
  decide

/-! ## The payload -/

section fields

variable {members : List (String × Json.Data)} {name : String}

/-- A text that was written in a field is read from it. -/
theorem textField_text {s : String} (h : members.reverse.lookup name = some (.str s)) :
    textField name (Json.toMembers members) = some s := by
  unfold textField
  rw [Json.lookup_toMembers, h]
  show some (String.ofList ((Json.codes s).map Char.ofNat)) = some s
  rw [ofNat_codes, String.ofList_toList]

/-- A text or null that was written in a field is read from it. -/
theorem textField_orNull {value : Option String}
    (h : members.reverse.lookup name = some (EventBytes.orNull value)) :
    textField name (Json.toMembers members) = value := by
  cases value with
  | some s => exact textField_text h
  | none =>
    unfold textField
    rw [Json.lookup_toMembers, h]
    rfl

/-- A field that was not written is not read. -/
theorem textField_missing (h : members.reverse.lookup name = none) :
    textField name (Json.toMembers members) = none := by
  unfold textField
  rw [Json.lookup_toMembers, h]
  rfl

/-- A text that was written is read where null may stand. -/
theorem nullField_text {s : String} (h : members.reverse.lookup name = some (.str s)) :
    nullField name (Json.toMembers members) = some (some s) := by
  unfold nullField
  rw [textField_text h, Json.lookup_toMembers, h]
  rfl

/-- A field that was not written is missing where null may stand. -/
theorem nullField_missing (h : members.reverse.lookup name = none) :
    nullField name (Json.toMembers members) = none := by
  unfold nullField
  rw [Json.lookup_toMembers, h]
  rfl

end fields

variable {e : WebhookIn} {addedAt : String}

/-- What is read of an event's payload. -/
theorem readPayload_event : readPayload (Json.toMembers (eventPayload e)) =
    { eventType := webhookType e.eventType, messageId := e.messageId } := by
  unfold readPayload
  rw [textField_missing rfl, nullField_missing rfl, nullField_missing rfl, nullField_missing rfl,
    @textField_text _ "event_type" _ rfl, textField_orNull rfl]
  rfl

/-- What is read of a suppression's payload. -/
theorem readPayload_suppression (h reason eventType : String) :
    readPayload (Json.toMembers (EventBytes.suppressionPayload h reason eventType addedAt)) =
      { emailHash := some h, reason := some (some reason)
        source := some (some ("webhook:" ++ eventType)), addedAt := some (some addedAt) } := by
  unfold readPayload
  rw [@textField_text _ "email_hash" _ rfl, nullField_text rfl, nullField_text rfl,
    nullField_text rfl, textField_missing rfl, textField_missing rfl]
  rfl

/-! ## The events -/

/-- What the webhook says by its events: their tables and rows, and what is to be read of them. -/
def said (rt : EventBytes.Runtime) (e : WebhookIn) (addedAt : String) :
    List (SyncTable × String × InboxPayload) :=
  (.webhookEvent, e.svixId, { eventType := webhookType e.eventType, messageId := e.messageId }) ::
    (EventBytes.suppressed rt e).toList.map fun s => (.suppression, s.1,
      { emailHash := some s.1, reason := some (some s.2)
        source := some (some ("webhook:" ++ e.eventType)), addedAt := some (some addedAt) })

/-- An event of the log is what was said, as the inbox knows it: sealed for the key pairs of both
terminals. No key of packs opens it. -/
structure Says (rt : EventBytes.Runtime) (name : PackBytes.Bytes → KemKey) (pubkeys : Pubkeys)
    (w : Written) (s : SyncTable × String × InboxPayload) : Prop where
  table : w.table = s.1
  row : w.rowId = s.2.1
  opens : ∀ bundle : EventBytes.KeyBundle, openEvent rt bundle w.payload = Model.decryptForBoth
    (.sealed (name pubkeys.operator) (name pubkeys.client) (some s.2.2))
    ⟨bundle.ownRole, name (rt.publicKey bundle.ownKemPriv)⟩
  closed : ∀ k : PackBytes.Bytes, k.length = 32 →
    PackBytes.decryptWithTemp rt.toCipher (some w.payload) k = .error .wrongMode

/-- A sealed payload says what was written. -/
theorem says_of_sealed (htext : ReadsAscii rt.toCipher)
    (hcipher : ∀ key nonce data, rt.decrypt key nonce (rt.encrypt key nonce data) = some data)
    (hbox : BoxesOpen rt) {name : PackBytes.Bytes → KemKey} (hname : Function.Injective name)
    {pubkeys : Pubkeys} {d : EventBytes.Draws} {members : List (String × Json.Data)}
    {envelope : PackBytes.Bytes}
    (h : ((Json.dumpsWith .spaced (.obj members)).bind fun t =>
      encryptForBoth rt pubkeys d (PackBytes.encode t)) = some envelope)
    (table : SyncTable) (row : String) :
    Says rt name pubkeys ⟨table, row, envelope⟩
      (table, row, readPayload (Json.toMembers members)) := by
  obtain ⟨t, ht, henvelope⟩ := Option.bind_eq_some_iff.mp h
  refine ⟨rfl, rfl, fun bundle => ?_, fun k hk => decryptWithTemp_both htext hk henvelope⟩
  have hkey : (if bundle.ownRole = .operator then name pubkeys.operator else name pubkeys.client) =
      name (pubkeyOf pubkeys bundle.ownRole) := by
    cases bundle.ownRole <;> rfl
  unfold openEvent Model.decryptForBoth
  rw [decryptForBoth_encrypt htext hcipher hbox henvelope]
  dsimp only
  rw [hkey]
  by_cases hpair : rt.publicKey bundle.ownKemPriv = pubkeyOf pubkeys bundle.ownRole
  · rw [if_pos hpair, if_pos (congrArg name hpair.symm), Option.bind_some,
      loads_encode htext rfl ht]
    rfl
  · rw [if_neg hpair, if_neg fun hsame => hpair (hname hsame).symm]
    rfl

/-- Each event that the webhook writes is opened by a terminal just as the inbox without bytes has
it: by the two key pairs it was sealed for, in their own roles, and by no other, and what is read
of it is what the webhook said. -/
theorem events_opened (htext : ReadsAscii rt.toCipher)
    (hcipher : ∀ key nonce data, rt.decrypt key nonce (rt.encrypt key nonce data) = some data)
    (hbox : BoxesOpen rt) {name : PackBytes.Bytes → KemKey} (hname : Function.Injective name)
    {table : Actor → Option PackBytes.Bytes} {pubkeys : Pubkeys}
    (hpubkeys : loadPubkeys table = some pubkeys) {d d' : EventBytes.Draws} {written : List Written}
    (h : writeEvents rt table d d' e addedAt = some written) :
    List.Forall₂ (Says rt name pubkeys) written (said rt e addedAt) := by
  unfold writeEvents at h
  rw [hpubkeys, Option.bind_eq_bind, Option.bind_some] at h
  obtain ⟨event, hevent, h⟩ := Option.bind_eq_some_iff.mp h
  have hfirst := says_of_sealed htext hcipher hbox hname hevent .webhookEvent e.svixId
  rw [readPayload_event] at hfirst
  unfold said
  cases hsuppressed : EventBytes.suppressed rt e with
  | none =>
    rw [hsuppressed] at h
    obtain rfl := Option.some.inj h
    exact .cons hfirst .nil
  | some s =>
    rw [hsuppressed] at h
    obtain ⟨suppression, hsuppression, h⟩ := Option.bind_eq_some_iff.mp h
    obtain rfl := Option.some.inj h
    have hsecond := says_of_sealed htext hcipher hbox hname hsuppression .suppression s.1
    rw [readPayload_suppression] at hsecond
    exact .cons hfirst (.cons hsecond .nil)

/-! A box that shows how long its public key is, and then the key. -/

private def openBox (priv c : PackBytes.Bytes) : Option PackBytes.Bytes :=
  let n := (c.takeWhile (· = 1)).length
  if (c.drop (n + 1)).take n = priv then some ((c.drop (n + 1)).drop n) else none

private def boxedRuntime : EventBytes.Runtime where
  hmac key message := key ++ message
  sha256 := id
  text b := some (b.map UInt8.toNat)
  intOf _ := none
  strOf _ := []
  encrypt _ _ data := data
  decrypt _ _ data := some data
  floatTrue _ := true
  boxEncrypt pub _ data := List.replicate pub.length 1 ++ 0 :: (pub ++ data)
  boxDecrypt := openBox
  publicKey := id
  emailHash := id

/-- The boxes of the example open. -/
private theorem boxes_open : BoxesOpen boxedRuntime := by
  intro priv pub seed data
  have htake : ((List.replicate pub.length 1 ++ 0 :: (pub ++ data)).takeWhile
      (fun b : UInt8 => decide (b = 1))).length = pub.length := by
    rw [List.takeWhile_append_of_pos (by simp), List.takeWhile_cons_of_neg (by decide)]
    simp
  have hdrop : (List.replicate pub.length 1 ++ 0 :: (pub ++ data)).drop (pub.length + 1) =
      pub ++ data := by
    rw [List.drop_append]
    simp
  show openBox priv (List.replicate pub.length 1 ++ 0 :: (pub ++ data)) =
    if priv = pub then some data else none
  unfold openBox
  dsimp only
  rw [htake, hdrop, List.take_left, List.drop_left]
  by_cases hpub : pub = priv
  · rw [if_pos hpub, if_pos hpub.symm]
  · rw [if_neg hpub, if_neg (Ne.symm hpub)]

private def keyName (k : PackBytes.Bytes) : KemKey := ⟨Encodable.encode (k.map UInt8.toNat)⟩

/-- The key names of the example differ. -/
private theorem keyName_injective : Function.Injective keyName := by
  intro k k' h
  have hbytes : k.map UInt8.toNat = k'.map UInt8.toNat :=
    Encodable.encode_injective (congrArg KemKey.bytes h)
  exact List.map_injective_iff.mpr (fun a b => UInt8.toNat_inj.mp) hbytes

private def bounce : WebhookIn where
  svixId := "msg_1"
  eventType := "email.bounced"
  messageId := some "re_1"
  recipient := some "bob@demo.example"
  raw := "\x7b\x7d"
  receivedAt := ""

/-- A bounce with its suppression is opened. -/
theorem events_opened_bounce : ∃ written, List.Forall₂ (Says boxedRuntime keyName ⟨[1], [2, 3]⟩)
    written [(.webhookEvent, "msg_1", { eventType := .bounced, messageId := some "re_1" }),
      (.suppression, "bob@demo.example",
        { emailHash := some "bob@demo.example", reason := some (some "bounce_hard")
          source := some (some "webhook:email.bounced"), addedAt := some (some "now") })] := by
  have hwritten : (writeEvents boxedRuntime (fun actor => some (pubkeyOf ⟨[1], [2, 3]⟩ actor))
      ⟨[5], [6], [], []⟩ ⟨[7], [8], [], []⟩ bounce "now").isSome = true := by
    decide +kernel
  obtain ⟨written, hwritten⟩ := Option.isSome_iff_exists.mp hwritten
  exact ⟨written, events_opened (fun b _ => rfl) (fun key nonce data => rfl) boxes_open
    keyName_injective rfl hwritten⟩

end Mailman.Analysis
