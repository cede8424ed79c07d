import Dap.Adapter.Signing
import Dap.Hub.Checks
import Dap.Hub.Replay
import Dap.Hub.Dispatch

/-! What the hub makes of the frames the adapters sign: the hello handshake, and the signature of a
send (`sendHello`, `signAndSend` of `adapters/mcp-bridge/src/client.ts`; `hub/auth.go`). -/
namespace Dap
open Json GoJson JsString

/-- `agentIdOf`. -/
def agentIdOf (P : Platform) (pub : Bytes) : JsString :=
  ofChars ((Bytes.hexChars (P.sha256 pub).val).take 16)

/-- The hub reads a hello of the adapters with these fields. -/
def greeting (keys : AgentKeys) (name : Option JsString) (nonce : Bytes) (ts : Timestamp)
    (sig : JsString) : Frame where
  op := "hello"
  v := 1
  pubkey := String.ofList (Bytes.base64Std keys.pub)
  x25519 := String.ofList (Bytes.base64Std keys.xpub)
  name := name.elim "" scalars
  nonce := Bytes.hex nonce
  ts := Int64.ofInt ts.val
  sig := sig.scalars

variable {P : Platform} {E : JsFrame.Ed25519}

theorem decode_greeting (keys : AgentKeys) (name : Option JsString) (nonce : Bytes) (ts : Timestamp)
    (sig : JsString) : ((Outgoing.hello keys name nonce ts).received sig).foldlM
      Decoding.decodeMember {} = some ⟨greeting keys name nonce ts sig, {}⟩ := by
  have hts : parseInt ts.val.repr = some (Int64.ofInt ts.val) := by
    obtain ⟨hlo, hhi⟩ := ts.2
    rw [← Int.toString_eq_repr]
    exact parseInt_toString (by omega) (by omega)
  have hv : parseInt (Int.repr 1) = some 1 := by decide
  cases name <;>
    simp [Outgoing.received, Outgoing.frame, sendHello, JsValue.jsonMembers, JsValue.json,
      mapMembers, mapStr, Decoding.decodeMember, matchField, frameFields, decodeString, decodeInt,
      hts, hv, greeting, b64e, Bytes.hex]

namespace Outgoing

theorem wire_eq (P : Platform) (E : JsFrame.Ed25519) (o : Outgoing) (priv : Bytes) :
    (o.frame.signed P E priv).wire = Bytes.utf8 (Json.print JsString.quote (.obj
      (JsValue.jsonMembers (o.frame ++ [(ofString "sig", .str (o.frame.signFrame P E priv))])))) :=
  JsFrame.utf8_ofChars _

theorem parseFrame_of_decode {o : Outgoing} {priv : Bytes} {d : Decoding}
    (hd : (o.received (o.frame.signFrame P E priv)).foldlM Decoding.decodeMember {} = some d) :
    parseFrame (o.frame.signed P E priv).wire =
      some (d.frame, toAnyMembers (o.received (o.frame.signFrame P E priv))) := by
  have hread := parse_print quotes (o.readable (o.frame.signFrame P E priv))
  rw [parseFrame, wire_eq, Bytes.runes_utf8, hread]
  change ((o.received _).foldlM Decoding.decodeMember {}).map _ = _
  rw [hd]
  rfl

/-- The signature as the hub checks it, under the public key that belongs to `priv`. -/
structure SignsFor (P : Platform) (E : JsFrame.Ed25519) (o : Outgoing) (priv pub : Bytes) :
    Prop where
  length : pub.length = 32
  complete : ∀ m, P.ed25519Verify pub m (E.sign m priv) = true
  sound : P.ed25519Verify pub (Bytes.utf8 (o.payload P o.hubText).toList)
      (E.sign (Bytes.utf8 (o.payload P o.adapterText).toList) priv) = true →
    o.payload P o.hubText = o.payload P o.adapterText
  separates : Separates P o.adapterText o.hubText

/-- The hub accepts the signature exactly when no string of the frame holds U+2028, U+2029 or an
unpaired surrogate. -/
theorem verifySignature_iff {o : Outgoing} {priv pub : Bytes} (hkeys : o.SignsFor P E priv pub)
    {f : Frame} {raw : Raw} (hparse : parseFrame (o.frame.signed P E priv).wire = some (f, raw)) :
    verifySignature P f raw (String.ofList (Bytes.base64Std pub)) = none ↔
      ∀ s ∈ o.texts, s.portable = true := by
  obtain ⟨d, hd, -, -, hsig⟩ := o.parseFrame_wire P E priv
  have hf : f = d := by
    rw [hparse] at hd
    exact congrArg Prod.fst (Option.some.inj hd)
  have hpayload : signedPayloadFor P raw f = .ok (o.payload P o.hubText) := by
    have hhub := o.recomputed_signed P E priv
    rw [recomputed, hparse] at hhub
    change (signedPayloadFor P raw f).toOption = _ at hhub
    cases hs : signedPayloadFor P raw f with
    | error e =>
      rw [hs] at hhub
      cases hhub
    | ok payload =>
      rw [hs] at hhub
      exact congrArg Except.ok (Option.some.inj hhub)
  have hdecode : Bytes.base64Decode f.sig =
      some (E.sign (Bytes.utf8 (o.payload P o.adapterText).toList) priv).val := by
    rw [hf, hsig, JsFrame.signFrame, scalars_ofChars, Bytes.base64Decode_base64Std,
      o.sigPayload_frame, JsFrame.utf8, scalars_ofString]
  have hverify : verifySignature P f raw (String.ofList (Bytes.base64Std pub)) = none ↔
      P.ed25519Verify pub (Bytes.utf8 (o.payload P o.hubText).toList)
        (E.sign (Bytes.utf8 (o.payload P o.adapterText).toList) priv) = true := by
    simp [verifySignature, hpayload, Bytes.base64Decode_base64Std, hkeys.length, hdecode]
  rw [hverify, ← o.adapterText_eq_iff]
  constructor
  · exact fun hv => (hkeys.separates (o.payload_inj (hkeys.sound hv).symm))
  · intro htext
    rw [htext]
    exact hkeys.complete _

end Outgoing

theorem length_le_utf8ByteSize (cs : List Char) : cs.length ≤ (String.ofList cs).utf8ByteSize := by
  induction cs with
  | nil => exact Nat.zero_le _
  | cons c cs ih =>
    have hpos := c.utf8Size_pos
    rw [String.ofList_cons, String.utf8ByteSize_append, String.utf8ByteSize_singleton,
      List.length_cons]
    omega

/-- Over the wire, a hello that an adapter signs reaches the hub's handler for hellos with the
fields the adapter set, names the agent by the id the adapter gives itself, and passes all checks
exactly when its name holds no U+2028, U+2029 or unpaired surrogate, its timestamp is within 300
seconds of the hub's clock, and its nonce is not in the hub's cache. -/
theorem hello_accepted_iff (keys : AgentKeys) (name : Option JsString) (nonce : Bytes)
    (ts : Timestamp) {priv : Bytes} (hnonce : nonce.length = 16)
    (hkeys : (Outgoing.hello keys name nonce ts).SignsFor P E priv keys.pub) (now : ℤ)
    (hearly : 0 ≤ now / 1000000) (hlate : now / 1000000 ≤ 2 ^ 62) (n : NonceCache) :
    ∃ f raw, parseFrame ((sendHello keys name nonce ts).signed P E priv).wire = some (f, raw) ∧
      frameOp f raw = "hello" ∧ f.v = 1 ∧ f.x25519 = String.ofList (Bytes.base64Std keys.xpub) ∧
      f.name = name.elim "" scalars ∧
      ofString (helloAgentID P f.pubkey) = agentIdOf P keys.pub ∧
      ((checkHello P f raw now n).1 = none ↔ (∀ s ∈ name, s.portable = true) ∧
        |now / 1000000 - ts.val| ≤ 300000 ∧ n.live now f.pubkey f.nonce = none) := by
  have hparse := @Outgoing.parseFrame_of_decode P E _ priv _ (decode_greeting keys name nonce ts _)
  refine ⟨_, _, hparse, rfl, rfl, rfl, rfl, ?_, ?_⟩
  · change ofString (helloAgentID P (String.ofList (Bytes.base64Std keys.pub))) = _
    rw [helloAgentID, Bytes.base64Decode_base64Std, Option.getD_some, agentIDFor, agentIdOf,
      ofString, String.toList_ofList]
  · have hverify := Outgoing.verifySignature_iff hkeys hparse
    have htexts : (∀ s ∈ (Outgoing.hello keys name nonce ts).texts, s.portable = true) ↔
        ∀ s ∈ name, s.portable = true := by
      cases name <;> simp [Outgoing.texts]
    have hlen : nonceMinLen ≤ (Bytes.hex nonce).utf8ByteSize := by
      have hbytes := length_le_utf8ByteSize (Bytes.hexChars nonce)
      rw [Bytes.length_hexChars, hnonce] at hbytes
      exact (by decide : nonceMinLen ≤ 2 * 16).trans hbytes
    have htoInt : (Int64.ofInt ts.val).toInt = ts.val := by
      obtain ⟨hlo, hhi⟩ := ts.2
      exact Int64.toInt_ofInt_of_le (by norm_num; omega) (by norm_num; omega)
    have hfresh : tsFresh (Int64.ofInt ts.val) (Int64.ofInt (now / 1000000)) = true ↔
        |now / 1000000 - ts.val| ≤ 300000 := by
      have hexact := @tsFresh_exact_iff (Int64.ofInt ts.val) _ hearly hlate
      rw [htoInt] at hexact
      obtain ⟨hlo, hhi⟩ := ts.2
      exact hexact.mpr (by omega)
    rw [checkHello_accepts, ← htexts, ← hverify, ← hfresh]
    exact ⟨fun h => ⟨h.2.1, h.2.2⟩, fun h => ⟨hlen, h.1, h.2⟩⟩

/-- Where the two texts agree, a signature that accepts everything tells nothing apart. -/
theorem signsFor_lenient {o : Outgoing} {pub : Bytes} (hlen : pub.length = 32)
    (htexts : ∀ s ∈ o.texts, s.portable = true) :
    o.SignsFor lenientPlatform zeroSignature [] pub where
  length := hlen
  complete _ := rfl
  sound _ := by rw [o.adapterText_eq_iff.mpr htexts]
  separates _ := o.adapterText_eq_iff.mpr htexts

theorem hello_accepted_iff_sample : ∃ f raw,
    parseFrame ((sendHello ⟨List.replicate 32 0, []⟩ (some (ofString "alice"))
      (List.replicate 16 0) ⟨0, by decide⟩).signed lenientPlatform zeroSignature []).wire =
        some (f, raw) ∧ (checkHello lenientPlatform f raw 0 {}).1 = none := by
  have halice : (ofString "alice").portable = true := by decide +kernel
  have hname : ∀ s ∈ some (ofString "alice"), s.portable = true := by
    intro s hs
    rw [← Option.some.inj hs]
    exact halice
  have htexts : ∀ s ∈ [ofString "alice"], s.portable = true := by
    intro s hs
    rw [List.mem_singleton.mp hs]
    exact halice
  obtain ⟨f, raw, hparse, -, -, -, -, -, hiff⟩ := hello_accepted_iff
    ⟨List.replicate 32 0, []⟩ (some (ofString "alice")) (List.replicate 16 0) ⟨0, by decide⟩ rfl
    (signsFor_lenient rfl htexts) 0 (by decide) (by decide) {}
  exact ⟨f, raw, hparse, hiff.mpr ⟨hname, by decide, rfl⟩⟩

end Dap
