import Dap.Adapter.Crypto
import Dap.Hub.Auth

/-! The frames the adapters sign, and the payload the hub recomputes from their wire form
(`sendHello`, `send` and `dm` of `adapters/mcp-bridge/src/client.ts`; `hub/auth.go`). -/
namespace Dap

/-- A time value in milliseconds. -/
abbrev Timestamp := { ts : ℤ // -8640000000000000 ≤ ts ∧ ts ≤ 8640000000000000 }

instance : Coe Timestamp JsNumber where
  coe ts := .int ⟨ts.val, by
    have hts := ts.2
    have hbound : (10 : ℕ) ^ 21 = 1000000000000000000000 := by norm_num
    omega⟩

/-- The public halves of an agent's two key pairs. -/
structure AgentKeys where
  pub : Bytes
  xpub : Bytes

def b64e (bs : Bytes) : JsString := JsString.ofChars (Bytes.base64Std bs)

def sendHello (keys : AgentKeys) (name : Option JsString) (nonce : Bytes) (ts : Timestamp) :
    JsFrame :=
  [("op", .str "hello"), ("v", .num 1), ("pubkey", .str (b64e keys.pub)),
    ("x25519", .str (b64e keys.xpub)), ("name", name.elim .undefined .str),
    ("nonce", .str (JsString.ofChars (Bytes.hexChars nonce))), ("ts", .num ts)]

def send (channel id ciphertext : JsString) (ts : Timestamp) : JsFrame :=
  [("op", .str "send"), ("channel", .str channel), ("id", .str id), ("ts", .num ts),
    ("ciphertext", .str ciphertext)]

def dm («to» id ciphertext : JsString) (ts : Timestamp) : JsFrame :=
  [("op", .str "send"), ("to", .str «to»), ("id", .str id), ("ts", .num ts),
    ("ciphertext", .str ciphertext)]

/-- The frames that are signed, with everything a caller can vary. -/
inductive Outgoing where
  | hello (keys : AgentKeys) (name : Option JsString) (nonce : Bytes) (ts : Timestamp)
  | channel (name id ciphertext : JsString) (ts : Timestamp)
  | direct («to» id ciphertext : JsString) (ts : Timestamp)

namespace Outgoing

def frame : Outgoing → JsFrame
  | .hello keys name nonce ts => sendHello keys name nonce ts
  | .channel name id ciphertext ts => send name id ciphertext ts
  | .direct «to» id ciphertext ts => dm «to» id ciphertext ts

/-- The strings that are not fixed by the code. -/
def texts : Outgoing → List JsString
  | .hello _ name _ _ => name.toList
  | .channel name id ciphertext _ => [name, id, ciphertext]
  | .direct «to» id ciphertext _ => [«to», id, ciphertext]

def op : Outgoing → String
  | .hello .. => "hello"
  | _ => "send"

def ts : Outgoing → Timestamp
  | .hello _ _ _ ts => ts
  | .channel _ _ _ ts => ts
  | .direct _ _ _ ts => ts

end Outgoing

variable (P : Platform)

/-- The payload the hub checks the signature of a message against. -/
def recomputed (data : Bytes) : Option String := do
  let (f, raw) ← parseFrame data
  (signedPayloadFor P raw f).toOption

namespace Outgoing

open Json JsValue JsString

/-! ### The two canonical texts -/

/-- The canonical members. -/
def sorted : Outgoing → List (JsString × Json JsString)
  | .hello keys name nonce ts =>
    name.toList.map (fun name => (ofString "name", Json.str name)) ++
      [(ofString "nonce", .str (ofChars (Bytes.hexChars nonce))), (ofString "op", .str "hello"),
        (ofString "pubkey", .str (b64e keys.pub)), (ofString "ts", .num (toString ts.val)),
        (ofString "v", .num (toString (1 : ℤ))), (ofString "x25519", .str (b64e keys.xpub))]
  | .channel name id ciphertext ts =>
    [(ofString "channel", .str name), (ofString "ciphertext", .str ciphertext),
      (ofString "id", .str id), (ofString "op", .str "send"),
      (ofString "ts", .num (toString ts.val))]
  | .direct recipient id ciphertext ts =>
    [(ofString "ciphertext", .str ciphertext), (ofString "id", .str id),
      (ofString "op", .str "send"), (ofString "to", .str recipient),
      (ofString "ts", .num (toString ts.val))]

theorem canonical_frame (o : Outgoing) : (JsValue.obj o.frame).canonical = .obj o.sorted := by
  cases o with
  | hello keys name nonce ts => cases name <;> rfl
  | channel name id ciphertext ts => rfl
  | direct recipient id ciphertext ts => rfl

/-- What the hub decodes of a signed frame. -/
def received (o : Outgoing) (sig : JsString) : GoJson.Members :=
  mapMembers scalars (jsonMembers (o.frame ++ [(ofString "sig", .str sig)]))

theorem received_unsigned (o : Outgoing) (sig : JsString) :
    (GoJson.toAnyMembers (o.received sig)).filter (fun kv => kv.1 ≠ "sig") =
      mapMembers scalars o.sorted := by
  cases o with
  | hello keys name nonce ts =>
    cases name <;>
      simp +decide [received, frame, sendHello, sorted, jsonMembers, json, mapMembers, mapStr,
        GoJson.toAnyMembers, GoJson.toAny, GoJson.insertKey]
  | channel name id ciphertext ts =>
    simp +decide [received, frame, send, sorted, jsonMembers, json, mapMembers, mapStr,
      GoJson.toAnyMembers, GoJson.toAny, GoJson.insertKey]
  | direct recipient id ciphertext ts =>
    simp +decide [received, frame, dm, sorted, jsonMembers, json, mapMembers, mapStr,
      GoJson.toAnyMembers, GoJson.toAny, GoJson.insertKey]

theorem decode_received (o : Outgoing) (sig : JsString) :
    ∃ d, (o.received sig).foldlM Decoding.decodeMember {} = some d ∧ d.frame.op = o.op ∧
      d.frame.ts = Int64.ofInt o.ts.val ∧ d.frame.sig = sig.scalars := by
  have hts : GoJson.parseInt o.ts.val.repr = some (Int64.ofInt o.ts.val) := by
    obtain ⟨hlo, hhi⟩ := o.ts.2
    rw [← Int.toString_eq_repr]
    exact GoJson.parseInt_toString (by omega) (by omega)
  have hv : GoJson.parseInt (Int.repr 1) = some 1 := by decide
  cases o with
  | hello keys name nonce ts =>
    change GoJson.parseInt ts.val.repr = _ at hts
    cases name <;>
      simp [received, frame, sendHello, jsonMembers, json, mapMembers, mapStr,
        Decoding.decodeMember, GoJson.matchField, frameFields, GoJson.decodeString,
        GoJson.decodeInt, hts, hv, op, Outgoing.ts]
  | channel name id ciphertext ts =>
    change GoJson.parseInt ts.val.repr = _ at hts
    simp [received, frame, send, jsonMembers, json, mapMembers, mapStr, Decoding.decodeMember,
      GoJson.matchField, frameFields, GoJson.decodeString, GoJson.decodeInt, hts, op, Outgoing.ts]
  | direct recipient id ciphertext ts =>
    change GoJson.parseInt ts.val.repr = _ at hts
    simp [received, frame, dm, jsonMembers, json, mapMembers, mapStr, Decoding.decodeMember,
      GoJson.matchField, frameFields, GoJson.decodeString, GoJson.decodeInt, hts, op, Outgoing.ts]

theorem readable (o : Outgoing) (sig : JsString) :
    Readable maxNestingDepth (.obj (jsonMembers (o.frame ++ [(ofString "sig", .str sig)]))) := by
  change ReadableMembers 9999 _
  have hnum : ∀ n : ℤ, Readable (S := JsString) 9999 (.num (toString n)) := numeric_toString
  cases o with
  | hello keys name nonce ts =>
    cases name with
    | none => exact ⟨trivial, hnum 1, trivial, trivial, trivial, hnum ts, trivial, trivial⟩
    | some name =>
      exact ⟨trivial, hnum 1, trivial, trivial, trivial, trivial, hnum ts, trivial, trivial⟩
  | channel name id ciphertext ts =>
    exact ⟨trivial, trivial, trivial, hnum ts, trivial, trivial, trivial⟩
  | direct recipient id ciphertext ts =>
    exact ⟨trivial, trivial, trivial, hnum ts, trivial, trivial, trivial⟩

/-! ### The two payloads -/

/-- The payload with the digest of `text`. -/
def payload (P : Platform) (o : Outgoing) (text : List Char) : String :=
  "dap1|" ++ o.op ++ "|" ++ toString o.ts.val ++ "|" ++ Bytes.hex (P.sha256 (Bytes.utf8 text)).val

/-- The text the hub hashes. -/
def hubText (o : Outgoing) : List Char := canonicalJSON (mapMembers scalars o.sorted)

/-- The text the adapter hashes. -/
def adapterText (o : Outgoing) : List Char := (JsValue.obj o.frame).canonicalText

theorem payload_inj {P : Platform} (o : Outgoing) {a b : List Char}
    (h : o.payload P a = o.payload P b) : P.sha256 (Bytes.utf8 a) = P.sha256 (Bytes.utf8 b) := by
  have hhex := (String.append_right_inj _).mp h
  exact Subtype.ext (Bytes.hex_injective hhex)

theorem sigPayload_frame (P : Platform) (o : Outgoing) :
    o.frame.sigPayload P = ofString (o.payload P o.adapterText) := by
  have hop : (o.frame.get "op").template = ofString o.op := by cases o <;> rfl
  have hts : (o.frame.get "ts").template = ofString (toString o.ts.val) := by cases o <;> rfl
  have htext : JsFrame.utf8 (JsValue.obj o.frame).canonicalJson = Bytes.utf8 o.adapterText := by
    rw [canonicalJson, JsFrame.utf8_ofChars, adapterText]
  rw [JsFrame.sigPayload, hop, hts, htext]
  simp only [payload, ofString_append]

theorem parseFrame_wire (P : Platform) (E : JsFrame.Ed25519) (o : Outgoing) (priv : Bytes) :
    ∃ d, parseFrame (o.frame.signed P E priv).wire =
        some (d, GoJson.toAnyMembers (o.received (o.frame.signFrame P E priv))) ∧
      d.op = o.op ∧ d.ts = Int64.ofInt o.ts.val ∧
      d.sig = (o.frame.signFrame P E priv).scalars := by
  obtain ⟨d, hd, hop, hts, hsig⟩ := o.decode_received (o.frame.signFrame P E priv)
  have hread := parse_print quotes (o.readable (o.frame.signFrame P E priv))
  refine ⟨d.frame, ?_, hop, hts, hsig⟩
  have hwire : (o.frame.signed P E priv).wire = Bytes.utf8 (Json.print quote
      (.obj (jsonMembers (o.frame ++ [(ofString "sig", .str (o.frame.signFrame P E priv))])))) :=
    JsFrame.utf8_ofChars _
  rw [parseFrame, hwire, Bytes.runes_utf8, hread]
  dsimp only [mapStr]
  change ((o.received _).foldlM Decoding.decodeMember {}).map _ = _
  rw [hd]
  rfl

theorem recomputed_signed (P : Platform) (E : JsFrame.Ed25519) (o : Outgoing) (priv : Bytes) :
    recomputed P (o.frame.signed P E priv).wire = some (o.payload P o.hubText) := by
  obtain ⟨d, hparse, hop, hts, hsig⟩ := o.parseFrame_wire P E priv
  have hrange := o.ts.2
  have hfmt : GoJson.formatInt d.ts = toString o.ts.val := by
    rw [hts]
    exact GoJson.formatInt_ofInt (by omega) (by omega)
  have hne : d.sig ≠ "" := by
    have hlen := (E.sign (JsFrame.utf8 (o.frame.sigPayload P)) priv).2
    have hbytes : (E.sign (JsFrame.utf8 (o.frame.sigPayload P)) priv).val ≠ [] :=
      List.ne_nil_of_length_pos (by omega)
    have hsig' := Bytes.base64_ne_nil Bytes.base64Digit ['='] hbytes
    intro hempty
    rw [hsig, JsFrame.signFrame, scalars_ofChars] at hempty
    exact hsig' (String.ofList_injective hempty)
  have hraw := o.received_unsigned (o.frame.signFrame P E priv)
  rw [recomputed, hparse]
  change (signedPayloadFor P _ d).toOption = _
  rw [signedPayloadFor, if_neg hne]
  dsimp only
  rw [hraw, hop, hfmt]
  rfl

theorem adapterText_eq_iff (o : Outgoing) :
    o.adapterText = o.hubText ↔ ∀ s ∈ o.texts, s.portable = true := by
  have htexts : o.adapterText = o.hubText ↔
      ∀ s ∈ (Json.obj o.sorted).strings, s.quote = GoJson.quote false s.scalars := by
    rw [adapterText, canonicalText, canonical_frame]
    exact print_eq_iff quotes (GoJson.quotes false) (.obj o.sorted)
  simp only [htexts, quote_eq_iff]
  have hkey : ∀ key ∈ ["name", "nonce", "op", "pubkey", "ts", "v", "x25519", "channel",
      "ciphertext", "id", "to", "hello", "send"], (ofString key).portable = true := by
    decide +kernel
  have hhex : ∀ bs, (ofChars (Bytes.hexChars bs)).portable = true := fun bs =>
    portable_ofChars (Bytes.hexChars_forall (fun n hn => Bytes.hexDigit_lt hn) bs)
  have hb64 : ∀ bs, (b64e bs).portable = true := fun bs =>
    portable_ofChars (Bytes.base64_forall Bytes.base64Digit_lt (by simp) bs)
  simp only [List.mem_cons, List.not_mem_nil, or_false, forall_eq_or_imp, forall_eq] at hkey
  cases o with
  | hello keys name nonce ts =>
    cases name <;>
      simp [sorted, texts, strings, stringsMembers, hkey, hhex, hb64]
  | channel name id ciphertext ts =>
    simp [sorted, texts, strings, stringsMembers, hkey]
    tauto
  | direct recipient id ciphertext ts =>
    simp [sorted, texts, strings, stringsMembers, hkey]
    tauto

end Outgoing

/-- Where SHA-256 does not collide on the two canonical texts, the hub recomputes the payload the
adapter signed exactly when no string of the frame holds U+2028, U+2029 or an unpaired surrogate. -/
theorem payloads_agree_iff (P : Platform) (E : JsFrame.Ed25519) (o : Outgoing) (priv : Bytes)
    (hsha : Separates P o.adapterText o.hubText) :
    (∃ payload, recomputed P (o.frame.signed P E priv).wire = some payload ∧
      o.frame.sigPayload P = JsString.ofString payload) ↔
    ∀ s ∈ o.texts, s.portable = true := by
  rw [← o.adapterText_eq_iff]
  constructor
  · rintro ⟨payload, hhub, hadapter⟩
    rw [o.recomputed_signed, Option.some.injEq] at hhub
    rw [o.sigPayload_frame, ← hhub] at hadapter
    exact hsha (o.payload_inj (JsString.ofString_injective hadapter))
  · intro htext
    refine ⟨o.payload P o.hubText, o.recomputed_signed P E priv, ?_⟩
    rw [o.sigPayload_frame, htext]

/-- A signature of zeros. -/
def zeroSignature : JsFrame.Ed25519 where
  sign := fun _ _ => ⟨List.replicate 64 0, by simp⟩

def sampleSend (channel : JsString) : Outgoing :=
  .channel channel "9af0e7c2-0000-4000-8000-000000000000" "AAAAAAAAAAAAAAAAAAAAAAAAAAAAAAAAAAAAAA=="
    ⟨1700000000000, by decide⟩

theorem payloads_agree_iff_sample :
    Separates lenientPlatform (sampleSend "general").adapterText (sampleSend "general").hubText ∧
    ∃ payload, recomputed lenientPlatform
        ((sampleSend "general").frame.signed lenientPlatform zeroSignature []).wire = some payload ∧
      (sampleSend "general").frame.sigPayload lenientPlatform = JsString.ofString payload := by
  have hplain : ∀ s ∈ (sampleSend "general").texts, s.portable = true := by decide
  have hsha : Separates lenientPlatform (sampleSend "general").adapterText
      (sampleSend "general").hubText := fun _ => (Outgoing.adapterText_eq_iff _).mpr hplain
  exact ⟨hsha, (payloads_agree_iff _ _ _ _ hsha).mpr hplain⟩

/-- A channel name with a line separator: the adapter hashes the character, the hub its escape. -/
theorem line_separator_payloads_differ :
    ¬ ∃ payload, recomputed lenientPlatform
        ((sampleSend [0x61, 0x2028, 0x62]).frame.signed lenientPlatform zeroSignature []).wire =
          some payload ∧
      (sampleSend [0x61, 0x2028, 0x62]).frame.sigPayload lenientPlatform =
        JsString.ofString payload := by
  rintro ⟨payload, hhub, hadapter⟩
  rw [Outgoing.recomputed_signed, Option.some.injEq] at hhub
  rw [Outgoing.sigPayload_frame, ← hhub] at hadapter
  have hdigest := Outgoing.payload_inj _ (JsString.ofString_injective hadapter)
  exact absurd hdigest (by decide +kernel)

end Dap
