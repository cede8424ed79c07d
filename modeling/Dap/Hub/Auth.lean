import Dap.Hub.State

/-! Hello handshake checks: Ed25519 envelopes, the freshness window, the nonce cache and the cache
of accepted send ids (`hub/auth.go`). -/
namespace Dap

variable (P : Platform)

def tsWindow : Int64 := 300000
def replayKeep : ℤ := 300000 * 1000000 + 60 * 1000000000
def nonceSweepEvery : ℤ := 60 * 1000000000
def nonceMinLen : ℕ := 16

def constEq (a b : String) : Bool :=
  P.sha256 (Bytes.utf8 a.toList) = P.sha256 (Bytes.utf8 b.toList)

/-- `hex(sha256(pubkey_raw))[:16]`. -/
def agentIDFor (pub : Bytes) : String :=
  String.ofList ((Bytes.hexChars (P.sha256 pub).val).take 16)

def sha256Hex (s : String) : String := Bytes.hex (P.sha256 (Bytes.utf8 s.toList)).val

theorem agentIDFor_ne_empty (pub : Bytes) : agentIDFor P pub ≠ "" := by
  intro h
  have hl : ((Bytes.hexChars (P.sha256 pub).val).take 16).length = 16 := by
    rw [List.length_take, Bytes.length_hexChars, (P.sha256 pub).2]
    rfl
  have h0 := congrArg (fun s => s.toList.length) h
  simp only [agentIDFor, String.toList_ofList] at h0
  rw [hl] at h0
  exact absurd h0 (by decide)

/-! ### Signatures -/

/-- The hash does not collide on these two texts. -/
def Separates (a b : List Char) : Prop :=
  P.sha256 (Bytes.utf8 a) = P.sha256 (Bytes.utf8 b) → a = b

/-- Sorted keys, no whitespace, no HTML escapes. -/
def canonicalJSON (v : Raw) : List Char := (Json.obj v).print (GoJson.quote false)

def signedPayloadFor (raw : Raw) (f : Frame) : Except String String :=
  if f.sig = "" then .error "missing sig"
  else
    let clone := raw.filter fun kv => kv.1 ≠ "sig"
    let sum := P.sha256 (Bytes.utf8 (canonicalJSON clone))
    .ok ("dap1|" ++ f.op ++ "|" ++ GoJson.formatInt f.ts ++ "|" ++ Bytes.hex sum.val)

/-- `none` when the signature verifies under the key `pubB64`. -/
def verifySignature (f : Frame) (raw : Raw) (pubB64 : String) : Option ProtoError :=
  match signedPayloadFor P raw f with
  | .error e => some ⟨codeBadSig, e⟩
  | .ok payload =>
    match Bytes.base64Decode pubB64 with
    | none => some ⟨codeBadSig, "bad pubkey"⟩
    | some pub =>
      if pub.length ≠ 32 then some ⟨codeBadSig, "bad pubkey"⟩
      else match Bytes.base64Decode f.sig with
        | none => some ⟨codeBadSig, "bad sig encoding"⟩
        | some sig =>
          if P.ed25519Verify pub (Bytes.utf8 payload.toList) sig then none
          else some ⟨codeBadSig, "verification failed"⟩

/-- The drift is computed in wrapping 64-bit arithmetic. -/
def tsFresh (ts now : Int64) : Bool :=
  let drift := now - ts
  let drift := if drift < 0 then -drift else drift
  drift ≤ tsWindow

/-! ### Caches -/

namespace NonceCache

def expired (now exp : ℤ) : Bool := ¬ now < exp

/-- Drops expired nonces and pubkeys with no live nonces. -/
def sweepLocked (n : NonceCache) (now : ℤ) : NonceCache where
  lastSweep := now
  seen := n.seen.rewrite fun perPub =>
    let live := GoMap.sweep (expired now) perPub
    if live.isEmpty then none else some live

/-- Records a nonce; `false` means it was already seen. -/
def check (n : NonceCache) (pub nonce : String) (now : ℤ) : Bool × NonceCache :=
  let perPub := n.seen[pub]?.getD ∅
  match perPub[nonce]? with
  | some exp =>
    if now < exp then (false, { n with seen := n.seen.insert pub perPub })
    else record n pub perPub nonce now
  | none => record n pub perPub nonce now
where
  record (n : NonceCache) (pub : String) (perPub : GoMap ℤ) (nonce : String) (now : ℤ) :
      Bool × NonceCache :=
    let perPub := GoMap.sweep (expired now) (perPub.insert nonce (now + replayKeep))
    let n := { n with seen := n.seen.insert pub perPub }
    (true, if now - n.lastSweep ≥ nonceSweepEvery then n.sweepLocked now else n)

end NonceCache

def sendIDCap : ℕ := 4096

namespace SendIDCache

def seen (s : SendIDCache) (pub id : String) : Bool := id ∈ s.ids[pub]?.getD []

/-- Overwrites the oldest entry once the cap is hit. -/
def add (s : SendIDCache) (pub id : String) : SendIDCache :=
  let ring := s.ids[pub]?.getD []
  if ring.length < sendIDCap then { s with ids := s.ids.insert pub (ring ++ [id]) }
  else
    let i := s.next[pub]?.getD 0
    { ids := s.ids.insert pub (ring.set i id), next := s.next.insert pub ((i + 1) % sendIDCap) }

end SendIDCache

/-- The full auth gauntlet at one instant of the hub clock: nonce length, signature, timestamp,
nonce. The cache changes only when the nonce is reached. -/
def checkHello (f : Frame) (raw : Raw) (now : ℤ) (n : NonceCache) :
    Option ProtoError × NonceCache :=
  if f.nonce.utf8ByteSize < nonceMinLen then (some ⟨codeBadFrame, "nonce too short"⟩, n)
  else match verifySignature P f raw f.pubkey with
    | some e => (some e, n)
    | none =>
      if ¬ tsFresh f.ts (Int64.ofInt (now / 1000000)) then
        (some ⟨codeStaleTS, "timestamp outside ±300s window"⟩, n)
      else match n.check f.pubkey f.nonce now with
        | (true, n) => (none, n)
        | (false, n) => (some ⟨codeReplay, "nonce already used"⟩, n)

/-- A signature scheme that accepts everything. -/
def lenientPlatform : Platform where
  sha256 := Sha256.digest
  ed25519Verify := fun _ _ _ => true
  jsonError := fun _ => "invalid character"

def sampleHello (ts : Int64) : Frame where
  op := "hello"
  v := 1
  pubkey := "AAAAAAAAAAAAAAAAAAAAAAAAAAAAAAAAAAAAAAAAAAA="
  name := "alice"
  nonce := "00112233445566778899aabbccddeeff"
  ts := ts
  sig := "AAAA"

/-- The hello of another agent. -/
def peerHello : Frame where
  op := "hello"
  v := 1
  pubkey := "AQEBAQEBAQEBAQEBAQEBAQEBAQEBAQEBAQEBAQEBAQE="
  name := "bob"
  nonce := "ffeeddccbbaa99887766554433221100"
  sig := "AAAA"

theorem sampleHello_verifies (ts : Int64) (raw : Raw) :
    verifySignature lenientPlatform (sampleHello ts) raw (sampleHello ts).pubkey = none := by
  have hpub : (Bytes.base64Decode (sampleHello ts).pubkey).map List.length = some 32 := by
    change (Bytes.base64Decode "AAAAAAAAAAAAAAAAAAAAAAAAAAAAAAAAAAAAAAAAAAA=").map _ = _
    decide +kernel
  have hsig : (Bytes.base64Decode (sampleHello ts).sig).isSome := by
    change (Bytes.base64Decode "AAAA").isSome
    decide +kernel
  obtain ⟨pub, hpub, hlen⟩ := Option.map_eq_some_iff.mp hpub
  obtain ⟨sig, hsig⟩ := Option.isSome_iff_exists.mp hsig
  have hne : (sampleHello ts).sig ≠ "" := by simp [sampleHello]
  simp [verifySignature, signedPayloadFor, hne, hpub, hlen, hsig, lenientPlatform]

end Dap
