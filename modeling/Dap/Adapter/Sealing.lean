import Dap.Adapter.Signing
import Dap.Lib.TextDecoder

/-! Sealed payloads: what one agent seals for a channel or for a peer, and what the other end makes
of it (`adapters/mcp-bridge/src/crypto.ts`, `adapters/dsh-plugin/src/crypto.ts`). -/
namespace Dap

open JsFrame (utf8)

/-- The crypto libraries: X25519 agrees from both ends, and the AEAD decrypts what it encrypted
under the same key, nonce and additional data. -/
structure CipherSuite where
  publicKey : Bytes → Bytes
  sharedSecret : Bytes → Bytes → Bytes
  hkdf : Bytes → Bytes → Bytes → Bytes
  encrypt : Bytes → Bytes → Bytes → Bytes → Bytes
  decrypt : Bytes → Bytes → Bytes → Bytes → Option Bytes
  sharedSecret_comm : ∀ a b, sharedSecret a (publicKey b) = sharedSecret b (publicKey a)
  decrypt_encrypt : ∀ key nonce aad text, nonce.length = 12 →
    decrypt key nonce aad (encrypt key nonce aad text) = some text

namespace CipherSuite

variable (S : CipherSuite)

/-- An X25519 key pair. -/
structure KeyPair where
  priv : Bytes
  pub : Bytes
  derived : pub = S.publicKey priv

/-- What `randomBytes(12)` returns. -/
abbrev Nonce := { nonce : Bytes // nonce.length = 12 }

def deriveKey (secret : Bytes) (frameId : JsString) : Bytes :=
  S.hkdf secret (utf8 frameId) (utf8 "dap1/v1")

def aadOf (frameId peer : JsString) : Bytes :=
  utf8 (JsString.ofString "dap1|" ++ frameId ++ JsString.ofString "|" ++ peer)

def «seal» (nonce : Nonce) (plaintext frameId peer : JsString) (xPriv peerXPub : Bytes) :
    JsString :=
  let key := S.deriveKey (S.sharedSecret xPriv peerXPub) frameId
  let ct := S.encrypt key nonce (aadOf frameId peer) (utf8 plaintext)
  b64e (nonce ++ ct)

/-- `none` where the tag does not verify. -/
def «open» (ciphertextB64 frameId peer : JsString) (xPriv peerXPub : Bytes) : Option JsString :=
  let raw := Bytes.bufferDecode ciphertextB64
  let key := S.deriveKey (S.sharedSecret xPriv peerXPub) frameId
  (S.decrypt key (raw.take 12) (aadOf frameId peer) (raw.drop 12)).map Bytes.textDecode

theorem sharedSecret_pair (a b : S.KeyPair) :
    S.sharedSecret b.priv a.pub = S.sharedSecret a.priv b.pub := by
  rw [a.derived, b.derived, S.sharedSecret_comm]

theorem bufferDecode_b64e (nonce : Nonce) (ct : Bytes) :
    (Bytes.bufferDecode (b64e (nonce ++ ct))).take 12 = nonce ∧
      (Bytes.bufferDecode (b64e (nonce ++ ct))).drop 12 = ct := by
  have hlen := nonce.2
  rw [b64e, Bytes.bufferDecode_base64Std]
  exact ⟨List.take_left' hlen, List.drop_left' hlen⟩

/-- The other end reads the text less a byte order mark in front of it. -/
theorem open_seal (a b : S.KeyPair) (nonce : Nonce) (text frameId peer : JsString) :
    S.open (S.seal nonce text frameId peer a.priv b.pub) frameId peer b.priv a.pub =
      some (JsString.ofChars (Bytes.dropByteOrderMark text.scalars.toList)) := by
  obtain ⟨hnonce, hct⟩ := bufferDecode_b64e nonce
    (S.encrypt (S.deriveKey (S.sharedSecret a.priv b.pub) frameId) nonce (aadOf frameId peer)
      (utf8 text))
  unfold «open» «seal»
  dsimp only
  rw [hnonce, hct, S.sharedSecret_pair a b, S.decrypt_encrypt _ _ _ _ nonce.2, Option.map_some,
    Bytes.textDecode, utf8, Bytes.decodeUtf8_utf8]

/-- Decryption undoes encryption on exactly the texts that do not begin with U+FEFF. -/
theorem open_seal_eq_iff (a b : S.KeyPair) (nonce : Nonce) (text : String)
    (frameId peer : JsString) :
    S.open (S.seal nonce text frameId peer a.priv b.pub) frameId peer b.priv a.pub =
        some (JsString.ofString text) ↔
      text.toList.head? ≠ some Bytes.byteOrderMark := by
  rw [open_seal, JsString.scalars_ofString, ← Bytes.dropByteOrderMark_eq_self_iff,
    Option.some.injEq]
  constructor
  · intro h
    have hscalars := congrArg (fun s => s.scalars.toList) h
    simpa using hscalars
  · intro h
    rw [h]
    rfl

/-- Keys that are their own public halves, and a tag of zeros. -/
def zeroTag : CipherSuite where
  publicKey := id
  sharedSecret := List.zipWith (· ^^^ ·)
  hkdf := fun secret salt info => secret ++ salt ++ info
  encrypt := fun _ _ _ text => text ++ List.replicate 16 0
  decrypt := fun _ _ _ ct => if ct.length < 16 then none else some (ct.take (ct.length - 16))
  sharedSecret_comm := fun a b => List.zipWith_comm_of_comm UInt8.xor_comm
  decrypt_encrypt := fun _ _ _ text _ => by simp

/-- A text of one byte order mark comes back empty. -/
theorem not_open_seal_mark : ¬ ∀ (S : CipherSuite) (a b : S.KeyPair) (nonce : Nonce)
    (text : String) (frameId peer : JsString),
    S.open (S.seal nonce text frameId peer a.priv b.pub) frameId peer b.priv a.pub =
      some (JsString.ofString text) := by
  intro h
  have hmark := h zeroTag ⟨[], [], rfl⟩ ⟨[], [], rfl⟩ ⟨List.replicate 12 0, rfl⟩
    (String.singleton Bytes.byteOrderMark) "9af0e7c2" "general"
  exact (open_seal_eq_iff _ _ _ _ _ _ _).mp hmark rfl

end CipherSuite

end Dap
