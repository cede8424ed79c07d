import Dap.Lib.Bytes

/-! SHA-256 on byte strings. Words are natural numbers below `2^32`. -/
namespace Dap.Sha256

def roundConstants : List ℕ :=
  [
    0x428a2f98, 0x71374491, 0xb5c0fbcf, 0xe9b5dba5, 0x3956c25b, 0x59f111f1, 0x923f82a4, 0xab1c5ed5,
    0xd807aa98, 0x12835b01, 0x243185be, 0x550c7dc3, 0x72be5d74, 0x80deb1fe, 0x9bdc06a7, 0xc19bf174,
    0xe49b69c1, 0xefbe4786, 0x0fc19dc6, 0x240ca1cc, 0x2de92c6f, 0x4a7484aa, 0x5cb0a9dc, 0x76f988da,
    0x983e5152, 0xa831c66d, 0xb00327c8, 0xbf597fc7, 0xc6e00bf3, 0xd5a79147, 0x06ca6351, 0x14292967,
    0x27b70a85, 0x2e1b2138, 0x4d2c6dfc, 0x53380d13, 0x650a7354, 0x766a0abb, 0x81c2c92e, 0x92722c85,
    0xa2bfe8a1, 0xa81a664b, 0xc24b8b70, 0xc76c51a3, 0xd192e819, 0xd6990624, 0xf40e3585, 0x106aa070,
    0x19a4c116, 0x1e376c08, 0x2748774c, 0x34b0bcb5, 0x391c0cb3, 0x4ed8aa4a, 0x5b9cca4f, 0x682e6ff3,
    0x748f82ee, 0x78a5636f, 0x84c87814, 0x8cc70208, 0x90befffa, 0xa4506ceb, 0xbef9a3f7, 0xc67178f2]

def rotr (x n : ℕ) : ℕ := (x >>> n ||| x <<< (32 - n)) % 2 ^ 32

structure State where
  a : ℕ
  b : ℕ
  c : ℕ
  d : ℕ
  e : ℕ
  f : ℕ
  g : ℕ
  h : ℕ

def initial : State :=
  ⟨0x6a09e667, 0xbb67ae85, 0x3c6ef372, 0xa54ff53a,
    0x510e527f, 0x9b05688c, 0x1f83d9ab, 0x5be0cd19⟩

/-- One round on the message word `w` under the constant `k`. -/
def round (s : State) (kw : ℕ × ℕ) : State :=
  let s1 := rotr s.e 6 ^^^ rotr s.e 11 ^^^ rotr s.e 25
  let ch := (s.e &&& s.f) ^^^ ((2 ^ 32 - 1 - s.e) &&& s.g)
  let t1 := s.h + s1 + ch + kw.1 + kw.2
  let s0 := rotr s.a 2 ^^^ rotr s.a 13 ^^^ rotr s.a 22
  let maj := (s.a &&& s.b) ^^^ (s.a &&& s.c) ^^^ (s.b &&& s.c)
  ⟨(t1 + s0 + maj) % 2 ^ 32, s.a, s.b, s.c, (s.d + t1) % 2 ^ 32, s.e, s.f, s.g⟩

/-- Extends the schedule, kept newest first, by `n` words. -/
def extend : ℕ → List ℕ → List ℕ
  | 0, ws => ws
  | n + 1, ws =>
    let w2 := ws.getD 1 0
    let w15 := ws.getD 14 0
    let s1 := rotr w2 17 ^^^ rotr w2 19 ^^^ w2 >>> 10
    let s0 := rotr w15 7 ^^^ rotr w15 18 ^^^ w15 >>> 3
    extend n ((s1 + ws.getD 6 0 + s0 + ws.getD 15 0) % 2 ^ 32 :: ws)

def words : Bytes → List ℕ
  | a :: b :: c :: d :: rest =>
    (a.toNat * 2 ^ 24 + b.toNat * 2 ^ 16 + c.toNat * 2 ^ 8 + d.toNat) :: words rest
  | _ => []

def compress (s : State) (block : Bytes) : State :=
  let schedule := (extend 48 (words block).reverse).reverse
  let r := (roundConstants.zip schedule).foldl round s
  ⟨(s.a + r.a) % 2 ^ 32, (s.b + r.b) % 2 ^ 32, (s.c + r.c) % 2 ^ 32, (s.d + r.d) % 2 ^ 32,
    (s.e + r.e) % 2 ^ 32, (s.f + r.f) % 2 ^ 32, (s.g + r.g) % 2 ^ 32, (s.h + r.h) % 2 ^ 32⟩

def wordBytes (w : ℕ) : Bytes :=
  [UInt8.ofNat (w / 2 ^ 24), UInt8.ofNat (w / 2 ^ 16), UInt8.ofNat (w / 2 ^ 8), UInt8.ofNat w]

def pad (msg : Bytes) : Bytes :=
  let n := msg.length
  msg ++ 0x80 :: List.replicate ((119 - n % 64) % 64) 0 ++
    wordBytes (8 * n / 2 ^ 32) ++ wordBytes (8 * n)

/-- Compresses `n` blocks of 64 bytes. -/
def blocks : ℕ → State → Bytes → State
  | 0, s, _ => s
  | n + 1, s, bs => blocks n (compress s (bs.take 64)) (bs.drop 64)

end Dap.Sha256

namespace Dap

/-- A 32-byte digest. -/
abbrev Digest := { bytes : Bytes // bytes.length = 32 }

namespace Sha256

def digest (msg : Bytes) : Digest :=
  let padded := pad msg
  let s := blocks (padded.length / 64) initial padded
  ⟨wordBytes s.a ++ wordBytes s.b ++ wordBytes s.c ++ wordBytes s.d ++
    wordBytes s.e ++ wordBytes s.f ++ wordBytes s.g ++ wordBytes s.h, rfl⟩

/-- The digest of `abc` in the standard's example. -/
example : Bytes.hex (digest (Bytes.utf8 ['a', 'b', 'c'])).val =
    "ba7816bf8f01cfea414140de5dae2223b00361a396177a9cb410ff61f20015ad" := by decide +kernel

end Sha256

end Dap
