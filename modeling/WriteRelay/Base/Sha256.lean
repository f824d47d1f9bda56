import Mathlib

/-! SHA-256 over byte lists. No property of the digest beyond its length is claimed
here: results that need distinct inputs to have distinct digests say so. -/
namespace Sha256

abbrev Digest := Vector UInt8 32

def roundConstants : List UInt32 := [
  0x428a2f98, 0x71374491, 0xb5c0fbcf, 0xe9b5dba5, 0x3956c25b, 0x59f111f1, 0x923f82a4, 0xab1c5ed5,
  0xd807aa98, 0x12835b01, 0x243185be, 0x550c7dc3, 0x72be5d74, 0x80deb1fe, 0x9bdc06a7, 0xc19bf174,
  0xe49b69c1, 0xefbe4786, 0x0fc19dc6, 0x240ca1cc, 0x2de92c6f, 0x4a7484aa, 0x5cb0a9dc, 0x76f988da,
  0x983e5152, 0xa831c66d, 0xb00327c8, 0xbf597fc7, 0xc6e00bf3, 0xd5a79147, 0x06ca6351, 0x14292967,
  0x27b70a85, 0x2e1b2138, 0x4d2c6dfc, 0x53380d13, 0x650a7354, 0x766a0abb, 0x81c2c92e, 0x92722c85,
  0xa2bfe8a1, 0xa81a664b, 0xc24b8b70, 0xc76c51a3, 0xd192e819, 0xd6990624, 0xf40e3585, 0x106aa070,
  0x19a4c116, 0x1e376c08, 0x2748774c, 0x34b0bcb5, 0x391c0cb3, 0x4ed8aa4a, 0x5b9cca4f, 0x682e6ff3,
  0x748f82ee, 0x78a5636f, 0x84c87814, 0x8cc70208, 0x90befffa, 0xa4506ceb, 0xbef9a3f7, 0xc67178f2]

structure Words where
  a : UInt32
  b : UInt32
  c : UInt32
  d : UInt32
  e : UInt32
  f : UInt32
  g : UInt32
  h : UInt32

def initial : Words :=
  ⟨0x6a09e667, 0xbb67ae85, 0x3c6ef372, 0xa54ff53a, 0x510e527f, 0x9b05688c, 0x1f83d9ab, 0x5be0cd19⟩

def rotate (x n : UInt32) : UInt32 := (x >>> n) ||| (x <<< (32 - n))

def extend : Nat → List UInt32 → List UInt32
  | 0, ws => ws
  | n + 1, ws =>
    let x := ws.getD 14 0
    let y := ws.getD 1 0
    let s0 := rotate x 7 ^^^ rotate x 18 ^^^ (x >>> 3)
    let s1 := rotate y 17 ^^^ rotate y 19 ^^^ (y >>> 10)
    extend n ((ws.getD 15 0 + s0 + ws.getD 6 0 + s1) :: ws)

def round (s : Words) (kw : UInt32 × UInt32) : Words :=
  let s1 := rotate s.e 6 ^^^ rotate s.e 11 ^^^ rotate s.e 25
  let choice := (s.e &&& s.f) ^^^ (~~~s.e &&& s.g)
  let t1 := s.h + s1 + choice + kw.1 + kw.2
  let s0 := rotate s.a 2 ^^^ rotate s.a 13 ^^^ rotate s.a 22
  let majority := (s.a &&& s.b) ^^^ (s.a &&& s.c) ^^^ (s.b &&& s.c)
  ⟨t1 + (s0 + majority), s.a, s.b, s.c, s.d + t1, s.e, s.f, s.g⟩

def wordsOf : List UInt8 → List UInt32
  | p :: q :: r :: s :: rest =>
    (p.toUInt32 <<< 24 ||| q.toUInt32 <<< 16 ||| r.toUInt32 <<< 8 ||| s.toUInt32) :: wordsOf rest
  | _ => []

def compress (s : Words) (block : List UInt8) : Words :=
  let r := (roundConstants.zip (extend 48 (wordsOf block).reverse).reverse).foldl round s
  ⟨s.a + r.a, s.b + r.b, s.c + r.c, s.d + r.d, s.e + r.e, s.f + r.f, s.g + r.g, s.h + r.h⟩

def padding (length : Nat) : List UInt8 :=
  0x80 :: (List.replicate ((119 - length % 64) % 64) 0 ++
    (List.range 8).map (fun i => UInt8.ofNat (8 * length / 256 ^ (7 - i))))

def absorb : Nat → Words → List UInt8 → Words
  | 0, s, _ => s
  | n + 1, s, bytes => absorb n (compress s (bytes.take 64)) (bytes.drop 64)

/-- Go's `sha256.Sum256`. Irreducible: proofs never compute a digest, closed tests do. -/
@[irreducible] def sum (message : List UInt8) : Digest :=
  let bytes := message ++ padding message.length
  let s := absorb (bytes.length / 64) initial bytes
  let words := [s.a, s.b, s.c, s.d, s.e, s.f, s.g, s.h]
  Vector.ofFn (fun i => (words.getD (i.val / 4) 0 >>> (UInt32.ofNat (24 - 8 * (i.val % 4)))).toUInt8)

def hexDigit (n : Nat) : Char := if n < 10 then Char.ofNat (48 + n) else Char.ofNat (87 + n)

def hex (digest : Digest) : String :=
  String.ofList (digest.toList.flatMap (fun b => [hexDigit (b.toNat / 16), hexDigit (b.toNat % 16)]))

theorem hexDigit_injective {m n : Nat} (hm : m < 16) (hn : n < 16) (h : hexDigit m = hexDigit n) :
    m = n := by
  have all : ∀ a b : Fin 16, hexDigit a = hexDigit b → a = b := by decide
  exact congrArg Fin.val (all ⟨m, hm⟩ ⟨n, hn⟩ h)

theorem hexBytes_injective {xs ys : List UInt8}
    (h : xs.flatMap (fun b => [hexDigit (b.toNat / 16), hexDigit (b.toNat % 16)]) =
      ys.flatMap (fun b => [hexDigit (b.toNat / 16), hexDigit (b.toNat % 16)])) : xs = ys := by
  induction xs generalizing ys with
  | nil =>
    cases ys with
    | nil => rfl
    | cons y ys => simp at h
  | cons x xs ih =>
    cases ys with
    | nil => simp at h
    | cons y ys =>
      simp only [List.flatMap_cons, List.cons_append, List.nil_append, List.cons.injEq] at h
      obtain ⟨high, low, rest⟩ := h
      have bound : x.toNat < 256 ∧ y.toNat < 256 := ⟨x.toNat_lt, y.toNat_lt⟩
      have high := hexDigit_injective (by omega) (by omega) high
      have low := hexDigit_injective (by omega) (by omega) low
      have same : x.toNat = y.toNat := by omega
      rw [UInt8.toNat_inj.mp same, ih rest]

theorem hex_injective {d d' : Digest} (h : hex d = hex d') : d = d' := by
  have bytes := hexBytes_injective (String.ofList_injective h)
  exact Vector.toList_inj.mp bytes

def blockKey (key : List UInt8) : List UInt8 :=
  let k := if 64 < key.length then (sum key).toList else key
  k ++ List.replicate (64 - k.length) 0

def hmac (key message : List UInt8) : Digest :=
  sum ((blockKey key).map (· ^^^ 0x5c) ++
    (sum ((blockKey key).map (· ^^^ 0x36) ++ message)).toList)

end Sha256
