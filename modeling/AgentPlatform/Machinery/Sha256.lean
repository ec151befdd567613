import Mathlib.Algebra.GroupWithZero.Nat
import AgentPlatform.Machinery.Text

/-!
# Machinery/Sha256 — `hashlib.sha256(...).hexdigest()`

The digest of a text's UTF-8, on natural numbers below `2 ^ 32`.
-/

namespace Sha256

/-- A rotation to the right, of 32 bits. -/
def rotr (n x : ℕ) : ℕ := ((x >>> n) ||| (x <<< (32 - n))) % 2 ^ 32

def add (xs : List ℕ) : ℕ := xs.foldl (· + ·) 0 % 2 ^ 32

/-- The round constants. -/
def constants : List ℕ :=
  [0x428a2f98, 0x71374491, 0xb5c0fbcf, 0xe9b5dba5, 0x3956c25b, 0x59f111f1, 0x923f82a4, 0xab1c5ed5,
    0xd807aa98, 0x12835b01, 0x243185be, 0x550c7dc3, 0x72be5d74, 0x80deb1fe, 0x9bdc06a7, 0xc19bf174,
    0xe49b69c1, 0xefbe4786, 0x0fc19dc6, 0x240ca1cc, 0x2de92c6f, 0x4a7484aa, 0x5cb0a9dc, 0x76f988da,
    0x983e5152, 0xa831c66d, 0xb00327c8, 0xbf597fc7, 0xc6e00bf3, 0xd5a79147, 0x06ca6351, 0x14292967,
    0x27b70a85, 0x2e1b2138, 0x4d2c6dfc, 0x53380d13, 0x650a7354, 0x766a0abb, 0x81c2c92e, 0x92722c85,
    0xa2bfe8a1, 0xa81a664b, 0xc24b8b70, 0xc76c51a3, 0xd192e819, 0xd6990624, 0xf40e3585, 0x106aa070,
    0x19a4c116, 0x1e376c08, 0x2748774c, 0x34b0bcb5, 0x391c0cb3, 0x4ed8aa4a, 0x5b9cca4f, 0x682e6ff3,
    0x748f82ee, 0x78a5636f, 0x84c87814, 0x8cc70208, 0x90befffa, 0xa4506ceb, 0xbef9a3f7, 0xc67178f2]

/-- The state of the digest: eight words. -/
structure State where
  a : ℕ
  b : ℕ
  c : ℕ
  d : ℕ
  e : ℕ
  f : ℕ
  g : ℕ
  h : ℕ

def start : State :=
  ⟨0x6a09e667, 0xbb67ae85, 0x3c6ef372, 0xa54ff53a,
    0x510e527f, 0x9b05688c, 0x1f83d9ab, 0x5be0cd19⟩

def State.words (s : State) : List ℕ := [s.a, s.b, s.c, s.d, s.e, s.f, s.g, s.h]

/-- One round, with its constant and its word of the schedule. -/
def round (s : State) (kw : ℕ × ℕ) : State :=
  let s₁ := rotr 6 s.e ^^^ rotr 11 s.e ^^^ rotr 25 s.e
  let choice := (s.e &&& s.f) ^^^ ((2 ^ 32 - 1 - s.e) &&& s.g)
  let t₁ := add [s.h, s₁, choice, kw.1, kw.2]
  let s₀ := rotr 2 s.a ^^^ rotr 13 s.a ^^^ rotr 22 s.a
  let majority := (s.a &&& s.b) ^^^ (s.a &&& s.c) ^^^ (s.b &&& s.c)
  ⟨add [t₁, s₀, majority], s.a, s.b, s.c, add [s.d, t₁], s.e, s.f, s.g⟩

/-- The schedule continued by `n` words, the latest first. -/
def extend : ℕ → List ℕ → List ℕ
  | 0, ws => ws
  | n + 1, ws =>
    let near := ws.getD 1 0
    let far := ws.getD 14 0
    extend n (add [rotr 17 near ^^^ rotr 19 near ^^^ (near >>> 10), ws.getD 6 0,
      rotr 7 far ^^^ rotr 18 far ^^^ (far >>> 3), ws.getD 15 0] :: ws)

def compress (s : State) (block : List ℕ) : State :=
  let t := (constants.zip (extend 48 block.reverse).reverse).foldl round s
  ⟨add [s.a, t.a], add [s.b, t.b], add [s.c, t.c], add [s.d, t.d], add [s.e, t.e], add [s.f, t.f],
    add [s.g, t.g], add [s.h, t.h]⟩

/-- The message with its padding. -/
def padded (bytes : List UInt8) : List ℕ :=
  let n := bytes.length
  bytes.map (·.toNat) ++ 0x80 :: List.replicate ((119 - n % 64) % 64) 0 ++
    (List.range 8).map fun i => ((8 * n) >>> (8 * (7 - i))) % 256

/-- Four bytes a word. -/
def words : List ℕ → List ℕ
  | a :: b :: c :: d :: t => (a * 2 ^ 24 + b * 2 ^ 16 + c * 2 ^ 8 + d) :: words t
  | _ => []

/-- The digest of `n` blocks of sixteen words. -/
def blocks : ℕ → State → List ℕ → State
  | 0, s, _ => s
  | n + 1, s, ws => blocks n (compress s (ws.take 16)) (ws.drop 16)

def hexDigits (x : ℕ) : Text :=
  (List.range 8).map fun i => Nat.digitChar ((x >>> (4 * (7 - i))) % 16)

/-- `hashlib.sha256(text.encode()).hexdigest()`. -/
def hexdigest (t : Text) : Text :=
  let ws := words (padded (t.flatMap String.utf8EncodeChar))
  (blocks (ws.length / 16) start ws).words.flatMap hexDigits

example : hexdigest "abc".toList
    = "ba7816bf8f01cfea414140de5dae2223b00361a396177a9cb410ff61f20015ad".toList := by
  decide +kernel

end Sha256
