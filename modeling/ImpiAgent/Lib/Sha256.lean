import Mathlib

/-!
# UTF-8 and SHA-256

A text is a list of code points, as Python's `str` is: a lone surrogate is one, and `encode` (UTF-8)
refuses it. `hexdigest` is SHA-256 of a list of bytes, in lowercase hexadecimal: `padded` is cut
into blocks of sixteen words, and a round takes the first word of a window of sixteen, whose last is
the next of the schedule.
-/

namespace Sha256

/-! ## UTF-8 -/

def surrogate (c : Nat) : Bool := 0xd800 ≤ c && c ≤ 0xdfff

/-- The bytes of one code point. -/
def encodeOne (c : Nat) : List Nat :=
  if c < 0x80 then [c]
  else if c < 0x800 then [0xc0 + c / 64, 0x80 + c % 64]
  else if c < 0x10000 then [0xe0 + c / 4096, 0x80 + c / 64 % 64, 0x80 + c % 64]
  else [0xf0 + c / 262144, 0x80 + c / 4096 % 64, 0x80 + c / 64 % 64, 0x80 + c % 64]

/-- `str.encode()`, `none` where it raises. -/
def encode (s : List Nat) : Option (List Nat) :=
  if s.any surrogate then none else some (s.flatMap encodeOne)

theorem encode_isSome {s : List Nat} : (encode s).isSome ↔ ∀ c ∈ s, surrogate c = false := by
  unfold encode
  split <;> simp_all

/-! ## SHA-256 -/

def wrap (n : Nat) : Nat := n % 2 ^ 32

def rotr (x n : Nat) : Nat := wrap (x >>> n ||| x <<< (32 - n))

def bigSigma0 (x : Nat) : Nat := rotr x 2 ^^^ rotr x 13 ^^^ rotr x 22

def bigSigma1 (x : Nat) : Nat := rotr x 6 ^^^ rotr x 11 ^^^ rotr x 25

def smallSigma0 (x : Nat) : Nat := rotr x 7 ^^^ rotr x 18 ^^^ x >>> 3

def smallSigma1 (x : Nat) : Nat := rotr x 17 ^^^ rotr x 19 ^^^ x >>> 10

/-- The complement of a word. -/
def inv (x : Nat) : Nat := 0xffffffff - x

def ch (x y z : Nat) : Nat := x &&& y ^^^ inv x &&& z

def maj (x y z : Nat) : Nat := x &&& y ^^^ x &&& z ^^^ y &&& z

/-- The eight words of the state. -/
structure Hash where
  a : Nat
  b : Nat
  c : Nat
  d : Nat
  e : Nat
  f : Nat
  g : Nat
  h : Nat

def initial : Hash :=
  ⟨0x6a09e667, 0xbb67ae85, 0x3c6ef372, 0xa54ff53a,
    0x510e527f, 0x9b05688c, 0x1f83d9ab, 0x5be0cd19⟩

def constants : List Nat :=
  [0x428a2f98, 0x71374491, 0xb5c0fbcf, 0xe9b5dba5, 0x3956c25b, 0x59f111f1,
   0x923f82a4, 0xab1c5ed5, 0xd807aa98, 0x12835b01, 0x243185be, 0x550c7dc3,
   0x72be5d74, 0x80deb1fe, 0x9bdc06a7, 0xc19bf174, 0xe49b69c1, 0xefbe4786,
   0x0fc19dc6, 0x240ca1cc, 0x2de92c6f, 0x4a7484aa, 0x5cb0a9dc, 0x76f988da,
   0x983e5152, 0xa831c66d, 0xb00327c8, 0xbf597fc7, 0xc6e00bf3, 0xd5a79147,
   0x06ca6351, 0x14292967, 0x27b70a85, 0x2e1b2138, 0x4d2c6dfc, 0x53380d13,
   0x650a7354, 0x766a0abb, 0x81c2c92e, 0x92722c85, 0xa2bfe8a1, 0xa81a664b,
   0xc24b8b70, 0xc76c51a3, 0xd192e819, 0xd6990624, 0xf40e3585, 0x106aa070,
   0x19a4c116, 0x1e376c08, 0x2748774c, 0x34b0bcb5, 0x391c0cb3, 0x4ed8aa4a,
   0x5b9cca4f, 0x682e6ff3, 0x748f82ee, 0x78a5636f, 0x84c87814, 0x8cc70208,
   0x90befffa, 0xa4506ceb, 0xbef9a3f7, 0xc67178f2]

/-- The word the window of the schedule takes up next. -/
def scheduled (window : List Nat) : Nat :=
  wrap (smallSigma1 (window.getD 14 0) + window.getD 9 0 + smallSigma0 (window.getD 1 0) +
    window.headD 0)

def round (s : Hash) (k w : Nat) : Hash :=
  let t1 := wrap (s.h + bigSigma1 s.e + ch s.e s.f s.g + k + w)
  let t2 := wrap (bigSigma0 s.a + maj s.a s.b s.c)
  ⟨wrap (t1 + t2), s.a, s.b, s.c, wrap (s.d + t1), s.e, s.f, s.g⟩

def rounds : List Nat → List Nat → Hash → Hash
  | [], _, s => s
  | k :: ks, window, s => rounds ks (window.tail ++ [scheduled window]) (round s k (window.headD 0))

def Hash.add (s t : Hash) : Hash :=
  ⟨wrap (s.a + t.a), wrap (s.b + t.b), wrap (s.c + t.c), wrap (s.d + t.d), wrap (s.e + t.e),
    wrap (s.f + t.f), wrap (s.g + t.g), wrap (s.h + t.h)⟩

/-- `n` as `count` bytes, the highest first. -/
def bigEndian : Nat → Nat → List Nat
  | 0, _ => []
  | count + 1, n => bigEndian count (n / 256) ++ [n % 256]

def padded (message : List Nat) : List Nat :=
  message ++ 0x80 :: List.replicate ((119 - message.length % 64) % 64) 0 ++
    bigEndian 8 (8 * message.length)

/-- The words of a block. -/
def words : Nat → List Nat → List Nat
  | 0, _ => []
  | count + 1, bytes =>
    (bytes.take 4).foldl (fun n b => 256 * n + b) 0 :: words count (bytes.drop 4)

/-- The state after `count` blocks. -/
def blocks : Nat → List Nat → Hash → Hash
  | 0, _, s => s
  | count + 1, bytes, s =>
    blocks count (bytes.drop 64) (s.add (rounds constants (words 16 bytes) s))

def digest (message : List Nat) : Hash :=
  blocks ((padded message).length / 64) (padded message) initial

/-- The code point of a hexadecimal digit. -/
def hexDigit (n : Nat) : Nat := if n < 10 then 48 + n else 87 + n

/-- `n` in `count` hexadecimal digits. -/
def hex : Nat → Nat → List Nat
  | 0, _ => []
  | count + 1, n => hex count (n / 16) ++ [hexDigit (n % 16)]

def Hash.hex (s : Hash) : List Nat :=
  [s.a, s.b, s.c, s.d, s.e, s.f, s.g, s.h].flatMap (Sha256.hex 8)

def hexdigest (message : List Nat) : List Nat := (digest message).hex

example : hexdigest [97, 98, 99] =
    "ba7816bf8f01cfea414140de5dae2223b00361a396177a9cb410ff61f20015ad".toList.map Char.toNat := by
  decide +kernel

/-- A code point that `hexdigest` writes. -/
def isHex (c : Nat) : Bool := 48 ≤ c && c ≤ 57 || 97 ≤ c && c ≤ 102

theorem isHex_hexDigit {n : Nat} (h : n < 16) : isHex (hexDigit n) := by
  unfold hexDigit isHex
  split <;> simp <;> omega

theorem hex_length (count n : Nat) : (hex count n).length = count := by
  induction count generalizing n with
  | zero => rfl
  | succ count ih => simp [hex, ih]

theorem isHex_of_mem_hex {count n c : Nat} (h : c ∈ hex count n) : isHex c := by
  induction count generalizing n with
  | zero => cases h
  | succ count ih =>
    rw [hex, List.mem_append, List.mem_singleton] at h
    rcases h with h | rfl
    · exact ih h
    · exact isHex_hexDigit (Nat.mod_lt _ (by decide))

theorem hexdigest_length (message : List Nat) : (hexdigest message).length = 64 := by
  simp [hexdigest, Hash.hex, hex_length]

theorem isHex_of_mem {message : List Nat} {c : Nat} (h : c ∈ hexdigest message) : isHex c := by
  obtain ⟨_, _, h⟩ := List.mem_flatMap.1 h
  exact isHex_of_mem_hex h

end Sha256
