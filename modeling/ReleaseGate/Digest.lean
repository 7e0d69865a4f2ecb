/-!
# Content digests

The 256-bit secure hash of a byte sequence. Blocks of sixteen words are mixed into a state of eight
in sixty-four rounds; the schedule of words is a window that moves on by one word a round.
-/
namespace ReleaseGate.Digest

/-- The state of the mixing, eight words. -/
structure State where
  a : UInt32
  b : UInt32
  c : UInt32
  d : UInt32
  e : UInt32
  f : UInt32
  g : UInt32
  h : UInt32

/-- The first fraction bits of the square roots of the first eight primes. -/
def State.start : State :=
  ⟨0x6a09e667, 0xbb67ae85, 0x3c6ef372, 0xa54ff53a,
    0x510e527f, 0x9b05688c, 0x1f83d9ab, 0x5be0cd19⟩

/-- The first fraction bits of the cube roots of the first sixty-four primes. -/
def roundConstants : List UInt32 :=
  [0x428a2f98, 0x71374491, 0xb5c0fbcf, 0xe9b5dba5, 0x3956c25b, 0x59f111f1, 0x923f82a4, 0xab1c5ed5,
    0xd807aa98, 0x12835b01, 0x243185be, 0x550c7dc3, 0x72be5d74, 0x80deb1fe, 0x9bdc06a7, 0xc19bf174,
    0xe49b69c1, 0xefbe4786, 0x0fc19dc6, 0x240ca1cc, 0x2de92c6f, 0x4a7484aa, 0x5cb0a9dc, 0x76f988da,
    0x983e5152, 0xa831c66d, 0xb00327c8, 0xbf597fc7, 0xc6e00bf3, 0xd5a79147, 0x06ca6351, 0x14292967,
    0x27b70a85, 0x2e1b2138, 0x4d2c6dfc, 0x53380d13, 0x650a7354, 0x766a0abb, 0x81c2c92e, 0x92722c85,
    0xa2bfe8a1, 0xa81a664b, 0xc24b8b70, 0xc76c51a3, 0xd192e819, 0xd6990624, 0xf40e3585, 0x106aa070,
    0x19a4c116, 0x1e376c08, 0x2748774c, 0x34b0bcb5, 0x391c0cb3, 0x4ed8aa4a, 0x5b9cca4f, 0x682e6ff3,
    0x748f82ee, 0x78a5636f, 0x84c87814, 0x8cc70208, 0x90befffa, 0xa4506ceb, 0xbef9a3f7, 0xc67178f2]

def rotateRight (x n : UInt32) : UInt32 :=
  (x >>> n) ||| (x <<< (32 - n))

def State.round (s : State) (constant word : UInt32) : State :=
  let high := rotateRight s.e 6 ^^^ rotateRight s.e 11 ^^^ rotateRight s.e 25
  let choice := (s.e &&& s.f) ^^^ (~~~s.e &&& s.g)
  let mixed := s.h + high + choice + constant + word
  let low := rotateRight s.a 2 ^^^ rotateRight s.a 13 ^^^ rotateRight s.a 22
  let majority := (s.a &&& s.b) ^^^ (s.a &&& s.c) ^^^ (s.b &&& s.c)
  ⟨mixed + low + majority, s.a, s.b, s.c, s.d + mixed, s.e, s.f, s.g⟩

def State.add (s t : State) : State :=
  ⟨s.a + t.a, s.b + t.b, s.c + t.c, s.d + t.d, s.e + t.e, s.f + t.f, s.g + t.g, s.h + t.h⟩

def State.words (s : State) : List UInt32 :=
  [s.a, s.b, s.c, s.d, s.e, s.f, s.g, s.h]

/-- The word that follows a window of sixteen. -/
def nextWord (window : List UInt32) : UInt32 :=
  let older := window.getD 1 0
  let newer := window.getD 14 0
  let small := rotateRight older 7 ^^^ rotateRight older 18 ^^^ (older >>> 3)
  let large := rotateRight newer 17 ^^^ rotateRight newer 19 ^^^ (newer >>> 10)
  window.getD 0 0 + small + window.getD 9 0 + large

def mixBlock (s : State) (block : List UInt32) : State :=
  let mixed := roundConstants.foldl
    (fun (t, window) constant =>
      (State.round t constant (window.getD 0 0), window.drop 1 ++ [nextWord window]))
    (s, block)
  s.add mixed.1

/-- A one bit, zeros up to the last eight bytes of a block, and the length in bits. -/
def padding (length : Nat) : List UInt8 :=
  0x80 :: (List.replicate ((119 - length % 64) % 64) (0 : UInt8) ++
    ((List.range 8).reverse.map fun i => ((8 * length) >>> (8 * i)).toUInt8))

def wordsOf : List UInt8 → List UInt32
  | a :: b :: c :: d :: rest =>
    ((a.toUInt32 <<< 24) ||| (b.toUInt32 <<< 16) ||| (c.toUInt32 <<< 8) ||| d.toUInt32) ::
      wordsOf rest
  | _ => []

def mixWords : Nat → State → List UInt32 → State
  | 0, s, _ => s
  | blocks + 1, s, words => mixWords blocks (mixBlock s (words.take 16)) (words.drop 16)

def hash (bytes : List UInt8) : List UInt32 :=
  let words := wordsOf (bytes ++ padding bytes.length)
  (mixWords (words.length / 16) .start words).words

def hexWord (w : UInt32) : List Char :=
  (List.range 8).reverse.map fun i => Nat.digitChar (w.toNat >>> (4 * i) % 16)

/-- The digest of some content, with the name of its method. -/
def text (bytes : List UInt8) : String :=
  "sha256:" ++ String.ofList ((hash bytes).flatMap hexWord)

end ReleaseGate.Digest
