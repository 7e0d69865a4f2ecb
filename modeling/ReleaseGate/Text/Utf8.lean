/-!
# Bytes as characters

A machine reads bytes one at a time. Each maximal run of bytes that begins a character and cannot be
completed is one defect; so is every other byte that can begin none.
-/
namespace ReleaseGate.Text.Utf8

/-- A character that has begun: how many bytes it still wants, the bits so far, and the range that
its next byte must lie in. -/
structure Pending where
  wanted : Nat
  bits : Nat
  low : Nat
  high : Nat

inductive Lead where
  | single (c : Char)
  | opens (p : Pending)
  | stray

/-- What a byte begins. The narrowed ranges keep out overlong forms, surrogates and values beyond
the last character. -/
def lead (b : Nat) : Lead :=
  if b ≤ 0x7F then .single (Char.ofNat b)
  else if 0xC2 ≤ b ∧ b ≤ 0xDF then .opens ⟨1, b - 0xC0, 0x80, 0xBF⟩
  else if b = 0xE0 then .opens ⟨2, 0, 0xA0, 0xBF⟩
  else if b = 0xED then .opens ⟨2, 0xD, 0x80, 0x9F⟩
  else if 0xE1 ≤ b ∧ b ≤ 0xEF then .opens ⟨2, b - 0xE0, 0x80, 0xBF⟩
  else if b = 0xF0 then .opens ⟨3, 0, 0x90, 0xBF⟩
  else if 0xF1 ≤ b ∧ b ≤ 0xF3 then .opens ⟨3, b - 0xF0, 0x80, 0xBF⟩
  else if b = 0xF4 then .opens ⟨3, 4, 0x80, 0x8F⟩
  else .stray

/-- The characters of a byte sequence in order, `none` standing for a defect. -/
def scan : Option Pending → List UInt8 → List (Option Char)
  | none, [] => []
  | some _, [] => [none]
  | none, b :: rest =>
    match lead b.toNat with
    | .single c => some c :: scan none rest
    | .opens p => scan (some p) rest
    | .stray => none :: scan none rest
  | some p, b :: rest =>
    if p.low ≤ b.toNat ∧ b.toNat ≤ p.high then
      let bits := p.bits * 64 + (b.toNat - 0x80)
      if p.wanted ≤ 1 then some (Char.ofNat bits) :: scan none rest
      else scan (some ⟨p.wanted - 1, bits, 0x80, 0xBF⟩) rest
    else
      none :: match lead b.toNat with
        | .single c => some c :: scan none rest
        | .opens q => scan (some q) rest
        | .stray => none :: scan none rest

/-- The text of a byte sequence, `none` if it has a defect. -/
def decode? (bytes : List UInt8) : Option (List Char) :=
  (scan none bytes).mapM id

/-- The text of a byte sequence, with one replacement character for each defect. -/
def decodeLossy (bytes : List UInt8) : List Char :=
  (scan none bytes).map (·.getD '\uFFFD')

def encode (s : List Char) : List UInt8 :=
  s.flatMap String.utf8EncodeChar

theorem encode_nil : encode [] = [] := rfl

theorem encode_append (a b : List Char) : encode (a ++ b) = encode a ++ encode b := by
  simp [encode]

end ReleaseGate.Text.Utf8
