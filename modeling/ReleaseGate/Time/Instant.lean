import ReleaseGate.Text.Blank
import ReleaseGate.Text.Search
import ReleaseGate.Time.Date

/-!
# Instants

An instant is written in universal time, with as many groups of three fraction digits as it needs.
It is read with more freedom: any offset, single digits, and white space between the parts.
-/
namespace ReleaseGate.Time

open Text

/-- Seconds from the start of 1970 on, and nanoseconds. A leap second is the second before it with
nanoseconds from `10 ^ 9` on. -/
structure Instant where
  seconds : Int := 0
  nanos : Nat := 0
deriving DecidableEq, Repr, Inhabited

def padded (width n : Nat) : List Char :=
  let digits := Nat.toDigits 10 n
  List.replicate (width - digits.length) '0' ++ digits

/-- Four digits, or a sign and at least four digits for years that need more or come before the
first. -/
def yearText (year : Int) : List Char :=
  if 0 ≤ year ∧ year ≤ 9999 then padded 4 year.natAbs
  else (if year < 0 then '-' else '+') :: padded 4 year.natAbs

def fractionText (nanos : Nat) : List Char :=
  if nanos = 0 then []
  else if nanos % 1000000 = 0 then '.' :: padded 3 (nanos / 1000000)
  else if nanos % 1000 = 0 then '.' :: padded 6 (nanos / 1000)
  else '.' :: padded 9 nanos

def Instant.text (t : Instant) : String :=
  let date := Date.ofDayNumber (t.seconds / 86400)
  let second := (t.seconds % 86400).toNat
  let leap := t.nanos / 1000000000
  String.ofList (yearText date.year ++ '-' :: padded 2 date.month ++ '-' :: padded 2 date.day ++
    'T' :: padded 2 (second / 3600) ++ ':' :: padded 2 (second / 60 % 60) ++
    ':' :: padded 2 (second % 60 + leap) ++ fractionText (t.nanos % 1000000000) ++ ['Z'])

def skipSpace (s : List Char) : List Char :=
  s.dropWhile isSpace

/-- At most `width` digits, and at least one. -/
def digits (width : Nat) : Form Nat := fun s =>
  let found := (s.take width).takeWhile Char.isDigit
  if found.isEmpty then none
  else some (found.foldl (fun n c => n * 10 + (c.toNat - 48)) 0, s.drop found.length)

/-- A number of one or two digits in a range, after white space. -/
def within (low high : Nat) : Form Nat := fun s => do
  let (n, rest) ← digits 2 (skipSpace s)
  if low ≤ n ∧ n ≤ high then some (n, rest) else none

/-- Signed years have any number of digits. -/
def year : Form Int := fun s =>
  match skipSpace s with
  | '-' :: rest => (digits rest.length rest).map fun found => (-found.1, found.2)
  | '+' :: rest => (digits rest.length rest).map fun found => (found.1, found.2)
  | rest => (digits 4 rest).map fun found => (found.1, found.2)

/-- A mark, with white space before it. -/
def mark (c : Char) (s : List Char) : Option (List Char) :=
  after? [c] (skipSpace s)

/-- Nine digits count; more may follow. -/
def fraction : Form Nat
  | '.' :: rest => do
    let (n, tail) ← digits 9 rest
    return (n * Nat.pow 10 (9 - (rest.length - tail.length)), tail.dropWhile Char.isDigit)
  | s => some (0, s)

def offsetMinutes (s : List Char) : Option (Nat × List Char) :=
  match s with
  | a :: b :: rest => do
    if !(a.isDigit && b.isDigit) then none
    else
      match rest.dropWhile fun c => c == ':' || isSpace c with
      | c :: d :: rest =>
        if '0' ≤ c ∧ c ≤ '5' ∧ d.isDigit then
          let number (a b : Char) := (a.toNat - 48) * 10 + (b.toNat - 48)
          some (number a b * 60 + number c d, rest)
        else none
      | _ => none
  | _ => none

/-- The offset from universal time in minutes. -/
def offset : Form Int
  | u :: t :: c :: rest =>
    if u.toUpper = 'U' ∧ t.toUpper = 'T' ∧ c.toUpper = 'C' then some (0, rest)
    else signed (u :: t :: c :: rest)
  | s => signed s
where
  signed : Form Int
    | 'Z' :: rest => some (0, rest)
    | 'z' :: rest => some (0, rest)
    | '+' :: rest => (offsetMinutes rest).map fun found => (found.1, found.2)
    | '-' :: rest => (offsetMinutes rest).map fun found => (-found.1, found.2)
    | '\u2212' :: rest => (offsetMinutes rest).map fun found => (-found.1, found.2)
    | _ => none

/-- The first and the last day that an instant can lie in. -/
def firstDay : Int := Date.dayNumber ⟨-262143, 1, 1⟩

def lastDay : Int := Date.dayNumber ⟨262142, 12, 31⟩

def Instant.isInRange (t : Instant) : Bool :=
  firstDay ≤ t.seconds / 86400 && t.seconds / 86400 ≤ lastDay

def Instant.read? (text : String) : Option Instant := do
  let (year, s) ← year text.toList
  let (month, s) ← within 1 12 (← mark '-' s)
  let (day, s) ← within 1 31 (← mark '-' s)
  let s ← (after? ['T'] s).or ((after? ['t'] s).or (after? [' '] s))
  let (hour, s) ← within 0 23 s
  let (minute, s) ← within 0 59 (← mark ':' s)
  let (second, s) ← within 0 60 (← mark ':' s)
  let (nanos, s) ← fraction s
  let (minutes, s) ← offset (skipSpace s)
  let date : Date := ⟨year, month, day⟩
  let leap := second / 60
  let localSeconds := date.dayNumber * 86400 + (hour * 3600 + minute * 60 + (second - leap) : Nat)
  let t : Instant := ⟨localSeconds - minutes * 60, nanos + leap * 1000000000⟩
  if isBlank s && date.isValid && minutes.natAbs < 1440 &&
      (⟨localSeconds, 0⟩ : Instant).isInRange && t.isInRange then some t
  else none

end ReleaseGate.Time
