/-!
# Leftmost matches

A form is a reader that says what it matches at the start of a text and what follows the match. Its
matches in a text are taken from the left and do not overlap.
-/
namespace ReleaseGate.Text

abbrev Form (α : Type) := List Char → Option (α × List Char)

/-- The text after `word`, if it starts with it. -/
def after? : List Char → List Char → Option (List Char)
  | [], s => some s
  | _ :: _, [] => none
  | w :: word, c :: s => if w = c then after? word s else none

/-- The matches of a form, where the first `skip` characters belong to an earlier match. -/
def matchesFrom (form : Form α) : Nat → List Char → List α
  | _, [] => []
  | skip + 1, _ :: rest => matchesFrom form skip rest
  | 0, c :: rest =>
    match form (c :: rest) with
    | some (a, tail) => a :: matchesFrom form (rest.length - tail.length) rest
    | none => matchesFrom form 0 rest

def allMatches (form : Form α) (s : List Char) : List α :=
  matchesFrom form 0 s

/-- What a form matches at the leftmost place where it matches at all. -/
def firstMatch (form : Form α) : List Char → Option α
  | [] => (form []).map (·.1)
  | c :: rest =>
    match form (c :: rest) with
    | some (a, _) => some a
    | none => firstMatch form rest

theorem after?_append (word s : List Char) : after? word (word ++ s) = some s := by
  induction word with
  | nil => rfl
  | cons w word ih => simp [after?, ih]

theorem eq_append_of_after? {word s tail : List Char} (h : after? word s = some tail) :
    s = word ++ tail := by
  induction word generalizing s with
  | nil => simpa [after?] using h
  | cons w word ih =>
    cases s with
    | nil => simp [after?] at h
    | cons c s =>
      by_cases hc : w = c
      · simp only [after?, hc, if_true] at h
        simp [ih h, hc]
      · simp [after?, hc] at h

theorem matchesFrom_skip (form : Form α) (s tail : List Char) :
    matchesFrom form s.length (s ++ tail) = matchesFrom form 0 tail := by
  induction s with
  | nil => rfl
  | cons c s ih => simpa [matchesFrom] using ih

end ReleaseGate.Text
