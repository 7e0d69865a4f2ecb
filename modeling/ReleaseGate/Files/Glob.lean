import ReleaseGate.Files.Lookup

/-!
# Path patterns

In a pattern a question mark stands for one character of a name, an asterisk for any number of
them, and brackets for one of a set or, after an exclamation mark, for one outside it. Two
asterisks between slashes stand for any number of folders. A pattern with a part of no such form
matches nothing.
-/
namespace ReleaseGate.Files

namespace Glob

inductive Token where
  | only (c : Char)
  | one
  | many
  | among (ranges : List (Char × Char))
  | except (ranges : List (Char × Char))
deriving DecidableEq, Repr

/-- One part of a pattern. -/
inductive Part where
  | literal (name : String)
  | wild (tokens : List Token)
  | deep
deriving DecidableEq, Repr

/-- A hyphen between two characters makes a range of them. -/
def ranges : List Char → List (Char × Char)
  | a :: '-' :: b :: rest => (a, b) :: ranges rest
  | a :: rest => (a, a) :: ranges rest
  | [] => []

/-- A set that is open: whether it excludes, and its characters so far. -/
abbrev OpenSet := Option (Bool × List Char)

/-- A closing bracket right at the start of a set belongs to it. -/
def tokens : OpenSet → List Char → Option (List Token)
  | none, [] => some []
  | some _, [] => none
  | none, '*' :: '*' :: _ => none
  | none, '*' :: rest => (tokens none rest).map (.many :: ·)
  | none, '?' :: rest => (tokens none rest).map (.one :: ·)
  | none, '[' :: '!' :: rest => tokens (some (true, [])) rest
  | none, '[' :: rest => tokens (some (false, [])) rest
  | none, c :: rest => (tokens none rest).map (.only c :: ·)
  | some (excludes, set), c :: rest =>
    if c = ']' ∧ set ≠ [] then
      (tokens none rest).map ((if excludes then .except (ranges set) else .among (ranges set)) :: ·)
    else tokens (some (excludes, set ++ [c])) rest

def literal? : List Token → Option (List Char)
  | [] => some []
  | .only c :: rest => (literal? rest).map (c :: ·)
  | _ => none

def part? (s : List Char) : Option Part :=
  if s = ['*', '*'] then some .deep
  else
    (tokens none s).map fun ts =>
      match literal? ts with
      | some name => .literal (String.ofList name)
      | none => .wild ts

def inRanges (c : Char) (ranges : List (Char × Char)) : Bool :=
  ranges.any fun r => r.1 ≤ c && c ≤ r.2

/-- Whether a token stands for the character when it stands for one. -/
def Token.accepts (c : Char) : Token → Bool
  | .only d => c == d
  | .one => true
  | .many => true
  | .among rs => inRanges c rs
  | .except rs => !inRanges c rs

/-- For each place in a list whether anything holds there or further right. -/
def fromRight : List Bool → List Bool
  | [] => []
  | b :: bs =>
    let held := fromRight bs
    (b || held.headD false) :: held

/-- For each suffix of a name, the whole name first and nothing last, whether the tokens match it.
Each token is tried once on each suffix. -/
def matchSuffixes (name : List Char) : List Token → List Bool
  | [] => name.map (fun _ => false) ++ [true]
  | .many :: ts => fromRight (matchSuffixes name ts)
  | t :: ts =>
    name.zipWith (fun c matched => t.accepts c && matched) (matchSuffixes name ts).tail ++ [false]

def matchTokens (ts : List Token) (name : List Char) : Bool :=
  (matchSuffixes name ts).headD false

theorem length_fromRight (l : List Bool) : (fromRight l).length = l.length := by
  induction l with
  | nil => rfl
  | cons b bs ih => simp [fromRight, ih]

theorem tail_fromRight (l : List Bool) : (fromRight l).tail = fromRight l.tail := by
  cases l <;> simp [fromRight]

theorem length_matchSuffixes (name : List Char) (ts : List Token) :
    (matchSuffixes name ts).length = name.length + 1 := by
  induction ts with
  | nil => simp [matchSuffixes]
  | cons t ts ih => cases t <;> simp [matchSuffixes, length_fromRight, ih]

theorem tail_matchSuffixes (c : Char) (name : List Char) (ts : List Token) :
    (matchSuffixes (c :: name) ts).tail = matchSuffixes name ts := by
  induction ts with
  | nil => simp [matchSuffixes]
  | cons t ts ih =>
    have h := length_matchSuffixes name ts
    cases hm : matchSuffixes name ts with
    | nil => simp [hm] at h
    | cons b bs => cases t <;> simp [matchSuffixes, tail_fromRight, ih, hm]

theorem matchTokens_nil (name : List Char) : matchTokens [] name = name.isEmpty := by
  cases name <;> simp [matchTokens, matchSuffixes]

theorem matchTokens_many_nil (ts : List Token) :
    matchTokens (.many :: ts) [] = matchTokens ts [] := by
  have hl := length_matchSuffixes [] ts
  match hm : matchSuffixes [] ts with
  | [b] => simp [matchTokens, matchSuffixes, hm, fromRight]
  | [] | _ :: _ :: _ => simp [hm] at hl

theorem matchTokens_many_cons (ts : List Token) (c : Char) (name : List Char) :
    matchTokens (.many :: ts) (c :: name) =
      (matchTokens ts (c :: name) || matchTokens (.many :: ts) name) := by
  have hl := length_matchSuffixes (c :: name) ts
  have ht := tail_matchSuffixes c name ts
  cases hm : matchSuffixes (c :: name) ts with
  | nil => simp [hm] at hl
  | cons b bs => simp_all [matchTokens, matchSuffixes, fromRight]

theorem matchTokens_cons_nil {t : Token} (ts : List Token) (h : t ≠ .many) :
    matchTokens (t :: ts) [] = false := by
  cases t <;> simp_all [matchTokens, matchSuffixes]

theorem matchTokens_cons_cons {t : Token} (ts : List Token) (c : Char) (name : List Char)
    (h : t ≠ .many) :
    matchTokens (t :: ts) (c :: name) = (t.accepts c && matchTokens ts name) := by
  have hl := length_matchSuffixes name ts
  cases hm : matchSuffixes name ts with
  | nil => simp [hm] at hl
  | cons b bs => cases t <;> simp_all [matchTokens, matchSuffixes, tail_matchSuffixes]

def Part.matchName (p : Part) (name : String) : Bool :=
  match p with
  | .literal s => s == name
  | .wild ts => matchTokens ts name.toList
  | .deep => true

/-- The dot and the two dots are tried only by parts that start with a dot. -/
def Part.startsWithDot : Part → Bool
  | .wild (.only '.' :: _) => true
  | _ => false

def Part.isDeep : Part → Bool
  | .deep => true
  | _ => false

/-- Whether a path says no more than that it starts in the working folder. -/
def isHere (path : Path) : Bool :=
  !path.isAbsolute && path.parts.head? == some "." &&
    path.parts.all fun part => part == "." || part == ""

/-- Names in the working folder are not written with a dot before them. -/
def under (path : Path) (name : String) : Path :=
  if isHere path then name else path.join name

section

variable (fs : FileSystem) (needsFolder : Bool) (expand : List Part → Path → Bool)

/-- What is left to do at a path that matches all parts before `rest`. -/
def proceed (rest : List Part) (path : Path) (isFolder : Bool) : Bool :=
  if rest.isEmpty then !needsFolder || isFolder else expand rest path

def matchHere (parts : List Part) (path : Path) (name : String) (isFolder : Bool) : Bool :=
  match parts with
  | [] => false
  | p :: rest => p.matchName name && proceed needsFolder expand rest path isFolder

/-- Tries the parts on an entry of a folder. -/
def visit (parts : List Part) (path : Path) (name : String) (isFolder : Bool) : Bool :=
  match parts with
  | .deep :: rest =>
    let rest := rest.dropWhile Part.isDeep
    (isFolder && rest.isEmpty) || matchHere needsFolder expand rest path name isFolder ||
      (isFolder && expand (.deep :: rest) path)
  | parts => matchHere needsFolder expand parts path name isFolder

/-- Only a link has to be followed to tell whether an entry leads to a folder. -/
def isFolderEntry (path : Path) : Item → Bool
  | .link _ => fs.isFolder path
  | item => item.isFolder

/-- Tries the parts inside a folder. A part without wildcards is only looked up; a link that has its
name counts, wherever it leads. -/
def inside (parts : List Part) (path : Path) : Bool :=
  match parts with
  | [] => false
  | .literal name :: rest =>
    let next := under path name
    let found := if name = "." ∨ name = ".." then fs.isFolder path else fs.isTaken next
    found && proceed needsFolder expand rest next (fs.isFolder next)
  | p :: rest =>
    match fs.folder? path with
    | none => false
    | some entries =>
      (entries.any fun e =>
        let next := under path e.1
        visit needsFolder expand (p :: rest) next e.1 (isFolderEntry fs next e.2)) ||
      (p.startsWithDot && [".", ".."].any fun name =>
        matchHere needsFolder expand (p :: rest) (path.join name) name true)

end

def search (fs : FileSystem) (needsFolder : Bool) : Nat → List Part → Path → Bool
  | 0 => fun _ _ => false
  | steps + 1 => inside fs needsFolder (search fs needsFolder steps)

end Glob

mutual

/-- How deep the folders of an item are nested. -/
def Item.height : Item → Nat
  | .folder entries => heightOf entries + 1
  | _ => 0

def Item.heightOf : List (String × Item) → Nat
  | [] => 0
  | (_, item) :: entries => max item.height (heightOf entries)

end

namespace FileSystem

/-- No path is longer than the height of the root for each of the links on it. -/
def searchLimit (fs : FileSystem) : Nat :=
  (fs.root.height + 1) * (linkLimit + 1)

/-- Whether something exists that the pattern matches. A slash at its end asks for a folder. -/
def matchesAny (fs : FileSystem) (pattern : Path) : Bool :=
  let chars := pattern.toList
  let split := Path.splitSlashes (if pattern.isAbsolute then chars.drop 1 else chars)
  let needsFolder := split.getLast? == some []
  match (if needsFolder then split.dropLast else split).mapM Glob.part? with
  | none => false
  | some parts =>
    Glob.search fs needsFolder (parts.length + fs.searchLimit) parts
      (if pattern.isAbsolute then "/" else ".")

end FileSystem

end ReleaseGate.Files
