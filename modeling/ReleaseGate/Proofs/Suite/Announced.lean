import ReleaseGate.Proofs.Suite.Attribution
import ReleaseGate.Proofs.Suite.Rendered

/-!
# Names that can be announced

A target has no white space in it, and its name goes from its last slash to a hyphen. So a name with
white space, a slash or a hyphen in it is announced by no line of any log. Every other one can be
announced, and summed up.
-/
namespace ReleaseGate.Suite

open Text

/-- The name holds white space, a slash or a hyphen, at which the name of a target is cut. -/
def IsCutShort (name : String) : Prop :=
  ∃ c ∈ name.toList, isSpace c = true ∨ c = '/' ∨ c = '-'

instance (name : String) : Decidable (IsCutShort name) :=
  List.decidableBEx (fun c => isSpace c = true ∨ c = '/' ∨ c = '-') name.toList

variable {s t : List Char} {c : Char} {name : String}

theorem not_isCutShort_iff :
    ¬ IsCutShort name ↔ ∀ c ∈ name.toList, isSpace c = false ∧ c ≠ '/' ∧ c ≠ '-' := by
  simp only [IsCutShort, not_exists, not_and, not_or, Bool.not_eq_true]

theorem Announces.isSpace (h : Announces t s) (hc : c ∈ t) : isSpace c = false := by
  cases h with
  | inTests h => exact h.fits.word c hc
  | plain _ h => exact h.fits.word c hc

theorem mem_of_mem_normalName (h : c ∈ normalName t) : c ∈ t ∧ c ≠ '/' ∧ c ≠ '-' := by
  have hhyphen : c ≠ '-' := by simpa using List.mem_takeWhile_imp h
  have hstem := (List.takeWhile_prefix _).subset h
  have hfile : c ∈ (t.reverse.takeWhile (· != '/')).reverse := by
    cases hsuffix : dropSuffix? ".rs".toList (t.reverse.takeWhile (· != '/')).reverse with
    | none => simpa only [hsuffix, Option.getD_none] using hstem
    | some stem =>
      rw [hsuffix, Option.getD_some] at hstem
      exact eq_append_of_dropSuffix? hsuffix ▸ List.mem_append_left _ hstem
  have hlast := List.mem_reverse.1 hfile
  exact ⟨List.mem_reverse.1 ((List.takeWhile_prefix _).subset hlast),
    by simpa using List.mem_takeWhile_imp hlast, hhyphen⟩

theorem not_isCutShort_of_announced? {line : List Char} (h : announced? line = some name) :
    ¬ IsCutShort name := by
  obtain ⟨t, ⟨front, tail, rfl, hannounces, -⟩, rfl⟩ := announced?_eq_some_iff.1 h
  refine not_isCutShort_iff.2 fun c hc => ?_
  rw [String.toList_ofList] at hc
  obtain ⟨hmem, hcut⟩ := mem_of_mem_normalName hc
  exact ⟨hannounces.isSpace hmem, hcut⟩

/-- A hyphen behind the name keeps a suffix that is part of it. -/
def announcementOf (name : String) : List Char :=
  "Running ".toList ++ (name.toList ++ "- ".toList)

theorem of_mem_append_hyphen (h : ¬ IsCutShort name) (hc : c ∈ name.toList ++ ['-']) :
    isSpace c = false ∧ c ≠ '/' := by
  rcases List.mem_append.1 hc with hc | hc
  · obtain ⟨hspace, hslash, -⟩ := not_isCutShort_iff.1 h c hc
    exact ⟨hspace, hslash⟩
  · rw [List.mem_singleton.1 hc]
    decide

theorem not_suffix_hyphen (stem : List Char) : ¬ ".rs".toList <:+ stem ++ ['-'] := by
  rintro ⟨front, hfront⟩
  have hlast := congrArg List.getLast? hfront
  rw [List.getLast?_append, List.getLast?_append] at hlast
  cases hlast

theorem target_hyphen (h : ¬ IsCutShort name) :
    target (name.toList ++ "- ".toList) = some (name.toList ++ ['-'], [' ']) := by
  have htext : name.toList ++ "- ".toList = (name.toList ++ ['-']) ++ ' ' :: [] := by simp
  obtain ⟨htake, hdrop⟩ := takeWhile_dropWhile_word
    (fun c hc => (of_mem_append_hyphen h hc).1) (c := ' ') rfl []
  rw [htext, target_of_no_suffix (hdrop.trans_ne (List.cons_ne_nil _ _))
    (htake.trans_ne (by simp)) ?_, htake, hdrop]
  intro t _ hword
  exact not_suffix_hyphen _ ⟨t, (htake.symm.trans hword).symm⟩

theorem announced?_announcementOf (h : ¬ IsCutShort name) :
    announced? (announcementOf name) = some name := by
  have htests : after? "tests/".toList (name.toList ++ "- ".toList) = none := by
    refine Option.eq_none_iff_forall_ne_some.2 fun tail htail => ?_
    have hslash : '/' ∈ name.toList ++ "- ".toList := by
      rw [eq_append_of_after? htail]
      exact List.mem_append_left _ (by decide)
    rcases List.mem_append.1 hslash with hslash | hslash
    · exact (not_isCutShort_iff.1 h '/' hslash).2.1 rfl
    · exact absurd hslash (by decide)
  have hmatch : announcement (announcementOf name) = some (name.toList ++ ['-'], [' ']) := by
    unfold announcementOf announcement
    rw [after?_append, Option.bind_eq_bind, Option.bind_some, htests, Option.bind_none,
      Option.none_or, target_hyphen h]
  have hname : ∀ c ∈ name.toList, (c != '-') = true := fun c hc => by
    simpa using (not_isCutShort_iff.1 h c hc).2.2
  have hhyphen : ['-'].takeWhile (· != '-') = [] := rfl
  rw [announced?, firstMatch_of_eq_some hmatch, Option.map_some,
    normalName_eq_takeWhile (fun c hc => (of_mem_append_hyphen h hc).2) (not_suffix_hyphen _),
    List.takeWhile_append_of_pos hname, hhyphen, List.append_nil, String.ofList_toList]

theorem summary?_announcementOf (h : ¬ IsCutShort name) :
    summary? (announcementOf name) = none := by
  have hname : ∀ c ∈ name.toList, c ≠ ' ' := by
    rintro c hc rfl
    exact absurd (not_isCutShort_iff.1 h ' ' hc).1 (by decide)
  have hfront : ∀ c ∈ (name.toList ++ "- ".toList).head?, c ≠ ' ' := by
    cases hchars : name.toList with
    | nil =>
      rintro c ⟨⟩
      decide
    | cons d stem =>
      rintro c ⟨⟩
      exact hname d (hchars ▸ List.mem_cons_self)
  have happart : IsApart (announcementOf name) :=
    IsApart.append (by decide)
      ((isApart_of_forall_ne hname).append (by decide) (by decide)) hfront
  have hword : ¬ "test result: ".toList <:+: announcementOf name := fun hpart =>
    absurd (happart.of_isInfix hpart) (by decide)
  exact firstMatch_eq_none_of_word (fun s => Option.isSome_of_isSome_bind) hword

/-- A run without any tests. -/
def emptyRun (name : String) : Run :=
  ⟨name, "", .pass, 0, 0, 0, 0, 0⟩

/-- A log of nothing but such a run. -/
def emptyRunLog (name : String) : List Char :=
  announcementOf name ++ (LineEnd.feed.text ++ ((emptyRun name).summaryLine ++ LineEnd.feed.text))

variable {expected : List String}

theorem get?_readLog_emptyRunLog (h : ¬ IsCutShort name) (hname : name ∈ expected) :
    (readLog expected (emptyRunLog name)).get? name = some (emptyRun name).result := by
  have hblank : IsBlankSpaced (announcementOf name) :=
    IsBlankSpaced.append (by decide) (IsBlankSpaced.append
      (fun c hc => .inr (not_isCutShort_iff.1 h c hc).1) (by decide))
  have hlines : feedLines (emptyRunLog name) =
      [announcementOf name, (emptyRun name).summaryLine] := by
    have hlast := feedLines_line (Run.isBlankSpaced_summaryLine (emptyRun name)) .feed []
    rw [List.append_nil] at hlast
    rw [emptyRunLog, feedLines_line hblank, hlast]
    rfl
  have hresult := Run.result?_summary (r := emptyRun name) (Nat.zero_lt_succ _)
  rw [readLog, hlines, readLines, List.foldl_cons, List.foldl_cons, List.foldl_nil,
    Progress.step_announces (announced?_announcementOf h) (summary?_announcementOf h) hname,
    Progress.step_reports (Run.announced?_summaryLine _) (Run.summary?_summaryLine _) hresult,
    NameMap.get?_insert, if_pos rfl]

/-- A log can have a result for a suite exactly if the suite is expected and no target cuts its name
short. -/
theorem exists_mem_names_readLog_iff :
    (∃ log, name ∈ (readLog expected log).names) ↔ name ∈ expected ∧ ¬ IsCutShort name := by
  constructor
  · rintro ⟨log, h⟩
    obtain ⟨r, hr⟩ := NameMap.mem_names_iff_exists.1 h
    obtain ⟨hname, i, j, hcredits⟩ := exists_credits_of_get?_readLog hr
    obtain ⟨line, -, hline⟩ := Option.bind_eq_some_iff.1 hcredits.announced
    exact ⟨hname, not_isCutShort_of_announced? hline⟩
  · rintro ⟨hname, h⟩
    exact ⟨emptyRunLog name,
      NameMap.mem_names_iff_exists.2 ⟨_, get?_readLog_emptyRunLog h hname⟩⟩

end ReleaseGate.Suite
