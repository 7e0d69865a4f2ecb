import ReleaseGate.Proofs.Files.Parts
import ReleaseGate.Proofs.Files.Reach

/-!
# Folders that are made

What making folders and writing a file change, place by place: the file is at one place, and all
other changes are new folders, each where a path above the written one leads.
-/
namespace ReleaseGate.Files

namespace Path

/-- The paths above a path: that of the folder that holds what it names, and so on up. -/
inductive Above (p : Path) : Path → Prop
  | parent {q : Path} (h : p.parent? = some q) : Above p q
  | next {q r : Path} (hq : Above p q) (h : q.parent? = some r) : Above p r

theorem trimEnd_suffix (absolute : Bool) (parts : List (List Char)) :
    trimEnd absolute parts <:+ parts := by
  induction parts with
  | nil => exact List.suffix_rfl
  | cons part rest ih =>
    rw [trimEnd]
    split
    · exact ih.trans (List.suffix_cons part rest)
    · exact List.suffix_rfl

theorem head_trimEnd_ne_nil {absolute : Bool} {parts rest : List (List Char)} {part : List Char}
    (h : trimEnd absolute parts = part :: rest) : part ≠ [] := by
  induction parts with
  | nil => simp [trimEnd] at h
  | cons first more ih =>
    rw [trimEnd] at h
    split at h
    case isTrue => exact ih h
    case isFalse hkept =>
      obtain rfl := (List.cons.inj h).1
      exact fun he => hkept (.inl he)

theorem joinParts_concat (parts : List (List Char)) (part : List Char) :
    ∃ front, joinParts (parts ++ [part]) = front ++ part := by
  induction parts with
  | nil => exact ⟨[], rfl⟩
  | cons first parts ih =>
    obtain ⟨front, hfront⟩ := ih
    obtain ⟨second, rest, hrest⟩ := List.exists_cons_of_ne_nil
      (List.append_ne_nil_of_right_ne_nil parts (List.cons_ne_nil part []))
    refine ⟨first ++ '/' :: front, ?_⟩
    rw [List.cons_append, hrest, joinParts, ← hrest, hfront]
    · simp
    · simp

/-- Parts that are joined again end in a character of the last one. -/
theorem getLast?_joinParts (absolute : Bool) {parts : List (List Char)}
    (h : ∀ part ∈ parts, '/' ∉ part) :
    trimEnd absolute parts = [] ∨
      ∃ c, (joinParts (trimEnd absolute parts).reverse).getLast? = some c ∧ c ≠ '/' := by
  cases htrim : trimEnd absolute parts with
  | nil => exact .inl rfl
  | cons part more =>
    obtain ⟨front, hfront⟩ := joinParts_concat more.reverse part
    have hmem : part ∈ parts := (trimEnd_suffix absolute parts).mem (htrim ▸ List.mem_cons_self)
    have hlast : part.getLast? = some (part.getLast (head_trimEnd_ne_nil htrim)) :=
      List.getLast?_eq_some_getLast _
    refine .inr ⟨part.getLast (head_trimEnd_ne_nil htrim), ?_, ?_⟩
    · rw [List.reverse_cons, hfront, List.getLast?_append, hlast, Option.some_or]
    · intro he
      exact h part hmem (he ▸ List.getLast_mem _)

/-- What is above a path has no slash at its end, unless it is nothing else. -/
theorem getLast?_of_parent? {p q : Path} (h : p.parent? = some q) :
    q = "" ∨ q = "/" ∨ q.toList.getLast? ≠ some '/' := by
  unfold parent? at h
  simp only at h
  generalize isAbsolute p = absolute at h
  have hfree : ∀ part ∈ if absolute = true then (splitSlashes p.toList).drop 1
      else splitSlashes p.toList, '/' ∉ part := by
    intro part hpart
    split at hpart
    · exact not_mem_of_mem_splitSlashes (List.mem_of_mem_drop hpart)
    · exact not_mem_of_mem_splitSlashes hpart
  split at h
  case h_1 => simp at h
  case h_2 last rest hlast =>
    obtain rfl := Option.some.inj h
    have hrest : ∀ part ∈ rest, '/' ∉ part := by
      intro part hpart
      apply hfree part
      apply List.mem_reverse.1
      apply (trimEnd_suffix absolute _).mem
      rw [hlast]
      exact List.mem_cons_of_mem last hpart
    rcases getLast?_joinParts absolute hrest with hnil | ⟨c, hc, hne⟩
    · cases absolute with
      | true => exact .inr (.inl (by rw [hnil]; rfl))
      | false => exact .inl (by rw [hnil]; rfl)
    · right
      right
      rw [String.toList_ofList]
      cases absolute with
      | true => simp [List.getLast?_cons, hc, hne]
      | false => simp [hc, hne]

theorem Above.getLast? {p q : Path} (h : Above p q) :
    q = "" ∨ q = "/" ∨ q.toList.getLast? ≠ some '/' := by
  cases h with
  | parent h => exact getLast?_of_parent? h
  | next _ h => exact getLast?_of_parent? h

/-- Such a path is made as it stands. -/
theorem Above.trimmed {p q : Path} (h : Above p q) :
    (if ((q.toList.reverse.dropWhile (· == '/')).reverse).isEmpty then q
      else String.ofList (q.toList.reverse.dropWhile (· == '/')).reverse) = q := by
  rcases h.getLast? with rfl | rfl | hlast
  · rfl
  · rfl
  · have hkept : q.toList.reverse.dropWhile (· == '/') = q.toList.reverse := by
      rw [← List.head?_reverse] at hlast
      cases hchars : q.toList.reverse with
      | nil => rfl
      | cons c rest =>
        have hc : c ≠ '/' := by simpa [hchars] using hlast
        rw [List.dropWhile_cons_of_neg (by simpa using hc)]
    rw [hkept, List.reverse_reverse, String.ofList_toList, ite_self]

end Path

namespace Item

theorem at?_of_entries_eq_nil {item : Item} (h : item.entries = []) {place : Place}
    (hplace : place ≠ []) : item.at? place = none := by
  obtain ⟨name, rest, rfl⟩ := List.exists_cons_of_ne_nil hplace
  rw [at?_cons, h, List.lookup_nil, Option.bind_none]

/-- Where nothing holds anything before or after, only the place itself changes. -/
theorem outline_at?_put_of_ne {root new : Item} {folder other : Place} {name : String}
    {entries : List (String × Item)} (hfolder : root.at? folder = some (.folder entries))
    (hold : ∀ item, entries.lookup name = some item → item.entries = [])
    (hnew : new.entries = []) (hother : other ≠ folder ++ [name]) :
    ((put new (folder ++ [name]) root).at? other).map outline = (root.at? other).map outline := by
  by_cases hstart : folder ++ [name] <+: other
  · obtain ⟨more, rfl⟩ := hstart
    have hmore : more ≠ [] := by
      rintro rfl
      exact hother (List.append_nil _)
    rw [at?_put_append, at?_append root, at?_child hfolder, at?_of_entries_eq_nil hnew hmore]
    cases hlookup : entries.lookup name with
    | none => rfl
    | some item => rw [Option.bind_some, at?_of_entries_eq_nil (hold item hlookup) hmore]
  · exact outline_at?_put new hfolder hstart

/-- A file that is written over changes nothing else. -/
theorem outline_at?_overwrite {root : Item} {place other : Place} {old : List UInt8}
    (h : root.at? place = some (.file old)) (content : List UInt8) (hother : other ≠ place) :
    ((put (.file content) place root).at? other).map outline = (root.at? other).map outline := by
  rcases List.eq_nil_or_concat place with rfl | ⟨folder, name, rfl⟩
  · rw [at?_nil, Option.some.injEq] at h
    subst h
    rw [put, at?_of_entries_eq_nil rfl hother, at?_of_entries_eq_nil rfl hother]
  · rw [List.concat_eq_append] at h hother ⊢
    rw [at?_append, Option.bind_eq_some_iff] at h
    obtain ⟨parent, hparent, hname⟩ := h
    cases parent with
    | folder entries =>
      refine outline_at?_put_of_ne hparent (fun item hitem => ?_) rfl hother
      rw [← at?_child hparent, at?_append, hparent, Option.bind_some, hname,
        Option.some.injEq] at hitem
      rw [← hitem]
      rfl
    | file content => simp [at?_cons, Item.entries] at hname
    | link target => simp [at?_cons, Item.entries] at hname

end Item

namespace FileSystem

/-- A free name is free whether links are followed at the end or not. -/
theorem steps_followLast_of_vacant {root : Item} {viaLink viaLink' : Place → List String → Reach}
    {folder : Place} {name : String}
    (hvia : ∀ place parts, viaLink place parts = .vacant folder name →
      viaLink' place parts = .vacant folder name)
    {parts : List String} {place : Place}
    (h : steps root false viaLink parts place = .vacant folder name) :
    steps root true viaLink' parts place = .vacant folder name := by
  induction parts generalizing place with
  | nil => simp [steps] at h
  | cons part parts ih =>
    cases partCase root place part with
    | stuck hplace =>
      rw [steps_stuck false viaLink parts hplace] at h
      simp at h
    | here hplace hdot =>
      rw [steps_here _ _ parts hplace hdot] at h ⊢
      exact ih h
    | up hplace hup =>
      subst hup
      rw [steps_up _ _ parts hplace] at h ⊢
      exact ih h
    | free hplace hdot hup hfree =>
      rw [steps_free _ _ parts hplace hdot hup hfree] at h ⊢
      exact h
    | link hplace hdot hup hlink =>
      rw [steps_link _ _ parts hplace hdot hup hlink] at h ⊢
      split at h
      case isTrue => simp at h
      case isFalse => simpa using hvia _ _ h
    | plain hplace hdot hup hchild hplain =>
      rw [steps_plain _ _ parts hplace hdot hup hchild hplain] at h ⊢
      exact ih h

theorem follow_followLast_of_vacant {root : Item} {links : Nat} {place folder : Place}
    {parts : List String} {name : String}
    (h : follow root false links place parts = .vacant folder name) :
    follow root true links place parts = .vacant folder name := by
  induction links generalizing place parts with
  | zero => exact steps_followLast_of_vacant (fun _ _ hvia => by simp at hvia) h
  | succ links ih => exact steps_followLast_of_vacant (fun _ _ hvia => ih hvia) h

theorem reach_followLast_of_vacant {fs : FileSystem} {p : Path} {folder : Place} {name : String}
    (h : fs.reach false p = .vacant folder name) : fs.reach true p = .vacant folder name := by
  unfold reach at h ⊢
  split at h
  · simp at h
  split at h
  · simp at h
  · rename_i hempty hpath
    rw [if_neg hempty, if_neg hpath]
    exact follow_followLast_of_vacant h

/-- A new folder, at a place that one of the paths leads to. -/
structure Opened (paths : Path → Prop) (fs after : FileSystem) (place : Place) : Prop where
  free : fs.root.at? place = none
  folder : ∃ entries, after.root.at? place = some (.folder entries)
  reached : ∃ p, paths p ∧ after.reach true p = .found place

/-- A file system grows by what is written and by folders that the paths lead to. Every other place
has what it had. -/
structure Opens (paths : Path → Prop) (written : Place → Prop) (fs after : FileSystem) : Prop where
  grows : Grows written fs after
  others : ∀ place, ¬ written place →
    (after.root.at? place).map Item.outline = (fs.root.at? place).map Item.outline ∨
      Opened paths fs after place

variable {paths : Path → Prop} {written : Place → Prop}

theorem Opens.refl (fs : FileSystem) : Opens paths Item.nowhere fs fs :=
  ⟨.refl fs, fun _ _ => .inl rfl⟩

/-- A folder that is made stays, and is reached as before. -/
theorem Opened.grows {fs middle after : FileSystem} {place : Place}
    (h : Opened paths fs middle place) (hgrows : Grows written middle after) :
    Opened paths fs after place := by
  obtain ⟨entries, hfolder⟩ := h.folder
  obtain ⟨p, hp, hreach⟩ := h.reached
  exact ⟨h.free, hgrows.root.folder hfolder, p, hp, hgrows.reach_found hreach⟩

theorem Opens.trans {fs middle after : FileSystem} (h : Opens paths Item.nowhere fs middle)
    (h' : Opens paths written middle after) : Opens paths written fs after where
  grows := h.grows.trans h'.grows
  others place hw := by
    rcases h.others place id with hsame | hopened
    · rcases h'.others place hw with hsame' | hopened'
      · exact .inl (hsame'.trans hsame)
      · rw [hopened'.free, Option.map_none, eq_comm, Option.map_eq_none_iff] at hsame
        exact .inr ⟨hsame, hopened'.folder, hopened'.reached⟩
    · exact .inr (hopened.grows h'.grows)

theorem opens_makeFolder (fs : FileSystem) {p q : Path} (h : p.Above q) :
    Opens p.Above Item.nowhere fs (fs.makeFolder q).1 := by
  have hgrows := grows_makeFolder fs q
  refine ⟨hgrows, fun place _ => ?_⟩
  unfold makeFolder at hgrows ⊢
  simp only [h.trimmed] at hgrows ⊢
  cases hreach : fs.reach false q with
  | vacant folder name =>
    simp only [hreach] at hgrows ⊢
    obtain ⟨entries, hfolder, hfree⟩ := reach_vacant hreach
    by_cases hplace : place = folder ++ [name]
    · subst hplace
      have hnew : (fs.put (folder ++ [name]) (.folder [])).root.at? (folder ++ [name]) =
          some (.folder []) := Item.at?_put_self _ _ _
      have hstays := hgrows.reach true q
      rw [reach_followLast_of_vacant hreach, Reach.Stays, hnew, Option.isSome_some,
        if_pos rfl] at hstays
      exact .inr ⟨by rw [Item.at?_child hfolder, hfree], ⟨[], hnew⟩, q, h, hstays⟩
    · exact .inl (Item.outline_at?_put_of_ne hfolder (by simp [hfree]) rfl hplace)
  | found place => exact .inl rfl
  | missing => exact .inl rfl
  | blocked => exact .inl rfl

theorem opens_makeFolders (fs : FileSystem) (steps : Nat) {p q : Path} (h : p.Above q) :
    Opens p.Above Item.nowhere fs (fs.makeFolders steps q).1 := by
  induction steps generalizing q with
  | zero => exact .refl fs
  | succ steps ih =>
    have hmake := opens_makeFolder fs h
    rw [makeFolders]
    split
    · exact .refl fs
    split
    case h_1 made _ _ hmade =>
      rw [hmade] at hmake
      exact hmake
    case h_2 =>
      split
      · exact .refl fs
      case h_2 parent hparent =>
        have habove := ih (h.next hparent)
        split
        case h_1 above hmade =>
          rw [hmade] at habove
          exact habove
        case h_2 above hmade =>
          rw [hmade] at habove
          have hagain := opens_makeFolder above h
          split
          case h_1 made _ _ hmade =>
            rw [hmade] at hagain
            exact habove.trans hagain
          case h_2 => exact habove
    case h_3 => exact .refl fs

/-- Making the folder of a path makes folders above it alone. -/
theorem opens_makeAllFolders (fs : FileSystem) (p : Path) :
    Opens p.Above Item.nowhere fs (fs.makeAllFolders ((p.parent?).getD "")).1 := by
  cases h : p.parent? with
  | none => exact .refl fs
  | some parent => exact opens_makeFolders fs _ (.parent h)

/-- Writing changes the place of the file alone. -/
theorem opens_write? {fs after : FileSystem} {p : Path} {content : List UInt8}
    (h : fs.write? p content = some after) :
    ∃ place, Opens paths (· = place) fs after ∧ after.reach true p = .found place ∧
      place ∉ after.barred ∧ after.root.at? place = some (.file content) := by
  obtain ⟨place, hgrows, hreach, hopen, hfile⟩ := write?_eq_some h
  refine ⟨place, ⟨hgrows, fun other hother => .inl ?_⟩, hreach, hopen, hfile⟩
  unfold write? at h
  split at h
  case h_1 found hfound =>
    obtain rfl : found = place := Reach.found.inj ((hgrows.reach_found hfound).symm.trans hreach)
    split at h
    case h_1 old hold =>
      split at h
      · simp at h
      obtain rfl := Option.some.inj h
      exact Item.outline_at?_overwrite hold content hother
    case h_2 => simp at h
  case h_2 folder name hvacant =>
    obtain rfl := Option.some.inj h
    obtain ⟨entries, hfolder, hfree⟩ := reach_vacant hvacant
    have hnew : (fs.put (folder ++ [name]) (.file content)).root.at? (folder ++ [name]) =
        some (.file content) := Item.at?_put_self _ _ _
    have hstays := hgrows.reach true p
    rw [hvacant, Reach.Stays, hnew, Option.isSome_some, if_pos rfl, hreach,
      Reach.found.injEq] at hstays
    exact Item.outline_at?_put_of_ne hfolder (by simp [hfree]) rfl (hstays ▸ hother)
  case h_3 => simp at h

end FileSystem

end ReleaseGate.Files
