import Mathlib.Data.List.Forall2
import ReleaseGate.Json.Decode
import ReleaseGate.Proofs.Json.Tree

/-!
# What is read from the parts of a tree

A list is read item by item. A record type with one optional field depends on a single part of a
tree: the member with the name of the field or, where the record is written as a list, the first
item.
-/
namespace ReleaseGate.Json

theorem bind_eq_ok_iff {x : Except ε α} {f : α → Except ε β} {b : β} :
    x >>= f = .ok b ↔ ∃ a, x = .ok a ∧ f a = .ok b := by
  cases x with
  | error fault => simp [bind, Except.bind]
  | ok a => simp [bind, Except.bind]

/-- The member has the name, in whatever spelling. -/
def isNamed (name : String) (member : Text × Tree) : Bool :=
  member.1.decode.toOption == some name

theorem isNamed_of_decode {name found : String} {text : Text} (v : Tree)
    (h : text.decode = .ok found) : isNamed name (text, v) = (found == name) := by
  simp [isNamed, h, Except.toOption]

namespace Tree

theorem eachItem_eq_ok_iff {decode : Decoder α} {items : List Tree} {values : List α} :
    eachItem decode items = .ok values ↔
      List.Forall₂ (fun t a => decode t = .ok a) items values := by
  induction items generalizing values with
  | nil =>
    rw [List.forall₂_nil_left_iff, eachItem, Except.ok.injEq, eq_comm]
  | cons item items ih =>
    simp only [eachItem, bind_eq_ok_iff, ih, List.forall₂_cons_left_iff, pure, Except.pure,
      Except.ok.injEq]
    constructor
    · rintro ⟨a, ha, rest, hrest, rfl⟩
      exact ⟨a, rest, ha, hrest, rfl⟩
    · rintro ⟨a, rest, ha, hrest, rfl⟩
      exact ⟨a, ha, rest, hrest, rfl⟩

theorem toList_eq_ok {decode : Decoder α} {t : Tree} {values : List α}
    (h : toList decode t = .ok values) :
    ∃ items cut, t = .list items cut ∧
      List.Forall₂ (fun t a => decode t = .ok a) items values := by
  cases t with
  | list items cut =>
    simp only [toList, bind_eq_ok_iff] at h
    obtain ⟨found, hfound, -, -, h⟩ := h
    obtain rfl := Except.ok.inj h
    exact ⟨items, cut, rfl, eachItem_eq_ok_iff.1 hfound⟩
  | _ => cases h

/-- The text that a tree stands for. -/
def asText? : Tree → Option String
  | .text t => t.decode.toOption
  | _ => none

/-- Texts are made of texts alone. -/
theorem asText?_of_toValue {room : ℕ} {t : Tree} {v : Value} (h : toValue room t = .ok v) :
    v.asText? = t.asText? := by
  cases t with
  | null =>
    obtain rfl := Except.ok.inj h
    rfl
  | bool b =>
    obtain rfl := Except.ok.inj h
    rfl
  | number l =>
    rw [toValue] at h
    split at h
    · obtain rfl := Except.ok.inj h
      rfl
    · cases h
  | text t =>
    rw [toValue, bind_eq_ok_iff] at h
    obtain ⟨s, hs, h⟩ := h
    obtain rfl := Except.ok.inj h
    simp [asText?, hs, Value.asText?, Except.toOption]
  | list items cut =>
    cases room with
    | zero => cases h
    | succ room =>
      simp only [toValue, bind_eq_ok_iff] at h
      obtain ⟨values, -, -, -, h⟩ := h
      obtain rfl := Except.ok.inj h
      rfl
  | record members cut =>
    cases room with
    | zero => cases h
    | succ room =>
      simp only [toValue, bind_eq_ok_iff] at h
      obtain ⟨fields, -, -, -, h⟩ := h
      obtain rfl := Except.ok.inj h
      rfl
  | broken why => cases h
  | absent => cases h

/-- What a record tells under a name, or in the first place if it is written as a list. -/
def part? (name : String) : Tree → Option Tree
  | .record members _ => (members.find? (isNamed name)).map (·.2)
  | .list items _ => items.head?
  | _ => none

/-- The parts of a written record are its fields. -/
theorem part?_tree (fields : List (String × Value)) (name : String) :
    (Value.record fields).tree.part? name = (fields.lookup name).map Value.tree := by
  rw [Value.tree, part?]
  induction fields with
  | nil => rfl
  | cons e fields ih =>
    obtain ⟨found, v⟩ := e
    rw [memberTrees, Entries.lookup_cons]
    by_cases hname : name = found
    · rw [if_pos hname, List.find?_cons_of_pos]
      · rfl
      · simp [isNamed_of_decode v.tree (decode_textOf found), hname]
    · rw [if_neg hname, List.find?_cons_of_neg, ih]
      simpa [isNamed_of_decode v.tree (decode_textOf found)] using Ne.symm hname

variable {name : String} {decode : Decoder β} {set : β → α → α} {a : α}

/-- The result of reading a record type of one field from what its record tells of the field. -/
def Reads (decode : Decoder β) (set : β → α → α) (a : α) (part : Option Tree) (b : α) : Prop :=
  match part with
  | none => b = a
  | some t => ∃ found, decode t = .ok found ∧ b = set found a

theorem set_optional_eq_ok_iff {t : Tree} {b : α} :
    (RecordField.optional name decode set).set t a = .ok b ↔ Reads decode set a (some t) b := by
  change (decode t >>= fun found => pure (set found a)) = .ok b ↔ _
  rw [bind_eq_ok_iff]
  simp [Reads, pure, Except.pure, eq_comm]

/-- A member with another name is passed over. -/
theorem setMembers_of_ne {text : Text} {v : Tree} {members : List (Text × Tree)}
    {seen : List String} {found : String} {r : List String × α} (hfound : text.decode = .ok found)
    (hname : name ≠ found)
    (h : setMembers [.optional name decode set] seen a ((text, v) :: members) = .ok r) :
    List.find? (isNamed name) ((text, v) :: members) = members.find? (isNamed name) ∧
      setMembers [.optional name decode set] seen a members = .ok r := by
  have hother : ¬ isNamed name (text, v) = true := by
    simpa [isNamed_of_decode v hfound] using Ne.symm hname
  rw [setMembers, hfound] at h
  obtain ⟨_, hskip, h⟩ := bind_eq_ok_iff.1 h
  obtain rfl := Except.ok.inj hskip
  rw [List.find?_cons_of_neg (by simpa [RecordField.optional] using hname), List.find?_nil] at h
  obtain ⟨-, -, h⟩ := bind_eq_ok_iff.1 h
  exact ⟨List.find?_cons_of_neg hother, h⟩

/-- A field that is set is met no more. -/
theorem setMembers_of_set {members : List (Text × Tree)} {set' : List String} {b : α}
    (h : setMembers [.optional name decode set] [name] a members = .ok (set', b)) :
    members.find? (isNamed name) = none ∧ b = a := by
  induction members with
  | nil =>
    simp only [setMembers, Except.ok.injEq, Prod.mk.injEq] at h
    exact ⟨rfl, h.2.symm⟩
  | cons member members ih =>
    obtain ⟨text, v⟩ := member
    obtain ⟨found, hfound, hmember⟩ := bind_eq_ok_iff.1 h
    by_cases hname : name = found
    · simp [RecordField.optional, hname] at hmember
    · obtain ⟨hfind, hrest⟩ := setMembers_of_ne hfound hname h
      rw [hfind]
      exact ih hrest

theorem setMembers_one {members : List (Text × Tree)} {set' : List String} {b : α}
    (h : setMembers [.optional name decode set] [] a members = .ok (set', b)) :
    Reads decode set a ((members.find? (isNamed name)).map (·.2)) b := by
  induction members with
  | nil =>
    simp only [setMembers, Except.ok.injEq, Prod.mk.injEq] at h
    exact h.2.symm
  | cons member members ih =>
    obtain ⟨text, v⟩ := member
    obtain ⟨found, hfound, hmember⟩ := bind_eq_ok_iff.1 h
    by_cases hname : name = found
    · subst hname
      have hhere : isNamed name (text, v) = true := by simp [isNamed_of_decode v hfound]
      rw [List.find?_cons_of_pos (by simp [RecordField.optional])] at hmember
      simp only [List.contains_nil, Bool.false_eq_true, if_false, bind_eq_ok_iff] at hmember
      obtain ⟨c, hset, hrest⟩ := hmember
      obtain ⟨-, rfl⟩ := setMembers_of_set hrest
      rw [List.find?_cons_of_pos hhere]
      exact set_optional_eq_ok_iff.1 hset
    · obtain ⟨hfind, hrest⟩ := setMembers_of_ne hfound hname h
      rw [hfind]
      exact ih hrest

theorem setItems_one {items : List Tree} {cut : Option Break} {b : α}
    (h : setItems [.optional name decode set] a items cut = .ok b) :
    Reads decode set a items.head? b := by
  cases items with
  | nil =>
    rw [setItems, bind_eq_ok_iff] at h
    obtain ⟨-, -, h⟩ := h
    simp only [RecordField.optional, Bool.false_eq_true, if_false, setItems] at h
    obtain ⟨-, -, h⟩ := bind_eq_ok_iff.1 h
    exact (Except.ok.inj h).symm
  | cons item items =>
    rw [setItems, bind_eq_ok_iff] at h
    obtain ⟨c, hset, hrest⟩ := h
    cases items with
    | nil =>
      obtain ⟨-, -, h⟩ := bind_eq_ok_iff.1 hrest
      obtain rfl := Except.ok.inj h
      exact set_optional_eq_ok_iff.1 hset
    | cons second items => cases hrest

/-- Where a tree is read as a record with one field, the part of the field alone tells the
result. -/
theorem toRecord_one {t : Tree} {b : α}
    (h : toRecord [.optional name decode set] a t = .ok b) :
    Reads decode set a (t.part? name) b := by
  cases t with
  | record members cut =>
    rw [toRecord, bind_eq_ok_iff] at h
    obtain ⟨⟨set', c⟩, hmembers, h⟩ := h
    obtain ⟨-, -, h⟩ := bind_eq_ok_iff.1 h
    simp only [List.all_cons, List.all_nil, RecordField.optional, Bool.not_false, Bool.true_or,
      Bool.and_true, if_true] at h
    obtain rfl := Except.ok.inj h
    exact setMembers_one hmembers
  | list items cut => exact setItems_one h
  | _ => cases h

end Tree

end ReleaseGate.Json
