import Mathlib.Data.List.Basic
import ReleaseGate.Json.Decode
import ReleaseGate.Proofs.Json.Tree
import ReleaseGate.Proofs.NameMap

/-!
# Reading back what was written

A value that was written and read again is the same but for two things: its records have their
fields in the order of the names, and its numbers are what the reader makes of their literals.
-/
namespace ReleaseGate.Json

open Text.Utf8

mutual

/-- What becomes of a value that is written and read again. -/
def Value.reread : Value → Value
  | .null => .null
  | .bool b => .bool b
  | .number n => .number (n.literal.toNumber?.getD n)
  | .text s => .text s
  | .list items => .list (rereadItems items)
  | .record fields => .record (NameMap.ofList (rereadFields fields)).entries

def rereadItems : List Value → List Value
  | [] => []
  | v :: items => v.reread :: rereadItems items

def rereadFields : List (String × Value) → List (String × Value)
  | [] => []
  | (name, v) :: fields => (name, v.reread) :: rereadFields fields

end

/-- A value that can be read back: it is nested at most `room` deep, no record has two fields of one
name, and no number is out of range. -/
inductive Value.Readable : ℕ → Value → Prop
  | null (room : ℕ) : Readable room .null
  | bool (room : ℕ) (b : Bool) : Readable room (.bool b)
  | number (room : ℕ) {n : Number} (h : n.literal.toNumber?.isSome) : Readable room (.number n)
  | text (room : ℕ) (s : String) : Readable room (.text s)
  | list {room : ℕ} {items : List Value} (h : ∀ v ∈ items, Readable room v) :
    Readable (room + 1) (.list items)
  | record {room : ℕ} {fields : List (String × Value)} (hnames : (fields.map (·.1)).Nodup)
    (h : ∀ e ∈ fields, Readable room e.2) : Readable (room + 1) (.record fields)

/-- A record of the given fields, to be checked one by one. -/
theorem Value.readable_record {room : ℕ} {fields : List (String × Value)}
    (hnames : (fields.map (·.1)).Nodup) (h : fields.Forall fun e => e.2.Readable room) :
    (Value.record fields).Readable (room + 1) :=
  .record hnames (List.forall_iff_forall_mem.1 h)

theorem Value.readable_list {room : ℕ} {items : List Value} (h : items.Forall (·.Readable room)) :
    (Value.list items).Readable (room + 1) :=
  .list (List.forall_iff_forall_mem.1 h)

theorem toValues_itemTrees {room : ℕ} {items : List Value}
    (h : ∀ v ∈ items, Tree.toValue room v.tree = .ok v.reread) :
    Tree.toValues room (itemTrees items) = .ok (rereadItems items) := by
  induction items with
  | nil => rfl
  | cons v items ih =>
    rw [itemTrees, Tree.toValues, h v List.mem_cons_self,
      ih fun w hw => h w (List.mem_cons_of_mem v hw)]
    rfl

theorem toFields_memberTrees {room : ℕ} {fields : List (String × Value)}
    (h : ∀ e ∈ fields, Tree.toValue room e.2.tree = .ok e.2.reread) (m : NameMap Value) :
    Tree.toFields room m.entries (memberTrees fields) =
      .ok ((rereadFields fields).foldl (fun m e => m.insert e.1 e.2) m).entries := by
  induction fields generalizing m with
  | nil => rfl
  | cons e fields ih =>
    obtain ⟨name, v⟩ := e
    have hv : Tree.toValue room v.tree = .ok v.reread := h (name, v) List.mem_cons_self
    have htail := ih (fun e he => h e (List.mem_cons_of_mem _ he)) (m.insert name v.reread)
    rw [memberTrees, Tree.toFields, decode_textOf, hv]
    exact htail

theorem toValue_tree {room : ℕ} {v : Value} (h : v.Readable room) :
    Tree.toValue room v.tree = .ok v.reread := by
  induction h with
  | null room => rw [Value.tree, Tree.toValue, Value.reread]
  | bool room b => rw [Value.tree, Tree.toValue, Value.reread]
  | @number room n h =>
    obtain ⟨m, hm⟩ := Option.isSome_iff_exists.1 h
    rw [Value.tree, Tree.toValue, Value.reread, hm]
    rfl
  | text room s =>
    rw [Value.tree, Tree.toValue, Value.reread, decode_textOf]
    rfl
  | list h ih =>
    rw [Value.tree, Tree.toValue, Value.reread]
    simp only [toValues_itemTrees ih]
    rfl
  | record hnames h ih =>
    rw [Value.tree, Tree.toValue, Value.reread]
    have hfields := toFields_memberTrees ih .empty
    simp only [NameMap.empty] at hfields
    simp only [hfields]
    rfl

/-- A stored document is read back. -/
theorem readValue_pretty {v : Value} (h : v.Readable nestingLimit) :
    readValue (encode (pretty 0 v ++ ['\n'])) = .ok v.reread := by
  simp only [readValue, decodeDocument, ofBytes_pretty, toValue_tree h]
  rfl

theorem rereadItems_eq_map (items : List Value) : rereadItems items = items.map Value.reread := by
  induction items with
  | nil => rfl
  | cons v items ih => rw [rereadItems, ih, List.map_cons]

theorem rereadFields_eq_map (fields : List (String × Value)) :
    rereadFields fields = fields.map fun e => (e.1, e.2.reread) := by
  induction fields with
  | nil => rfl
  | cons e fields ih =>
    obtain ⟨key, v⟩ := e
    rw [rereadFields, ih, List.map_cons]

theorem lookup_rereadFields (fields : List (String × Value)) (name : String) :
    (rereadFields fields).lookup name = (fields.lookup name).map Value.reread := by
  rw [rereadFields_eq_map, NameMap.lookup_map fun _ => Value.reread]

theorem names_rereadFields (fields : List (String × Value)) :
    (rereadFields fields).map (·.1) = fields.map (·.1) := by
  rw [rereadFields_eq_map, List.map_map]
  rfl

/-- Reading back keeps every field of a record and moves it at most. -/
theorem lookup_reread {fields : List (String × Value)} (h : (fields.map (·.1)).Nodup)
    (name : String) :
    (NameMap.ofList (rereadFields fields)).entries.lookup name =
      (fields.lookup name).map Value.reread := by
  rw [← names_rereadFields] at h
  rw [← lookup_rereadFields, ← NameMap.get?_ofList h]
  rfl

end ReleaseGate.Json
