import ReleaseGate.Proofs.Json.InRange
import ReleaseGate.Proofs.Json.Tree
import ReleaseGate.Proofs.NameMap

/-!
# Values that are decoded from their own trees

One law for each way of writing a value: if its parts are decoded from their trees, so is the whole.
A record type has its law from the list of its fields.
-/
namespace ReleaseGate

theorem NameMap.insertEntry_of_lt {name : String} (a : α) {entries : List (String × α)}
    (h : ∀ e ∈ entries, e.1 < name) :
    insertEntry name a entries = entries ++ [(name, a)] := by
  induction entries with
  | nil => rfl
  | cons e entries ih =>
    have hlt : e.1 < name := h e List.mem_cons_self
    rw [insertEntry, if_neg (String.lt_asymm hlt),
      if_neg (fun heq => String.lt_irrefl _ (heq ▸ hlt)),
      ih fun x hx => h x (List.mem_cons_of_mem e hx), List.cons_append]

theorem NameMap.entries_foldl_insert (m : NameMap α) (rest : List (String × α))
    (h : (m.entries ++ rest).Pairwise fun a b => a.1 < b.1) :
    (rest.foldl (fun m e => m.insert e.1 e.2) m).entries = m.entries ++ rest := by
  induction rest generalizing m with
  | nil => rw [List.foldl_nil, List.append_nil]
  | cons e rest ih =>
    have hlast : (m.insert e.1 e.2).entries = m.entries ++ [e] :=
      insertEntry_of_lt e.2 fun x hx => (List.pairwise_append.1 h).2.2 x hx e List.mem_cons_self
    have hsplit : m.entries ++ e :: rest = (m.insert e.1 e.2).entries ++ rest := by
      rw [hlast, List.append_assoc, List.singleton_append]
    rw [List.foldl_cons, ih _ (hsplit ▸ h), hsplit]

/-- Entries that come in the order of their names are kept as they are. -/
theorem NameMap.ofList_entries (m : NameMap α) : ofList m.entries = m := by
  have hentries : (ofList m.entries).entries = m.entries :=
    entries_foldl_insert empty m.entries m.ascending
  generalize ofList m.entries = found at hentries
  cases found
  cases m
  simpa using hentries

namespace Json

/-- The law of a decoder and a value: from the tree of the value it makes `a`. -/
def Decodes (decode : Decoder α) (v : Value) (a : α) : Prop :=
  decode v.tree = .ok a

theorem decodes_text (s : String) : Decodes Tree.toText (.text s) s := by
  rw [Decodes, Value.tree, Tree.toText, decode_textOf]

theorem decodes_word (n : UInt64) : Decodes Tree.toWord (.word n) n := by
  have hle : n.toNat ≤ maxWord := Nat.le_of_lt_succ n.toNat_lt
  rw [Decodes, Value.word, Value.nat, Value.tree, Tree.toWord]
  simp only [toNumber?_nat hle]
  simp

theorem decodes_real {x : Decimal.Binary64}
    (h : (Number.real x).literal.toNumber? = some (.real x)) :
    Decodes Tree.toReal (.number (.real x)) x := by
  rw [Decodes, Value.tree, Tree.toReal, h]

theorem decodes_choice {choices : List (String × α)} {name : String} {a : α}
    (h : choices.lookup name = some a) : Decodes (Tree.toChoice choices) (.text name) a := by
  rw [Decodes, Value.tree, Tree.toChoice, decode_textOf]
  change Tree.toChoice.choose choices name = .ok a
  rw [Tree.toChoice.choose, h]

theorem eachItem_itemTrees {decode : Decoder α} {toValue : α → Value}
    (h : ∀ a, Decodes decode (toValue a) a) (items : List α) :
    Tree.eachItem decode (itemTrees (items.map toValue)) = .ok items := by
  induction items with
  | nil => rfl
  | cons a items ih =>
    rw [List.map_cons, itemTrees, Tree.eachItem, h a, ih]
    rfl

theorem decodes_list {decode : Decoder α} {toValue : α → Value}
    (h : ∀ a, Decodes decode (toValue a) a) (items : List α) :
    Decodes (Tree.toList decode) (.list (items.map toValue)) items := by
  rw [Decodes, Value.tree, Tree.toList, eachItem_itemTrees h]
  rfl

theorem eachMember_memberTrees {decode : Decoder α} {toValue : α → Value}
    (h : ∀ a, Decodes decode (toValue a) a) (entries : List (String × α)) (m : NameMap α) :
    Tree.eachMember decode m (memberTrees (entries.map fun e => (e.1, toValue e.2))) =
      .ok (entries.foldl (fun m e => m.insert e.1 e.2) m) := by
  induction entries generalizing m with
  | nil => rfl
  | cons e entries ih =>
    rw [List.map_cons, memberTrees, Tree.eachMember, decode_textOf, h e.2]
    exact ih (m.insert e.1 e.2)

theorem decodes_nameMap {decode : Decoder α} {toValue : α → Value}
    (h : ∀ a, Decodes decode (toValue a) a) (m : NameMap α) :
    Decodes (Tree.toNameMap decode) (.record (m.entries.map fun e => (e.1, toValue e.2))) m := by
  rw [Decodes, Value.tree, Tree.toNameMap, eachMember_memberTrees h]
  exact congrArg Except.ok m.ofList_entries

/-- What the fields of a record type make of members that come in their order, from `a` on. -/
inductive Builds : List (RecordField α) → List (String × Value) → α → α → Prop
  | nil (a : α) : Builds [] [] a a
  | cons {field : RecordField α} {fields : List (RecordField α)} {v : Value}
      {members : List (String × Value)} {a b c : α} (h : field.set v.tree a = .ok b)
      (hrest : Builds fields members b c) :
      Builds (field :: fields) ((field.name, v) :: members) a c

theorem Builds.needed {name : String} {decode : Decoder β} {set : β → α → α}
    {fields : List (RecordField α)} {v : Value} {members : List (String × Value)} {a c : α} {b : β}
    (h : Decodes decode v b) (hrest : Builds fields members (set b a) c) :
    Builds (.needed name decode set :: fields) ((name, v) :: members) a c := by
  have hset : (RecordField.needed name decode set).set v.tree a = .ok (set b a) := by
    rw [Decodes] at h
    simp only [RecordField.needed, h]
    rfl
  exact .cons hset hrest

theorem find?_name {done fields : List (RecordField α)} {field : RecordField α}
    (h : ((done ++ field :: fields).map (·.name)).Nodup) :
    (done ++ field :: fields).find? (·.name == field.name) = some field := by
  have hdone : done.find? (·.name == field.name) = none := by
    rw [List.find?_eq_none]
    intro other hother
    rw [List.map_append, List.nodup_append] at h
    have hne := h.2.2 other.name (List.mem_map_of_mem hother) field.name (by simp)
    simpa using hne
  rw [List.find?_append, hdone, Option.none_or, List.find?_cons_of_pos (by simp)]

/-- Each member finds its field, which is not set yet. The fields before it are all set. -/
theorem setMembers_of_builds {done fields : List (RecordField α)}
    {members : List (String × Value)} {a b : α} (h : Builds fields members a b)
    (hnames : ((done ++ fields).map (·.name)).Nodup) {set : List String}
    (hset : ∀ name, name ∈ set ↔ name ∈ done.map (·.name)) :
    ∃ set', Tree.setMembers (done ++ fields) set a (memberTrees members) = .ok (set', b) ∧
      ∀ name, name ∈ set' ↔ name ∈ (done ++ fields).map (·.name) := by
  induction h generalizing done set with
  | nil a => exact ⟨set, rfl, by simpa using hset⟩
  | @cons field fields v members a b c hfield hrest ih =>
    have hnot : set.contains field.name = false := by
      rw [List.contains_eq_mem, decide_eq_false_iff_not, hset]
      intro hmem
      rw [List.map_append, List.nodup_append] at hnames
      exact hnames.2.2 _ hmem field.name (by simp) rfl
    have hsplit : done ++ field :: fields = (done ++ [field]) ++ fields := by simp
    have hnames' : (((done ++ [field]) ++ fields).map (·.name)).Nodup := hsplit ▸ hnames
    have hdone : ∀ name, name ∈ field.name :: set ↔ name ∈ (done ++ [field]).map (·.name) := by
      simp [hset, or_comm]
    obtain ⟨set', hmembers, hset'⟩ := ih hnames' hdone
    refine ⟨set', ?_, hsplit ▸ hset'⟩
    rw [memberTrees, Tree.setMembers, decode_textOf]
    simp only [bind, Except.bind, find?_name hnames, hnot, Bool.false_eq_true, if_false, hfield]
    rw [hsplit]
    exact hmembers

theorem decodes_record {fields : List (RecordField α)} {members : List (String × Value)}
    {blank a : α} (hnames : (fields.map (·.name)).Nodup) (h : Builds fields members blank a) :
    Decodes (Tree.toRecord fields blank) (.record members) a := by
  have hnames' : ((([] : List (RecordField α)) ++ fields).map (·.name)).Nodup := hnames
  have hnone : ∀ name, name ∈ ([] : List String) ↔
      name ∈ ([] : List (RecordField α)).map (·.name) := by simp
  obtain ⟨set, hmembers, hset⟩ := setMembers_of_builds h hnames' hnone
  rw [List.nil_append] at hmembers hset
  have hall : (fields.all fun field => !field.required || set.contains field.name) = true := by
    rw [List.all_eq_true]
    intro field hfield
    have hmem : field.name ∈ set := (hset field.name).2 (List.mem_map_of_mem hfield)
    simp [hmem]
  rw [Decodes, Value.tree, Tree.toRecord, hmembers]
  change (if _ then _ else _) = _
  rw [hall]
  rfl

end Json

end ReleaseGate
