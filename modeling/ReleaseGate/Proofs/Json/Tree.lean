import ReleaseGate.Json.Tree
import ReleaseGate.Proofs.Json.Scan

/-!
# Trees of written documents

The tokens of a value make a tree that is complete. A step for each token is enough to find it.
-/
namespace ReleaseGate.Json

open Text.Utf8

mutual

def Value.tree : Value → Tree
  | .null => .null
  | .bool b => .bool b
  | .number n => .number n.literal
  | .text s => .text (textOf s)
  | .list items => .list (itemTrees items) none
  | .record fields => .record (memberTrees fields) none

def itemTrees : List Value → List Tree
  | [] => []
  | v :: items => v.tree :: itemTrees items

def memberTrees : List (String × Value) → List (Text × Tree)
  | [] => []
  | (name, v) :: fields => (textOf name, v.tree) :: memberTrees fields

end

theorem tokens_eq_cons (v : Value) : ∃ t ts, v.tokens = t :: ts ∧ t ≠ .closeList := by
  cases v <;> exact ⟨_, _, by rw [Value.tokens], by simp⟩

theorem Tree.value_list (k : ℕ) {t : Token} (ht : t ≠ .closeList) (ts : List Token) :
    Tree.value (k + 1) (.openList :: t :: ts) =
      (.list (Tree.itemsFrom k (t :: ts)).1 (Tree.itemsFrom k (t :: ts)).2.1,
        (Tree.itemsFrom k (t :: ts)).2.2) := by
  rw [Tree.value]
  exact fun rest he => ht (List.cons.inj he).1

theorem Tree.value_record (k : ℕ) {t : Token} (ht : t ≠ .closeRecord) (ts : List Token) :
    Tree.value (k + 1) (.openRecord :: t :: ts) =
      (.record (Tree.membersFrom k (t :: ts)).1 (Tree.membersFrom k (t :: ts)).2.1,
        (Tree.membersFrom k (t :: ts)).2.2) := by
  rw [Tree.value]
  exact fun rest he => ht (List.cons.inj he).1

/-- An item behind which the list goes on. -/
theorem Tree.itemsFrom_comma {k : ℕ} {tokens rest : List Token} {item : Tree} {t : Token}
    (hne : tokens ≠ []) (h : Tree.value k tokens = (item, .comma :: t :: rest)) :
    Tree.itemsFrom (k + 1) tokens =
      (item :: (Tree.itemsFrom k (t :: rest)).1, (Tree.itemsFrom k (t :: rest)).2) := by
  obtain ⟨first, more, rfl⟩ := List.exists_cons_of_ne_nil hne
  rw [Tree.itemsFrom]
  · simp only [h]
  · simp

theorem Tree.itemsFrom_close {k : ℕ} {tokens rest : List Token} {item : Tree}
    (hne : tokens ≠ []) (h : Tree.value k tokens = (item, .closeList :: rest)) :
    Tree.itemsFrom (k + 1) tokens = ([item], none, rest) := by
  obtain ⟨first, more, rfl⟩ := List.exists_cons_of_ne_nil hne
  rw [Tree.itemsFrom]
  · simp only [h]
  · simp

theorem Tree.membersFrom_comma {k : ℕ} {name : Text} {tokens rest : List Token} {v : Tree}
    (h : Tree.value k tokens = (v, .comma :: rest)) :
    Tree.membersFrom (k + 1) (.text name :: .colon :: tokens) =
      ((name, v) :: (Tree.membersFrom k rest).1, (Tree.membersFrom k rest).2) := by
  rw [Tree.membersFrom]
  simp only [h]

theorem Tree.membersFrom_close {k : ℕ} {name : Text} {tokens rest : List Token} {v : Tree}
    (h : Tree.value k tokens = (v, .closeRecord :: rest)) :
    Tree.membersFrom (k + 1) (.text name :: .colon :: tokens) = ([(name, v)], none, rest) := by
  rw [Tree.membersFrom]
  simp only [h]

theorem exists_step {v : Value} {k : ℕ} (h : v.tokens.length ≤ k) : ∃ j, k = j + 1 := by
  obtain ⟨t, ts, hv, -⟩ := tokens_eq_cons v
  rw [hv, List.length_cons] at h
  exact ⟨k - 1, by omega⟩

theorem commaJoined_items (v w : Value) (items : List Value) :
    commaJoined (itemTokens (v :: w :: items)) =
      v.tokens ++ .comma :: commaJoined (itemTokens (w :: items)) := by
  rw [itemTokens, itemTokens, commaJoined]
  simp

theorem commaJoined_item (v : Value) : commaJoined (itemTokens [v]) = v.tokens := by
  rw [itemTokens, itemTokens, commaJoined]

theorem commaJoined_fields (name : String) (v : Value) (e : String × Value)
    (fields : List (String × Value)) :
    commaJoined (fieldTokens ((name, v) :: e :: fields)) = .text (textOf name) :: .colon ::
      (v.tokens ++ .comma :: commaJoined (fieldTokens (e :: fields))) := by
  rw [fieldTokens, fieldTokens, commaJoined]
  · rfl
  · simp

theorem commaJoined_field (name : String) (v : Value) :
    commaJoined (fieldTokens [(name, v)]) = .text (textOf name) :: .colon :: v.tokens := by
  rw [fieldTokens, fieldTokens, commaJoined]

theorem commaJoined_items_eq_cons (v : Value) (items : List Value) :
    ∃ t ts, commaJoined (itemTokens (v :: items)) = t :: ts ∧ t ≠ .closeList := by
  obtain ⟨t, ts, hv, ht⟩ := tokens_eq_cons v
  cases items with
  | nil => exact ⟨t, ts, by rw [commaJoined_item, hv], ht⟩
  | cons w items => exact ⟨t, _, by rw [commaJoined_items, hv, List.cons_append], ht⟩

theorem commaJoined_fields_eq_cons (e : String × Value) (fields : List (String × Value)) :
    ∃ ts, commaJoined (fieldTokens (e :: fields)) = .text (textOf e.1) :: ts := by
  obtain ⟨name, v⟩ := e
  cases fields with
  | nil => exact ⟨_, commaJoined_field name v⟩
  | cons next fields => exact ⟨_, commaJoined_fields name v next fields⟩

mutual

/-- As many steps as a value has tokens lead through all of them. -/
theorem value_tokens : (v : Value) → (k : ℕ) → v.tokens.length ≤ k → (rest : List Token) →
    Tree.value k (v.tokens ++ rest) = (v.tree, rest)
  | .null, k, h, rest => by
    obtain ⟨k, rfl⟩ := exists_step h
    simp [Value.tokens, Value.tree, Tree.value]
  | .bool b, k, h, rest => by
    obtain ⟨k, rfl⟩ := exists_step h
    simp [Value.tokens, Value.tree, Tree.value]
  | .number n, k, h, rest => by
    obtain ⟨k, rfl⟩ := exists_step h
    simp [Value.tokens, Value.tree, Tree.value]
  | .text s, k, h, rest => by
    obtain ⟨k, rfl⟩ := exists_step h
    simp [Value.tokens, Value.tree, Tree.value]
  | .list [], k, h, rest => by
    obtain ⟨k, rfl⟩ := exists_step h
    simp [Value.tokens, Value.tree, itemTokens, itemTrees, commaJoined, Tree.value]
  | .record [], k, h, rest => by
    obtain ⟨k, rfl⟩ := exists_step h
    simp [Value.tokens, Value.tree, fieldTokens, memberTrees, commaJoined, Tree.value]
  | .list (v :: items), k, h, rest => by
    obtain ⟨k, rfl⟩ := exists_step h
    rw [Value.tokens, List.length_cons, List.length_append, List.length_singleton] at h
    have hitems := itemsFrom_tokens v items k (by omega) rest
    obtain ⟨t, ts, hts, ht⟩ := commaJoined_items_eq_cons v items
    rw [hts, List.cons_append] at hitems
    simp only [Value.tokens, Value.tree, hts, List.cons_append, List.append_assoc, List.nil_append]
    rw [Tree.value_list k ht, hitems]
  | .record (e :: fields), k, h, rest => by
    obtain ⟨k, rfl⟩ := exists_step h
    rw [Value.tokens, List.length_cons, List.length_append, List.length_singleton] at h
    have hfields := membersFrom_tokens e fields k (by omega) rest
    obtain ⟨ts, hts⟩ := commaJoined_fields_eq_cons e fields
    rw [hts, List.cons_append] at hfields
    simp only [Value.tokens, Value.tree, hts, List.cons_append, List.append_assoc, List.nil_append]
    rw [Tree.value_record k (by simp), hfields]

theorem itemsFrom_tokens : (v : Value) → (items : List Value) → (k : ℕ) →
    (commaJoined (itemTokens (v :: items))).length + 1 ≤ k → (rest : List Token) →
    Tree.itemsFrom k (commaJoined (itemTokens (v :: items)) ++ .closeList :: rest) =
      (itemTrees (v :: items), none, rest)
  | v, [], k, h, rest => by
    obtain ⟨t, ts, hv, -⟩ := tokens_eq_cons v
    rw [commaJoined_item] at h ⊢
    obtain ⟨k, rfl⟩ : ∃ j, k = j + 1 := ⟨k - 1, by omega⟩
    have hvalue := value_tokens v k (by omega) (.closeList :: rest)
    rw [Tree.itemsFrom_close (by simp [hv]) hvalue, itemTrees, itemTrees]
  | v, w :: items, k, h, rest => by
    obtain ⟨t, ts, hv, -⟩ := tokens_eq_cons v
    obtain ⟨first, more, hitems, -⟩ := commaJoined_items_eq_cons w items
    rw [commaJoined_items, List.length_append, List.length_cons] at h
    obtain ⟨k, rfl⟩ : ∃ j, k = j + 1 := ⟨k - 1, by omega⟩
    have hvalue := value_tokens v k (by omega)
      (.comma :: (commaJoined (itemTokens (w :: items)) ++ .closeList :: rest))
    have htail := itemsFrom_tokens w items k (by omega) rest
    rw [hitems, List.cons_append] at hvalue htail
    rw [commaJoined_items, List.append_assoc, List.cons_append, hitems, List.cons_append,
      Tree.itemsFrom_comma (by simp [hv]) hvalue, htail]
    rfl

theorem membersFrom_tokens : (e : String × Value) → (fields : List (String × Value)) → (k : ℕ) →
    (commaJoined (fieldTokens (e :: fields))).length + 1 ≤ k → (rest : List Token) →
    Tree.membersFrom k (commaJoined (fieldTokens (e :: fields)) ++ .closeRecord :: rest) =
      (memberTrees (e :: fields), none, rest)
  | (name, v), [], k, h, rest => by
    rw [commaJoined_field] at h ⊢
    simp only [List.length_cons] at h
    obtain ⟨k, rfl⟩ : ∃ j, k = j + 1 := ⟨k - 1, by omega⟩
    have hvalue := value_tokens v k (by omega) (.closeRecord :: rest)
    rw [List.cons_append, List.cons_append, Tree.membersFrom_close hvalue, memberTrees, memberTrees]
  | (name, v), e :: fields, k, h, rest => by
    rw [commaJoined_fields] at h ⊢
    simp only [List.length_cons, List.length_append] at h
    obtain ⟨k, rfl⟩ : ∃ j, k = j + 1 := ⟨k - 1, by omega⟩
    have hvalue := value_tokens v k (by omega)
      (.comma :: (commaJoined (fieldTokens (e :: fields)) ++ .closeRecord :: rest))
    have htail := membersFrom_tokens e fields k (by omega) rest
    rw [List.cons_append, List.cons_append, List.append_assoc, List.cons_append,
      Tree.membersFrom_comma hvalue, htail]
    rfl

end

/-- A stored document is read as the tree of its value, with nothing behind it. -/
theorem ofBytes_pretty (v : Value) :
    Document.ofBytes (encode (pretty 0 v ++ ['\n'])) = ⟨v.tree, false⟩ := by
  have hvalue := value_tokens v (2 * v.tokens.length + 1) (by omega) []
  rw [List.append_nil] at hvalue
  simp only [Document.ofBytes, tokens_pretty, hvalue]
  rfl

end ReleaseGate.Json
