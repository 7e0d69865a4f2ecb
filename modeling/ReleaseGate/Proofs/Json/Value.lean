import ReleaseGate.Json.Value

/-!
# Views of document values

Each view of a value succeeds on one shape alone.
-/
namespace ReleaseGate.Json.Value

theorem asText?_eq_some_iff {v : Value} {s : String} : v.asText? = some s ↔ v = .text s := by
  cases v <;> simp [asText?]

theorem asList?_eq_some_iff {v : Value} {items : List Value} :
    v.asList? = some items ↔ v = .list items := by
  cases v <;> simp [asList?]

theorem asRecord?_eq_some_iff {v : Value} {fields : List (String × Value)} :
    v.asRecord? = some fields ↔ v = .record fields := by
  cases v <;> simp [asRecord?]

theorem isNumber_iff {v : Value} : v.isNumber ↔ ∃ n, v = .number n := by
  cases v <;> simp [isNumber]

theorem isRecord_iff {v : Value} : v.isRecord ↔ ∃ fields, v = .record fields := by
  simp only [isRecord, Option.isSome_iff_exists, asRecord?_eq_some_iff]

theorem isRecord_of_field? {v found : Value} {key : String} (h : v.field? key = some found) :
    v.isRecord = true := by
  cases v with
  | record fields => rfl
  | _ => cases h

end ReleaseGate.Json.Value
