import ReleaseGate.Proofs.NameMap
import ReleaseGate.Proofs.Toml.Written

/-!
# Tables from statements

No statement takes away what a table holds, and a statement that is accepted puts something where
it says. Headers with settings below them come to the tables that they are written as.
-/
namespace ReleaseGate.Toml

namespace Table

/-- Something stands at the end of the path, and every name before leads one table deeper. -/
inductive Holds : List String → Table → Prop
  | here {n : String} {t : Table} (h : (t.lookup n).isSome) : Holds [n] t
  | inside {n : String} {p : List String} {t inner : Table} {origin : Origin}
    (hn : t.lookup n = some (.table origin inner)) (h : Holds p inner) : Holds (n :: p) t

def Keeps (t t' : Table) : Prop :=
  ∀ p, Holds p t → Holds p t'

variable {t t' : Table} {n : String} {v : Value}

theorem Holds.isSome {p : List String} (h : Holds (n :: p) t) : (t.lookup n).isSome := by
  cases h with
  | here h => exact h
  | inside hn => rw [hn, Option.isSome_some]

theorem Holds.take {p : List String} (h : Holds p t) (k : ℕ) : Holds (p.take (k + 1)) t := by
  induction h generalizing k with
  | here h => rw [List.take_of_length_le (by simp)]; exact .here h
  | inside hn h ih =>
    cases k with
    | zero => exact .here (by rw [hn, Option.isSome_some])
    | succ k => exact .inside hn (ih k)

theorem lookup_set_self (n : String) (v : Value) (t : Table) :
    (Entries.set n v t).lookup n = some v := by
  rw [Entries.lookup_set, if_pos rfl]

theorem holds_set (n : String) (v : Value) (t : Table) : Holds [n] (Entries.set n v t) :=
  .here (by rw [lookup_set_self, Option.isSome_some])

/-- A change of one value keeps what the table holds, if a table is changed to one that keeps what
it held. -/
theorem keeps_set (h : ∀ origin inner, t.lookup n = some (.table origin inner) →
      ∃ origin' inner', v = .table origin' inner' ∧ Keeps inner inner') :
    Keeps t (Entries.set n v t) := by
  intro p hp
  cases hp with
  | @here m _ hm =>
    refine .here ?_
    rw [Entries.lookup_set]
    split
    case isTrue => rfl
    case isFalse => exact hm
  | @inside m _ _ inner _ hm hinner =>
    by_cases hmn : m = n
    · subst hmn
      obtain ⟨_, inner', rfl, hkeeps⟩ := h _ _ hm
      exact .inside (lookup_set_self m _ t) (hkeeps _ hinner)
    · exact .inside (by rw [Entries.lookup_set, if_neg hmn, hm]) hinner

theorem keeps_set_of_none (h : t.lookup n = none) : Keeps t (Entries.set n v t) :=
  keeps_set fun _ _ hn => by rw [h] at hn; cases hn

theorem keeps_set_list {growing : Bool} {items : List Value}
    (h : t.lookup n = some (.list growing items)) : Keeps t (Entries.set n v t) :=
  keeps_set fun _ _ hn => by rw [h] at hn; cases hn

/-- The table under a name, which is empty if there is none yet. -/
inductive Under (n : String) (t : Table) : Table → Prop
  | fresh (h : t.lookup n = none) : Under n t []
  | found {origin : Origin} {inner : Table} (h : t.lookup n = some (.table origin inner)) :
    Under n t inner

theorem Under.keeps_set {origin : Origin} {inner inner' : Table} (h : Under n t inner)
    (hkeeps : Keeps inner inner') : Keeps t (Entries.set n (.table origin inner') t) := by
  cases h with
  | fresh h => exact keeps_set_of_none h
  | found h =>
    refine Table.keeps_set fun _ _ hn => ?_
    rw [h] at hn
    cases hn
    exact ⟨_, _, rfl, hkeeps⟩

theorem assign_cons {m : String} {p : List String} (h : assign v (n :: m :: p) t = some t') :
    ∃ inner inner', Under n t inner ∧ assign v (m :: p) inner = some inner' ∧
      t' = Entries.set n (.table .dotted inner') t := by
  rw [assign] at h
  · split at h
    case h_1 hn =>
      obtain ⟨inner', hinner, hset⟩ := Option.bind_eq_some_iff.1 h
      cases hset
      exact ⟨[], inner', .fresh hn, hinner, rfl⟩
    case h_2 inner hn =>
      obtain ⟨inner', hinner, hset⟩ := Option.bind_eq_some_iff.1 h
      cases hset
      exact ⟨inner, inner', .found hn, hinner, rfl⟩
    case h_3 => cases h
  · simp

theorem assign_keeps_holds {p : List String} (h : assign v p t = some t') :
    Keeps t t' ∧ Holds p t' := by
  induction p generalizing t t' with
  | nil => cases h
  | cons n p ih =>
    cases p with
    | nil =>
      rw [assign, Option.ite_none_left_eq_some, Option.not_isSome_iff_eq_none] at h
      obtain ⟨hn, hset⟩ := h
      cases hset
      exact ⟨keeps_set_of_none hn, holds_set _ _ _⟩
    | cons m p =>
      obtain ⟨inner, inner', hunder, hinner, rfl⟩ := assign_cons h
      obtain ⟨hkeeps, hholds⟩ := ih hinner
      exact ⟨hunder.keeps_set hkeeps, .inside (lookup_set_self _ _ _) hholds⟩

theorem openTable_keeps_holds (h : openTable n t = some t') : Keeps t t' ∧ Holds [n] t' := by
  unfold openTable at h
  split at h
  case h_1 hn =>
    cases h
    exact ⟨keeps_set_of_none hn, holds_set _ _ _⟩
  case h_2 hn =>
    cases h
    exact ⟨(Under.found hn).keeps_set fun _ hp => hp, holds_set _ _ _⟩
  case h_3 => cases h

theorem openRow_keeps_holds (h : openRow n t = some t') : Keeps t t' ∧ Holds [n] t' := by
  unfold openRow at h
  split at h
  case h_1 hn =>
    cases h
    exact ⟨keeps_set_of_none hn, holds_set _ _ _⟩
  case h_2 hn =>
    cases h
    exact ⟨keeps_set_list hn, holds_set _ _ _⟩
  case h_3 => cases h

section Descend

variable {change : Table → Option Table} {path q : List String}

theorem descend_cons (h : descend change (n :: path) t = some t') :
    (∃ items v, t.lookup n = some (.list true items) ∧ t' = Entries.set n v t) ∨
      ∃ origin inner inner', Under n t inner ∧ descend change path inner = some inner' ∧
        t' = Entries.set n (.table origin inner') t := by
  rw [descend] at h
  split at h
  case h_1 hn =>
    obtain ⟨inner', hinner, hset⟩ := Option.bind_eq_some_iff.1 h
    cases hset
    exact .inr ⟨_, [], inner', .fresh hn, hinner, rfl⟩
  case h_2 => cases h
  case h_3 origin inner _ hn =>
    obtain ⟨inner', hinner, hset⟩ := Option.bind_eq_some_iff.1 h
    cases hset
    exact .inr ⟨origin, inner, inner', .found hn, hinner, rfl⟩
  case h_4 items hn =>
    split at h
    case h_1 =>
      obtain ⟨inner', -, hset⟩ := Option.bind_eq_some_iff.1 h
      cases hset
      exact .inl ⟨items, _, hn, rfl⟩
    case h_2 => cases h
  case h_5 => cases h

theorem descend_keeps (hchange : ∀ t t', change t = some t' → Keeps t t')
    (h : descend change path t = some t') : Keeps t t' := by
  induction path generalizing t t' with
  | nil => exact hchange t t' h
  | cons n path ih =>
    rcases descend_cons h with ⟨items, v, hn, rfl⟩ | ⟨origin, inner, inner', hunder, hinner, rfl⟩
    · exact keeps_set_list hn
    · exact hunder.keeps_set (ih hinner)

theorem descend_holds_head (h : descend change (n :: path) t = some t') : Holds [n] t' := by
  rcases descend_cons h with ⟨_, v, -, rfl⟩ | ⟨_, _, _, -, -, rfl⟩
  · exact holds_set _ _ _
  · exact holds_set _ _ _

/-- Where no list grows, what is put under a path stands there, as far as the second name. -/
theorem descend_holds_take (hchange : ∀ t t', change t = some t' → Holds q t')
    (hlist : ∀ n items, t.lookup n ≠ some (.list true items))
    (h : descend change path t = some t') : Holds ((path ++ q).take 2) t' := by
  cases path with
  | nil => exact (hchange t t' h).take 1
  | cons n path =>
    rcases descend_cons h with ⟨items, v, hn, -⟩ | ⟨origin, inner, inner', -, hinner, rfl⟩
    · exact absurd hn (hlist n items)
    · refine .inside (lookup_set_self n _ t) ?_
      cases path with
      | nil => exact (hchange inner inner' hinner).take 0
      | cons m path => exact descend_holds_head hinner

end Descend

end Table

namespace Progress

variable {p p' : Progress} {st : Statement}

theorem step_eq_some (h : p.step st = some p') :
    ∃ change path q, path ++ q = st.place p.current ∧
      p.root.descend change path = some p'.root ∧
      ∀ t t', change t = some t' → Table.Keeps t t' ∧ Table.Holds q t' := by
  cases st with
  | openTable path n =>
    obtain ⟨t, ht, hset⟩ := Option.bind_eq_some_iff.1 h
    cases hset
    exact ⟨_, path, [n], rfl, ht, fun _ _ => Table.openTable_keeps_holds⟩
  | openRow path n =>
    obtain ⟨t, ht, hset⟩ := Option.bind_eq_some_iff.1 h
    cases hset
    exact ⟨_, path, [n], rfl, ht, fun _ _ => Table.openRow_keeps_holds⟩
  | assign path v =>
    obtain ⟨t, ht, hset⟩ := Option.bind_eq_some_iff.1 h
    cases hset
    exact ⟨_, p.current, path, rfl, ht, fun _ _ => Table.assign_keeps_holds⟩

theorem step_keeps (h : p.step st = some p') : Table.Keeps p.root p'.root := by
  obtain ⟨change, path, q, -, hroot, hchange⟩ := step_eq_some h
  exact Table.descend_keeps (fun t t' ht => (hchange t t' ht).1) hroot

theorem step_holds_take (h : p.step st = some p')
    (hlist : ∀ n items, p.root.lookup n ≠ some (.list true items)) :
    Table.Holds ((st.place p.current).take 2) p'.root := by
  obtain ⟨change, path, q, hplace, hroot, hchange⟩ := step_eq_some h
  rw [← hplace]
  exact Table.descend_holds_take (fun t t' ht => (hchange t t' ht).2) hlist hroot

theorem foldlM_step_keeps {said : List Statement} (h : said.foldlM step p = some p') :
    Table.Keeps p.root p'.root := by
  induction said generalizing p with
  | nil =>
    cases h
    exact fun _ hp => hp
  | cons st said ih =>
    obtain ⟨q, hq, hrest⟩ := Option.bind_eq_some_iff.1 h
    exact fun path hp => ih hrest path (step_keeps hq path hp)

end Progress

/-- Tables by their names, one after the other, each with its settings below its header. -/
def tableStatements (tables : List (String × Table)) : List Statement :=
  tables.flatMap fun e => .openTable [] e.1 :: e.2.map fun s => .assign [s.1] s.2

def headerTables (tables : List (String × Table)) : Table :=
  tables.map fun e => (e.1, .table .header e.2)

theorem map_fst_headerTables (tables : List (String × Table)) :
    (headerTables tables).map (·.1) = tables.map (·.1) := by
  simp [headerTables]

/-- The path of the last table. -/
def lastTable (tables : List (String × Table)) : List String :=
  (tables.getLast?.map fun e => [e.1]).getD []

section Tables

variable {n : String} {v : Value} {t t' : Table}

theorem set_of_lookup_eq_none (h : t.lookup n = none) : Entries.set n v t = t ++ [(n, v)] := by
  induction t with
  | nil => rfl
  | cons e t ih =>
    rw [Entries.lookup_cons] at h
    split at h
    case isTrue => cases h
    case isFalse hne => rw [Entries.set, if_neg (Ne.symm hne), ih h, List.cons_append]

theorem set_append_singleton {w : Value} (h : t.lookup n = none) :
    Entries.set n v (t ++ [(n, w)]) = t ++ [(n, v)] := by
  induction t with
  | nil => simp [Entries.set]
  | cons e t ih =>
    rw [Entries.lookup_cons] at h
    split at h
    case isTrue => cases h
    case isFalse hne =>
      rw [List.cons_append, Entries.set, if_neg (Ne.symm hne), ih h, List.cons_append]

theorem lookup_append_singleton {w : Value} (h : t.lookup n = none) :
    (t ++ [(n, w)]).lookup n = some w := by
  rw [← set_of_lookup_eq_none h, Table.lookup_set_self]

theorem lookup_eq_none_of_nodup {e : String × Value} {after : Table}
    (h : ((t ++ e :: after).map (·.1)).Nodup) : t.lookup e.1 = none := by
  rw [NameMap.lookup_eq_none_iff]
  intro hmem
  rw [List.map_append, List.map_cons] at h
  exact (List.nodup_append.1 h).2.2 _ hmem _ List.mem_cons_self rfl

theorem step_openTable (current : List String) (h : t.lookup n = none) :
    Progress.step ⟨current, t⟩ (.openTable [] n) =
      some ⟨[n], t ++ [(n, .table .header [])]⟩ := by
  simp [Progress.step, Table.descend, Table.openTable, h, set_of_lookup_eq_none h]

theorem step_assign {inner : Table} {key : String} (h : t.lookup n = none)
    (hkey : inner.lookup key = none) :
    Progress.step ⟨[n], t ++ [(n, .table .header inner)]⟩ (.assign [key] v) =
      some ⟨[n], t ++ [(n, .table .header (inner ++ [(key, v)]))]⟩ := by
  simp [Progress.step, Table.descend, Table.assign, lookup_append_singleton h, hkey,
    set_of_lookup_eq_none hkey, set_append_singleton h]

theorem foldlM_step_assign {inner settings : Table} (h : t.lookup n = none)
    (hkeys : ((inner ++ settings).map (·.1)).Nodup) :
    (settings.map fun s => Statement.assign [s.1] s.2).foldlM Progress.step
        ⟨[n], t ++ [(n, .table .header inner)]⟩ =
      some ⟨[n], t ++ [(n, .table .header (inner ++ settings))]⟩ := by
  induction settings generalizing inner with
  | nil => simp
  | cons s settings ih =>
    rw [List.map_cons, List.foldlM_cons, step_assign h (lookup_eq_none_of_nodup hkeys),
      Option.bind_eq_bind, Option.bind_some, ih (by simpa using hkeys), List.append_assoc,
      List.singleton_append]

theorem foldlM_step_tableStatements {tables : List (String × Table)} {current : List String}
    (hnames : ((t ++ headerTables tables).map (·.1)).Nodup)
    (hkeys : ∀ e ∈ tables, (e.2.map (·.1)).Nodup) :
    (tableStatements tables).foldlM Progress.step ⟨current, t⟩ =
      some ⟨(tables.getLast?.map fun e => [e.1]).getD current, t ++ headerTables tables⟩ := by
  induction tables generalizing t current with
  | nil => simp [tableStatements, headerTables]
  | cons e tables ih =>
    rw [List.forall_mem_cons] at hkeys
    have hname : t.lookup e.1 = none := lookup_eq_none_of_nodup (e := (e.1, _)) hnames
    have hsettings : (([] ++ e.2 : Table).map (·.1)).Nodup := hkeys.1
    have hrest := @ih (t ++ [(e.1, .table .header e.2)]) [e.1]
      (by simpa [headerTables] using hnames) hkeys.2
    rw [tableStatements, List.flatMap_cons, List.cons_append, List.foldlM_cons,
      step_openTable current hname, Option.bind_eq_bind, Option.bind_some, List.foldlM_append,
      foldlM_step_assign hname hsettings, Option.bind_eq_bind, Option.bind_some]
    refine hrest.trans ?_
    rw [List.getLast?_cons, List.append_assoc]
    cases tables.getLast? <;> rfl

/-- Tables that are written one after the other are there, and the last one is open. -/
theorem foldlM_step_eq {tables : List (String × Table)} (hnames : (tables.map (·.1)).Nodup)
    (hkeys : ∀ e ∈ tables, (e.2.map (·.1)).Nodup) :
    (tableStatements tables).foldlM Progress.step {} =
      some ⟨lastTable tables, headerTables tables⟩ :=
  foldlM_step_tableStatements (t := []) (by rwa [List.nil_append, map_fst_headerTables]) hkeys

theorem lookup_headerTables_ne (tables : List (String × Table)) (n : String)
    (items : List Value) : (headerTables tables).lookup n ≠ some (.list true items) := by
  intro hn
  obtain ⟨e, -, he⟩ := List.mem_map.1 (NameMap.mem_of_lookup hn)
  cases he

/-- After some of the lines of tables, a line that names a path leaves something there, as far as
the second name, whatever follows. -/
theorem read_of_tables_of_adds {tables : List (String × Table)} {path : List String}
    {s rest : List Char} (hnames : (tables.map (·.1)).Nodup)
    (hkeys : ∀ e ∈ tables, (e.2.map (·.1)).Nodup)
    (h : SpellsLines (tableStatements tables) s rest) (hadds : Adds (lastTable tables) path rest)
    (hread : read s = some t) : Table.Holds (path.take 2) t := by
  rcases read_of_adds h hadds with hnone | ⟨st, more, rfl, hsaid⟩
  · rw [hnone] at hread
    cases hread
  · rw [hsaid] at hread
    obtain ⟨q, hq, rfl⟩ := Option.map_eq_some_iff.1 hread
    rw [List.foldlM_append, foldlM_step_eq hnames hkeys, Option.bind_eq_bind,
      Option.bind_some] at hq
    obtain ⟨p, hstep, hafter⟩ := Option.bind_eq_some_iff.1 hq
    have hholds := Progress.step_holds_take hstep (lookup_headerTables_ne tables)
    exact Progress.foldlM_step_keeps hafter _ hholds

end Tables

end ReleaseGate.Toml
