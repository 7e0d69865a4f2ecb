import Mathlib.Data.List.Count
import ReleaseGate.Proofs.Json.Part
import ReleaseGate.Taxonomy.Build

/-!
# Counting the records of a catalog

Each record of a catalog is in one tier at most, and the counts depend on nothing but the tiers that
the records tell.
-/
namespace ReleaseGate.Catalog

open Files Json

def tierName : String := "source_tier"

/-- The records of a catalog text, in their order; none if it lists no extensions. -/
def records (content : List UInt8) : List Tree :=
  match (Document.ofBytes content).root.part? "extensions" with
  | some (.list items _) => items
  | _ => []

/-- The tier that a record tells; none if it tells none or anything but a text. -/
def tier? (record : Tree) : Option String :=
  (record.part? tierName).bind Tree.asText?

theorem records_written {fields : List (String × Value)} {items : List Value}
    (h : fields.lookup "extensions" = some (.list items)) :
    records (Text.Utf8.encode (pretty 0 (.record fields) ++ ['\n'])) = itemTrees items := by
  simp only [records, ofBytes_pretty, Tree.part?_tree, h, Option.map_some]
  rw [Value.tree]

theorem isOf_eq {record : Tree} {e : Entry} (h : Tree.toRecord Entry.fields {} record = .ok e)
    (tier : String) : e.isOf tier = (tier? record == some tier) := by
  have hreads := Tree.toRecord_one h
  rw [Entry.isOf, tier?, tierName]
  cases hpart : record.part? "source_tier" with
  | none =>
    rw [hpart] at hreads
    obtain rfl : e = {} := hreads
    rfl
  | some t =>
    rw [hpart] at hreads
    obtain ⟨found, hfound, rfl⟩ := hreads
    have htext : found.bind Value.asText? = t.asText? := by
      cases t with
      | null =>
        obtain rfl := Except.ok.inj hfound
        rfl
      | _ =>
        rw [Tree.toOption, bind_eq_ok_iff] at hfound
        · obtain ⟨v, hv, hfound⟩ := hfound
          obtain rfl := Except.ok.inj hfound
          exact Tree.asText?_of_toValue hv
        · simp
    simp only [htext, Option.bind_some]

/-- The entries of a catalog stand for the records of its text, one by one. -/
theorem entries_of_read {content : List UInt8} {c : Catalog} (h : read content = .ok c) :
    List.Forall₂ (fun record e => Tree.toRecord Entry.fields {} record = .ok e)
      (records content) c.entries := by
  rw [read, decodeDocument, bind_eq_ok_iff] at h
  obtain ⟨found, hfound, h⟩ := h
  split at h
  · cases h
  obtain rfl := Except.ok.inj h
  have hreads := Tree.toRecord_one hfound
  rw [records]
  cases hpart : (Document.ofBytes content).root.part? "extensions" with
  | none =>
    rw [hpart] at hreads
    obtain rfl : found = {} := hreads
    exact .nil
  | some t =>
    rw [hpart] at hreads
    obtain ⟨entries, hentries, rfl⟩ := hreads
    obtain ⟨items, cut, rfl, hitems⟩ := Tree.toList_eq_ok hentries
    exact hitems

/-- Which of the two tiers a record tells. -/
def standing (official community : String) (record : Tree) : Bool × Bool :=
  (tier? record == some official, tier? record == some community)

/-- The counts by what the records tell, official records first. -/
def countStandings (standings : List (Bool × Bool)) : Counts where
  official := standings.countP (·.1)
  community := standings.countP fun s => s.2 && !s.1
  total := standings.length

theorem count_eq_of_forall₂ {entries : List Entry} {trees : List Tree}
    (h : List.Forall₂ (fun record e => Tree.toRecord Entry.fields {} record = .ok e) trees entries)
    (official community : String) :
    Catalog.count ⟨entries⟩ official community =
      countStandings (trees.map (standing official community)) := by
  have hmap : entries.map (fun e => (e.isOf official, e.isOf community)) =
      trees.map (standing official community) := by
    induction h with
    | nil => rfl
    | cons he _ ih => rw [List.map_cons, List.map_cons, ih, isOf_eq he, isOf_eq he, standing]
  rw [← hmap, countStandings, List.countP_map, List.countP_map, List.length_map]
  rfl

theorem count_of_read {content : List UInt8} {c : Catalog} (h : read content = .ok c)
    (official community : String) :
    c.count official community =
      countStandings ((records content).map (standing official community)) :=
  count_eq_of_forall₂ (entries_of_read h) official community

theorem countStandings_le (standings : List (Bool × Bool)) :
    (countStandings standings).official + (countStandings standings).community ≤
      (countStandings standings).total := by
  have hrest : standings.countP (fun s => s.2 && !s.1) ≤ standings.countP fun s => !s.1 :=
    List.countP_mono_left fun s _ hs => (Bool.and_eq_true_iff.1 hs).2
  have hsplit := List.length_eq_countP_add_countP (fun s : Bool × Bool => s.1) (l := standings)
  simp only [countStandings, Bool.decide_eq_false, Bool.not_eq_true] at hsplit ⊢
  omega

theorem countStandings_perm {a b : List (Bool × Bool)} (h : a.Perm b) :
    countStandings a = countStandings b := by
  simp only [countStandings, h.countP_eq, h.length_eq]

/-- What may become of the records of a catalog: another order, other fields besides the tier, and
any tier but the two that are counted where there was none. -/
inductive Revises (official community : String) : List Tree → List Tree → Prop
  | perm {a b : List Tree} (h : a.Perm b) : Revises official community a b
  | fields {a b : List Tree}
    (h : List.Forall₂ (fun r s => s.part? tierName = r.part? tierName) a b) :
    Revises official community a b
  | tier (before after : List Tree) {r s : Tree}
    (hr : r.part? tierName = none ∨ r.part? tierName = some .null)
    (hs : tier? s ≠ some official ∧ tier? s ≠ some community) :
    Revises official community (before ++ r :: after) (before ++ s :: after)
  | trans {a b c : List Tree} (h : Revises official community a b)
    (h' : Revises official community b c) : Revises official community a c

theorem tier?_eq_none {r : Tree} (h : r.part? tierName = none ∨ r.part? tierName = some .null) :
    tier? r = none := by
  rcases h with h | h <;> rw [tier?, h] <;> rfl

/-- A change to the records leaves their standings, up to the order. -/
theorem Revises.standings_perm {official community : String} {a b : List Tree}
    (h : Revises official community a b) :
    (a.map (standing official community)).Perm (b.map (standing official community)) := by
  induction h with
  | perm h => exact h.map _
  | fields h =>
    refine List.Perm.of_eq ?_
    induction h with
    | nil => rfl
    | cons htier _ ih =>
      rw [List.map_cons, List.map_cons, ih, standing, standing, tier?, tier?, htier]
  | tier before after hr hs =>
    refine List.Perm.of_eq ?_
    simp [standing, tier?_eq_none hr, hs.1, hs.2]
  | trans h h' ih ih' => exact ih.trans ih'

variable {fs : FileSystem} {path : Path} {content : List UInt8}

theorem countFile_of_read {c : Catalog} (hcontent : fs.content? path = some content)
    (hread : read content = .ok c) (official community : String) :
    countFile fs path official community = .ok (c.count official community) := by
  simp only [countFile, hcontent, hread]

/-- Of the records of a catalog all count toward the total, those in the official tier are official
and the others in the community tier belong to the community. Changes that do not bring a record
into one of the tiers, or out of it, change no count. A catalog that does not decode is not
counted. -/
theorem countFile_partitions (hcontent : fs.content? path = some content)
    (official community : String) :
    (∀ c, read content = .ok c → ∃ counts, countFile fs path official community = .ok counts ∧
      counts.total = (records content).length ∧
      counts.official = (records content).countP (tier? · == some official) ∧
      counts.community = (records content).countP
        (fun r => tier? r == some community && tier? r != some official) ∧
      counts.official + counts.community ≤ counts.total ∧
      ∀ fs' path' content' c', FileSystem.content? fs' path' = some content' →
        read content' = .ok c' → Revises official community (records content) (records content') →
        countFile fs' path' official community = .ok counts) ∧
    ∀ fault, read content = .error fault →
      countFile fs path official community = .error (.undecodable path fault) := by
  constructor
  · intro c hread
    have hcount := count_of_read hread official community
    refine ⟨_, countFile_of_read hcontent hread official community, ?_, ?_, ?_, ?_, ?_⟩
    · simp only [hcount, countStandings, List.length_map]
    · simp only [hcount, countStandings, List.countP_map]
      rfl
    · simp only [hcount, countStandings, List.countP_map]
      rfl
    · rw [hcount]
      exact countStandings_le _
    · intro fs' path' content' c' hcontent' hread' hrevises
      rw [countFile_of_read hcontent' hread', count_of_read hread', hcount,
        countStandings_perm hrevises.standings_perm]
  · intro fault hread
    simp only [countFile, hcontent, hread]

/-- A record that tells nothing but its tier. -/
def tierRecord (tier : Value) : Value :=
  .record [(tierName, tier)]

def tieredRecords : List Value :=
  [tierRecord (.text "o"), tierRecord .null, tierRecord (.text "c")]

/-- The same records turned round, with an odd tier for the one that had none and another field for
the official one. -/
def revisedRecords : List Value :=
  [tierRecord (.text "c"), tierRecord (.list [.text "o"]),
    .record [("id", .nat 1), (tierName, .text "o")]]

def catalogText (items : List Value) : List UInt8 :=
  Text.Utf8.encode (pretty 0 (.record [("extensions", .list items)]) ++ ['\n'])

/-- Both catalogs, and one that does not decode. -/
def catalogFiles : FileSystem where
  root := .folder
    [("a", .file (catalogText tieredRecords)), ("b", .file (catalogText revisedRecords)),
      ("z", .file (Text.Utf8.encode "[[[]], 0]".toList))]
  workingPlace := []

theorem revises_revisedRecords :
    Revises "o" "c" (records (catalogText tieredRecords))
      (records (catalogText revisedRecords)) := by
  rw [catalogText, catalogText, records_written rfl, records_written rfl]
  have hturned : Revises "o" "c" (itemTrees tieredRecords) (itemTrees tieredRecords).reverse :=
    .perm (List.reverse_perm _).symm
  have hretold := @Revises.tier "o" "c" [(tierRecord (.text "c")).tree]
    [(tierRecord (.text "o")).tree] (tierRecord .null).tree
    (tierRecord (.list [.text "o"])).tree (.inr (Tree.part?_tree _ _)) (by decide +kernel)
  refine hturned.trans (hretold.trans (.fields (.cons rfl (.cons rfl (.cons ?_ .nil)))))
  rw [tierRecord, Tree.part?_tree, Tree.part?_tree]
  rfl

theorem countFile_partitions_revisedRecords :
    ∃ counts, countFile catalogFiles "a" "o" "c" = .ok counts ∧ counts.official = 1 ∧
      counts.community = 1 ∧ counts.total = 3 ∧
      countFile catalogFiles "b" "o" "c" = .ok counts ∧
      ∃ fault, countFile catalogFiles "z" "o" "c" = .error (.undecodable "z" fault) := by
  have hbefore : (read (catalogText tieredRecords)).isOk = true := by decide +kernel
  have hafter : (read (catalogText revisedRecords)).isOk = true := by decide +kernel
  have hbroken : (read (Text.Utf8.encode "[[[]], 0]".toList)).isOk = false := by decide +kernel
  cases hread : read (catalogText tieredRecords) with
  | error fault =>
    rw [hread] at hbefore
    cases hbefore
  | ok c =>
  cases hread' : read (catalogText revisedRecords) with
  | error fault =>
    rw [hread'] at hafter
    cases hafter
  | ok c' =>
  cases hread'' : read (Text.Utf8.encode "[[[]], 0]".toList) with
  | ok c'' =>
    rw [hread''] at hbroken
    cases hbroken
  | error fault =>
  have hcontent : catalogFiles.content? "a" = some (catalogText tieredRecords) := by
    decide +kernel
  have hcontent' : catalogFiles.content? "b" = some (catalogText revisedRecords) := by
    decide +kernel
  have hcontent'' : catalogFiles.content? "z" = some (Text.Utf8.encode "[[[]], 0]".toList) := by
    decide +kernel
  obtain ⟨counts, hcounts, htotal, hofficial, hcommunity, -, hrevised⟩ :=
    (countFile_partitions hcontent "o" "c").1 c hread
  have hrecords : records (catalogText tieredRecords) = itemTrees tieredRecords :=
    records_written rfl
  rw [hrecords] at htotal hofficial hcommunity
  exact ⟨counts, hcounts, hofficial.trans (by decide +kernel),
    hcommunity.trans (by decide +kernel), htotal,
    hrevised catalogFiles "b" _ c' hcontent' hread' revises_revisedRecords, fault,
    (countFile_partitions hcontent'' "o" "c").2 fault hread''⟩

end ReleaseGate.Catalog
