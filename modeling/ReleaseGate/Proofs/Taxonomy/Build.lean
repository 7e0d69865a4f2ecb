import ReleaseGate.Taxonomy.Build

/-!
# Builds that succeed

A taxonomy is built exactly if everything can be counted, the contract can be loaded and the
taxonomy of the counts does not violate it.
-/
namespace ReleaseGate

open Files

theorem Sources.collect_eq_ok_iff {fs : FileSystem} {root : Path} {s : Sources} {c : Counts} :
    s.collect fs root = .ok c ↔
      s.countLines fs root = .ok c.loc ∧ s.countProviders fs root = .ok c.providers ∧
      s.countExtensions fs root = .ok c.extensions := by
  unfold collect
  cases s.countLines fs root with
  | error e => simp [bind, Except.bind]
  | ok loc =>
    cases s.countProviders fs root with
    | error e => simp [bind, Except.bind]
    | ok providers =>
      cases s.countExtensions fs root with
      | error e => simp [bind, Except.bind]
      | ok extensions =>
        simp only [bind, Except.bind, pure, Except.pure, Except.ok.injEq]
        constructor
        · rintro rfl
          exact ⟨rfl, rfl, rfl⟩
        · rintro ⟨rfl, rfl, rfl⟩
          rfl

theorem Taxonomy.build_eq_error_of_collect {fs : FileSystem} {root : Path} {s : Sources}
    {e : BuildError} (h : s.collect fs root = .error e) : build fs root s = .error e := by
  rw [build, h]
  rfl

theorem Taxonomy.build_eq_ok_iff {fs : FileSystem} {root : Path} {s : Sources} {t : Taxonomy} :
    build fs root s = .ok t ↔ ∃ counts contract bytes, s.collect fs root = .ok counts ∧
      Contract.load fs (s.contractPath root) = .ok (contract, bytes) ∧
        t = assemble counts s ∧ t.violations contract = [] := by
  unfold build
  cases hcounts : s.collect fs root with
  | error e => simp [bind, Except.bind]
  | ok counts =>
    cases hload : Contract.load fs (s.contractPath root) with
    | error e => simp [bind, Except.bind]
    | ok loaded =>
      obtain ⟨contract, bytes⟩ := loaded
      simp only [bind, Except.bind]
      cases hviolations : (assemble counts s).violations contract with
      | nil =>
        simp only [pure, Except.pure, Except.ok.injEq, Prod.mk.injEq]
        constructor
        · rintro rfl
          exact ⟨counts, contract, bytes, rfl, ⟨rfl, rfl⟩, rfl, hviolations⟩
        · rintro ⟨_, _, _, rfl, -, rfl, -⟩
          rfl
      | cons violation violations =>
        simp only [reduceCtorEq, Except.ok.injEq, Prod.mk.injEq, false_iff]
        rintro ⟨_, _, _, rfl, ⟨rfl, rfl⟩, rfl, hnone⟩
        simp [hviolations] at hnone

theorem Contract.load_eq_ok_iff {fs : FileSystem} {path : Path} {contract : Contract}
    {bytes : List UInt8} :
    Contract.load fs path = .ok (contract, bytes) ↔
      fs.content? path = some bytes ∧ Contract.read bytes = .ok contract := by
  unfold Contract.load
  cases hcontent : fs.content? path with
  | none => simp
  | some content =>
    cases hread : Contract.read content with
    | error fault =>
      simp only [hread, reduceCtorEq, Option.some.injEq, false_iff, not_and]
      rintro rfl
      simp [hread]
    | ok found =>
      simp only [hread, Except.ok.injEq, Prod.mk.injEq, Option.some.injEq]
      constructor
      · rintro ⟨rfl, rfl⟩
        exact ⟨rfl, hread⟩
      · rintro ⟨rfl, hfound⟩
        rw [hread, Except.ok.injEq] at hfound
        exact ⟨hfound, rfl⟩

end ReleaseGate
