import ShaderBuild.Proofs.Cache.File
import ShaderBuild.Proofs.Cache.Record

/-!
# Keeping a cache on disk

The cache of a set of files survives being saved and loaded (`cache_of_files_loads_back`), whatever
the files are: paths and outputs in any script, any flags, and any moment that a machine can tell.
The set need not come from a scan, so files may even share an identity.

A cache cannot be written out for one reason only, a moment before the epoch (`encode_fails_iff`).
No file is touched then.
-/

namespace ShaderBuild

open Action

/-! ## Writing out -/

theorem Timestamp.encode_fails_iff {t : Timestamp} :
    (∃ fault, t.encode = .error fault) ↔ t.seconds < 0 := by
  unfold Timestamp.encode
  cases t.seconds with
  | ofNat s =>
    simp only [reduceCtorEq, exists_false, false_iff, Int.not_lt]
    exact Int.natCast_nonneg s
  | negSucc s =>
    simp only [Except.error.injEq, exists_eq', true_iff]
    exact Int.negSucc_lt_zero s

theorem CacheRecord.encode_fails_iff {r : CacheRecord} :
    (∃ fault, r.encode = .error fault) ↔ r.modified.seconds < 0 := by
  rw [← Timestamp.encode_fails_iff]
  unfold CacheRecord.encode
  cases r.modified.encode with
  | error fault => exact Iff.rfl
  | ok m => simp [bind, Except.bind, pure, Except.pure]

namespace BuildCache

variable {c : BuildCache} {fs : FileSet}

theorem encodeEntry_error {entry : UInt32 × CacheRecord} {fault : IoFault}
    (h : encodeEntry entry = .error fault) : entry.2.encode = .error fault := by
  unfold encodeEntry at h
  cases hr : entry.2.encode with
  | error fault' =>
    rw [hr] at h
    cases h
    rfl
  | ok j =>
    rw [hr] at h
    cases h

/-- A cache cannot be written out exactly when it remembers a moment before the epoch. -/
theorem encode_fails_iff :
    (∃ fault, c.encode = .error fault) ↔ ∃ entry ∈ c.records, entry.2.modified.seconds < 0 := by
  have hencode : c.encode = (c.records.mapM encodeEntry) >>= fun ms => .ok (.object ms) := rfl
  constructor
  · rintro ⟨fault, h⟩
    cases hm : c.records.mapM encodeEntry with
    | error fault' =>
      obtain ⟨entry, hentry, he⟩ := mapM_error hm
      exact ⟨entry, hentry, CacheRecord.encode_fails_iff.1 ⟨fault', encodeEntry_error he⟩⟩
    | ok members =>
      rw [hencode, hm] at h
      cases h
  · rintro ⟨entry, hentry, hbefore⟩
    cases hc : c.encode with
    | error fault => exact ⟨fault, rfl⟩
    | ok j =>
      obtain ⟨members, hm, -⟩ := encode_ok hc
      obtain ⟨m, -, he⟩ := exists_right_of_forall₂ (mapM_ok_iff.1 hm) hentry
      obtain ⟨fault, hfault⟩ := CacheRecord.encode_fails_iff.2 hbefore
      rw [(encodeEntry_ok he).2] at hfault
      cases hfault

/-! ## The cache of a set of files -/

/-- What the cache of a set remembers are files of the set, each under its identity. -/
theorem exists_of_mem_ofFiles {entry : UInt32 × CacheRecord} (h : entry ∈ (ofFiles fs).records) :
    ∃ f ∈ fs.files, entry = (f.identity, f.record) := by
  suffices hfold : ∀ (files : List SourceFile) (c : BuildCache),
      entry ∈ (files.foldl (fun c f => c.insert f.identity f.record) c).records →
        (∃ f ∈ files, entry = (f.identity, f.record)) ∨ entry ∈ c.records by
    refine (hfold fs.files .empty h).resolve_right fun hempty => ?_
    cases hempty
  intro files
  induction files with
  | nil => exact fun c h => .inr h
  | cons f files ih =>
    intro c h
    rcases ih _ h with ⟨g, hg, hentry⟩ | h
    · exact .inl ⟨g, List.mem_cons_of_mem _ hg, hentry⟩
    · rcases mem_insert_iff.1 h with ⟨hkey, hrecord⟩ | ⟨-, h⟩
      · exact .inl ⟨f, List.mem_cons_self, Prod.ext hkey hrecord⟩
      · exact .inr h

/-- **The persisted cache loads back.** For files with moments that a machine can tell, a cache that
was saved is what loading the same path answers. When saving fails, be it because the cache cannot
be written out or because the file cannot be, all files stay as they were. -/
theorem cache_of_files_loads_back (fs : FileSet) (p : Path) (σ : Session)
    (hproper : ∀ f ∈ fs.files, f.modified.IsProper) :
    (∀ σ', ((ofFiles fs).save p).runOn σ = (.ok (), σ') →
      (load p).answer σ'.tree = .ok (ofFiles fs)) ∧
    (∀ e σ', ((ofFiles fs).save p).runOn σ = (.error e, σ') →
      FileTree.AltersOnly (fun _ => False) σ.tree σ'.tree) ∧
    ((∃ fault, (ofFiles fs).encode = .error fault) →
      ∃ q fault σ', ((ofFiles fs).save p).runOn σ = (.error (.io q fault), σ')) := by
  have hrecords : ∀ entry ∈ (ofFiles fs).records, entry.2.modified.IsProper := by
    intro entry hentry
    obtain ⟨f, hf, rfl⟩ := exists_of_mem_ofFiles hentry
    exact hproper f hf
  refine ⟨fun σ' h => ?_, fun e σ' h => ?_, fun ⟨fault, hfault⟩ => ?_⟩
  · rcases save_cases h with ⟨q, fault, hr, -⟩ | ⟨-, -, j, time, hj, hread⟩
    · cases hr
    · exact load_of_saved hrecords hj hread
  · rcases save_cases h with ⟨q, fault, -, halters⟩ | ⟨hr, -⟩
    · exact halters
    · cases hr
  · cases h : ((ofFiles fs).save p).runOn σ with
    | mk r σ' =>
      rcases save_cases h with ⟨q, fault, rfl, -⟩ | ⟨-, -, j, time, hj, -⟩
      · exact ⟨q, fault, σ', rfl⟩
      · rw [hfault] at hj
        cases hj

end BuildCache

namespace OddFiles

/-- Two files, one of them changed at the given second, with names that a JSON text has to escape
or to spell in several bytes. -/
def files (seconds : Int) : FileSet where
  files := [
    { identity := 4000000000
      path := ⟨"s/\"\\\n\u0001é😀.hlsl"⟩
      modified := ⟨seconds, 999999999⟩
      content := []
      permutations := [⟨⟨"A", "main", .vertex, []⟩, ⟨"g/ä.h"⟩⟩, ⟨⟨"B", "main", .pixel, []⟩, ⟨""⟩⟩]
      didCompile := false },
    { identity := 5
      path := ⟨""⟩
      modified := ⟨0, 0⟩
      content := []
      permutations := [] }]

theorem facts :
    (((BuildCache.ofFiles (files 9223372036854775807)).save ⟨"d/c"⟩).runOn
      { tree := .empty [] ⟨0, 0⟩ }).1.toOption = some () ∧
    ∃ entry ∈ (BuildCache.ofFiles (files (-1))).records, entry.2.modified.seconds < 0 := by
  decide +kernel

end OddFiles

theorem odd_files_load_back :
    (∃ σ, ((BuildCache.ofFiles (OddFiles.files 9223372036854775807)).save ⟨"d/c"⟩).runOn
        { tree := .empty [] ⟨0, 0⟩ } = (.ok (), σ) ∧
      (BuildCache.load ⟨"d/c"⟩).answer σ.tree =
        .ok (BuildCache.ofFiles (OddFiles.files 9223372036854775807))) ∧
    ∃ e σ, ((BuildCache.ofFiles (OddFiles.files (-1))).save ⟨"d/c"⟩).runOn
        { tree := .empty [] ⟨0, 0⟩ } = (.error e, σ) ∧
      FileTree.AltersOnly (fun _ => False) (.empty [] ⟨0, 0⟩) σ.tree := by
  obtain ⟨hsaved, hbefore⟩ := OddFiles.facts
  obtain ⟨hloads, -, -⟩ := BuildCache.cache_of_files_loads_back
    (OddFiles.files 9223372036854775807) ⟨"d/c"⟩ { tree := .empty [] ⟨0, 0⟩ } (by decide)
  obtain ⟨-, hkept, hfails⟩ := BuildCache.cache_of_files_loads_back
    (OddFiles.files (-1)) ⟨"d/c"⟩ { tree := .empty [] ⟨0, 0⟩ } (by decide)
  obtain ⟨q, fault, σ, hrun⟩ := hfails (BuildCache.encode_fails_iff.2 hbefore)
  have hok := Prod.ext (ok_of_toOption hsaved) rfl
  exact ⟨⟨_, hok, hloads _ hok⟩, ⟨_, σ, hrun, hkept _ σ hrun⟩⟩

end ShaderBuild
