import ShaderBuild.Source.Set

/-!
# Build caches

A build cache remembers each shader file of the last build by its identity: where the file lay,
when it was modified, whether it was compiled, and what it was compiled to. Records stand in the
order of their identities.

Main definitions: `insert`, `get?`, `ofFiles`.
-/

namespace ShaderBuild

/-- What is remembered of a shader file. -/
structure CacheRecord where
  identity : UInt32
  path : Path
  modified : Timestamp
  didCompile : Bool
  outputs : List Path
deriving DecidableEq, Repr

/-- What is to be remembered of a file. -/
def SourceFile.record (f : SourceFile) : CacheRecord :=
  { identity := f.identity
    path := f.path
    modified := f.modified
    didCompile := f.didCompile
    outputs := f.outputs }

/-- Records by identity, in increasing order. -/
structure BuildCache where
  records : List (UInt32 × CacheRecord) := []
  ordered : (records.map (·.1)).Pairwise (· < ·) := by simp

namespace BuildCache

/-- The cache that remembers nothing. -/
def empty : BuildCache := ⟨[], .nil⟩

@[simp]
theorem records_empty : empty.records = [] := rfl

/-- Puts a record in its place, instead of one with the same key. -/
def place (key : UInt32) (r : CacheRecord) : List (UInt32 × CacheRecord) →
    List (UInt32 × CacheRecord)
  | [] => [(key, r)]
  | (k, q) :: rest =>
    if key < k then (key, r) :: (k, q) :: rest
    else if key = k then (key, r) :: rest
    else (k, q) :: place key r rest

theorem mem_keys_place {key k : UInt32} {r : CacheRecord} {l : List (UInt32 × CacheRecord)}
    (h : k ∈ (place key r l).map (·.1)) : k = key ∨ k ∈ l.map (·.1) := by
  induction l with
  | nil => simpa [place] using h
  | cons p l ih =>
    obtain ⟨k', q⟩ := p
    rw [place] at h
    split at h
    · simpa using h
    split at h
    · simp only [List.map_cons, List.mem_cons] at h ⊢
      exact h.imp_right .inr
    · simp only [List.map_cons, List.mem_cons] at h ⊢
      rcases h with h | h
      · exact .inr (.inl h)
      · exact (ih h).imp_right .inr

theorem ordered_place {key : UInt32} {r : CacheRecord} {l : List (UInt32 × CacheRecord)}
    (h : (l.map (·.1)).Pairwise (· < ·)) : ((place key r l).map (·.1)).Pairwise (· < ·) := by
  induction l with
  | nil => simp [place]
  | cons p l ih =>
    obtain ⟨k, q⟩ := p
    simp only [List.map_cons, List.pairwise_cons] at h
    rw [place]
    split
    · next hlt =>
      simp only [List.map_cons, List.pairwise_cons]
      refine ⟨fun k' hk' => ?_, h⟩
      rcases List.mem_cons.1 hk' with rfl | hk'
      · exact hlt
      · exact UInt32.lt_trans hlt (h.1 k' hk')
    split
    · next heq =>
      subst heq
      simpa using h
    · next hlt hne =>
      simp only [List.map_cons, List.pairwise_cons]
      refine ⟨fun k' hk' => ?_, ih h.2⟩
      rcases mem_keys_place hk' with rfl | hk'
      · exact UInt32.lt_of_le_of_ne (UInt32.not_lt.1 hlt) (Ne.symm hne)
      · exact h.1 k' hk'

/-- Remembers a record under a key. -/
def insert (c : BuildCache) (key : UInt32) (r : CacheRecord) : BuildCache :=
  ⟨place key r c.records, ordered_place c.ordered⟩

/-- The record under a key. -/
def get? (c : BuildCache) (key : UInt32) : Option CacheRecord := c.records.lookup key

/-- How many records there are. -/
def size (c : BuildCache) : Nat := c.records.length

/-- The cache that remembers the files of a set. -/
def ofFiles (fs : FileSet) : BuildCache :=
  fs.files.foldl (fun c f => c.insert f.identity f.record) .empty

end BuildCache

end ShaderBuild
