import ShaderBuild.Proofs.Action
import ShaderBuild.Proofs.Cache.RoundTrip
import ShaderBuild.Proofs.FileTree.Change

/-!
# The cache file

What is remembered of earlier builds is what the cache file holds (`BuildCache.heldAt`). Loading
answers that, or an empty cache when the file cannot be reached (`load_answer`). Saving a cache puts
it into the file or else leaves all files alone (`save_cases`), and then the file holds that very
cache (`heldAt_of_file`).
-/

namespace ShaderBuild.BuildCache

open Action

variable {c : BuildCache} {p : Path} {t : FileTree}

/-- The cache that the file at a path holds. -/
def heldAt (p : Path) (t : FileTree) : Option BuildCache :=
  (t.content? p).bind fun bytes => (Text.decode? bytes).bind ofText?

/-! ## Loading -/

theorem looks_load (p : Path) : Looks (load p) := by
  refine looks_tree.bind fun t => ?_
  split
  · exact (looks_tell _).bind fun _ => looks_pure _
  · exact (looks_tell _).bind fun _ => looks_pure _
  · split
    · exact looks_pure _
    · exact (looks_tell _).bind fun _ => looks_pure _

theorem heldAt_of_readText {text : List Char} (h : t.readText p = .ok text) :
    heldAt p t = ofText? text := by
  unfold FileTree.readText at h
  cases hr : t.read p with
  | error fault =>
    rw [hr] at h
    cases h
  | ok r =>
    obtain ⟨bytes, modified⟩ := r
    rw [hr] at h
    simp only [bind, Except.bind] at h
    split at h
    · next s hs =>
      cases h
      unfold heldAt FileTree.content?
      rw [FileTree.file?_of_read hr]
      simp only [hs, Option.map_some, Option.bind_some]
    · cases h

/-- Loading answers what the file holds, or an empty cache. -/
theorem load_answer (p : Path) (t : FileTree) :
    ∃ c, (load p).answer t = .ok c ∧ (c = .empty ∨ heldAt p t = some c) := by
  unfold answer load
  rw [runOn_bind_of_ok (runOn_tree _)]
  simp only
  cases hr : t.readText p with
  | error fault =>
    refine ⟨.empty, ?_, .inl rfl⟩
    cases fault <;> rfl
  | ok text =>
    have hheld := heldAt_of_readText hr
    cases hc : ofText? text with
    | none => exact ⟨.empty, by simp only [hc]; rfl, .inl rfl⟩
    | some c =>
      rw [hc] at hheld
      exact ⟨c, by simp only [hc]; rfl, .inr hheld⟩

/-- Loading answers what the file holds when its path leads to it. -/
theorem load_of_heldAt {file : List UInt8 × Timestamp} (hread : t.read p = .ok file)
    (h : heldAt p t = some c) : (load p).answer t = .ok c := by
  obtain ⟨bytes, modified⟩ := file
  unfold heldAt FileTree.content? at h
  rw [FileTree.file?_of_read hread] at h
  simp only [Option.map_some, Option.bind_some] at h
  obtain ⟨text, htext, hc⟩ := Option.bind_eq_some_iff.1 h
  have hr : t.readText p = .ok text := by
    unfold FileTree.readText
    rw [hread]
    simp only [bind, Except.bind, htext]
    rfl
  unfold answer load
  rw [runOn_bind_of_ok (runOn_tree _)]
  simp only [hr, hc]
  rfl

/-! ## Saving -/

/-- Makes the folder of a path, if it has one. -/
def makeAround (p : Path) : Action Unit :=
  match p.parent? with
  | some folder => Action.changeAt folder (·.makeFolders folder)
  | none => pure ()

theorem makeAround_cases {σ σ' : Session} {r : Except Error Unit}
    (h : (makeAround p).runOn σ = (r, σ')) :
    FileTree.AltersOnly (fun _ => False) σ.tree σ'.tree ∧
      (r = .ok () ∨ ∃ q fault, r = .error (.io q fault)) := by
  unfold makeAround at h
  cases hparent : p.parent? with
  | none =>
    rw [hparent] at h
    cases h
    exact ⟨.refl _ _, .inl rfl⟩
  | some folder =>
    simp only [hparent] at h
    obtain ⟨htree, hr⟩ := changeAt_cases h
    rw [htree]
    refine ⟨FileTree.altersOnly_makeFolders σ.tree folder, ?_⟩
    rcases hr with ⟨hr, -⟩ | ⟨fault, hr, -⟩
    · exact .inl hr
    · exact .inr ⟨folder, fault, hr⟩

theorem save_eq (c : BuildCache) (p : Path) : c.save p = makeAround p >>= fun _ =>
    match c.encode with
    | .error fault => throw (.io p fault)
    | .ok j => Action.changeAt p (·.writeText p j.pretty) := by
  unfold save makeAround
  cases p.parent? <;> rfl

theorem tidy_save (c : BuildCache) (p : Path) : Tidy (c.save p) := by
  rw [save_eq]
  refine Tidy.bind ?_ fun _ => ?_
  · unfold makeAround
    split
    · exact tidy_changeAt _ _
    · exact tidy_pure ()
  · split
    · exact tidy_throw fun _ h => by cases h
    · exact tidy_changeAt _ _

/-- Saving does to the tree what making folders and writing the file do. -/
theorem save_moves {R : FileTree → FileTree → Prop} (refl : ∀ t, R t t)
    (trans : ∀ t u v, R t u → R u v → R t v)
    (make : ∀ t folder, R t (FileTree.makeFolders t folder).2)
    (write : ∀ t content, R t (t.write p content).2) : Moves R (c.save p) := by
  rw [save_eq]
  refine Moves.bind trans ?_ fun _ => ?_
  · unfold makeAround
    split
    · exact moves_changeAt fun t => make t _
    · exact (looks_pure ()).moves refl
  · split
    · exact (looks_throw _).moves refl
    · exact moves_changeAt fun t => write t _

/-- Saving puts the text of the cache into the file, or else leaves all files alone. -/
theorem save_cases {σ σ' : Session} {r : Except Error Unit} (h : (c.save p).runOn σ = (r, σ')) :
    (∃ q fault, r = .error (.io q fault) ∧
      FileTree.AltersOnly (fun _ => False) σ.tree σ'.tree) ∨
    r = .ok () ∧ FileTree.AltersOnly (· = p) σ.tree σ'.tree ∧
      ∃ j time, c.encode = .ok j ∧
        σ'.tree.read p = .ok (Text.encode j.pretty, time) := by
  rw [save_eq] at h
  rcases runOn_bind_cases h with ⟨e, hmake, hr⟩ | ⟨u, σ₁, hmake, h⟩
  · obtain ⟨halters, herror⟩ := makeAround_cases hmake
    rcases herror with heq | ⟨q, fault, heq⟩
    · cases heq
    · cases heq
      exact .inl ⟨q, fault, hr, halters⟩
  · obtain ⟨halters, -⟩ := makeAround_cases hmake
    cases hj : c.encode with
    | error fault =>
      simp only [hj] at h
      cases h
      exact .inl ⟨p, fault, rfl, halters⟩
    | ok j =>
      simp only [hj] at h
      obtain ⟨htree, ⟨hr, hwrite⟩ | ⟨fault, hr, hwrite⟩⟩ := changeAt_cases h
      · have hread := FileTree.read_write hwrite
        refine .inr ⟨hr, ?_, j, σ₁.tree.clock, rfl, ?_⟩
        · rw [htree]
          exact (halters.mono fun _ hp => hp.elim).trans (FileTree.altersOnly_write _ _ _)
        · rw [htree]
          exact hread
      · refine .inl ⟨p, fault, hr, ?_⟩
        rw [htree, FileTree.writeText, FileTree.write_error hwrite]
        exact halters

theorem heldAt_of_file {j : Json} {time : Timestamp}
    (hproper : ∀ entry ∈ c.records, entry.2.modified.IsProper) (hj : c.encode = .ok j)
    (hfile : t.file? p = some (Text.encode j.pretty, time)) : heldAt p t = some c := by
  unfold heldAt FileTree.content?
  rw [hfile]
  simp only [Option.map_some, Option.bind_some, Text.decode?_encode, ofText?_pretty hproper hj]

/-- What was saved is loaded. -/
theorem load_of_saved {j : Json} {time : Timestamp}
    (hproper : ∀ entry ∈ c.records, entry.2.modified.IsProper) (hj : c.encode = .ok j)
    (hread : t.read p = .ok (Text.encode j.pretty, time)) : (load p).answer t = .ok c :=
  load_of_heldAt hread (heldAt_of_file hproper hj (FileTree.file?_of_read hread))

/-- The cache file holds the same as long as it is not altered. -/
theorem heldAt_congr {S : Path → Prop} {u : FileTree} (h : FileTree.AltersOnly S t u)
    (hp : ∀ q, S q → q.locate t.here ≠ p.locate t.here) : heldAt p u = heldAt p t := by
  unfold heldAt FileTree.content?
  rw [h.file?_eq hp]

end ShaderBuild.BuildCache
