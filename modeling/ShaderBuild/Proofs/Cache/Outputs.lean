import ShaderBuild.Proofs.Build.History
import ShaderBuild.Proofs.Cache.Due

/-!
# Outputs of files that are not compiled

A file that is not to be compiled had all its outputs when it was examined. The files behind it are
examined later, and each of them has its orphans deleted first. So an output of the file is still
there behind a comparison exactly when it is no orphan of a file behind it
(`has_output_iff_no_orphan`), and in particular when the cache lists it for no other file
(`has_output_of_unlisted`).
-/

namespace ShaderBuild

open Action FileTree

namespace BuildCache

variable {c : BuildCache} {s : Settings} {fs fs' : FileSet} {f : SourceFile} {o : Path}
  {σ σ' : Session} {graph : IncludeGraph fs.size} {changed : Bool}

/-! ## Examining the files behind one -/

/-- Examining files leaves alone what none of their orphans leads to. -/
theorem mapM_examine_spares {files : List SourceFile} {t : FileTree} {σ₁ σ₂ : Session}
    {r : Except Error (List (Bool × Bool))}
    (h : (files.mapM (examine c s)).runOn σ₁ = (r, σ₂))
    (hsince : Deletes (fun _ => True) t σ₁.tree)
    (hclear : ∀ g ∈ files, ∀ p ∈ c.orphansOf g, t.isFile p = true →
      p.locate t.here ≠ o.locate t.here)
    (ho : σ₁.tree.has o = true) : σ₂.tree.has o = true := by
  obtain ⟨-, htree⟩ := mapM_examine_matches c s files σ₁ σ₁ rfl
  rw [h] at htree
  rw [show σ₂.tree = _ from htree]
  refine (settle_moves (R := fun u v => Deletes (fun _ => True) t u ∧ u.has o = true →
    Deletes (fun _ => True) t v ∧ v.has o = true) (fun _ h => h) (fun _ _ _ h h' hu => h' (h hu))
    (fun row hrow p hp _ u hu => ?_) σ₁ ⟨hsince, ho⟩).2
  obtain ⟨hdeletes, hhas⟩ := hu
  refine ⟨hdeletes.trans ((deletes_removeFile u p).mono fun _ _ => trivial), ?_⟩
  rcases removeFile_cases u p with ⟨fault, heq⟩ | ⟨-, -, -, heq⟩
  · rw [heq]
    exact hhas
  · -- what is removed now was a file from the start
    obtain ⟨content, modified, hfind⟩ :=
      isFile_iff.1 (isFile_of_removeFile (t := u) (p := p) (by rw [heq]))
    have hfile : t.isFile p = true := isFile_iff.2 ⟨_, _, hdeletes.find_before hfind⟩
    obtain ⟨g, hg, hmem⟩ := List.mem_flatMap.1 hrow
    rw [Option.mem_toList, Option.map_eq_some_iff] at hmem
    obtain ⟨record, hrecord, rfl⟩ := hmem
    have horphan : p ∈ c.orphansOf g := by
      unfold orphansOf
      rw [hrecord]
      exact hp
    refine (altersOnly_removeFile u p).has ?_ hhas
    rintro q rfl
    rw [hdeletes.here]
    exact hclear g hg q horphan hfile

theorem map_orphansOf_marked (c : BuildCache) (fs : FileSet) (graph : IncludeGraph fs.size)
    (stale : Fin fs.size → Bool) :
    (marked fs graph stale).files.map c.orphansOf = fs.files.map c.orphansOf := by
  unfold marked
  rw [List.map_map]
  conv_rhs => rw [← List.map_get_finRange fs.files, List.map_map]
  rfl

/-- The files in front of a marked file, the file itself and the ones behind it, by their
orphans. -/
theorem orphansOf_behind {stale : Fin fs.size → Bool} {before after : List SourceFile}
    (hfiles : (marked fs graph stale).files = before ++ f :: after) :
    (fs.files.drop (before.length + 1)).map c.orphansOf = after.map c.orphansOf := by
  rw [List.map_drop, ← map_orphansOf_marked c fs graph stale, ← List.map_drop, hfiles,
    List.drop_append, List.drop_eq_nil_of_le (by omega), Nat.add_sub_cancel_left]
  rfl

/-- A file with an output that is missing is stale. -/
theorem locallyStale_of_missing {t : FileTree} (ho : o ∈ f.outputs) (h : t.has o = false) :
    c.LocallyStale t f := by
  cases hr : c.get? f.identity with
  | none => exact .inl hr
  | some r => exact .inr ⟨r, hr, .inr (.inr (.inr ⟨o, List.mem_append_right _ ho, h⟩))⟩

/-- The moment at which a file that is not to be compiled is examined: only files were deleted by
then, all outputs of the file are there, and the files behind it are examined next. -/
theorem diff_around (h : (c.diff s fs graph).runOn σ = (.ok (changed, fs'), σ'))
    {before after : List SourceFile} (hfiles : fs'.files = before ++ f :: after)
    (hkept : f.shouldCompile = false) :
    ∃ (rest : List SourceFile) (answers : List (Bool × Bool)) (σ₁ σ₂ : Session),
      rest.map c.orphansOf = after.map c.orphansOf ∧ (∀ g ∈ rest, g ∈ fs.files) ∧
      Deletes (fun _ => True) σ.tree σ₁.tree ∧ (∀ o ∈ f.outputs, σ₁.tree.has o = true) ∧
      (rest.mapM (examine c s)).runOn σ₁ = (.ok answers, σ₂) ∧ σ'.tree = σ₂.tree := by
  obtain ⟨removed, examined, σ₀, σ₃, hremoved, hexamined, htree, -, rfl, -⟩ := diff_phases h
  have hmem : (marked fs graph fun i => (examined[i]?.map (·.2)).getD false).files[before.length]?
      = some f := by
    rw [hfiles]
    simp
  have hi : before.length < fs.files.length := by
    have := (List.getElem?_eq_some_iff.1 hmem).1
    simpa [marked, FileSet.size] using this
  have hf := Option.some.inj ((getElem?_marked fs graph _ ⟨before.length, hi⟩).symm.trans hmem)
  have houtputs : f.outputs = (fs.files[before.length]).outputs := by
    rw [← hf]
    rfl
  have hunstale : (examined[before.length]?.map (·.2)).getD false = false := by
    rw [← hf] at hkept
    exact (Bool.or_eq_false_iff.1 hkept).1
  have hsplit : fs.files = fs.files.take before.length ++
      fs.files[before.length] :: fs.files.drop (before.length + 1) := by
    rw [List.getElem_cons_drop, List.take_append_drop]
  rw [hsplit] at hexamined
  obtain ⟨xs, x, ys, σ₁, σ₂, rfl, hlength, hfront, hat, hrest⟩ := runOn_mapM_around hexamined
  obtain ⟨σ₄, -, htree', -, -, hstale⟩ := examine_ok hat
  refine ⟨_, ys, σ₂, σ₃, orphansOf_behind hfiles, fun g hg => List.mem_of_mem_drop hg, ?_, ?_,
    hrest, htree⟩
  · have hfirst : Deletes (fun _ => True) σ.tree σ₀.tree :=
      (deleteRemoved_deletes (S := fun _ => True) fun _ _ _ _ _ => trivial).of_runOn hremoved
    have hexamine : ∀ g, Moves (Deletes fun _ => True) (examine c s g) :=
      fun g => examine_deletes fun _ _ => trivial
    have hnext : Deletes (fun _ => True) σ₀.tree σ₁.tree :=
      (moves_mapM (Deletes.refl _) deletes_trans fun g _ => hexamine g).of_runOn hfront
    exact hfirst.trans (hnext.trans ((hexamine _).of_runOn hat))
  · have hx : x.2 = false := by
      simpa [List.length_take, Nat.min_eq_left hi.le, hlength] using hunstale
    intro o ho
    by_contra hmissing
    rw [htree', Bool.not_eq_true] at hmissing
    rw [houtputs] at ho
    rw [hstale.2 (locallyStale_of_missing ho hmissing)] at hx
    cases hx

/-- **An output of a file that is not compiled is there behind a comparison exactly when it is no
orphan of a file behind.** -/
theorem has_output_iff_no_orphan (h : (c.diff s fs graph).runOn σ = (.ok (changed, fs'), σ'))
    {before after : List SourceFile} (hfiles : fs'.files = before ++ f :: after)
    (hkept : f.shouldCompile = false) (ho : o ∈ f.outputs) :
    σ'.tree.has o = true ↔ ∀ g ∈ after, ∀ p ∈ c.orphansOf g, σ.tree.isFile p = true →
      p.locate σ.tree.here ≠ o.locate σ.tree.here := by
  obtain ⟨rest, answers, σ₁, σ₂, horphans, hrest, hsince, houtputs, hrun, htree⟩ :=
    diff_around h hfiles hkept
  have hclear : (∀ g ∈ after, ∀ p ∈ c.orphansOf g, σ.tree.isFile p = true →
        p.locate σ.tree.here ≠ o.locate σ.tree.here) ↔
      ∀ g ∈ rest, ∀ p ∈ c.orphansOf g, σ.tree.isFile p = true →
        p.locate σ.tree.here ≠ o.locate σ.tree.here := by
    rw [← List.forall_mem_map (f := c.orphansOf) (P := fun row => ∀ p ∈ row,
        σ.tree.isFile p = true → p.locate σ.tree.here ≠ o.locate σ.tree.here),
      ← horphans, List.forall_mem_map]
  rw [hclear]
  constructor
  · intro hhas g hg p hp hfile hsame
    obtain ⟨content, modified, hfind⟩ := isFile_iff.1 hfile
    obtain ⟨-, -, -, -, -, -, hgoal⟩ := goal_of_file hfind
    have hgone := diff_deleted h (.inr ⟨g, hrest g hg, hp⟩) hgoal
    rw [((diff_deletes c s fs graph).of_runOn h).has_eq_false hfile hsame hgone] at hhas
    cases hhas
  · intro hclear
    rw [htree]
    exact mapM_examine_spares hrun hsince hclear (houtputs o ho)

/-- An output of a file that is not compiled is there behind a comparison when the cache lists it for
no other file. -/
theorem has_output_of_unlisted (h : (c.diff s fs graph).runOn σ = (.ok (changed, fs'), σ'))
    (happart : fs'.Apart) (hf : f ∈ fs'.files) (hkept : f.shouldCompile = false)
    (ho : o ∈ f.outputs) (hunlisted : ∀ entry ∈ c.records, entry.1 ≠ f.identity →
      ∀ p ∈ entry.2.outputs, p.locate σ.tree.here ≠ o.locate σ.tree.here) :
    σ'.tree.has o = true := by
  obtain ⟨before, after, hfiles⟩ := List.append_of_mem hf
  refine (has_output_iff_no_orphan h hfiles hkept ho).2 fun g hg p hp _ => ?_
  rw [FileSet.Apart, hfiles, List.pairwise_append] at happart
  have hlater : FileSet.Later f g := List.rel_of_pairwise_cons happart.2.1 hg
  unfold orphansOf at hp
  split at hp
  · cases hp
  · next q hq =>
    exact hunlisted _ (get?_eq_some_iff.1 hq) hlater.1.symm p (List.mem_filter.1 hp).1

/-! ## A permutation that moves between files -/

namespace Moved

open SmallProject

/-- Two sources of one name, in folders of their own, all of one modification time, and the outputs
of two permutations. -/
def tree (first second : String) : FileTree :=
  ((((((bare.put ["s", "a"] .folder).put ["s", "b"] .folder).put ["s", "a", "m.hlsl"]
    (textFile first 1)).put ["s", "b", "m.hlsl"] (textFile second 1)).put ["g"] .folder).put
    ["g", "m_Main_PS.h"] (textFile "" 2)).put ["g", "m_Other_PS.h"] (textFile "" 2)

def main : String := "// ShaderCompiler. Name: Main\n"

def other : String := "// ShaderCompiler. Name: Other\n"

/-- A tree as the cache of an earlier tree finds it: the marked files, and what is left of it. -/
def compared? (earlier t : FileTree) : Option (FileSet × FileTree) :=
  (FileSet.found settings earlier).toOption.bind fun old =>
    (FileSet.found settings t).toOption.bind fun fs =>
      (fs.graph t).toOption.bind fun graph =>
        match ((ofFiles old).diff settings fs graph).runOn { tree := t } with
        | (.ok (_, fs'), σ) => some (fs', σ.tree)
        | (.error _, _) => none

/-- Which files are to be compiled, and whether their outputs are there. -/
def outlook (found : FileSet × FileTree) : List (Bool × List (Path × Bool)) :=
  found.1.files.map fun f => (f.shouldCompile, f.outputs.map fun o => (o, found.2.has o))

theorem outlook_facts :
    (compared? (tree main other) (tree main "")).map outlook =
      some [(false, [(⟨"g/m_Main_PS.h"⟩, true)]), (true, [])] ∧
    (compared? (tree "" main) (tree main "")).map outlook =
      some [(false, [(⟨"g/m_Main_PS.h"⟩, false)]), (true, [])] := by
  decide +kernel

theorem runOn_of_outlook {earlier t : FileTree} {rows : List (Bool × List (Path × Bool))}
    (h : (compared? earlier t).map outlook = some rows) :
    ∃ old fs graph changed fs' σ', FileSet.found settings earlier = .ok old ∧
      FileSet.found settings t = .ok fs ∧ fs.graph t = .ok graph ∧
      ((ofFiles old).diff settings fs graph).runOn { tree := t } = (.ok (changed, fs'), σ') ∧
      outlook (fs', σ'.tree) = rows := by
  obtain ⟨found, h, hrows⟩ := Option.map_eq_some_iff.1 h
  unfold compared? at h
  obtain ⟨old, hold, h⟩ := Option.bind_eq_some_iff.1 h
  obtain ⟨fs, hfs, h⟩ := Option.bind_eq_some_iff.1 h
  obtain ⟨graph, hgraph, h⟩ := Option.bind_eq_some_iff.1 h
  split at h
  · next changed fs' σ' hrun =>
    obtain rfl := Option.some.inj h
    exact ⟨old, fs, graph, changed, fs', σ', ok_of_toOption hold, ok_of_toOption hfs,
      ok_of_toOption hgraph, hrun, hrows⟩
  · cases h

theorem files_of_outlook {found : FileSet × FileTree} {o : Path} {there compiled : Bool}
    (h : outlook found = [(false, [(o, there)]), (compiled, [])]) : ∃ f g,
      found.1.files = [f, g] ∧ f.shouldCompile = false ∧ f.outputs = [o] ∧
        found.2.has o = there := by
  obtain ⟨f, rest, hfiles, hf, h⟩ := List.map_eq_cons_iff.1 h
  obtain ⟨g, rest, rfl, -, h⟩ := List.map_eq_cons_iff.1 h
  obtain rfl := List.map_eq_nil_iff.1 h
  obtain ⟨hkept, houtputs⟩ := Prod.mk.inj hf
  obtain ⟨p, rest, houtputs', hp, h⟩ := List.map_eq_cons_iff.1 houtputs
  obtain rfl := List.map_eq_nil_iff.1 h
  obtain ⟨rfl, hthere⟩ := Prod.mk.inj hp
  exact ⟨f, g, hfiles, hkept, houtputs', hthere⟩

end Moved

/-- The second file has lost a permutation: its output goes, and that of the first file stays. -/
theorem dropped_permutation_spares_output : ∃ old fs graph changed fs' σ',
    FileSet.found SmallProject.settings (Moved.tree Moved.main Moved.other) = .ok old ∧
    FileSet.found SmallProject.settings (Moved.tree Moved.main "") = .ok fs ∧
    fs.graph (Moved.tree Moved.main "") = .ok graph ∧
    ((ofFiles old).diff SmallProject.settings fs graph).runOn
      { tree := Moved.tree Moved.main "" } = (.ok (changed, fs'), σ') ∧
    ∃ f g, fs'.files = [f, g] ∧ f.shouldCompile = false ∧ f.outputs = [⟨"g/m_Main_PS.h"⟩] ∧
      σ'.tree.has ⟨"g/m_Main_PS.h"⟩ = true ∧
      ∀ p ∈ (ofFiles old).orphansOf g, (Moved.tree Moved.main "").isFile p = true →
        p.locate [] ≠ ["g", "m_Main_PS.h"] := by
  obtain ⟨old, fs, graph, changed, fs', σ', hold, hfs, hgraph, hrun, hrows⟩ :=
    Moved.runOn_of_outlook Moved.outlook_facts.1
  obtain ⟨f, g, hfiles, hkept, houtputs, hthere⟩ := Moved.files_of_outlook hrows
  have hclear := (has_output_iff_no_orphan hrun (show fs'.files = [] ++ f :: [g] from hfiles) hkept
    (by rw [houtputs]; exact List.mem_cons_self)).1 hthere
  exact ⟨old, fs, graph, changed, fs', σ', hold, hfs, hgraph, hrun, f, g, hfiles, hkept, houtputs,
    hthere, fun p hp hfile => hclear g List.mem_cons_self p hp hfile⟩

/-- **A permutation has moved from the second file to the first**, and no modification time tells.
The first file is not to be compiled, and its output is deleted with the orphans of the second. -/
theorem moved_permutation_loses_output : ∃ old fs graph changed fs' σ',
    FileSet.found SmallProject.settings (Moved.tree "" Moved.main) = .ok old ∧
    FileSet.found SmallProject.settings (Moved.tree Moved.main "") = .ok fs ∧
    fs.graph (Moved.tree Moved.main "") = .ok graph ∧
    ((ofFiles old).diff SmallProject.settings fs graph).runOn
      { tree := Moved.tree Moved.main "" } = (.ok (changed, fs'), σ') ∧
    ∃ f ∈ fs'.files, f.shouldCompile = false ∧ ∃ o ∈ f.outputs, σ'.tree.has o = false := by
  obtain ⟨old, fs, graph, changed, fs', σ', hold, hfs, hgraph, hrun, hrows⟩ :=
    Moved.runOn_of_outlook Moved.outlook_facts.2
  obtain ⟨f, g, hfiles, hkept, houtputs, hmissing⟩ := Moved.files_of_outlook hrows
  have hf : f ∈ fs'.files := by
    rw [show fs'.files = [f, g] from hfiles]
    exact List.mem_cons_self
  exact ⟨old, fs, graph, changed, fs', σ', hold, hfs, hgraph, hrun, f, hf, hkept, _,
    by rw [houtputs]; exact List.mem_cons_self, hmissing⟩

end BuildCache

end ShaderBuild
