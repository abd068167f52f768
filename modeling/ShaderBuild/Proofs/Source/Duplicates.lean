import Mathlib.Data.List.Perm.Basic
import Mathlib.Data.List.Sort
import ShaderBuild.Proofs.Answers
import ShaderBuild.Proofs.Text.ByteOrder
import ShaderBuild.Source.Set

/-!
# Structs that share a name

A name is shared when two structs that are turned into engine code bear it (`SharedName`). Just
these names are reported (`mem_duplicates_iff`), each once and in increasing order
(`duplicates_sorted`). The order of the structs makes no difference (`duplicates_perm`), and so the
order of the files makes none (`Declares.exists_perm`).

Main statement: `structs_report_shared_names`.
-/

namespace ShaderBuild

namespace Hlsl

variable {ss ss' : List Struct} {name : String}

/-- Two of the structs that are turned into engine code bear a name. -/
def SharedName (ss : List Struct) (name : String) : Prop :=
  ∃ a b, [a, b].Sublist ss ∧ a.role ≠ .vertexOutput ∧ b.role ≠ .vertexOutput ∧
    a.name = name ∧ b.name = name

/-- Two exported structs bear a name when it occurs twice among their names. -/
theorem sharedName_iff : SharedName ss name ↔ 2 ≤ (exportedNames ss).count name := by
  rw [← List.replicate_sublist_iff, exportedNames, List.sublist_map_iff]
  constructor
  · rintro ⟨a, b, hsublist, ha, hb, rfl, hname⟩
    refine ⟨[a, b], ?_, by simp [hname]⟩
    have hfilter := hsublist.filter (·.role ≠ .vertexOutput)
    rwa [List.filter_cons_of_pos (by simpa using ha), List.filter_cons_of_pos (by simpa using hb),
      List.filter_nil] at hfilter
  · rintro ⟨pair, hsublist, hnames⟩
    obtain ⟨a, b, rfl⟩ : ∃ a b, pair = [a, b] := by
      rw [← List.length_eq_two, ← List.length_map, ← hnames, List.length_replicate]
    have hexported : ∀ s ∈ [a, b], s.role ≠ .vertexOutput := fun s hs => by
      simpa using (List.mem_filter.mp (hsublist.subset hs)).2
    obtain ⟨ha, hb⟩ : name = a.name ∧ name = b.name := by simpa using hnames
    exact ⟨a, b, hsublist.trans List.filter_sublist, hexported a (by simp), hexported b (by simp),
      ha.symm, hb.symm⟩

/-- **The shared names are reported**, and no others. -/
theorem mem_duplicates_iff : name ∈ duplicates ss ↔ SharedName ss name := by
  rw [sharedName_iff, duplicates, mem_sortBy, List.mem_filter, List.mem_eraseDups,
    decide_eq_true_iff]
  exact and_iff_right_of_imp fun hcount => List.count_pos_iff.mp (Nat.lt_of_succ_lt hcount)

theorem nodup_eraseDups (names : List String) : names.eraseDups.Nodup := by
  induction h : names.length using Nat.strongRecOn generalizing names with
  | ind n ih =>
    cases names with
    | nil => exact List.nodup_nil
    | cons m names =>
      rw [List.eraseDups_cons, List.nodup_cons, List.mem_eraseDups]
      refine ⟨by simp, ih _ ?_ _ rfl⟩
      rw [← h, List.length_cons]
      exact Nat.lt_succ_of_le (List.length_filter_le _ _)

/-- **Each name is reported once**, in increasing order. -/
theorem duplicates_sorted : (duplicates ss).Pairwise (· < ·) := by
  have hle : (duplicates ss).Pairwise fun a b => decide (a ≤ b) = true :=
    pairwise_sortBy (fun a b c => by simpa using String.le_trans)
      (fun a b => by simpa using String.le_total a b)
  have hnodup : (duplicates ss).Nodup :=
    perm_sortBy.nodup_iff.mpr ((nodup_eraseDups _).filter _)
  refine (List.Pairwise.and hle hnodup).imp fun {a b} hab => ?_
  by_contra hlt
  exact hab.2 (String.le_antisymm (by simpa using hab.1) (String.not_lt.mp hlt))

/-- Structs in another order share the same names. -/
theorem duplicates_perm (h : ss.Perm ss') : duplicates ss = duplicates ss' := by
  refine duplicates_sorted.eq_of_mem_iff duplicates_sorted fun name => ?_
  have hnames : (exportedNames ss).Perm (exportedNames ss') := (h.filter _).map _
  rw [mem_duplicates_iff, mem_duplicates_iff, sharedName_iff, sharedName_iff, hnames.count_eq]

/-- The names are checked by their duplicates. -/
theorem checkNames_eq (ss : List Struct) : checkNames ss =
    if duplicates ss = [] then .ok () else .error (.duplicateStructs (duplicates ss)) := by
  unfold checkNames
  cases duplicates ss <;> rfl

end Hlsl

namespace FileSet

open Hlsl

variable {fs fs' : FileSet} {declared declared' : List (List Struct)}

/-- Which structs the files of a set declare. -/
def Declares (fs : FileSet) (declared : List (List Struct)) : Prop :=
  List.Forall₂ (fun f ss => Hlsl.structs f.path f.content = .ok ss) fs.files declared

/-- The structs of the files are those declared, when no two share a name. -/
theorem Declares.structs_eq (h : fs.Declares declared) : fs.structs =
    if duplicates declared.flatten = [] then .ok declared.flatten
    else .error (.duplicateStructs (duplicates declared.flatten)) := by
  rw [structs, mapM_ok_iff.mpr h]
  change (checkNames declared.flatten >>= fun _ => .ok declared.flatten) = _
  rw [checkNames_eq]
  split <;> rfl

theorem Declares.structs_eq_ok_iff (h : fs.Declares declared) :
    fs.structs = .ok declared.flatten ↔ ∀ name, ¬ SharedName declared.flatten name := by
  have hnone : duplicates declared.flatten = [] ↔ ∀ name, ¬ SharedName declared.flatten name :=
    List.eq_nil_iff_forall_not_mem.trans (forall_congr' fun _ => not_congr mem_duplicates_iff)
  rw [h.structs_eq, ← hnone]
  split <;> simp_all

/-- Files in another order declare the same structs in another order. -/
theorem Declares.exists_perm (h : fs.Declares declared) (hperm : fs'.files.Perm fs.files) :
    ∃ declared', fs'.Declares declared' ∧ declared'.flatten.Perm declared.flatten := by
  obtain ⟨declared', hdeclared', hsame⟩ := List.perm_comp_forall₂ hperm h
  exact ⟨declared', hdeclared', hsame.flatten⟩

/-- **Shared names are reported exactly**, whatever the order of the files. Files that can all be
read for structs answer with these, in the order of the files and of declaration, just when no name
is shared. Else the answer is the shared names, each once and in the order of their bytes. -/
theorem structs_report_shared_names
    (hreflect : ∀ f ∈ fs.files, ∃ ss, Hlsl.structs f.path f.content = .ok ss) :
    ∃ declared, fs.Declares declared ∧
      (fs.structs = .ok declared.flatten ↔ ∀ name, ¬ SharedName declared.flatten name) ∧
      ((∃ name, SharedName declared.flatten name) → ∃ names,
        fs.structs = .error (.duplicateStructs names) ∧
        (∀ name, name ∈ names ↔ SharedName declared.flatten name) ∧
        names.Pairwise fun m n => Text.encode m.toList < Text.encode n.toList) ∧
      ∀ fs' : FileSet, fs'.files.Perm fs.files →
        ∀ e, fs'.structs = .error e ↔ fs.structs = .error e := by
  obtain ⟨declared, hmap⟩ := exists_mapM_ok hreflect
  have hdeclared : fs.Declares declared := mapM_ok_iff.mp hmap
  refine ⟨declared, hdeclared, hdeclared.structs_eq_ok_iff, fun hshared => ?_,
    fun fs' hperm e => ?_⟩
  · obtain ⟨name, hname⟩ := hshared
    have hsome : duplicates declared.flatten ≠ [] :=
      List.ne_nil_of_mem (mem_duplicates_iff.mpr hname)
    refine ⟨duplicates declared.flatten, by rw [hdeclared.structs_eq, if_neg hsome],
      fun name => mem_duplicates_iff, duplicates_sorted.imp fun hlt => ?_⟩
    exact Text.encode_lt_encode (String.lt_iff.mp hlt)
  · obtain ⟨declared', hdeclared', hsame⟩ := hdeclared.exists_perm hperm
    rw [hdeclared'.structs_eq, hdeclared.structs_eq, duplicates_perm hsame]
    split <;> simp

/-! ## A struct in two files -/

namespace TwoLights

/-- A file with a text. -/
def file (path text : String) : SourceFile where
  identity := 0
  path := ⟨path⟩
  modified := ⟨0, 0⟩
  content := text.toList
  permutations := []

/-- A struct in a file where the name of another struct is a vertex output. -/
def lights : SourceFile :=
  file "a.hlsl" "struct Light \x7b float a; \x7d; struct Vertex \x7b float4 p : SV_Position; \x7d;"

/-- A file with both names again. -/
def more : SourceFile :=
  file "b.hlsl" "struct Vertex \x7b float4 p : Color; \x7d; struct Light \x7b float b; \x7d;"

end TwoLights

open TwoLights in
/-- Of two names in two files each, the one that only one exported struct bears is not reported. -/
theorem two_lights_reported :
    (⟨[lights, more]⟩ : FileSet).structs = .error (.duplicateStructs ["Light"]) ∧
    (⟨[more, lights]⟩ : FileSet).structs = .error (.duplicateStructs ["Light"]) ∧
    ∃ declared, (⟨[lights, more]⟩ : FileSet).Declares declared ∧
      ∀ name, SharedName declared.flatten name ↔ name = "Light" := by
  have hread : ∀ f ∈ (⟨[lights, more]⟩ : FileSet).files,
      (Hlsl.structs f.path f.content).toOption.isSome := by
    decide +kernel
  have herror : (⟨[lights, more]⟩ : FileSet).structs = .error (.duplicateStructs ["Light"]) := by
    decide +kernel
  obtain ⟨declared, hdeclared, hok, hshared, hperm⟩ := structs_report_shared_names fun f hf =>
    (Option.isSome_iff_exists.mp (hread f hf)).imp fun _ => ok_of_toOption
  refine ⟨herror, (hperm ⟨[more, lights]⟩ (.swap ..) _).mpr herror, declared, hdeclared, ?_⟩
  have hsome : ∃ name, SharedName declared.flatten name := by
    by_contra hnone
    have hfine := hok.mpr (not_exists.mp hnone)
    rw [herror] at hfine
    cases hfine
  obtain ⟨names, hnames, hmem, -⟩ := hshared hsome
  cases herror.symm.trans hnames
  exact fun name => (hmem name).symm.trans List.mem_singleton

end FileSet

end ShaderBuild
