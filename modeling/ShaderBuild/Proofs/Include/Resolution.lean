import ShaderBuild.Proofs.Include.Cycle
import ShaderBuild.Proofs.Include.Line
import ShaderBuild.Proofs.Source.Scan

/-!
# Where includes lead

An include is looked up by the identity of the path it leads to, a checksum, and not by the path
itself. When no included file shares its identity with a file of the set at another path
(`FileSet.Unmistaken`), the edges of a file are the files it includes, each once and in the order of
the first include, and an include of a file outside the set is an error
(`include_edges_point_at_files`). Otherwise the edge leads to the wrong file
(`colliding_include_is_mistaken`).
-/

namespace ShaderBuild

open Include

/-! ## The order of first occurrence -/

namespace Include

variable {n : Nat}

/-- A row comes to the file `j` before it comes to the file `k`. -/
def ComesFirst (row : List (Fin n)) (j k : Fin n) : Prop :=
  ∃ before after, row = before ++ j :: after ∧ k ∉ before ∧ k ≠ j

theorem merge_concat (seen js : List (Fin n)) (j : Fin n) : merge seen (js ++ [j])
    = if j ∈ merge seen js then merge seen js else merge seen js ++ [j] := by
  induction js generalizing seen with
  | nil => rfl
  | cons k js ih =>
    rw [List.cons_append, merge, merge]
    exact ih _

/-- Merging a row keeps each file where it comes first. -/
theorem merge_ordered (row : List (Fin n)) : (merge [] row).Pairwise (ComesFirst row) := by
  induction row using List.reverseRecOn with
  | nil => exact .nil
  | append_singleton row j ih =>
    have hlonger : ∀ {k l}, ComesFirst row k l → ComesFirst (row ++ [j]) k l := by
      rintro k l ⟨before, after, hrow, hl, hne⟩
      exact ⟨before, after ++ [j], by rw [hrow, List.append_assoc]; rfl, hl, hne⟩
    rw [merge_concat]
    split
    · exact ih.imp hlonger
    · next hj =>
      -- the new file is kept because the row has not come to it yet, so all others come first
      refine List.pairwise_append.2 ⟨ih.imp hlonger, List.pairwise_singleton _ _, ?_⟩
      intro k hk l hl
      obtain rfl := List.mem_singleton.1 hl
      have hnew : ∀ m, m ∈ merge [] row ↔ m ∈ row := by simp [mem_merge]
      rw [hnew] at hj hk
      obtain ⟨before, after, rfl⟩ := List.append_of_mem hk
      refine ⟨before, after ++ [l], by rw [List.append_assoc]; rfl, ?_, ?_⟩
      · exact fun hmem => hj (List.mem_append_left _ hmem)
      · rintro rfl
        exact hj (List.mem_append_right _ List.mem_cons_self)

/-- Where the targets of includes come first, so do their lines. -/
theorem exists_line_of_comesFirst {R : Nat × String → Fin n → Prop} {lines : List (Nat × String)}
    {row : List (Fin n)} {j k : Fin n} (hrow : List.Forall₂ R lines row)
    (hlines : lines.Pairwise fun a b => a.1 < b.1) (h : ComesFirst row j k)
    (hone : ∀ x ∈ lines, R x k → ∀ l, R x l → l = k) :
    ∃ x ∈ lines, R x j ∧ ∀ y ∈ lines, R y k → x.1 < y.1 := by
  obtain ⟨before, after, rfl, hk, hne⟩ := h
  -- cut the lines where the row is cut: none of the lines in front leads to `k`
  have hfront := List.forall₂_take_append _ _ _ hrow
  have hback := List.forall₂_drop_append _ _ _ hrow
  obtain ⟨x, rest, hx, hrest, hdrop⟩ := List.forall₂_cons_right_iff.1 hback
  have hsplit := List.take_append_drop before.length lines
  rw [hdrop] at hsplit
  generalize lines.take before.length = front at hfront hsplit
  subst hsplit
  refine ⟨x, List.mem_append_right _ List.mem_cons_self, hx, fun y hy hyk => ?_⟩
  rcases List.mem_append.1 hy with hfy | hby
  · obtain ⟨l, hl, hyl⟩ := exists_right_of_forall₂ hfront hfy
    exact absurd (hone y hy hyk l hyl ▸ hl) hk
  · rcases List.mem_cons.1 hby with rfl | hby
    · exact absurd (hone y hy hyk j hx).symm hne
    · exact (List.pairwise_cons.1 (List.pairwise_append.1 hlines).2.1).1 y hby

end Include

namespace FileSet

variable {fs : FileSet} {tree : FileTree}

/-! ## Sets that come about by insertion -/

/-- A set that files were inserted into, one after the other. -/
inductive Built : FileSet → Prop
  | empty : Built {}
  | insert {fs fs' : FileSet} {s : Settings} {path : Path} {modified : Timestamp}
      {content : List Char} {f : SourceFile} (before : Built fs)
      (read : SourceFile.ofText s path modified content = .ok f) (h : fs.insert f = .ok fs') :
      Built fs'

theorem Built.apart (h : fs.Built) : fs.Apart := by
  induction h with
  | empty => exact apart_empty
  | insert _ _ h ih => exact apart_insert ih h

theorem Built.identity_eq (h : fs.Built) : ∀ f ∈ fs.files, f.identity = f.path.identity := by
  induction h with
  | empty => exact fun _ hf => absurd hf List.not_mem_nil
  | insert _ read h ih =>
    obtain ⟨-, rfl⟩ := insert_ok_iff.1 h
    obtain ⟨ds, -, hf⟩ := SourceFile.ofText_ok read
    intro g hg
    rcases List.mem_append.1 hg with hg | hg
    · exact ih g hg
    · rw [List.mem_singleton.1 hg, hf]

/-- Files that are apart can be inserted one after the other. -/
theorem built_of_apart {files : List SourceFile} (apart : Apart ⟨files⟩)
    (h : ∀ f ∈ files, ∃ s path, SourceFile.ofText s path f.modified f.content = .ok f) :
    Built ⟨files⟩ := by
  induction files using List.reverseRecOn with
  | nil => exact .empty
  | append_singleton files f ih =>
    obtain ⟨hfiles, -, hlater⟩ := List.pairwise_append.1 apart
    obtain ⟨s, path, hf⟩ := h f (List.mem_append_right _ List.mem_cons_self)
    refine .insert (ih hfiles fun g hg => h g (List.mem_append_left _ hg)) hf ?_
    exact insert_ok_iff.2 ⟨fun g hg => later_symm (hlater g hg f List.mem_cons_self), rfl⟩

/-- A scan builds its set by insertion. -/
theorem built_of_scan {s : Settings} (h : (scan s).answer tree = .ok fs) : fs.Built := by
  obtain ⟨paths, -, hall, apart⟩ := scan_ok h
  refine built_of_apart apart fun f hf => ?_
  obtain ⟨path, -, hread⟩ := exists_left_of_forall₂ hall hf
  exact ⟨s, path, hread.ofText⟩

/-! ## Includes and files -/

/-- A file of a set includes another one in a line: the path in quotes, taken from the folder of the
including file and brought to normal form, is the path of the other. -/
def IncludesAt (fs : FileSet) (i j : Fin fs.size) (n : Nat) : Prop :=
  ∃ text, IncludedAt (fs.get i).content n text ∧ (fs.get j).path = resolve (fs.get i).path text

/-- No included file that exists shares its identity with a file of the set at another path. -/
def Unmistaken (fs : FileSet) (tree : FileTree) : Prop :=
  ∀ i n text, IncludedAt (fs.get i).content n text →
    tree.isFile (resolve (fs.get i).path text) = true →
    ∀ j, (fs.get j).identity = (resolve (fs.get i).path text).identity →
      (fs.get j).path = resolve (fs.get i).path text

instance (fs : FileSet) (tree : FileTree) : Decidable (fs.Unmistaken tree) :=
  decidable_of_iff (∀ i, ∀ x ∈ ofText (fs.get i).content,
    tree.isFile (resolve (fs.get i).path x.2) = true →
      ∀ j, (fs.get j).identity = (resolve (fs.get i).path x.2).identity →
        (fs.get j).path = resolve (fs.get i).path x.2) <| by
    simp only [Unmistaken, Prod.forall, mem_ofText_iff]

/-- What exists and has the identity of a file of the set is taken for that file. -/
theorem target_of_identity (apart : fs.Apart) {path : Path} {n : Nat} {text : String}
    (hfile : tree.isFile (resolve path text) = true) {j : Fin fs.size}
    (hj : (fs.get j).identity = (resolve path text).identity) :
    Include.target tree fs path n text = .ok j := by
  unfold Include.target
  simp only [hfile, if_true]
  cases hindex : fs.index? (resolve path text).identity with
  | none => exact absurd hj (index?_eq_none_iff.1 hindex _ (get_mem j))
  | some k =>
    have hsame := apart.eq_of_identity (get_mem k) (get_mem j)
      ((index?_eq_some hindex).trans hj.symm)
    rw [apart.get_injective hsame]

/-- What exists and has the identity of no file of the set is an error. -/
theorem target_of_no_identity {path : Path} {n : Nat} {text : String}
    (hfile : tree.isFile (resolve path text) = true)
    (h : ∀ j, (fs.get j).identity ≠ (resolve path text).identity) :
    Include.target tree fs path n text
      = .error (.includeNotScanned (resolve path text) path n) := by
  unfold Include.target
  simp only [hfile, if_true]
  cases hindex : fs.index? (resolve path text).identity with
  | none => rfl
  | some k => exact absurd (index?_eq_some hindex) (h k)

/-- An include is unmistaken when it leads to nothing but the file at its path. -/
theorem unmistaken_iff (apart : fs.Apart) : fs.Unmistaken tree ↔
    ∀ i n text, IncludedAt (fs.get i).content n text →
      ∀ j, Include.target tree fs (fs.get i).path n text = .ok j →
        (fs.get j).path = resolve (fs.get i).path text := by
  constructor
  · intro h i n text hline j hj
    obtain ⟨hfile, hidentity⟩ := target_ok hj
    exact h i n text hline hfile j hidentity
  · intro h i n text hline hfile j hidentity
    exact h i n text hline j (target_of_identity apart hfile hidentity)

/-! ## The edges of a graph -/

/-- The edges of a file are the targets of its includes, merged. -/
theorem direct_eq_merge {graph : IncludeGraph fs.size} (h : fs.graph tree = .ok graph)
    (i : Fin fs.size) : ∃ targets, graph.direct i = merge [] targets ∧
      List.Forall₂ (fun (x : Nat × String) j =>
        Include.target tree fs (fs.get i).path x.1 x.2 = .ok j)
        (ofText (fs.get i).content) targets := by
  obtain ⟨hdirect, -⟩ := graph_ok h
  have hi := hdirect i
  unfold Include.direct at hi
  cases htargets : (ofText (fs.get i).content).mapM
      fun line => Include.target tree fs (fs.get i).path line.1 line.2 with
  | error e =>
    rw [htargets] at hi
    cases hi
  | ok targets =>
    rw [htargets] at hi
    exact ⟨targets, (Except.ok.inj hi).symm, mapM_ok_iff.1 htargets⟩

section

variable {graph : IncludeGraph fs.size}

theorem nodup_direct (h : fs.graph tree = .ok graph) (i : Fin fs.size) :
    (graph.direct i).Nodup := by
  obtain ⟨targets, hdirect, -⟩ := direct_eq_merge h i
  rw [hdirect]
  exact (merge_ordered targets).imp fun ⟨_, _, _, _, hne⟩ => hne.symm

/-- Every file that a file includes is one of its edges. -/
theorem mem_direct_of_includesAt (built : fs.Built) (h : fs.graph tree = .ok graph)
    {i j : Fin fs.size} {n : Nat} (hij : fs.IncludesAt i j n) : j ∈ graph.direct i := by
  obtain ⟨text, hline, hpath⟩ := hij
  obtain ⟨k, hk, hidentity, -⟩ := exists_edge_of_include h (mem_ofText_iff.2 hline)
  have hsame : fs.get k = fs.get j := built.apart.eq_of_identity (get_mem k) (get_mem j) (by
    rw [hidentity, built.identity_eq _ (get_mem j), hpath])
  rwa [← built.apart.get_injective hsame]

/-- Without mistakes, the edges of a file are the files that it includes, in order. -/
theorem direct_of_unmistaken (built : fs.Built) (h : fs.graph tree = .ok graph)
    (unmistaken : fs.Unmistaken tree) (i : Fin fs.size) :
    (∀ j, j ∈ graph.direct i ↔ ∃ n, fs.IncludesAt i j n) ∧
      (graph.direct i).Pairwise fun j k =>
        ∃ n, fs.IncludesAt i j n ∧ ∀ m, fs.IncludesAt i k m → n < m := by
  have hpath := (unmistaken_iff built.apart).1 unmistaken i
  obtain ⟨targets, hdirect, htargets⟩ := direct_eq_merge h i
  constructor
  · refine fun j => ⟨fun hj => ?_, fun ⟨n, hij⟩ => mem_direct_of_includesAt built h hij⟩
    rw [hdirect, mem_merge, or_iff_right List.not_mem_nil] at hj
    obtain ⟨⟨n, text⟩, hline, hok⟩ := exists_left_of_forall₂ htargets hj
    exact ⟨n, text, mem_ofText_iff.1 hline, hpath n text (mem_ofText_iff.1 hline) j hok⟩
  · rw [hdirect]
    refine (merge_ordered targets).imp fun {j k} hjk => ?_
    obtain ⟨⟨n, text⟩, hline, hok, hfirst⟩ := exists_line_of_comesFirst htargets
      (ofText_ascending _) hjk fun x _ hxk l hxl => Except.ok.inj (hxl.symm.trans hxk)
    refine ⟨n, ⟨text, mem_ofText_iff.1 hline, hpath n text (mem_ofText_iff.1 hline) j hok⟩, ?_⟩
    rintro m ⟨text', hline', hpath'⟩
    have hmem := mem_ofText_iff.2 hline'
    obtain ⟨l, -, hl⟩ := exists_right_of_forall₂ htargets hmem
    have hsame : fs.get l = fs.get k := built.apart.eq_of_identity (get_mem l) (get_mem k) (by
      rw [(target_ok hl).2, built.identity_eq _ (get_mem k), hpath'])
    rw [built.apart.get_injective hsame] at hl
    exact hfirst ⟨m, text'⟩ hmem hl

end

/-! ## Includes of files outside the set -/

/-- A graph is not made when an include leads to no file of the set, and the first such include is
the one that the error is about. -/
theorem graph_of_error {i : Fin fs.size} {n : Nat} {text : String} {e : Error}
    (hline : IncludedAt (fs.get i).content n text)
    (herror : Include.target tree fs (fs.get i).path n text = .error e) :
    (∀ graph, fs.graph tree ≠ .ok graph) ∧
    ((∀ i' m text', IncludedAt (fs.get i').content m text' → (i' < i ∨ i' = i ∧ m < n) →
      ∃ j, Include.target tree fs (fs.get i').path m text' = .ok j) →
        fs.graph tree = .error e) := by
  have hmem := mem_ofText_iff.2 hline
  refine ⟨fun graph hgraph => ?_, fun hbefore => ?_⟩
  · obtain ⟨targets, -, htargets⟩ := direct_eq_merge hgraph i
    obtain ⟨j, -, hj⟩ := exists_right_of_forall₂ htargets hmem
    rw [herror] at hj
    cases hj
  · have hearlier : ∀ j < i,
        ∃ js, Include.direct tree fs ((Vector.ofFn fs.get).get j) = .ok js := by
      intro j hj
      rw [get_ofFn]
      obtain ⟨targets, -, hdirect⟩ := exists_direct_of_target (f := fs.get j) fun m text' hm =>
        hbefore j m text' (mem_ofText_iff.1 hm) (.inl hj)
      exact ⟨_, hdirect⟩
    have hdirect : Include.direct tree fs ((Vector.ofFn fs.get).get i) = .error e := by
      rw [get_ofFn]
      obtain ⟨front, back, hsplit⟩ := List.append_of_mem hmem
      have hlines := ofText_ascending (fs.get i).content
      rw [hsplit] at hlines
      have hfront : ∀ x ∈ front, ∃ j,
          Include.target tree fs (fs.get i).path x.1 x.2 = .ok j := by
        intro x hx
        have hlt := (List.pairwise_append.1 hlines).2.2 x hx _ List.mem_cons_self
        refine hbefore i x.1 x.2 (mem_ofText_iff.1 ?_) (.inr ⟨rfl, hlt⟩)
        rw [hsplit]
        exact List.mem_append_left _ hx
      unfold Include.direct
      rw [hsplit, mapM_append_error (a := (n, text)) hfront herror]
      rfl
    -- files are resolved in order and the first error ends it, so the lines behind do not matter
    unfold graph
    rw [vector_mapM_error hearlier hdirect]
    rfl

/-- **Edges point at the included files, as long as no identity is shared.** Every file that a file
includes is one of its edges, and no edge occurs twice. When no included file that exists shares its
identity with a file of the set at another path, which is to say that includes lead to nothing but
the file at their path, the edges are just these files, in the order of their first lines. An
include of an existing file outside the set is then an error, and the error about it is what the
graph answers when all includes before it lead to files of the set. -/
theorem include_edges_point_at_files (built : fs.Built) (tree : FileTree) :
    (∀ graph, fs.graph tree = .ok graph → ∀ i, (graph.direct i).Nodup ∧
      ∀ j n, fs.IncludesAt i j n → j ∈ graph.direct i) ∧
    (fs.Unmistaken tree ↔ ∀ i n text, IncludedAt (fs.get i).content n text →
      ∀ j, Include.target tree fs (fs.get i).path n text = .ok j →
        (fs.get j).path = resolve (fs.get i).path text) ∧
    (fs.Unmistaken tree →
      (∀ graph, fs.graph tree = .ok graph → ∀ i,
        (∀ j, j ∈ graph.direct i ↔ ∃ n, fs.IncludesAt i j n) ∧
        (graph.direct i).Pairwise fun j k =>
          ∃ n, fs.IncludesAt i j n ∧ ∀ m, fs.IncludesAt i k m → n < m) ∧
      ∀ i n text, IncludedAt (fs.get i).content n text →
        tree.isFile (resolve (fs.get i).path text) = true →
        (∀ f ∈ fs.files, f.path ≠ resolve (fs.get i).path text) →
        Include.target tree fs (fs.get i).path n text
          = .error (.includeNotScanned (resolve (fs.get i).path text) (fs.get i).path n) ∧
        (∀ graph, fs.graph tree ≠ .ok graph) ∧
        ((∀ i' m text', IncludedAt (fs.get i').content m text' → (i' < i ∨ i' = i ∧ m < n) →
          tree.isFile (resolve (fs.get i').path text') = true ∧
            ∃ f ∈ fs.files, f.path = resolve (fs.get i').path text') →
          fs.graph tree = .error
            (.includeNotScanned (resolve (fs.get i).path text) (fs.get i).path n))) := by
  refine ⟨fun graph hgraph i => ⟨nodup_direct hgraph i, fun j n hij =>
      mem_direct_of_includesAt built hgraph hij⟩, unmistaken_iff built.apart,
    fun unmistaken => ⟨fun graph hgraph i => direct_of_unmistaken built hgraph unmistaken i, ?_⟩⟩
  intro i n text hline hfile houtside
  have herror : Include.target tree fs (fs.get i).path n text = _ :=
    target_of_no_identity hfile fun j hj =>
      houtside _ (get_mem j) (unmistaken i n text hline hfile j hj)
  obtain ⟨hnone, hfirst⟩ := graph_of_error hline herror
  refine ⟨herror, hnone, fun hbefore => hfirst fun i' m text' hline' hlt => ?_⟩
  obtain ⟨hfile', f, hf, hpath⟩ := hbefore i' m text' hline' hlt
  obtain ⟨j, rfl⟩ := List.get_of_mem hf
  exact ⟨j, target_of_identity built.apart hfile' (by
    rw [← hpath]
    exact built.identity_eq _ (get_mem j))⟩

end FileSet

/-! ## Small sets -/

namespace SmallSet

/-- A small set can be built by insertion. -/
theorem built_files {sources : List (String × String)} (apart : (files sources).Apart)
    (h : ∀ f ∈ (files sources).files, (SourceFile.ofText (Settings.defaults ⟨""⟩ 1) f.path
      f.modified f.content).toOption = some f) : (files sources).Built :=
  FileSet.built_of_apart apart fun f hf => ⟨_, _, ok_of_toOption (h f hf)⟩

/-- The second file that is included is there, but does not belong to the set. -/
def partly : List (String × String) := [("a", "#include \"b\"\n#include \"c\"\n"), ("b", "")]

/-- The first of these files. -/
def including : Fin (files partly).size := ⟨0, by decide⟩

/-- A tree with the three files. -/
def whole : FileTree := tree (partly ++ [("c", "")])

theorem partly_facts : (files partly).Apart ∧
    (∀ f ∈ (files partly).files, (SourceFile.ofText (Settings.defaults ⟨""⟩ 1) f.path
      f.modified f.content).toOption = some f) ∧
    (files partly).Unmistaken whole ∧
    (2, "c") ∈ ofText ((files partly).get including).content ∧
    whole.isFile (resolve ((files partly).get including).path "c") = true ∧
    (∀ f ∈ (files partly).files, f.path ≠ resolve ((files partly).get including).path "c") ∧
    ∀ i, ∀ x ∈ ofText ((files partly).get i).content, (i < including ∨ i = including ∧ x.1 < 2) →
      whole.isFile (resolve ((files partly).get i).path x.2) = true ∧
        ∃ f ∈ (files partly).files, f.path = resolve ((files partly).get i).path x.2 := by
  decide +kernel

theorem diamond_facts : (files diamond).Apart ∧
    (∀ f ∈ (files diamond).files, (SourceFile.ofText (Settings.defaults ⟨""⟩ 1) f.path
      f.modified f.content).toOption = some f) ∧
    (files diamond).Unmistaken (tree diamond) := by
  decide +kernel

end SmallSet

theorem small_sets_resolved :
    (∃ graph, (SmallSet.files SmallSet.diamond).graph (SmallSet.tree SmallSet.diamond) = .ok graph ∧
      ∀ j, j ∈ graph.direct SmallSet.top ↔
        ∃ n, (SmallSet.files SmallSet.diamond).IncludesAt SmallSet.top j n) ∧
    (SmallSet.files SmallSet.partly).graph SmallSet.whole
      = .error (.includeNotScanned ⟨"c"⟩ ⟨"a"⟩ 2) := by
  obtain ⟨apart, hread, unmistaken⟩ := SmallSet.diamond_facts
  obtain ⟨apart', hread', unmistaken', hline, hfile, houtside, hbefore⟩ := SmallSet.partly_facts
  obtain ⟨graph, hgraph, -⟩ := Option.map_eq_some_iff.1 SmallSet.closure_top
  obtain ⟨-, -, hdiamond⟩ := FileSet.include_edges_point_at_files
    (SmallSet.built_files apart hread) (SmallSet.tree SmallSet.diamond)
  obtain ⟨-, -, hpartly⟩ := FileSet.include_edges_point_at_files
    (SmallSet.built_files apart' hread') SmallSet.whole
  refine ⟨⟨graph, ok_of_toOption hgraph, ?_⟩, ?_⟩
  · exact ((hdiamond unmistaken).1 graph (ok_of_toOption hgraph) SmallSet.top).1
  · obtain ⟨-, -, herror⟩ := (hpartly unmistaken').2 SmallSet.including 2 "c"
      (mem_ofText_iff.1 hline) hfile houtside
    exact herror fun i m text hm hlt => hbefore i (m, text) (mem_ofText_iff.2 hm) hlt

/-! ## A shared identity -/

namespace SmallSet

/-- The first file includes one that has the identity of the second file. -/
def colliding : List (String × String) :=
  [("s/a.hlsl", "#include \"jj.h\"\n"), ("s/udub.hlsl", "")]

/-- The first of these files. -/
def mistaken : Fin (files colliding).size := ⟨0, by decide⟩

/-- The second of these files. -/
def struck : Fin (files colliding).size := ⟨1, by decide⟩

/-- A tree with these files and the one that is included. -/
def collidingTree : FileTree :=
  (colliding ++ [("s/jj.h", "")]).foldl (fun t (name, text) =>
      t.put ((Path.mk name).locate []) (.file (Text.encode text.toList) ⟨1, 0⟩))
    ((FileTree.empty [] ⟨0, 0⟩).put ["s"] .folder)

theorem colliding_facts : (files colliding).Apart ∧
    (∀ f ∈ (files colliding).files, (SourceFile.ofText (Settings.defaults ⟨""⟩ 1) f.path
      f.modified f.content).toOption = some f) ∧
    (1, "jj.h") ∈ ofText ((files colliding).get mistaken).content ∧
    resolve ((files colliding).get mistaken).path "jj.h" = ⟨"s/jj.h"⟩ ∧
    collidingTree.isFile ⟨"s/jj.h"⟩ = true ∧
    (∀ f ∈ (files colliding).files, f.path ≠ ⟨"s/jj.h"⟩) ∧
    ((files colliding).graph collidingTree).toOption.map (fun graph => graph.direct mistaken)
      = some [struck] ∧
    ∀ x ∈ ofText ((files colliding).get mistaken).content, ((files colliding).get struck).path ≠
      resolve ((files colliding).get mistaken).path x.2 := by
  decide +kernel

end SmallSet

/-- An include of a file that exists and is not in the set gets an edge to a file of the set at
another path, whose identity is the same. -/
theorem colliding_include_is_mistaken :
    (SmallSet.files SmallSet.colliding).Built ∧
    IncludedAt ((SmallSet.files SmallSet.colliding).get SmallSet.mistaken).content 1 "jj.h" ∧
    resolve ((SmallSet.files SmallSet.colliding).get SmallSet.mistaken).path "jj.h"
      = ⟨"s/jj.h"⟩ ∧
    SmallSet.collidingTree.isFile ⟨"s/jj.h"⟩ = true ∧
    (∀ f ∈ (SmallSet.files SmallSet.colliding).files, f.path ≠ ⟨"s/jj.h"⟩) ∧
    ∃ graph, (SmallSet.files SmallSet.colliding).graph SmallSet.collidingTree = .ok graph ∧
      graph.direct SmallSet.mistaken = [SmallSet.struck] ∧
      ¬∃ n, (SmallSet.files SmallSet.colliding).IncludesAt SmallSet.mistaken SmallSet.struck n := by
  obtain ⟨apart, hread, hline, hpath, hfile, houtside, hgraph, hnone⟩ := SmallSet.colliding_facts
  obtain ⟨graph, hok, hdirect⟩ := Option.map_eq_some_iff.1 hgraph
  refine ⟨SmallSet.built_files apart hread, mem_ofText_iff.1 hline, hpath, hfile, houtside, graph,
    ok_of_toOption hok, hdirect, ?_⟩
  rintro ⟨n, text, hincluded, hstruck⟩
  exact hnone (n, text) (mem_ofText_iff.2 hincluded) hstruck

end ShaderBuild
