import ShaderBuild.FileTree.Access

/-!
# Where paths lead

There are no links, so where a path leads follows from its text and the folder it starts from:
`locate` takes one segment after the other, whether or not anything is there. A path that can be
followed in a tree leads to that location (`FileTree.goal_location`), an entry of a folder lies
below the folder (`locate_child`), and the normal form of a path leads where the path leads
(`locate_normalize`).
-/

namespace ShaderBuild

namespace Path

/-! ## Segments -/

theorem splitSlash_ne_nil (s : List Char) : splitSlash s ≠ [] := by
  cases s with
  | nil => simp [splitSlash]
  | cons c s =>
    rw [splitSlash]
    split
    · simp
    · split <;> simp

theorem splitSlash_append_slash (a b : List Char) :
    splitSlash (a ++ '/' :: b) = splitSlash a ++ splitSlash b := by
  induction a with
  | nil => simp [splitSlash]
  | cons c a ih =>
    rw [List.cons_append, splitSlash, splitSlash, ih]
    by_cases hc : c = '/'
    · rw [if_pos hc, if_pos hc, List.cons_append]
    · rw [if_neg hc, if_neg hc]
      cases ha : splitSlash a with
      | nil => exact absurd ha (splitSlash_ne_nil a)
      | cons x xs => rfl

theorem splitSlash_of_not_mem {s : List Char} (h : '/' ∉ s) : splitSlash s = [s] := by
  induction s with
  | nil => rfl
  | cons c s ih =>
    rw [List.mem_cons, not_or] at h
    rw [splitSlash, if_neg (Ne.symm h.1), ih h.2]

/-- A segment holds no slash. -/
theorem not_mem_of_mem_splitSlash {s x : List Char} (h : x ∈ splitSlash s) : '/' ∉ x := by
  induction s generalizing x with
  | nil =>
    rw [splitSlash, List.mem_singleton] at h
    simp [h]
  | cons c s ih =>
    rw [splitSlash] at h
    by_cases hc : c = '/'
    · rw [if_pos hc, List.mem_cons] at h
      rcases h with rfl | h
      · simp
      · exact ih h
    · rw [if_neg hc] at h
      cases hs : splitSlash s with
      | nil => exact absurd hs (splitSlash_ne_nil s)
      | cons y ys =>
        rw [hs] at h ih
        rcases List.mem_cons.1 h with rfl | h
        · simpa [Ne.symm hc] using ih List.mem_cons_self
        · exact ih (List.mem_cons_of_mem _ h)

/-- Segments without slashes are found again. -/
theorem splitSlash_joinSlash {ss : List (List Char)} (hne : ss ≠ []) (h : ∀ s ∈ ss, '/' ∉ s) :
    splitSlash (joinSlash ss) = ss := by
  induction ss with
  | nil => exact absurd rfl hne
  | cons s ss ih =>
    have hs := h s List.mem_cons_self
    cases ss with
    | nil => exact splitSlash_of_not_mem hs
    | cons s' ss =>
      show splitSlash (s ++ '/' :: joinSlash (s' :: ss)) = _
      rw [splitSlash_append_slash, splitSlash_of_not_mem hs,
        ih (by simp) fun x hx => h x (List.mem_cons_of_mem _ hx)]
      rfl

/-! ## Names -/

/-- Whether a text can be the name of a file or a folder. -/
def IsName (n : String) : Prop := n ≠ "" ∧ n ≠ "." ∧ n ≠ ".." ∧ '/' ∉ n.toList

instance (n : String) : Decidable (IsName n) := inferInstanceAs (Decidable (_ ∧ _ ∧ _ ∧ _))

theorem IsName.toList_ne_nil {n : String} (h : IsName n) : n.toList ≠ [] := by
  intro hn
  exact h.1 (String.toList_injective (by simpa using hn))

theorem not_slash_of_mem_segments {p : Path} {x : String} (h : x ∈ p.segments) :
    '/' ∉ x.toList := by
  obtain ⟨y, hy, rfl⟩ := List.mem_map.1 h
  rw [String.toList_ofList]
  exact not_mem_of_mem_splitSlash hy

/-- A segment that is neither empty nor a dot nor two dots is a name. -/
theorem isName_of_mem_segments {p : Path} {x : String} (h : x ∈ p.segments) (h0 : x ≠ "")
    (h1 : x ≠ ".") (h2 : x ≠ "..") : IsName x :=
  ⟨h0, h1, h2, not_slash_of_mem_segments h⟩

/-- Behind a slash at the end there is an empty segment. -/
theorem getLast?_segments_of_slash {p : Path} (h : p.text.toList.getLast? = some '/') :
    p.segments.getLast? = some "" := by
  obtain ⟨r, hr⟩ := List.getLast?_eq_some_iff.1 h
  rw [segments, hr, splitSlash_append_slash, splitSlash, List.map_append, List.getLast?_append]
  rfl

/-! ## Locations -/

/-- The location that a path leads to from a folder. -/
def locate (here : Location) (p : Path) : Location :=
  (p.segments.filter (· ≠ "")).foldl FileTree.step (if p.isAbsolute then [] else here)

theorem step_name {l : Location} {n : String} (h : IsName n) : FileTree.step l n = l ++ [n] := by
  rw [FileTree.step, if_neg h.2.1, if_neg h.2.2.1]

/-- Joining puts a slash between the two texts, if none is there already. -/
theorem segments_join {a b : Path} (h : b.isAbsolute = false) :
    (a.join b).segments.filter (· ≠ "")
        = a.segments.filter (· ≠ "") ++ b.segments.filter (· ≠ "") ∧
      (a.join b).isAbsolute = a.isAbsolute := by
  unfold join
  rw [if_neg (Bool.eq_false_iff.1 h)]
  cases hlast : a.text.toList.getLast? with
  | none =>
    have hempty : a.text.toList = [] := List.getLast?_eq_none_iff.1 hlast
    have habsolute : a.isAbsolute = false := by
      rw [isAbsolute, hempty]
      rfl
    refine ⟨?_, by rw [h, habsolute]⟩
    rw [show a.segments = [""] by rw [segments, hempty]; rfl]
    rfl
  | some c =>
    obtain ⟨r, hr⟩ := List.getLast?_eq_some_iff.1 hlast
    by_cases hc : c = '/'
    · subst hc
      simp only [if_true]
      refine ⟨?_, ?_⟩
      · simp only [segments, String.toList_append, hr, List.append_assoc, List.singleton_append,
          splitSlash_append_slash, splitSlash, List.map_append, List.filter_append]
        simp
      · simp only [isAbsolute, String.toList_append, hr]
        cases r <;> simp
    · simp only [if_neg hc]
      refine ⟨?_, ?_⟩
      · simp only [segments, String.toList_append, List.append_assoc,
          show "/".toList = ['/'] from rfl, List.singleton_append, splitSlash_append_slash,
          List.map_append, List.filter_append]
      · simp only [isAbsolute, String.toList_append, hr]
        cases r <;> simp

/-- The text of an entry of a folder, but for a slash in between that may be there already. -/
theorem segments_child {p : Path} {n : String} (h : IsName n) :
    (p.child n).segments.filter (· ≠ "") = p.segments.filter (· ≠ "") ++ [n] ∧
      (p.child n).isAbsolute = p.isAbsolute := by
  have hrelative : (⟨n⟩ : Path).isAbsolute = false := by
    refine Bool.eq_false_iff.2 fun habsolute => h.2.2.2 ?_
    exact List.mem_of_mem_head? (beq_iff_eq.1 habsolute)
  have hsegments : (⟨n⟩ : Path).segments.filter (· ≠ "") = [n] := by
    rw [segments, splitSlash_of_not_mem h.2.2.2, List.map_singleton, String.ofList_toList]
    simpa using h.1
  rw [← hsegments]
  exact segments_join hrelative

/-- An entry of a folder lies below the folder. -/
theorem locate_child {here : Location} {p : Path} {n : String} (h : IsName n) :
    (p.child n).locate here = p.locate here ++ [n] := by
  obtain ⟨hsegments, habsolute⟩ := segments_child (p := p) h
  rw [locate, hsegments, habsolute, List.foldl_append, List.foldl_cons, List.foldl_nil,
    step_name h]
  rfl

/-! ## Normal forms -/

/-- A component that a path can have behind its front. -/
def Component.IsStep : Component → Prop
  | .up => True
  | .name n => IsName n
  | _ => False

/-- Where a component leads from a location. -/
def Component.move (l : Location) : Component → Location
  | .root => []
  | .here => l
  | .up => l.dropLast
  | .name n => l ++ [n]

/-- Takes a segment that is not empty onto a resolved path, last component first. -/
def pushSegment (st : List Component) (s : String) : List Component :=
  if s = "." then st else push st (if s = ".." then .up else .name s)

/-- What a resolved path starts with. -/
def base (p : Path) : List Component := if p.isAbsolute then [.root] else []

/-- The resolved components of a path, last one first. -/
def stack (p : Path) : List Component := (p.segments.filter (· ≠ "")).foldl pushSegment p.base

theorem head_segments_of_isAbsolute {p : Path} (h : p.isAbsolute = true) :
    ∃ ss, p.segments = "" :: ss := by
  unfold isAbsolute at h
  unfold segments
  cases htext : p.text.toList with
  | nil =>
    rw [htext] at h
    simp at h
  | cons c r =>
    rw [htext] at h
    have hc : c = '/' := by simpa using h
    refine ⟨(splitSlash r).map String.ofList, ?_⟩
    rw [hc, splitSlash, if_pos rfl]
    rfl

theorem foldl_push_ofSegment (ss : List String) (st : List Component) :
    (ss.filterMap Component.ofSegment?).foldl push st
      = (ss.filter (· ≠ "")).foldl pushSegment st := by
  induction ss generalizing st with
  | nil => rfl
  | cons s ss ih =>
    by_cases h0 : s = ""
    · subst h0
      simpa [Component.ofSegment?] using ih st
    · rw [List.filter_cons_of_pos (by simpa using h0), List.foldl_cons, ← ih]
      by_cases h1 : s = "."
      · subst h1
        rw [List.filterMap_cons_none (by simp [Component.ofSegment?])]
        rfl
      · by_cases h2 : s = ".."
        · subst h2
          rfl
        · rw [List.filterMap_cons_some (b := .name s) (by simp [Component.ofSegment?, h0, h1, h2]),
            List.foldl_cons, pushSegment, if_neg h1, if_neg h2]

/-- The normal form resolves the segments one after the other. -/
theorem resolve_components (p : Path) : resolve p.components = p.stack.reverse := by
  unfold resolve stack base
  congr 1
  by_cases habsolute : p.isAbsolute = true
  · obtain ⟨ss, hss⟩ := head_segments_of_isAbsolute habsolute
    unfold components
    simp only [hss, if_pos habsolute, Option.toList_some, List.singleton_append, List.foldl_cons]
    rw [foldl_push_ofSegment, List.filter_cons_of_neg (by simp)]
    rfl
  · unfold components
    rw [if_neg habsolute]
    cases hss : p.segments with
    | nil => rfl
    | cons s ss =>
      simp only [if_neg habsolute]
      rw [← foldl_push_ofSegment]
      by_cases h1 : s = "."
      · subst h1
        rw [if_pos rfl, List.filterMap_cons_none (by simp [Component.ofSegment?])]
        rfl
      · rw [if_neg h1]
        have hcons : (Component.ofSegment? s).toList ++ ss.filterMap Component.ofSegment?
            = (s :: ss).filterMap Component.ofSegment? := by
          rw [List.filterMap_cons]
          cases Component.ofSegment? s <;> rfl
        rw [hcons]

/-- Where a resolved path leads, last component first. -/
def locateStack (here : Location) (st : List Component) : Location :=
  st.foldr (fun c l => c.move l) here

theorem locateStack_push (here : Location) (st : List Component) (c : Component) :
    locateStack here (push st c) = c.move (locateStack here st) := by
  unfold push
  split
  · rfl
  · simp [locateStack, Component.move]
  · simp [locateStack, Component.move]
  · rfl

theorem pushSegment_name {st : List Component} {s : String} (h1 : s ≠ ".") (h2 : s ≠ "..") :
    pushSegment st s = .name s :: st := by
  simp [pushSegment, push, h1, h2]

theorem locateStack_pushSegment (here : Location) (st : List Component) (s : String) :
    locateStack here (pushSegment st s) = FileTree.step (locateStack here st) s := by
  unfold pushSegment FileTree.step
  by_cases h1 : s = "."
  · rw [if_pos h1, if_pos h1]
  · rw [if_neg h1, if_neg h1, locateStack_push]
    by_cases h2 : s = ".."
    · rw [if_pos h2, if_pos h2]
      rfl
    · rw [if_neg h2, if_neg h2]
      rfl

theorem locateStack_base (here : Location) (p : Path) :
    locateStack here p.base = if p.isAbsolute then [] else here := by
  unfold base
  cases p.isAbsolute <;> rfl

theorem locateStack_foldl (here : Location) (ss : List String) (st : List Component) :
    locateStack here (ss.foldl pushSegment st) = ss.foldl FileTree.step (locateStack here st) := by
  induction ss generalizing st with
  | nil => rfl
  | cons s ss ih => rw [List.foldl_cons, List.foldl_cons, ih, locateStack_pushSegment]

theorem locateStack_stack (here : Location) (p : Path) :
    locateStack here p.stack = p.locate here := by
  rw [stack, locateStack_foldl, locateStack_base]
  rfl

/-- What lies above the base of a stack are steps up and names. -/
theorem pushSegment_steps {pre bottom : List Component} {s : String}
    (hbottom : bottom = [] ∨ bottom = [.root]) (hpre : ∀ c ∈ pre, c.IsStep)
    (hs : s ≠ "" ∧ '/' ∉ s.toList) :
    ∃ pre', pushSegment (pre ++ bottom) s = pre' ++ bottom ∧ ∀ c ∈ pre', c.IsStep := by
  by_cases h1 : s = "."
  · exact ⟨pre, by rw [pushSegment, if_pos h1], hpre⟩
  by_cases h2 : s = ".."
  · rw [pushSegment, if_neg h1, if_pos h2]
    cases pre with
    | nil =>
      rcases hbottom with rfl | rfl
      · exact ⟨[.up], rfl, by simp [Component.IsStep]⟩
      · exact ⟨[], rfl, by simp⟩
    | cons c pre =>
      have hc := hpre c List.mem_cons_self
      have hrest : ∀ c ∈ pre, c.IsStep := fun c hc => hpre c (List.mem_cons_of_mem _ hc)
      cases c with
      | root => exact absurd hc id
      | here => exact absurd hc id
      | up => exact ⟨.up :: .up :: pre, rfl, by simpa [Component.IsStep] using hrest⟩
      | name n => exact ⟨pre, rfl, hrest⟩
  · rw [pushSegment_name h1 h2]
    refine ⟨.name s :: pre, rfl, ?_⟩
    intro c hc
    rcases List.mem_cons.1 hc with rfl | hc
    · exact ⟨hs.1, h1, h2, hs.2⟩
    · exact hpre c hc

theorem stack_steps (p : Path) : ∃ pre, p.stack = pre ++ p.base ∧ ∀ c ∈ pre, c.IsStep := by
  have hbase : p.base = [] ∨ p.base = [.root] := by
    unfold base
    cases p.isAbsolute <;> simp
  have hall : ∀ s ∈ p.segments.filter (· ≠ ""), s ≠ "" ∧ '/' ∉ s.toList := by
    intro s hs
    obtain ⟨hmem, hne⟩ := List.mem_filter.1 hs
    exact ⟨by simpa using hne, not_slash_of_mem_segments hmem⟩
  unfold stack
  generalize p.segments.filter (· ≠ "") = ss at hall
  suffices h : ∀ pre : List Component, (∀ c ∈ pre, c.IsStep) →
      ∃ pre', ss.foldl pushSegment (pre ++ p.base) = pre' ++ p.base ∧ ∀ c ∈ pre', c.IsStep from
    h [] (by simp)
  induction ss with
  | nil => exact fun pre hpre => ⟨pre, rfl, hpre⟩
  | cons s ss ih =>
    intro pre hpre
    obtain ⟨pre', heq, hpre'⟩ := pushSegment_steps hbase hpre (hall s List.mem_cons_self)
    rw [List.foldl_cons, heq]
    exact ih (fun s hs => hall s (List.mem_cons_of_mem _ hs)) pre' hpre'

theorem segments_ofSegments {ss : List String} (hne : ss ≠ []) (h : ∀ s ∈ ss, '/' ∉ s.toList) :
    (ofSegments ss).segments = ss := by
  unfold segments ofSegments
  rw [String.toList_ofList, splitSlash_joinSlash (by simpa using hne), List.map_map]
  · have hid : String.ofList ∘ String.toList = id := funext fun s => String.ofList_toList
    rw [hid, List.map_id]
  · intro s hs
    obtain ⟨x, hx, rfl⟩ := List.mem_map.1 hs
    exact h x hx

theorem Component.IsStep.segment {c : Component} (h : c.IsStep) :
    c.segment ≠ "" ∧ c.segment ≠ "." ∧ '/' ∉ c.segment.toList := by
  cases c with
  | root => exact absurd h id
  | here => exact absurd h id
  | up => simp [Component.segment]
  | name n => exact ⟨h.1, h.2.1, h.2.2.2⟩

theorem Component.IsStep.step_segment {c : Component} (h : c.IsStep) (l : Location) :
    FileTree.step l c.segment = c.move l := by
  cases c with
  | root => exact absurd h id
  | here => exact absurd h id
  | up => rfl
  | name n => exact step_name h

theorem isAbsolute_ofSegments_of_name {s : String} {ss : List String} (h0 : s ≠ "")
    (h : '/' ∉ s.toList) : (ofSegments (s :: ss)).isAbsolute = false := by
  have hne : s.toList ≠ [] := fun hn => h0 (String.toList_injective (by simpa using hn))
  unfold isAbsolute ofSegments
  rw [String.toList_ofList]
  cases hs : s.toList with
  | nil => exact absurd hs hne
  | cons c r =>
    have hc : c ≠ '/' := by
      rintro rfl
      exact h (by rw [hs]; exact List.mem_cons_self)
    cases ss <;> simpa [joinSlash, hs] using hc

theorem isAbsolute_ofSegments_of_empty {s : String} {ss : List String} :
    (ofSegments ("" :: s :: ss)).isAbsolute = true := by
  unfold isAbsolute ofSegments
  rw [String.toList_ofList]
  simp [joinSlash]

/-- The segments of a normal form are the steps of the resolved path. -/
theorem segments_normalize (p : Path) : ∃ pre, p.stack = pre ++ p.base ∧
    (∀ c ∈ pre, c.IsStep) ∧
    p.normalize.segments.filter (· ≠ "") = pre.reverse.map Component.segment ∧
    (pre ≠ [] → pre.reverse.map Component.segment <:+ p.normalize.segments) ∧
    p.normalize.isAbsolute = p.isAbsolute := by
  obtain ⟨pre, hstack, hpre⟩ := stack_steps p
  refine ⟨pre, hstack, hpre, ?_⟩
  rw [← List.reverse_ne_nil_iff]
  unfold normalize
  rw [resolve_components, hstack, List.reverse_append]
  replace hpre : ∀ c ∈ pre.reverse, c.IsStep := fun c hc => hpre c (List.mem_reverse.1 hc)
  generalize pre.reverse = steps at hpre
  have hsegment : ∀ s ∈ steps.map Component.segment, s ≠ "" ∧ '/' ∉ s.toList := by
    intro s hs
    obtain ⟨c, hc, rfl⟩ := List.mem_map.1 hs
    exact ⟨(hpre c hc).segment.1, (hpre c hc).segment.2.2⟩
  have hfilter : (steps.map Component.segment).filter (· ≠ "") = steps.map Component.segment :=
    List.filter_eq_self.2 fun s hs => by simpa using (hsegment s hs).1
  unfold base
  cases habsolute : p.isAbsolute with
  | true =>
    cases steps with
    | nil => exact ⟨by decide, fun h => absurd rfl h, by decide⟩
    | cons c steps =>
      have hsegments : (ofSegments ("" :: (c :: steps).map Component.segment)).segments
          = "" :: (c :: steps).map Component.segment := by
        refine segments_ofSegments (by simp) fun s hs => ?_
        rcases List.mem_cons.1 hs with rfl | hs
        · simp
        · exact (hsegment s hs).2
      show ((ofSegments ("" :: (c :: steps).map Component.segment)).segments.filter (· ≠ "")) = _ ∧
        (_ → _ <:+ (ofSegments ("" :: (c :: steps).map Component.segment)).segments) ∧
        (ofSegments ("" :: (c :: steps).map Component.segment)).isAbsolute = _
      rw [hsegments, List.filter_cons_of_neg (by simp), hfilter]
      exact ⟨rfl, fun _ => List.suffix_cons _ _, isAbsolute_ofSegments_of_empty⟩
  | false =>
    cases steps with
    | nil => exact ⟨by decide, fun h => absurd rfl h, by decide⟩
    | cons c steps =>
      have hplain :
          ofComponents (c :: steps) = ofSegments ((c :: steps).map Component.segment) := by
        unfold ofComponents
        split
        · next heq =>
          cases heq
          exact absurd (hpre .root List.mem_cons_self) id
        · rfl
      have hc := hsegment c.segment List.mem_cons_self
      simp only [Bool.false_eq_true, if_false, List.reverse_nil, List.nil_append]
      rw [hplain, segments_ofSegments (by simp) fun s hs => (hsegment s hs).2, hfilter]
      exact ⟨rfl, fun _ => List.suffix_rfl, isAbsolute_ofSegments_of_name hc.1 hc.2⟩

theorem foldl_step_segment (steps : List Component) (h : ∀ c ∈ steps, c.IsStep) (l : Location) :
    (steps.map Component.segment).foldl FileTree.step l = steps.foldl Component.move l := by
  induction steps generalizing l with
  | nil => rfl
  | cons c steps ih =>
    rw [List.map_cons, List.foldl_cons, List.foldl_cons,
      (h c List.mem_cons_self).step_segment]
    exact ih (fun c hc => h c (List.mem_cons_of_mem _ hc)) _

/-- The normal form of a path leads where the path leads. -/
theorem locate_normalize (here : Location) (p : Path) :
    p.normalize.locate here = p.locate here := by
  obtain ⟨pre, hstack, hpre, hsegments, -, habsolute⟩ := segments_normalize p
  rw [← locateStack_stack here p, hstack, locate, hsegments, habsolute,
    foldl_step_segment _ fun c hc => hpre c (List.mem_reverse.1 hc), List.foldl_reverse,
    ← locateStack_base]
  exact List.foldr_append.symm

/-- The same path leads to the same location. -/
theorem locate_eq_of_sameAs {p q : Path} {here : Location} (h : p.sameAs q = true) :
    p.locate here = q.locate here := by
  rw [← locate_normalize here p, ← locate_normalize here q, normalize, normalize,
    sameAs_iff.1 h]

/-- The normal form of a path that ends with a name ends with that name. -/
theorem segments_normalize_of_name {p : Path} {init : List String} {last : String}
    (h : p.segments.filter (· ≠ "") = init ++ [last]) (hdot : last ≠ ".") (hup : last ≠ "..") :
    ∃ around, init.foldl pushSegment p.base = around ++ p.base ∧ (∀ c ∈ around, c.IsStep) ∧
      p.normalize.segments.filter (· ≠ "") = around.reverse.map Component.segment ++ [last] ∧
      p.normalize.segments.getLast? = some last ∧ IsName last := by
  obtain ⟨pre, hstack, hpre, hsegments, hsuffix, -⟩ := segments_normalize p
  have htop : p.stack = .name last :: init.foldl pushSegment p.base := by
    rw [stack, h, List.foldl_append]
    exact pushSegment_name hdot hup
  rw [htop] at hstack
  cases pre with
  | nil =>
    rw [List.nil_append] at hstack
    unfold base at hstack
    split at hstack <;> cases hstack
  | cons c around =>
    injection hstack with hc haround
    subst hc
    refine ⟨around, haround, fun c hc => hpre c (List.mem_cons_of_mem _ hc), ?_, ?_,
      hpre _ List.mem_cons_self⟩
    · rw [hsegments, List.reverse_cons, List.map_append]
      rfl
    · obtain ⟨front, hfront⟩ := hsuffix (by simp)
      rw [← hfront, List.reverse_cons, List.map_append, ← List.append_assoc]
      exact List.getLast?_concat

/-! ## The name at the end -/

theorem name?_of_getLast? {p : Path} {n : String} (h : p.segments.getLast? = some n)
    (hn : IsName n) : p.name? = some n := by
  have hcomponents : p.components.getLast? = some (.name n) := by
    obtain ⟨init, hinit⟩ := List.getLast?_eq_some_iff.1 h
    have hn' : Component.ofSegment? n = some (.name n) := by
      simp [Component.ofSegment?, hn.1, hn.2.1, hn.2.2.1]
    unfold components
    cases init with
    | nil =>
      rw [List.nil_append] at hinit
      have habsolute : ¬p.isAbsolute = true := by
        intro habsolute
        obtain ⟨ss, hss⟩ := head_segments_of_isAbsolute habsolute
        rw [hinit] at hss
        exact hn.1 (List.cons.inj hss).1
      simp only [hinit, if_neg habsolute, if_neg hn.2.1, hn']
      rfl
    | cons s init =>
      simp only [hinit, List.cons_append, List.filterMap_append, List.filterMap_cons, hn',
        List.filterMap_nil, ← List.append_assoc]
      exact List.getLast?_concat
  unfold name?
  rw [hcomponents]

theorem stem?_of_name? {p : Path} {n : String} (h : p.name? = some n) (hn : IsName n) :
    ∃ stem, p.stem? = some stem ∧ '/' ∉ stem.toList := by
  unfold stem?
  rw [h, Option.map_some]
  refine ⟨_, rfl, ?_⟩
  have hsub : ∀ c ∈ n.toList.reverse.dropWhile (· ≠ '.'), c ∈ n.toList := fun c hc =>
    List.mem_reverse.1 ((List.dropWhile_sublist _).subset hc)
  split
  · exact hn.2.2.2
  · exact hn.2.2.2
  · next c r heq =>
    rw [String.toList_ofList, List.mem_reverse]
    intro hc
    exact hn.2.2.2 (hsub _ (by rw [heq]; exact List.mem_cons_of_mem _ hc))

end Path

end ShaderBuild
