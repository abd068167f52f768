import ShaderBuild.CommandLine

/-!
# What a command line may say

A command line is a row of items (`Item`), spelled one after the other (`Spells`): a flag in any
case, and behind `-c` or `-r` any one argument. Arguments are such a row, or they go on behind one
with something that is no item (`Misfit`, `exists_row`). They can be taken apart in one way only,
since an item is told by its flag (`Spells.split`), and no row of items gets beyond a misfit
(`Spells.prefix_of_misfit`). Reading takes the items of the row one by one (`read_row`) and stops
at the misfit (`read_misfit`).

Main statement: `parse_reads_row`.
-/

namespace ShaderBuild

/-- The flag of an operation, in lower case. -/
def Operation.flag : Operation → String
  | .build => "-build"
  | .clean => "-clean"
  | .rebuild => "-rebuild"
  | .test => "-test"

namespace CommandLine

/-! ## Items -/

/-- What a command line says, one piece of it. -/
inductive Item where
  | operation (o : Operation)
  | verbose
  | config (value : String)
  | root (value : String)
deriving DecidableEq, Repr

namespace Item

/-- The flag of an item, in lower case. -/
def flag : Item → String
  | operation o => o.flag
  | verbose => "-verbose"
  | config _ => "-c"
  | root _ => "-r"

/-- The arguments behind the flag of an item. -/
def value : Item → List String
  | operation _ | verbose => []
  | config v | root v => [v]

/-- The operation that an item asks for. -/
def operation? : Item → Option Operation
  | operation o => some o
  | _ => none

/-- The configuration file that an item names. -/
def config? : Item → Option Path
  | config v => some ⟨v⟩
  | _ => none

/-- The root folder that an item names. -/
def root? : Item → Option Path
  | root v => some ⟨v⟩
  | _ => none

end Item

/-- An argument is a flag, in any case. -/
def IsFlag (flag argument : String) : Prop := argument.map Char.toLower = flag

/-- Arguments that spell a row of items. -/
inductive Spells : List Item → List String → Prop
  | nil : Spells [] []
  | cons {item : Item} {items : List Item} {argument : String} {rest : List String} :
      IsFlag item.flag argument → Spells items rest →
      Spells (item :: items) (argument :: (item.value ++ rest))

/-- Arguments that begin with no item, and what is wrong with them. -/
inductive Misfit : List String → UsageFault → Prop
  | unknown {argument : String} {rest : List String} :
      (∀ item : Item, ¬ IsFlag item.flag argument) →
      Misfit (argument :: rest) (.unknownArgument argument)
  | missing {item : Item} {argument : String} : IsFlag item.flag argument → item.value ≠ [] →
      Misfit [argument] (.missingValue item.flag)

/-- What a row of items asks for: the last operation, the last configuration file, the last root
folder or else the working folder, and more messages if that is said anywhere. -/
structure Asks (items : List Item) (request : Request) : Prop where
  operation : (items.filterMap Item.operation?).getLast? = some request.operation
  config : request.config = (items.filterMap Item.config?).getLast?
  root : request.root = (items.filterMap Item.root?).getLast?.getD ⟨"."⟩
  verbose : request.verbose = true ↔ .verbose ∈ items

variable {item item' : Item} {items items' : List Item} {argument flag : String}
  {arguments front front' rest rest' tail : List String} {fault : UsageFault} {draft : Draft}

/-! ## Taking arguments apart -/

/-- The flag of an item tells how many arguments belong to it. -/
theorem Item.length_value (item : Item) :
    item.value.length = if item.flag = "-c" ∨ item.flag = "-r" then 1 else 0 := by
  cases item with
  | operation o => cases o <;> rfl
  | verbose | config v | root v => rfl

theorem Item.eq_of_flag_of_value (hflag : item.flag = item'.flag)
    (hvalue : item.value = item'.value) : item = item' := by
  cases item with
  | operation o =>
    cases item' with
    | operation o' => cases o <;> cases o' <;> simp_all [flag, Operation.flag]
    | verbose => cases o <;> simp [flag, Operation.flag] at hflag
    | config v' | root v' => cases hvalue
  | verbose =>
    cases item' with
    | operation o' => cases o' <;> simp [flag, Operation.flag] at hflag
    | verbose => rfl
    | config v' | root v' => cases hvalue
  | config v =>
    cases item' with
    | operation o' | verbose => cases hvalue
    | config v' => simp_all [value]
    | root v' => simp [flag] at hflag
  | root v =>
    cases item' with
    | operation o' | verbose => cases hvalue
    | config v' => simp [flag] at hflag
    | root v' => simp_all [value]

/-- **An item is told by its flag**, and its value by what follows. -/
theorem Item.eq_of_flag (hflag : item.flag = item'.flag)
    (hvalue : item.value ++ rest = item'.value ++ rest') : item = item' ∧ rest = rest' := by
  have hlength : item.value.length = item'.value.length := by
    rw [item.length_value, item'.length_value, hflag]
  obtain ⟨hsame, hrest⟩ := List.append_inj hvalue hlength
  exact ⟨eq_of_flag_of_value hflag hsame, hrest⟩

/-- A row of items at the front of another one is a beginning of it. -/
theorem Spells.split (h : Spells items front) (h' : Spells items' (front ++ rest)) :
    ∃ more, items' = items ++ more ∧ Spells more rest := by
  induction h generalizing items' with
  | nil => exact ⟨items', rfl, h'⟩
  | @cons item items argument tail hflag _ ih =>
    generalize harguments : argument :: (item.value ++ tail) ++ rest = arguments at h'
    cases h' with
    | nil => cases harguments
    | @cons item' items' argument' tail' hflag' htail' =>
      rw [List.cons_append, List.append_assoc, List.cons.injEq] at harguments
      obtain ⟨rfl, hvalue⟩ := harguments
      obtain ⟨rfl, rfl⟩ := Item.eq_of_flag (Eq.trans (Eq.symm hflag) hflag') hvalue
      obtain ⟨more, rfl, hmore⟩ := ih htail'
      exact ⟨more, rfl, hmore⟩

/-- Nothing spells two rows of items. -/
theorem Spells.unique (h : Spells items arguments) (h' : Spells items' arguments) :
    items' = items := by
  rw [← List.append_nil arguments] at h'
  obtain ⟨more, rfl, hmore⟩ := h.split h'
  cases hmore
  exact List.append_nil items

/-- No item stands where arguments begin with none. -/
theorem Misfit.eq_nil (h : Misfit (front ++ rest) fault) (hfront : Spells items front) :
    items = [] ∧ front = [] := by
  cases hfront with
  | nil => exact ⟨rfl, rfl⟩
  | @cons item items argument tail hflag _ =>
    generalize harguments : argument :: (item.value ++ tail) ++ rest = arguments at h
    cases h with
    | unknown hnone =>
      obtain ⟨rfl, -⟩ := List.cons.inj harguments
      exact absurd hflag (hnone item)
    | @missing item' argument' hflag' hvalue =>
      rw [List.cons_append, List.append_assoc, List.cons.injEq] at harguments
      obtain ⟨rfl, htail⟩ := harguments
      have hlength : item.value.length = item'.value.length := by
        rw [item.length_value, item'.length_value, Eq.trans (Eq.symm hflag) hflag']
      rw [(List.append_eq_nil_iff.mp htail).1] at hlength
      exact absurd (List.length_eq_zero_iff.mp (Eq.symm hlength)) hvalue

/-- Rows of items at the front of the same arguments lie one in the other. -/
theorem Spells.prefix_of_misfit (hfront : Spells items front) (hrest : Misfit rest fault)
    (hfront' : Spells items' front') (hbegins : front' <+: front ++ rest) :
    items' <+: items ∧ front' <+: front := by
  obtain ⟨more, hmore⟩ := hbegins
  rcases List.append_eq_append_iff.mp hmore with ⟨middle, rfl, rfl⟩ | ⟨middle, rfl, rfl⟩
  · obtain ⟨items'', rfl, -⟩ := hfront'.split hfront
    exact ⟨List.prefix_append .., List.prefix_append ..⟩
  · obtain ⟨items'', rfl, hmiddle⟩ := hfront.split hfront'
    obtain ⟨rfl, rfl⟩ := hrest.eq_nil hmiddle
    rw [List.append_nil, List.append_nil]
    exact ⟨List.prefix_refl items, List.prefix_refl front⟩

/-- Arguments begin with an item, or with none. -/
theorem exists_item_or_misfit (argument : String) (tail : List String) :
    (∃ (item : Item) (rest : List String), IsFlag item.flag argument ∧
      tail = item.value ++ rest) ∨ ∃ fault, Misfit (argument :: tail) fault := by
  by_cases hsome : ∃ item : Item, IsFlag item.flag argument
  · obtain ⟨item, hflag⟩ := hsome
    cases item with
    | operation o => exact .inl ⟨.operation o, tail, hflag, rfl⟩
    | verbose => exact .inl ⟨.verbose, tail, hflag, rfl⟩
    | config v =>
      cases tail with
      | nil => exact .inr ⟨_, .missing hflag (List.cons_ne_nil v [])⟩
      | cons v' rest => exact .inl ⟨.config v', rest, hflag, rfl⟩
    | root v =>
      cases tail with
      | nil => exact .inr ⟨_, .missing hflag (List.cons_ne_nil v [])⟩
      | cons v' rest => exact .inl ⟨.root v', rest, hflag, rfl⟩
  · exact .inr ⟨_, .unknown (not_exists.mp hsome)⟩

/-- **Arguments are a row of items**, or go on behind one with something that is no item. -/
theorem exists_row (arguments : List String) :
    ∃ items front rest, arguments = front ++ rest ∧ Spells items front ∧
      (rest = [] ∨ ∃ fault, Misfit rest fault) := by
  induction hlength : arguments.length using Nat.strongRecOn generalizing arguments with
  | ind n ih =>
    cases arguments with
    | nil => exact ⟨[], [], [], rfl, .nil, .inl rfl⟩
    | cons argument tail =>
      rcases exists_item_or_misfit argument tail with ⟨item, rest, hflag, rfl⟩ | hmisfit
      · have hshorter : rest.length < n := by
          rw [← hlength, List.length_cons, List.length_append]
          omega
        obtain ⟨items, front, rest, rfl, hfront, hrest⟩ := ih _ hshorter rest rfl
        refine ⟨item :: items, argument :: (item.value ++ front), rest, ?_, .cons hflag hfront,
          hrest⟩
        rw [List.cons_append, List.append_assoc]
      · exact ⟨[], [], argument :: tail, rfl, .nil, .inr hmisfit⟩

/-! ## Reading -/

/-- An item in what is asked for so far. -/
def Draft.take (draft : Draft) : Item → Draft
  | .operation o => { draft with operation := some o }
  | .verbose => { draft with verbose := true }
  | .config v => { draft with config := some ⟨v⟩ }
  | .root v => { draft with root := some ⟨v⟩ }

theorem operation?_eq_some {o : Operation} : operation? flag = some o ↔ flag = o.flag := by
  unfold operation?
  split <;> cases o <;> simp_all [Operation.flag]

/-- Reading takes an item with its value. -/
theorem read_item (hflag : IsFlag item.flag argument) :
    read draft (argument :: (item.value ++ rest)) = read (draft.take item) rest := by
  have hlower : argument.map Char.toLower = item.flag := hflag
  rw [read.eq_def]
  simp only [hlower]
  cases item with
  | operation o => rw [Item.flag, operation?_eq_some.mpr rfl]; rfl
  | verbose => simp [Item.flag, Item.value, operation?, Draft.take]
  | config v => simp [Item.flag, Item.value, operation?, Draft.take]
  | root v => simp [Item.flag, Item.value, operation?, Draft.take]

/-- **Reading takes the items of a row one by one.** -/
theorem read_row (hfront : Spells items front) :
    read draft (front ++ rest) = read (items.foldl Draft.take draft) rest := by
  induction hfront generalizing draft with
  | nil => rfl
  | cons hflag _ ih =>
    rw [List.cons_append, List.append_assoc, read_item hflag, ih, List.foldl_cons]

/-- **Reading stops where no item begins.** -/
theorem read_misfit (hrest : Misfit rest fault) : read draft rest = .error fault := by
  cases hrest with
  | @unknown argument rest hnone =>
    have hoperation : operation? (argument.map Char.toLower) = none :=
      Option.eq_none_iff_forall_ne_some.mpr fun o ho =>
        hnone (.operation o) (operation?_eq_some.mp ho)
    have hverbose : argument.map Char.toLower ≠ "-verbose" := hnone .verbose
    have hconfig : argument.map Char.toLower ≠ "-c" := hnone (.config "")
    have hroot : argument.map Char.toLower ≠ "-r" := hnone (.root "")
    rw [read.eq_def]
    simp [hoperation, hverbose, hconfig, hroot]
  | @missing item argument hflag hvalue =>
    have hlower : argument.map Char.toLower = item.flag := hflag
    cases item with
    | operation o => exact absurd rfl hvalue
    | verbose => exact absurd rfl hvalue
    | config v => simp [read, hlower, Item.flag, operation?]
    | root v => simp [read, hlower, Item.flag, operation?]

/-! ## What is asked for -/

/-- A part of the draft is the last value that a row of items gives to it. -/
theorem Draft.foldl_take {α : Type} (field : Draft → Option α) (given : Item → Option α)
    (hfield : ∀ draft item, field (draft.take item) = (given item).or (field draft))
    (items : List Item) (draft : Draft) :
    field (items.foldl Draft.take draft) = (items.filterMap given).getLast?.or (field draft) := by
  induction items generalizing draft with
  | nil => rfl
  | cons item items ih =>
    rw [List.foldl_cons, ih, hfield, List.filterMap_cons]
    cases given item with
    | none => rfl
    | some value => cases items.filterMap given <;> simp [List.getLast?_cons]

/-- More messages are asked for once a row of items says so. -/
theorem Draft.verbose_foldl_take :
    (items.foldl Draft.take draft).verbose = true ↔ .verbose ∈ items ∨ draft.verbose = true := by
  induction items generalizing draft with
  | nil => simp
  | cons item items ih =>
    rw [List.foldl_cons, ih]
    cases item <;> simp [Draft.take]

/-- A row of items names no operation when none of its items is one. -/
theorem getLast?_operation_eq_none_iff :
    (items.filterMap Item.operation?).getLast? = none ↔ ∀ o, .operation o ∉ items := by
  rw [List.getLast?_eq_none_iff, List.filterMap_eq_nil_iff]
  constructor
  · intro hnone o ho
    cases hnone _ ho
  · intro hnone item hitem
    cases item with
    | operation o => exact absurd hitem (hnone o)
    | verbose | config v | root v => rfl

/-- What a row of items amounts to. -/
theorem parse_row (h : Spells items arguments) :
    parse arguments =
      match (items.filterMap Item.operation?).getLast? with
      | none => .error .missingOperation
      | some operation => .ok {
          operation
          config := (items.filterMap Item.config?).getLast?
          root := (items.filterMap Item.root?).getLast?.getD ⟨"."⟩
          verbose := decide (.verbose ∈ items) } := by
  have hread : read {} arguments = .ok (items.foldl Draft.take {}) := by
    rw [← List.append_nil arguments, read_row h, read]
  have hoperation := Draft.foldl_take Draft.operation Item.operation?
    (fun _ item => by cases item <;> rfl) items {}
  have hconfig := Draft.foldl_take Draft.config Item.config?
    (fun _ item => by cases item <;> rfl) items {}
  have hroot := Draft.foldl_take Draft.root Item.root?
    (fun _ item => by cases item <;> rfl) items {}
  have hverbose : (items.foldl Draft.take {}).verbose = decide (.verbose ∈ items) := by
    rw [Bool.eq_iff_iff, Draft.verbose_foldl_take, decide_eq_true_iff]
    simp
  rw [parse, hread]
  simp only [bind, Except.bind, hoperation, hconfig, hroot, hverbose, Option.or_none]
  rfl

/-- What a row of items with something else behind it amounts to. -/
theorem parse_misfit (hfront : Spells items front) (hrest : Misfit rest fault) :
    parse (front ++ rest) = .error fault := by
  rw [parse, read_row hfront, read_misfit hrest]
  rfl

/-- A row of items is read as what it asks for. -/
theorem parse_row_eq_ok_iff {request : Request} (h : Spells items arguments) :
    parse arguments = .ok request ↔ Asks items request := by
  rw [parse_row h]
  constructor
  · intro hparse
    split at hparse
    · cases hparse
    · rename_i operation hoperation
      cases hparse
      exact ⟨hoperation, rfl, rfl, decide_eq_true_iff⟩
  · rintro ⟨hoperation, hconfig, hroot, hverbose⟩
    simp only [hoperation, ← hconfig, ← hroot, ← hverbose, Bool.decide_eq_true]

/-- A row of items is turned down when it names no operation. -/
theorem parse_row_eq_error_iff (h : Spells items arguments) :
    parse arguments = .error fault ↔ fault = .missingOperation ∧ ∀ o, .operation o ∉ items := by
  rw [parse_row h, ← getLast?_operation_eq_none_iff]
  cases (items.filterMap Item.operation?).getLast? with
  | none => simp [eq_comm]
  | some operation => simp

theorem parse_eq_ok_iff {request : Request} :
    parse arguments = .ok request ↔ ∃ items, Spells items arguments ∧ Asks items request := by
  constructor
  · intro hparse
    obtain ⟨items, front, rest, rfl, hfront, rfl | ⟨fault, hrest⟩⟩ := exists_row arguments
    · rw [List.append_nil] at hparse ⊢
      exact ⟨items, hfront, (parse_row_eq_ok_iff hfront).mp hparse⟩
    · rw [parse_misfit hfront hrest] at hparse
      cases hparse
  · rintro ⟨items, hitems, hasks⟩
    exact (parse_row_eq_ok_iff hitems).mpr hasks

theorem exists_parse_eq_ok_iff :
    (∃ request, parse arguments = .ok request) ↔
      ∃ items, Spells items arguments ∧ ∃ o, .operation o ∈ items := by
  constructor
  · rintro ⟨request, hparse⟩
    obtain ⟨items, hitems, hasks⟩ := parse_eq_ok_iff.mp hparse
    refine ⟨items, hitems, Classical.not_forall_not.mp fun hnone => ?_⟩
    have hlast := hasks.operation
    rw [getLast?_operation_eq_none_iff.mpr hnone] at hlast
    cases hlast
  · rintro ⟨items, hitems, o, ho⟩
    cases hparse : parse arguments with
    | ok request => exact ⟨request, rfl⟩
    | error fault => exact absurd ho (((parse_row_eq_error_iff hitems).mp hparse).2 o)

theorem parse_eq_error_iff :
    parse arguments = .error fault ↔
      (fault = .missingOperation ∧ ∃ items, Spells items arguments ∧ ∀ o, .operation o ∉ items) ∨
      ∃ items front rest, arguments = front ++ rest ∧ Spells items front ∧ Misfit rest fault ∧
        ∀ items' front', Spells items' front' → front' <+: arguments →
          items' <+: items ∧ front' <+: front := by
  constructor
  · intro hparse
    obtain ⟨items, front, rest, rfl, hfront, rfl | ⟨fault', hrest⟩⟩ := exists_row arguments
    · rw [List.append_nil] at hparse ⊢
      obtain ⟨hfault, hnone⟩ := (parse_row_eq_error_iff hfront).mp hparse
      exact .inl ⟨hfault, items, hfront, hnone⟩
    · rw [parse_misfit hfront hrest] at hparse
      cases hparse
      exact .inr ⟨items, front, rest, rfl, hfront, hrest,
        fun _ _ hfront' => hfront.prefix_of_misfit hrest hfront'⟩
  · rintro (⟨hfault, items, hitems, hnone⟩ | ⟨items, front, rest, rfl, hfront, hrest, -⟩)
    · exact (parse_row_eq_error_iff hitems).mpr ⟨hfault, hnone⟩
    · exact parse_misfit hfront hrest

/-- **A command line is read by its grammar.** It is accepted as a request exactly when it is a row
of items that asks for it, and it is accepted at all exactly when it is a row of items with an
operation among them; there is one such row at most. Otherwise the fault is that of the first
argument that begins no item, behind the longest row of items, or else the operation is missing. -/
theorem parse_reads_row (arguments : List String) :
    (∀ request, parse arguments = .ok request ↔
      ∃ items, Spells items arguments ∧ Asks items request) ∧
    ((∃ request, parse arguments = .ok request) ↔
      ∃ items, Spells items arguments ∧ ∃ o, .operation o ∈ items) ∧
    (∀ items items', Spells items arguments → Spells items' arguments → items' = items) ∧
    (∀ fault, parse arguments = .error fault ↔
      (fault = .missingOperation ∧
        ∃ items, Spells items arguments ∧ ∀ o, .operation o ∉ items) ∨
      ∃ items front rest, arguments = front ++ rest ∧ Spells items front ∧ Misfit rest fault ∧
        ∀ items' front', Spells items' front' → front' <+: arguments →
          items' <+: items ∧ front' <+: front) :=
  ⟨fun _ => parse_eq_ok_iff, exists_parse_eq_ok_iff, fun _ _ h h' => h.unique h',
    fun _ => parse_eq_error_iff⟩

example : parse ["-BUILD", "-c", "-r"] = .ok ⟨.build, some ⟨"-r"⟩, ⟨"."⟩, false⟩ := by
  cbv

end CommandLine

end ShaderBuild
