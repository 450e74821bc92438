import TypeAssay.Proofs.Findings
import TypeAssay.Proofs.Reordering

/-!
# The first declaration wins

Items that are checked later do not change what was found before: the state after some items is the
beginning of the state after more of them. So a name stands for what its first declaration stood for
where it was checked, and each later declaration of it is an error that points to the first one
(`checkFile_first_declarations`). The errors at later declarations are told from the items alone:
`redeclarations` runs through them, with those that come before each.
-/

namespace TypeAssay

open TypeTable Checking

/-! ## Declarations of a name -/

/-- The declaration of a name that an item is, if it is one. -/
def Item.declaration? (name : String) : Item → Option AliasDecl
  | .alias d => if (Item.alias d).declares? = some name then some d else none
  | .expr _ => none

/-- The first declaration of a name among some items. -/
def firstDeclaration? (items : List Item) (name : String) : Option AliasDecl :=
  items.findSome? (Item.declaration? name)

/-- The error at an item that declares a name again. -/
def redeclared? (before : List Item) : Item → Option CheckError
  | .alias d =>
    if TypeId.ofName? d.name = none then
      (firstDeclaration? before d.name).map fun first =>
        ⟨.duplicateAlias d.name first.nameSpan, d.nameSpan⟩
    else none
  | .expr _ => none

/-- The errors at the items that declare a name again, behind the items `before` them. -/
def redeclarations (before : List Item) : List Item → List CheckError
  | [] => []
  | item :: rest => (redeclared? before item).toList ++ redeclarations (before ++ [item]) rest

section

variable {items before rest : List Item} {item : Item} {name : String} {d : AliasDecl}

/-- An item declares a name by an alias of this name, if it is free. -/
theorem Item.declaration?_eq_some : item.declaration? name = some d ↔
    item = .alias d ∧ TypeId.ofName? d.name = none ∧ d.name = name := by
  rcases item with d' | e
  · rw [declaration?]
    constructor
    · intro h
      split at h
      · rename_i hdeclares
        obtain ⟨_, hsame, hbuiltin, hname⟩ := exists_alias_of_declares? hdeclares
        obtain rfl := Item.alias.inj hsame
        obtain rfl := Option.some.inj h
        exact ⟨rfl, hbuiltin, hname⟩
      · exact absurd h (by simp)
    · rintro ⟨hsame, hbuiltin, rfl⟩
      obtain rfl := Item.alias.inj hsame
      exact if_pos (declares?_alias hbuiltin)
  · simp [declaration?]

/-- An item without a declaration of a name does not declare it. -/
theorem Item.declaration?_eq_none : item.declaration? name = none ↔ item.declares? ≠ some name := by
  rcases item with d | e
  · rw [declaration?]
    split <;> simp [*]
  · simp [declaration?, declares?]

/-- Items without a declaration of a name do not declare it. -/
theorem forall_declaration?_eq_none :
    (∀ item ∈ items, item.declaration? name = none) ↔ name ∉ declaredNames items := by
  simp only [Item.declaration?_eq_none, declaredNames, List.mem_filterMap, not_exists, not_and,
    ne_eq]

/-- Nothing before the first declaration of a name declares it. -/
theorem firstDeclaration?_eq_some : firstDeclaration? items name = some d ↔
    ∃ before rest, items = before ++ .alias d :: rest ∧ TypeId.ofName? d.name = none ∧
      d.name = name ∧ name ∉ declaredNames before := by
  rw [firstDeclaration?, List.findSome?_eq_some_iff]
  constructor
  · rintro ⟨before, item, rest, rfl, hitem, hbefore⟩
    obtain ⟨rfl, hbuiltin, hname⟩ := Item.declaration?_eq_some.mp hitem
    exact ⟨before, rest, rfl, hbuiltin, hname, forall_declaration?_eq_none.mp hbefore⟩
  · rintro ⟨before, rest, rfl, hbuiltin, hname, hbefore⟩
    exact ⟨before, .alias d, rest, rfl, Item.declaration?_eq_some.mpr ⟨rfl, hbuiltin, hname⟩,
      forall_declaration?_eq_none.mpr hbefore⟩

/-- A name has no first declaration exactly if it is not declared. -/
theorem firstDeclaration?_eq_none :
    firstDeclaration? items name = none ↔ name ∉ declaredNames items := by
  rw [firstDeclaration?, List.findSome?_eq_none_iff, forall_declaration?_eq_none]

/-- Later items declare again what all items before them declare. -/
theorem redeclarations_append (before items rest : List Item) :
    redeclarations before (items ++ rest) =
      redeclarations before items ++ redeclarations (before ++ items) rest := by
  induction items generalizing before with
  | nil => simp [redeclarations]
  | cons item items ih => simp [redeclarations, ih]

theorem redeclarations_singleton (before : List Item) (item : Item) :
    redeclarations before [item] = (redeclared? before item).toList := List.append_nil _

end

/-! ## What a name stands for -/

section

variable {T : TypeTable} {items before rest : List Item} {name : String}

/-- What a name stands for was found at its first declaration. -/
theorem alias?_checkFile_eq_some {a : AliasValue} :
    (checkFile T ⟨items⟩).alias? name = some a ↔ ∃ before d rest,
      items = before ++ .alias d :: rest ∧ TypeId.ofName? d.name = none ∧ d.name = name ∧
        name ∉ declaredNames before ∧
        a = ⟨name, ((resolve d.value).run (checkFile T ⟨before⟩)).1, d.nameSpan⟩ := by
  constructor
  · intro ha
    have hdeclared : name ∈ declaredNames items := by
      rw [← isSome_alias?_checkFile T, ha]
      rfl
    obtain ⟨d, hd⟩ := Option.ne_none_iff_exists'.mp fun hnone =>
      firstDeclaration?_eq_none.mp hnone hdeclared
    obtain ⟨before, rest, rfl, hbuiltin, rfl, hbefore⟩ := firstDeclaration?_eq_some.mp hd
    rw [alias?_checkFile hbuiltin hbefore] at ha
    exact ⟨before, d, rest, rfl, hbuiltin, rfl, hbefore, (Option.some.inj ha).symm⟩
  · rintro ⟨before, d, rest, rfl, hbuiltin, rfl, hbefore, rfl⟩
    exact alias?_checkFile hbuiltin hbefore T

/-- A name is declared at its first declaration. -/
theorem declaredAt?_checkFile (T : TypeTable) (items : List Item) (name : String) :
    (checkFile T ⟨items⟩).declaredAt? name =
      (firstDeclaration? items name).map AliasDecl.nameSpan := by
  rw [CheckState.declaredAt?]
  cases hfirst : firstDeclaration? items name with
  | none =>
    have hnone := firstDeclaration?_eq_none.mp hfirst
    rw [← isSome_alias?_checkFile T, Option.not_isSome_iff_eq_none] at hnone
    rw [hnone]
    rfl
  | some d =>
    obtain ⟨before, rest, rfl, hbuiltin, rfl, hbefore⟩ := firstDeclaration?_eq_some.mp hfirst
    rw [alias?_checkFile hbuiltin hbefore]
    rfl

end

/-! ## Later declarations -/

/-- Whether the fault is that an alias is declared again. -/
def CheckFault.isDuplicateAlias : CheckFault → Bool
  | duplicateAlias .. => true
  | _ => false

/-- The errors at the later declarations of an alias, among some errors. -/
def duplicates (errors : List CheckError) : List CheckError :=
  errors.filter (·.fault.isDuplicateAlias)

section

variable {s : CheckState} {T : TypeTable} {e : TypeExpr} {errors : List CheckError}

/-- The errors of later items come behind those of the first ones. -/
theorem duplicates_append (errors more : List CheckError) :
    duplicates (errors ++ more) = duplicates errors ++ duplicates more :=
  List.filter_append ..

/-- What an operator refuses is no declaration. -/
theorem Operator.Refuses.isDuplicateAlias {op : Operator} {span : Span} {err : CheckError}
    (h : op.Refuses span err) : err.fault.isDuplicateAlias = false := by
  cases h <;> rfl

/-- What an expression is to blame for is no declaration. -/
theorem TypeExpr.Blames.isDuplicateAlias {err : CheckError} (h : e.Blames err) :
    err.fault.isDuplicateAlias = false := by
  cases h with
  | argument _ hrefuses => exact hrefuses.isDuplicateAlias
  | _ => rfl

/-- An expression declares nothing. -/
theorem TypeExpr.Finds.duplicates (h : e.Finds errors) : duplicates errors = [] := by
  refine List.filter_eq_nil_iff.mpr fun err herr => ?_
  obtain ⟨x, -, hx⟩ := h.exists_blames herr
  simp [hx.isDuplicateAlias]

/-- Among the errors at an item is one that it is a later declaration, if it is. -/
theorem Item.Finds.duplicates {before : List Item} {item : Item}
    (h : item.Finds (checkFile T ⟨before⟩).declaredAt? errors) :
    duplicates errors = (redeclared? before item).toList := by
  -- only an alias with a free name that has an alias already adds one
  cases h with
  | expression h => exact h.duplicates
  | reserved hname h =>
    rw [redeclared?, if_neg hname]
    exact h.duplicates
  | new hname hnew h =>
    rw [declaredAt?_checkFile, Option.map_eq_none_iff] at hnew
    rw [redeclared?, if_pos hname, hnew]
    exact h.duplicates
  | duplicate hname hfirst h =>
    rw [declaredAt?_checkFile] at hfirst
    obtain ⟨d', hd', rfl⟩ := Option.map_eq_some_iff.mp hfirst
    rw [redeclared?, if_pos hname, hd', duplicates_append, h.duplicates]
    rfl

/-- Every later declaration of an alias is one error, and there are no others. -/
theorem duplicates_checkFile (hT : T.Tidy) (items : List Item) :
    duplicates (checkFile T ⟨items⟩).errors = redeclarations [] items := by
  -- one item more at the end: the state before it tells which names are declared
  induction items using List.reverseRecOn with
  | nil => rfl
  | append_singleton before item ih =>
    obtain ⟨errors, herrors, hfinds⟩ := adds_checkItem item (tidy_checkFile ⟨before⟩ hT).2
    have hlast : (checkFile T ⟨before ++ [item]⟩).errors =
        (checkFile T ⟨before⟩).errors ++ errors := by
      rw [checkFile_append, ← herrors]
      rfl
    rw [hlast, duplicates_append, ih, hfinds.duplicates, redeclarations_append,
      redeclarations_singleton, List.nil_append]

end

/-- What checking some items has found is the beginning of what checking more items finds: their
errors and expressions come first, a type keeps its id and an alias what it stands for. A name
stands for what its first declaration resolves to behind the items before it, unless it is the name
of a built-in type, and each later declaration of it adds one error, which points to the first
one. -/
theorem checkFile_first_declarations (o : Options) (xs ys : List Item) :
    let s := checkFile (withOptions o) ⟨xs⟩
    let s' := checkFile (withOptions o) ⟨xs ++ ys⟩
    s.errors <+: s'.errors ∧ s.expressions <+: s'.expressions ∧
    (∀ i t, s.table.get? i = some t → s'.table.get? i = some t) ∧
    (∀ t i, s.table.lookup t = some i → s'.table.lookup t = some i) ∧
    (∀ name a, s.alias? name = some a → s'.alias? name = some a) ∧
    (∀ name a, s'.alias? name = some a ↔ ∃ before d rest, xs ++ ys = before ++ .alias d :: rest ∧
      TypeId.ofName? d.name = none ∧ d.name = name ∧ name ∉ declaredNames before ∧
      a = ⟨name, ((resolve d.value).run (checkFile (withOptions o) ⟨before⟩)).1, d.nameSpan⟩) ∧
    duplicates s'.errors = redeclarations [] (xs ++ ys) := by
  intro s s'
  have hT : (withOptions o).Tidy := tidy_withOptions o
  have hprecedes : s.Precedes s' := precedes_checkFile_append _ xs ys
  have hbuilds : s.table.Builds s'.table := builds_checkFile_append hT xs ys
  refine ⟨hprecedes.errors, hprecedes.expressions, fun i t => hbuilds.get?, fun t i hi => ?_,
    fun name a => hprecedes.alias?_eq, fun name a => alias?_checkFile_eq_some,
    duplicates_checkFile hT _⟩
  exact lookup_eq_some_iff.mpr (hbuilds.get? (lookup_eq_some_iff.mp hi))

/-- Of three declarations of a name the second and the third are errors that point to the first. -/
example :
    let three : List Item := [
      .alias ⟨"A", ⟨5, 6, 1, 6⟩, false, .string "a" default, default⟩,
      .alias ⟨"A", ⟨15, 16, 2, 6⟩, false, .string "b" default, default⟩,
      .alias ⟨"A", ⟨25, 26, 3, 6⟩, false, .named "A" [] default, default⟩]
    redeclarations [] three = [⟨.duplicateAlias "A" ⟨5, 6, 1, 6⟩, ⟨15, 16, 2, 6⟩⟩,
      ⟨.duplicateAlias "A" ⟨5, 6, 1, 6⟩, ⟨25, 26, 3, 6⟩⟩] := by decide +kernel

end TypeAssay
