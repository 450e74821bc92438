import TypeAssay.Proofs.Counterparts
import TypeAssay.Proofs.Transparency

/-!
# The order of items

Declarations that do not depend on each other can be put into another order: every alias and every
top-level expression keeps its type, up to the order of members, and so the outcome that it is
(`checkFile_reordered`). The two runs number their types differently from the first declaration on,
so nothing can be said of their states as wholes. What corresponds is what has been checked: after
any part of the one file, the aliases that it declares stand for twins in the ends of both runs
(`Reorders.twinAliases_of_initial`). An item reads nothing else, for all that it mentions is
declared before it in either file.
-/

namespace TypeAssay

open TypeTable Checking

/-! ## Twins in earlier tables -/

namespace TypeTable

variable {T U V W : TypeTable} {i j : TypeId}

/-- Types that unfold to the same tree later on did so before: their parts came with them. -/
theorem Twins.of_grows (h : Twins V W i j) (hTV : Grows T V) (hUW : Grows U W)
    (hi : T.Canonical i) (hj : U.Canonical j) : Twins T U i j := by
  refine ⟨hi, hj, ?_⟩
  have hsimilar : Similar .sets V W i j := h.similar
  clear h
  induction hsimilar with
  | @node i j t u R _ ht hu h ih =>
    -- old ids have old nodes
    rw [hTV.get?_eq hi.lt_size] at ht
    rw [hUW.get?_eq hj.lt_size] at hu
    refine (similar_iff ht).mpr ⟨u, hu, h.mono fun a ha b hb hab => ?_⟩
    exact ih a b hab (hi.part ht ha) (hj.part hu hb)

/-- The name of a built-in type means the same in all tables. -/
theorem twins_of_ofName? {name : String} (hT : T.HasBuiltins) (hU : U.HasBuiltins)
    (h : TypeId.ofName? name = some i) : Twins T U i i := by
  obtain ⟨-, rfl⟩ | rfl | rfl | ⟨b, rfl⟩ | rfl | ⟨p, rfl⟩ := ofName?_cases h
  · exact twins_any hT hU
  · exact twins_never hT hU
  · exact twins_unknown hT hU
  · exact twins_ofBool hT hU b
  · exact twins_boolean hT hU
  · exact twins_primitive hT hU p

/-- Twins are the same outcome, if they are one. -/
theorem Twins.ofType?_eq (h : Twins T U i j) (hT : T.HasBuiltins) (hU : U.HasBuiltins) :
    Outcome.ofType? i = Outcome.ofType? j := by
  unfold Outcome.ofType?
  congr 1
  funext r
  show decide (r.toType = i) = decide (r.toType = j)
  exact decide_eq_decide.mpr ((twins_toType hT hU r).eq_iff h)

end TypeTable

/-! ## Items -/

namespace Item

/-- An item without the places where it and its parts stand. -/
def bare : Item → Item
  | .alias d => .alias { d with nameSpan := default, value := d.value.bare, span := default }
  | .expr e => .expr e.bare

/-- The expression that an item is. -/
def expr? : Item → Option TypeExpr
  | .alias _ => none
  | .expr e => some e

/-- The names that an item mentions do not depend on spans. -/
@[simp]
theorem names_bare (item : Item) : item.bare.names = item.names := by
  cases item <;> exact TypeExpr.names_bare _

/-- The name that an item declares does not depend on spans. -/
@[simp]
theorem declares?_bare (item : Item) : item.bare.declares? = item.declares? := by
  cases item <;> rfl

end Item

/-- The names that some items declare. -/
def declaredNames (items : List Item) : List String := items.filterMap Item.declares?

/-- The expressions among some items. -/
def topLevel (items : List Item) : List TypeExpr := items.filterMap Item.expr?

/-- Every name that is declared at all is declared before it is mentioned. -/
def DeclaredFirst (items : List Item) : Prop :=
  ∀ k : Fin items.length, ∀ name ∈ items[k].names, name ∈ declaredNames items →
    name ∈ declaredNames (items.take k)

instance (items : List Item) : Decidable (DeclaredFirst items) :=
  inferInstanceAs (Decidable (∀ k : Fin items.length, ∀ name ∈ items[k].names,
    name ∈ declaredNames items → name ∈ declaredNames (items.take k)))

variable {items before rest : List Item} {item : Item} {name : String}

/-- A name that is declared at all is declared before it is mentioned. -/
theorem DeclaredFirst.mem_declaredNames (h : DeclaredFirst (before ++ item :: rest))
    (hname : name ∈ item.names) (hdeclared : name ∈ declaredNames (before ++ item :: rest)) :
    name ∈ declaredNames before := by
  have hlt : before.length < (before ++ item :: rest).length := by simp
  simpa using h ⟨before.length, hlt⟩ name (by simpa using hname) hdeclared

/-- The names of the first items come first. -/
theorem declaredNames_append (before rest : List Item) :
    declaredNames (before ++ rest) = declaredNames before ++ declaredNames rest :=
  List.filterMap_append

/-- Only an alias declares a name. -/
theorem exists_alias_of_mem_declaredNames (h : name ∈ declaredNames [item]) :
    ∃ d, item = .alias d ∧ TypeId.ofName? d.name = none ∧ d.name = name := by
  obtain ⟨_, hitem, hname⟩ := List.mem_filterMap.mp h
  obtain rfl := List.mem_singleton.mp hitem
  exact Item.exists_alias_of_declares? hname

/-- A name that is declared once is not declared before. -/
theorem notMem_declaredNames {d : AliasDecl} (hbuiltin : TypeId.ofName? d.name = none)
    (h : (declaredNames (before ++ .alias d :: rest)).Nodup) : d.name ∉ declaredNames before := by
  have hdeclares : d.name ∈ declaredNames (.alias d :: rest) :=
    List.mem_filterMap.mpr ⟨_, List.mem_cons_self, Item.declares?_alias hbuiltin⟩
  rw [declaredNames_append] at h
  exact fun hbefore => List.disjoint_of_nodup_append h hbefore hdeclares

/-- The declared names do not depend on spans. -/
theorem declaredNames_map_bare (items : List Item) :
    declaredNames (items.map Item.bare) = declaredNames items := by
  rw [declaredNames, declaredNames, List.filterMap_map]
  exact List.filterMap_congr fun item _ => item.declares?_bare

/-! ## What a file declares -/

variable {s : CheckState}

/-- The items behind others are checked in the state that these leave. -/
theorem run_checkItems_append (before rest : List Item) (s : CheckState) :
    (checkItems (before ++ rest)).run s =
      (checkItems rest).run ((checkItems before).run s).2 := by
  induction before generalizing s with
  | nil => rfl
  | cons item before ih => exact ih _

/-- After an item a name stands for something if it did before, or if the item declares it. -/
theorem isSome_alias?_checkItem (item : Item) (name : String) (s : CheckState) :
    (((checkItem item).run s).2.alias? name).isSome ↔
      (s.alias? name).isSome ∨ item.declares? = some name := by
  by_cases hdeclares : item.declares? = some name
  · obtain ⟨d, rfl, hbuiltin, rfl⟩ := Item.exists_alias_of_declares? hdeclares
    refine iff_of_true ?_ (.inr hdeclares)
    show (((checkAlias d).run s).2.alias? d.name).isSome
    obtain ⟨-, hnew, hrun⟩ | ⟨hrefused, hcontinues, -⟩ := checkAlias_cases d s
    · rw [hrun, CheckState.alias?_declare_self hnew]
      rfl
    · -- the name is no built-in one, so it was declared before
      rw [CheckState.alias?, hcontinues.aliases, Option.isSome_iff_ne_none]
      exact hrefused.resolve_left (not_not_intro hbuiltin)
  · rw [alias?_checkItem hdeclares, or_iff_left hdeclares]

/-- The names that have an alias are those that had one or are declared. -/
theorem isSome_alias?_checkItems (items : List Item) (name : String) (s : CheckState) :
    (((checkItems items).run s).2.alias? name).isSome ↔
      (s.alias? name).isSome ∨ name ∈ declaredNames items := by
  induction items generalizing s with
  | nil => exact (or_iff_left List.not_mem_nil).symm
  | cons item rest ih =>
    show (((checkItems rest).run ((checkItem item).run s).2).2.alias? name).isSome ↔ _
    rw [ih, isSome_alias?_checkItem, or_assoc, declaredNames, declaredNames, List.mem_filterMap,
      List.mem_filterMap, List.exists_mem_cons_iff]

variable {T : TypeTable}

/-- The aliases of a file are the names that it declares. -/
theorem isSome_alias?_checkFile (T : TypeTable) (items : List Item) (name : String) :
    ((checkFile T ⟨items⟩).alias? name).isSome ↔ name ∈ declaredNames items := by
  rw [checkFile, isSome_alias?_checkItems]
  exact or_iff_right (by simp [CheckState.alias?])

/-- The first part of a file is checked by itself. -/
theorem checkFile_append (T : TypeTable) (before rest : List Item) :
    checkFile T ⟨before ++ rest⟩ = ((checkItems rest).run (checkFile T ⟨before⟩)).2 := by
  rw [checkFile, run_checkItems_append]
  rfl

/-- What the first items have found is kept. -/
theorem precedes_checkFile_append (T : TypeTable) (before rest : List Item) :
    (checkFile T ⟨before⟩).Precedes (checkFile T ⟨before ++ rest⟩) := by
  rw [checkFile_append]
  exact proceeds_checkItems rest _

/-- The table of the first items is built up further. -/
theorem builds_checkFile_append (hT : T.Tidy) (before rest : List Item) :
    (checkFile T ⟨before⟩).table.Builds (checkFile T ⟨before ++ rest⟩).table := by
  rw [checkFile_append]
  exact (yields_checkItems rest (tidy_checkFile ⟨before⟩ hT).2).1

/-- Where a name is declared before it is mentioned, it means then what it means in the end. -/
theorem DeclaredFirst.alias?_eq (h : DeclaredFirst (before ++ item :: rest))
    (hname : name ∈ item.names) (T : TypeTable) :
    (checkFile T ⟨before⟩).alias? name = (checkFile T ⟨before ++ item :: rest⟩).alias? name := by
  cases hbefore : (checkFile T ⟨before⟩).alias? name with
  | some a => exact ((precedes_checkFile_append T before _).alias?_eq hbefore).symm
  | none =>
    refine (Option.not_isSome_iff_eq_none.mp fun hsome => ?_).symm
    have hdeclared := h.mem_declaredNames hname ((isSome_alias?_checkFile T _ name).mp hsome)
    rw [← isSome_alias?_checkFile T, hbefore] at hdeclared
    exact absurd hdeclared (by simp)

/-- The first declaration of a name says what it stands for in the end. -/
theorem alias?_checkFile {d : AliasDecl} (hbuiltin : TypeId.ofName? d.name = none)
    (hnew : d.name ∉ declaredNames before) (T : TypeTable) :
    (checkFile T ⟨before ++ .alias d :: rest⟩).alias? d.name =
      some ⟨d.name, ((resolve d.value).run (checkFile T ⟨before⟩)).1, d.nameSpan⟩ := by
  rw [← isSome_alias?_checkFile T, Option.not_isSome_iff_eq_none] at hnew
  rw [List.append_cons]
  refine (precedes_checkFile_append T (before ++ [.alias d]) rest).alias?_eq ?_
  rw [checkFile_append]
  show ((checkAlias d).run (checkFile T ⟨before⟩)).2.alias? d.name = _
  rw [run_checkAlias_of_new hbuiltin hnew, CheckState.alias?_declare_self hnew]

/-- What an item builds is there in the end. -/
theorem builds_checkFile (hT : T.Tidy) (before rest : List Item) (item : Item) :
    ((checkItem item).run (checkFile T ⟨before⟩)).2.table.Builds
      (checkFile T ⟨before ++ item :: rest⟩).table := by
  have hbuilds := builds_checkFile_append hT (before ++ [item]) rest
  rw [checkFile_append T before [item]] at hbuilds
  rw [List.append_cons]
  exact hbuilds

/-- The table is built up from the one in which an alias is resolved. -/
theorem builds_checkFile_alias {d : AliasDecl} (hT : T.Tidy)
    (hbuiltin : TypeId.ofName? d.name = none) (hnew : d.name ∉ declaredNames before) :
    ((resolve d.value).run (checkFile T ⟨before⟩)).2.table.Builds
      (checkFile T ⟨before ++ .alias d :: rest⟩).table := by
  rw [← isSome_alias?_checkFile T, Option.not_isSome_iff_eq_none] at hnew
  have hbuilds := builds_checkFile hT before rest (.alias d)
  rw [checkItem, run_checkAlias_of_new hbuiltin hnew] at hbuilds
  exact hbuilds

/-- The table is built up from the one in which an expression is resolved. -/
theorem builds_checkFile_expr {e : TypeExpr} (hT : T.Tidy) :
    ((resolve e).run (checkFile T ⟨before⟩)).2.table.Builds
      (checkFile T ⟨before ++ .expr e :: rest⟩).table := by
  have hbuilds := builds_checkFile hT before rest (.expr e)
  rw [run_checkItem_expr] at hbuilds
  exact hbuilds

/-! ## Files with the same items -/

/-- Two files have the same items. Their aliases have different names, and in both files names are
declared before they are mentioned. -/
structure Reorders (items items' : List Item) : Prop where
  perm : (items.map Item.bare).Perm (items'.map Item.bare)
  distinct : (declaredNames items).Nodup
  left : DeclaredFirst items
  right : DeclaredFirst items'

/-- In both states a name is the alias of twins, or it is no alias. -/
def TwinAliases (s s' : CheckState) (name : String) : Prop :=
  Option.Rel (fun a b => Twins s.table s'.table a.type b.type) (s.alias? name) (s'.alias? name)

/-- A name whose aliases are twins means twins in both states. -/
theorem TwinAliases.referent? {s' : CheckState} (h : TwinAliases s s' name) (hs : s.Tidy)
    (hs' : s'.Tidy) :
    Option.Rel (Referent.Twins s.table s'.table) (s.referent? name) (s'.referent? name) := by
  unfold CheckState.referent?
  cases hbuiltin : TypeId.ofName? name with
  | some i =>
    exact .some (.plain (twins_of_ofName? hs.table.hasBuiltins hs'.table.hasBuiltins hbuiltin))
  | none =>
    revert h
    unfold TwinAliases
    generalize s.alias? name = a, s'.alias? name = b
    rintro (hab | _)
    · exact .some (.plain hab)
    · show Option.Rel _ ((declaration? name).map Referent.relation) _
      cases declaration? name with
      | none => exact .none
      | some d => exact .some (.relation d)

namespace Reorders

variable {items' before' rest' : List Item} {item' : Item}

/-- The same names are declared in either order. -/
theorem declaredNames_perm (h : Reorders items items') :
    (declaredNames items).Perm (declaredNames items') := by
  rw [← declaredNames_map_bare items, ← declaredNames_map_bare items']
  exact h.perm.filterMap _

/-- A name that is not declared has no alias in either file. -/
theorem twinAliases_of_notMem (h : Reorders items items') (hname : name ∉ declaredNames items) :
    TwinAliases (checkFile T ⟨items⟩) (checkFile T ⟨items'⟩) name := by
  have hname' : name ∉ declaredNames items' := mt h.declaredNames_perm.mem_iff.mpr hname
  rw [← isSome_alias?_checkFile T, Option.not_isSome_iff_eq_none] at hname hname'
  rw [TwinAliases, hname, hname']
  exact .none

/-- When an item is checked, the names that it mentions stand for twins, if they do in the end. -/
theorem counterparts (h : Reorders (before ++ item :: rest) (before' ++ item' :: rest'))
    (hT : T.Tidy) (hitem : item.bare = item'.bare)
    (hnames : ∀ name ∈ declaredNames before, TwinAliases (checkFile T ⟨before ++ item :: rest⟩)
      (checkFile T ⟨before' ++ item' :: rest'⟩) name) :
    (checkFile T ⟨before⟩).Counterparts item.names (checkFile T ⟨before'⟩) := by
  obtain ⟨hbuilds, hs⟩ := tidy_checkFile ⟨before⟩ hT
  obtain ⟨hbuilds', hs'⟩ := tidy_checkFile ⟨before'⟩ hT
  refine ⟨hs, hs', by rw [hbuilds.grows.options_eq, hbuilds'.grows.options_eq], ?_⟩
  intro name hname
  have hname' : name ∈ item'.names := by rwa [← item'.names_bare, ← hitem, item.names_bare]
  have hend : TwinAliases (checkFile T ⟨before ++ item :: rest⟩)
      (checkFile T ⟨before' ++ item' :: rest'⟩) name := by
    by_cases hdeclared : name ∈ declaredNames (before ++ item :: rest)
    · exact hnames name (h.left.mem_declaredNames hname hdeclared)
    · exact h.twinAliases_of_notMem hdeclared
  -- nothing that follows gives the name another meaning
  rw [TwinAliases, ← h.left.alias?_eq hname T, ← h.right.alias?_eq hname' T] at hend
  have htwins : TwinAliases (checkFile T ⟨before⟩) (checkFile T ⟨before'⟩) name := by
    refine rel_imp hend fun a ha b hb hab => ?_
    exact hab.of_grows (builds_checkFile_append hT before _).grows
      (builds_checkFile_append hT before' _).grows (hs.aliases a (List.mem_of_find?_eq_some ha))
      (hs'.aliases b (List.mem_of_find?_eq_some hb))
  exact htwins.referent? hs hs'

/-- Every item of the one file is an item of the other one. -/
theorem exists_counterpart (h : Reorders (before ++ item :: rest) items') :
    ∃ before' item' rest', items' = before' ++ item' :: rest' ∧ item.bare = item'.bare := by
  have hmem : item.bare ∈ items'.map Item.bare :=
    h.perm.mem_iff.mp (List.mem_map_of_mem (List.mem_append_right before List.mem_cons_self))
  obtain ⟨item', hitem', hbare⟩ := List.mem_map.mp hmem
  obtain ⟨before', rest', rfl⟩ := List.append_of_mem hitem'
  exact ⟨before', item', rest', rfl, hbare.symm⟩

/-- An alias stands for twins if what was declared before does. -/
theorem twinAliases_of_alias {d : AliasDecl}
    (h : Reorders (before ++ .alias d :: rest) items') (hT : T.Tidy)
    (hbuiltin : TypeId.ofName? d.name = none)
    (hnames : ∀ name ∈ declaredNames before,
      TwinAliases (checkFile T ⟨before ++ .alias d :: rest⟩) (checkFile T ⟨items'⟩) name) :
    TwinAliases (checkFile T ⟨before ++ .alias d :: rest⟩) (checkFile T ⟨items'⟩) d.name := by
  obtain ⟨before', item', rest', rfl, hitem⟩ := h.exists_counterpart
  have hstates := h.counterparts hT hitem hnames
  rcases item' with d' | e'
  · obtain ⟨hname, hvalue⟩ : d.name = d'.name ∧ d.value.bare = d'.value.bare := by
      simp only [Item.bare, Item.alias.injEq, AliasDecl.mk.injEq] at hitem
      exact ⟨hitem.1, hitem.2.2.2.1⟩
    have hbuiltin' : TypeId.ofName? d'.name = none := hname ▸ hbuiltin
    have hnew := notMem_declaredNames hbuiltin h.distinct
    have hnew' := notMem_declaredNames hbuiltin' (h.declaredNames_perm.nodup h.distinct)
    have htwins := (twinned_resolve hvalue _ _ (List.Subset.refl _) hstates).answers
    rw [TwinAliases, alias?_checkFile hbuiltin hnew, hname, alias?_checkFile hbuiltin' hnew']
    exact .some (htwins.grows (builds_checkFile_alias hT hbuiltin hnew).grows
      (builds_checkFile_alias hT hbuiltin' hnew').grows)
  · exact absurd hitem (by simp [Item.bare])

/-- As far as the one file is checked, what it declares stands for twins in the ends of both. -/
theorem twinAliases_of_initial (h : Reorders items items') (hT : T.Tidy)
    (hinitial : before <+: items) (hname : name ∈ declaredNames before) :
    TwinAliases (checkFile T ⟨items⟩) (checkFile T ⟨items'⟩) name := by
  -- one item more of the one file; where it stands in the other one makes no difference
  induction before using List.reverseRecOn generalizing name with
  | nil => exact absurd hname List.not_mem_nil
  | append_singleton before item ih =>
    have hbefore : ∀ name ∈ declaredNames before,
        TwinAliases (checkFile T ⟨items⟩) (checkFile T ⟨items'⟩) name := fun name hname =>
      ih ((List.prefix_append before [item]).trans hinitial) hname
    rw [declaredNames_append, List.mem_append] at hname
    rcases hname with hname | hname
    · exact hbefore name hname
    obtain ⟨rest, rfl⟩ := hinitial
    rw [← List.append_cons] at h hbefore ⊢
    obtain ⟨d, rfl, hbuiltin, rfl⟩ := exists_alias_of_mem_declaredNames hname
    exact h.twinAliases_of_alias hT hbuiltin hbefore

/-- Every name stands for twins in the ends of both files, or for nothing in either. -/
theorem twinAliases (h : Reorders items items') (hT : T.Tidy) (name : String) :
    TwinAliases (checkFile T ⟨items⟩) (checkFile T ⟨items'⟩) name := by
  by_cases hdeclared : name ∈ declaredNames items
  · exact h.twinAliases_of_initial hT (List.prefix_refl items) hdeclared
  · exact h.twinAliases_of_notMem hdeclared

end Reorders

/-! ## Expressions -/

/-- Declaring an alias leaves the expressions alone. -/
theorem expressions_checkAlias (d : AliasDecl) (s : CheckState) :
    ((checkItem (.alias d)).run s).2.expressions = s.expressions := by
  show ((checkAlias d).run s).2.expressions = _
  obtain ⟨-, -, hrun⟩ | ⟨-, hcontinues, -⟩ := checkAlias_cases d s
  · rw [hrun]
    exact (continues_resolve d.value s).expressions
  · exact hcontinues.expressions

/-- The expressions that are found are the top-level ones, each with what it resolves to where it
stands. -/
theorem expressions_checkItems (items : List Item) (s : CheckState) :
    ∃ found, ((checkItems items).run s).2.expressions = s.expressions ++ found ∧
      List.Forall₂ (fun e x => ∃ before rest, items = before ++ .expr e :: rest ∧
        x = (e.span, ((resolve e).run ((checkItems before).run s).2).1))
        (topLevel items) found := by
  induction items generalizing s with
  | nil => exact ⟨[], (List.append_nil _).symm, .nil⟩
  | cons item rest ih =>
    obtain ⟨found, hfound, hmatch⟩ := ih ((checkItem item).run s).2
    have hlater := hmatch.imp (S := fun e x => ∃ before rest',
      item :: rest = before ++ .expr e :: rest' ∧
        x = (e.span, ((resolve e).run ((checkItems before).run s).2).1)) (by
      rintro e x ⟨before, rest', rfl, hx⟩
      exact ⟨item :: before, rest', rfl, hx⟩)
    rcases item with d | e
    · refine ⟨found, ?_, hlater⟩
      rw [← expressions_checkAlias d s]
      exact hfound
    · refine ⟨(e.span, ((resolve e).run s).1) :: found, ?_, .cons ⟨[], rest, rfl, rfl⟩ hlater⟩
      have hone : ((checkItem (.expr e)).run s).2.expressions =
          s.expressions ++ [(e.span, ((resolve e).run s).1)] := by rw [run_checkItem_expr]
      rw [hone, List.append_assoc] at hfound
      exact hfound

/-- In a file that is checked from the start. -/
theorem expressions_checkFile (T : TypeTable) (items : List Item) :
    List.Forall₂ (fun e x => ∃ before rest, items = before ++ .expr e :: rest ∧
      x = (e.span, ((resolve e).run (checkFile T ⟨before⟩)).1)) (topLevel items)
      (checkFile T ⟨items⟩).expressions := by
  obtain ⟨found, hfound, hmatch⟩ := expressions_checkItems items { table := T }
  rw [checkFile, hfound]
  exact hmatch

/-- The same expression at the top level of both files resolves to twins. -/
theorem Reorders.twins_of_mem_zip (h : Reorders items items') (hT : T.Tidy)
    {x y : TypeExpr × Span × TypeId}
    (hx : x ∈ (topLevel items).zip (checkFile T ⟨items⟩).expressions)
    (hy : y ∈ (topLevel items').zip (checkFile T ⟨items'⟩).expressions)
    (hxy : x.1.bare = y.1.bare) :
    Twins (checkFile T ⟨items⟩).table (checkFile T ⟨items'⟩).table x.2.2 y.2.2 := by
  obtain ⟨e, x⟩ := x
  obtain ⟨e', y⟩ := y
  obtain ⟨before, rest, rfl, rfl⟩ := (List.forall₂_iff_zip.mp (expressions_checkFile T _)).2 hx
  obtain ⟨before', rest', rfl, rfl⟩ := (List.forall₂_iff_zip.mp (expressions_checkFile T _)).2 hy
  have hstates := h.counterparts hT (congrArg Item.expr hxy) fun name _ => h.twinAliases hT name
  have htwins := (twinned_resolve hxy _ _ (List.Subset.refl _) hstates).answers
  exact htwins.grows (builds_checkFile_expr hT).grows (builds_checkFile_expr hT).grows

/-! ## Reordering -/

/-- Aliases that are twins stand for the same outcome. -/
theorem outcome?_eq_of_twinAliases {s' : CheckState} (h : TwinAliases s s' name)
    (hs : s.table.HasBuiltins) (hs' : s'.table.HasBuiltins) :
    s.outcome? name = s'.outcome? name := by
  revert h
  unfold TwinAliases CheckState.outcome?
  generalize s.alias? name = a, s'.alias? name = b
  rintro (hab | _)
  · exact hab.ofType?_eq hs hs'
  · rfl

/-- The spans that are recorded are those of the top-level expressions. -/
theorem spans_checkFile (T : TypeTable) (items : List Item) :
    (checkFile T ⟨items⟩).expressions.map Prod.fst = (topLevel items).map TypeExpr.span := by
  rw [eq_comm, ← List.forall₂_eq_eq_eq, List.forall₂_map_left_iff, List.forall₂_map_right_iff]
  refine (expressions_checkFile T items).imp fun e x hx => ?_
  obtain ⟨before, rest, -, rfl⟩ := hx
  rfl

/-- Reordering independent declarations changes no result. If two files have the same items, whose
aliases have different names and are declared before they are mentioned in either file, then the
same names are aliases in the end, and every alias has a type that unfolds to the same tree up to
the order of members, and is the same outcome, if it is one. So does every top-level expression,
wherever it stands. What else the names of the aliases are is of no matter: one may be the name of
a relation, too, and one that is the name of a built-in type is refused in both files. -/
theorem checkFile_reordered (o : Options) {f g : CaseFile} (h : Reorders f.items g.items) :
    let s := checkFile (withOptions o) f
    let s' := checkFile (withOptions o) g
    (∀ name, (s.alias? name).isSome ↔ name ∈ declaredNames f.items) ∧
    (∀ name, Option.Rel (fun a b => Similar .reordered s.table s'.table a.type b.type)
      (s.alias? name) (s'.alias? name)) ∧
    (∀ name, s.outcome? name = s'.outcome? name) ∧
    s.expressions.map Prod.fst = (topLevel f.items).map TypeExpr.span ∧
    s'.expressions.map Prod.fst = (topLevel g.items).map TypeExpr.span ∧
    ∀ x ∈ (topLevel f.items).zip s.expressions, ∀ y ∈ (topLevel g.items).zip s'.expressions,
      x.1.bare = y.1.bare → Similar .reordered s.table s'.table x.2.2 y.2.2 ∧
        Outcome.ofType? x.2.2 = Outcome.ofType? y.2.2 := by
  intro s s'
  have hT : (withOptions o).Tidy := tidy_withOptions o
  have hs : s.table.HasBuiltins := (tidy_checkFile f hT).2.table.hasBuiltins
  have hs' : s'.table.HasBuiltins := (tidy_checkFile g hT).2.table.hasBuiltins
  have haliases : ∀ name, TwinAliases s s' name := h.twinAliases hT
  refine ⟨isSome_alias?_checkFile _ _, fun name => ?_, fun name => ?_, spans_checkFile _ _,
    spans_checkFile _ _, fun x hx y hy hxy => ?_⟩
  · exact rel_imp (haliases name) fun a _ b _ hab => hab.reordered
  · exact outcome?_eq_of_twinAliases (haliases name) hs hs'
  · have htwins : Twins s.table s'.table x.2.2 y.2.2 := h.twins_of_mem_zip hT hx hy hxy
    exact ⟨htwins.reordered, htwins.ofType?_eq hs hs'⟩

/-! ### Letters -/

/-- Words of one letter, and arrays of them. -/
def letterWords : List Item :=
  [.alias { wordsDecl with
      name := "Word", value := .union [.string "a" default, .string "b" default] default },
    .alias { wordsDecl with value := .array (.named "Word" [] default) true default }]

/-- A letter. Where it comes first, the members of the union change places. -/
def letterB : Item := .alias { wordsDecl with name := "B", value := .string "b" default }

/-- Whether the letter is a word. -/
def letterQuestion : Item :=
  .expr (.named "Extends" [.named "B" [] default, .named "Word" [] default] default)

/-- The letter is declared after the words. -/
def wordsFirst : CaseFile := ⟨letterWords ++ letterB :: [letterQuestion]⟩

def letterFirst : CaseFile := ⟨letterB :: (letterWords ++ [letterQuestion])⟩

/-- The letter may be declared before the words or after them. -/
theorem checkFile_reordered_letters :
    let s := checkFile (withOptions {}) wordsFirst
    let s' := checkFile (withOptions {}) letterFirst
    Reorders wordsFirst.items letterFirst.items ∧
      (s.alias? "Word").isSome ∧
      (∀ name, Option.Rel (fun a b => Similar .reordered s.table s'.table a.type b.type)
        (s.alias? name) (s'.alias? name)) ∧
      ∀ name, s.outcome? name = s'.outcome? name := by
  have h : Reorders wordsFirst.items letterFirst.items :=
    { perm := List.perm_middle.map Item.bare
      distinct := by decide
      left := by decide
      right := by decide }
  obtain ⟨hdeclared, haliases, houtcomes, -⟩ := checkFile_reordered {} h
  exact ⟨h, (hdeclared "Word").mpr (by decide), haliases, houtcomes⟩

end TypeAssay
