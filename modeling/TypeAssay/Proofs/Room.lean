import TypeAssay.Proofs.Findings
import TypeAssay.Proofs.Transparency

/-!
# Room for every distribution

A distribution asks for a list of all its results before it begins, and checking breaks off where no
list has so much room. The limit of the options is looked at first. So where a list has room for as
many types as the limit allows, checking comes to an end whatever the text is
(`hasResult_checkSource`).

Only intersections are distributed; everything else that checking reports has another reason. The
limit is that of the table, and checking leaves it as it is, so one condition on the table that
checking starts with is enough (`TypeTable.IsRoomy.builds`).
-/

namespace TypeAssay

open TypeTable Checking

variable {α β : Type} {s : CheckState} {m : Checking α} {f : α → Checking β}
  {P : α → TypeTable → Prop} {errors more : List CheckError}

/-! ## The limit -/

/-- Every distribution that the limit allows has room in a list. -/
def TypeTable.IsRoomy (T : TypeTable) : Prop := T.options.maxUnionSize ≤ listCapacity

/-- The limit stays as it is. -/
theorem TypeTable.IsRoomy.builds {T U : TypeTable} (h : T.IsRoomy) (hU : T.Builds U) :
    U.IsRoomy := by
  rwa [IsRoomy, hU.grows.options_eq]

/-- A distribution within the limit is never refused for want of room. -/
theorem refusal?_ne_capacityOverflow {size limit : Nat} (h : limit ≤ listCapacity) :
    refusal? size limit ≠ some .capacityOverflow := by
  rw [ne_eq, refusal?_eq_some_iff]
  rintro (⟨-, hcause⟩ | ⟨hallowed, hlarge, -⟩)
  · exact absurd hcause (by simp)
  · omega

/-! ## Errors of other kinds -/

/-- None of the errors is that a list has no room. -/
def LeaveRoom (errors : List CheckError) : Prop := ∀ err ∈ errors, err.fault ≠ .capacityOverflow

/-- No error is none of that kind. -/
theorem leaveRoom_nil : LeaveRoom [] := by simp [LeaveRoom]

/-- One error of another kind. -/
theorem leaveRoom_singleton {err : CheckError} (h : err.fault ≠ .capacityOverflow) :
    LeaveRoom [err] := List.forall_mem_singleton.mpr h

/-- Errors of other kinds in a row. -/
theorem LeaveRoom.append (h : LeaveRoom errors) (hmore : LeaveRoom more) :
    LeaveRoom (errors ++ more) :=
  List.forall_mem_append.mpr ⟨h, hmore⟩

namespace Checking

/-- Where neither step lacks room, both in a row do not. -/
theorem Adds.bind_leaveRoom (hyields : m.Yields s P) (h : m.Adds s LeaveRoom)
    (hf : ∀ a s', s'.Tidy → s.table.Builds s'.table → P a s'.table → (f a).Adds s' LeaveRoom) :
    (m >>= f).Adds s LeaveRoom :=
  .bind hyields h fun a s' _ hs' hbuilds hP hroom =>
    (hf a s' hs' hbuilds hP).mono fun _ hmore => hroom.append hmore

/-- Interning finds nothing at all. -/
theorem interning_leaveRoom (m : Interning α) : (interning m).Adds s LeaveRoom :=
  (adds_interning m).mono fun _ hnil => hnil ▸ leaveRoom_nil

/-- What is built for other reasons fails for other reasons. -/
theorem buildOrAny_leaveRoom {m : Building TypeId} {F : TypeError → Prop} (span : Span)
    (hfails : m.FailsOnly s.table F) (hF : ¬F .capacityOverflow) :
    (buildOrAny m span).Adds s LeaveRoom := by
  refine (adds_buildOrAny span hfails).mono ?_
  rintro _ (rfl | ⟨cause, hcause, rfl⟩)
  · exact leaveRoom_nil
  · refine leaveRoom_singleton ?_
    cases cause with
    | capacityOverflow => exact absurd hcause hF
    | _ => simp [CheckError.ofTypeError, CheckFault.ofTypeError]

end Checking

/-! ## Expressions -/

/-- What an operator refuses is its argument. -/
theorem Operator.Refuses.ne_capacityOverflow {op : Operator} {span : Span} {err : CheckError}
    (h : op.Refuses span err) : err.fault ≠ .capacityOverflow := by
  cases h <;> simp

/-- What a name finds is about its arguments. -/
theorem TypeExpr.Blames.ne_capacityOverflow {name : String} {args : List TypeExpr} {span : Span}
    {err : CheckError} (h : (TypeExpr.named name args span).Blames err) :
    err.fault ≠ .capacityOverflow := by
  cases h with
  | argument _ hrefuses => exact hrefuses.ne_capacityOverflow
  | _ => simp

/-- Expressions in a row have room if each of them has. -/
theorem resolveAll_leaveRoom {es : List TypeExpr}
    (h : ∀ e ∈ es, ∀ s : CheckState, s.Tidy → s.table.IsRoomy → (resolve e).Adds s LeaveRoom)
    (hs : s.Tidy) (hroom : s.table.IsRoomy) : (resolveAll es).Adds s LeaveRoom := by
  induction es generalizing s with
  | nil => exact .pure leaveRoom_nil
  | cons e rest ih =>
    refine .bind_leaveRoom (yields_resolve e s hs) (h e List.mem_cons_self s hs hroom)
      fun i s' hs' hbuilds _ => ?_
    exact .bind_leaveRoom (yields_resolveAll rest s' hs')
      (ih (fun e he => h e (List.mem_cons_of_mem _ he)) hs' (hroom.builds hbuilds))
      fun _ _ _ _ _ => .pure leaveRoom_nil

/-- Properties have room if the types of all of them have. -/
theorem resolveProperties_leaveRoom {ps : List PropertyExpr}
    (h : ∀ p ∈ ps, ∀ s : CheckState, s.Tidy → s.table.IsRoomy →
      (resolve p.type).Adds s LeaveRoom)
    (hs : s.Tidy) (hroom : s.table.IsRoomy) : (resolveProperties ps).Adds s LeaveRoom := by
  induction ps generalizing s with
  | nil => exact .pure leaveRoom_nil
  | cons p rest ih =>
    have hp : (resolveProperty p).Adds s LeaveRoom := by
      rw [resolveProperty_eq]
      exact .bind_leaveRoom (yields_resolve p.type s hs) (h p List.mem_cons_self s hs hroom)
        fun _ _ _ _ _ => .pure leaveRoom_nil
    refine .bind_leaveRoom (yields_resolveProperty p s hs) hp fun q s' hs' hbuilds _ => ?_
    exact .bind_leaveRoom (yields_resolveProperties rest s' hs')
      (ih (fun p hp => h p (List.mem_cons_of_mem _ hp)) hs' (hroom.builds hbuilds))
      fun _ _ _ _ _ => .pure leaveRoom_nil

/-- Within the limit no expression asks for more room than a list has. -/
theorem resolve_leaveRoom (e : TypeExpr) (s : CheckState) (hs : s.Tidy)
    (hroom : s.table.IsRoomy) : (resolve e).Adds s LeaveRoom := by
  -- by induction on the expression; only an intersection could be refused for want of room
  induction e using TypeExpr.induction generalizing s with
  | named name args span ih =>
    rw [resolve]
    refine .get ?_
    cases hr : s.referent? name with
    | none =>
      have hreport : (report ⟨.undefinedName name, span⟩).Adds s LeaveRoom :=
        (adds_report _).mono fun _ hone => hone ▸ leaveRoom_singleton (by simp)
      refine .bind_leaveRoom (yields_report hs) hreport fun _ s' hs' hbuilds _ => ?_
      exact .bind_leaveRoom (yields_resolveAll args s' hs')
        (resolveAll_leaveRoom ih hs' (hroom.builds hbuilds))
        fun _ _ _ _ _ => .pure leaveRoom_nil
    | some r =>
      refine .bind_leaveRoom (yields_resolveAll_length args hs) (resolveAll_leaveRoom ih hs hroom)
        fun types s' hs' _ htypes => ?_
      refine (adds_applyReferent name span hs' htypes.1 htypes.2 fun d hd => ?_).mono ?_
      · exact relation_of_referent? (hd ▸ hr)
      · rintro _ (rfl | ⟨err, rfl, hblames, -⟩)
        · exact leaveRoom_nil
        · exact leaveRoom_singleton hblames.ne_capacityOverflow
  | number value span =>
    exact buildOrAny_leaveRoom span (Building.failsOnly_numberLiteral value) (by simp)
  | bigint digits span =>
    exact buildOrAny_leaveRoom span (Building.failsOnly_bigintLiteral digits) (by simp)
  | string value span => exact interning_leaveRoom _
  | union members span ih =>
    exact .bind_leaveRoom (yields_resolveAll members s hs) (resolveAll_leaveRoom ih hs hroom)
      fun _ _ _ _ _ => interning_leaveRoom _
  | intersection members span ih =>
    refine .bind_leaveRoom (yields_resolveAll members s hs) (resolveAll_leaveRoom ih hs hroom)
      fun types s' hs' hbuilds htypes => ?_
    refine buildOrAny_leaveRoom span
      (Building.failsOnly_intersectionOf hs'.table.hasBuiltins htypes) ?_
    rintro ⟨size, hrefused⟩
    exact refusal?_ne_capacityOverflow (hroom.builds hbuilds) hrefused
  | array element readonly span ih =>
    exact .bind_leaveRoom (yields_resolve element s hs) (ih s hs hroom)
      fun _ _ _ _ _ => interning_leaveRoom _
  | tuple elements readonly span ih =>
    exact .bind_leaveRoom (yields_resolveAll elements s hs) (resolveAll_leaveRoom ih hs hroom)
      fun _ _ _ _ _ => interning_leaveRoom _
  | object properties span ih =>
    exact .bind_leaveRoom (yields_resolveProperties properties s hs)
      (resolveProperties_leaveRoom ih hs hroom)
      fun ps _ _ _ _ => buildOrAny_leaveRoom span (Building.failsOnly_objectOf ps) (by simp)

/-! ## Items -/

/-- Within the limit no item asks for more room than a list has. -/
theorem checkItem_leaveRoom (item : Item) (hs : s.Tidy) (hroom : s.table.IsRoomy) :
    (checkItem item).Adds s LeaveRoom := by
  cases item with
  | expr e =>
    obtain ⟨errors, herrors, hleave⟩ := resolve_leaveRoom e s hs hroom
    rw [Adds, run_checkItem_expr]
    exact ⟨errors, herrors, hleave⟩
  | «alias» d =>
    show (checkAlias d).Adds s LeaveRoom
    cases hname : TypeId.ofName? d.name with
    | some i =>
      have hreport : (report ⟨.reservedName d.name, d.nameSpan⟩).Adds s LeaveRoom :=
        (adds_report _).mono fun _ hone => hone ▸ leaveRoom_singleton (by simp)
      rw [checkAlias, hname, Option.isSome_some, if_pos rfl]
      refine .bind_leaveRoom (yields_report hs) hreport fun _ s' hs' hbuilds _ => ?_
      exact .bind_leaveRoom (yields_resolve d.value s' hs')
        (resolve_leaveRoom d.value s' hs' (hroom.builds hbuilds))
        fun _ _ _ _ _ => .pure leaveRoom_nil
    | none =>
      obtain ⟨errors, herrors, hleave⟩ := resolve_leaveRoom d.value s hs hroom
      rw [Adds, run_checkAlias hname]
      cases s.alias? d.name with
      | some first =>
        refine ⟨errors ++ [⟨.duplicateAlias d.name first.nameSpan, d.nameSpan⟩], ?_,
          hleave.append (leaveRoom_singleton (by simp))⟩
        rw [← List.append_assoc, ← herrors]
        rfl
      | none => exact ⟨errors, herrors, hleave⟩

/-- Nor do items in a row: each starts with the limit that the one before it started with. -/
theorem checkItems_leaveRoom (items : List Item) (hs : s.Tidy) (hroom : s.table.IsRoomy) :
    (checkItems items).Adds s LeaveRoom := by
  induction items generalizing s with
  | nil => exact .pure leaveRoom_nil
  | cons item rest ih =>
    exact .bind_leaveRoom (yields_checkItem item hs) (checkItem_leaveRoom item hs hroom)
      fun _ _ hs' hbuilds _ => ih hs' (hroom.builds hbuilds)

/-- Nor does a file. -/
theorem checkFile_leaveRoom {T : TypeTable} (hT : T.Tidy) (hroom : T.IsRoomy) (file : CaseFile) :
    LeaveRoom (checkFile T file).errors := by
  obtain ⟨errors, herrors, hleave⟩ := checkItems_leaveRoom file.items (tidy_start hT) hroom
  have hall : (checkFile T file).errors = errors := herrors
  rwa [hall]

/-- Checking comes to an end, whatever the text, if a list has room for as many types as the limit
allows. -/
theorem hasResult_checkSource {o : Options} (h : o.maxUnionSize ≤ listCapacity) (source : String) :
    (checkSource o source).hasResult := by
  have hleave : LeaveRoom (checkSource o source).errors := by
    unfold checkSource checkSourceWith
    cases parseCaseFile source with
    | error errors =>
      intro err herr
      obtain ⟨e, -, rfl⟩ := List.mem_map.mp herr
      simp [CheckError.ofSyntaxError]
    | ok f =>
      have hroom : (withOptions o).IsRoomy := by rwa [IsRoomy, options_withOptions]
      exact checkFile_leaveRoom (tidy_withOptions o) hroom f
  exact List.all_eq_true.mpr fun err herr => decide_eq_true (hleave err herr)

/-- The limit that holds where none is given leaves room. -/
example : ({} : Options).maxUnionSize ≤ listCapacity := by decide

end TypeAssay
