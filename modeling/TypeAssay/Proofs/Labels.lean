import TypeAssay.Proofs.FirstDeclarations
import TypeAssay.Proofs.Places
import TypeAssay.Proofs.SourceOrder
import TypeAssay.Report.Json

/-!
# The labels of diagnostics

An error has a place of its own, with a line and a column that the scanner has counted. A diagnostic
only takes the offsets from it, and the lines and columns of its JSON form are found again in the
text. The two agree for every error of every text (`toJson_labels`): syntax errors, errors of
checking, and the place of the first declaration that a later one points to.
-/

namespace TypeAssay

open TypeTable

/-! ## Places of errors -/

section

variable {source : String} {f : CaseFile} {ts tokens : List LocatedToken} {items before : List Item}
  {i : Item}

/-- The errors in the text of a file stand in it. -/
theorem isIn_of_parseCaseFile_error {errors : List SyntaxError}
    (h : parseCaseFile source = .error errors) : ∀ e ∈ errors, e.span.IsIn source.toList := by
  rw [parseCaseFile] at h
  split at h
  · rename_i faults hfaults
    obtain rfl := Except.error.inj h
    rw [tokenize] at hfaults
    split at hfaults
    · exact absurd hfaults (by simp)
    · obtain rfl := Except.error.inj hfaults
      refine List.forall_mem_map.mpr fun e he => ?_
      obtain ⟨x, hx, herror⟩ := List.mem_filterMap.mp he
      rw [SyntaxError.ofLexError, error?_span herror]
      exact isIn_of_locatedPieces hx
  · rename_i tokens htokens
    exact fun e he => .of_isAmong ((parseTokens_errors htokens h).2 e he) (isIn_of_tokenize htokens)

/-- The name of an alias is one of its tokens. -/
theorem DerivesItem.isAmong_name {d : AliasDecl} (h : DerivesItem ts (.alias d)) :
    d.nameSpan.IsAmong ts := by
  cases h with
  | declaration => exact .of_mem (by simp)

/-- What an item holds stands in the text, and so does the name of an alias. -/
theorem isIn_of_mem_items (h : parseCaseFile source = .ok f) (hi : i ∈ f.items) :
    (∀ x, i.value.Holds x → x.span.IsIn source.toList) ∧
      ∀ d, i = .alias d → d.nameSpan.IsIn source.toList := by
  obtain ⟨tokens, ts, htokens, hts, hderives⟩ := exists_derivesItem h hi
  have hinfix := hts.trans (List.dropLast_prefix tokens).isInfix
  refine ⟨fun x hx => ((hderives.within.mono hinfix).of_holds hx).isIn htokens, ?_⟩
  rintro d rfl
  exact .of_isAmong (hderives.isAmong_name.mono hinfix.subset) (isIn_of_tokenize htokens)

/-- An error of an expression is at something that the expression holds. -/
theorem TypeExpr.Finds.exists_holds {e : TypeExpr} {errors : List CheckError} {err : CheckError}
    (h : e.Finds errors) (herr : err ∈ errors) : ∃ x, e.Holds x ∧ err.span = x.span := by
  obtain ⟨x, hx, hblames⟩ := h.exists_blames herr
  rcases hblames.span_cases with hspan | ⟨arg, hparts, hspan⟩
  · exact ⟨x, hx, hspan⟩
  · exact ⟨arg, hx.trans (.part (by simp [hparts]) (.self arg)), hspan⟩

/-- An error of an item is at something that its expression holds, or at the name of an alias. -/
theorem Item.Finds.span_cases {declared : String → Option Span} {errors : List CheckError}
    {err : CheckError} (h : i.Finds declared errors) (herr : err ∈ errors) :
    (∃ x, i.value.Holds x ∧ err.span = x.span) ∨ ∃ d, i = .alias d ∧ err.span = d.nameSpan := by
  cases h with
  | expression h | new _ _ h => exact .inl (h.exists_holds herr)
  | @reserved d _ _ h =>
    rcases List.mem_cons.mp herr with rfl | herr
    · exact .inr ⟨d, rfl, rfl⟩
    · exact .inl (h.exists_holds herr)
  | @duplicate d _ _ _ _ h =>
    rcases List.mem_append.mp herr with herr | herr
    · exact .inl (h.exists_holds herr)
    · obtain rfl := List.mem_singleton.mp herr
      exact .inr ⟨d, rfl, rfl⟩

/-- The place of the first declaration, if the fault is that there is a later one. -/
def CheckFault.first? : CheckFault → Option Span
  | duplicateAlias _ first => some first
  | _ => none

/-- A later declaration points to the name of an earlier one. -/
theorem exists_of_mem_redeclarations {err : CheckError} (h : err ∈ redeclarations before items) :
    ∃ d, Item.alias d ∈ before ++ items ∧ err.fault.first? = some d.nameSpan := by
  -- by induction on the items; each moves to those before the next one
  induction items generalizing before with
  | nil => exact absurd h List.not_mem_nil
  | cons item rest ih =>
    rcases List.mem_append.mp h with h | h
    · rcases item with d | e
      · rw [redeclared?] at h
        split at h
        · obtain ⟨first, hfirst, rfl⟩ := Option.map_eq_some_iff.mp (Option.mem_toList.mp h)
          obtain ⟨front, behind, rfl, -⟩ := firstDeclaration?_eq_some.mp hfirst
          exact ⟨first, by simp, rfl⟩
        · exact absurd h List.not_mem_nil
      · exact absurd h List.not_mem_nil
    · obtain ⟨d, hd, hfirst⟩ := ih h
      exact ⟨d, by simpa using hd, hfirst⟩

/-- The errors of checking stand in the text, and so do the places that they point to. -/
theorem isIn_of_checkFile {T : TypeTable} (hT : T.Tidy) (h : parseCaseFile source = .ok f)
    {err : CheckError} (herr : err ∈ (checkFile T f).errors) :
    err.span.IsIn source.toList ∧ ∀ first ∈ err.fault.first?, first.IsIn source.toList := by
  constructor
  · obtain ⟨found, hitems, herrors, hfound⟩ := findsItems_checkFile hT f
    rw [herrors] at herr
    obtain ⟨q, hq, herr⟩ := List.mem_flatMap.mp herr
    obtain ⟨declared, hfinds⟩ := hfound q hq
    have hmem : q.1 ∈ f.items := hitems ▸ List.mem_map_of_mem hq
    obtain ⟨hholds, hname⟩ := isIn_of_mem_items h hmem
    rcases hfinds.span_cases herr with ⟨x, hx, hspan⟩ | ⟨d, hd, hspan⟩
    · exact hspan ▸ hholds x hx
    · exact hspan ▸ hname d hd
  · -- only a later declaration has a second place, and it was found among these
    intro first hfirst
    have hduplicate : err ∈ duplicates (checkFile T f).errors := by
      refine List.mem_filter.mpr ⟨herr, ?_⟩
      cases hfault : err.fault <;> simp_all [CheckFault.first?, CheckFault.isDuplicateAlias]
    rw [duplicates_checkFile hT f.items] at hduplicate
    obtain ⟨d, hd, hsame⟩ := exists_of_mem_redeclarations hduplicate
    obtain rfl := Option.some.inj (hsame.symm.trans hfirst)
    exact (isIn_of_mem_items h hd).2 d rfl

/-- Every error of a text stands in it, and so does the place that it points to. -/
theorem isIn_of_checkSource (o : Options) {err : CheckError}
    (herr : err ∈ (checkSource o source).errors) :
    err.span.IsIn source.toList ∧ ∀ first ∈ err.fault.first?, first.IsIn source.toList := by
  rw [checkSource, checkSourceWith] at herr
  split at herr
  · rename_i f hparse
    exact isIn_of_checkFile (tidy_withOptions o) hparse herr
  · rename_i errors hparse
    obtain ⟨e, he, rfl⟩ := List.mem_map.mp herr
    exact ⟨isIn_of_parseCaseFile_error hparse e he, fun _ hfirst => absurd hfirst (by simp
      [CheckError.ofSyntaxError, CheckFault.first?])⟩

end

/-! ## Labels -/

/-- The value of a field of an object. -/
def JsonValue.field? (name : String) : JsonValue → Option JsonValue
  | .object fields => fields.lookup name
  | _ => none

/-- A label over a span of a text, as other programs see it: it starts on the line and in the column
of the span, and it ends on those that are counted behind the characters up to the end of the
span. -/
def labelOver (path : String) (cs : List Char) (style : LabelStyle) (span : Span)
    (message : String) : JsonValue :=
  let stop := Position.behind (takeBytes cs span.stop)
  .object [("file", .string path), ("start_line", .number span.line),
    ("start_column", .number span.column), ("end_line", .number stop.line),
    ("end_column", .number stop.column), ("message", .string message),
    ("style", .string style.text)]

section

variable {path source : String} {span : Span} {style : LabelStyle} {message : String}

/-- A label from the start to the end of a span of the text is found again at its places. -/
theorem toJson_label (h : span.IsIn source.toList) :
    Label.toJson ⟨path, source⟩ { style, start := span.start, stop := span.stop, message } =
      labelOver path source.toList style span message := by
  obtain ⟨before, hbefore, hstart⟩ := h.start
  obtain ⟨upto, ⟨after, hafter⟩, hstop⟩ := h.stop
  obtain ⟨hoffset, hline, hcolumn⟩ := Position.mk.inj hstart
  have htext : takeBytes source.toList span.stop = upto := by
    rw [← hafter, hstop, takeBytes_append]
  rw [labelOver, htext, Label.toJson]
  simp only [hoffset, hstop, SourceFile.location_eq path hbefore,
    SourceFile.location_eq path ⟨after, hafter⟩, hline, hcolumn, Position.behind]

/-- The labels of an error. -/
theorem labels_toDiagnostic (err : CheckError) : err.toDiagnostic.labels =
    { style := .primary, start := err.span.start, stop := err.span.stop,
      message := err.fault.labelText } ::
    err.fault.first?.toList.map fun first =>
      { style := .secondary, start := first.start, stop := first.stop,
        message := "first declaration here" } := by
  rcases err with ⟨fault, span⟩
  cases fault <;> rfl

/-- Labels in the file of a report are kept. -/
theorem labels_toJson (path source : String) {d : Diagnostic} (h : ∀ l ∈ d.labels, l.file = 0) :
    (d.toJson ⟨path, source⟩).field? "labels" =
      some (.list (d.labels.map (Label.toJson ⟨path, source⟩))) := by
  have hkept : d.labels.filter (·.file = 0) = d.labels :=
    List.filter_eq_self.mpr fun l hl => decide_eq_true (h l hl)
  rw [Diagnostic.toJson, hkept]
  rfl

/-- A diagnostic keeps the places of its error: all its labels are in its JSON form, first the one
at the place of the error and, if the error is about a later declaration, one at the first. Each
starts on the line and in the column that the error has, and ends on those that are counted up to
the end of the span, which is between two characters of the text. -/
theorem toJson_labels (o : Options) (path : String) {source : String} {err : CheckError}
    (herr : err ∈ (checkSource o source).errors) :
    (err.span.IsIn source.toList ∧ ∀ first ∈ err.fault.first?, first.IsIn source.toList) ∧
    (err.toDiagnostic.toJson ⟨path, source⟩).field? "labels" = some (.list
      (labelOver path source.toList .primary err.span err.fault.labelText ::
        err.fault.first?.toList.map fun first =>
          labelOver path source.toList .secondary first "first declaration here")) := by
  obtain ⟨hspan, hfirst⟩ := isIn_of_checkSource o herr
  refine ⟨⟨hspan, hfirst⟩, ?_⟩
  have hfiles : ∀ l ∈ err.toDiagnostic.labels, l.file = 0 := by
    rw [labels_toDiagnostic]
    simp
  have hfirsts : err.fault.first?.toList.map (Label.toJson ⟨path, source⟩ ∘ fun first =>
      { style := .secondary, start := first.start, stop := first.stop,
        message := "first declaration here" }) =
      err.fault.first?.toList.map fun first =>
        labelOver path source.toList .secondary first "first declaration here" :=
    List.map_congr_left fun first h => toJson_label (hfirst first (Option.mem_toList.mp h))
  rw [labels_toJson path source hfiles, labels_toDiagnostic, List.map_cons, toJson_label hspan,
    List.map_map, hfirsts]

/-- A text with a line that ends in two characters, and an alias that is declared again behind a
character of two bytes. -/
def twoLines : String := "type A = 1;\r\n/* ü */ type A = 2"

/-- The later declaration is in column 14 of the second line, and it points to the first one. -/
theorem toJson_labels_twoLines :
    let err : CheckError := ⟨.duplicateAlias "A" ⟨5, 6, 1, 6⟩, ⟨27, 28, 2, 14⟩⟩
    let label (start_line start_column end_line end_column : Nat) (message style : String) :=
      JsonValue.object [("file", .string "cases.ts"), ("start_line", .number start_line),
        ("start_column", .number start_column), ("end_line", .number end_line),
        ("end_column", .number end_column), ("message", .string message), ("style", .string style)]
    err ∈ (checkSource {} twoLines).errors ∧
      (err.toDiagnostic.toJson ⟨"cases.ts", twoLines⟩).field? "labels" = some (.list
        [label 2 14 2 15 "duplicate declaration" "primary",
          label 1 6 1 7 "first declaration here" "secondary"]) := by
  intro err label
  have herr : err ∈ (checkSource {} twoLines).errors := by decide +kernel
  refine ⟨herr, (toJson_labels {} "cases.ts" herr).2.trans ?_⟩
  rfl

end

end TypeAssay
