import RecordFilter.Proofs.Sessions
import RecordFilter.Proofs.Printing
/-!
# A filter is shown as its expression

There are two ways to show a condition: from the expression, and from the label that the compiler
puts together on the way.  They give the same text but for one thing: a null beside a column is
shown as the default of the column's type, which only the label knows.  `Expr.describeNulls` writes
this into the expression, and what it gives is shown as the label is (`Filter.text_eq_shown`).

A label has more in it than the condition: the columns that are required, and what earlier filters
the condition was added to.  Without these it is shown as before (`Label.text_bare`).
-/

namespace RecordFilter

open RecordFilter.Filter

/-! ### Labels without guards and earlier filters -/

namespace Label

/-- The label without its guards, and without the marks of earlier filters. -/
def bare : Label → Label
  | binary op left right => .binary op left.bare right.bare
  | guard _ inner => inner.bare
  | previous inner => inner.bare
  | label => label

/-- What is hidden from a text is not there: the text is that of the label without it. -/
theorem text_bare (label : Label) (showGuards : Bool) :
    label.bare.text showGuards = label.text false := by
  induction label with
  | binary op left right ihleft ihright => rw [bare, text, text, ihleft, ihright]
  | column name => rfl
  | constant value type => rfl
  | guard columns inner ih =>
    rw [bare, ih]
    simp [text]
  | previous inner ih =>
    rw [bare, ih]
    simp [text]

end Label

namespace Expr

/-! ### Nulls beside columns -/

/-- The expression with the default of a type in the place of every null that stands beside a column
    of that type.  What stands beside the expression itself is a column of type `peer`, if any. -/
def describeNulls (peer : Option ColumnType) : Expr → Expr
  | constant value =>
    match value, peer with
    | .null, some type => constant (.text ("[default(" ++ type.name ++ ")]"))
    | value, _ => constant value
  | binary op left right =>
    binary op (left.describeNulls right.columnType?) (right.describeNulls left.columnType?)
  | e => e

variable {schema : Schema} {e : Expr}

theorem describeNulls_constant {value : Value} (h : value ≠ .null) (peer : Option ColumnType) :
    (constant value).describeNulls peer = constant value := by
  cases value with
  | null => exact absurd rfl h
  | _ => rfl

/-! ### The text of the label -/

theorem text_label_constant (value : Value) (peer : Option ColumnType) (showGuards : Bool) :
    ((constant value).label peer).text showGuards = ((constant value).describeNulls peer).shown := by
  by_cases hnull : value = .null
  · subst hnull
    cases peer <;> rfl
  · rw [describeNulls_constant hnull, shown_constant hnull, label, Label.text,
      constantText_eq hnull]

theorem IsValue.text_label (h : e.IsValue) (peer : Option ColumnType) (showGuards : Bool) :
    (e.label peer).text showGuards = (e.describeNulls peer).shown := by
  cases e with
  | empty => exact absurd h id
  | column name type => rfl
  | constant value => exact text_label_constant value peer showGuards
  | binary op left right => exact absurd h id

/-- The label of a condition is shown as the condition with its nulls described. -/
theorem IsFilter.text_label (h : e.IsFilter) (peer : Option ColumnType)
    (showGuards : Bool) : (e.label peer).text showGuards = (e.describeNulls peer).shown := by
  induction e generalizing peer with
  | empty => exact absurd h id
  | column name type => rfl
  | constant value => exact absurd h id
  | binary op left right ihleft ihright =>
    rw [label, Label.text, describeNulls, shown]
    cases op with
    | connective op => rw [ihleft h.1, ihright h.2]
    | comparison op => rw [h.1.text_label, h.2.text_label]
    | textTest op => rw [h.1.text_label, h.2.text_label]

/-- No null stands in an expression that was read from tokens. -/
theorem describeNulls_of_found (h : Found schema e) (peer : Option ColumnType) :
    e.describeNulls peer = e := by
  induction h generalizing peer with
  | column => rfl
  | literal _ _ _ hvalue ih =>
    have hnull := ne_null_of_read (read_of_ofLiteral hvalue)
    rw [describeNulls, ih, describeNulls_constant hnull]
  | operation _ _ ihleft ihright => rw [describeNulls, ihleft, ihright]

/-! ### The text of a compiled filter -/

/-- A filter prints what its expression shows once the nulls are described. -/
theorem text_compileAlone {f : Filter} (h : e.compileAlone schema = .ok f) :
    f.text = (e.describeNulls none).shown := by
  obtain ⟨low, hlow, rfl⟩ := bind_pure_eq_ok_iff.mp h
  obtain ⟨hcondition, hlabel⟩ := label_of_lowerCondition hlow
  calc Filter.text ⟨_, .guard low.required low.label, _⟩
      = low.label.text false := by simp [Filter.text, Label.text]
    _ = (e.label none).text false := by rw [hlabel]
    _ = (e.describeNulls none).shown := hcondition.text_label none false

theorem text_compile_none {f : Filter} (h : e.compile schema none = .ok f) :
    f.text = (e.describeNulls none).shown :=
  text_compileAlone (compile_none_eq_ok_iff.mp h)

theorem text_compile_some {earlier f : Filter} (h : e.compile schema (some earlier) = .ok f) :
    f.text = "(" ++ earlier.text ++ " && " ++ (e.describeNulls none).shown ++ ")" := by
  obtain ⟨alone, halone, rfl⟩ := compile_some_eq_ok_iff.mp h
  rw [text_narrow, text_compileAlone halone]

/-- The filter of expressions that are compiled one after the other, each on top of those before
    it, if there are any. -/
def compileInTurn (schema : Schema) (es : List Expr) : Except CompileError (Option Filter) :=
  es.foldlM (fun earlier e => do return some (← e.compile schema earlier)) none

theorem conjunctionText_eq_none {texts : List String} (h : conjunctionText texts = none) :
    texts = [] := by
  cases texts with
  | nil => rfl
  | cons first rest => cases h

/-- Filters compiled one after the other print the conjunction of what they show. -/
theorem text_compileInTurn {es : List Expr} {last : Option Filter}
    (h : compileInTurn schema es = .ok last) :
    last.map Filter.text = conjunctionText (es.map fun e => (e.describeNulls none).shown) := by
  refine foldlM_induction (P := fun taken state =>
    state.map Filter.text = conjunctionText (taken.map fun e => (e.describeNulls none).shown))
    rfl ?_ h
  intro e _ taken earlier next htaken hnext
  obtain ⟨f, hf, rfl⟩ := bind_pure_eq_ok_iff.mp hnext
  rw [List.map_append, List.map_singleton, Option.map_some]
  cases earlier with
  | none =>
    rw [conjunctionText_eq_none htaken.symm, text_compile_none hf]
    rfl
  | some earlier => rw [conjunctionText_append_singleton htaken.symm, text_compile_some hf]

end Expr

/-- **A filter is shown as its expression**, with the nulls beside columns described.  On top of
    another filter the two are shown as a conjunction, however many filters came before.  A filter
    that was read from a text has no nulls.  Guards and earlier filters leave no trace. -/
theorem Filter.text_eq_shown (schema : Schema) :
    (∀ e f, Expr.compile schema e none = .ok f → f.text = (e.describeNulls none).shown) ∧
    (∀ e earlier f, Expr.compile schema e (some earlier) = .ok f →
      f.text = "(" ++ earlier.text ++ " && " ++ (e.describeNulls none).shown ++ ")") ∧
    (∀ s e f, Expr.ofCommand schema (Command.ofText s) = .ok e →
      e.compile schema none = .ok f → f.text = e.shown) ∧
    (∀ es last, Expr.compileInTurn schema es = .ok last →
      last.map Filter.text = conjunctionText (es.map fun e => (e.describeNulls none).shown)) ∧
    ∀ (f : Filter) (showGuards : Bool), f.label.bare.text showGuards = f.text := by
  refine ⟨?_, ?_, ?_, ?_, ?_⟩
  · intro e f h
    exact Expr.text_compile_none h
  · intro e earlier f h
    exact Expr.text_compile_some h
  · intro s e f hread hcompile
    have hfound := found_of_ofCommand hread (Expr.ne_empty_of_compile hcompile)
    rw [Expr.text_compile_none hcompile, Expr.describeNulls_of_found hfound]
  · intro es last h
    exact Expr.text_compileInTurn h
  · intro f showGuards
    exact f.label.text_bare showGuards

def Expr.nullLength : Expr :=
  .binary (.comparison .equal) (.column "length" .integer) (.constant .null)

theorem Filter.text_hidden_nullLength : ∃ f,
    Expr.nullLength.compile fileSchema (some .hidden) = .ok f ∧
      f.text = "(\"hidden\" && (\"length\" == [default(Integer)]))" ∧
      Expr.compileInTurn fileSchema [.column "hidden" .boolean, .nullLength] = .ok (some f) ∧
      some f.text = conjunctionText ["\"hidden\"", "(\"length\" == [default(Integer)])"] ∧
      Filter.hidden.text = "\"hidden\"" ∧ Filter.short.text = (Expr.shorter 9).shown := by
  obtain ⟨halone, hadded, hread, hturn, -⟩ := Filter.text_eq_shown fileSchema
  have hhidden : (Expr.column "hidden" .boolean).compile fileSchema none = .ok .hidden := by
    decide +kernel
  have hshort : Expr.ofCommand fileSchema (Command.ofText "length < 9 ") = .ok (.shorter 9) := by
    decide +kernel
  have hcompiled : ∃ f, Expr.nullLength.compile fileSchema (some .hidden) = .ok f ∧
      Expr.compileInTurn fileSchema [.column "hidden" .boolean, .nullLength] = .ok (some f) :=
    ⟨_, by rfl, by rfl⟩
  obtain ⟨f, hf, hboth⟩ := hcompiled
  refine ⟨f, hf, ?_, hboth, ?_, ?_, ?_⟩
  · rw [hadded _ _ _ hf]
    decide +kernel
  · exact hturn _ _ hboth
  · exact halone _ _ hhidden
  · exact hread _ _ _ hshort (by decide +kernel)

end RecordFilter
