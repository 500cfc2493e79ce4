import RecordFilter.Filter.Compile
import RecordFilter.Proofs.Literals
import RecordFilter.Proofs.Lookup
import RecordFilter.Proofs.Reading
/-!
# Expressions are well typed

Every expression that is read from tokens is made of columns that the schema has, and every constant
in it stands to the right of a column and has a value of the type of that column (`WellTyped`,
`wellTyped_of_ofCommand`).  Nothing but the empty expression is empty.

Little is left for the compiler to refuse in such an expression (`WellTyped.compile_error`): an
operation where a value is needed, and a column that is not boolean where a condition is needed.
-/

namespace RecordFilter

open Grammar Schema

namespace Expr

/-- The expression is made of columns of the schema, of constants with the type of the column on
    their left, and of operators over these. -/
inductive WellTyped (schema : Schema) : Expr → Prop where
  | column {column : Column} (hcolumn : column ∈ schema.columns.values) :
      WellTyped schema (.column column.name column.type)
  | literal {op : Operator} {name : String} {type : ColumnType} {value : Value}
      (hop : ∀ connective, op ≠ .connective connective)
      (hcolumn : WellTyped schema (.column name type)) (hvalue : value.type? = some type) :
      WellTyped schema (.binary op (.column name type) (.constant value))
  | operation {op : Operator} {left right : Expr} (hleft : WellTyped schema left)
      (hright : WellTyped schema right) : WellTyped schema (.binary op left right)

/-- The first expression is a part of the second, or all of it. -/
inductive IsPartOf (part : Expr) : Expr → Prop where
  | whole : IsPartOf part part
  | left {op : Operator} {left right : Expr} (h : IsPartOf part left) :
      IsPartOf part (.binary op left right)
  | right {op : Operator} {left right : Expr} (h : IsPartOf part right) :
      IsPartOf part (.binary op left right)

variable {schema : Schema} {rs : List Registration} {e part left right : Expr} {op : Operator}

/-! ### Parts of a well-typed expression -/

theorem WellTyped.ne_empty (h : e.WellTyped schema) : e ≠ .empty := by
  cases h <;> nofun

theorem WellTyped.ne_constant (h : e.WellTyped schema) (value : Value) : e ≠ .constant value := by
  cases h <;> nofun

theorem WellTyped.mem_columns {name : String} {type : ColumnType}
    (h : (Expr.column name type).WellTyped schema) : ⟨name, type⟩ ∈ schema.columns.values := by
  cases h with
  | column hcolumn => exact hcolumn

theorem WellTyped.of_left (h : (Expr.binary op left right).WellTyped schema) :
    left.WellTyped schema := by
  cases h with
  | literal _ hcolumn => exact hcolumn
  | operation hleft => exact hleft

/-- The right side of an operator is well typed, or it is a constant of the type of the column on
    the left. -/
theorem WellTyped.right_cases (h : (Expr.binary op left right).WellTyped schema) :
    right.WellTyped schema ∨ ∃ value name type, right = .constant value ∧
      (∀ connective, op ≠ .connective connective) ∧ left = .column name type ∧
      value.type? = some type := by
  cases h with
  | literal hop _ hvalue =>
    apply Or.inr
    exact ⟨_, _, _, rfl, hop, rfl, hvalue⟩
  | operation _ hright =>
    apply Or.inl
    exact hright

theorem IsPartOf.eq_constant {value : Value} (h : part.IsPartOf (.constant value)) :
    part = .constant value := by
  cases h
  rfl

/-- Every part of a well-typed expression is well typed, but for its constants. -/
theorem WellTyped.of_part (hpart : part.IsPartOf e) (h : e.WellTyped schema) :
    part.WellTyped schema ∨ ∃ value, part = .constant value := by
  induction hpart with
  | whole => exact .inl h
  | left _ ih => exact ih h.of_left
  | right hright ih =>
    rcases h.right_cases with h | ⟨value, _, _, rfl, -⟩
    · exact ih h
    · exact .inr ⟨value, hright.eq_constant⟩

theorem WellTyped.not_empty_part (h : e.WellTyped schema) : ¬ IsPartOf .empty e := by
  intro hpart
  rcases h.of_part hpart with hempty | ⟨value, heq⟩
  · exact hempty.ne_empty rfl
  · cases heq

theorem WellTyped.column_part (h : e.WellTyped schema) {name : String} {type : ColumnType}
    (hpart : IsPartOf (.column name type) e) : ⟨name, type⟩ ∈ schema.columns.values := by
  rcases h.of_part hpart with hcolumn | ⟨value, heq⟩
  · exact hcolumn.mem_columns
  · cases heq

/-- A constant anywhere in a well-typed expression stands to the right of a column of its type. -/
theorem WellTyped.binary_part (h : e.WellTyped schema) (hpart : IsPartOf (.binary op left right) e) :
    (∀ value, left ≠ .constant value) ∧ ∀ value, right = .constant value →
      (∀ connective, op ≠ .connective connective) ∧
        ∃ name type, left = .column name type ∧ value.type? = some type := by
  rcases h.of_part hpart with hbinary | ⟨value, heq⟩
  · constructor
    · exact hbinary.of_left.ne_constant
    · rintro value rfl
      rcases hbinary.right_cases with hright | ⟨value', name, type, heq, hop, hleft, hvalue⟩
      · exact absurd rfl (hright.ne_constant value)
      · cases heq
        exact ⟨hop, name, type, hleft, hvalue⟩
  · cases heq

/-! ### What is read is well typed -/

theorem wellTyped_of_derives (hschema : Registered schema rs) {tokens : List Token}
    (h : Derives schema .expr tokens e) : e.WellTyped schema := by
  apply h.tree_induction (P := WellTyped schema) (Q := fun _ => True)
  · intro word column _ hlookup
    exact .column (hschema.mem_values_iff.mpr (hschema.exists_of_lookup hlookup))
  · intro word op name type value _ hop hcolumn hvalue
    exact .literal hop hcolumn (type?_of_read (read_of_ofLiteral hvalue))
  · intro op left right hleft hright
    exact .operation hleft hright
  · exact fun _ _ => trivial
  · exact trivial

theorem wellTyped_of_ofCommand (hschema : Registered schema rs) {command : Command}
    (h : Expr.ofCommand schema command = .ok e) : e = .empty ∨ e.WellTyped schema := by
  rcases (ofCommand_eq_ok_iff_writes schema command e).mp h with ⟨-, hempty⟩ | hderives
  · exact .inl hempty
  · exact .inr (wellTyped_of_derives hschema hderives)

/-! ### What the compiler refuses -/

theorem compile_empty (schema : Schema) (previous : Option Filter) :
    Expr.empty.compile schema previous = .error .empty := by
  rfl

/-- What can be wrong with a well-typed expression: an operation stands where a value is needed, or
    a column that is not boolean where a condition is needed. -/
def Refusal (e : Expr) (error : CompileError) : Prop :=
  (∃ text, error = .notAValue text) ∨ ∃ name type, type ≠ .boolean ∧
    IsPartOf (.column name type) e ∧ error = .notACondition name

theorem Refusal.of_left {error : CompileError} (h : left.Refusal error) :
    (Expr.binary op left right).Refusal error := by
  rcases h with hvalue | ⟨name, type, htype, hpart, herror⟩
  · exact .inl hvalue
  · exact .inr ⟨name, type, htype, hpart.left, herror⟩

theorem Refusal.of_right {error : CompileError} (h : right.Refusal error) :
    (Expr.binary op left right).Refusal error := by
  rcases h with hvalue | ⟨name, type, htype, hpart, herror⟩
  · exact .inl hvalue
  · exact .inr ⟨name, type, htype, hpart.right, herror⟩

/-- The compiler knows the columns of a well-typed expression. -/
theorem requireColumn_ne_error (hschema : Registered schema rs) {name : String} {type : ColumnType}
    (h : (Expr.column name type).WellTyped schema) (required : List String) (error : CompileError) :
    requireColumn schema required name ≠ .error error := by
  have hcontains := hschema.contains_name h.mem_columns
  simp [requireColumn, hcontains]

theorem WellTyped.lowerValue_error (hschema : Registered schema rs) {peer : Option ColumnType}
    {required : List String} {error : CompileError} (h : e.WellTyped schema)
    (herror : e.lowerValue schema peer required = .error error) :
    ∃ text, error = .notAValue text := by
  cases e with
  | empty => exact absurd rfl h.ne_empty
  | constant value => exact absurd rfl (h.ne_constant value)
  | column name type =>
    rcases bind_eq_error_iff.mp herror with hrequire | ⟨names, -, hpure⟩
    · exact absurd hrequire (requireColumn_ne_error hschema h required error)
    · cases hpure
  | binary op left right =>
    cases herror
    exact ⟨_, rfl⟩

theorem WellTyped.lowerSides_error (hschema : Registered schema rs) {required : List String}
    {build : Operand → Operand → Condition} {error : CompileError}
    (h : (Expr.binary op left right).WellTyped schema)
    (herror : lowerSides schema required op build left right = .error error) :
    ∃ text, error = .notAValue text := by
  rcases bind_eq_error_iff.mp herror with hleft | ⟨l, -, hrest⟩
  · exact h.of_left.lowerValue_error hschema hleft
  · rcases bind_eq_error_iff.mp hrest with hright | ⟨r, -, hpure⟩
    · rcases h.right_cases with h | ⟨value, _, _, rfl, -⟩
      · exact h.lowerValue_error hschema hright
      · cases hright
    · cases hpure

/-- A well-typed condition is refused for an operation in the place of a value, or for a column
in the place of a condition. -/
theorem WellTyped.lowerCondition_error (hschema : Registered schema rs) {required : List String}
    {error : CompileError} (h : e.WellTyped schema)
    (herror : e.lowerCondition schema required = .error error) : e.Refusal error := by
  -- The error is that of the first side that is refused, and that side is well typed.
  induction e generalizing required with
  | empty => exact absurd rfl h.ne_empty
  | constant value => exact absurd rfl (h.ne_constant value)
  | column name type =>
    -- The column is known to the schema, so it can only be refused for its type.
    by_cases htype : type = .boolean
    · subst htype
      rcases bind_eq_error_iff.mp herror with hrequire | ⟨names, -, hpure⟩
      · exact absurd hrequire (requireColumn_ne_error hschema h required error)
      · cases hpure
    · have hrefused : (Expr.column name type).lowerCondition schema required =
          .error (.notACondition name) := by
        cases type <;> first | rfl | exact absurd rfl htype
      rw [hrefused] at herror
      cases herror
      exact .inr ⟨name, type, htype, .whole, rfl⟩
  | binary op left right ihleft ihright =>
    cases op with
    | connective op =>
      -- A constant stands to the right of no connective, so both sides are well typed.
      have hright : right.WellTyped schema := by
        rcases h.right_cases with hright | ⟨_, _, _, _, hop, -⟩
        · exact hright
        · exact absurd rfl (hop op)
      rcases bind_eq_error_iff.mp herror with hl | ⟨l, -, hrest⟩
      · exact (ihleft h.of_left hl).of_left
      · rcases bind_eq_error_iff.mp hrest with hr | ⟨r, -, hpure⟩
        · exact (ihright hright hr).of_right
        · cases hpure
    | comparison op => exact .inl (h.lowerSides_error hschema herror)
    | textTest op => exact .inl (h.lowerSides_error hschema herror)

theorem WellTyped.compile_error (hschema : Registered schema rs) {previous : Option Filter}
    {error : CompileError} (h : e.WellTyped schema)
    (herror : e.compile schema previous = .error error) : e.Refusal error := by
  rcases bind_eq_error_iff.mp herror with halone | ⟨f, -, hpure⟩
  · rcases bind_eq_error_iff.mp halone with hlower | ⟨low, -, hpure⟩
    · exact h.lowerCondition_error hschema hlower
    · cases hpure
  · cases hpure

/-! ### Whatever is read -/

/-- **Whatever is read is well typed.**  An expression that is read is empty, or no part of it is;
    its columns are columns of the schema; and a constant in it stands to the right of a comparison
    or a text test, with a column on the left that has the type of the constant.

    The compiler therefore knows its columns, finds nothing empty in it unless it is empty itself,
    and misses a condition only where there is a column that is not boolean. -/
theorem ofCommand_wellTyped {command : Command}
    (h : ofCommand (Schema.empty.registerAll rs) command = .ok e) :
    (e = .empty ∨ ¬ IsPartOf .empty e) ∧
      (∀ name type, IsPartOf (.column name type) e →
        ⟨name, type⟩ ∈ (Schema.empty.registerAll rs).columns.values) ∧
      (∀ value, e ≠ .constant value) ∧
      (∀ op left right, IsPartOf (.binary op left right) e →
        (∀ value, left ≠ .constant value) ∧ ∀ value, right = .constant value →
          (∀ connective, op ≠ .connective connective) ∧
            ∃ name type, left = .column name type ∧ value.type? = some type) ∧
      ∀ previous error, e.compile (Schema.empty.registerAll rs) previous = .error error →
        (error = .empty ∧ e = .empty) ∨ (∃ text, error = .notAValue text) ∨
          ∃ name type, type ≠ .boolean ∧ IsPartOf (.column name type) e ∧
            error = .notACondition name := by
  -- The empty expression has no parts of which anything would be said.
  rcases wellTyped_of_ofCommand (registered_added rs) h with rfl | htyped
  · refine ⟨.inl rfl, ?_, ?_, ?_, ?_⟩
    · intro name type hpart
      cases hpart
    · intro value heq
      cases heq
    · intro op left right hpart
      cases hpart
    · intro previous error herror
      rw [compile_empty] at herror
      exact .inl ⟨(Except.error.inj herror).symm, rfl⟩
  · refine ⟨.inr htyped.not_empty_part, ?_, htyped.ne_constant, ?_, ?_⟩
    · intro name type hpart
      exact htyped.column_part hpart
    · intro op left right hpart
      exact htyped.binary_part hpart
    · intro previous error herror
      exact .inr (htyped.compile_error (registered_added rs) herror)

def lengthAndHidden : Expr :=
  .binary (.connective .and) (.column "length" .integer)
    (.binary (.comparison .equal) (.column "hidden" .boolean) (.constant (.boolean true)))

theorem ofCommand_lengthAndHidden :
    ofCommand (Schema.empty.registerAll fileColumns) (Command.ofText "length && (hidden == true)") =
        .ok lengthAndHidden ∧
      ¬ IsPartOf .empty lengthAndHidden ∧
      ⟨"hidden", .boolean⟩ ∈ (Schema.empty.registerAll fileColumns).columns.values ∧
      (∃ name type, Expr.column "hidden" .boolean = .column name type ∧
        (Value.boolean true).type? = some type) ∧
      lengthAndHidden.compile (Schema.empty.registerAll fileColumns) none =
        .error (.notACondition "length") := by
  have hread : ofCommand (Schema.empty.registerAll fileColumns)
      (Command.ofText "length && (hidden == true)") = .ok lengthAndHidden := by decide +kernel
  obtain ⟨hempty, hcolumns, -, hconstants, -⟩ := ofCommand_wellTyped hread
  refine ⟨hread, hempty.resolve_left nofun, hcolumns _ _ (.right (.left .whole)), ?_, ?_⟩
  · exact ((hconstants _ _ _ (.right .whole)).2 _ rfl).2
  · decide +kernel

end Expr

end RecordFilter
