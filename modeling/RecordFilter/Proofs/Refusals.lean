import RecordFilter.Proofs.Printing
/-!
# What the compiler refuses

An expression is compiled exactly if it is a condition and the schema has all of its columns.  Of
any other expression the compiler reports one error.  It is that of the first node at which
something is wrong, where an operator comes before its sides and the left side before the right.

What is wrong with a node is a matter of the node and of its role, which is to be a condition or a
value (`Expr.fault?`).  The compiler reads an expression with the columns it has met so far in hand,
but these have no part in what it refuses (`FailsWith`).
-/

namespace RecordFilter

inductive Role where
  | condition
  | value
deriving DecidableEq, Repr

def Operator.sideRole : Operator → Role
  | connective _ => .condition
  | comparison _ => .value
  | textTest _ => .value

namespace Expr

/-! ### Nodes and their faults -/

/-- The nodes of an expression with their roles, from left to right, an operator before its sides. -/
def nodes (role : Role) : Expr → List (Role × Expr)
  | binary op left right =>
    (role, binary op left right) :: (left.nodes op.sideRole ++ right.nodes op.sideRole)
  | e => [(role, e)]

/-- What is wrong with a node in its role, whatever is wrong elsewhere. -/
def fault? (schema : Schema) (role : Role) : Expr → Option CompileError
  | empty => some .empty
  | constant value => if role = .condition then some (.notACondition value.shown) else none
  | column name type =>
    if role = .condition ∧ type ≠ .boolean then some (.notACondition name)
    else if schema.contains name then none
    else some (.unknownColumn name)
  | binary op left right =>
    if role = .value then some (.notAValue (binary op left right).shown) else none

def firstFault? (schema : Schema) (role : Role) (e : Expr) : Option CompileError :=
  (e.nodes role).findSome? fun node => node.2.fault? schema node.1

variable {schema : Schema} {e : Expr} {error : CompileError}

theorem firstFault?_column (role : Role) (name : String) (type : ColumnType) :
    (column name type).firstFault? schema role = (column name type).fault? schema role := by
  simp [firstFault?, nodes]

theorem firstFault?_binary (role : Role) (op : Operator) (left right : Expr) :
    (binary op left right).firstFault? schema role =
      ((binary op left right).fault? schema role).or
        ((left.firstFault? schema op.sideRole).or (right.firstFault? schema op.sideRole)) := by
  unfold firstFault?
  rw [nodes, List.findSome?_cons, List.findSome?_append]
  cases (binary op left right).fault? schema role <;> rfl

/-- Where a condition is needed, an operator is at fault only through its sides. -/
theorem firstFault?_operation (op : Operator) (left right : Expr) :
    (binary op left right).firstFault? schema .condition =
      (left.firstFault? schema op.sideRole).or (right.firstFault? schema op.sideRole) := by
  rw [firstFault?_binary]
  rfl

/-! ### Expressions without a fault -/

theorem fault?_column_eq_none_iff {role : Role} {name : String} {type : ColumnType} :
    (column name type).fault? schema role = none ↔
      (role = .condition → type = .boolean) ∧ schema.contains name = true := by
  rw [fault?]
  by_cases hrole : role = .condition ∧ type ≠ .boolean
  · simp [hrole]
  · have hboolean : role = .condition → type = .boolean := by
      intro hcondition
      by_contra htype
      exact hrole ⟨hcondition, htype⟩
    rw [if_neg hrole]
    by_cases hname : schema.contains name = true
    · rw [if_pos hname]
      exact iff_of_true rfl ⟨hboolean, hname⟩
    · simp [hname]

theorem firstFault?_value_eq_none_iff :
    e.firstFault? schema .value = none ↔
      e.IsValue ∧ ∀ name ∈ e.columns, schema.contains name = true := by
  cases e with
  | empty => simp [firstFault?, nodes, fault?, IsValue]
  | constant value => simp [firstFault?, nodes, fault?, IsValue, columns]
  | column name type =>
    rw [firstFault?_column, fault?_column_eq_none_iff]
    simp [IsValue, columns]
  | binary op left right =>
    rw [firstFault?_binary]
    simp [fault?, IsValue]

theorem firstFault?_sides_eq_none_iff {op : Operator} {left right : Expr}
    (hop : ∀ connective, op ≠ .connective connective) :
    (binary op left right).firstFault? schema .condition = none ↔
      (left.IsValue ∧ right.IsValue) ∧
        ∀ name ∈ (binary op left right).columns, schema.contains name = true := by
  have hrole : op.sideRole = .value := by
    cases op with
    | connective op => exact absurd rfl (hop op)
    | comparison op => rfl
    | textTest op => rfl
  rw [firstFault?_operation, hrole, Option.or_eq_none_iff, firstFault?_value_eq_none_iff,
    firstFault?_value_eq_none_iff, columns, List.forall_mem_append]
  exact and_and_and_comm

/-- Nothing is wrong with a condition whose columns are known, and with nothing else. -/
theorem firstFault?_eq_none_iff :
    e.firstFault? schema .condition = none ↔
      e.IsFilter ∧ ∀ name ∈ e.columns, schema.contains name = true := by
  induction e with
  | empty => simp [firstFault?, nodes, fault?, IsFilter]
  | constant value => simp [firstFault?, nodes, fault?, IsFilter]
  | column name type =>
    rw [firstFault?_column, fault?_column_eq_none_iff]
    simp [IsFilter, columns]
  | binary op left right ihleft ihright =>
    cases op with
    | connective op =>
      rw [firstFault?_operation, Operator.sideRole, Option.or_eq_none_iff, ihleft, ihright,
        IsFilter, columns, List.forall_mem_append]
      exact and_and_and_comm
    | comparison op =>
      apply firstFault?_sides_eq_none_iff
      intro connective hop
      cases hop
    | textTest op =>
      apply firstFault?_sides_eq_none_iff
      intro connective hop
      cases hop

/-! ### What makes the compiler fail -/

/-- Whatever columns were required before, the part fails with that fault, if there is one, and
    with nothing else. -/
def FailsWith {α : Type} (lower : List String → Except CompileError (Lowered α))
    (fault : Option CompileError) : Prop :=
  ∀ required error, lower required = .error error ↔ fault = some error

/-- Two parts, the second with the columns of the first required, fail with the fault of the first
    part, and with that of the second if the first has none. -/
theorem FailsWith.both {α β γ : Type} {first : List String → Except CompileError (Lowered α)}
    {second : List String → Except CompileError (Lowered β)} {fault fault' : Option CompileError}
    (hfirst : FailsWith first fault) (hsecond : FailsWith second fault') (part : α → β → γ)
    (label : Label → Label → Label) :
    FailsWith (fun required => do
      let l ← first required
      let r ← second l.required
      return ⟨part l.part r.part, label l.label r.label, r.required⟩) (fault.or fault') := by
  intro required error
  beta_reduce
  rw [bind_eq_error_iff, hfirst required error]
  cases hl : first required with
  | error earlier =>
    rw [(hfirst required earlier).mp hl]
    simp
  | ok l =>
    -- If the first part is accepted it had no fault, and the second one decides.
    have hnone : fault = none := by
      rw [Option.eq_none_iff_forall_ne_some]
      intro earlier hfault
      rw [(hfirst required earlier).mpr hfault] at hl
      cases hl
    rw [hnone, Option.none_or, ← hsecond l.required error]
    constructor
    · rintro (hfault | ⟨l', hl', hrest⟩)
      · cases hfault
      · cases hl'
        rcases bind_eq_error_iff.mp hrest with hr | ⟨r, -, hpure⟩
        · exact hr
        · cases hpure
    · intro hr
      apply Or.inr
      refine ⟨l, rfl, ?_⟩
      exact bind_eq_error_iff.mpr (.inl hr)

theorem failsWith_column {α : Type} (part : α) (name : String) :
    FailsWith (fun required => do
      return ⟨part, .column name, ← requireColumn schema required name⟩)
      (if schema.contains name then none else some (.unknownColumn name)) := by
  intro required error
  beta_reduce
  unfold requireColumn
  by_cases hname : schema.contains name = true
  · simp [hname, bind, Except.bind, pure, Except.pure]
  · simp [hname, bind, Except.bind]

theorem failsWith_value (peer : Option ColumnType) (e : Expr) :
    FailsWith (fun required => lowerValue schema peer required e)
      (e.firstFault? schema .value) := by
  cases e with
  | empty =>
    intro required error
    simp [lowerValue, firstFault?, nodes, fault?]
  | constant value =>
    intro required error
    simp [lowerValue, firstFault?, nodes, fault?]
  | column name type =>
    rw [firstFault?_column]
    exact failsWith_column _ name
  | binary op left right =>
    intro required error
    rw [firstFault?_binary]
    simp [lowerValue, fault?]

theorem failsWith_sides (op : Operator) (build : Operand → Operand → Condition)
    (left right : Expr) :
    FailsWith (fun required => lowerSides schema required op build left right)
      ((left.firstFault? schema .value).or (right.firstFault? schema .value)) :=
  (failsWith_value right.columnType? left).both (failsWith_value left.columnType? right)
    build (.binary op)

/-- A condition is refused for its first fault and accepted without one. -/
theorem failsWith_condition (e : Expr) :
    FailsWith (fun required => lowerCondition schema required e)
      (e.firstFault? schema .condition) := by
  -- Nodes are listed before their sides and from left to right, as they are lowered.
  induction e with
  | empty =>
    intro required error
    simp [lowerCondition, firstFault?, nodes, fault?]
  | constant value =>
    intro required error
    simp [lowerCondition, firstFault?, nodes, fault?]
  | column name type =>
    rw [firstFault?_column]
    by_cases htype : type = .boolean
    · subst htype
      exact failsWith_column _ name
    · intro required error
      simp [lowerCondition, fault?, htype]
  | binary op left right ihleft ihright =>
    rw [firstFault?_operation]
    cases op with
    | connective op => exact ihleft.both ihright (Condition.connect op) (.binary (.connective op))
    | comparison op => exact failsWith_sides _ _ left right
    | textTest op => exact failsWith_sides _ _ left right

/-- An expression fails with its first fault, on top of any filter. -/
theorem compile_eq_error_iff {previous : Option Filter} :
    e.compile schema previous = .error error ↔ e.firstFault? schema .condition = some error := by
  rw [← failsWith_condition e [] error]
  constructor
  · intro h
    rcases bind_eq_error_iff.mp h with halone | ⟨f, -, hpure⟩
    · rcases bind_eq_error_iff.mp halone with hlower | ⟨low, -, hpure⟩
      · exact hlower
      · cases hpure
    · cases hpure
  · intro hlower
    have halone : e.compileAlone schema = .error error := bind_eq_error_iff.mpr (.inl hlower)
    exact bind_eq_error_iff.mpr (.inl halone)

theorem exists_compile_iff {previous : Option Filter} :
    (∃ f, e.compile schema previous = .ok f) ↔ e.firstFault? schema .condition = none := by
  rw [Option.eq_none_iff_forall_ne_some]
  constructor
  · rintro ⟨f, hf⟩ error hfault
    rw [compile_eq_error_iff.mpr hfault] at hf
    cases hf
  · intro hnone
    cases hcompile : e.compile schema previous with
    | ok f => exact ⟨f, rfl⟩
    | error error => exact absurd (compile_eq_error_iff.mp hcompile) (hnone error)

/-- **The compiler refuses at the first fault.**  An expression is compiled exactly if it is a
    condition and the schema has all of its columns.  The error of any other is that of the first
    of its nodes, from left to right, with which something is wrong: it is empty, no condition or
    no value where one is needed, or a column that the schema does not have. -/
theorem compile_refuses_first_fault (schema : Schema) (e : Expr) (previous : Option Filter) :
    ((∃ f, e.compile schema previous = .ok f) ↔
      e.IsFilter ∧ ∀ name ∈ e.columns, schema.contains name = true) ∧
    ∀ error, e.compile schema previous = .error error ↔
      ∃ before role node after, e.nodes .condition = before ++ (role, node) :: after ∧
        (∀ earlier ∈ before, earlier.2.fault? schema earlier.1 = none) ∧
        node.fault? schema role = some error := by
  constructor
  · rw [exists_compile_iff, firstFault?_eq_none_iff]
  · intro error
    rw [compile_eq_error_iff, firstFault?, List.findSome?_eq_some_iff]
    constructor
    · rintro ⟨before, ⟨role, node⟩, after, hnodes, hfault, hbefore⟩
      exact ⟨before, role, node, after, hnodes, hbefore, hfault⟩
    · rintro ⟨before, role, node, after, hnodes, hbefore, hfault⟩
      exact ⟨before, (role, node), after, hnodes, hfault, hbefore⟩

/-- An operation in the place of a value is reported before the unknown column to its right. -/
example : (binary (.comparison .equal) (binary (.connective .and) empty empty)
    (column "width" .integer)).compile fileSchema none = .error (.notAValue "( && )") := by
  decide +kernel

end Expr

end RecordFilter
