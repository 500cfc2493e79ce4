import Mathlib.Data.List.Induction
import RecordFilter.Filter.Compile
import RecordFilter.Proofs.Except
/-!
# What a compiled filter means

The compiler walks over an expression once, collects the columns on the way and builds the
condition.  Here an expression gets a meaning of its own, in which nothing is collected:
`Expr.Holds` says when it is true of properties, and `Expr.Matches` adds that none of its columns
is null.  A compiled filter accepts what its expression matches.

The columns collected so far only pass through (`passesThrough_condition`), so every part can be
looked at as if it were compiled alone.
-/

namespace RecordFilter

open RecordFilter.Filter

/-! ### Merging columns -/

namespace Filter

variable {columns more : List String} {name : String}

@[simp] theorem mergeColumns_nil : mergeColumns columns [] = columns := rfl

theorem mergeColumns_append (columns more rest : List String) :
    mergeColumns columns (more ++ rest) = mergeColumns (mergeColumns columns more) rest :=
  List.foldl_append

@[simp] theorem mergeColumns_singleton :
    mergeColumns columns [name] = if name ∈ columns then columns else columns ++ [name] := by
  simp [mergeColumns]

theorem mergeColumns_append_singleton :
    mergeColumns columns (more ++ [name]) =
      if name ∈ mergeColumns columns more then mergeColumns columns more
      else mergeColumns columns more ++ [name] := by
  rw [mergeColumns_append, mergeColumns_singleton]

/-- What is merged is what was there, with the new names behind it, each once. -/
theorem mergeColumns_eq (columns more : List String) :
    mergeColumns columns more =
      columns ++ more.eraseDups.filter (fun name => !columns.contains name) := by
  induction more using List.reverseRecOn with
  | nil => simp
  | append_singleton more name ih =>
    rw [mergeColumns_append_singleton, ih, List.eraseDups_append]
    by_cases hcolumns : name ∈ columns
    · simp [hcolumns, List.removeAll]
    · by_cases hmore : name ∈ more
      · simp [hcolumns, hmore, List.removeAll]
      · simp [hcolumns, hmore, List.removeAll, List.eraseDups_cons]

@[simp] theorem nil_mergeColumns (more : List String) : mergeColumns [] more = more.eraseDups := by
  simp [mergeColumns_eq]

@[simp] theorem mem_mergeColumns :
    name ∈ mergeColumns columns more ↔ name ∈ columns ∨ name ∈ more := by
  rw [mergeColumns_eq]
  by_cases hcolumns : name ∈ columns
  · simp [hcolumns]
  · simp [hcolumns]

/-- The required columns may be merged in any grouping, so a whole subtree can be merged at
once. -/
theorem mergeColumns_assoc (first second third : List String) :
    mergeColumns first (mergeColumns second third) =
      mergeColumns (mergeColumns first second) third := by
  induction third using List.reverseRecOn with
  | nil => rfl
  | append_singleton third name ih =>
    rw [mergeColumns_append_singleton, mergeColumns_append_singleton, ← ih]
    by_cases hname : name ∈ mergeColumns second third
    · have hall : name ∈ mergeColumns first (mergeColumns second third) :=
        mem_mergeColumns.mpr (.inr hname)
      rw [if_pos hname, if_pos hall]
    · rw [if_neg hname, mergeColumns_append_singleton]

end Filter

/-- A compiled part, with columns that were required before it. -/
def Lowered.after {α : Type} (required : List String) (low : Lowered α) : Lowered α :=
  { low with required := mergeColumns required low.required }

namespace Expr

variable {schema : Schema} {e : Expr}

/-! ### The meaning of an expression -/

def value (properties : Properties) : Expr → Value
  | column name _ => properties name
  | constant value => value
  | _ => .null

def Holds (properties : Properties) : Expr → Prop
  | binary (.connective .and) left right => left.Holds properties ∧ right.Holds properties
  | binary (.connective .or) left right => left.Holds properties ∨ right.Holds properties
  | binary (.comparison op) left right =>
    op.holds (left.value properties) (right.value properties) = true
  | binary (.textTest op) left right =>
    op.holds (left.value properties) (right.value properties) = true
  | column name .boolean => properties name = .boolean true
  | _ => False

/-- No column of the expression is null, and the expression is true. -/
def Matches (properties : Properties) (e : Expr) : Prop :=
  (∀ name ∈ e.columns, properties name ≠ .null) ∧ e.Holds properties

/-! ### What was collected before passes through -/

/-- Columns that were required before only stand in front of those of the part. -/
def PassesThrough {α : Type} (lower : List String → Except CompileError (Lowered α)) : Prop :=
  ∀ required, lower required = (lower []).map (·.after required)

/-- Two lowerings that pass the earlier columns through do so one after the other. -/
theorem PassesThrough.both {α β γ : Type} {first : List String → Except CompileError (Lowered α)}
    {second : List String → Except CompileError (Lowered β)} (hfirst : PassesThrough first)
    (hsecond : PassesThrough second) (part : α → β → γ) (label : Label → Label → Label) :
    PassesThrough fun required => do
      let l ← first required
      let r ← second l.required
      return ⟨part l.part r.part, label l.label r.label, r.required⟩ := by
  intro required
  beta_reduce
  rw [hfirst required]
  cases first [] with
  | error error => rfl
  | ok l =>
    -- The second part starts from the columns of the first, in the whole as well as alone.
    have hafter := hsecond (mergeColumns required l.required)
    have halone := hsecond l.required
    simp only [bind, Except.bind, Except.map, Lowered.after] at hafter halone ⊢
    rw [hafter, halone]
    cases second [] with
    | error error => rfl
    | ok r => simp [pure, Except.pure, mergeColumns_assoc]

theorem requireColumn_eq (required : List String) (name : String) :
    requireColumn schema required name =
      (requireColumn schema [] name).map (mergeColumns required) := by
  unfold requireColumn
  by_cases hname : schema.contains name
  · simp [hname, Except.map]
  · simp [hname, Except.map]

theorem passesThrough_column {α : Type} (part : α) (name : String) :
    PassesThrough fun required => do
      return ⟨part, .column name, ← requireColumn schema required name⟩ := by
  intro required
  beta_reduce
  rw [requireColumn_eq]
  cases requireColumn schema [] name with
  | error error => rfl
  | ok names => rfl

theorem passesThrough_value (peer : Option ColumnType) (e : Expr) :
    PassesThrough fun required => lowerValue schema peer required e := by
  cases e with
  | empty => exact fun _ => rfl
  | column name type => exact passesThrough_column _ name
  | constant value => exact fun _ => rfl
  | binary op left right => exact fun _ => rfl

theorem passesThrough_sides (op : Operator) (build : Operand → Operand → Condition)
    (left right : Expr) :
    PassesThrough fun required => lowerSides schema required op build left right :=
  (passesThrough_value right.columnType? left).both (passesThrough_value left.columnType? right)
    build (.binary op)

/-- Lowering a condition only adds to the columns required before it. -/
theorem passesThrough_condition (e : Expr) :
    PassesThrough fun required => lowerCondition schema required e := by
  induction e with
  | empty => exact fun _ => rfl
  | column name type =>
    cases type with
    | boolean => exact passesThrough_column _ name
    | _ => exact fun _ => rfl
  | constant value => exact fun _ => rfl
  | binary op left right ihleft ihright =>
    cases op with
    | connective op => exact ihleft.both ihright (Condition.connect op) (.binary (.connective op))
    | comparison op => exact passesThrough_sides _ _ left right
    | textTest op => exact passesThrough_sides _ _ left right

/-- A condition lowered after other columns is the one lowered alone, with their columns
before its own. -/
theorem lowerCondition_after {low : Lowered Condition}
    (h : lowerCondition schema [] e = .ok low) (required : List String) :
    lowerCondition schema required e = .ok (low.after required) := by
  have hpass : lowerCondition schema required e =
      (lowerCondition schema [] e).map (·.after required) := passesThrough_condition e required
  rw [hpass, h]
  rfl

/-! ### What the parts of a filter mean -/

theorem requireColumn_eq_ok {required names : List String} {name : String}
    (h : requireColumn schema required name = .ok names) :
    names = mergeColumns required [name] := by
  unfold requireColumn at h
  split at h
  · cases h
    simp
  · cases h

theorem lowerValue_eq_ok {peer : Option ColumnType} {required : List String}
    {low : Lowered Operand} (h : lowerValue schema peer required e = .ok low) :
    low.required = mergeColumns required e.columns ∧
      ∀ properties, low.part.value properties = e.value properties := by
  cases e with
  | empty => cases h
  | column name type =>
    obtain ⟨names, hnames, rfl⟩ := bind_pure_eq_ok_iff.mp h
    exact ⟨requireColumn_eq_ok hnames, fun _ => rfl⟩
  | constant value =>
    cases h
    exact ⟨rfl, fun _ => rfl⟩
  | binary op left right => cases h

theorem lowerSides_eq_ok {required : List String} {op : Operator}
    {build : Operand → Operand → Condition} {left right : Expr} {low : Lowered Condition}
    (h : lowerSides schema required op build left right = .ok low) :
    low.required = mergeColumns required (left.columns ++ right.columns) ∧
      ∃ a b, low.part = build a b ∧ (∀ properties, a.value properties = left.value properties) ∧
        ∀ properties, b.value properties = right.value properties := by
  obtain ⟨l, hl, hrest⟩ := bind_eq_ok_iff.mp h
  obtain ⟨r, hr, rfl⟩ := bind_pure_eq_ok_iff.mp hrest
  obtain ⟨hlrequired, hlvalue⟩ := lowerValue_eq_ok hl
  obtain ⟨hrrequired, hrvalue⟩ := lowerValue_eq_ok hr
  refine ⟨?_, l.part, r.part, rfl, hlvalue, hrvalue⟩
  rw [hrrequired, hlrequired, mergeColumns_append]

/-- A compiled condition has collected the columns of its expression, and it holds when the
    expression does. -/
theorem lowerCondition_eq_ok {required : List String} {low : Lowered Condition}
    (h : lowerCondition schema required e = .ok low) :
    low.required = mergeColumns required e.columns ∧
      ∀ properties, low.part.holds properties = true ↔ e.Holds properties := by
  -- The columns grow from left to right, so the induction leaves open which are there before.
  induction e generalizing required low with
  | empty => cases h
  | column name type =>
    cases type with
    | boolean =>
      obtain ⟨names, hnames, rfl⟩ := bind_pure_eq_ok_iff.mp h
      refine ⟨requireColumn_eq_ok hnames, fun properties => ?_⟩
      simp [Condition.holds, Holds]
    | _ => cases h
  | constant value => cases h
  | binary op left right ihleft ihright =>
    cases op with
    | connective op =>
      obtain ⟨l, hl, hrest⟩ := bind_eq_ok_iff.mp h
      obtain ⟨r, hr, rfl⟩ := bind_pure_eq_ok_iff.mp hrest
      obtain ⟨hlrequired, hlholds⟩ := ihleft hl
      obtain ⟨hrrequired, hrholds⟩ := ihright hr
      refine ⟨?_, fun properties => ?_⟩
      · rw [hrrequired, hlrequired, columns, mergeColumns_append]
      · cases op with
        | and => simp [Condition.holds, Connective.apply, Holds, hlholds, hrholds]
        | or => simp [Condition.holds, Connective.apply, Holds, hlholds, hrholds]
    | comparison op =>
      obtain ⟨hrequired, a, b, hpart, ha, hb⟩ := lowerSides_eq_ok h
      refine ⟨hrequired, fun properties => ?_⟩
      rw [hpart, Condition.holds, ha, hb, Holds]
    | textTest op =>
      obtain ⟨hrequired, a, b, hpart, ha, hb⟩ := lowerSides_eq_ok h
      refine ⟨hrequired, fun properties => ?_⟩
      rw [hpart, Condition.holds, ha, hb, Holds]

/-! ### Compiled filters -/

/-- A filter compiled on its own needs the columns of its expression, and accepts what the
    expression matches. -/
theorem compileAlone_eq_ok {f : Filter} (h : e.compileAlone schema = .ok f) :
    f.columns = e.columns.eraseDups ∧
      ∀ properties, f.accepts properties = true ↔ e.Matches properties := by
  obtain ⟨low, hlow, rfl⟩ := bind_pure_eq_ok_iff.mp h
  obtain ⟨hrequired, hholds⟩ := lowerCondition_eq_ok hlow
  refine ⟨?_, fun properties => ?_⟩
  · rw [hrequired, nil_mergeColumns]
  · have hnull : ∀ value : Value, value.isNull = false ↔ value ≠ .null := by
      intro value
      cases value <;> simp [Value.isNull]
    simp [accepts, Condition.holds, Matches, hrequired, hholds, hnull]

theorem compile_none_eq_ok_iff {e : Expr} {f : Filter} :
    e.compile schema none = .ok f ↔ e.compileAlone schema = .ok f := by
  simp [compile]

theorem compile_some_eq_ok_iff {e : Expr} {earlier f : Filter} :
    e.compile schema (some earlier) = .ok f ↔
      ∃ alone, e.compileAlone schema = .ok alone ∧ earlier.narrow alone = f := by
  simp [compile]

theorem ne_empty_of_compile {e : Expr} {previous : Option Filter} {f : Filter}
    (h : e.compile schema previous = .ok f) : e ≠ .empty := by
  rintro rfl
  cases h

/-- **Compiling keeps the meaning.**  A compiled filter needs the columns of its expression, each
    once and in their order, and accepts what the expression matches.  On top of an earlier filter
    it needs the columns of that filter too, in front of its own, and accepts what both accept. -/
theorem compile_preserves_meaning {previous : Option Filter} {f : Filter}
    (h : e.compile schema previous = .ok f) :
    match previous with
    | none =>
      f.columns = e.columns.eraseDups ∧
        ∀ properties, f.accepts properties = true ↔ e.Matches properties
    | some earlier =>
      f.columns = earlier.columns ++
          e.columns.eraseDups.filter (fun name => !earlier.columns.contains name) ∧
        ∀ properties, f.accepts properties = true ↔
          earlier.accepts properties = true ∧ e.Matches properties := by
  -- An earlier filter stays a condition of its own, and its columns stay in front.
  cases previous with
  | none => exact compileAlone_eq_ok (compile_none_eq_ok_iff.mp h)
  | some earlier =>
    obtain ⟨alone, halone, rfl⟩ := compile_some_eq_ok_iff.mp h
    obtain ⟨hcolumns, haccepts⟩ := compileAlone_eq_ok halone
    refine ⟨?_, fun properties => ?_⟩
    · calc mergeColumns earlier.columns alone.columns
          = mergeColumns earlier.columns (mergeColumns [] e.columns) := by
            rw [hcolumns, nil_mergeColumns]
        _ = mergeColumns earlier.columns e.columns := mergeColumns_assoc ..
        _ = _ := mergeColumns_eq ..
    · rw [← haccepts]
      simp [narrow, accepts, Condition.holds, Connective.apply]

end Expr

/-! ### A filter on top of another -/

def fileSchema : Schema :=
  ((Schema.empty.register "" "length" .integer).1.register "" "hidden" .boolean).1

def Expr.shorter (n : Int64) : Expr :=
  .binary (.comparison .less) (.column "length" .integer) (.constant (.integer n))

/-- The condition `hidden || length < 9`. -/
def Expr.hiddenOrShorter : Expr :=
  .binary (.connective .or) (.column "hidden" .boolean) (.shorter 9)

def Filter.hidden : Filter :=
  ⟨.guard ["hidden"] (.isTrue "hidden"), .guard ["hidden"] (.column "hidden"), ["hidden"]⟩

theorem Expr.compile_hiddenOrShorter : ∃ f,
    Expr.hiddenOrShorter.compile fileSchema (some .hidden) = .ok f ∧
      f.columns = ["hidden", "length"] ∧
      ∀ properties, f.accepts properties = true ↔
        Filter.hidden.accepts properties = true ∧ Expr.hiddenOrShorter.Matches properties := by
  have hcompile : ∃ f, Expr.hiddenOrShorter.compile fileSchema (some .hidden) = .ok f :=
    ⟨_, by rfl⟩
  obtain ⟨f, hf⟩ := hcompile
  obtain ⟨hcolumns, haccepts⟩ := Expr.compile_preserves_meaning hf
  refine ⟨f, hf, ?_, haccepts⟩
  rw [hcolumns]
  decide +kernel

end RecordFilter
