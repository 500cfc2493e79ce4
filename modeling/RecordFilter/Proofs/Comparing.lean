import Mathlib.Data.String.Basic
import RecordFilter.Operator
import RecordFilter.Proofs.FloatTexts
/-!
# The laws of comparing

All values but null compare with each other, in opposite ways when they change places, and the values
of one type stand in a line (`compare_coherent`).  For most types this is the order of the type.  The
floats need a closer look: a NaN has no rank among the numbers, and compares by the text `NaN` that
shows it.  This text stands behind those of all other numbers but `inf`, so a NaN has a place in the
line after all, just below the infinity (`Binary64.place`).
-/

namespace RecordFilter

/-! ### The place of a float -/

theorem pow_two_pos (i : Nat) : 0 < Nat.pow 2 i := Nat.pow_pos (by decide)

theorem pow_two_le {i j : Nat} (h : i ≤ j) : Nat.pow 2 i ≤ Nat.pow 2 j :=
  Nat.pow_le_pow_right (by decide) h

theorem pow_two_mul_pow_two (i j : Nat) : Nat.pow 2 i * Nat.pow 2 j = Nat.pow 2 (i + j) :=
  (Nat.pow_add 2 i j).symm

theorem Magnitude.units_lt (m : Magnitude) : m.units < Nat.pow 2 2098 := by
  have hsize : 53 + (m.exponent + 1074).toNat ≤ 2098 := by
    have hexponent := m.exponent_le
    omega
  generalize 2098 = size at hsize ⊢
  calc m.significand * Nat.pow 2 (m.exponent + 1074).toNat
      < Nat.pow 2 53 * Nat.pow 2 (m.exponent + 1074).toNat :=
        Nat.mul_lt_mul_of_pos_right m.significand_lt (pow_two_pos _)
    _ = Nat.pow 2 (53 + (m.exponent + 1074).toNat) := pow_two_mul_pow_two 53 _
    _ ≤ Nat.pow 2 size := pow_two_le hsize

theorem compare_double (i j : Int) : Ord.compare (2 * i) (2 * j) = Ord.compare i j := by
  cases h : Ord.compare i j with
  | lt =>
    rw [Int.compare_eq_lt] at h ⊢
    omega
  | eq =>
    rw [Int.compare_eq_eq] at h ⊢
    omega
  | gt =>
    rw [Int.compare_eq_gt] at h ⊢
    omega

namespace Binary64

/-- How two numbers compare, by their texts when one of them is a NaN. -/
def order (x y : Binary64) : Ordering := (x.compare? y).getD (Ord.compare x.shown y.shown)

/-- Where a number stands in the line of all numbers.  The ranks are doubled to make room for a NaN
    below the infinity. -/
def place : Binary64 → Int
  | nan => 2 * Nat.pow 2 2098 - 1
  | infinite negative => if negative then -(2 * Nat.pow 2 2098) else 2 * Nat.pow 2 2098
  | finite negative m => if negative then -(2 * m.units) else 2 * m.units

theorem rank_eq_none_iff {x : Binary64} : x.rank = none ↔ x = nan := by
  cases x with
  | nan => exact iff_of_true rfl rfl
  | infinite negative => exact iff_of_false nofun nofun
  | finite negative m => exact iff_of_false nofun nofun

theorem place_eq_of_rank {x : Binary64} {r : Int} (h : x.rank = some r) : x.place = 2 * r := by
  cases x with
  | nan => cases h
  | infinite negative =>
    rw [rank, Option.some.injEq] at h
    rw [place, ← h]
    generalize Nat.pow 2 2098 = top
    cases negative <;> simp
  | finite negative m =>
    rw [rank, Option.some.injEq] at h
    rw [place, ← h]
    cases negative <;> simp

theorem order_swap (x y : Binary64) : y.order x = (x.order y).swap := by
  rw [order, order, compare?, compare?]
  cases x.rank with
  | none => cases y.rank <;> exact Std.OrientedOrd.eq_swap
  | some r => cases y.rank <;> exact Std.OrientedOrd.eq_swap

/-- The texts of finite numbers stand before `NaN`: they begin with a digit or a minus. -/
theorem shown_lt_nan (negative : Bool) (m : Magnitude) : shown (finite negative m) < "NaN" := by
  have hnan : "NaN".toList = ['N', 'a', 'N'] := by decide
  obtain ⟨c, rest, htext⟩ := List.exists_cons_of_ne_nil
    (DecimalForm.plainText_ne_nil (m.shortest true))
  rw [String.lt_iff, toList_shown, hnan]
  -- The first character decides: a minus and all digits stand before an `N`.
  cases negative with
  | true =>
    rw [if_pos rfl, List.cons_lt_cons_iff]
    exact .inl (by decide)
  | false =>
    have hdigit : c.isDigit = true := by
      apply (DecimalForm.plainText_chars (m.shortest true)).1
      rw [htext]
      rfl
    have hbefore : c < 'N' := by
      simp only [Char.isDigit, Bool.and_eq_true, decide_eq_true_eq] at hdigit
      exact Nat.lt_of_le_of_lt hdigit.2 (by decide)
    rw [if_neg Bool.false_ne_true, htext, List.cons_lt_cons_iff]
    exact .inl hbefore

/-- A NaN compares by its text with every number, and so stands right below the infinity. -/
theorem order_nan (x : Binary64) : order nan x = Ord.compare nan.place x.place := by
  -- A NaN has no rank, so the comparison falls back on the two texts.
  cases x with
  | nan =>
    rw [Std.compare_self]
    decide +kernel
  | infinite negative =>
    -- The text `NaN` stands before `inf` and behind `-inf`.
    simp only [place]
    cases negative with
    | false =>
      have hbelow : order nan (infinite false) = .lt := by decide +kernel
      rw [hbelow, eq_comm, Int.compare_eq_lt, if_neg Bool.false_ne_true]
      generalize Nat.pow 2 2098 = top
      omega
    | true =>
      have habove : order nan (infinite true) = .gt := by decide +kernel
      have hroom : ∀ top : Nat, 0 < top → -(2 * (top : Int)) < 2 * top - 1 := by omega
      rw [habove, eq_comm, Int.compare_eq_gt, if_pos rfl]
      generalize 2098 = size
      exact hroom _ (pow_two_pos size)
  | finite negative m =>
    -- It stands behind the texts of all finite numbers, the places of which end below the infinity.
    have habove : order nan (finite negative m) = .gt :=
      compare_gt_iff_gt.mpr (shown_lt_nan negative m)
    have hunits := m.units_lt
    simp only [place]
    rw [habove, eq_comm, Int.compare_eq_gt]
    generalize Nat.pow 2 2098 = top at hunits ⊢
    cases negative with
    | false =>
      rw [if_neg Bool.false_ne_true]
      omega
    | true =>
      rw [if_pos rfl]
      omega

/-- All numbers compare as their places do. -/
theorem order_eq_compare_place (x y : Binary64) : x.order y = Ord.compare x.place y.place := by
  cases hx : x.rank with
  | none =>
    rw [rank_eq_none_iff.mp hx]
    exact order_nan y
  | some r =>
    cases hy : y.rank with
    | none =>
      rw [rank_eq_none_iff.mp hy, order_swap, order_nan]
      exact Std.OrientedOrd.eq_swap.symm
    | some r' =>
      rw [place_eq_of_rank hx, place_eq_of_rank hy, compare_double, order, compare?, hx, hy]
      rfl

end Binary64

/-- Instants order by two numbers, the second of which counts when the first are equal. -/
instance : Std.TransCmp Instant.compare :=
  inferInstanceAs (Std.TransCmp (compareLex (compareOn Instant.seconds) (compareOn Instant.nanos)))

/-! ### Two values -/

namespace Value

variable {a b c : Value}

def order (a b : Value) : Ordering :=
  match a.folded?, b.folded? with
  | some s, some t => Ord.compare s t
  | _, _ => (naturalOrder a b).getD (Ord.compare a.shown b.shown)

@[simp] theorem compare_null_left (b : Value) : null.compare b = none := rfl

@[simp] theorem compare_null_right (a : Value) : a.compare null = none := by
  cases a <;> rfl

/-- Two values that are not null compare by one total order, whatever their kinds. -/
theorem compare_eq_order (ha : a ≠ null) (hb : b ≠ null) : a.compare b = some (a.order b) := by
  have hnull : ∀ v : Value, v ≠ null → v.isNull = false := by
    intro v hv
    cases v with
    | null => exact absurd rfl hv
    | _ => rfl
  rw [compare, hnull a ha, hnull b hb, order]
  cases a.folded? with
  | none => rfl
  | some s => cases b.folded? <;> rfl

theorem compare_eq_none_iff : a.compare b = none ↔ a = null ∨ b = null := by
  by_cases ha : a = null
  · simp [ha]
  · by_cases hb : b = null
    · simp [hb]
    · simp [compare_eq_order, ha, hb]

/-- Exchanging the sides of a comparison within one kind, or of an integer with a float,
turns the answer round. -/
theorem naturalOrder_swap (a b : Value) :
    naturalOrder b a = (naturalOrder a b).map Ordering.swap := by
  cases a with
  | integer m =>
    cases b with
    | integer n => exact congrArg some Std.OrientedOrd.eq_swap
    | float x => rfl
    | _ => rfl
  | float x =>
    cases b with
    | integer n =>
      rw [naturalOrder, naturalOrder, Option.map_map]
      cases compareNumbers n x with
      | none => rfl
      | some o => exact congrArg some o.swap_swap.symm
    | float y =>
      rw [naturalOrder, naturalOrder, Binary64.compare?, Binary64.compare?]
      cases x.rank with
      | none => cases y.rank <;> rfl
      | some r =>
        cases y.rank with
        | none => rfl
        | some r' => exact congrArg some Std.OrientedOrd.eq_swap
    | _ => rfl
  | dateTime t =>
    cases b with
    | dateTime u => exact congrArg some Std.OrientedCmp.eq_swap
    | _ => rfl
  | boolean p =>
    cases b with
    | boolean q => exact congrArg some Std.OrientedOrd.eq_swap
    | _ => rfl
  | columnType type =>
    cases b with
    | columnType other => exact congrArg some Std.OrientedOrd.eq_swap
    | _ => rfl
  | null => cases b <;> rfl
  | text s => cases b <;> rfl

/-- Values in opposite places compare in opposite ways. -/
theorem order_swap (a b : Value) : b.order a = (a.order b).swap := by
  have hother : (naturalOrder b a).getD (Ord.compare b.shown a.shown) =
      ((naturalOrder a b).getD (Ord.compare a.shown b.shown)).swap := by
    rw [naturalOrder_swap a b]
    cases naturalOrder a b with
    | none => exact Std.OrientedOrd.eq_swap
    | some o => rfl
  rw [order, order]
  cases a.folded? with
  | none => cases b.folded? <;> exact hother
  | some s =>
    cases b.folded? with
    | none => exact hother
    | some t => exact Std.OrientedOrd.eq_swap

theorem compare_swap (a b : Value) : b.compare a = (a.compare b).map Ordering.swap := by
  by_cases ha : a = null
  · rw [ha, compare_null_left, compare_null_right, Option.map_none]
  · by_cases hb : b = null
    · rw [hb, compare_null_left, compare_null_right, Option.map_none]
    · rw [compare_eq_order hb ha, compare_eq_order ha hb, order_swap a b, Option.map_some]

theorem order_self (a : Value) : a.order a = .eq := by
  have hswap := order_swap a a
  cases h : a.order a with
  | eq => rfl
  | lt =>
    rw [h] at hswap
    cases hswap
  | gt =>
    rw [h] at hswap
    cases hswap

/-! ### Values of one type -/

theorem order_dateTime (t u : Instant) : (dateTime t).order (dateTime u) = t.compare u := rfl

theorem order_float (x y : Binary64) : (float x).order (float y) = x.order y := rfl

/-- The values of one type stand in a line. -/
theorem order_trans (hab : a.type? = b.type?) (hbc : b.type? = c.type?)
    (hle : (a.order b).isLE = true) (hle' : (b.order c).isLE = true) :
    (a.order c).isLE = true := by
  -- Values of one type have one kind, so only the diagonal is left of all the cases.
  cases a with
  | null =>
    cases b with
    | null =>
      cases c with
      | null => exact hle
      | _ => cases hbc
    | _ => cases hab
  | text s =>
    cases b with
    | text t =>
      cases c with
      | text u => exact Std.TransOrd.isLE_trans hle hle'
      | _ => cases hbc
    | _ => cases hab
  | integer i =>
    cases b with
    | integer j =>
      cases c with
      | integer k => exact Std.TransOrd.isLE_trans hle hle'
      | _ => cases hbc
    | _ => cases hab
  | float x =>
    cases b with
    | float y =>
      cases c with
      | float z =>
        rw [order_float, Binary64.order_eq_compare_place] at hle hle' ⊢
        exact Std.TransOrd.isLE_trans hle hle'
      | _ => cases hbc
    | _ => cases hab
  | dateTime s =>
    cases b with
    | dateTime t =>
      cases c with
      | dateTime u =>
        rw [order_dateTime] at hle hle' ⊢
        exact Std.TransCmp.isLE_trans hle hle'
      | _ => cases hbc
    | _ => cases hab
  | boolean p =>
    cases b with
    | boolean q =>
      cases c with
      | boolean r => exact Std.TransOrd.isLE_trans hle hle'
      | _ => cases hbc
    | _ => cases hab
  | columnType s =>
    cases b with
    | columnType t =>
      cases c with
      | columnType u => exact Std.TransOrd.isLE_trans hle hle'
      | _ => cases hbc
    | _ => cases hab

/-! ### The comparisons of the filter language -/

theorem holds_of_null (h : a = null ∨ b = null) (op : Comparison) :
    op.holds a b = true ↔ op = .notEqual := by
  rw [Comparison.holds, compare_eq_none_iff.mpr h]
  cases op <;> simp [Comparison.accepts]

theorem lessEqual_holds_iff (ha : a ≠ null) (hb : b ≠ null) :
    Comparison.lessEqual.holds a b = true ↔ (a.order b).isLE = true := by
  rw [Comparison.holds, compare_eq_order ha hb]
  cases a.order b <;> simp [Comparison.accepts]

theorem ne_null_of_lessEqual (h : Comparison.lessEqual.holds a b = true) : a ≠ null ∧ b ≠ null := by
  rw [← not_or]
  intro hnull
  cases (holds_of_null hnull .lessEqual).mp h

/-- Of less, equal and greater, one accepts an order and the others do not. -/
theorem existsUnique_accepts (order : Ordering) :
    ∃! op : Comparison, op ∈ [.less, .equal, .greater] ∧ op.accepts (some order) = true := by
  cases order with
  | lt =>
    refine ⟨.less, ⟨by decide, rfl⟩, ?_⟩
    rintro (_ | _ | _ | _ | _ | _) <;> decide
  | eq =>
    refine ⟨.equal, ⟨by decide, rfl⟩, ?_⟩
    rintro (_ | _ | _ | _ | _ | _) <;> decide
  | gt =>
    refine ⟨.greater, ⟨by decide, rfl⟩, ?_⟩
    rintro (_ | _ | _ | _ | _ | _) <;> decide

/-- **The comparisons are coherent.**  Two values compare exactly when neither is null, and in
    opposite ways when they change places; a value is equal to itself.  So of two values one is less,
    equal or greater, and exactly one of these, and the other comparisons are their opposites.  Of a
    null and any other value nothing holds but that they are not equal.  Values of one type are
    ordered transitively. -/
theorem compare_coherent (a b c : Value) :
    (a.compare b = none ↔ a = null ∨ b = null) ∧
    b.compare a = (a.compare b).map Ordering.swap ∧
    (a ≠ null → a.compare a = some .eq) ∧
    (a ≠ null → b ≠ null →
      (∃! op : Comparison, op ∈ [.less, .equal, .greater] ∧ op.holds a b = true) ∧
      Comparison.lessEqual.holds a b = !Comparison.greater.holds a b ∧
      Comparison.greaterEqual.holds a b = !Comparison.less.holds a b ∧
      Comparison.notEqual.holds a b = !Comparison.equal.holds a b ∧
      Comparison.less.holds a b = Comparison.greater.holds b a) ∧
    (a = null ∨ b = null → ∀ op : Comparison, op.holds a b = true ↔ op = .notEqual) ∧
    (a.type? = b.type? → b.type? = c.type? → Comparison.lessEqual.holds a b = true →
      Comparison.lessEqual.holds b c = true → Comparison.lessEqual.holds a c = true) := by
  refine ⟨compare_eq_none_iff, compare_swap a b, ?_, ?_, holds_of_null, ?_⟩
  · intro ha
    rw [compare_eq_order ha ha, order_self]
  · intro ha hb
    simp only [Comparison.holds, compare_eq_order ha hb, compare_eq_order hb ha, order_swap a b]
    -- All six comparisons read the same order, in one direction or the other.
    refine ⟨existsUnique_accepts _, ?_⟩
    cases a.order b <;> exact ⟨rfl, rfl, rfl, rfl⟩
  · intro hab hbc hle hle'
    obtain ⟨ha, hb⟩ := ne_null_of_lessEqual hle
    obtain ⟨-, hc⟩ := ne_null_of_lessEqual hle'
    rw [lessEqual_holds_iff ha hb] at hle
    rw [lessEqual_holds_iff hb hc] at hle'
    rw [lessEqual_holds_iff ha hc]
    exact order_trans hab hbc hle hle'

end Value

end RecordFilter
