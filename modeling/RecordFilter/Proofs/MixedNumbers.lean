import RecordFilter.Proofs.Comparing
import RecordFilter.Proofs.Decimals
/-!
# Integers against floats

An integer is compared with the decimal that stands for a float.  No integer lies between the float
and the decimal, so the comparison is the exact one, except that floats very near to an integer are
taken for it (`compare_integer_float_iff`).  A float without a decimal is beyond all integers, and
an integer that is rounded to a float stays on the right side of it.
-/

namespace RecordFilter

def signed (negative : Bool) (x : ℚ) : ℚ := if negative then -x else x

/-! ### Integers as floats -/

theorem roundHalfEven_bounds (num den : ℕ) :
    num / den ≤ roundHalfEven num den ∧ roundHalfEven num den ≤ num / den + 1 := by
  unfold roundHalfEven
  dsimp only
  split
  · omega
  · split <;> omega

theorem floorLog2_one {num : ℕ} (h : num ≠ 0) : floorLog2 num 1 = num.log2 := by
  have hone : (num.log2 : ℤ) - (1 : ℕ).log2 = num.log2 := by
    rw [show (1 : ℕ).log2 = 0 from rfl, Nat.cast_zero, sub_zero]
  have hdown : (-(num.log2 : ℤ)).toNat = 0 := by omega
  rw [floorLog2, hone, if_pos]
  rw [Int.toNat_natCast, hdown, Nat.one_mul, Nat.pow_eq, Nat.pow_eq, pow_zero, Nat.mul_one]
  exact Nat.log2_self_le h

/-- The exponent of an integer leaves it 53 bits. -/
theorem roundHalfEven_log2 {num : ℕ} (h : num ≠ 0) :
    Nat.pow 2 52 ≤ roundHalfEven (num * Nat.pow 2 (52 - num.log2)) (1 * Nat.pow 2 (num.log2 - 52)) ∧
      roundHalfEven (num * Nat.pow 2 (52 - num.log2)) (1 * Nat.pow 2 (num.log2 - 52)) ≤
        Nat.pow 2 53 := by
  -- Scaled by its logarithm a number has 53 bits, and rounding may carry into one more.
  have hscale : ∀ i, Nat.pow 2 (52 + i) * Nat.pow 2 (num.log2 - 52) =
      Nat.pow 2 (num.log2 + i) * Nat.pow 2 (52 - num.log2) := by
    intro i
    rw [pow_two_mul_pow_two, pow_two_mul_pow_two]
    congr 1
    omega
  have hden := pow_two_pos (num.log2 - 52)
  have hle : Nat.pow 2 52 ≤ num * Nat.pow 2 (52 - num.log2) / Nat.pow 2 (num.log2 - 52) := by
    rw [Nat.le_div_iff_mul_le hden, ← Nat.add_zero 52, hscale]
    exact Nat.mul_le_mul_right _ (Nat.log2_self_le h)
  have hlt : num * Nat.pow 2 (52 - num.log2) / Nat.pow 2 (num.log2 - 52) < Nat.pow 2 53 := by
    rw [Nat.div_lt_iff_lt_mul hden, hscale 1]
    exact Nat.mul_lt_mul_of_pos_right Nat.lt_log2_self (pow_two_pos _)
  rw [Nat.one_mul]
  obtain ⟨hbelow, habove⟩ := roundHalfEven_bounds (num * Nat.pow 2 (52 - num.log2))
    (Nat.pow 2 (num.log2 - 52))
  exact ⟨hle.trans hbelow, habove.trans hlt⟩

/-- An integer of 64 bits is in range, and its exponent is small. -/
theorem Magnitude.ofRatio?_one {num : ℕ} (h : num < 2 ^ 64) :
    ∃ m, ofRatio? num 1 = some m ∧ m.exponent ≤ 12 := by
  by_cases hnum : num = 0
  · exact ⟨zero, by rw [ofRatio?, if_pos hnum], by decide⟩
  · have hlog : num.log2 < 64 := (Nat.log2_lt hnum).mpr h
    have hexponent : max (-1074) (floorLog2 num 1 - 52) = (num.log2 : ℤ) - 52 := by
      rw [floorLog2_one hnum]
      omega
    have hdown : (-((num.log2 : ℤ) - 52)).toNat = 52 - num.log2 := by omega
    have hup : ((num.log2 : ℤ) - 52).toNat = num.log2 - 52 := by omega
    obtain ⟨hfull, hfits⟩ := roundHalfEven_log2 hnum
    rw [ofRatio?, if_neg hnum, hexponent]
    dsimp only
    rw [hdown, hup]
    -- A carry gives the next power of two, with an exponent greater by one.
    split
    · rw [of?, dif_pos ⟨by decide, by omega, by omega, .inl (by decide)⟩]
      exact ⟨_, rfl, by dsimp only; omega⟩
    next hcarry =>
      rw [of?, dif_pos ⟨lt_of_le_of_ne hfits hcarry, by omega, by omega, .inl hfull⟩]
      exact ⟨_, rfl, by dsimp only; omega⟩

theorem Magnitude.units_eq (m : Magnitude) : (m.units : ℚ) = m.value * 2 ^ (1074 : ℤ) := by
  have hexponent : ((m.exponent + 1074).toNat : ℤ) = m.exponent + 1074 := by
    have hge := m.exponent_ge
    omega
  rw [value, units, Nat.cast_mul, cast_pow_two, mul_assoc, ← zpow_add₀ two_ne_zero, ← zpow_natCast,
    hexponent]

/-- A magnitude with a small exponent is less than any of more than 96 bits. -/
theorem Magnitude.units_lt_units {m m' : Magnitude} (hsmall : m'.exponent ≤ 12)
    (hlarge : 2 ^ 96 ≤ m.value) : m'.units < m.units := by
  have hvalue : m'.value < m.value := by
    refine lt_of_lt_of_le ?_ hlarge
    calc m'.value = m'.significand * 2 ^ m'.exponent := rfl
      _ < 2 ^ 53 * 2 ^ (12 : ℤ) := by
          apply mul_lt_mul _ (zpow_le_zpow_right₀ one_le_two hsmall) (by positivity) (by positivity)
          exact_mod_cast m'.significand_lt
      _ ≤ 2 ^ 96 := by norm_num
  have hunits : (m'.units : ℚ) < m.units := by
    rw [units_eq, units_eq]
    gcongr
  exact_mod_cast hunits

/-- An integer is nearer to zero than a float of more than 96 bits. -/
theorem Binary64.ofInt_compare? {n : ℤ} {negative : Bool} {m : Magnitude} (hn : n.natAbs < 2 ^ 64)
    (hm : 2 ^ 96 ≤ m.value) :
    (ofInt n).compare? (finite negative m) = some (if negative then .gt else .lt) := by
  obtain ⟨m', hm', hexponent⟩ := Magnitude.ofRatio?_one hn
  have hunits := Magnitude.units_lt_units hexponent hm
  have hrank : ∀ negative' : Bool, Ord.compare (if negative' then -(m'.units : ℤ) else m'.units)
      (if negative then -(m.units : ℤ) else m.units) = if negative then .gt else .lt := by
    generalize m'.units = small at hunits ⊢
    generalize m.units = large at hunits ⊢
    intro negative'
    cases negative with
    | false =>
      rw [if_neg Bool.false_ne_true, if_neg Bool.false_ne_true, Int.compare_eq_lt]
      split <;> omega
    | true =>
      rw [if_pos rfl, if_pos rfl, Int.compare_eq_gt]
      split <;> omega
  rw [ofInt, ofRatio, hm']
  exact congrArg some (hrank _)

/-! ### Decimals as numbers -/

def Decimal96.value (d : Decimal96) : ℚ := signed d.negative (d.coefficient / (10 ^ d.places : ℕ))

theorem Decimal96.compareInt_eq (n : ℤ) (d : Decimal96) :
    d.compareInt n = Ord.compare (n : ℚ) d.value := by
  have hunit : (0 : ℚ) < (10 ^ d.places : ℕ) := by positivity
  -- Both are counted in units of the last place, and dividing by the unit keeps the order.
  have hscale : StrictMono fun k : ℤ => (k : ℚ) / (10 ^ d.places : ℕ) := by
    intro i j hij
    have hij' : (i : ℚ) < j := by exact_mod_cast hij
    dsimp only
    gcongr
  have hvalue : d.value = ((if d.negative then -(d.coefficient : ℤ) else d.coefficient : ℤ) : ℚ) /
      (10 ^ d.places : ℕ) := by
    rw [value, signed]
    cases d.negative with
    | false => rfl
    | true =>
      rw [if_pos rfl, if_pos rfl, Int.cast_neg, neg_div]
      rfl
  have hn : (n : ℚ) = ((n * (Nat.pow 10 d.places : ℕ) : ℤ) : ℚ) / (10 ^ d.places : ℕ) := by
    rw [Int.cast_mul, Nat.pow_eq]
    exact (mul_div_cancel_right₀ (n : ℚ) hunit.ne').symm
  rw [compareInt, hvalue, hn, ← cmp_eq_compare, ← cmp_eq_compare]
  exact (hscale.cmp_map_eq _ _).symm

/-- A finite float has a decimal that approximates it, or is beyond all integers. -/
theorem Decimal96.ofBinary64?_finite (negative : Bool) (m : Magnitude) :
    (ofBinary64? (.finite negative m) = none ∧ 2 ^ 96 ≤ m.value) ∨
      ∃ d, ofBinary64? (.finite negative m) = some d ∧
        Approximates (signed negative m.value) d.value := by
  have hsigned : ∀ {exact decimal : ℚ}, Approximates exact decimal →
      Approximates (signed negative exact) (signed negative decimal) := by
    intro exact decimal h
    cases negative with
    | false => exact h
    | true => exact h.neg
  rw [ofBinary64?]
  by_cases hzero : m.significand = 0
  · right
    refine ⟨⟨negative, 0, 0⟩, if_pos hzero, hsigned ?_⟩
    rw [Magnitude.value, hzero, Nat.cast_zero, zero_mul, zero_div]
    exact Approximates.refl 0
  · rw [if_neg hzero]
    -- Digits are dropped only below the point; above it a number can only be too large.
    rcases lt_or_ge m.exponent 0 with hneg | hnonneg
    · obtain ⟨bits, places, heq, happrox⟩ := ofMagnitude?_of_neg hneg
      exact .inr ⟨⟨negative, bits, places⟩, by rw [heq, Option.map_some], hsigned happrox⟩
    · rcases ofMagnitude?_of_nonneg hnonneg with ⟨hnone, hlarge⟩ | ⟨bits, places, heq, hvalue⟩
      · exact .inl ⟨by rw [hnone, Option.map_none], hlarge⟩
      · right
        refine ⟨⟨negative, bits, places⟩, by rw [heq, Option.map_some], hsigned ?_⟩
        rw [hvalue]
        exact Approximates.refl _

/-- A whole number compares with both in the same way, unless it is the second. -/
theorem Decimal96.KeepsWholes.compare_eq {before after : ℚ} {k : ℤ} (h : KeepsWholes before after)
    (hne : after ≠ k) : Ord.compare (k : ℚ) after = Ord.compare (k : ℚ) before := by
  obtain ⟨hbelow, habove⟩ := h k
  rcases lt_trichotomy (k : ℚ) before with hlt | heq | hgt
  · rw [compare_lt_iff_lt.mpr hlt, compare_lt_iff_lt]
    exact lt_of_le_of_ne (hbelow hlt.le) hne.symm
  · exact absurd (le_antisymm (habove heq.ge) (hbelow heq.le)) hne
  · rw [compare_gt_iff_gt.mpr hgt, compare_gt_iff_gt]
    exact lt_of_le_of_ne (habove hgt.le) hne

/-! ### An integer against a float -/

/-- The decimal that stands for the float is the integer. -/
def Binary64.IsTakenFor (x : Binary64) (n : ℤ) : Prop :=
  ∃ d, Decimal96.ofBinary64? x = some d ∧ d.value = n

namespace Value

variable {n : Int64} {negative : Bool} {m : Magnitude}

theorem compareNumbers_of_taken (h : (Binary64.finite negative m).IsTakenFor n.toInt) :
    compareNumbers n (.finite negative m) = some .eq := by
  obtain ⟨d, hd, hvalue⟩ := h
  rw [compareNumbers, hd]
  dsimp only
  rw [Decimal96.compareInt_eq, hvalue, compare_eq_iff_eq.mpr rfl]

theorem near_of_taken (h : (Binary64.finite negative m).IsTakenFor n.toInt) :
    (n.toInt = 0 ∧ |signed negative m.value| < 1 / 10 ^ 28) ∨
      |signed negative m.value - n.toInt| ≤ 6 / 2 ^ 52 * |(n.toInt : ℚ)| := by
  obtain ⟨d, hd, hvalue⟩ := h
  rcases Decimal96.ofBinary64?_finite negative m with ⟨hnone, -⟩ | ⟨d', hd', -, hnear⟩
  · rw [hnone] at hd
    cases hd
  · rw [hd', Option.some.injEq] at hd
    exact hnear _ (hd ▸ hvalue)

theorem natAbs_toInt_lt (n : Int64) : n.toInt.natAbs < 2 ^ 64 := by
  have hle := n.le_toInt
  have hlt := n.toInt_lt
  omega

theorem compare_of_large (hm : 2 ^ 96 ≤ m.value) :
    Ord.compare (n.toInt : ℚ) (signed negative m.value) = if negative then .gt else .lt := by
  have hn : |(n.toInt : ℚ)| < m.value := by
    refine lt_of_lt_of_le ?_ hm
    have habs : (n.toInt.natAbs : ℚ) < 2 ^ 64 := by exact_mod_cast natAbs_toInt_lt n
    rw [Nat.cast_natAbs, Int.cast_abs] at habs
    exact habs.trans (by norm_num)
  rw [abs_lt] at hn
  cases negative with
  | false => exact compare_lt_iff_lt.mpr hn.2
  | true => exact compare_gt_iff_gt.mpr hn.1

/-- Every other float compares with the integer exactly. -/
theorem compareNumbers_of_not_taken (h : ¬ (Binary64.finite negative m).IsTakenFor n.toInt) :
    compareNumbers n (.finite negative m) =
      some (Ord.compare (n.toInt : ℚ) (signed negative m.value)) := by
  rcases Decimal96.ofBinary64?_finite negative m with ⟨hnone, hlarge⟩ | ⟨d, hd, hwhole, -⟩
  · rw [compareNumbers, hnone, compare_of_large hlarge]
    exact Binary64.ofInt_compare? (natAbs_toInt_lt n) hlarge
  · rw [compareNumbers, hd]
    dsimp only
    rw [Decimal96.compareInt_eq, hwhole.compare_eq fun hvalue => h ⟨d, hd, hvalue⟩]

/-- **Integers and floats compare exactly, but for floats next to an integer.**  The comparison is
    the order of the two numbers, in both directions, exactly when the float is the integer or is
    not taken for it.  A float that is taken for an integer compares as equal to it.  It differs
    from the integer by no more than `6 / 2 ^ 52` of the integer, and from zero by less than
    `10 ^ -28`. -/
theorem compare_integer_float_iff (n : Int64) (negative : Bool) (m : Magnitude) :
    ((integer n).compare (float (.finite negative m)) =
          some (Ord.compare (n.toInt : ℚ) (signed negative m.value)) ∧
        (float (.finite negative m)).compare (integer n) =
          some (Ord.compare (n.toInt : ℚ) (signed negative m.value)).swap ↔
      signed negative m.value = n.toInt ∨ ¬ (Binary64.finite negative m).IsTakenFor n.toInt) ∧
    ((Binary64.finite negative m).IsTakenFor n.toInt →
      (integer n).compare (float (.finite negative m)) = some .eq ∧
      ((n.toInt = 0 ∧ |signed negative m.value| < 1 / 10 ^ 28) ∨
        |signed negative m.value - n.toInt| ≤ 6 / 2 ^ 52 * |(n.toInt : ℚ)|)) := by
  have hforth : (integer n).compare (float (.finite negative m)) =
      some ((compareNumbers n (.finite negative m)).getD
        (Ord.compare (integer n).shown (float (.finite negative m)).shown)) := rfl
  -- A float that is taken for the integer compares as equal, which is right only if it is.
  by_cases htaken : (Binary64.finite negative m).IsTakenFor n.toInt
  · rw [compareNumbers_of_taken htaken, Option.getD_some] at hforth
    rw [compare_swap (integer n), hforth, Option.map_some, Option.some.injEq, Option.some.injEq]
    refine ⟨⟨fun h => .inl (compare_eq_iff_eq.mp h.1.symm).symm, fun h => ?_⟩,
      fun _ => ⟨rfl, near_of_taken htaken⟩⟩
    have hsame := h.resolve_right (not_not_intro htaken)
    rw [hsame, compare_eq_iff_eq.mpr rfl]
    exact ⟨rfl, rfl⟩
  · rw [compareNumbers_of_not_taken htaken, Option.getD_some] at hforth
    rw [compare_swap (integer n), hforth]
    exact ⟨iff_of_true ⟨rfl, rfl⟩ (.inr htaken), fun h => absurd h htaken⟩

/-- The float next to one is taken for it. -/
theorem compare_one_justAbove :
    (integer 1).compare (float (.finite false
        ⟨4503599627370497, -52, by decide, by decide, by decide, .inl (by decide)⟩)) = some .eq ∧
      Ord.compare (1 : ℚ) (signed false (Magnitude.value
        ⟨4503599627370497, -52, by decide, by decide, by decide, .inl (by decide)⟩)) = .lt := by
  refine ⟨by decide +kernel, ?_⟩
  rw [compare_lt_iff_lt, signed, Magnitude.value]
  norm_num

end Value

end RecordFilter
