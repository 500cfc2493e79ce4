import Mathlib.Algebra.Order.Field.Power
import Mathlib.Data.Int.Log
import Mathlib.Data.Rat.Floor
import Mathlib.Tactic.FieldSimp
import Mathlib.Tactic.Linarith
import Mathlib.Tactic.NormNum
import Mathlib.Tactic.Positivity
import RecordFilter.Binary64.Decimal
/-!
# Rounding to double precision

The magnitude nearest to a fraction depends on the value of the fraction only (`ofRatio?_congr`),
and the magnitude nearest to the value of a magnitude is that magnitude (`ofRatio?_ratio`).  So a
decimal reads the same in whatever form it is written (`ofDecimal?_congr`).
-/

namespace RecordFilter

/-! ### Powers with whole exponents -/

theorem zpow_eq_div (b : ℚ) (k : ℤ) : b ^ k = b ^ k.toNat / b ^ (-k).toNat := by
  rcases le_or_gt 0 k with h | h
  · have hneg : (-k).toNat = 0 := by omega
    rw [hneg, pow_zero, div_one, ← zpow_natCast, Int.toNat_of_nonneg h]
  · have hpos : k.toNat = 0 := by omega
    have hk : k = -((-k).toNat : ℤ) := by omega
    rw [hpos, pow_zero, one_div, ← zpow_natCast, ← zpow_neg, ← hk]

theorem cast_pow_two (n : ℕ) : ((Nat.pow 2 n : ℕ) : ℚ) = 2 ^ n := by
  rw [Nat.pow_eq, Nat.cast_pow, Nat.cast_ofNat]

theorem cast_pow_ten (n : ℕ) : ((Nat.pow 10 n : ℕ) : ℚ) = 10 ^ n := by
  rw [Nat.pow_eq, Nat.cast_pow, Nat.cast_ofNat]

/-! ### The size of a fraction -/

theorem ratio_pos {num den : ℕ} (hnum : num ≠ 0) (hden : 0 < den) : (0 : ℚ) < num / den := by
  have hnum' : 0 < num := Nat.pos_of_ne_zero hnum
  positivity

theorem zpow_le_ratio_iff {num den : ℕ} (hden : 0 < den) (k : ℤ) :
    den * Nat.pow 2 k.toNat ≤ num * Nat.pow 2 (-k).toNat ↔ (2 : ℚ) ^ k ≤ num / den := by
  have hden' : (0 : ℚ) < den := by exact_mod_cast hden
  rw [zpow_eq_div, div_le_div_iff₀ (by positivity) hden', ← cast_pow_two,
    ← cast_pow_two, mul_comm, ← Nat.cast_mul, ← Nat.cast_mul, Nat.cast_le]

/-- Two powers of two, a factor of four apart, with a fraction between them. -/
theorem ratio_between {num den : ℕ} (hnum : num ≠ 0) (hden : 0 < den) :
    (2 : ℚ) ^ ((num.log2 : ℤ) - den.log2 - 1) ≤ num / den ∧
      (num : ℚ) / den < 2 ^ ((num.log2 : ℤ) - den.log2 + 1) := by
  have hden' : (0 : ℚ) < den := by exact_mod_cast hden
  -- Each of the two numbers lies between powers of two, and so does their ratio.
  have hnum₁ : (2 : ℚ) ^ num.log2 ≤ num := by exact_mod_cast Nat.log2_self_le hnum
  have hnum₂ : (num : ℚ) < 2 ^ (num.log2 + 1) := by exact_mod_cast Nat.lt_log2_self
  have hden₁ : (2 : ℚ) ^ den.log2 ≤ den := by exact_mod_cast Nat.log2_self_le hden.ne'
  have hden₂ : (den : ℚ) < 2 ^ (den.log2 + 1) := by exact_mod_cast Nat.lt_log2_self
  have hbelow : (2 : ℚ) ^ ((num.log2 : ℤ) - den.log2 - 1) = 2 ^ num.log2 / 2 ^ (den.log2 + 1) := by
    rw [sub_sub, zpow_sub₀ two_ne_zero]
    norm_cast
  have habove : (2 : ℚ) ^ ((num.log2 : ℤ) - den.log2 + 1) = 2 ^ (num.log2 + 1) / 2 ^ den.log2 := by
    rw [sub_add_eq_add_sub, zpow_sub₀ two_ne_zero]
    norm_cast
  rw [hbelow, habove]
  constructor
  · apply div_le_div₀ _ hnum₁ hden' hden₂.le
    positivity
  · apply div_lt_div₀ hnum₂ hden₁ _ (by positivity)
    positivity

/-- The estimate from the lengths of the two numbers is right after one correction. -/
theorem floorLog2_eq {num den : ℕ} (hnum : num ≠ 0) (hden : 0 < den) :
    floorLog2 num den = Int.log 2 ((num : ℚ) / den) := by
  have hratio := ratio_pos hnum hden
  obtain ⟨hbelow, habove⟩ := ratio_between hnum hden
  have hunique : ∀ k : ℤ, (2 : ℚ) ^ k ≤ num / den → (num : ℚ) / den < 2 ^ (k + 1) →
      k = Int.log 2 ((num : ℚ) / den) := by
    intro k hle hlt
    have hle' : k ≤ Int.log 2 ((num : ℚ) / den) :=
      (Int.zpow_le_iff_le_log one_lt_two hratio).mp (by exact_mod_cast hle)
    have hlt' : Int.log 2 ((num : ℚ) / den) < k + 1 :=
      (Int.lt_zpow_iff_log_lt one_lt_two hratio).mp (by exact_mod_cast hlt)
    omega
  unfold floorLog2
  dsimp only
  split
  next hcond =>
    rw [zpow_le_ratio_iff hden] at hcond
    exact hunique _ hcond habove
  next hcond =>
    rw [zpow_le_ratio_iff hden, not_le] at hcond
    refine hunique _ hbelow ?_
    rwa [sub_add_cancel]

/-! ### Rounding a fraction -/

theorem roundHalfEven_mul (c : ℕ) (hc : 0 < c) (num den : ℕ) :
    roundHalfEven (c * num) (c * den) = roundHalfEven num den := by
  have hbelow : 2 * (c * (num % den)) < c * den ↔ 2 * (num % den) < den := by
    rw [Nat.mul_left_comm, Nat.mul_lt_mul_left hc]
  have habove : c * den < 2 * (c * (num % den)) ↔ den < 2 * (num % den) := by
    rw [Nat.mul_left_comm, Nat.mul_lt_mul_left hc]
  simp only [roundHalfEven, Nat.mul_div_mul_left _ _ hc, Nat.mul_mod_mul_left, hbelow, habove]

/-- Rounding depends on the value of a fraction only. -/
theorem roundHalfEven_congr {num den num' den' : ℕ} (hden : 0 < den) (hden' : 0 < den')
    (h : num * den' = num' * den) : roundHalfEven num den = roundHalfEven num' den' := by
  calc roundHalfEven num den = roundHalfEven (den' * num) (den' * den) :=
        (roundHalfEven_mul den' hden' num den).symm
    _ = roundHalfEven (den * num') (den * den') := by
        rw [Nat.mul_comm den' num, h, Nat.mul_comm num' den, Nat.mul_comm den' den]
    _ = roundHalfEven num' den' := roundHalfEven_mul den hden num' den'

theorem roundHalfEven_mul_self (n : ℕ) {den : ℕ} (hden : 0 < den) :
    roundHalfEven (n * den) den = n := by
  simp [roundHalfEven, Nat.mul_div_cancel n hden, hden]

theorem roundHalfEven_of_lt {num den : ℕ} (h : 2 * num < den) : roundHalfEven num den = 0 := by
  have hlt : num < den := by omega
  simp [roundHalfEven, Nat.div_eq_of_lt hlt, Nat.mod_eq_of_lt hlt, h]

namespace Magnitude

/-- The magnitude nearest to a fraction is the same for all forms of the fraction. -/
theorem ofRatio?_congr {num den num' den' : ℕ} (hden : 0 < den) (hden' : 0 < den')
    (h : (num : ℚ) / den = num' / den') : ofRatio? num den = ofRatio? num' den' := by
  have hden₀ : (den : ℚ) ≠ 0 := by exact_mod_cast hden.ne'
  have hden₀' : (den' : ℚ) ≠ 0 := by exact_mod_cast hden'.ne'
  have hcross : num * den' = num' * den := by
    have hcross := (div_eq_div_iff hden₀ hden₀').mp h
    exact_mod_cast hcross
  by_cases hnum : num = 0
  · have hnum' : num' = 0 := by
      rw [hnum, Nat.zero_mul, eq_comm] at hcross
      exact (Nat.mul_eq_zero.mp hcross).resolve_right hden.ne'
    rw [hnum, hnum', ofRatio?, ofRatio?, if_pos rfl, if_pos rfl]
  · have hnum' : num' ≠ 0 := by
      rintro rfl
      rw [Nat.zero_mul] at hcross
      exact hnum ((Nat.mul_eq_zero.mp hcross).resolve_right hden'.ne')
    -- Exponent and significand depend on the value alone.
    have hlog : floorLog2 num den = floorLog2 num' den' := by
      rw [floorLog2_eq hnum hden, floorLog2_eq hnum' hden', h]
    have hround : ∀ a k : ℕ, roundHalfEven (num * a) (den * Nat.pow 2 k) =
        roundHalfEven (num' * a) (den' * Nat.pow 2 k) := by
      intro a k
      have hb : 0 < Nat.pow 2 k := Nat.pow_pos (by decide)
      generalize Nat.pow 2 k = b at hb ⊢
      apply roundHalfEven_congr (Nat.mul_pos hden hb) (Nat.mul_pos hden' hb)
      calc num * a * (den' * b) = num * den' * (a * b) := by ring
        _ = num' * den * (a * b) := by rw [hcross]
        _ = num' * a * (den * b) := by ring
    rw [ofRatio?, ofRatio?, if_neg hnum, if_neg hnum', hlog]
    dsimp only
    rw [hround]

/-! ### Magnitudes as fractions -/

def value (m : Magnitude) : ℚ := m.significand * 2 ^ m.exponent

theorem ratio_den_pos (m : Magnitude) : 0 < m.ratio.2 := Nat.pow_pos (by decide)

theorem ratio_eq_value (m : Magnitude) : (m.ratio.1 : ℚ) / m.ratio.2 = m.value := by
  rw [value, zpow_eq_div, ratio, Nat.cast_mul, cast_pow_two, cast_pow_two, mul_div_assoc]

theorem of?_self (m : Magnitude) : of? m.significand m.exponent = some m := by
  rw [of?, dif_pos ⟨m.significand_lt, m.exponent_ge, m.exponent_le, m.full_or_least⟩]

/-- The exponent that leaves 53 bits for the significand of a magnitude is its own. -/
theorem exponent_eq (m : Magnitude) (h : m.significand ≠ 0) :
    max (-1074) (floorLog2 m.ratio.1 m.ratio.2 - 52) = m.exponent := by
  have hsignificand : (0 : ℚ) < m.significand := by exact_mod_cast Nat.pos_of_ne_zero h
  have hnum : m.ratio.1 ≠ 0 := Nat.mul_ne_zero h (Nat.pow_pos (by decide)).ne'
  have hvalue : (0 : ℚ) < m.value := by
    rw [value]
    positivity
  have hbelow : m.value < 2 ^ (53 + m.exponent) := by
    rw [value, zpow_add₀ two_ne_zero]
    have hlt : (m.significand : ℚ) < 2 ^ (53 : ℤ) := by exact_mod_cast m.significand_lt
    gcongr
  have hlog : Int.log 2 m.value < 53 + m.exponent :=
    (Int.lt_zpow_iff_log_lt one_lt_two hvalue).mp (by exact_mod_cast hbelow)
  rw [floorLog2_eq hnum m.ratio_den_pos, ratio_eq_value]
  -- A full significand has 53 bits, and any other has the least exponent.
  rcases m.full_or_least with hfull | hleast
  · have habove : (2 : ℚ) ^ (52 + m.exponent) ≤ m.value := by
      rw [value, zpow_add₀ two_ne_zero]
      have hle : (2 : ℚ) ^ (52 : ℤ) ≤ m.significand := by exact_mod_cast hfull
      gcongr
    have hlog' : 52 + m.exponent ≤ Int.log 2 m.value :=
      (Int.zpow_le_iff_le_log one_lt_two hvalue).mp (by exact_mod_cast habove)
    have hge := m.exponent_ge
    omega
  · omega

theorem eq_zero_of_significand {m : Magnitude} (h : m.significand = 0) : m = zero := by
  have hexponent : m.exponent = -1074 := by
    rcases m.full_or_least with hfull | hleast
    · rw [h] at hfull
      exact absurd hfull (by decide)
    · exact hleast
  obtain ⟨significand, exponent, _, _, _, _⟩ := m
  cases h
  cases hexponent
  rfl

/-- A magnitude is the one nearest to its own value. -/
theorem ofRatio?_ratio (m : Magnitude) : ofRatio? m.ratio.1 m.ratio.2 = some m := by
  by_cases h : m.significand = 0
  · have hnum : m.ratio.1 = 0 := by rw [ratio, h, Nat.zero_mul]
    rw [ofRatio?, if_pos hnum, eq_zero_of_significand h]
  · have hnum : m.ratio.1 ≠ 0 := Nat.mul_ne_zero h (Nat.pow_pos (by decide)).ne'
    have hround : roundHalfEven (m.ratio.1 * Nat.pow 2 (-m.exponent).toNat)
        (m.ratio.2 * Nat.pow 2 m.exponent.toNat) = m.significand := by
      have hpos : 0 < Nat.pow 2 (-m.exponent).toNat * Nat.pow 2 m.exponent.toNat :=
        Nat.mul_pos (Nat.pow_pos (by decide)) (Nat.pow_pos (by decide))
      rw [ratio, Nat.mul_assoc, Nat.mul_comm (Nat.pow 2 m.exponent.toNat),
        roundHalfEven_mul_self _ hpos]
    have hne : m.significand ≠ Nat.pow 2 53 := Nat.ne_of_lt m.significand_lt
    rw [ofRatio?, if_neg hnum, m.exponent_eq h]
    dsimp only
    rw [hround, if_neg hne, of?_self]

/-! ### Fractions out of range -/

theorem of?_eq_none {significand : ℕ} {exponent : ℤ} (h : 971 < exponent) :
    of? significand exponent = none := by
  rw [of?, dif_neg]
  omega

theorem ofRatio?_eq_none {num den : ℕ} (hden : 0 < den)
    (h : (2 : ℚ) ^ (1024 : ℤ) ≤ num / den) : ofRatio? num den = none := by
  have hnum : num ≠ 0 := by
    rintro rfl
    rw [Nat.cast_zero, zero_div] at h
    exact absurd h (not_le.mpr (by positivity))
  have hlog : 1024 ≤ floorLog2 num den := by
    rw [floorLog2_eq hnum hden]
    apply (Int.zpow_le_iff_le_log one_lt_two (ratio_pos hnum hden)).mp
    rwa [Nat.cast_ofNat]
  rw [ofRatio?, if_neg hnum]
  dsimp only
  rw [of?_eq_none (by omega), of?_eq_none (by omega), ite_self]

theorem two_mul_lt_of_ratio_lt {num den : ℕ} (k : ℕ) (hden : 0 < den)
    (h : (num : ℚ) / den < 2 ^ (-((k : ℤ) + 1))) : 2 * (num * Nat.pow 2 k) < den := by
  have hsucc : (2 : ℚ) ^ ((k : ℤ) + 1) = ((2 * Nat.pow 2 k : ℕ) : ℚ) := by
    rw [Nat.cast_mul, cast_pow_two, Nat.cast_ofNat, ← pow_succ', ← zpow_natCast]
    rfl
  rw [div_lt_iff₀ (by exact_mod_cast hden), zpow_neg, inv_mul_eq_div, lt_div_iff₀ (by positivity),
    hsucc, ← Nat.cast_mul, Nat.cast_lt] at h
  rwa [Nat.mul_left_comm]

theorem ofRatio?_eq_zero {num den : ℕ} (hden : 0 < den) (h : (num : ℚ) / den < 2 ^ (-1075 : ℤ)) :
    ofRatio? num den = some zero := by
  by_cases hnum : num = 0
  · rw [ofRatio?, if_pos hnum]
  · have hlog : floorLog2 num den < -1075 := by
      rw [floorLog2_eq hnum hden]
      apply (Int.lt_zpow_iff_log_lt one_lt_two (ratio_pos hnum hden)).mp
      rwa [Nat.cast_ofNat]
    have hexponent : max (-1074) (floorLog2 num den - 52) = -1074 := by omega
    have hhalf := two_mul_lt_of_ratio_lt 1074 hden h
    have hround : roundHalfEven (num * Nat.pow 2 (- -1074 : ℤ).toNat)
        (den * Nat.pow 2 (-1074 : ℤ).toNat) = 0 := by
      apply roundHalfEven_of_lt
      rwa [show (- -1074 : ℤ).toNat = 1074 from rfl, show (-1074 : ℤ).toNat = 0 from rfl,
        show Nat.pow 2 0 = 1 from rfl, Nat.mul_one]
    rw [ofRatio?, if_neg hnum, hexponent]
    dsimp only
    rw [hround, if_neg (by decide), of?, dif_pos (by decide)]
    rfl

end Magnitude

/-! ### Decimals -/

def DecimalForm.value (d : DecimalForm) : ℚ := d.digits * 10 ^ d.exponent

theorem DecimalForm.ratio_eq_value (d : DecimalForm) :
    ((d.digits * Nat.pow 10 d.exponent.toNat : ℕ) : ℚ) / (Nat.pow 10 (-d.exponent).toNat : ℕ) =
      d.value := by
  rw [value, zpow_eq_div 10, Nat.cast_mul, cast_pow_ten, cast_pow_ten, mul_div_assoc]

theorem DecimalForm.den_pos (d : DecimalForm) : 0 < Nat.pow 10 (-d.exponent).toNat :=
  Nat.pow_pos (by decide)

theorem two_pow_le_ten_pow : (2 : ℚ) ^ (1024 : ℤ) ≤ 10 ^ (309 : ℤ) := by
  have hcast : ∀ m n : ℕ, m ≤ n → (m : ℚ) ≤ n := fun _ _ h => Nat.cast_le.mpr h
  rw [show (1024 : ℤ) = ((1024 : ℕ) : ℤ) from rfl, show (309 : ℤ) = ((309 : ℕ) : ℤ) from rfl,
    zpow_natCast, zpow_natCast, ← cast_pow_two, ← cast_pow_ten]
  exact hcast _ _ (by decide +kernel)

namespace Magnitude

/-- Decimals far out of range are rounded like all others. -/
theorem ofDecimal?_eq (d : DecimalForm) : ofDecimal? d.digits d.exponent =
    ofRatio? (d.digits * Nat.pow 10 d.exponent.toNat) (Nat.pow 10 (-d.exponent).toNat) := by
  rw [ofDecimal?]
  by_cases hzero : d.digits = 0
  · rw [if_pos hzero, hzero, Nat.zero_mul, ofRatio?, if_pos rfl]
  rw [if_neg hzero]
  -- The two shortcuts for extreme exponents give what the long way would.
  by_cases hlarge : 309 ≤ d.exponent
  · rw [if_pos hlarge, ofRatio?_eq_none d.den_pos]
    rw [d.ratio_eq_value, DecimalForm.value]
    have hdigits : (1 : ℚ) ≤ d.digits := by exact_mod_cast Nat.pos_of_ne_zero hzero
    calc (2 : ℚ) ^ (1024 : ℤ) ≤ 1 * 10 ^ (309 : ℤ) := by
          rw [one_mul]
          exact two_pow_le_ten_pow
      _ ≤ d.digits * 10 ^ d.exponent := by
          gcongr
          norm_num
  rw [if_neg hlarge]
  by_cases hsmall : (d.digits.log2 : ℤ) + 1 + 3 * d.exponent ≤ -1075
  · rw [if_pos hsmall, ofRatio?_eq_zero d.den_pos]
    rw [d.ratio_eq_value, DecimalForm.value]
    have hdigits : (d.digits : ℚ) < 2 ^ ((d.digits.log2 : ℤ) + 1) := by
      exact_mod_cast Nat.lt_log2_self
    -- The exponent is negative, so a power of 8 is no less than that of 10.
    have hpower : (10 : ℚ) ^ d.exponent ≤ 2 ^ (3 * d.exponent) := by
      have hneg : d.exponent = -((-d.exponent).toNat : ℤ) := by omega
      rw [zpow_mul, hneg, zpow_neg, zpow_neg, zpow_natCast, zpow_natCast]
      gcongr
      norm_num
    calc (d.digits : ℚ) * 10 ^ d.exponent
        < 2 ^ ((d.digits.log2 : ℤ) + 1) * 2 ^ (3 * d.exponent) :=
          mul_lt_mul hdigits hpower (by positivity) (by positivity)
      _ = 2 ^ ((d.digits.log2 : ℤ) + 1 + 3 * d.exponent) := (zpow_add₀ two_ne_zero _ _).symm
      _ ≤ 2 ^ (-1075 : ℤ) := by
          gcongr
          norm_num
  · rw [if_neg hsmall]

theorem ofDecimal?_congr {d d' : DecimalForm} (h : d.value = d'.value) :
    ofDecimal? d.digits d.exponent = ofDecimal? d'.digits d'.exponent := by
  rw [ofDecimal?_eq, ofDecimal?_eq]
  apply ofRatio?_congr d.den_pos d'.den_pos
  rw [d.ratio_eq_value, d'.ratio_eq_value, h]

theorem ofDecimal?_of_value {m : Magnitude} {d : DecimalForm} (h : d.value = m.value) :
    ofDecimal? d.digits d.exponent = some m := by
  rw [ofDecimal?_eq, ← m.ofRatio?_ratio]
  apply ofRatio?_congr d.den_pos m.ratio_den_pos
  rw [d.ratio_eq_value, m.ratio_eq_value, h]

end Magnitude

end RecordFilter
