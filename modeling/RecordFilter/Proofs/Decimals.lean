import Mathlib.Data.Nat.Cast.Order.Field
import Mathlib.Tactic.Ring
import RecordFilter.Decimal96
import RecordFilter.Proofs.Rounding
/-!
# Numbers brought to base ten

A magnitude below `2 ^ 52` loses digits on its way to a decimal of 96 bits: first where its factors
of five do not fit, and then, a digit at a time, until 28 places and about sixteen digits are left.
Yet no step passes a whole number (`KeepsWholes`), and all steps together change the number by less
than one and a half units in the sixteenth digit.  So a decimal that is a whole number stands for a
magnitude that is one, or nearly one (`Approximates`).  Greater magnitudes are whole numbers
themselves.  They keep all their digits, or have no decimal because they do not fit in 96 bits.
-/

namespace RecordFilter.Decimal96

variable {before middle after : ℚ}

/-! ### Steps that pass no whole number -/

/-- No whole number lies between the two numbers. -/
def KeepsWholes (before after : ℚ) : Prop :=
  ∀ k : ℤ, ((k : ℚ) ≤ before → (k : ℚ) ≤ after) ∧ (before ≤ k → after ≤ k)

theorem KeepsWholes.refl (x : ℚ) : KeepsWholes x x := fun _ => ⟨id, id⟩

theorem KeepsWholes.trans (h : KeepsWholes before middle) (h' : KeepsWholes middle after) :
    KeepsWholes before after := fun k =>
  ⟨fun hk => (h' k).1 ((h k).1 hk), fun hk => (h' k).2 ((h k).2 hk)⟩

theorem KeepsWholes.neg (h : KeepsWholes before after) : KeepsWholes (-before) (-after) := by
  intro k
  obtain ⟨hbelow, habove⟩ := h (-k)
  rw [Int.cast_neg] at hbelow habove
  exact ⟨fun hk => le_neg_of_le_neg (habove (le_neg_of_le_neg hk)),
    fun hk => neg_le_of_neg_le (hbelow (neg_le_of_neg_le hk))⟩

theorem keepsWholes_zero {x : ℚ} (hnonneg : 0 ≤ x) (hlt : x < 1) : KeepsWholes x 0 := by
  intro k
  refine ⟨fun hk => ?_, hnonneg.trans⟩
  have hk' : k < 1 := by exact_mod_cast hk.trans_lt hlt
  exact_mod_cast Int.lt_add_one_iff.mp hk'

theorem intCast_le_div_iff {k : ℤ} {num den : ℕ} (h : 0 < den) :
    (k : ℚ) ≤ num / den ↔ k * den ≤ num := by
  rw [le_div_iff₀ (by exact_mod_cast h)]
  exact_mod_cast Iff.rfl

theorem div_le_intCast_iff {k : ℤ} {num den : ℕ} (h : 0 < den) :
    (num : ℚ) / den ≤ k ↔ (num : ℤ) ≤ k * den := by
  rw [div_le_iff₀ (by exact_mod_cast h)]
  exact_mod_cast Iff.rfl

/-- A half can be cut off, since whole numbers of the greater unit are even. -/
theorem keepsWholes_halve (bits : ℕ) {unit : ℕ} (h : 0 < unit) :
    KeepsWholes (bits / (2 * unit : ℕ)) ((bits / 2 : ℕ) / unit) := by
  intro k
  rw [intCast_le_div_iff (by omega), intCast_le_div_iff h, div_le_intCast_iff (by omega),
    div_le_intCast_iff h, Nat.cast_mul, Int.mul_left_comm]
  generalize k * unit = whole
  omega

/-- The last digit is dropped with rounding, a five upwards. -/
theorem dropDigit_bounds (bits : ℕ) :
    10 * dropDigit bits ≤ bits + 5 ∧ bits ≤ 10 * dropDigit bits + 4 := by
  unfold dropDigit
  split <;> omega

/-- Rounding stops at the whole numbers, where the dropped digit is zero. -/
theorem keepsWholes_dropDigit (bits : ℕ) {unit : ℕ} (h : 0 < unit) :
    KeepsWholes (bits / (10 * unit : ℕ)) (dropDigit bits / unit) := by
  intro k
  obtain ⟨hle, hge⟩ := dropDigit_bounds bits
  rw [intCast_le_div_iff (by omega), intCast_le_div_iff h, div_le_intCast_iff (by omega),
    div_le_intCast_iff h, Nat.cast_mul, Int.mul_left_comm]
  generalize k * unit = whole
  omega

/-! ### Factors of five -/

/-- The second number is the first with no more than the part `loss` of it cut off. -/
def Shortens (loss before after : ℚ) : Prop := after ≤ before ∧ before * (1 - loss) ≤ after

theorem Shortens.trans {loss loss' : ℚ} (hloss : 0 ≤ loss') (h : Shortens loss before middle)
    (h' : Shortens loss' middle after) : Shortens (loss + loss') before after := by
  refine ⟨h'.1.trans h.1, ?_⟩
  have hcut : middle * loss' ≤ before * loss' := mul_le_mul_of_nonneg_right h.1 hloss
  have hfirst := h.2
  have hsecond := h'.2
  linarith

theorem Shortens.mono {loss loss' : ℚ} (hbefore : 0 ≤ before) (hle : loss ≤ loss')
    (h : Shortens loss before after) : Shortens loss' before after := by
  refine ⟨h.1, le_trans ?_ h.2⟩
  gcongr

/-- A unit is cut off only from an odd number of more than 93 bits. -/
theorem shortens_halve {bits unit : ℕ} (h : 0 < unit)
    (hbits : bits % 2 = 0 ∨ Nat.pow 2 96 ≤ bits * 5) :
    Shortens (1 / 2 ^ 93) (bits / (2 * unit : ℕ)) ((bits / 2 : ℕ) / unit) := by
  have hunit : (0 : ℚ) < unit := by exact_mod_cast h
  have hhalf : (bits : ℚ) / (2 * unit : ℕ) = bits / 2 / unit := by
    rw [Nat.cast_mul, Nat.cast_ofNat, div_div]
  rw [hhalf]
  constructor
  · gcongr
    exact Nat.cast_div_le
  · have hcut : 2 ^ 93 * bits ≤ bits + 2 ^ 93 * (2 * (bits / 2)) := by
      rw [Nat.pow_eq] at hbits
      omega
    have hcut' : (bits : ℚ) / 2 * (1 - 1 / 2 ^ 93) ≤ (bits / 2 : ℕ) := by
      have hcast : (2 ^ 93 * bits : ℚ) ≤ bits + 2 ^ 93 * (2 * (bits / 2 : ℕ)) := by
        exact_mod_cast hcut
      linarith
    calc (bits : ℚ) / 2 / unit * (1 - 1 / 2 ^ 93) = bits / 2 * (1 - 1 / 2 ^ 93) / unit := by ring
      _ ≤ ((bits / 2 : ℕ) : ℚ) / unit := by gcongr

/-- The factors of five are worked in without passing a whole number, and each cuts off next to
    nothing.  `extra` counts those that are already there. -/
theorem timesFives_spec (count bits extra : ℕ) :
    ∃ bits' places : ℕ, timesFives count bits (-(extra + count : ℕ)) = (bits', -(places : ℤ)) ∧
      KeepsWholes (bits / (2 ^ count * 10 ^ extra : ℕ)) (bits' / (10 ^ places : ℕ)) ∧
      Shortens (count / 2 ^ 93) (bits / (2 ^ count * 10 ^ extra : ℕ))
        (bits' / (10 ^ places : ℕ)) := by
  -- A factor of two in the denominator is traded for one of five above, or cut off.
  induction count generalizing bits extra with
  | zero =>
    refine ⟨bits, extra, rfl, ?_, ?_⟩
    · rw [pow_zero, one_mul]
      exact KeepsWholes.refl _
    · rw [pow_zero, one_mul, Nat.cast_zero, zero_div]
      exact ⟨le_rfl, by rw [sub_zero, mul_one]⟩
  | succ count ih =>
    rw [timesFives]
    by_cases hfits : (bits % 2 = 1 && bits * 5 < Nat.pow 2 96) = true
    · obtain ⟨bits', places, heq, hwhole, hshort⟩ := ih (bits * 5) (extra + 1)
      have hsame : (bits : ℚ) / (2 ^ (count + 1) * 10 ^ extra : ℕ) =
          (bits * 5 : ℕ) / (2 ^ count * 10 ^ (extra + 1) : ℕ) := by
        push_cast
        rw [div_eq_div_iff (by positivity) (by positivity)]
        ring
      rw [if_pos hfits, hsame]
      refine ⟨bits', places, ?_, hwhole, hshort.mono (by positivity) ?_⟩
      · rw [← heq, Nat.add_right_comm, Nat.add_assoc]
      · gcongr
        exact Nat.le_succ count
    · obtain ⟨bits', places, heq, hwhole, hshort⟩ := ih (bits / 2) extra
      have hunit : 0 < 2 ^ count * 10 ^ extra := by positivity
      have hhalve : bits % 2 = 0 ∨ Nat.pow 2 96 ≤ bits * 5 := by
        rw [Bool.and_eq_true, decide_eq_true_eq, decide_eq_true_eq, not_and_or, not_lt] at hfits
        exact hfits.imp_left (by omega)
      have hdouble : 2 ^ (count + 1) * 10 ^ extra = 2 * (2 ^ count * 10 ^ extra) := by ring
      have hloss : ((count + 1 : ℕ) : ℚ) / 2 ^ 93 = 1 / 2 ^ 93 + count / 2 ^ 93 := by
        push_cast
        ring
      rw [if_neg hfits, hdouble, hloss]
      refine ⟨bits', places, ?_, (keepsWholes_halve bits hunit).trans hwhole,
        (shortens_halve hunit hhalve).trans (by positivity) hshort⟩
      rw [← heq]
      congr 1
      omega

/-! ### Digits and places -/

/-- The second decimal is the first with digits dropped.  Each changes the number by no more than
    half a unit of the place before it. -/
def Rounds (bits places bits' places' : ℕ) : Prop :=
  |(bits : ℚ) / (10 ^ places : ℕ) - bits' / (10 ^ places' : ℕ)| ≤
    5 / 9 * (1 / 10 ^ places' - 1 / 10 ^ places)

theorem Rounds.refl (bits places : ℕ) : Rounds bits places bits places := by
  rw [Rounds, sub_self, sub_self, abs_zero, mul_zero]

theorem Rounds.trans {bits places bits' places' bits'' places'' : ℕ}
    (h : Rounds bits places bits' places') (h' : Rounds bits' places' bits'' places'') :
    Rounds bits places bits'' places'' := by
  -- The bounds telescope: each is the difference of two units.
  have hsum := (abs_sub_le _ _ _).trans (add_le_add h h')
  rw [Rounds]
  linarith

/-- One dropped digit loses at most half a unit of the place that is left. -/
theorem rounds_dropDigit (bits places : ℕ) :
    Rounds bits (places + 1) (dropDigit bits) places := by
  obtain ⟨hle, hge⟩ := dropDigit_bounds bits
  have hle' : (10 * dropDigit bits : ℚ) ≤ bits + 5 := by exact_mod_cast hle
  have hge' : (bits : ℚ) ≤ 10 * dropDigit bits + 4 := by exact_mod_cast hge
  have hunit : (0 : ℚ) < 10 ^ (places + 1) := by positivity
  have hdrop : (bits : ℚ) / (10 ^ (places + 1) : ℕ) - dropDigit bits / (10 ^ places : ℕ) =
      (bits - 10 * dropDigit bits) / 10 ^ (places + 1) := by
    push_cast
    field_simp
    ring
  have hbound : (5 : ℚ) / 9 * (1 / 10 ^ places - 1 / 10 ^ (places + 1)) =
      5 / 10 ^ (places + 1) := by
    field_simp
    ring
  rw [Rounds, hdrop, hbound, abs_div, abs_of_pos hunit]
  gcongr
  rw [abs_le]
  constructor <;> linarith

theorem div_dropDigit_le (bits places : ℕ) :
    ((bits : ℚ) + 5 / 9) / 10 ^ (places + 1) ≤ (dropDigit bits + 5 / 9) / 10 ^ places := by
  have hge : (bits : ℚ) ≤ 10 * dropDigit bits + 4 := by exact_mod_cast (dropDigit_bounds bits).2
  rw [div_le_div_iff₀ (by positivity) (by positivity), pow_succ', ← mul_assoc]
  gcongr
  linarith

/-- Of more than 28 places those beyond are dropped.  A number too small to show in the others
    becomes zero. -/
theorem dropPlaces_beyond (count bits : ℕ) :
    ∃ bits' places', dropPlaces count bits (28 + count) = (bits', places') ∧
      KeepsWholes (bits / (10 ^ (28 + count) : ℕ)) (bits' / (10 ^ places' : ℕ)) ∧
      (places' = 28 ∧ Rounds bits (28 + count) bits' places' ∨
        bits' = 0 ∧ ((bits : ℚ) + 5 / 9) / 10 ^ (28 + count) ≤ (9 + 5 / 9) / 10 ^ 29) := by
  induction count generalizing bits with
  | zero => exact ⟨bits, 28, rfl, KeepsWholes.refl _, .inl ⟨rfl, Rounds.refl bits 28⟩⟩
  | succ count ih =>
    have hunit : 0 < 10 ^ (28 + count) := by positivity
    have hplaces : (10 ^ (28 + (count + 1)) : ℕ) = 10 * 10 ^ (28 + count) := by ring
    rw [dropPlaces]
    by_cases hlast : bits / 10 = 0
    · -- The last digit is dropped with nothing in front of it, so the number was next to nothing.
      have hdigit : (bits : ℚ) ≤ 9 := by exact_mod_cast show bits ≤ 9 by omega
      rw [if_pos hlast]
      refine ⟨0, 0, rfl, ?_, .inr ⟨rfl, ?_⟩⟩
      · rw [Nat.cast_zero, zero_div]
        apply keepsWholes_zero (by positivity)
        rw [div_lt_one (by positivity)]
        exact_mod_cast show bits < 10 ^ (28 + (count + 1)) by omega
      · gcongr
        · norm_num
        · omega
    · obtain ⟨bits', places', heq, hwhole, hsmall⟩ := ih (dropDigit bits)
      rw [if_neg hlast]
      refine ⟨bits', places', heq, ?_, ?_⟩
      · rw [hplaces]
        exact (keepsWholes_dropDigit bits hunit).trans hwhole
      · rcases hsmall with ⟨hplaces', hrounds⟩ | ⟨hzero, hle⟩
        · exact .inl ⟨hplaces', (rounds_dropDigit bits _).trans hrounds⟩
        · exact .inr ⟨hzero, (div_dropDigit_le bits _).trans hle⟩

/-- A number of 28 places or fewer stays as it is, and of more only those beyond are dropped. -/
theorem dropPlaces_spec (bits places : ℕ) :
    ∃ kept left, dropPlaces (places - 28) bits places = (kept, left) ∧
      KeepsWholes (bits / (10 ^ places : ℕ)) (kept / (10 ^ left : ℕ)) ∧
      (((kept, left) = (bits, places) ∨ left = 28) ∧ Rounds bits places kept left ∨
        kept = 0 ∧ ((bits : ℚ) + 5 / 9) / 10 ^ places ≤ (9 + 5 / 9) / 10 ^ 29) := by
  rcases le_total places 28 with hfew | hmany
  · rw [Nat.sub_eq_zero_of_le hfew]
    exact ⟨bits, places, rfl, KeepsWholes.refl _, .inl ⟨.inl rfl, Rounds.refl bits places⟩⟩
  · obtain ⟨kept, left, heq, hwhole, hkept⟩ := dropPlaces_beyond (places - 28) bits
    rw [Nat.add_sub_cancel' hmany] at heq hwhole hkept
    exact ⟨kept, left, heq, hwhole, hkept.imp_left fun h => ⟨.inr h.1, h.2⟩⟩

/-- Places are dropped until the coefficient has no more than 52 bits, which leaves it about fifteen
    digits. -/
theorem shorten_spec (bits places : ℕ) :
    ∃ bits' places', shorten bits places = (bits', places') ∧
      KeepsWholes (bits / (10 ^ places : ℕ)) (bits' / (10 ^ places' : ℕ)) ∧
      Rounds bits places bits' places' ∧
      ((bits', places') = (bits, places) ∨ 450359962737050 ≤ bits') := by
  -- One digit is dropped at a time; what is lost adds up in `Rounds`.
  induction places generalizing bits with
  | zero => exact ⟨bits, 0, rfl, KeepsWholes.refl _, Rounds.refl bits 0, .inl rfl⟩
  | succ places ih =>
    rw [shorten]
    by_cases hshort : bits < Nat.pow 2 52
    · rw [if_pos hshort]
      exact ⟨bits, places + 1, rfl, KeepsWholes.refl _, Rounds.refl bits _, .inl rfl⟩
    · obtain ⟨bits', places', heq, hwhole, hrounds, hkept⟩ := ih (dropDigit bits)
      have hunit : 0 < 10 ^ places := by positivity
      have hplaces : (10 ^ (places + 1) : ℕ) = 10 * 10 ^ places := by ring
      rw [if_neg hshort]
      refine ⟨bits', places', heq, ?_, (rounds_dropDigit bits places).trans hrounds, ?_⟩
      · rw [hplaces]
        exact (keepsWholes_dropDigit bits hunit).trans hwhole
      · rcases hkept with hsame | hlarge
        · right
          cases hsame
          have hdrop := (dropDigit_bounds bits).2
          rw [Nat.pow_eq] at hshort
          omega
        · exact .inr hlarge

/-! ### Decimals of magnitudes -/

/-- What a decimal keeps of the number it stands for: no whole number lies between
    them, and it is itself a whole number only when the number is very near to it. -/
def Approximates (exact decimal : ℚ) : Prop :=
  KeepsWholes exact decimal ∧ ∀ k : ℤ, decimal = k →
    (k = 0 ∧ |exact| < 1 / 10 ^ 28) ∨ |exact - k| ≤ 6 / 2 ^ 52 * |(k : ℚ)|

theorem Approximates.refl (x : ℚ) : Approximates x x := by
  refine ⟨KeepsWholes.refl x, fun k hk => .inr ?_⟩
  rw [hk, sub_self, abs_zero]
  positivity

theorem Approximates.neg {exact decimal : ℚ} (h : Approximates exact decimal) :
    Approximates (-exact) (-decimal) := by
  refine ⟨h.1.neg, fun k hk => ?_⟩
  have hnear := h.2 (-k) (by rw [Int.cast_neg, ← hk, neg_neg])
  have hflip : -exact - k = -(exact - (-k : ℤ)) := by
    push_cast
    ring
  rwa [hflip, abs_neg, abs_neg, ← neg_eq_zero, ← abs_neg (k : ℚ), ← Int.cast_neg]

/-- A whole number that is left when digits have been dropped is near to the number before. -/
theorem near_of_rounds {bits places bits' places' : ℕ} {k : ℤ}
    (hrounds : Rounds bits places bits' places') (hbits : 450359962737050 ≤ bits')
    (hk : (bits' : ℚ) / (10 ^ places' : ℕ) = k) :
    |(bits : ℚ) / (10 ^ places : ℕ) - k| ≤ 5 / 9 / 450359962737050 * k := by
  rw [Rounds, hk] at hrounds
  have hbits' : (450359962737050 : ℚ) ≤ bits' := by exact_mod_cast hbits
  have hunit : 450359962737050 * (1 / 10 ^ places' : ℚ) ≤ k := by
    rw [← hk, mul_one_div]
    push_cast
    gcongr
  have hunit' : (0 : ℚ) < 1 / 10 ^ places := by positivity
  linarith

/-- A whole number of 28 places is zero, or has more digits than are kept. -/
theorem eq_zero_or_le_of_places {bits : ℕ} {k : ℤ} (hk : (bits : ℚ) / (10 ^ 28 : ℕ) = k) :
    k = 0 ∨ 450359962737050 ≤ bits := by
  have hbits : (bits : ℤ) = k * (10 ^ 28 : ℕ) := by
    rw [div_eq_iff (by positivity)] at hk
    exact_mod_cast hk
  omega

/-- The two steps that drop digits together. -/
theorem dropDigits_spec (bits places : ℕ) :
    ∃ kept left bits' places',
      dropPlaces (places - 28) bits places = (kept, left) ∧ shorten kept left = (bits', places') ∧
      KeepsWholes (bits / (10 ^ places : ℕ)) (bits' / (10 ^ places' : ℕ)) ∧
      ∀ k : ℤ, (bits' : ℚ) / (10 ^ places' : ℕ) = k →
        (k = 0 ∧ (bits : ℚ) / (10 ^ places : ℕ) ≤ (9 + 5 / 9) / 10 ^ 29) ∨
          |(bits : ℚ) / (10 ^ places : ℕ) - k| ≤ 5 / 9 / 450359962737050 * k := by
  obtain ⟨kept, left, hdrop, hwhole, hkept⟩ := dropPlaces_spec bits places
  obtain ⟨bits', places', hshorten, hwhole', hrounds', hlarge⟩ := shorten_spec kept left
  refine ⟨kept, left, bits', places', hdrop, hshorten, hwhole.trans hwhole', fun k hk => ?_⟩
  have hk₀ : (0 : ℚ) ≤ k := by
    rw [← hk]
    positivity
  rcases hkept with ⟨hsame, hrounds⟩ | ⟨hzero, hsmall⟩
  · by_cases hlarge' : 450359962737050 ≤ bits'
    · exact .inr (near_of_rounds (hrounds.trans hrounds') hlarge' hk)
    · obtain ⟨rfl, rfl⟩ := Prod.mk.inj (hlarge.resolve_right hlarge')
      rcases hsame with hsame | rfl
      · right
        obtain ⟨rfl, rfl⟩ := Prod.mk.inj hsame
        rw [hk, sub_self, abs_zero]
        positivity
      · left
        have hzero := (eq_zero_or_le_of_places hk).resolve_right hlarge'
        refine ⟨hzero, ?_⟩
        rw [Rounds, hk, hzero, Int.cast_zero, sub_zero] at hrounds
        have hunit : (0 : ℚ) < 1 / 10 ^ places := by positivity
        linarith [le_abs_self ((bits : ℚ) / (10 ^ places : ℕ))]
  · left
    constructor
    · have hle := (hwhole' 0).2
      rw [hzero, hk, Nat.cast_zero, zero_div, Int.cast_zero] at hle
      exact_mod_cast le_antisymm (hle le_rfl) hk₀
    · refine le_trans ?_ hsmall
      push_cast
      gcongr
      linarith

/-- What the factors of five cut off, up to 1074 of them, is little against a dropped digit. -/
theorem near_of_shortens {k : ℤ} (hbefore : 0 ≤ before)
    (hshort : Shortens (1074 / 2 ^ 93) before middle)
    (hnear : (k = 0 ∧ middle ≤ (9 + 5 / 9) / 10 ^ 29) ∨
      |middle - k| ≤ 5 / 9 / 450359962737050 * k) :
    (k = 0 ∧ |before| < 1 / 10 ^ 28) ∨ |before - k| ≤ 6 / 2 ^ 52 * |(k : ℚ)| := by
  obtain ⟨hle, hge⟩ := hshort
  rcases hnear with ⟨hzero, hsmall⟩ | hclose
  · left
    refine ⟨hzero, ?_⟩
    rw [abs_of_nonneg hbefore]
    linarith
  · right
    rw [abs_le] at hclose ⊢
    obtain ⟨hbelow, habove⟩ := hclose
    have hk := le_abs_self (k : ℚ)
    constructor <;> linarith

/-- A magnitude with places below the point always has a decimal, and the decimal is near to it. -/
theorem ofMagnitude?_of_neg {m : Magnitude} (h : m.exponent < 0) :
    ∃ bits places, ofMagnitude? m = some (bits, places) ∧
      Approximates m.value (bits / (10 ^ places : ℕ)) := by
  obtain ⟨count, hcount, hsize⟩ : ∃ count : ℕ, m.exponent = -((0 + count : ℕ) : ℤ) ∧ count ≤ 1074 :=
    ⟨(-m.exponent).toNat, by omega, by have := m.exponent_ge; omega⟩
  obtain ⟨bits, places, hfives, hwhole, hshort⟩ := timesFives_spec count m.significand 0
  obtain ⟨kept, left, bits', places', hdrop, hshorten, hwhole', hnear⟩ :=
    dropDigits_spec bits places
  have hvalue : m.value = m.significand / (2 ^ count * 10 ^ 0 : ℕ) := by
    rw [Magnitude.value, hcount, zero_add, zpow_neg, zpow_natCast, ← div_eq_mul_inv]
    push_cast
    rw [mul_one]
  rw [← hvalue] at hwhole hshort
  have hvalue₀ : 0 ≤ m.value := by
    rw [hvalue]
    positivity
  refine ⟨bits', places', ?_, hwhole.trans hwhole', fun k hk => ?_⟩
  · have hdown : (-m.exponent).toNat = count := by omega
    have hup : m.exponent.toNat = 0 := by omega
    have hbeyond : (-28 - -(places : ℤ)).toNat = places - 28 := by omega
    have hplaces : (- -(places : ℤ)).toNat = places := by omega
    have htens : (-(places : ℤ)).toNat = 0 := by omega
    rw [← hcount] at hfives
    simp only [ofMagnitude?, hdown, hup, hfives, overFives, timesTens, htens, hplaces, hbeyond,
      hdrop, hshorten, Option.bind_eq_bind, Option.bind_some, Option.pure_def]
  · apply near_of_shortens hvalue₀ (hshort.mono hvalue₀ _) (hnear k hk)
    gcongr
    exact_mod_cast hsize

/-- A magnitude without places has all its digits, if they fit in 96 bits. -/
theorem overFives_eq (count bits : ℕ) (h : bits < Nat.pow 2 96) :
    overFives count bits count =
      if bits * 2 ^ count < Nat.pow 2 96 then some (bits * 2 ^ count, 0) else none := by
  induction count generalizing bits with
  | zero => rw [overFives, pow_zero, mul_one, if_pos h, Nat.cast_zero]
  | succ count ih =>
    rw [overFives]
    by_cases hroom : bits < Nat.pow 2 95
    · have hdouble : bits * 2 < Nat.pow 2 96 := by
        rw [Nat.pow_eq] at hroom ⊢
        omega
      rw [if_pos hroom, Nat.cast_succ, add_sub_cancel_right, ih _ hdouble, Nat.mul_assoc,
        ← pow_succ']
    · have hfull : ¬ bits * 2 ^ (count + 1) < Nat.pow 2 96 := by
        have hpow : 1 ≤ 2 ^ count := Nat.one_le_two_pow
        rw [Nat.pow_eq] at hroom ⊢
        rw [pow_succ', ← Nat.mul_assoc]
        nlinarith
      rw [if_neg hroom, if_neg hfull, if_pos (by omega)]

/-- A magnitude without a fraction keeps all its digits, or does not fit. -/
theorem ofMagnitude?_of_nonneg {m : Magnitude} (h : 0 ≤ m.exponent) :
    (ofMagnitude? m = none ∧ 2 ^ 96 ≤ m.value) ∨
      ∃ bits places, ofMagnitude? m = some (bits, places) ∧
        (bits : ℚ) / (10 ^ places : ℕ) = m.value := by
  obtain ⟨count, hcount⟩ := Int.eq_ofNat_of_zero_le h
  have hbits : m.significand < Nat.pow 2 96 := m.significand_lt.trans (by decide)
  have hvalue : m.value = (m.significand * 2 ^ count : ℕ) := by
    rw [Magnitude.value, hcount, zpow_natCast]
    push_cast
    rfl
  have hfives := overFives_eq count m.significand hbits
  have hdown : (-(count : ℤ)).toNat = 0 := by omega
  have hup : (count : ℤ).toNat = count := by omega
  have hplaces : (-28 - (0 : ℤ)).toNat = 0 := by omega
  rw [hvalue]
  split at hfives
  · right
    refine ⟨m.significand * 2 ^ count, 0, ?_, by rw [pow_zero, Nat.cast_one, div_one]⟩
    simp only [ofMagnitude?, hdown, hup, hcount, timesFives, hfives, hplaces, dropPlaces,
      Option.bind_eq_bind, Option.bind_some, Option.pure_def]
    rfl
  next hfull =>
    left
    refine ⟨?_, by exact_mod_cast not_lt.mp hfull⟩
    simp only [ofMagnitude?, hdown, hup, hcount, timesFives, hfives, Option.bind_eq_bind,
      Option.bind_none]

end RecordFilter.Decimal96
