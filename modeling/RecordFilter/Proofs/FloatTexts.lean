import RecordFilter.Binary64.Text
import RecordFilter.Proofs.Numerals
import RecordFilter.Proofs.Rounding
/-!
# Texts of numbers read back

The shortest decimal of a magnitude reads back as the magnitude (`ofDecimal?_shortest`): the search
tests that it does, and the decimal with all digits, which stands in when the search finds none, has
the value of the magnitude.  Written without an exponent, a decimal is read with its value
(`readDecimal?_plainText`), so a number is read from the text that shows it (`read?_shown`).
-/

namespace RecordFilter

/-! ### The shortest decimal -/

theorem DecimalForm.value_stripZeros (d : DecimalForm) : d.stripZeros.value = d.value := by
  fun_induction DecimalForm.stripZeros d with
  | case1 d h ih =>
    have hten : d.digits = d.digits / 10 * 10 := by omega
    rw [ih, value, value, zpow_add_one₀ (by norm_num)]
    dsimp only
    conv_rhs => rw [hten]
    push_cast
    ring
  | case2 d h => rfl

namespace Magnitude

/-- Digits that are accepted for an exponent are read as the magnitude. -/
theorem ofDecimal?_of_nearestOnGrid {tieUp : Bool} {m : Magnitude} {exponent : ℤ} {digits : ℕ}
    (h : nearestOnGrid? tieUp m exponent = some digits) : ofDecimal? digits exponent = some m := by
  unfold nearestOnGrid? at h
  dsimp only at h
  split at h
  next hbelow habove =>
    cases h
    split
    · exact beq_iff_eq.mp hbelow
    · exact beq_iff_eq.mp habove
  next hbelow _ =>
    cases h
    exact beq_iff_eq.mp hbelow
  next _ habove =>
    cases h
    exact beq_iff_eq.mp habove
  next => cases h

theorem value_exactDecimal (m : Magnitude) : m.exactDecimal.value = m.value := by
  unfold exactDecimal
  split
  next h =>
    rw [DecimalForm.value, value, zpow_zero, mul_one, Nat.cast_mul, cast_pow_two, ← zpow_natCast,
      Int.toNat_of_nonneg h]
  next h =>
    obtain ⟨k, hk⟩ : ∃ k : ℕ, m.exponent = -(k : ℤ) := ⟨(-m.exponent).toNat, by omega⟩
    have hten : (10 : ℚ) ^ k = 2 ^ k * 5 ^ k := by
      rw [← mul_pow]
      norm_num
    rw [DecimalForm.value, value, hk, neg_neg, Int.toNat_natCast, Nat.cast_mul, Nat.pow_eq,
      Nat.cast_pow, Nat.cast_ofNat, zpow_neg, zpow_neg, zpow_natCast, zpow_natCast, hten]
    field_simp

theorem ofDecimal?_shortest (tieUp : Bool) (m : Magnitude) :
    ofDecimal? (m.shortest tieUp).digits (m.shortest tieUp).exponent = some m := by
  unfold shortest
  dsimp only
  by_cases hzero : m.significand = 0
  · rw [if_pos hzero, ofDecimal?, if_pos rfl, eq_zero_of_significand hzero]
  · rw [if_neg hzero, ofDecimal?_congr (DecimalForm.value_stripZeros _)]
    cases hfound : (List.range 17).findSome? fun (finer : Nat) =>
        (nearestOnGrid? tieUp m (m.floorLog10 - finer)).map fun digits =>
          DecimalForm.mk digits (m.floorLog10 - finer) with
    | none => exact ofDecimal?_of_value m.value_exactDecimal
    | some d =>
      obtain ⟨finer, -, hfiner⟩ := List.exists_of_findSome?_eq_some hfound
      obtain ⟨digits, hdigits, rfl⟩ := Option.map_eq_some_iff.mp hfiner
      exact ofDecimal?_of_nearestOnGrid hdigits

end Magnitude

/-! ### Plain texts -/

namespace DecimalForm

theorem plainText_of_nonneg {d : DecimalForm} (h : 0 ≤ d.exponent) :
    d.plainText "" = Numeral.digits d.digits ++ List.replicate d.exponent.toNat '0' := by
  rw [plainText]
  dsimp only
  rw [if_pos h]
  simp

/-- With places after the point, a plain text is digits, a point, and as many digits as places. -/
theorem exists_plainText_of_neg {d : DecimalForm} (h : d.exponent < 0) :
    ∃ whole fraction : List Char, d.plainText "" = whole ++ '.' :: fraction ∧ whole ≠ [] ∧
      (∀ c ∈ whole ++ fraction, c.isDigit = true) ∧ Numeral.value (whole ++ fraction) = d.digits ∧
      (fraction.length : ℤ) = -d.exponent := by
  -- Zeros in front make sure that a digit is left before the point.
  let padded := Numeral.padded d.digits ((-d.exponent).toNat + 1)
  have hlength : (-d.exponent).toNat + 1 ≤ padded.length := Numeral.le_length_padded _ _
  refine ⟨padded.take (padded.length - (-d.exponent).toNat),
    padded.drop (padded.length - (-d.exponent).toNat), ?_, ?_, ?_, ?_, ?_⟩
  · rw [plainText]
    dsimp only
    rw [if_neg (by omega)]
  · rw [← List.length_pos_iff, List.length_take]
    omega
  · intro c hc
    rw [List.take_append_drop] at hc
    exact Numeral.isDigit_of_mem_padded hc
  · rw [List.take_append_drop, Numeral.value_padded]
  · rw [List.length_drop]
    omega

theorem isDigit_of_mem_plainText {d : DecimalForm} (h : 0 ≤ d.exponent) :
    ∀ c ∈ d.plainText "", c.isDigit = true := by
  intro c hc
  rw [plainText_of_nonneg h] at hc
  rcases List.mem_append.mp hc with hc | hc
  · exact Numeral.isDigit_of_mem_digits hc
  · rw [(List.mem_replicate.mp hc).2]
    decide

/-- A plain text consists of digits and at most one point, and begins with a digit. -/
theorem plainText_chars (d : DecimalForm) :
    (∀ c ∈ (d.plainText "").head?, c.isDigit = true) ∧
      ∀ c ∈ d.plainText "", c.isDigit = true ∨ c = '.' := by
  rcases le_or_gt 0 d.exponent with h | h
  · have hall := isDigit_of_mem_plainText h
    exact ⟨fun c hc => hall c (List.mem_of_mem_head? hc), fun c hc => .inl (hall c hc)⟩
  · obtain ⟨whole, fraction, htext, hwhole, hdigits, -, -⟩ := exists_plainText_of_neg h
    rw [htext]
    constructor
    · intro c hc
      rw [List.head?_append_of_ne_nil _ hwhole] at hc
      exact hdigits c (List.mem_append_left _ (List.mem_of_mem_head? hc))
    · intro c hc
      rcases List.mem_append.mp hc with hc | hc
      · exact .inl (hdigits c (List.mem_append_left _ hc))
      · rcases List.mem_cons.mp hc with rfl | hc
        · exact .inr rfl
        · exact .inl (hdigits c (List.mem_append_right _ hc))

theorem plainText_ne_nil (d : DecimalForm) : d.plainText "" ≠ [] := by
  rcases le_or_gt 0 d.exponent with h | h
  · rw [plainText_of_nonneg h]
    simp
  · obtain ⟨whole, fraction, htext, -⟩ := exists_plainText_of_neg h
    rw [htext]
    simp

end DecimalForm

namespace Binary64

theorem readDecimal?_whole {digits : List Char} (hne : digits ≠ [])
    (hdigits : ∀ c ∈ digits, c.isDigit = true) :
    readDecimal? digits = some ⟨Numeral.value digits, 0⟩ := by
  rw [readDecimal?, Numeral.leadingDigits_of_all hdigits]
  simp [hne, readExponent?]

theorem readDecimal?_point {whole fraction : List Char} (hne : whole ≠ [])
    (hdigits : ∀ c ∈ whole ++ fraction, c.isDigit = true) :
    readDecimal? (whole ++ '.' :: fraction) =
      some ⟨Numeral.value (whole ++ fraction), -(fraction.length : ℤ)⟩ := by
  have hwhole : Numeral.leadingDigits (whole ++ '.' :: fraction) = (whole, '.' :: fraction) := by
    apply Numeral.leadingDigits_append
    · exact fun c hc => hdigits c (List.mem_append_left _ hc)
    · simp
  have hfraction : Numeral.leadingDigits fraction = (fraction, []) :=
    Numeral.leadingDigits_of_all fun c hc => hdigits c (List.mem_append_right _ hc)
  rw [readDecimal?, hwhole]
  simp [hfraction, hne, readExponent?]

theorem readDecimal?_plainText (d : DecimalForm) :
    ∃ d', readDecimal? (d.plainText "") = some d' ∧ d'.value = d.value := by
  rcases le_or_gt 0 d.exponent with h | h
  · refine ⟨_, readDecimal?_whole d.plainText_ne_nil (DecimalForm.isDigit_of_mem_plainText h), ?_⟩
    rw [DecimalForm.plainText_of_nonneg h, Numeral.value_append_zeros, Numeral.value_digits,
      DecimalForm.value, DecimalForm.value, zpow_zero, mul_one, Nat.cast_mul, Nat.cast_pow,
      Nat.cast_ofNat, ← zpow_natCast, Int.toNat_of_nonneg h]
  · obtain ⟨whole, fraction, htext, hwhole, hdigits, hvalue, hlength⟩ :=
      DecimalForm.exists_plainText_of_neg h
    refine ⟨_, htext ▸ readDecimal?_point hwhole hdigits, ?_⟩
    rw [DecimalForm.value, hvalue, hlength, neg_neg, DecimalForm.value]

theorem toLower_of_isDigit {c : Char} (h : c.isDigit = true) : c.toLower = c := by
  simp only [Char.isDigit, Bool.and_eq_true, decide_eq_true_eq] at h
  unfold Char.toLower
  rw [dif_neg]
  rintro ⟨hupper, -⟩
  have hle := UInt32.le_trans hupper h.2
  exact absurd hle (by decide)

/-- What begins with a digit is read as a decimal, behind a sign or without one. -/
theorem read?_of_digit {s : List Char} (negative : Bool) (hne : s ≠ [])
    (hhead : ∀ c ∈ s.head?, c.isDigit = true) :
    read? (if negative then '-' :: s else s) = (readDecimal? s).map (ofDecimal negative) := by
  obtain ⟨c, rest, rfl⟩ := List.exists_cons_of_ne_nil hne
  have hc : c.isDigit = true := hhead c rfl
  -- A digit is no sign, so what is taken off in front is the minus put there.
  have hsign : Numeral.sign (if negative then '-' :: c :: rest else c :: rest) =
      (negative, c :: rest) := by
    cases negative with
    | true => rfl
    | false =>
      unfold Numeral.sign
      split
      next heq =>
        obtain ⟨rfl, -⟩ := List.cons.inj heq
        exact absurd hc (by decide)
      next heq =>
        obtain ⟨rfl, -⟩ := List.cons.inj heq
        exact absurd hc (by decide)
      next => rfl
  -- A text that begins with a digit is none of the three words that are read as numbers.
  have hword : ∀ (d : Char) (word : List Char), d.isDigit = false →
      String.ofList ((c :: rest).map Char.toLower) ≠ String.ofList (d :: word) := by
    intro d word hd heq
    rw [String.ofList_inj, List.map_cons, toLower_of_isDigit hc] at heq
    obtain ⟨rfl, -⟩ := List.cons.inj heq
    rw [hc] at hd
    cases hd
  have hinf := hword 'i' ['n', 'f'] (by decide)
  have hinfinity := hword 'i' ['n', 'f', 'i', 'n', 'i', 't', 'y'] (by decide)
  have hnan := hword 'n' ['a', 'n'] (by decide)
  rw [read?, hsign]
  dsimp only
  rw [if_neg, if_neg]
  · exact hnan
  · rw [Bool.or_eq_true, decide_eq_true_eq, decide_eq_true_eq, not_or]
    exact ⟨hinf, hinfinity⟩

theorem toList_shown (negative : Bool) (m : Magnitude) :
    (shown (finite negative m)).toList =
      if negative then '-' :: (m.shortest true).plainText ""
      else (m.shortest true).plainText "" := by
  cases negative <;> simp [shown, text, shownStyle, magnitudeText]

/-- A finite float is read back from the text it is shown as. -/
theorem read?_shown {x : Binary64} (h : x.isFinite = true) : read? x.shown.toList = some x := by
  cases x with
  | nan => cases h
  | infinite negative => cases h
  | finite negative m =>
    obtain ⟨d, hread, hvalue⟩ := readDecimal?_plainText (m.shortest true)
    rw [toList_shown, read?_of_digit negative (DecimalForm.plainText_ne_nil _)
      (DecimalForm.plainText_chars _).1, hread, Option.map_some, ofDecimal,
      Magnitude.ofDecimal?_congr hvalue, m.ofDecimal?_shortest true]

end Binary64

end RecordFilter
