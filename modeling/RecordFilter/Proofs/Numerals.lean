import Mathlib.Algebra.Group.Nat.Defs
import RecordFilter.Numeral
import RecordFilter.Proofs.Runs
/-!
# Reading and writing whole numbers

The digits of a number read back as the number, with zeros in front or without
(`value_digits`, `value_padded`), and a 64-bit integer is read from the text that shows it
(`readInt64?_toString`).
-/

namespace RecordFilter.Numeral

/-! ### Digits -/

@[simp] theorem value_digits (n : Nat) : value (digits n) = n := Nat.ofDigitChars_ten_toDigits

theorem isDigit_of_mem_digits {n : Nat} {c : Char} (h : c ∈ digits n) : c.isDigit = true :=
  Nat.isDigit_of_mem_toDigits (by decide) (by decide) h

@[simp] theorem digits_ne_nil (n : Nat) : digits n ≠ [] := Nat.toDigits_ne_nil

theorem value_append (first second : List Char) :
    value (first ++ second) = 10 ^ second.length * value first + value second := by
  have happend : value (first ++ second) = Nat.ofDigitChars 10 second (value first) :=
    Nat.ofDigitChars_append 0
  rw [happend, Nat.ofDigitChars_eq_ofDigitChars_zero]
  rfl

theorem digitValue_lt {c : Char} (h : c.isDigit = true) : digitValue c < 10 := by
  rw [Char.isDigit_iff_toNat] at h
  have hnine : '9'.toNat = 57 := rfl
  have hzero : '0'.toNat = 48 := rfl
  rw [digitValue]
  omega

theorem value_lt_pow {s : List Char} (h : ∀ c ∈ s, c.isDigit = true) : value s < 10 ^ s.length := by
  induction s with
  | nil => decide
  | cons c s ih =>
    have hrest := ih fun d hd => h d (List.mem_cons_of_mem _ hd)
    have hc := digitValue_lt (h c (List.mem_cons_self ..))
    have hvalue : value [c] = digitValue c := by simp [value]
    rw [← List.singleton_append, value_append, hvalue, List.singleton_append, List.length_cons,
      Nat.pow_succ]
    have hmul : 10 ^ s.length * digitValue c ≤ 10 ^ s.length * 9 :=
      Nat.mul_le_mul_left _ (by omega)
    omega

/-- The digits of a number begin with a zero only when there is nothing else. -/
theorem digits_of_head_zero {n : Nat} (h : (digits n).head? = some '0') : digits n = ['0'] := by
  obtain ⟨rest, hrest⟩ := List.head?_eq_some_iff.mp h
  cases rest with
  | nil => exact hrest
  | cons d rest =>
    exfalso
    have hdigits : ∀ c ∈ d :: rest, c.isDigit = true := fun c hc =>
      isDigit_of_mem_digits (n := n) (by rw [hrest]; exact List.mem_cons_of_mem _ hc)
    have hzero : value ['0'] = 0 := rfl
    have hvalue : value (d :: rest) = n := by
      have hn := value_digits n
      rwa [hrest, ← List.singleton_append, value_append, hzero, Nat.mul_zero, Nat.zero_add] at hn
    have hlt := value_lt_pow hdigits
    rw [hvalue, ← Nat.length_toDigits_le_iff (by decide) (by simp)] at hlt
    have hlength := congrArg List.length hrest
    rw [digits] at hlength
    rw [hlength, List.length_cons] at hlt
    exact absurd hlt (Nat.not_succ_le_self _)

theorem value_zeros_append (n : Nat) (s : List Char) :
    value (List.replicate n '0' ++ s) = value s := by
  have hzeros : value (List.replicate n '0') = 0 := by
    have h : value (List.replicate n '0') = 10 ^ n * 0 := Nat.ofDigitChars_replicate_zero
    simpa using h
  rw [value_append, hzeros, Nat.mul_zero, Nat.zero_add]

theorem value_append_zeros (s : List Char) (n : Nat) :
    value (s ++ List.replicate n '0') = value s * 10 ^ n := by
  have happend : value (s ++ List.replicate n '0') =
      Nat.ofDigitChars 10 (List.replicate n '0') (value s) := Nat.ofDigitChars_append 0
  rw [happend, Nat.ofDigitChars_replicate_zero, Nat.mul_comm]

theorem leadingDigits_append {first rest : List Char} (hfirst : ∀ c ∈ first, c.isDigit = true)
    (hrest : ∀ c ∈ rest.head?, c.isDigit = false) :
    leadingDigits (first ++ rest) = (first, rest) := by
  obtain ⟨htake, hdrop⟩ := takeWhile_append_of_head hfirst rest hrest
  rw [leadingDigits, htake, hdrop]

theorem leadingDigits_of_all {s : List Char} (h : ∀ c ∈ s, c.isDigit = true) :
    leadingDigits s = (s, []) := by
  have hnone : ∀ c ∈ ([] : List Char).head?, c.isDigit = false := by simp
  have happend := leadingDigits_append h hnone
  rwa [List.append_nil] at happend

/-! ### Zeros in front -/

@[simp] theorem value_padded (n width : Nat) : value (padded n width) = n := by
  rw [padded, value_zeros_append, value_digits]

theorem isDigit_of_mem_padded {n width : Nat} {c : Char} (h : c ∈ padded n width) :
    c.isDigit = true := by
  rcases List.mem_append.mp h with h | h
  · rw [(List.mem_replicate.mp h).2]
    decide
  · exact isDigit_of_mem_digits h

theorem length_padded {n width : Nat} (hwidth : 0 < width) (h : n < 10 ^ width) :
    (padded n width).length = width := by
  have hdigits : (digits n).length ≤ width := (Nat.length_toDigits_le_iff (by decide) hwidth).mpr h
  rw [padded, List.length_append, List.length_replicate]
  omega

theorem le_length_padded (n width : Nat) : width ≤ (padded n width).length := by
  rw [padded, List.length_append, List.length_replicate]
  omega

theorem exists_padded_eq_cons (n : Nat) {width : Nat} (hwidth : 0 < width) :
    ∃ c digits, padded n width = c :: digits ∧ c.isDigit = true := by
  have hlength := le_length_padded n width
  obtain ⟨c, digits, heq⟩ :=
    List.exists_cons_of_ne_nil (List.ne_nil_of_length_pos (Nat.lt_of_lt_of_le hwidth hlength))
  have hmem : c ∈ padded n width := by
    rw [heq]
    exact List.mem_cons_self ..
  exact ⟨c, digits, heq, isDigit_of_mem_padded hmem⟩

/-! ### Integers -/

/-- The text of an integer: its digits, with a minus in front of a negative one. -/
theorem toList_toString (n : Int) :
    (toString n).toList = if n < 0 then '-' :: digits n.natAbs else digits n.natAbs := by
  rw [Int.toString_eq_repr, Int.repr_eq_if]
  by_cases h : n < 0
  · have hnatAbs : (-n).toNat = n.natAbs := by omega
    rw [if_neg (by omega), if_pos h, hnatAbs, String.toList_append, Nat.toList_repr]
    rfl
  · have hnatAbs : n.toNat = n.natAbs := by omega
    rw [if_pos (by omega), if_neg h, hnatAbs, Nat.toList_repr]
    rfl

theorem sign_of_digits {s : List Char} (h : ∀ c ∈ s, c.isDigit = true) : sign s = (false, s) := by
  unfold sign
  split
  · exact absurd (h '-' (List.mem_cons_self ..)) (by decide)
  · exact absurd (h '+' (List.mem_cons_self ..)) (by decide)
  · rfl

@[simp] theorem int64?_toInt (n : Int64) : int64? n.toInt = some n := by
  rw [int64?, if_pos ⟨n.minValue_le_toInt, n.toInt_le⟩, Int64.ofInt_toInt]

theorem readInt64?_toString (n : Int64) : readInt64? (toString n.toInt).toList = some n := by
  have hdigits : (digits n.toInt.natAbs).all Char.isDigit = true :=
    List.all_eq_true.mpr fun _ => isDigit_of_mem_digits
  have hne : (digits n.toInt.natAbs).isEmpty = false := by simp
  rw [toList_toString]
  by_cases h : n.toInt < 0
  · have hvalue : -(n.toInt.natAbs : Int) = n.toInt := by omega
    rw [if_pos h, readInt64?, sign]
    simp only [hne, hdigits, value_digits, hvalue, int64?_toInt, Bool.not_true, Bool.or_false,
      Bool.false_eq_true, if_false, if_true]
  · have hvalue : (n.toInt.natAbs : Int) = n.toInt := by omega
    rw [if_neg h, readInt64?, sign_of_digits fun _ => isDigit_of_mem_digits]
    simp only [hne, hdigits, value_digits, hvalue, int64?_toInt, Bool.not_true, Bool.or_false,
      Bool.false_eq_true, if_false]

end RecordFilter.Numeral
