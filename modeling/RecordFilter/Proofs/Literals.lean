import RecordFilter.Proofs.FloatTexts
import RecordFilter.Proofs.Folding
import RecordFilter.Proofs.Splitting
import RecordFilter.Value.Literal
/-!
# Literals that read back

The text that shows a value stands for the value again when it is one run outside quotes.  Numbers,
booleans and column types are always shown so, date-times never, and texts when they have been
written so (`Value.readsBack`, `Value.read?_shown`).
-/

namespace RecordFilter

open Token

namespace Text

def loweredEach (s : String) : String := String.ofList (lowerEach s.toList)

theorem Settled.loweredEach_eq {s : String} (h : Settled s.toList) : loweredEach s = s := by
  rw [loweredEach, h.lowerEach_eq, String.ofList_toList]

/-- Lower case makes no parentheses, quotes, operators or white space. -/
theorem eq_of_mem_lowerChar {c d : Char} (hmem : d ∈ lowerChar c) (hd : isWordChar d = false) :
    d = c := by
  rcases lowerChar_cases c with hsame | ⟨-, hdotted⟩ | ⟨e, hlower, he⟩
  · rw [hsame] at hmem
    exact List.mem_singleton.mp hmem
  · rw [hdotted] at hmem
    rcases List.mem_cons.mp hmem with rfl | hmem
    · exact absurd hd (by decide)
    · rw [List.mem_singleton.mp hmem] at hd
      exact absurd hd (by decide)
  · rw [hlower] at hmem
    rw [List.mem_singleton.mp hmem, he.word.2] at hd
    cases hd

end Text

namespace Token

/-! ### Texts that are one run -/

/-- Whether the lexer takes the text, outside quotes, as one run. -/
def isRun : List Char → Bool
  | [] => false
  | c :: rest => isRunChar c && rest.all (continuesRun c)

theorem isRun_of_word {s : List Char} (hne : s ≠ []) (h : ∀ c ∈ s, isWordChar c = true) :
    isRun s = true := by
  obtain ⟨c, rest, rfl⟩ := List.exists_cons_of_ne_nil hne
  have hc := h c (List.mem_cons_self ..)
  have hcontinues : continuesRun c = isWordChar := by
    have hword : isWordChar c = true := hc
    simp only [isWordChar, Bool.not_eq_true', Bool.or_eq_false_iff] at hword
    simp [continuesRun, hword.1.1.1.1]
  simp only [isRun, isRunChar, hc, hcontinues, Bool.or_true, Bool.true_and, List.all_eq_true]
  exact fun d hd => h d (List.mem_cons_of_mem c hd)

theorem isRunChar_of_mem_run {s : List Char} (h : isRun s = true) {c : Char} (hc : c ∈ s) :
    isRunChar c = true := by
  cases s with
  | nil => cases h
  | cons d rest =>
    simp only [isRun, Bool.and_eq_true, List.all_eq_true] at h
    rcases List.mem_cons.mp hc with rfl | hc
    · exact h.1
    · exact (continuesRun_of_continuesRun (h.2 c hc)).1

/-- A run is still made of the same kind of characters when it is in lower case. -/
theorem isRunChar_of_mem_lowerEach {s : List Char} (h : isRun s = true) {d : Char}
    (hd : d ∈ Text.lowerEach s) : isRunChar d = true := by
  obtain ⟨c, hc, hmem⟩ := List.mem_flatMap.mp hd
  cases hword : isWordChar d with
  | true => simp [isRunChar, hword]
  | false =>
    rw [Text.eq_of_mem_lowerChar hmem hword]
    exact isRunChar_of_mem_run h hc

theorem lowerEach_ne_nil {s : List Char} (h : isRun s = true) : Text.lowerEach s ≠ [] := by
  cases s with
  | nil => cases h
  | cons c rest =>
    rw [← List.isEmpty_eq_false_iff, Text.isEmpty_lowerEach]
    rfl

end Token

/-! ### Texts of numbers -/

theorem isWordChar_of_isDigit {c : Char} (h : c.isDigit = true) :
    isWordChar c = true ∧ Text.lowerChar c = [c] := by
  have hall : (List.range 10).all (fun k => isWordChar (Char.ofNat (48 + k)) &&
      Text.lowerChar (Char.ofNat (48 + k)) == [Char.ofNat (48 + k)]) = true := by
    decide +kernel
  have hrange : 48 ≤ c.toNat ∧ c.toNat ≤ 57 := by
    simp only [Char.isDigit, Bool.and_eq_true, decide_eq_true_eq, ge_iff_le,
      UInt32.le_iff_toNat_le] at h
    exact h
  have hdigit := List.all_eq_true.mp hall (c.toNat - 48) (List.mem_range.mpr (by omega))
  rw [Nat.add_sub_cancel' hrange.1, Char.ofNat_toNat] at hdigit
  simpa using hdigit

theorem isBlank_of_isDigit {c : Char} (h : c.isDigit = true) : Text.isBlank c = false :=
  Text.not_isBlank_of_isWordChar (isWordChar_of_isDigit h).1

def isNumberChar (c : Char) : Bool := c.isDigit || c == '.' || c == '-'

theorem isWordChar_of_isNumberChar {c : Char} (h : isNumberChar c = true) :
    isWordChar c = true ∧ Text.lowerChar c = [c] := by
  simp only [isNumberChar, Bool.or_eq_true, beq_iff_eq] at h
  rcases h with (h | rfl) | rfl
  · exact isWordChar_of_isDigit h
  · decide
  · decide

/-- What is read from the text of a number, with its white space and capitals gone. -/
theorem number_text {s : String} (hne : s.toList ≠ []) (h : ∀ c ∈ s.toList, isNumberChar c = true) :
    isRun s.toList = true ∧ Text.loweredEach s = s ∧ Text.trim s.toList = s.toList := by
  have hword : ∀ c ∈ s.toList, isWordChar c = true := fun c hc =>
    (isWordChar_of_isNumberChar (h c hc)).1
  have hsettled : Text.Settled s.toList := fun c hc => (isWordChar_of_isNumberChar (h c hc)).2
  have hbare : Text.Bare s.toList :=
    ⟨fun c hc => Text.not_isBlank_of_isWordChar (hword c (List.mem_of_mem_head? hc)),
      fun c hc => Text.not_isBlank_of_isWordChar (hword c (List.mem_of_getLast? hc))⟩
  exact ⟨isRun_of_word hne hword, hsettled.loweredEach_eq, hbare.trim_eq⟩

theorem integer_text (n : ℤ) :
    (toString n).toList ≠ [] ∧ ∀ c ∈ (toString n).toList, isNumberChar c = true := by
  have hdigits : ∀ c ∈ Numeral.digits n.natAbs, isNumberChar c = true := by
    intro c hc
    simp [isNumberChar, Numeral.isDigit_of_mem_digits hc]
  rw [Numeral.toList_toString]
  split
  · refine ⟨by simp, ?_⟩
    intro c hc
    rcases List.mem_cons.mp hc with rfl | hc
    · decide
    · exact hdigits c hc
  · exact ⟨Numeral.digits_ne_nil _, hdigits⟩

theorem float_text {x : Binary64} (h : x.isFinite = true) :
    x.shown.toList ≠ [] ∧ ∀ c ∈ x.shown.toList, isNumberChar c = true := by
  cases x with
  | nan => cases h
  | infinite negative => cases h
  | finite negative m =>
    have hchars : ∀ c ∈ (m.shortest true).plainText "", isNumberChar c = true := by
      intro c hc
      rcases (DecimalForm.plainText_chars _).2 c hc with hdigit | rfl
      · simp [isNumberChar, hdigit]
      · decide
    rw [Binary64.toList_shown]
    cases negative with
    | false => exact ⟨DecimalForm.plainText_ne_nil _, hchars⟩
    | true =>
      refine ⟨by simp, ?_⟩
      intro c hc
      rcases List.mem_cons.mp hc with rfl | hc
      · decide
      · exact hchars c hc

/-! ### What a literal is read as -/

theorem read_of_ofLiteral {s : String} {type : ColumnType} {value : Value}
    (h : Value.ofLiteral s type = .ok value) : Value.read? s type = some value := by
  unfold Value.ofLiteral at h
  split at h
  next v hv => rw [hv, Except.ok.inj h]
  next => cases h

theorem ofLiteral_of_read {s : String} {type : ColumnType} {value : Value}
    (h : Value.read? s type = some value) : Value.ofLiteral s type = .ok value := by
  rw [Value.ofLiteral, h]

theorem type?_of_read {s : String} {type : ColumnType} {value : Value}
    (h : Value.read? s type = some value) : value.type? = some type := by
  cases type with
  | text =>
    rw [Value.read?, Option.some.injEq] at h
    subst h
    rfl
  | _ =>
    rw [Value.read?, Option.map_eq_some_iff] at h
    obtain ⟨a, -, rfl⟩ := h
    rfl

theorem ne_null_of_read {s : String} {type : ColumnType} {value : Value}
    (h : Value.read? s type = some value) : value ≠ .null := by
  rintro rfl
  cases type?_of_read h

/-! ### Values that read back -/

namespace Value

/-- Whether the text that shows a value is a literal that stands for it. -/
def readsBack : Value → Bool
  | text s => isRun s.toList
  | dateTime _ => false
  | _ => true

theorem readsBack_of_isRun {value : Value} (h : isRun value.shown.toList = true) :
    value.readsBack = true := by
  cases value with
  | text s => exact h
  | dateTime t =>
    have hspace : ' ' ∈ (dateTime t).shown.toList := by simp [shown, Instant.shown]
    exact absurd (isRunChar_of_mem_run h hspace) (by decide)
  | _ => rfl

theorem boolean_shown (b : Bool) : isRun (boolean b).shown.toList = true ∧
    read? (Text.loweredEach (boolean b).shown) .boolean = some (boolean b) := by
  cases b <;> exact ⟨by decide +kernel, by decide +kernel⟩

theorem columnType_shown (type : ColumnType) : isRun (columnType type).shown.toList = true ∧
    read? (Text.loweredEach (columnType type).shown) .columnType = some (columnType type) := by
  cases type <;> exact ⟨by decide +kernel, by decide +kernel⟩

/-- A value that was read from a text without capitals is read again from the text that shows it. -/
theorem read?_shown {s : String} {type : ColumnType} {value : Value} (hs : Text.Settled s.toList)
    (h : read? s type = some value) (hreads : value.readsBack = true) :
    isRun value.shown.toList = true ∧
      read? (Text.loweredEach value.shown) type = some value := by
  -- Texts and dates need not be one word; all other values are shown as they can be read.
  cases type with
  | text =>
    rw [read?, Option.some.injEq] at h
    subst h
    rw [readsBack] at hreads
    rw [shown, hs.loweredEach_eq, read?]
    exact ⟨hreads, rfl⟩
  | integer =>
    rw [read?, Option.map_eq_some_iff] at h
    obtain ⟨n, -, rfl⟩ := h
    obtain ⟨hrun, hlowered, htrim⟩ := number_text (integer_text n.toInt).1 (integer_text n.toInt).2
    rw [shown, hlowered, read?, htrim, Numeral.readInt64?_toString]
    exact ⟨hrun, rfl⟩
  | float =>
    rw [read?, Option.map_eq_some_iff] at h
    obtain ⟨x, hx, rfl⟩ := h
    have hfinite : x.isFinite = true := by
      rw [Option.filter_eq_some_iff] at hx
      exact hx.2
    obtain ⟨hrun, hlowered, htrim⟩ := number_text (float_text hfinite).1 (float_text hfinite).2
    rw [shown, hlowered, read?, htrim, Binary64.read?_shown hfinite, Option.filter_some,
      if_pos hfinite]
    exact ⟨hrun, rfl⟩
  | dateTime =>
    rw [read?, Option.map_eq_some_iff] at h
    obtain ⟨t, -, rfl⟩ := h
    cases hreads
  | boolean =>
    rw [read?, Option.map_eq_some_iff] at h
    obtain ⟨b, -, rfl⟩ := h
    exact boolean_shown b
  | columnType =>
    rw [read?, Option.map_eq_some_iff] at h
    obtain ⟨t, -, rfl⟩ := h
    exact columnType_shown t

end Value

end RecordFilter
