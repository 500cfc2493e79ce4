import RecordFilter.Json.Reading
import RecordFilter.Proofs.FloatTexts
/-!
# Scalars in JSON texts

How a reader takes the text of a scalar that stands in front of other text: a string as it was
(`after_quoted`), the names of the other scalars (`after_name`), and a number as whatever its text
alone is read as (`after_number`).  Integers of 64 bits are read as they were
(`readNumber?_toString`); floats are not always.
-/

namespace RecordFilter.Json

/-! ### Strings -/

/-- An escape is one character behind a backslash, or four hexadecimal digits. -/
theorem escaped_cases (c : Char) :
    (∃ d, escaped c = ['\\', d] ∧ d ≠ 'u' ∧ unescaped? d = some c) ∨
      (c.toNat < 0x20 ∧ escaped c =
        ['\\', 'u', '0', '0', hexDigit (c.toNat / 16), hexDigit c.toNat]) ∨
      (escaped c = [c] ∧ c ≠ '"' ∧ c ≠ '\\' ∧ ¬ c.toNat < 0x20) := by
  unfold escaped
  split
  · exact .inl ⟨_, rfl, by decide, rfl⟩
  · exact .inl ⟨_, rfl, by decide, rfl⟩
  · exact .inl ⟨_, rfl, by decide, rfl⟩
  · exact .inl ⟨_, rfl, by decide, rfl⟩
  · exact .inl ⟨_, rfl, by decide, rfl⟩
  · exact .inl ⟨_, rfl, by decide, rfl⟩
  · exact .inl ⟨_, rfl, by decide, rfl⟩
  -- Seven characters have short escapes; the others are plain unless they are control characters.
  next hquote hslash _ _ _ _ _ =>
    by_cases hcontrol : c.toNat < 0x20
    · rw [if_pos hcontrol]
      exact .inr (.inl ⟨hcontrol, rfl⟩)
    · rw [if_neg hcontrol]
      exact .inr (.inr ⟨rfl, hquote, hslash, hcontrol⟩)

theorem hexDigit_plain (n : Nat) : hexDigit n ≠ '"' ∧ hexDigit n ≠ '\\' := by
  have hall : (List.range 16).all (fun n =>
      Nat.digitChar n != '"' && Nat.digitChar n != '\\') = true := by decide
  have h := List.all_eq_true.mp hall (n % 16) (List.mem_range.mpr (Nat.mod_lt n (by decide)))
  rwa [Bool.and_eq_true, bne_iff_ne, bne_iff_ne] at h

theorem unitValue?_control {n : Nat} (h : n < 0x20) :
    unitValue? '0' '0' (hexDigit (n / 16)) (hexDigit n) = some n := by
  have hall : (List.range 0x20).all (fun n =>
      unitValue? '0' '0' (hexDigit (n / 16)) (hexDigit n) == some n) = true := by decide
  exact beq_iff_eq.mp (List.all_eq_true.mp hall n (List.mem_range.mpr h))

theorem stringBody?_plain {s : List Char} (h : ∀ c ∈ s, c ≠ '"' ∧ c ≠ '\\') (rest : List Char) :
    stringBody? (s ++ rest) = (stringBody? rest).map (s ++ ·) := by
  induction s with
  | nil => simp
  | cons c s ih =>
    obtain ⟨hquote, hslash⟩ := h c (List.mem_cons_self ..)
    rw [List.cons_append, stringBody?, ih fun d hd => h d (List.mem_cons_of_mem _ hd),
      Option.map_map]
    · rfl
    · exact hquote
    · rintro _ _ rfl
      exact absurd rfl hslash

/-- An escape is passed over as a whole: the quote mark in it ends nothing. -/
theorem stringBody?_escaped (c : Char) (rest : List Char) :
    stringBody? (escaped c ++ rest) = (stringBody? rest).map (escaped c ++ ·) := by
  rcases escaped_cases c with ⟨d, hd, -, -⟩ | ⟨-, hunit⟩ | ⟨hplain, hquote, hslash, -⟩
  · rw [hd]
    rfl
  · have hdigits : ∀ d ∈ ['0', '0', hexDigit (c.toNat / 16), hexDigit c.toNat],
        d ≠ '"' ∧ d ≠ '\\' := by
      simp [hexDigit_plain]
    have hbehind := stringBody?_plain hdigits rest
    rw [hunit, List.cons_append, List.cons_append, stringBody?, hbehind, Option.map_map]
    rfl
  · rw [hplain]
    apply stringBody?_plain
    simp [hquote, hslash]

theorem stringBody?_flatMap (s rest : List Char) :
    stringBody? (s.flatMap escaped ++ '"' :: rest) = some (s.flatMap escaped) := by
  induction s with
  | nil => rfl
  | cons c s ih =>
    rw [List.flatMap_cons, List.append_assoc, stringBody?_escaped, ih, Option.map_some]

theorem pieces?_plain {c : Char} (hslash : c ≠ '\\') (hcontrol : ¬ c.toNat < 0x20)
    (rest : List Char) : pieces? (c :: rest) = (pieces? rest).map (.char c :: ·) := by
  rw [pieces?, if_neg]
  · simp [hslash, hcontrol]
  · rintro _ _ _ _ _ rfl
    exact absurd rfl hslash
  · rintro _ _ rfl
    exact absurd rfl hslash

theorem pieces?_short {c d : Char} (hd : d ≠ 'u') (hc : unescaped? d = some c)
    (rest : List Char) : pieces? ('\\' :: d :: rest) = (pieces? rest).map (.char c :: ·) := by
  rw [pieces?]
  · rw [hc]
    cases pieces? rest <;> rfl
  · rintro _ _ _ _ _ rfl
    exact absurd rfl hd

theorem pieces?_unit {n : Nat} (hn : n < 0x20) (rest : List Char) :
    pieces? ('\\' :: 'u' :: '0' :: '0' :: hexDigit (n / 16) :: hexDigit n :: rest) =
      (pieces? rest).map (.unit n :: ·) := by
  rw [pieces?, unitValue?_control hn]
  cases pieces? rest <;> rfl

theorem joinPieces?_control {c : Char} (h : c.toNat < 0x20) (pieces : List StringPiece) :
    joinPieces? (.unit c.toNat :: pieces) = (joinPieces? pieces).map (c :: ·) := by
  have hsmall : c.toNat < 0xD800 := by omega
  rw [joinPieces?.eq_def]
  simp [hsmall]

theorem unquoted_flatMap (s : List Char) :
    pieces? (s.flatMap escaped) >>= joinPieces? = some s := by
  induction s with
  | nil => rfl
  | cons c s ih =>
    obtain ⟨pieces, hpieces, hjoin⟩ := Option.bind_eq_some_iff.mp ih
    rw [List.flatMap_cons]
    rcases escaped_cases c with ⟨d, hd, hu, hc⟩ | ⟨hcontrol, hunit⟩ | ⟨hplain, -, hslash, hcontrol⟩
    · rw [hd, List.cons_append, List.singleton_append, pieces?_short hu hc, hpieces]
      simp [joinPieces?, hjoin]
    · simp only [hunit, List.cons_append, List.nil_append]
      rw [pieces?_unit hcontrol, hpieces]
      simp [joinPieces?_control hcontrol, hjoin]
    · rw [hplain, List.singleton_append, pieces?_plain hslash hcontrol, hpieces]
      simp [joinPieces?, hjoin]

theorem toList_quoted_append (s : String) (rest : List Char) :
    (quoted s).toList ++ rest = '"' :: (s.toList.flatMap escaped ++ '"' :: rest) := by
  simp [quoted]

theorem firstToken?_quoted (s : String) (rest : List Char) :
    firstToken? '"' (s.toList.flatMap escaped ++ '"' :: rest) =
      some (.scalar (.string s), (s.toList.flatMap escaped).length + 1) := by
  rw [firstToken?, stringBody?_flatMap, Option.bind_eq_bind, Option.bind_some, unquoted_flatMap]
  simp

/-! ### Numbers -/

/-- A text that begins like a number and has only the characters of numbers. -/
def IsNumeric (s : List Char) : Prop :=
  ∃ c run, s = c :: run ∧ (c.isDigit = true ∨ c = '-') ∧ ∀ d ∈ run, isNumberChar d = true

theorem isNumberChar_of_isDigit {c : Char} (h : c.isDigit = true) : isNumberChar c = true := by
  simp [isNumberChar, h]

theorem isNumeric_of_digit {s : List Char} (hne : s ≠ []) (hhead : ∀ c ∈ s.head?, c.isDigit = true)
    (h : ∀ c ∈ s, isNumberChar c = true) (negative : Bool) :
    IsNumeric (if negative then '-' :: s else s) := by
  obtain ⟨c, run, rfl⟩ := List.exists_cons_of_ne_nil hne
  cases negative with
  | true => exact ⟨'-', c :: run, rfl, .inr rfl, h⟩
  | false => exact ⟨c, run, rfl, .inl (hhead c rfl), fun d hd => h d (List.mem_cons_of_mem _ hd)⟩

theorem isNumeric_toString (n : Int) : IsNumeric (toString n).toList := by
  have hdigits : ∀ c ∈ Numeral.digits n.natAbs, c.isDigit = true :=
    fun _ => Numeral.isDigit_of_mem_digits
  have h := isNumeric_of_digit (Numeral.digits_ne_nil n.natAbs)
    (fun c hc => hdigits c (List.mem_of_mem_head? hc))
    (fun c hc => isNumberChar_of_isDigit (hdigits c hc)) (decide (n < 0))
  rw [Numeral.toList_toString]
  simpa using h

theorem plainText_eq (d : DecimalForm) (wholeEnd : String) : d.plainText wholeEnd =
    d.plainText "" ++ if 0 ≤ d.exponent then wholeEnd.toList else [] := by
  unfold DecimalForm.plainText
  split <;> simp

/-- A float is written as a number: from a digit on, with number characters only. -/
theorem magnitudeText_chars (m : Magnitude) : Binary64.magnitudeText numberStyle m ≠ [] ∧
    (∀ c ∈ (Binary64.magnitudeText numberStyle m).head?, c.isDigit = true) ∧
      ∀ c ∈ Binary64.magnitudeText numberStyle m, isNumberChar c = true := by
  let d := m.shortest numberStyle.tieUp
  unfold Binary64.magnitudeText
  dsimp only
  split
  · -- A plain text is followed by the point and zero of a whole number, if it is one.
    obtain ⟨hhead, hchars⟩ := d.plainText_chars
    have hne := d.plainText_ne_nil
    rw [plainText_eq]
    refine ⟨by simp [d, hne], ?_, ?_⟩
    · rw [List.head?_append_of_ne_nil _ hne]
      exact hhead
    · intro c hc
      rcases List.mem_append.mp hc with hc | hc
      · rcases hchars c hc with hdigit | rfl
        · exact isNumberChar_of_isDigit hdigit
        · decide
      · have hend : (if 0 ≤ d.exponent then numberStyle.wholeEnd.toList else []).all
            isNumberChar = true := by
          split <;> decide
        exact List.all_eq_true.mp hend c hc
  · have hdigits : ∀ c ∈ Numeral.digits d.digits, c.isDigit = true :=
      fun _ => Numeral.isDigit_of_mem_digits
    -- With an exponent a point stands behind the first digit, if there are others.
    obtain ⟨first, others, hfirst⟩ := List.exists_cons_of_ne_nil (Numeral.digits_ne_nil d.digits)
    have hfirstDigit : first.isDigit = true := hdigits first (by simp [hfirst])
    unfold DecimalForm.exponentText
    dsimp only
    rw [hfirst, List.take_succ_cons, List.take_zero]
    refine ⟨by simp, by simpa using hfirstDigit, ?_⟩
    have hothers : ∀ c ∈ others, isNumberChar c = true := fun c hc =>
      isNumberChar_of_isDigit (hdigits c (by simp [hfirst, hc]))
    intro c hc
    rcases List.mem_append.mp hc with hc | hc
    · rcases List.mem_cons.mp hc with rfl | hc
      · exact isNumberChar_of_isDigit hfirstDigit
      · split at hc
        · cases hc
        · rcases List.mem_cons.mp hc with rfl | hc
          · decide
          · exact hothers c hc
    · rcases List.mem_cons.mp hc with rfl | hc
      · decide
      · rcases List.mem_cons.mp hc with rfl | hc
        · split <;> decide
        · exact isNumberChar_of_isDigit (Numeral.isDigit_of_mem_digits hc)

theorem isNumeric_floatText {x : Binary64} (h : x.isFinite = true) :
    IsNumeric (floatText x).toList := by
  cases x with
  | nan => cases h
  | infinite negative => cases h
  | finite negative m =>
    obtain ⟨hne, hhead, hchars⟩ := magnitudeText_chars m
    have hnumeric := isNumeric_of_digit hne hhead hchars negative
    rw [floatText, if_pos h, Binary64.text, String.toList_ofList]
    exact hnumeric

theorem read?_digits (negative : Bool) (n : Nat) :
    NumberText.read? (if negative then '-' :: Numeral.digits n else Numeral.digits n) =
      some ⟨negative, Numeral.digits n, none, none⟩ := by
  have hdigits : ∀ c ∈ Numeral.digits n, c.isDigit = true :=
    fun _ => Numeral.isDigit_of_mem_digits
  have hne := Numeral.digits_ne_nil n
  have hlead := Numeral.leadingDigits_of_all hdigits
  have hzero : (Numeral.digits n).head? = some '0' → Numeral.digits n = ['0'] :=
    Numeral.digits_of_head_zero
  cases negative with
  | true =>
    rw [if_pos rfl, NumberText.read?]
    simpa [hlead, NumberText.readPower?, hne] using hzero
  | false =>
    rw [if_neg Bool.false_ne_true, NumberText.read?]
    · simpa [hlead, NumberText.readPower?, hne] using hzero
    · intro body hbody
      have hminus := hdigits '-' (by rw [hbody]; exact List.mem_cons_self ..)
      exact absurd hminus (by decide)

theorem readNumber?_toString {n : Int} (hlow : -2 ^ 63 ≤ n) (hhigh : n < 2 ^ 64) :
    readNumber? (toString n).toList = some (.integer n) := by
  have hread := read?_digits (decide (n < 0)) n.natAbs
  rw [readNumber?, Numeral.toList_toString]
  simp only [decide_eq_true_eq] at hread
  rw [hread, Option.bind_eq_bind, Option.bind_some, NumberText.toJson?]
  dsimp only
  rw [Numeral.value_digits]
  -- Numbers below zero have to fit in 63 bits, all others in 64.
  by_cases h : n < 0
  · have hnatAbs : -(n.natAbs : Int) = n := by omega
    have hnatural : 0 < n.natAbs ∧ n.natAbs ≤ Nat.pow 2 63 := by
      have hpow : Nat.pow 2 63 = 9223372036854775808 := by decide
      omega
    rw [if_neg (by simp [h]), if_pos (by simp [h, hnatural]), hnatAbs]
  · have hnatAbs : (n.natAbs : Int) = n := by omega
    have hlt : n.natAbs < UInt64.size := by
      rw [UInt64.size]
      omega
    rw [if_pos (by simp [h, hlt]), hnatAbs]

/-! ### What a reader does with them -/

namespace ReadState

variable {state : ReadState}

def after (state : ReadState) (s : List Char) : Option ReadState :=
  tokens? s >>= fun tokens => tokens.foldlM step state

@[simp] theorem after_nil : state.after [] = some state := by
  rw [after, tokens?]
  rfl

/-- Off the blanks the reader takes one token and goes on behind it. -/
theorem after_cons {c : Char} {rest : List Char}
    (h : ¬ (c = ' ' ∨ c = '\t' ∨ c = '\n' ∨ c = '\r')) :
    state.after (c :: rest) = firstToken? c rest >>= fun first =>
      state.step first.1 >>= fun next => next.after (rest.drop first.2) := by
  rw [after, tokens?, if_neg h]
  cases firstToken? c rest with
  | none => rfl
  | some first =>
    obtain ⟨token, taken⟩ := first
    simp only [after, Option.bind_eq_bind, Option.bind_some]
    cases tokens? (rest.drop taken) with
    | none => simp
    | some tokens => simp [List.foldlM_cons]

/-- What may follow a number or a name without prolonging it. -/
def EndsWord (rest : List Char) : Prop :=
  ∀ c ∈ rest.head?, isNumberChar c = false ∧ c.isAlpha = false

theorem after_quoted (s : String) (rest : List Char) :
    state.after ((quoted s).toList ++ rest) =
      state.step (.scalar (.string s)) >>= fun next => next.after rest := by
  have hdrop : (s.toList.flatMap escaped ++ '"' :: rest).drop
      ((s.toList.flatMap escaped).length + 1) = rest := by
    rw [← List.drop_drop, List.drop_left]
    rfl
  rw [toList_quoted_append, after_cons (by decide), firstToken?_quoted, Option.bind_eq_bind,
    Option.bind_some, hdrop]

/-- A run of number characters is one token, up to where a word may end. -/
theorem firstToken?_number {c : Char} {run rest : List Char} (hc : c.isDigit = true ∨ c = '-')
    (hrun : ∀ d ∈ run, isNumberChar d = true) (hrest : EndsWord rest) :
    firstToken? c (run ++ rest) =
      (readNumber? (c :: run)).map fun json => (.scalar json, run.length) := by
  have htake := (takeWhile_append_of_head hrun rest fun d hd => (hrest d hd).1).1
  have hbegins : (c.isDigit || c == '-') = true := by simpa using hc
  unfold firstToken?
  split
  · exact absurd hc (by decide)
  · exact absurd hc (by decide)
  · exact absurd hc (by decide)
  · exact absurd hc (by decide)
  · exact absurd hc (by decide)
  · exact absurd hc (by decide)
  · exact absurd hc (by decide)
  · rw [if_pos hbegins, htake]
    dsimp only
    cases readNumber? (c :: run) <;> rfl

theorem after_number {s rest : List Char} (hs : IsNumeric s) (hrest : EndsWord rest) :
    state.after (s ++ rest) = readNumber? s >>= fun json =>
      state.step (.scalar json) >>= fun next => next.after rest := by
  obtain ⟨c, run, rfl, hc, hrun⟩ := hs
  have hblank : ¬ (c = ' ' ∨ c = '\t' ∨ c = '\n' ∨ c = '\r') := by
    rintro (rfl | rfl | rfl | rfl) <;> exact absurd hc (by decide)
  rw [List.cons_append, after_cons hblank, firstToken?_number hc hrun hrest]
  cases readNumber? (c :: run) with
  | none => rfl
  | some json =>
    simp only [Option.map_some, Option.bind_eq_bind, Option.bind_some, List.drop_left]

theorem not_isDigit_of_isAlpha {c : Char} (h : c.isAlpha = true) : c.isDigit = false := by
  rw [← Bool.not_eq_true, Char.isDigit, Bool.and_eq_true, decide_eq_true_eq, decide_eq_true_eq]
  unfold Char.isAlpha Char.isUpper Char.isLower at h
  simp only [Bool.or_eq_true, Bool.and_eq_true, decide_eq_true_eq] at h
  grind

theorem firstToken?_name {c : Char} {run rest : List Char} {json : Json}
    (hletters : (c :: run).all Char.isAlpha = true) (hname : named? (c :: run) = some json)
    (hrest : EndsWord rest) :
    firstToken? c (run ++ rest) = some (.scalar json, run.length) := by
  obtain ⟨hc, hrun⟩ := List.forall_mem_cons.mp (List.all_eq_true.mp hletters)
  have htake := (takeWhile_append_of_head hrun rest fun d hd => (hrest d hd).2).1
  unfold firstToken?
  split
  · exact absurd hc (by decide)
  · exact absurd hc (by decide)
  · exact absurd hc (by decide)
  · exact absurd hc (by decide)
  · exact absurd hc (by decide)
  · exact absurd hc (by decide)
  · exact absurd hc (by decide)
  · -- A letter begins neither punctuation nor a string nor a number.
    have hbegins : ¬ (c.isDigit || c == '-') = true := by
      rw [Bool.or_eq_true, beq_iff_eq]
      rintro (hdigit | rfl)
      · rw [not_isDigit_of_isAlpha hc] at hdigit
        cases hdigit
      · exact absurd hc (by decide)
    rw [if_neg hbegins, htake]
    dsimp only
    rw [hname]
    rfl

theorem after_name (state : ReadState) {c : Char} {run rest : List Char} {json : Json}
    (hletters : (c :: run).all Char.isAlpha = true) (hname : named? (c :: run) = some json)
    (hrest : EndsWord rest) :
    state.after ((c :: run) ++ rest) =
      state.step (.scalar json) >>= fun next => next.after rest := by
  have hc := List.all_eq_true.mp hletters c (List.mem_cons_self ..)
  have hblank : ¬ (c = ' ' ∨ c = '\t' ∨ c = '\n' ∨ c = '\r') := by
    rintro (rfl | rfl | rfl | rfl) <;> exact absurd hc (by decide)
  rw [List.cons_append, after_cons hblank, firstToken?_name hletters hname hrest,
    Option.bind_eq_bind, Option.bind_some, List.drop_left]

end ReadState

end RecordFilter.Json
