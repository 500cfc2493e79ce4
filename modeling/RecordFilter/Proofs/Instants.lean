import Mathlib.Tactic.IntervalCases
import RecordFilter.Instant.Reading
import RecordFilter.Proofs.Numerals
/-!
# Dates and the texts of instants

Every day has a date that exists (`isValid_ofDayNumber`) and gives the day back
(`dayNumber_ofDayNumber`).  The complete text of an instant is read as the same instant exactly when
its year has four digits and no sign (`readInternet?_internetText_iff`), leap seconds included.
-/

namespace RecordFilter

namespace Date

/-! ### Years that begin in March -/

/-- The date that is `inYear` days after the first of March of a year. -/
def ofMarch (year : Int) (inYear : Nat) : Date :=
  let shifted := (5 * inYear + 2) / 153
  let day := inYear - daysBeforeMonth shifted + 1
  if shifted < 10 then ⟨year, shifted + 3, day⟩ else ⟨year + 1, shifted - 9, day⟩

/-- The days from the first of March of the year 0 to the first of March of a year. -/
def daysBeforeMarch (year : Int) : Int := 365 * year + year / 4 - year / 100 + year / 400

/-- Days counted from the first of March have consecutive numbers. -/
theorem dayNumber_ofMarch (year : Int) {inYear : Nat} (h : inYear ≤ 365) :
    (ofMarch year inYear).dayNumber = daysBeforeMarch year + inYear - 719468 := by
  have hshifted : (5 * inYear + 2) / 153 ≤ 11 := by omega
  have hdays : daysBeforeMonth ((5 * inYear + 2) / 153) ≤ inYear := by
    rw [daysBeforeMonth]
    omega
  unfold ofMarch
  generalize (5 * inYear + 2) / 153 = shifted at hshifted hdays
  dsimp only
  -- January and February are dated in the next year, but counted with the one before.
  split
  next hspring =>
    have hmonth : (shifted + 3 + 9) % 12 = shifted := by omega
    rw [dayNumber]
    dsimp only
    rw [if_neg (by omega), hmonth, daysBeforeMarch]
    omega
  next hwinter =>
    have hmonth : (shifted - 9 + 9) % 12 = shifted := by omega
    rw [dayNumber]
    dsimp only
    rw [if_pos (by omega), hmonth, Int.add_sub_cancel, daysBeforeMarch]
    omega

/-- A day counted from the first of March is one of the calendar, the last only in a leap year. -/
theorem isValid_ofMarch (year : Int) {inYear : Nat} (h : inYear ≤ 365)
    (hleap : inYear = 365 → isLeapYear (year + 1) = true) :
    (ofMarch year inYear).isValid = true := by
  have hshifted : (5 * inYear + 2) / 153 ≤ 11 := by omega
  unfold ofMarch isValid
  generalize hs : (5 * inYear + 2) / 153 = shifted at hshifted
  -- Only the length of February depends on the year.
  by_cases hfebruary : shifted = 11
  · subst hfebruary
    by_cases hlast : inYear = 365
    · simp [hlast, daysBeforeMonth, daysInMonth, hleap hlast]
    · simp [daysBeforeMonth, daysInMonth]
      split <;> omega
  · have hlt : shifted < 11 := by omega
    interval_cases shifted <;> simp [daysBeforeMonth, daysInMonth] <;> omega

/-- Every day has its era of 400 years, and in it a century, four years, a year and a day. -/
theorem ofDayNumber_eq_ofMarch (n : Int) : ∃ (year : Int) (inYear : Nat),
    ofDayNumber n = ofMarch year inYear ∧ inYear ≤ 365 ∧
      daysBeforeMarch year + inYear = n + 719468 ∧
        (inYear = 365 → isLeapYear (year + 1) = true) := by
  refine ⟨_, _, rfl, ?_⟩
  -- Every quotient gets a name, so that what is left to show is linear in the names.
  generalize hera : (n + 719468) / 146097 = era
  generalize hinEra : ((n + 719468) % 146097).toNat = inEra
  have hday : n + 719468 = 146097 * era + inEra ∧ inEra < 146097 := by omega
  generalize hcentury : min 3 (inEra / 36524) = century
  generalize hinCentury : inEra - century * 36524 = inCentury
  have hcenturies : inEra = 36524 * century + inCentury ∧ century ≤ 3 ∧ inCentury ≤ 36524 ∧
      (inCentury = 36524 → century = 3) := by omega
  generalize hcycle : inCentury / 1461 = cycle
  generalize hinCycle : inCentury % 1461 = inCycle
  have hcycles : inCentury = 1461 * cycle + inCycle ∧ cycle ≤ 24 ∧ inCycle ≤ 1460 := by omega
  generalize hyear : min 3 (inCycle / 365) = year
  generalize hinYear : inCycle - year * 365 = inYear
  have hyears : inCycle = 365 * year + inYear ∧ year ≤ 3 ∧ inYear ≤ 365 ∧
      (inYear = 365 → year = 3) := by omega
  clear hera hinEra hcentury hinCentury hcycle hinCycle hyear hinYear
  refine ⟨by omega, ?_, ?_⟩
  · have hfour : (era * 400 + (century * 100 + cycle * 4 + year : Nat)) / 4 =
        100 * era + 25 * century + cycle := by omega
    have hhundred : (era * 400 + (century * 100 + cycle * 4 + year : Nat)) / 100 =
        4 * era + century := by omega
    have hfourHundred : (era * 400 + (century * 100 + cycle * 4 + year : Nat)) / 400 = era := by
      omega
    rw [daysBeforeMarch, hfour, hhundred, hfourHundred]
    omega
  · intro hlast
    simp [isLeapYear]
    omega

theorem dayNumber_ofDayNumber (n : Int) : (ofDayNumber n).dayNumber = n := by
  obtain ⟨year, inYear, hdate, hinYear, hday, -⟩ := ofDayNumber_eq_ofMarch n
  rw [hdate, dayNumber_ofMarch year hinYear]
  omega

theorem isValid_ofDayNumber (n : Int) : (ofDayNumber n).isValid = true := by
  obtain ⟨year, inYear, hdate, hinYear, -, hleap⟩ := ofDayNumber_eq_ofMarch n
  rw [hdate, isValid_ofMarch year hinYear hleap]

theorem isValid_bounds {d : Date} (h : d.isValid = true) : d.month < 100 ∧ d.day < 100 := by
  have hlength : daysInMonth d.year d.month ≤ 31 := by
    unfold daysInMonth
    split
    · split <;> decide
    all_goals decide
  simp only [isValid, Bool.and_eq_true, decide_eq_true_eq] at h
  omega

end Date

namespace Instant

/-! ### The fields of an instant -/

theorem of?_self (t : Instant) : of? t.seconds t.nanos = some t :=
  dif_pos ⟨t.nanos_lt, t.leap, t.seconds_ge, t.seconds_le⟩

theorem timeOfDay_bounds (t : Instant) :
    t.timeOfDay.hour < 24 ∧ t.timeOfDay.minute < 60 ∧ t.timeOfDay.second ≤ 60 := by
  unfold timeOfDay
  dsimp only
  refine ⟨by omega, by omega, ?_⟩
  split <;> omega

theorem isValid_date (t : Instant) : t.date.isValid = true := Date.isValid_ofDayNumber _

theorem date_bounds (t : Instant) : t.date.month < 100 ∧ t.date.day < 100 :=
  Date.isValid_bounds t.isValid_date

/-- An instant is found again at its date and time; a leap second is the second 60. -/
theorem ofCivil?_civil (t : Instant) :
    ofCivil? t.date t.timeOfDay (t.nanos % 1000000000) 0 = some t := by
  obtain ⟨hhour, hminute, hsecond⟩ := t.timeOfDay_bounds
  have hnumber : t.date.dayNumber = t.seconds / 86400 := Date.dayNumber_ofDayNumber _
  have hnanos := t.nanos_lt
  have hleap := t.leap
  rw [ofCivil?, if_pos (by simp [t.isValid_date, hhour, hminute, hsecond]), hnumber]
  dsimp only
  -- The second 60 of a leap second counts as the 59th, with a whole second of fraction.
  have hseconds : t.seconds / 86400 * 86400 + (t.timeOfDay.hour * 3600 + t.timeOfDay.minute * 60 +
      min t.timeOfDay.second 59 : Nat) - 0 * 60 = t.seconds := by
    unfold timeOfDay
    dsimp only
    split <;> omega
  have hfraction : (if t.timeOfDay.second = 60 then t.nanos % 1000000000 + 1000000000
      else t.nanos % 1000000000) = t.nanos := by
    unfold timeOfDay
    dsimp only
    split <;> split at * <;> omega
  rw [hfraction, hseconds, of?_self]

/-! ### Reading the fields -/

/-- A number is read to its end, which is where no digits follow or no more are taken. -/
theorem readDigits?_append {least most : Nat} {digits rest : List Char}
    (hdigits : ∀ c ∈ digits, c.isDigit = true) (hleast : least ≤ digits.length)
    (hmost : digits.length ≤ most)
    (hrest : digits.length = most ∨ ∀ c ∈ rest.head?, c.isDigit = false) :
    readDigits? least most (digits ++ rest) = some (Numeral.value digits, rest) := by
  have htake : ((digits ++ rest).take most).takeWhile Char.isDigit = digits := by
    -- The digits stop because enough were read, or because something else follows.
    have hnone : ∀ c ∈ (rest.take (most - digits.length)).head?, c.isDigit = false := by
      rcases hrest with hfull | hstop
      · simp [hfull]
      · intro c hc
        rw [List.head?_take] at hc
        split at hc
        next => cases hc
        next => exact hstop c hc
    rw [List.take_append, List.take_of_length_le hmost]
    exact (takeWhile_append_of_head hdigits _ hnone).1
  rw [readDigits?, htake]
  simp [hleast]

theorem readDigits?_padded {n least width : Nat} (hleast : least ≤ width) (hwidth : 0 < width)
    (h : n < 10 ^ width) (rest : List Char) :
    readDigits? least width (Numeral.padded n width ++ rest) = some (n, rest) := by
  have hlength := Numeral.length_padded hwidth h
  rw [readDigits?_append (fun _ => Numeral.isDigit_of_mem_padded) (by omega) (by omega)
    (.inl hlength), Numeral.value_padded]

theorem readFraction?_padded {n width : Nat} (hwidth : 0 < width) (hnine : width ≤ 9)
    (h : n < 10 ^ width) :
    readFraction? ('.' :: (Numeral.padded n width ++ ['Z'])) =
      some (n * 10 ^ (9 - width), ['Z']) := by
  have hlength := Numeral.length_padded hwidth h
  have hlead : Numeral.leadingDigits (Numeral.padded n width ++ ['Z']) =
      (Numeral.padded n width, ['Z']) :=
    Numeral.leadingDigits_append (fun _ => Numeral.isDigit_of_mem_padded) (by simp)
  have hkept : (Numeral.padded n width).take 9 = Numeral.padded n width :=
    List.take_of_length_le (by omega)
  have hne : Numeral.padded n width ≠ [] := List.ne_nil_of_length_pos (by omega)
  rw [readFraction?, hlead]
  dsimp only
  rw [hkept, if_neg (by simpa using hne), Numeral.value_padded, hlength]
  rfl

theorem readFraction?_fractionText {nanos : Nat} (h : nanos < 1000000000) :
    readFraction? (fractionText nanos ++ ['Z']) = some (nanos, ['Z']) := by
  unfold fractionText
  split
  next hzero => 
    subst hzero
    rfl
  next =>
    split
    next hmilli =>
      rw [List.cons_append, readFraction?_padded (by decide) (by decide) (by omega)]
      simp
      omega
    next =>
      split
      next hmicro =>
        rw [List.cons_append, readFraction?_padded (by decide) (by decide) (by omega)]
        simp
        omega
      next =>
        rw [List.cons_append, readFraction?_padded (by decide) (by decide) (by omega)]
        simp

/-! ### The complete text -/

theorem bind_of_eq {α β : Type} {x : Option α} {a : α} {f : α → Option β} (h : x = some a) :
    x >>= f = f a := by
  rw [h]
  rfl

theorem readChar?_cons (c : Char) (rest : List Char) : readChar? c (c :: rest) = some rest :=
  if_pos rfl

/-- A date and a time are read in full, and then what follows them. -/
theorem readInternet?_fields {year month day hour minute second : Nat} {separator : Char}
    (hseparator : separator = 'T' ∨ separator = ' ') (hyear : year < 10000) (hmonth : month < 100)
    (hday : day < 100) (hhour : hour < 100) (hminute : minute < 100) (hsecond : second < 100)
    (rest : List Char) :
    readInternet? (Numeral.padded year 4 ++ '-' :: (Numeral.padded month 2 ++ '-' ::
      (Numeral.padded day 2 ++ separator :: (Numeral.padded hour 2 ++ ':' ::
        (Numeral.padded minute 2 ++ ':' :: (Numeral.padded second 2 ++ rest)))))) = (do
      let (nanos, s) ← readFraction? rest
      let (offset, s) ← readOffset? s
      if s.isEmpty then ofCivil? ⟨year, month, day⟩ ⟨hour, minute, second⟩ nanos offset
      else none) := by
  have hseparated : ∀ s, (readChar? 'T' (separator :: s) <|> readChar? 't' (separator :: s) <|>
      readChar? ' ' (separator :: s)) = some s := by
    rcases hseparator with rfl | rfl <;> exact fun _ => rfl
  -- The reader is run field by field: `simp` would go through the whole rest at every step.
  unfold readInternet?
  refine (bind_of_eq (readDigits?_padded le_rfl (by decide) hyear _)).trans ?_
  refine (bind_of_eq (readChar?_cons '-' _)).trans ?_
  refine (bind_of_eq (readDigits?_padded le_rfl (by decide) hmonth _)).trans ?_
  refine (bind_of_eq (readChar?_cons '-' _)).trans ?_
  refine (bind_of_eq (readDigits?_padded le_rfl (by decide) hday _)).trans ?_
  refine (bind_of_eq (hseparated _)).trans ?_
  refine (bind_of_eq (readDigits?_padded le_rfl (by decide) hhour _)).trans ?_
  refine (bind_of_eq (readChar?_cons ':' _)).trans ?_
  refine (bind_of_eq (readDigits?_padded le_rfl (by decide) hminute _)).trans ?_
  refine (bind_of_eq (readChar?_cons ':' _)).trans ?_
  exact bind_of_eq (readDigits?_padded le_rfl (by decide) hsecond _)

theorem readInternet?_sign {c : Char} (hc : c.isDigit = false) (rest : List Char) :
    readInternet? (c :: rest) = none := by
  have hnone : readDigits? 4 4 (c :: rest) = none := by
    simp [readDigits?, hc]
  rw [readInternet?, hnone]
  rfl

/-- A date is read as it is written when its year has no sign, and so is the time behind it. -/
theorem readInternet?_text {d : Date} {time : TimeOfDay} {separator : Char}
    (hdate : d.month < 100 ∧ d.day < 100)
    (htime : time.hour < 24 ∧ time.minute < 60 ∧ time.second ≤ 60)
    (hseparator : separator = 'T' ∨ separator = ' ') (rest : List Char) :
    readInternet? (dateText d ++ separator :: (timeText time ++ rest)) =
      if 0 ≤ d.year ∧ d.year ≤ 9999 then (do
        let (nanos, s) ← readFraction? rest
        let (offset, s) ← readOffset? s
        if s.isEmpty then ofCivil? d time nanos offset else none)
      else none := by
  obtain ⟨hmonth, hday⟩ := hdate
  obtain ⟨hhour, hminute, hsecond⟩ := htime
  by_cases hyear : 0 ≤ d.year ∧ d.year ≤ 9999
  · have htext : dateText d ++ separator :: (timeText time ++ rest) =
        Numeral.padded d.year.natAbs 4 ++ '-' :: (Numeral.padded d.month 2 ++ '-' ::
          (Numeral.padded d.day 2 ++ separator :: (Numeral.padded time.hour 2 ++ ':' ::
            (Numeral.padded time.minute 2 ++ ':' :: (Numeral.padded time.second 2 ++ rest))))) := by
      simp [dateText, yearText, timeText, hyear]
    have hnatAbs : (d.year.natAbs : Int) = d.year := by omega
    rw [if_pos hyear, htext, readInternet?_fields hseparator (by omega) hmonth hday (by omega)
      (by omega) (by omega), hnatAbs]
  · -- Another year has a sign in front, at which the reader of digits stops.
    have hsign : (if d.year < 0 then '-' else '+').isDigit = false := by
      split <;> decide
    rw [if_neg hyear, dateText, yearText, if_neg hyear]
    simp only [List.cons_append, readInternet?_sign hsign]

/-- An instant comes back from its internet text exactly when its year has four digits. -/
theorem readInternet?_internetText_iff (t : Instant) :
    readInternet? t.internetText.toList = some t ↔ 0 ≤ t.date.year ∧ t.date.year ≤ 9999 := by
  have htext : t.internetText.toList = dateText t.date ++ 'T' :: (timeText t.timeOfDay ++
      (fractionText (t.nanos % 1000000000) ++ ['Z'])) := by
    simp [internetText]
  have hnanos : t.nanos % 1000000000 < 1000000000 := Nat.mod_lt _ (by decide)
  have hoffset : readOffset? ['Z'] = some (0, []) := rfl
  rw [htext, readInternet?_text t.date_bounds t.timeOfDay_bounds (.inl rfl)]
  split
  next hyear =>
    refine iff_of_true ?_ hyear
    refine (bind_of_eq (readFraction?_fractionText hnanos)).trans ?_
    refine (bind_of_eq hoffset).trans ?_
    exact (if_pos rfl).trans t.ofCivil?_civil
  next hyear => exact iff_of_false nofun hyear

end Instant

end RecordFilter
