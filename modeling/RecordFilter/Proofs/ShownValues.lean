import RecordFilter.Proofs.Comparing
import RecordFilter.Proofs.Instants
import RecordFilter.Proofs.Literals
/-!
# Values read from the texts that show them

The text that shows a value is read, as a value of its type, to be the same value again, as long as
the text says all of the value (`Value.ofLiteral_shown_iff`): an instant is shown to the second, so
that it is read as its whole second (`Instant.read?_shown`), and a float that is no number is not
read at all.  Of the forms an instant is read in, the complete one is tried first.  It does not fit,
since it ends in an offset or because of the sign of a year, and the next one does.
-/

namespace RecordFilter

namespace Instant

/-! ### Fields that white space may precede -/

theorem trimLeft_padded {n width : Nat} (hwidth : 0 < width) (rest : List Char) :
    Text.trimLeft (Numeral.padded n width ++ rest) = Numeral.padded n width ++ rest := by
  obtain ⟨c, digits, heq, hc⟩ := Numeral.exists_padded_eq_cons n hwidth
  rw [heq, List.cons_append, Text.trimLeft,
    Text.dropWhile_isBlank_of_head (by simpa using isBlank_of_isDigit hc)]

theorem exists_yearText_eq_cons (year : Int) :
    ∃ c rest, yearText year = c :: rest ∧ Text.isBlank c = false := by
  rw [yearText]
  split
  next =>
    obtain ⟨c, digits, heq, hc⟩ := Numeral.exists_padded_eq_cons year.natAbs (Nat.succ_pos 3)
    exact ⟨c, digits, heq, isBlank_of_isDigit hc⟩
  next =>
    refine ⟨_, _, rfl, ?_⟩
    split <;> decide

theorem readField?_padded {n : Nat} (h : n < 100) (rest : List Char) :
    readField? (Numeral.padded n 2 ++ rest) = some (n, rest) := by
  rw [readField?, trimLeft_padded (by decide), readDigits?_padded (by decide) (by decide) h]

/-- A year is read from its text: it has a sign, or it has four digits. -/
theorem readYear?_yearText (year : Int) {rest : List Char}
    (hrest : ∀ c ∈ rest.head?, c.isDigit = false) :
    readYear? (yearText year ++ rest) = some (year, rest) := by
  have hdigits : ∀ c ∈ Numeral.padded year.natAbs 4, c.isDigit = true := fun _ =>
    Numeral.isDigit_of_mem_padded
  have hwidth := Numeral.le_length_padded year.natAbs 4
  -- Up to four digits are read without a sign, and all that follow with one.
  by_cases hplain : 0 ≤ year ∧ year ≤ 9999
  · have hnatAbs : (year.natAbs : Int) = year := by omega
    obtain ⟨c, digits, heq, hc⟩ := Numeral.exists_padded_eq_cons year.natAbs (Nat.succ_pos 3)
    have hminus : c ≠ '-' := by
      rintro rfl
      exact absurd hc (by decide)
    have hplus : c ≠ '+' := by
      rintro rfl
      exact absurd hc (by decide)
    have hread : readDigits? 1 4 (Numeral.padded year.natAbs 4 ++ rest) =
        some (year.natAbs, rest) := readDigits?_padded (by decide) (by decide) (by omega) rest
    rw [yearText, if_pos hplain, readYear?, trimLeft_padded (by decide), heq, List.cons_append]
    rw [heq, List.cons_append] at hread
    simp [hminus, hplus, hread, hnatAbs]
  · have hread : readDigits? 1 (Numeral.padded year.natAbs 4 ++ rest).length
        (Numeral.padded year.natAbs 4 ++ rest) = some (year.natAbs, rest) := by
      rw [readDigits?_append hdigits (by omega) (by simp) (.inr hrest), Numeral.value_padded]
    rw [yearText, if_neg hplain, List.cons_append]
    by_cases hnegative : year < 0
    · have hyear : readYear? ('-' :: (Numeral.padded year.natAbs 4 ++ rest)) =
          (readDigits? 1 (Numeral.padded year.natAbs 4 ++ rest).length
            (Numeral.padded year.natAbs 4 ++ rest)).map fun read => (-(read.1 : Int), read.2) := rfl
      have hnatAbs : -(year.natAbs : Int) = year := by omega
      rw [if_pos hnegative, hyear, hread]
      exact congrArg (fun n : Int => some (n, rest)) hnatAbs
    · have hyear : readYear? ('+' :: (Numeral.padded year.natAbs 4 ++ rest)) =
          (readDigits? 1 (Numeral.padded year.natAbs 4 ++ rest).length
            (Numeral.padded year.natAbs 4 ++ rest)).map fun read => ((read.1 : Int), read.2) := rfl
      have hnatAbs : (year.natAbs : Int) = year := by omega
      rw [if_neg hnegative, hyear, hread]
      exact congrArg (fun n : Int => some (n, rest)) hnatAbs

theorem readDate?_dateText {d : Date} (hmonth : d.month < 100) (hday : d.day < 100)
    (rest : List Char) : readDate? (dateText d ++ rest) = some (d, rest) := by
  have htext : dateText d ++ rest = yearText d.year ++ '-' :: (Numeral.padded d.month 2 ++ '-' ::
      (Numeral.padded d.day 2 ++ rest)) := by
    simp [dateText]
  rw [htext]
  unfold readDate?
  refine (bind_of_eq (readYear?_yearText d.year (by simp))).trans ?_
  refine (bind_of_eq (readChar?_cons '-' _)).trans ?_
  refine (bind_of_eq (readField?_padded hmonth _)).trans ?_
  refine (bind_of_eq (readChar?_cons '-' _)).trans ?_
  exact bind_of_eq (readField?_padded hday _)

theorem readTime?_timeText {t : TimeOfDay} (hhour : t.hour < 100) (hminute : t.minute < 100)
    (hsecond : t.second < 100) (rest : List Char) :
    readTime? (timeText t ++ rest) = some (t, rest) := by
  have htext : timeText t ++ rest = Numeral.padded t.hour 2 ++ ':' :: (Numeral.padded t.minute 2 ++
      ':' :: (Numeral.padded t.second 2 ++ rest)) := by
    simp [timeText]
  rw [htext]
  unfold readTime?
  refine (bind_of_eq (readField?_padded hhour _)).trans ?_
  refine (bind_of_eq (readChar?_cons ':' _)).trans ?_
  refine (bind_of_eq (readField?_padded hminute _)).trans ?_
  refine (bind_of_eq (readChar?_cons ':' _)).trans ?_
  exact bind_of_eq (readField?_padded hsecond _)

/-! ### The text of a date and a time -/

variable {d : Date} {time : TimeOfDay}

theorem bare_dateTimeText (d : Date) (time : TimeOfDay) :
    Text.Bare (dateText d ++ ' ' :: timeText time) := by
  constructor
  · obtain ⟨c, rest, hyear, hc⟩ := exists_yearText_eq_cons d.year
    rw [dateText, hyear]
    simpa using hc
  · have hsplit : dateText d ++ ' ' :: timeText time = (dateText d ++ ' ' ::
        (Numeral.padded time.hour 2 ++ ':' :: (Numeral.padded time.minute 2 ++ [':']))) ++
          Numeral.padded time.second 2 := by
      simp [timeText]
    have hne : Numeral.padded time.second 2 ≠ [] := by
      have hwidth := Numeral.le_length_padded time.second 2
      exact List.ne_nil_of_length_pos (by omega)
    rw [hsplit, List.getLast?_append_of_ne_nil _ hne]
    exact fun c hc => isBlank_of_isDigit (Numeral.isDigit_of_mem_padded (List.mem_of_getLast? hc))

/-- The complete form does not fit: it has an offset at its end, and no sign in front of the year. -/
theorem readInternet?_dateTimeText (hdate : d.month < 100 ∧ d.day < 100)
    (htime : time.hour < 24 ∧ time.minute < 60 ∧ time.second ≤ 60) :
    readInternet? (dateText d ++ ' ' :: timeText time) = none := by
  have hread := readInternet?_text hdate htime (.inr rfl) []
  rw [List.append_nil] at hread
  rw [hread]
  split <;> rfl

theorem readDateTime?_dateTimeText (hdate : d.month < 100 ∧ d.day < 100)
    (htime : time.hour < 24 ∧ time.minute < 60 ∧ time.second ≤ 60) :
    readDateTime? (some ∘ Text.trimLeft) (dateText d ++ ' ' :: timeText time) =
      ofCivil? d time 0 0 := by
  have hseparate : (some ∘ Text.trimLeft) (' ' :: timeText time) = some (timeText time) := by
    have hblank : Text.trimLeft (' ' :: timeText time) = Text.trimLeft (timeText time) := rfl
    rw [Function.comp_apply, hblank, timeText, List.append_assoc, trimLeft_padded (by decide)]
  have hread := readTime?_timeText (t := time) (by omega) (by omega) (by omega) []
  rw [List.append_nil] at hread
  unfold readDateTime?
  refine (bind_of_eq (readDate?_dateText hdate.1 hdate.2 _)).trans ?_
  refine (bind_of_eq hseparate).trans ?_
  exact bind_of_eq hread

/-! ### The text that shows an instant -/

/-- The instant without its fraction of a second; a leap second remains one. -/
def wholeSecond (t : Instant) : Instant where
  seconds := t.seconds
  nanos := t.nanos - t.nanos % 1000000000
  nanos_lt := (Nat.sub_le ..).trans_lt t.nanos_lt
  leap := fun h => t.leap (h.trans (Nat.sub_le ..))
  seconds_ge := t.seconds_ge
  seconds_le := t.seconds_le

theorem wholeSecond_eq_self_iff {t : Instant} :
    t.wholeSecond = t ↔ t.nanos % 1000000000 = 0 := by
  have hle := Nat.mod_le t.nanos 1000000000
  obtain ⟨seconds, nanos, nanos_lt, leap, seconds_ge, seconds_le⟩ := t
  simp only [wholeSecond, Instant.mk.injEq, true_and]
  omega

/-- The date and the time of day of an instant give it back without its fraction. -/
theorem ofCivil?_wholeSecond (t : Instant) :
    ofCivil? t.date t.timeOfDay 0 0 = some t.wholeSecond := by
  have htime : t.wholeSecond.timeOfDay = t.timeOfDay := by
    have hleap : t.nanos - t.nanos % 1000000000 < 1000000000 ↔ t.nanos < 1000000000 := by omega
    simp only [timeOfDay, wholeSecond, hleap]
  have hnanos : t.wholeSecond.nanos % 1000000000 = 0 := by
    have hwhole : t.wholeSecond.nanos = t.nanos - t.nanos % 1000000000 := rfl
    omega
  have hcivil := t.wholeSecond.ofCivil?_civil
  rwa [hnanos, htime] at hcivil

theorem toList_shown (t : Instant) :
    t.shown.toList = dateText t.date ++ ' ' :: timeText t.timeOfDay := by
  rw [shown, String.toList_ofList]

/-- The text that shows an instant is read as its whole second. -/
theorem read?_shown (t : Instant) : read? t.shown.toList = some t.wholeSecond := by
  rw [toList_shown, read?, readInternet?_dateTimeText t.date_bounds t.timeOfDay_bounds,
    readDateTime?_dateTimeText t.date_bounds t.timeOfDay_bounds, ofCivil?_wholeSecond]
  rfl

end Instant

namespace Value

/-! ### The texts that show values -/

/-- Whether the text that shows a value says all of it.  An instant is shown to the second, a float
    may be no number, and the text of null stands for no value of any type. -/
def isShownWhole : Value → Bool
  | null => false
  | float x => x.isFinite
  | dateTime t => t.nanos % 1000000000 == 0
  | text _ | integer _ | boolean _ | columnType _ => true

theorem read?_integer_shown (n : Int64) : read? (integer n).shown .integer = some (integer n) := by
  have htext := integer_text n.toInt
  rw [shown, read?, (number_text htext.1 htext.2).2.2, Numeral.readInt64?_toString]
  rfl

theorem read?_float_shown {x : Binary64} (h : x.isFinite = true) :
    read? (float x).shown .float = some (float x) := by
  have htext := float_text h
  rw [shown, read?, (number_text htext.1 htext.2).2.2, Binary64.read?_shown h, Option.filter_some,
    if_pos h]
  rfl

theorem read?_float_shown_of_not_isFinite {x : Binary64} (h : x.isFinite = false) :
    read? (float x).shown .float = none := by
  cases x with
  | nan => decide +kernel
  | infinite negative => cases negative <;> decide +kernel
  | finite negative m => cases h

theorem read?_dateTime_shown (t : Instant) :
    read? (dateTime t).shown .dateTime = some (dateTime t.wholeSecond) := by
  have htrim : Text.trim t.shown.toList = t.shown.toList := by
    rw [t.toList_shown]
    exact (Instant.bare_dateTimeText _ _).trim_eq
  rw [shown, read?, htrim, t.read?_shown, Option.map_some]

theorem read?_boolean_shown (b : Bool) : read? (boolean b).shown .boolean = some (boolean b) := by
  cases b <;> decide +kernel

theorem read?_columnType_shown (type : ColumnType) :
    read? (columnType type).shown .columnType = some (columnType type) := by
  cases type <;> decide +kernel

/-! ### Equal values -/

theorem equals_self {v : Value} (h : v ≠ null) : v.equals v = true := by
  rw [equals, compare_eq_order h h, order_self]
  rfl

theorem equals_dateTime_iff {t u : Instant} : (dateTime t).equals (dateTime u) = true ↔ t = u := by
  have hcompare : (dateTime t).compare (dateTime u) = some (t.compare u) := rfl
  rw [equals, hcompare, beq_iff_eq, Option.some.injEq, Instant.compare, Ordering.then_eq_eq,
    compare_eq_iff_eq, compare_eq_iff_eq]
  cases t
  cases u
  simp

/-! ### Reading them -/

/-- A value that is shown whole is itself read from its text. -/
theorem exists_read?_shown {v : Value} (h : v.isShownWhole = true) :
    ∃ type, v.type? = some type ∧ read? v.shown type = some v := by
  cases v with
  | null => cases h
  | text s => exact ⟨.text, rfl, rfl⟩
  | integer n => exact ⟨.integer, rfl, read?_integer_shown n⟩
  | float x => exact ⟨.float, rfl, read?_float_shown h⟩
  | dateTime t =>
    have hwhole : t.wholeSecond = t := Instant.wholeSecond_eq_self_iff.mpr (beq_iff_eq.mp h)
    refine ⟨.dateTime, rfl, ?_⟩
    rw [read?_dateTime_shown, hwhole]
  | boolean b => exact ⟨.boolean, rfl, read?_boolean_shown b⟩
  | columnType type => exact ⟨.columnType, rfl, read?_columnType_shown type⟩

/-- An equal value is read only from a text that says all. -/
theorem isShownWhole_of_read?_shown {v w : Value} {type : ColumnType}
    (htype : v.type? = some type) (hread : read? v.shown type = some w)
    (hequal : w.equals v = true) : v.isShownWhole = true := by
  -- Only floats and dates can be shown with a loss.
  cases v with
  | null => cases htype
  | float x =>
    obtain rfl := Option.some.inj htype
    cases hfinite : x.isFinite with
    | true => exact hfinite
    | false =>
      rw [read?_float_shown_of_not_isFinite hfinite] at hread
      cases hread
  | dateTime t =>
    obtain rfl := Option.some.inj htype
    rw [read?_dateTime_shown] at hread
    obtain rfl := Option.some.inj hread
    rw [equals_dateTime_iff, Instant.wholeSecond_eq_self_iff] at hequal
    exact beq_iff_eq.mpr hequal
  | text _ | integer _ | boolean _ | columnType _ => rfl

/-- **Shown values read back.**  The text that shows a value is read, as a value of its type, to be
    an equal value, exactly when it says all of the value.  Texts, integers, booleans and column
    types are always shown whole, and instants when they stand on a whole second, which may be a
    leap second, in every year there is. -/
theorem ofLiteral_shown_iff (v : Value) :
    v.isShownWhole = true ↔
      ∃ type w, v.type? = some type ∧ ofLiteral v.shown type = .ok w ∧ w.type? = some type ∧
        w.equals v = true := by
  constructor
  · intro h
    obtain ⟨type, htype, hread⟩ := exists_read?_shown h
    exact ⟨type, v, htype, ofLiteral_of_read hread, htype, equals_self (ne_null_of_read hread)⟩
  · rintro ⟨type, w, htype, hread, -, hequal⟩
    exact isShownWhole_of_read?_shown htype (read_of_ofLiteral hread) hequal

end Value

end RecordFilter
