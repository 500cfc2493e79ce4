import RecordFilter.Proofs.LowerCase
import RecordFilter.Proofs.Runs
import RecordFilter.Text.Fold
/-!
# Folded names

Names are compared trimmed and in lower case.  Trimming leaves a text that shows something at both
ends (`Bare`), lower case keeps it so, and nothing in a folded text can be folded any further
(`fold_fold`).
-/

namespace RecordFilter.Text

open RecordFilter.Token

/-! ### Trimming -/

/-- There is no white space at the ends of the text. -/
def Bare (s : List Char) : Prop :=
  (∀ c ∈ s.head?, isBlank c = false) ∧ ∀ c ∈ s.getLast?, isBlank c = false

theorem trimRight_isPrefix (s : List Char) : trimRight s <+: s := by
  have hsuffix := List.dropWhile_suffix isBlank (l := s.reverse)
  have hprefix := List.reverse_prefix.mpr hsuffix
  rwa [List.reverse_reverse] at hprefix

theorem bare_trim (s : List Char) : Bare (trim s) := by
  constructor
  · intro c hc
    obtain ⟨rest, hrest⟩ := trimRight_isPrefix (trimLeft s)
    apply of_mem_head?_dropWhile (s := s)
    rw [← trimLeft, ← hrest, ← trim, List.head?_append, Option.mem_def.mp hc]
    rfl
  · intro c hc
    rw [trim, trimRight, List.getLast?_reverse] at hc
    exact of_mem_head?_dropWhile hc

theorem dropWhile_isBlank_of_head {s : List Char} (h : ∀ c ∈ s.head?, isBlank c = false) :
    s.dropWhile isBlank = s := by
  cases s with
  | nil => rfl
  | cons c rest => rw [List.dropWhile_cons_of_neg (by simp [h c rfl])]

theorem Bare.trim_eq {s : List Char} (h : Bare s) : trim s = s := by
  have hlast : ∀ c ∈ s.reverse.head?, isBlank c = false := by
    rw [List.head?_reverse]
    exact h.2
  rw [trim, trimLeft, dropWhile_isBlank_of_head h.1, trimRight, dropWhile_isBlank_of_head hlast,
    List.reverse_reverse]

theorem bare_trimmed (s : String) : Bare (trimmed s).toList := by
  rw [trimmed, String.toList_ofList]
  exact bare_trim s.toList

@[simp] theorem trimmed_trimmed (s : String) : trimmed (trimmed s) = trimmed s := by
  simp [trimmed, (bare_trim s.toList).trim_eq]

@[simp] theorem fold_trimmed (s : String) : fold (trimmed s) = fold s := by
  rw [fold, trimmed_trimmed, ← fold]

/-! ### Lower case shows something where the text does -/

theorem not_isBlank_of_isWordChar {c : Char} (h : isWordChar c = true) : isBlank c = false := by
  simp only [isWordChar, Bool.not_eq_true', Bool.or_eq_false_iff] at h
  exact h.1.1.1.2

/-- The small form of a character shows something where the character does. -/
theorem lowerChar_visible {c : Char} (h : isBlank c = false) :
    ∃ d marks, lowerChar c = d :: marks ∧ ∀ e ∈ d :: marks, isBlank e = false := by
  rcases lowerChar_cases c with hsame | ⟨-, hdotted⟩ | ⟨d, hlower, hd⟩
  · exact ⟨c, [], hsame, by simpa using h⟩
  · have hletter : isBlank 'i' = false := by decide
    have hmark : isBlank '\u0307' = false := by decide
    exact ⟨'i', ['\u0307'], hdotted, by simp [hletter, hmark]⟩
  · exact ⟨d, [], hlower, by simpa using not_isBlank_of_isWordChar hd.word.2⟩

/-- White space has no case. -/
theorem lowerChar_of_isBlank {c : Char} (h : isBlank c = true) : lowerChar c = [c] := by
  rcases lowerChar_cases c with hsame | ⟨rfl, -⟩ | ⟨d, -, hd⟩
  · exact hsame
  · exact absurd h (by decide)
  · rw [not_isBlank_of_isWordChar hd.word.1] at h
    cases h

theorem isAllBlank_lowerEach (s : List Char) : isAllBlank (lowerEach s) = isAllBlank s := by
  induction s with
  | nil => rfl
  | cons c rest ih =>
    have hchar : isAllBlank (lowerChar c) = isBlank c := by
      cases hc : isBlank c with
      | true => simp [isAllBlank, lowerChar_of_isBlank hc, hc]
      | false =>
        obtain ⟨d, marks, hsmall, hvisible⟩ := lowerChar_visible hc
        simp [isAllBlank, hsmall, hvisible d (List.mem_cons_self ..)]
    calc isAllBlank (lowerEach (c :: rest))
        = (isAllBlank (lowerChar c) && isAllBlank (lowerEach rest)) := List.all_append
      _ = isAllBlank (c :: rest) := by rw [hchar, ih, isAllBlank, isAllBlank, List.all_cons]

/-- The small forms of a character show something where the character does. -/
theorem small_visible {c sigma : Char} (hsigma : sigma = 'ς' ∨ sigma = 'σ')
    (h : isBlank c = false) :
    ∃ d marks, (if c = 'Σ' then [sigma] else lowerChar c) = d :: marks ∧
      ∀ e ∈ d :: marks, isBlank e = false := by
  by_cases hc : c = 'Σ'
  · rw [if_pos hc]
    have hvisible : isBlank sigma = false := by
      rcases hsigma with rfl | rfl <;> decide
    exact ⟨sigma, [], rfl, by simpa using hvisible⟩
  · rw [if_neg hc]
    exact lowerChar_visible h

theorem head?_lowerFrom (afterCased : Bool) {s : List Char}
    (h : ∀ c ∈ s.head?, isBlank c = false) :
    ∀ c ∈ (lowerFrom afterCased s).head?, isBlank c = false := by
  cases s with
  | nil => exact h
  | cons c rest =>
    obtain ⟨d, marks, hsmall, hvisible⟩ :=
      small_visible (final_or_medial (afterCased && !startsCased rest)) (h c rfl)
    rw [lowerFrom, hsmall]
    simpa using hvisible d (List.mem_cons_self ..)

theorem lowerFrom_cons_ne_nil (afterCased : Bool) (c : Char) (rest : List Char) :
    lowerFrom afterCased (c :: rest) ≠ [] := by
  obtain ⟨d, marks, hsmall, -⟩ :=
    small_eq_cons c _ (final_or_medial (afterCased && !startsCased rest))
  rw [lowerFrom, hsmall]
  simp

theorem getLast?_lowerFrom (afterCased : Bool) {s : List Char}
    (h : ∀ c ∈ s.getLast?, isBlank c = false) :
    ∀ c ∈ (lowerFrom afterCased s).getLast?, isBlank c = false := by
  -- The induction is from the front, where the case of a sigma is decided.
  induction s generalizing afterCased with
  | nil => exact h
  | cons c rest ih =>
    cases rest with
    | nil =>
      obtain ⟨d, marks, hsmall, hvisible⟩ :=
        small_visible (final_or_medial (afterCased && !startsCased [])) (h c rfl)
      rw [lowerFrom, hsmall, lowerFrom, List.append_nil]
      exact fun e he => hvisible e (List.mem_of_getLast? he)
    | cons c' rest =>
      rw [lowerFrom]
      intro e he
      rw [List.getLast?_append, Option.or_of_isSome
        (List.getLast?_isSome.mpr (lowerFrom_cons_ne_nil _ c' rest))] at he
      exact ih _ h e he

theorem Bare.lowerFrom {s : List Char} (h : Bare s) (afterCased : Bool) :
    Bare (lowerFrom afterCased s) :=
  ⟨head?_lowerFrom afterCased h.1, getLast?_lowerFrom afterCased h.2⟩

/-- A text with no blanks around it has none after its characters are lowered. -/
theorem Bare.lowerEach {s : List Char} (h : Bare s) : Bare (lowerEach s) := by
  constructor
  · cases s with
    | nil => exact h.1
    | cons c rest =>
      obtain ⟨d, marks, hsmall, hvisible⟩ := lowerChar_visible (h.1 c rfl)
      rw [Text.lowerEach, List.flatMap_cons, hsmall]
      simpa using hvisible d (List.mem_cons_self ..)
  · rcases List.eq_nil_or_concat s with rfl | ⟨init, c, rfl⟩
    · exact h.2
    · obtain ⟨d, marks, hsmall, hvisible⟩ := lowerChar_visible (h.2 c (by simp))
      rw [Text.lowerEach, List.concat_eq_append, List.flatMap_append, List.flatMap_singleton,
        hsmall]
      intro e he
      rw [List.getLast?_append, Option.or_of_isSome (by simp)] at he
      exact hvisible e (List.mem_of_getLast? he)

/-! ### Folding again -/

theorem toList_fold (s : String) : (fold s).toList = lower (trim s.toList) := by
  simp [fold, lowercase, trimmed]

theorem bare_fold (s : String) : Bare (fold s).toList := by
  rw [toList_fold]
  exact (bare_trim s.toList).lowerFrom false

theorem settled_fold (s : String) : Settled (fold s).toList := by
  rw [toList_fold]
  exact settled_lowerFrom false _

@[simp] theorem fold_fold (s : String) : fold (fold s) = fold s := by
  rw [← String.toList_inj, toList_fold (fold s), (bare_fold s).trim_eq, lower,
    (settled_fold s).lowerFrom_eq]

theorem fold_eq_empty_iff {s : String} : fold s = "" ↔ trimmed s = "" := by
  rw [← String.toList_inj, toList_fold, ← String.toList_inj, trimmed, String.toList_ofList, lower]
  cases trim s.toList with
  | nil => simp [Text.lowerFrom]
  | cons c rest => simpa using lowerFrom_cons_ne_nil false c rest

end RecordFilter.Text
