import RecordFilter.Operator
import RecordFilter.Proofs.LowerCase
/-!
# Which parts of a text are found

A text test puts the text and the pattern into lower case, each as a whole, and looks for the one in
the other.  A part of a text is found where it stands if its letters have the same small forms there
as on their own.  The capital sigma is the one letter that can fail to (`lowerAmid_eq_lower_iff`):
behind `Α`, the `Σ` of `ΑΣΑ` ends a word as long as the second `Α` is left out.

The beginning and the end of a text have no other place to be found in.  A part in the middle can be
missed where it stands and still be found elsewhere (`textTest_holds_parts_iff`).
-/

namespace RecordFilter

namespace Text

variable {a b c pattern s : List Char}

/-! ### The sigmas of a part -/

/-- A capital sigma between the two texts ends a word: the letter in front of it is cased, and the
    one behind it is not, or is missing. -/
def EndsWord (before after : List Char) : Prop :=
  startsCased before.reverse = true ∧ startsCased after = false

/-- The capital sigmas of `b` that end a word when `a` stands in front and `c` behind are those that
    end one in `b` alone. -/
def KeepsSigmas (a b c : List Char) : Prop :=
  ∀ before after, b = before ++ 'Σ' :: after →
    (EndsWord (a ++ before) (after ++ c) ↔ EndsWord before after)

theorem casedAfter_append (a b : List Char) :
    casedAfter (casedAfter false a) b = startsCased (a ++ b).reverse := by
  rw [← casedAfter_false, casedAfter, casedAfter, casedAfter, List.foldl_append]

/-- Inside a text a part is lowered as it is alone exactly when it keeps its sigmas. -/
theorem lowerAmid_eq_lower_iff :
    lowerAmid (casedAfter false a) c b = lower b ↔ KeepsSigmas a b c := by
  rw [lower, ← lowerAmid_nil, lowerAmid_eq_iff]
  refine forall₂_congr fun before after => imp_congr_right fun _ => ?_
  rw [casedAfter_append, casedAfter_false, List.append_nil, Bool.eq_iff_iff]
  simp [EndsWord]

theorem length_lowerAmid_eq (afterCased : Bool) (behind s : List Char) :
    (lower s).length = (lowerAmid afterCased behind s).length := by
  rw [lower, length_lowerFrom, length_lowerAmid]

/-! ### Beginnings, ends and what lies between -/

theorem lower_isPrefix_iff : lower b <+: lower (b ++ c) ↔ KeepsSigmas [] b c := by
  have hparts : lower (b ++ c) = lowerAmid (casedAfter false []) c b ++
      lowerFrom (casedAfter false b) c := lowerFrom_append false b c
  rw [hparts, ← lowerAmid_eq_lower_iff]
  constructor
  · rintro ⟨rest, heq⟩
    exact (List.append_inj_left heq (length_lowerAmid_eq _ c b)).symm
  · intro hsame
    rw [hsame]
    exact List.prefix_append _ _

theorem lower_isSuffix_iff : lower b <:+ lower (a ++ b) ↔ KeepsSigmas a b [] := by
  have hparts : lower (a ++ b) = lowerAmid false b a ++ lowerAmid (casedAfter false a) [] b := by
    rw [lower, lowerFrom_append, lowerAmid_nil]
  rw [hparts, ← lowerAmid_eq_lower_iff]
  constructor
  · rintro ⟨front, heq⟩
    exact (List.append_inj_right' heq (length_lowerAmid_eq _ [] b)).symm
  · intro hsame
    rw [hsame]
    exact List.suffix_append _ _

/-- The pattern stands in the text behind some number of characters other than `place`. -/
def OccursApartFrom (place : Nat) (pattern s : List Char) : Prop :=
  ∃ front rest, s = front ++ (pattern ++ rest) ∧ front.length ≠ place

theorem occursIn_iff : occursIn pattern s = true ↔ pattern <:+: s := by
  induction s with
  | nil => simp [occursIn]
  | cons c rest ih =>
    rw [occursIn, Bool.or_eq_true, ih, List.isPrefixOf_iff_prefix, List.infix_cons_iff]

/-- A part is found where it stands, if it keeps its sigmas there, or by chance elsewhere. -/
theorem lower_isInfix_iff :
    lower b <:+: lower (a ++ (b ++ c)) ↔
      KeepsSigmas a b c ∨ OccursApartFrom (lower a).length (lower b) (lower (a ++ (b ++ c))) := by
  have hparts : lower (a ++ (b ++ c)) = lowerAmid false (b ++ c) a ++
      (lowerAmid (casedAfter false a) c b ++ lowerFrom (casedAfter (casedAfter false a) b) c) := by
    rw [lower, lowerFrom_append, lowerFrom_append]
  have hfront := length_lowerAmid_eq false (b ++ c) a
  rw [← lowerAmid_eq_lower_iff]
  constructor
  · rintro ⟨front, rest, heq⟩
    rw [List.append_assoc] at heq
    -- The part is found at its own place, or at another one.
    by_cases hplace : front.length = (lower a).length
    · apply Or.inl
      rw [hparts] at heq
      have hbehind := List.append_inj_right heq (hplace.trans hfront)
      exact (List.append_inj_left hbehind (length_lowerAmid_eq _ c b)).symm
    · exact .inr ⟨front, rest, heq.symm, hplace⟩
  · rintro (hsame | ⟨front, rest, heq, -⟩)
    · rw [hparts, hsame, ← List.append_assoc]
      exact List.infix_append _ _ _
    · rw [heq, ← List.append_assoc]
      exact List.infix_append _ _ _

end Text

/-! ### What the tests find -/

/-- **Which parts are found.**  The beginning `b` of a text `b ++ c`, and the end `b` of a text
    `a ++ b`, are found exactly when the capital sigmas of `b` end words in the whole text where they
    do in `b` alone.  What stands in the middle is found under the same condition, or when its small
    letters stand at another place of the text. -/
theorem textTest_holds_parts_iff (a b c : String) :
    (TextTest.startsWith.holds (.text (b ++ c)) (.text b) = true ↔
      Text.KeepsSigmas [] b.toList c.toList) ∧
    (TextTest.endsWith.holds (.text (a ++ b)) (.text b) = true ↔
      Text.KeepsSigmas a.toList b.toList []) ∧
    (TextTest.contains.holds (.text (a ++ b ++ c)) (.text b) = true ↔
      Text.KeepsSigmas a.toList b.toList c.toList ∨
        Text.OccursApartFrom (Text.lowercase a).length (Text.lowercase b).toList
          (Text.lowercase (a ++ b ++ c)).toList) := by
  refine ⟨?_, ?_, ?_⟩
  · rw [← Text.lower_isPrefix_iff, ← List.isPrefixOf_iff_prefix, ← String.toList_append]
    simp [TextTest.holds, Value.startsWith, Text.startsWith, Text.lowercase]
  · rw [← Text.lower_isSuffix_iff, ← List.isSuffixOf_iff_suffix, ← String.toList_append]
    simp [TextTest.holds, Value.endsWith, Text.endsWith, Text.lowercase]
  · have hinfix := Text.lower_isInfix_iff (a := a.toList) (b := b.toList) (c := c.toList)
    rw [← Text.occursIn_iff] at hinfix
    simpa [TextTest.holds, Value.contains, Text.contains, Text.lowercase] using hinfix

/-- The `Σ` of `AΣ` ends a word, and that of `AΣB` does not. -/
theorem textTest_misses_sigma :
    TextTest.startsWith.holds (.text ("AΣ" ++ "B")) (.text "AΣ") = false ∧
      TextTest.endsWith.holds (.text ("A" ++ "Σ")) (.text "Σ") = false ∧
      TextTest.contains.holds (.text ("" ++ "AΣ" ++ "B")) (.text "AΣ") = false := by
  decide +kernel

end RecordFilter
