import RecordFilter.Proofs.Compilation
import RecordFilter.Proofs.Reading
import RecordFilter.Proofs.Splitting
import RecordFilter.Session
/-!
# Adding a filter

A filter that is added to another accepts what both accept.  The same can be written down: the two
texts in parentheses with `&&` between them.  `ofText_conjunction` says that it comes to the same,
columns and text included.  Three steps lead there: the text in parentheses has the tokens of the
text between two parentheses, two groups with `&&` between them are read as the conjunction of what
they are read as, and the conjunction is compiled to what the parts are compiled to.

The quotes of both texts have to be closed.  A quote that is not closed would take in the
parenthesis behind it.
-/

namespace RecordFilter

open RecordFilter.Filter Grammar Token

/-! ### The text of a conjunction -/

def conjunction (first second : String) : String := "(" ++ first ++ ") && (" ++ second ++ ")"

theorem toList_conjunction (first second : String) :
    (conjunction first second).toList =
      '(' :: (first.toList ++ ')' :: ([' ', '&', '&', ' '] ++
        '(' :: (second.toList ++ ')' :: []))) := by
  simp [conjunction, String.toList_append]

/-- A conjunction splits into the tokens of its parts, with those that join them in between. -/
theorem writtenTokens_conjunction {first second : String} (hfirst : QuotesClosed first.toList)
    (hsecond : QuotesClosed second.toList) :
    writtenTokens (conjunction first second).toList =
      ("(", false) :: (writtenTokens first.toList ++ (")", false) :: ("&&", false) ::
        ("(", false) :: (writtenTokens second.toList ++ [(")", false)])) := by
  have hand : writtenTokens [' ', '&', '&', ' '] = [("&&", false)] := by decide +kernel
  have hnil : writtenTokens [] = [] := writtenTokens_blank (by simp)
  have hclosed : QuotesClosed [' ', '&', '&', ' '] := .of_count (by decide)
  have hseam : Seam [' ', '&', '&', ' '] ('(' :: (second.toList ++ ')' :: [])) :=
    .of_head (by simpa using isRunChar_of_paren (.inl rfl))
  rw [toList_conjunction, writtenTokens_group hfirst, writtenTokens_append hclosed hseam,
    writtenTokens_group hsecond, hand, hnil]
  rfl

theorem quotesClosed_conjunction {first second : String} (hfirst : QuotesClosed first.toList)
    (hsecond : QuotesClosed second.toList) : QuotesClosed (conjunction first second).toList := by
  rw [toList_conjunction]
  unfold QuotesClosed at *
  simp [List.count_append]
  omega

/-! ### Groups in the grammar -/

variable {schema : Schema}

/-- A token outside quotes, whose position does not matter. -/
def Token.mark (text : String) : Token := ⟨text, 0, false⟩

theorem Grammar.Derives.connect_groups {left right : List Token} {a b : Expr}
    (hleft : Derives schema .expr left a) (hright : Derives schema .expr right b)
    (op : Connective) :
    Derives schema .expr
      (mark "(" :: (left ++ mark ")" :: mark op.symbol :: mark "(" :: (right ++ [mark ")"])))
      (.binary (.connective op) a b) := by
  have hop : (mark op.symbol).IsOperator (.connective op) := ⟨rfl, rfl⟩
  have hoperand : Derives schema .operand (mark "(" :: (left ++ [mark ")"])) a :=
    .group (by decide) hleft (by decide)
  have hgroup : Derives schema (.right a (.connective op)) (mark "(" :: (right ++ [mark ")"]))
      (.binary (.connective op) a b) :=
    .rightGroup (by decide) hright (by decide) .stops
  have hexpr := hoperand.expr_of_operand (.tail_of_right hop hgroup)
  rwa [List.cons_append, List.append_assoc, List.singleton_append] at hexpr

/-- The conjunction of two texts reads as the connective over what the texts read as. -/
theorem ofCommand_conjunction {first second : String} {a b : Expr}
    (hfirst : QuotesClosed first.toList) (hsecond : QuotesClosed second.toList)
    (ha : Expr.ofCommand schema (Command.ofText first) = .ok a) (hane : a ≠ .empty)
    (hb : Expr.ofCommand schema (Command.ofText second) = .ok b) (hbne : b ≠ .empty) :
    Expr.ofCommand schema (Command.ofText (conjunction first second)) =
      .ok (.binary (.connective .and) a b) := by
  have hleft := (ofCommand_eq_ok_iff_derives hane).mp ha
  have hright := (ofCommand_eq_ok_iff_derives hbne).mp hb
  -- The grammar does not look at positions, so tokens that are written alike will do.
  have hwritten : (Command.ofText (conjunction first second)).tokens.map written =
      (mark "(" :: ((Command.ofText first).tokens ++ mark ")" :: mark Connective.and.symbol ::
        mark "(" :: ((Command.ofText second).tokens ++ [mark ")"]))).map written := by
    rw [written_ofText_of_closed (quotesClosed_conjunction hfirst hsecond),
      writtenTokens_conjunction hfirst hsecond, ← written_ofText_of_closed hfirst,
      ← written_ofText_of_closed hsecond]
    simp [mark, written, Connective.symbol]
  have hderives : Derives schema .expr (Command.ofText (conjunction first second)).tokens
      (.binary (.connective .and) a b) :=
    (hleft.connect_groups hright .and).of_written_eq hwritten
  exact (ofCommand_eq_ok_iff_derives (by simp)).mpr hderives

/-! ### Conjunctions are compiled -/

namespace Expr

/-- A conjunction compiled at once is the one filter on top of the other, for all that can be seen
    of it. -/
theorem compileAlone_and {a b : Expr} {f g : Filter} (ha : a.compileAlone schema = .ok f)
    (hb : b.compileAlone schema = .ok g) :
    ∃ joined, (binary (.connective .and) a b).compileAlone schema = .ok joined ∧
      joined.columns = (f.narrow g).columns ∧ joined.text = (f.narrow g).text ∧
      ∀ properties, joined.accepts properties = (f.narrow g).accepts properties := by
  obtain ⟨l, hl, rfl⟩ := bind_pure_eq_ok_iff.mp ha
  obtain ⟨r, hr, rfl⟩ := bind_pure_eq_ok_iff.mp hb
  -- The right part is lowered behind the left one, with nothing but its columns moved.
  have hjoined : lowerCondition schema [] (binary (.connective .and) a b) =
      .ok ⟨.connect .and l.part r.part, .binary (.connective .and) l.label r.label,
        mergeColumns l.required r.required⟩ :=
    bind_eq_ok_iff.mpr ⟨l, hl, bind_eq_ok_iff.mpr ⟨_, lowerCondition_after hr l.required, rfl⟩⟩
  refine ⟨_, bind_eq_ok_iff.mpr ⟨_, hjoined, rfl⟩, rfl, ?_, fun properties => ?_⟩
  · simp [Filter.text, narrow, Label.text]
  · -- The one guard of the conjunction is the two guards of the parts.
    rw [Bool.eq_iff_iff]
    simp only [accepts, narrow, Condition.holds, Connective.apply, Bool.and_eq_true,
      List.all_eq_true, mem_mergeColumns]
    grind

end Expr

/-! ### Adding is the conjunction -/

theorem ofText_eq_ok_iff {s : String} {previous : Option Filter} {f : Filter} :
    Filter.ofText schema s previous = .ok f ↔
      ∃ e, Expr.ofCommand schema (Command.ofText s) = .ok e ∧
        e.compile schema previous = .ok f := by
  unfold Filter.ofText
  cases Expr.ofCommand schema (Command.ofText s) with
  | error error => simp
  | ok e => cases hcompile : e.compile schema previous <;> simp [hcompile]

/-- **Adding is the conjunction.**  A text that is added to a filter makes a filter that cannot be
    told from that of the conjunction of both texts. -/
theorem Filter.ofText_conjunction {first second : String} {f g : Filter}
    (hfirst : QuotesClosed first.toList) (hsecond : QuotesClosed second.toList)
    (hf : Filter.ofText schema first none = .ok f)
    (hg : Filter.ofText schema second none = .ok g) :
    ∃ joined added,
      Filter.ofText schema ("(" ++ first ++ ") && (" ++ second ++ ")") none = .ok joined ∧
        Filter.ofText schema second (some f) = .ok added ∧
        added.columns = joined.columns ∧ added.text = joined.text ∧
        ∀ properties, added.accepts properties = joined.accepts properties := by
  obtain ⟨a, ha, hcompilea⟩ := ofText_eq_ok_iff.mp hf
  obtain ⟨b, hb, hcompileb⟩ := ofText_eq_ok_iff.mp hg
  have hread := ofCommand_conjunction hfirst hsecond ha (Expr.ne_empty_of_compile hcompilea)
    hb (Expr.ne_empty_of_compile hcompileb)
  rw [Expr.compile_none_eq_ok_iff] at hcompilea hcompileb
  obtain ⟨joined, hjoined, hcolumns, htext, haccepts⟩ :=
    Expr.compileAlone_and hcompilea hcompileb
  refine ⟨joined, f.narrow g, ?_, ?_, hcolumns.symm, htext.symm, fun properties => ?_⟩
  · exact ofText_eq_ok_iff.mpr ⟨_, hread, Expr.compile_none_eq_ok_iff.mpr hjoined⟩
  · exact ofText_eq_ok_iff.mpr ⟨b, hb, Expr.compile_some_eq_ok_iff.mpr ⟨g, hcompileb, rfl⟩⟩
  · exact (haccepts properties).symm

def Filter.short : Filter :=
  ⟨.guard ["length"] (.compare .less (.property "length") (.constant (.integer 9))),
    .guard ["length"]
      (.binary (.comparison .less) (.column "length") (.constant (.integer 9) (some .integer))),
    ["length"]⟩

theorem Filter.ofText_hidden_added : ∃ joined added,
    Filter.ofText fileSchema "(\"hidden\") && (length < 9 )" none = .ok joined ∧
      Filter.ofText fileSchema "length < 9 " (some .hidden) = .ok added ∧
      added.columns = joined.columns ∧ added.text = joined.text ∧
      ∀ properties, added.accepts properties = joined.accepts properties := by
  have hf : Filter.ofText fileSchema "\"hidden\"" none = .ok .hidden := by decide +kernel
  have hg : Filter.ofText fileSchema "length < 9 " none = .ok .short := by decide +kernel
  have hfirst : QuotesClosed "\"hidden\"".toList := by decide +kernel
  have hsecond : QuotesClosed "length < 9 ".toList := by decide +kernel
  have htext : "(\"hidden\") && (length < 9 )" =
      "(" ++ "\"hidden\"" ++ ") && (" ++ "length < 9 " ++ ")" := by decide +kernel
  rw [htext]
  exact Filter.ofText_conjunction hfirst hsecond hf hg

end RecordFilter
