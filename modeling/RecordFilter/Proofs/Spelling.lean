import RecordFilter.Proofs.Printing
/-!
# Words in order

Without its parentheses a command is a row of words.  What is read from a command has the same words
in the same order: a word for every column and every literal, and the symbols of the operators
between them (`spelled_of_derives`).

The text of an expression is a command that already has its words: the columns between quotes, the
symbols, and the words that the constants fall into.  If it is read as the expression, they have to
match word by word.  So every constant is one word, and no column stands where a literal is read,
since a column to the right of a comparison is always read behind a parenthesis
(`printable_of_spelled`).
-/

namespace RecordFilter

open Grammar Token Schema

namespace Token

def isParenthesis (t : String × Bool) : Bool := !t.2 && (t.1 == "(" || t.1 == ")")

/-- A token that is no parenthesis. -/
structure Word where
  text : String
  quoted : Bool
  /-- Whether a parenthesis stands between the word and the one before it. -/
  apart : Bool

/-- The words of a row of tokens that stands behind a parenthesis, or behind a word. -/
def words (apart : Bool) : List (String × Bool) → List Word
  | [] => []
  | t :: rest => if isParenthesis t then words true rest else ⟨t.1, t.2, apart⟩ :: words false rest

/-! ### The words of tokens -/

variable {apart : Bool} {rest : List (String × Bool)}

theorem words_paren {t : String × Bool} (h : isParenthesis t = true) :
    words apart (t :: rest) = words true rest := by
  rw [words, if_pos h]

theorem words_word {t : String × Bool} (h : isParenthesis t = false) :
    words apart (t :: rest) = ⟨t.1, t.2, apart⟩ :: words false rest := by
  rw [words, h, if_neg Bool.false_ne_true]

/-- Of the tokens in front only the last one matters for the words behind. -/
theorem words_append (apart : Bool) (tokens : List (String × Bool)) :
    ∃ between, ∀ rest, words apart (tokens ++ rest) = words apart tokens ++ words between rest := by
  induction tokens generalizing apart with
  | nil => exact ⟨apart, fun _ => rfl⟩
  | cons t tokens ih =>
    cases ht : isParenthesis t with
    | true =>
      obtain ⟨between, hbetween⟩ := ih true
      refine ⟨between, fun rest => ?_⟩
      rw [List.cons_append, words_paren ht, words_paren ht, hbetween]
    | false =>
      obtain ⟨between, hbetween⟩ := ih false
      refine ⟨between, fun rest => ?_⟩
      rw [List.cons_append, words_word ht, words_word ht, hbetween, List.cons_append]

/-- The first word behind a parenthesis is apart from the word before. -/
theorem apart_of_mem_head?_words (tokens : List (String × Bool)) :
    ∀ w ∈ (words true tokens).head?, w.apart = true := by
  induction tokens with
  | nil => simp [words]
  | cons t tokens ih =>
    cases ht : isParenthesis t with
    | true => simpa only [words_paren ht] using ih
    | false => simp [words_word ht]

theorem token_of_mem_words {w : Word} {tokens : List (String × Bool)}
    (h : w ∈ words apart tokens) :
    (w.text, w.quoted) ∈ tokens ∧ isParenthesis (w.text, w.quoted) = false := by
  induction tokens generalizing apart with
  | nil => simp [words] at h
  | cons t tokens ih =>
    cases ht : isParenthesis t with
    | true =>
      rw [words_paren ht] at h
      exact ⟨List.mem_cons_of_mem t (ih h).1, (ih h).2⟩
    | false =>
      rw [words_word ht] at h
      rcases List.mem_cons.mp h with rfl | h
      · exact ⟨List.mem_cons_self .., ht⟩
      · exact ⟨List.mem_cons_of_mem t (ih h).1, (ih h).2⟩

theorem isParenthesis_written {t : Token} : isParenthesis t.written = !t.isWord := by
  have hopening : String.singleton '(' = "(" := rfl
  have hclosing : String.singleton ')' = ")" := rfl
  simp only [isParenthesis, written, isWord, isParen, hopening, hclosing]
  cases t.quoted <;> cases t.text == "(" <;> cases t.text == ")" <;> rfl

theorem isParenthesis_of_word {t : Token} (h : t.isWord = true) :
    isParenthesis t.written = false := by
  rw [isParenthesis_written, h]
  rfl

theorem isParenthesis_of_isParen {t : Token} {paren : Char} (hparen : paren = '(' ∨ paren = ')')
    (h : t.isParen paren = true) : isParenthesis t.written = true := by
  rw [isParenthesis_written]
  rcases hparen with rfl | rfl <;> simp [isWord, h]

theorem isParenthesis_symbol (op : Operator) : isParenthesis (op.symbol, false) = false :=
  isParenthesis_of_word (t := ⟨op.symbol, 0, false⟩) (isWord_of_isOperator ⟨rfl, rfl⟩)

end Token

variable {schema : Schema} {e : Expr} {ws : List Word}

/-! ### Words of a tree -/

/-- The words are those of the expression, in order.  To the right of a column, what is no literal
    and does not follow a connective stands behind a parenthesis. -/
inductive Spelled (schema : Schema) : Expr → List Word → Prop where
  | column {w : Word} {column : Column} (hlookup : schema.lookup w.text = .ok (some column)) :
      Spelled schema (.column column.name column.type) [w]
  | literal {op : Operator} {name : String} {type : ColumnType} {value : Value} {ws : List Word}
      {w : Word} {apart : Bool} (hcolumn : Spelled schema (.column name type) ws)
      (hvalue : Value.ofLiteral w.text type = .ok value) :
      Spelled schema (.binary op (.column name type) (.constant value))
        (ws ++ [⟨op.symbol, false, apart⟩, w])
  | operation {op : Operator} {left right : Expr} {ws rest : List Word} {w : Word} {apart : Bool}
      (hleft : Spelled schema left ws) (hright : Spelled schema right (w :: rest))
      (hapart : w.apart = true ∨ (∃ connective, op = .connective connective) ∨
        left.columnType? = none) :
      Spelled schema (.binary op left right) (ws ++ ⟨op.symbol, false, apart⟩ :: w :: rest)

theorem Spelled.exists_cons (h : Spelled schema e ws) : ∃ w rest, ws = w :: rest := by
  cases h with
  | column => exact ⟨_, _, rfl⟩
  | literal hcolumn => exact List.exists_cons_of_ne_nil (by simp)
  | operation hleft => exact List.exists_cons_of_ne_nil (by simp)

theorem spelled_column_iff {name : String} {type : ColumnType} :
    Spelled schema (.column name type) ws ↔
      ∃ w, ws = [w] ∧ schema.lookup w.text = .ok (some ⟨name, type⟩) := by
  constructor
  · intro h
    generalize he : Expr.column name type = e at h
    cases h with
    | column hlookup =>
      cases he
      exact ⟨_, rfl, hlookup⟩
    | literal => cases he
    | operation => cases he
  · rintro ⟨w, rfl, hlookup⟩
    exact .column hlookup

theorem not_spelled_constant {value : Value} : ¬ Spelled schema (.constant value) ws := by
  intro h
  cases h

/-! ### What is read has the words it is read from -/

/-- The words of the tree that a symbol brings along, and of the operator behind it. -/
def Grammar.Symbol.Spelled (schema : Schema) (ws : List Word) : Symbol → Prop
  | expr => ws = []
  | operand => ws = []
  | tail left => RecordFilter.Spelled schema left ws
  | right left op => ∃ before apart, RecordFilter.Spelled schema left before ∧
      ws = before ++ [⟨op.symbol, false, apart⟩]
  | rest operation =>
    RecordFilter.Spelled schema operation ws ∧ operation.columnType? = none

theorem spelled_nil_expr : Symbol.Spelled schema [] .expr := rfl

theorem spelled_nil_operand : Symbol.Spelled schema [] .operand := rfl

theorem words_blank {blank : List Token} (h : Blank blank) (apart : Bool) :
    ∃ between, ∀ rest,
      words apart (blank.map written ++ rest) = words between rest := by
  induction h generalizing apart with
  | nil => exact ⟨apart, fun _ => rfl⟩
  | group hopening _ hclosing _ ihinner ihrest =>
    obtain ⟨inside, hinside⟩ := ihinner true
    obtain ⟨between, hbetween⟩ := ihrest true
    refine ⟨between, fun rest => ?_⟩
    rw [List.map_cons, List.cons_append, words_paren (isParenthesis_of_isParen (.inl rfl) hopening),
      List.map_append, List.append_assoc, hinside, List.map_cons, List.cons_append,
      words_paren (isParenthesis_of_isParen (.inr rfl) hclosing), hbetween]

/-- The words of the tokens spell the tree, after those of the tree before. -/
theorem spelled_of_derives {symbol : Symbol} {tokens : List Token}
    (h : Derives schema symbol tokens e) (hsymbol : symbol.Spelled schema ws) (apart : Bool) :
    Spelled schema e (ws ++ words apart (tokens.map written)) := by
  -- The words of what was read before are carried along, since a tail becomes part of its tree.
  induction h generalizing ws apart with
  | @expr blank operand tail _ _ hblank _ _ ihoperand ihtail =>
    obtain rfl : ws = [] := hsymbol
    obtain ⟨between, hbetween⟩ := words_blank hblank apart
    obtain ⟨behind, hbehind⟩ := words_append between (operand.map written)
    rw [List.nil_append, List.map_append, hbetween, List.map_append, hbehind]
    exact ihtail (ihoperand spelled_nil_operand between) behind
  | column hword hlookup =>
    obtain rfl : ws = [] := hsymbol
    rw [List.map_singleton, words_word (isParenthesis_of_word hword)]
    exact .column hlookup
  | @group _ _ inner _ hopening _ hclosing ih =>
    obtain rfl : ws = [] := hsymbol
    obtain ⟨between, hbetween⟩ := words_append true (inner.map written)
    have hinner := ih spelled_nil_expr true
    rw [List.nil_append] at hinner
    rw [List.nil_append, List.map_cons, words_paren (isParenthesis_of_isParen (.inl rfl) hopening),
      List.map_append, hbetween, List.map_singleton,
      words_paren (isParenthesis_of_isParen (.inr rfl) hclosing), words, List.append_nil]
    exact hinner
  | ends =>
    rw [List.map_nil, words, List.append_nil]
    exact hsymbol
  | @operator token op blank right left _ hop hblank _ ih =>
    obtain ⟨between, hbetween⟩ := words_blank hblank false
    have hwritten : token.written = (op.symbol, false) := by rw [written, hop.1, hop.2]
    rw [List.map_cons, hwritten, words_word (isParenthesis_symbol op), List.map_append, hbetween,
      List.append_cons]
    exact ih ⟨ws, apart, hsymbol, rfl⟩ between
  | literal hop hword hvalue _ ih =>
    obtain ⟨before, apart', hleft, rfl⟩ := hsymbol
    rw [List.map_cons, words_word (isParenthesis_of_word hword), List.append_cons,
      List.append_assoc before]
    exact ih ⟨.literal hleft hvalue, rfl⟩ false
  | @rightGroup _ _ op inner rest left right _ hopening _ hclosing _ ihinner ihrest =>
    obtain ⟨before, apart', hleft, rfl⟩ := hsymbol
    obtain ⟨between, hbetween⟩ := words_append true (inner.map written)
    have hinner := ihinner spelled_nil_expr true
    rw [List.nil_append] at hinner
    obtain ⟨w, more, hw⟩ := hinner.exists_cons
    have hapart := apart_of_mem_head?_words (inner.map written) w (by simp [hw])
    rw [hw] at hinner
    rw [List.map_cons, words_paren (isParenthesis_of_isParen (.inl rfl) hopening),
      List.map_append, hbetween, List.map_cons,
      words_paren (isParenthesis_of_isParen (.inr rfl) hclosing), ← List.append_assoc, hw,
      List.append_assoc before]
    exact ihrest ⟨.operation hleft hinner (.inl hapart), rfl⟩ true
  | @connective word column op tail left right hword hlookup _ ih =>
    obtain ⟨before, apart', hleft, rfl⟩ := hsymbol
    have hcolumn : Spelled schema (.column column.name column.type)
        [⟨word.text, word.quoted, apart⟩] := .column hlookup
    rw [List.map_cons, words_word (isParenthesis_of_word hword), List.append_assoc]
    exact .operation hleft (ih hcolumn false) (.inr (.inl ⟨op, rfl⟩))
  | stops =>
    rw [List.map_nil, words, List.append_nil]
    exact hsymbol.1
  | @chain token op next operation right hop _ ih =>
    have hwritten : token.written = (op.symbol, false) := by rw [written, hop.1, hop.2]
    have hnext := ih spelled_nil_expr false
    rw [List.nil_append] at hnext
    obtain ⟨w, more, hw⟩ := hnext.exists_cons
    rw [hw] at hnext
    rw [List.map_cons, hwritten, words_word (isParenthesis_symbol op), hw]
    exact .operation hsymbol.1 hnext (.inr (.inr hsymbol.2))

/-! ### The words of a constant -/

/-- The tokens of a text without quotes are runs in it, and parentheses. -/
theorem run_of_mem_writtenTokens {s : List Char} (hs : '"' ∉ s) {t : String × Bool}
    (ht : t ∈ writtenTokens s) (hword : isParenthesis t = false) :
    ∃ run, run <:+: s ∧ isRun run = true ∧ t.1 = String.ofList (Text.lowerEach run) := by
  have hsplits := splits s
  -- A word is a piece of its own, as there are no quotes in the text.
  induction hsplits with
  | nil => simp [writtenTokens, lexFrom, kept] at ht
  | @cons piece rest made hpiece hrest ih =>
    rw [writtenTokens, lexFrom_piece hpiece, kept_append, kept_lexFrom] at ht
    rcases List.mem_append.mp ht with hmade | ht
    · obtain ⟨token, htoken, rfl⟩ := List.mem_map.mp hmade
      obtain ⟨run, hrun, rfl⟩ := List.mem_map.mp (List.mem_filter.mp htoken).1
      cases hpiece with
      | quoted => simp at hs
      | unclosed => simp at hs
      | blank => simp at hrun
      | @paren c _ hc =>
        obtain rfl : run = ([c], false) := by simpa using hrun
        rcases hc with rfl | rfl
        · exact absurd hword (by decide +kernel)
        · exact absurd hword (by decide +kernel)
      | @run c run' _ hc hrun' =>
        obtain rfl : run = (c :: run', false) := by simpa using hrun
        refine ⟨c :: run', ⟨[], rest, rfl⟩, ?_, rfl⟩
        simp only [isRun, hc, Bool.true_and, List.all_eq_true]
        exact hrun'
    · obtain ⟨run, hwithin, hrun⟩ := ih (fun hmem => hs (List.mem_append_right _ hmem)) ht
      exact ⟨run, hwithin.trans (List.suffix_append piece rest).isInfix, hrun⟩

/-- A text that is one of its own words is one run. -/
theorem isRun_of_mem_words {s : String} (hs : IsTokenText s) {apart : Bool} {w : Word}
    (hw : w ∈ words apart (writtenTokens s.toList)) (htext : w.text = s) :
    isRun s.toList = true := by
  obtain ⟨hmem, hword⟩ := token_of_mem_words hw
  obtain ⟨run, hwithin, hrun, hlowered⟩ := run_of_mem_writtenTokens hs.unquoted hmem hword
  have hsettled : Text.Settled run := fun c hc => hs.settled c (hwithin.subset hc)
  have heq : s = String.ofList (Text.lowerEach run) := htext.symm.trans hlowered
  rwa [heq, String.toList_ofList, hsettled.lowerEach_eq]

theorem isParenthesis_of_run {s : String} (h : isRun s.toList = true) :
    isParenthesis (Text.loweredEach s, false) = false :=
  isParenthesis_of_word (isWord_of_run h)

theorem words_run {s : String} (h : isRun s.toList = true) (apart : Bool) :
    words apart (writtenTokens s.toList) = [⟨Text.loweredEach s, false, apart⟩] := by
  rw [writtenTokens_run h, words_word (isParenthesis_of_run h)]
  rfl

theorem isWordChar_of_mem_padded {n width : Nat} {c : Char} (h : c ∈ Numeral.padded n width) :
    isWordChar c = true :=
  (isWordChar_of_isDigit (Numeral.isDigit_of_mem_padded h)).1

theorem isRun_dateText (d : Date) : isRun (Instant.dateText d) = true := by
  refine isRun_of_word (by simp [Instant.dateText]) ?_
  have hdash : isWordChar '-' = true := by decide
  have hplus : isWordChar '+' = true := by decide
  intro c hc
  simp only [Instant.dateText, Instant.yearText, List.mem_append, List.mem_cons] at hc
  rcases hc with (hc | rfl | hc) | rfl | hc
  · split at hc
    · exact isWordChar_of_mem_padded hc
    · rcases List.mem_cons.mp hc with rfl | hc
      · split
        · exact hdash
        · exact hplus
      · exact isWordChar_of_mem_padded hc
  · exact hdash
  · exact isWordChar_of_mem_padded hc
  · exact hdash
  · exact isWordChar_of_mem_padded hc

theorem isRun_timeText (t : TimeOfDay) : isRun (Instant.timeText t) = true := by
  refine isRun_of_word (by simp [Instant.timeText]) ?_
  have hcolon : isWordChar ':' = true := by decide
  intro c hc
  simp only [Instant.timeText, List.mem_append, List.mem_cons] at hc
  rcases hc with (hc | rfl | hc) | rfl | hc
  · exact isWordChar_of_mem_padded hc
  · exact hcolon
  · exact isWordChar_of_mem_padded hc
  · exact hcolon
  · exact isWordChar_of_mem_padded hc

/-- Two runs with a space between them are two words. -/
theorem words_two_runs {s t : String} (hs : isRun s.toList = true) (ht : isRun t.toList = true)
    (apart : Bool) : words apart (writtenTokens (s.toList ++ ([' '] ++ t.toList))) =
      [⟨Text.loweredEach s, false, apart⟩, ⟨Text.loweredEach t, false, false⟩] := by
  have hspace : isRunChar ' ' = false := by decide
  have hquote : '"' ∉ s.toList := fun hmem =>
    absurd (isRunChar_of_mem_run hs hmem) (by decide)
  have hseam : Seam [' '] t.toList := .of_last (by simpa using hspace)
  have hisBlank : Text.isBlank ' ' = true := by decide
  have hblank : writtenTokens [' '] = [] := writtenTokens_blank (by simpa using hisBlank)
  rw [writtenTokens_append (.of_count hquote) (.of_head (by simpa using hspace)),
    writtenTokens_append (by decide) hseam, hblank, List.nil_append, writtenTokens_run hs,
    List.singleton_append, words_word (isParenthesis_of_run hs), words_run ht]

/-- An instant is shown as two words, its date and its time. -/
theorem words_instant (t : Instant) (apart : Bool) :
    ∃ date time : String, ':' ∈ time.toList ∧ words apart (writtenTokens t.shown.toList) =
      [⟨date, false, apart⟩, ⟨time, false, false⟩] := by
  have hdate : isRun (String.ofList (Instant.dateText t.date)).toList = true := by
    rw [String.toList_ofList]
    exact isRun_dateText t.date
  have htime : isRun (String.ofList (Instant.timeText t.timeOfDay)).toList = true := by
    rw [String.toList_ofList]
    exact isRun_timeText t.timeOfDay
  have htext : t.shown.toList = (String.ofList (Instant.dateText t.date)).toList ++
      ([' '] ++ (String.ofList (Instant.timeText t.timeOfDay)).toList) := by
    simp [Instant.shown]
  have hwords := words_two_runs hdate htime apart
  rw [← htext] at hwords
  refine ⟨_, _, ?_, hwords⟩
  rw [Text.loweredEach, String.toList_ofList, String.toList_ofList]
  exact List.mem_flatMap.mpr ⟨':', by simp [Instant.timeText], by decide +kernel⟩

/-- What can stand behind the words of a condition: a connective, or nothing. -/
def GoesOn (ws : List Word) : Prop := ∀ w ∈ ws.head?, ∃ op : Connective, w.text = op.symbol

theorem isRun_symbol (op : Connective) :
    isRun op.symbol.toList = true ∧ ':' ∉ op.symbol.toList := by
  cases op <;> exact ⟨by decide, by decide⟩

/-- A constant that is read from one of the words in its own text is that word. -/
theorem isRun_of_spelled {word : String} {type : ColumnType} {value : Value} {apart : Bool}
    {w : Word} {rest rest' : List Word} (hword : IsTokenText word)
    (hread : Value.read? word type = some value) (hvalue : Value.read? w.text type = some value)
    (heq : w :: rest = words apart (writtenTokens value.shown.toList) ++ rest')
    (hrest : GoesOn rest) (hrest' : GoesOn rest') :
    isRun value.shown.toList = true := by
  cases hreads : value.readsBack with
  | true => exact (Value.read?_shown hword.settled hread hreads).1
  | false =>
    cases value with
    | text s =>
      -- A text that is no run would be spelled by more than one word, or by none.
      have htext : type = .text ∧ w.text = s ∧ word = s := by
        cases type <;> simp_all [Value.read?]
      obtain ⟨-, rfl, rfl⟩ := htext
      rw [Value.shown] at heq ⊢
      cases hwords : words apart (writtenTokens w.text.toList) with
      | nil =>
        rw [hwords, List.nil_append] at heq
        obtain ⟨op, hop⟩ := hrest' w (by rw [← heq]; rfl)
        rw [hop]
        exact (isRun_symbol op).1
      | cons w' more =>
        rw [hwords, List.cons_append] at heq
        obtain ⟨rfl, -⟩ := List.cons.inj heq
        have hmem : w ∈ words apart (writtenTokens w.text.toList) := by
          rw [hwords]
          exact List.mem_cons_self ..
        exact isRun_of_mem_words hword hmem rfl
    | dateTime t =>
      -- A date is two words, and the second would have to be an operator.
      obtain ⟨date, time, hcolon, hwords⟩ := words_instant t apart
      rw [Value.shown, hwords, List.cons_append] at heq
      obtain ⟨-, rfl⟩ := List.cons.inj heq
      obtain ⟨op, hop⟩ := hrest ⟨time, false, false⟩ rfl
      rw [show time = op.symbol from hop] at hcolon
      exact absurd hcolon (isRun_symbol op).2
    | _ => cases hreads

/-! ### Word by word -/

theorem words_column (name : String) (type : ColumnType) (apart : Bool) :
    words apart (Expr.column name type).printed = [⟨Text.loweredEach name, true, apart⟩] := by
  rw [Expr.printed, words_word (by simp [isParenthesis])]
  rfl

/-- The words of an operation are those of its sides with the operator between them. -/
theorem words_operation (op : Operator) (left right : Expr) (apart : Bool) :
    ∃ between, words apart (Expr.binary op left right).printed =
      words true left.printed ++ ⟨op.symbol, false, between⟩ :: words false right.printed := by
  obtain ⟨between, hbetween⟩ := words_append true left.printed
  obtain ⟨behind, hbehind⟩ := words_append false right.printed
  refine ⟨between, ?_⟩
  rw [Expr.printed, words_paren (by decide), hbetween, words_word (isParenthesis_symbol op),
    hbehind, words_paren (by decide), words, List.append_nil]

theorem goesOn_connective (op : Connective) (apart : Bool) (rest : List Word) :
    GoesOn (⟨(Operator.connective op).symbol, false, apart⟩ :: rest) := by
  intro w hw
  obtain rfl := Option.mem_some.mp hw
  exact ⟨op, rfl⟩

/-- **Expressions with their own words.**  If the words in the text of a condition that was read are
    the words of the condition, it is printable. -/
theorem printable_of_spelled (hfound : Found schema e) (hquoted : e.IsQuoted)
    (hcondition : e.IsFilter) (hspelled : Spelled schema e ws)
    {apart : Bool} {rest rest' : List Word} (heq : ws ++ rest = words apart e.printed ++ rest')
    (hrest : GoesOn rest) (hrest' : GoesOn rest') :
    Printable schema e ∧ rest = rest' := by
  -- Both rows are followed by something, or the words behind a left side could not be compared.
  induction hfound generalizing ws apart rest rest' with
  | column hlookup =>
    obtain ⟨w, rfl, hw⟩ := spelled_column_iff.mp hspelled
    rw [words_column] at heq
    obtain ⟨rfl, hrests⟩ := List.cons.inj heq
    exact ⟨.column hquoted.1 hw, hrests⟩
  | @literal op name word type value hop _ hword hvalue _ =>
    obtain ⟨between, hwords⟩ := words_operation op (.column name type) (.constant value) apart
    rw [hwords, words_column] at heq
    -- A constant is only spelled as a literal, by the one word behind the operator.
    cases hspelled with
    | operation _ hright => exact absurd hright not_spelled_constant
    | @literal _ _ _ _ before w apart' hcolumn hvalue' =>
      obtain ⟨w₀, rfl, hw₀⟩ := spelled_column_iff.mp hcolumn
      obtain ⟨rfl, htail⟩ := List.cons.inj heq
      obtain ⟨-, hconstant⟩ := List.cons.inj htail
      have hread := read_of_ofLiteral hvalue
      have hrun := isRun_of_spelled hword hread (read_of_ofLiteral hvalue') hconstant hrest hrest'
      have hback := Value.read?_shown hword.settled hread (Value.readsBack_of_isRun hrun)
      refine ⟨.condition hop (.column hquoted.1.1 hw₀) hrun hback.2, ?_⟩
      rw [Expr.printed, words_run hrun] at hconstant
      exact (List.cons.inj hconstant).2
  | @operation op left right hleft hright ihleft ihright =>
    obtain ⟨between, hwords⟩ := words_operation op left right apart
    rw [hwords] at heq
    cases hspelled with
    | literal => exact absurd rfl (hright.ne_constant _)
    | @operation _ _ _ before more w apart' hspelledLeft hspelledRight hapart =>
      by_cases hop : ∀ connective, op ≠ .connective connective
      · -- Both sides are columns, and the one on the right is printed without a parenthesis.
        obtain ⟨hvaluel, hvaluer⟩ := isValue_sides hop hcondition
        obtain ⟨name, type, rfl⟩ := hleft.exists_column hvaluel
        obtain ⟨name', type', rfl⟩ := hright.exists_column hvaluer
        obtain ⟨w₀, rfl, -⟩ := spelled_column_iff.mp hspelledLeft
        rw [words_column, words_column] at heq
        obtain ⟨-, htail⟩ := List.cons.inj heq
        obtain ⟨-, hcolumn⟩ := List.cons.inj htail
        obtain ⟨rfl, -⟩ := List.cons.inj hcolumn
        rcases hapart with hapart | ⟨connective, rfl⟩ | hnone
        · cases hapart
        · exact absurd rfl (hop connective)
        · cases hnone
      · obtain ⟨connective, rfl⟩ : ∃ connective, op = .connective connective := by
          simpa using hop
        rw [List.append_assoc, List.append_assoc] at heq
        obtain ⟨hprintl, htail⟩ := ihleft hquoted.1 hcondition.1 hspelledLeft heq
          (goesOn_connective connective _ _) (goesOn_connective connective _ _)
        obtain ⟨-, hright'⟩ := List.cons.inj htail
        obtain ⟨hprintr, hrests⟩ := ihright hquoted.2 hcondition.2 hspelledRight hright' hrest
          hrest'
        exact ⟨.connect hprintl hprintr, hrests⟩

end RecordFilter
