import RecordFilter.Proofs.Conjunction
import RecordFilter.Proofs.Literals
import RecordFilter.Proofs.Lookup
/-!
# The text of a filter, read again

The text of a filter is meant to be a filter again.  It quotes the columns and puts every operator
in parentheses, but it writes a constant as it is shown.  Where no constant falls apart, and no
column stands where a literal is read, the text is read as the very filter (`Filter.ofText_text`).

The proof goes by the expression of the filter.  Its text has the tokens that one expects
(`writtenTokens_shown`), and these derive the expression if it is `Printable`
(`Printable.derives`).  An expression that was read from a text and compiled is printable exactly
if its label reads back (`readsBack_iff_printable`).
-/

namespace RecordFilter

open Grammar Token Schema

/-! ### Labels that read back -/

/-- Whether a column is found under its name between quotes: the name has no quote in it, and its
    letters are not lowered otherwise one by one than together. -/
def IsQuotable (name : String) : Prop :=
  '"' ∉ name.toList ∧ Text.fold (Text.loweredEach name) = Text.fold name

instance (name : String) : Decidable (IsQuotable name) := inferInstanceAs (Decidable (_ ∧ _))

/-- Columns can be quoted, constants read back, and no column stands to the right of a comparison
    or a text test. -/
def Label.ReadsBack : Label → Prop
  | binary (.connective _) left right => left.ReadsBack ∧ right.ReadsBack
  | binary _ _ (.column _) => False
  | binary _ left right => left.ReadsBack ∧ right.ReadsBack
  | column name => IsQuotable name
  | constant value _ => value.readsBack = true
  | guard _ inner => inner.ReadsBack
  | previous inner => inner.ReadsBack

/-! ### Expressions that can be printed -/

/-- A condition whose text is read as the condition. -/
inductive Printable (schema : Schema) : Expr → Prop where
  | column {name : String} {type : ColumnType} (hname : '"' ∉ name.toList)
      (hlookup : schema.lookup (Text.loweredEach name) = .ok (some ⟨name, type⟩)) :
      Printable schema (.column name type)
  | condition {op : Operator} {name : String} {type : ColumnType} {value : Value}
      (hop : ∀ connective, op ≠ .connective connective)
      (hcolumn : Printable schema (.column name type))
      (hrun : isRun value.shown.toList = true)
      (hvalue : Value.read? (Text.loweredEach value.shown) type = some value) :
      Printable schema (.binary op (.column name type) (.constant value))
  | connect {op : Connective} {left right : Expr} (hleft : Printable schema left)
      (hright : Printable schema right) : Printable schema (.binary (.connective op) left right)

/-- What is written for an expression: the columns, the operators and the tokens of the constants in
    order, with every operation in parentheses. -/
def Expr.printed : Expr → List (String × Bool)
  | empty => []
  | column name _ => [(Text.loweredEach name, true)]
  | constant value => writtenTokens value.shown.toList
  | binary op left right =>
    ("(", false) :: (left.printed ++ (op.symbol, false) :: (right.printed ++ [(")", false)]))

/-- Every quote mark in the text of the expression stands around the name of a column, and every
    name shows something. -/
def Expr.IsQuoted : Expr → Prop
  | empty => False
  | column name _ => '"' ∉ name.toList ∧ Text.isAllBlank (Text.loweredEach name).toList = false
  | constant value => value ≠ .null ∧ '"' ∉ value.shown.toList
  | binary _ left right => left.IsQuoted ∧ right.IsQuoted

variable {schema : Schema} {rs : List Registration} {e : Expr}

/-! ### The tokens of the text -/

theorem fold_eq_empty_of_blank {s : String} (h : Text.isAllBlank s.toList = true) :
    Text.fold s = "" := by
  have hdrop : s.toList.dropWhile Text.isBlank = [] := by
    rw [List.dropWhile_eq_nil_iff]
    exact List.all_eq_true.mp h
  rw [Text.fold_eq_empty_iff, Text.trimmed, Text.trim, Text.trimLeft, hdrop]
  rfl

theorem not_blank_of_lookup {name : String} {column : Column}
    (h : schema.lookup name = .ok (some column)) : Text.isAllBlank name.toList = false := by
  cases hblank : Text.isAllBlank name.toList with
  | false => rfl
  | true =>
    rw [lookup, fold_eq_empty_of_blank hblank] at h
    cases h

theorem kept_ofRun {run : List Char} {quoted : Bool} (position : Nat)
    (h : Text.isAllBlank (Text.lowerEach run) = false) :
    kept [ofRun run position quoted] = [(String.ofList (Text.lowerEach run), quoted)] := by
  simp [kept, ofRun, written, isBlank, h]

theorem quotesClosed_quoted {name : String} (h : '"' ∉ name.toList) :
    QuotesClosed ("\"" ++ name ++ "\"").toList := by
  simp [QuotesClosed, List.count_append, List.count_eq_zero.mpr h]

theorem writtenTokens_quoted {name : String} (hname : '"' ∉ name.toList)
    (h : Text.isAllBlank (Text.loweredEach name).toList = false) :
    writtenTokens ("\"" ++ name ++ "\"").toList = [(Text.loweredEach name, true)] := by
  have htext : ("\"" ++ name ++ "\"").toList = '"' :: (name.toList ++ ['"']) := by simp
  have hpiece : Piece ('"' :: (name.toList ++ ['"'])) [] (some (name.toList, true)) :=
    .quoted hname
  have hlex := lexFrom_piece hpiece 0
  rw [List.append_nil, lexFrom, List.append_nil] at hlex
  rw [Text.loweredEach, String.toList_ofList] at h
  rw [htext, writtenTokens, hlex]
  exact kept_ofRun 0 h

theorem writtenTokens_run {s : String} (h : isRun s.toList = true) :
    writtenTokens s.toList = [(Text.loweredEach s, false)] := by
  have hblank : Text.isAllBlank (Text.lowerEach s.toList) = false := by
    obtain ⟨d, rest, hd⟩ := List.exists_cons_of_ne_nil (lowerEach_ne_nil h)
    have hrun : isRunChar d = true := isRunChar_of_mem_lowerEach h (by simp [hd])
    simp [Text.isAllBlank, hd, (isRunChar_iff.mp hrun).2.2]
  have hpiece : Piece s.toList [] (some (s.toList, false)) := by
    cases hs : s.toList with
    | nil =>
      rw [hs] at h
      cases h
    | cons c rest =>
      rw [hs] at h
      simp only [isRun, Bool.and_eq_true, List.all_eq_true] at h
      exact .run h.1 h.2 (by simp)
  have hlex := lexFrom_piece hpiece 0
  rw [List.append_nil, lexFrom, List.append_nil] at hlex
  rw [writtenTokens, hlex]
  exact kept_ofRun 0 hblank

theorem writtenTokens_symbol (op : Operator) :
    writtenTokens (' ' :: (op.symbol.toList ++ [' '])) = [(op.symbol, false)] ∧
      '"' ∉ op.symbol.toList := by
  cases op with
  | connective op => cases op <;> exact ⟨by decide +kernel, by decide +kernel⟩
  | comparison op => cases op <;> exact ⟨by decide +kernel, by decide +kernel⟩
  | textTest op => cases op <;> exact ⟨by decide +kernel, by decide +kernel⟩

/-- Two texts with an operator between them have the tokens of both, with the operator between
    them. -/
theorem writtenTokens_infix {left right : String} (op : Operator)
    (hleft : QuotesClosed left.toList) (hright : QuotesClosed right.toList) :
    QuotesClosed (left ++ " " ++ op.symbol ++ " " ++ right).toList ∧
      writtenTokens (left ++ " " ++ op.symbol ++ " " ++ right).toList =
        writtenTokens left.toList ++ (op.symbol, false) :: writtenTokens right.toList := by
  obtain ⟨hsymbol, hquote⟩ := writtenTokens_symbol op
  have htext : (left ++ " " ++ op.symbol ++ " " ++ right).toList =
      left.toList ++ ((' ' :: (op.symbol.toList ++ [' '])) ++ right.toList) := by
    simp
  have hclosed : QuotesClosed (' ' :: (op.symbol.toList ++ [' '])) := .of_count (by simp [hquote])
  have hspace : isRunChar ' ' = false := by decide
  -- The spaces around the operator keep it apart from both sides.
  have hseam : Seam left.toList ((' ' :: (op.symbol.toList ++ [' '])) ++ right.toList) :=
    .of_head (by simpa using hspace)
  have hseam' : Seam (' ' :: (op.symbol.toList ++ [' '])) right.toList := by
    apply Seam.of_last
    rw [← List.cons_append, List.getLast?_concat]
    simpa using hspace
  rw [htext]
  constructor
  · exact hleft.append (hclosed.append hright)
  · rw [writtenTokens_append hleft hseam, writtenTokens_append hclosed hseam', hsymbol,
      List.singleton_append]

/-- The tokens of an operation are those of its sides, with the operator between them and
    parentheses around. -/
theorem writtenTokens_operation {left right : String} (op : Operator)
    (hleft : QuotesClosed left.toList) (hright : QuotesClosed right.toList) :
    QuotesClosed ("(" ++ left ++ " " ++ op.symbol ++ " " ++ right ++ ")").toList ∧
      writtenTokens ("(" ++ left ++ " " ++ op.symbol ++ " " ++ right ++ ")").toList =
        ("(", false) :: (writtenTokens left.toList ++
          (op.symbol, false) :: (writtenTokens right.toList ++ [(")", false)])) := by
  obtain ⟨hclosed, htokens⟩ := writtenTokens_infix op hleft hright
  have htext : ("(" ++ left ++ " " ++ op.symbol ++ " " ++ right ++ ")").toList =
      '(' :: ((left ++ " " ++ op.symbol ++ " " ++ right).toList ++ ')' :: []) := by
    simp
  have hnil : writtenTokens [] = [] := writtenTokens_blank (by simp)
  rw [htext]
  constructor
  · apply QuotesClosed.append (s := ['(']) (.of_count (by decide))
    exact hclosed.append (.of_count (by decide))
  · rw [writtenTokens_group hclosed, htokens, hnil]
    simp

theorem shown_constant {value : Value} (h : value ≠ .null) :
    (Expr.constant value).shown = value.shown := by
  cases value with
  | null => exact absurd rfl h
  | _ => rfl

theorem constantText_eq {value : Value} (h : value ≠ .null) (type : Option ColumnType) :
    Label.constantText value type = value.shown := by
  cases value with
  | null => exact absurd rfl h
  | _ => rfl

/-- The text of an expression has its quotes closed, and the tokens that are written. -/
theorem writtenTokens_shown (h : e.IsQuoted) :
    QuotesClosed e.shown.toList ∧ writtenTokens e.shown.toList = e.printed := by
  induction e with
  | empty => exact absurd h id
  | column name type =>
    rw [Expr.shown]
    exact ⟨quotesClosed_quoted h.1, writtenTokens_quoted h.1 h.2⟩
  | constant value =>
    rw [shown_constant h.1]
    exact ⟨.of_count h.2, rfl⟩
  | binary op left right ihleft ihright =>
    obtain ⟨hleft, hright⟩ := h
    obtain ⟨hclosed, htokens⟩ :=
      writtenTokens_operation op (ihleft hleft).1 (ihright hright).1
    rw [Expr.shown]
    refine ⟨hclosed, ?_⟩
    rw [htokens, (ihleft hleft).2, (ihright hright).2]
    rfl

theorem Printable.isQuoted (h : Printable schema e) : e.IsQuoted := by
  induction h with
  | column hname hlookup => exact ⟨hname, not_blank_of_lookup hlookup⟩
  | condition _ _ hrun hvalue ih =>
    refine ⟨ih, ne_null_of_read hvalue, fun hmem => ?_⟩
    exact absurd (isRunChar_of_mem_run hrun hmem) (by decide)
  | connect _ _ ihleft ihright => exact ⟨ihleft, ihright⟩

/-! ### The tokens derive the expression -/

def Token.ofWritten (written : String × Bool) : Token := ⟨written.1, 0, written.2⟩

theorem isWord_of_run {s : String} (h : isRun s.toList = true) :
    (ofWritten (Text.loweredEach s, false)).isWord = true := by
  have hparen : ∀ paren : Char, isRunChar paren = false →
      (Text.loweredEach s == String.singleton paren) = false := by
    intro paren hnot
    rw [beq_eq_false_iff_ne]
    intro heq
    have hmem : paren ∈ Text.lowerEach s.toList := by
      have htoList : (Text.loweredEach s).toList = [paren] := by rw [heq]; simp
      rw [Text.loweredEach, String.toList_ofList] at htoList
      simp [htoList]
    rw [isRunChar_of_mem_lowerEach h hmem] at hnot
    cases hnot
  rw [isWord_iff]
  simp only [isParen, ofWritten, hparen '(' (by decide), hparen ')' (by decide), Bool.and_false,
    and_self]

theorem isOperator_ofWritten (op : Operator) : (ofWritten (op.symbol, false)).IsOperator op :=
  ⟨rfl, rfl⟩

/-- An operand to the right of a connective. -/
theorem Grammar.Derives.right_of_operand {tokens : List Token} {left right : Expr}
    (h : Derives schema .operand tokens right) (op : Connective) :
    Derives schema (.right left (.connective op)) tokens (.binary (.connective op) left right) := by
  cases h with
  | column hword hlookup => exact .connective hword hlookup .ends
  | group hopening hinner hclosing => exact .rightGroup hopening hinner hclosing .stops

/-- What is printed for an expression is derived as the same expression. -/
theorem Printable.derives (h : Printable schema e) :
    Derives schema .operand (e.printed.map ofWritten) e := by
  have hopening : (ofWritten ("(", false)).isParen '(' = true := by decide
  have hclosing : (ofWritten (")", false)).isParen ')' = true := by decide
  -- What is printed is an operand, since all operations stand in parentheses.
  induction h with
  | @column name type _ hlookup =>
    have hword : (ofWritten (Text.loweredEach name, true)).isWord = true := by
      simp [isWord, isParen, ofWritten]
    exact @Derives.column schema (ofWritten (Text.loweredEach name, true)) ⟨name, type⟩ hword
      hlookup
  | @condition op name type value hop _ hrun hvalue ih =>
    have hliteral : Derives schema (.right (.column name type) op)
        [ofWritten (Text.loweredEach value.shown, false)]
        (.binary op (.column name type) (.constant value)) := by
      refine .literal hop (isWord_of_run hrun) ?_ .stops
      simp [Value.ofLiteral, ofWritten, hvalue]
    have hinner := ih.expr_of_operand (.tail_of_right (isOperator_ofWritten op) hliteral)
    have hgroup := Derives.group hopening hinner hclosing
    simpa [Expr.printed, writtenTokens_run hrun] using hgroup
  | @connect op left right _ _ ihleft ihright =>
    have hinner := ihleft.expr_of_operand
      (.tail_of_right (isOperator_ofWritten (.connective op)) (ihright.right_of_operand op))
    have hgroup := Derives.group hopening hinner hclosing
    simpa [Expr.printed, Operator.symbol] using hgroup

theorem Printable.ne_empty (h : Printable schema e) : e ≠ .empty := by
  cases h <;> nofun

/-- The text of a printable expression is read as the expression. -/
theorem ofCommand_shown (h : Printable schema e) :
    Expr.ofCommand schema (Command.ofText e.shown) = .ok e := by
  obtain ⟨hclosed, htokens⟩ := writtenTokens_shown h.isQuoted
  have hexpr := h.derives.expr_of_operand .ends
  rw [List.append_nil] at hexpr
  have hwritten : (Command.ofText e.shown).tokens.map written =
      (e.printed.map ofWritten).map written := by
    rw [written_ofText_of_closed hclosed, htokens, List.map_map]
    exact (List.map_id' _).symm
  exact (ofCommand_eq_ok_iff_derives h.ne_empty).mpr (hexpr.of_written_eq hwritten)

/-! ### Expressions that have been read -/

/-- What a token can say has no capitals and no quote marks. -/
structure IsTokenText (s : String) : Prop where
  settled : Text.Settled s.toList
  unquoted : '"' ∉ s.toList

/-- An expression of columns that were found, and of literals to the right of columns. -/
inductive Found (schema : Schema) : Expr → Prop where
  | column {word : String} {column : Column} (hlookup : schema.lookup word = .ok (some column)) :
      Found schema (.column column.name column.type)
  | literal {op : Operator} {name word : String} {type : ColumnType} {value : Value}
      (hop : ∀ connective, op ≠ .connective connective) (hcolumn : Found schema (.column name type))
      (hword : IsTokenText word) (hvalue : Value.ofLiteral word type = .ok value) :
      Found schema (.binary op (.column name type) (.constant value))
  | operation {op : Operator} {left right : Expr} (hleft : Found schema left)
      (hright : Found schema right) : Found schema (.binary op left right)

def Grammar.Symbol.LeftFound (schema : Schema) : Symbol → Prop
  | tail left => Found schema left
  | right left _ => Found schema left
  | rest operation => Found schema operation
  | _ => True

/-- A tree read from tokens has the columns that they name, and literals read from them. -/
theorem found_of_derives {symbol : Symbol} {tokens : List Token}
    (h : Derives schema symbol tokens e)
    (htexts : ∀ t ∈ tokens, IsTokenText t.text) (hsymbol : symbol.LeftFound schema) :
    Found schema e := by
  have hleft : symbol.LeftHas (Found schema) := by
    cases symbol <;> exact hsymbol
  refine h.tree_induction (Q := fun t => IsTokenText t.text) ?_ ?_ ?_ htexts hleft
  · intro word column _ hlookup
    exact .column hlookup
  · intro word op name type value hword hop hcolumn hvalue
    exact .literal hop hcolumn hword hvalue
  · intro op left right hleft hright
    exact .operation hleft hright

theorem isTokenText_lowerEach {run : List Char} (h : '"' ∉ run) :
    IsTokenText (String.ofList (Text.lowerEach run)) := by
  constructor
  · rw [String.toList_ofList]
    exact Text.settled_lowerEach run
  · rw [String.toList_ofList]
    intro hmem
    obtain ⟨c, hc, hquote⟩ := List.mem_flatMap.mp hmem
    rw [← Text.eq_of_mem_lowerChar hquote (by decide)] at hc
    exact h hc

theorem isTokenText_of_mem_tokens {s : String} {t : Token} (h : t ∈ (Command.ofText s).tokens) :
    IsTokenText t.text := by
  have hlex : ∀ (position : Nat) (s : List Char), ∀ t ∈ lexFrom position s,
      IsTokenText t.text := by
    intro position s
    have hsplits := splits s
    induction hsplits generalizing position with
    | nil => simp [lexFrom]
    | @cons piece rest run hpiece hrest ih =>
      intro t ht
      rw [lexFrom_piece hpiece] at ht
      rcases List.mem_append.mp ht with ht | ht
      · obtain ⟨run, hrun, rfl⟩ := List.mem_map.mp ht
        exact isTokenText_lowerEach (hpiece.quote_not_mem run (by simpa using hrun))
      · exact ih _ t ht
  rw [Command.tokens_ofText] at h
  exact hlex 0 _ t (List.mem_of_mem_filter h)

theorem found_of_ofCommand {s : String} (h : Expr.ofCommand schema (Command.ofText s) = .ok e)
    (hne : e ≠ .empty) : Found schema e :=
  found_of_derives ((ofCommand_eq_ok_iff_derives hne).mp h) (fun _ => isTokenText_of_mem_tokens)
    trivial

/-! ### Expressions that have been compiled -/

def Expr.IsValue : Expr → Prop
  | column _ _ => True
  | constant _ => True
  | _ => False

/-- Whether the expression is a condition: connectives join conditions, all other operators join
    columns and constants, and a column on its own is boolean. -/
def Expr.IsFilter : Expr → Prop
  | column _ type => type = .boolean
  | binary (.connective _) left right => left.IsFilter ∧ right.IsFilter
  | binary _ left right => left.IsValue ∧ right.IsValue
  | _ => False

/-- The label of a compiled expression that stands next to an operand of that type. -/
def Expr.label (peer : Option ColumnType) : Expr → Label
  | empty => .constant .null none
  | column name _ => .column name
  | constant value => .constant value peer
  | binary op left right =>
    .binary op (left.label right.columnType?) (right.label left.columnType?)

theorem label_of_lowerValue {peer : Option ColumnType} {required : List String}
    {low : Lowered Operand} (h : e.lowerValue schema peer required = .ok low) :
    e.IsValue ∧ low.label = e.label peer := by
  cases e with
  | empty => cases h
  | column name type =>
    obtain ⟨names, -, rfl⟩ := bind_pure_eq_ok_iff.mp h
    exact ⟨trivial, rfl⟩
  | constant value =>
    cases h
    exact ⟨trivial, rfl⟩
  | binary op left right => cases h

theorem label_of_lowerSides {required : List String} {op : Operator}
    {build : Operand → Operand → Condition} {left right : Expr} {low : Lowered Condition}
    (h : Expr.lowerSides schema required op build left right = .ok low) :
    (left.IsValue ∧ right.IsValue) ∧
      low.label = .binary op (left.label right.columnType?) (right.label left.columnType?) := by
  obtain ⟨l, hl, hrest⟩ := bind_eq_ok_iff.mp h
  obtain ⟨r, hr, rfl⟩ := bind_pure_eq_ok_iff.mp hrest
  obtain ⟨hleft, hllabel⟩ := label_of_lowerValue hl
  obtain ⟨hright, hrlabel⟩ := label_of_lowerValue hr
  rw [hllabel, hrlabel]
  exact ⟨⟨hleft, hright⟩, rfl⟩

/-- Only a constant is labelled with the type of what stands next to it. -/
theorem Expr.IsFilter.label_eq (h : e.IsFilter) (peer : Option ColumnType) :
    e.label peer = e.label none := by
  cases e with
  | empty => exact absurd h id
  | constant value => exact absurd h id
  | column name type => rfl
  | binary op left right => rfl

/-- What is compiled is a condition, and its label is that of the expression. -/
theorem label_of_lowerCondition {required : List String} {low : Lowered Condition}
    (h : e.lowerCondition schema required = .ok low) :
    e.IsFilter ∧ low.label = e.label none := by
  induction e generalizing required low with
  | empty => cases h
  | constant value => cases h
  | column name type =>
    cases type with
    | boolean =>
      obtain ⟨names, -, rfl⟩ := bind_pure_eq_ok_iff.mp h
      exact ⟨rfl, rfl⟩
    | _ => cases h
  | binary op left right ihleft ihright =>
    cases op with
    | connective op =>
      obtain ⟨l, hl, hrest⟩ := bind_eq_ok_iff.mp h
      obtain ⟨r, hr, rfl⟩ := bind_pure_eq_ok_iff.mp hrest
      obtain ⟨hleft, hllabel⟩ := ihleft hl
      obtain ⟨hright, hrlabel⟩ := ihright hr
      -- A condition has the same label whatever it stands beside: only constants look there.
      rw [hllabel, hrlabel, Expr.label, hleft.label_eq right.columnType?,
        hright.label_eq left.columnType?]
      exact ⟨⟨hleft, hright⟩, rfl⟩
    | comparison op => exact label_of_lowerSides h
    | textTest op => exact label_of_lowerSides h

theorem isValue_sides {op : Operator} {left right : Expr}
    (hop : ∀ connective, op ≠ .connective connective)
    (h : (Expr.binary op left right).IsFilter) :
    left.IsValue ∧ right.IsValue := by
  cases op with
  | connective op => exact absurd rfl (hop op)
  | comparison op => exact h
  | textTest op => exact h

/-! ### The text of the label -/

theorem Found.ne_constant (h : Found schema e) (value : Value) : e ≠ .constant value := by
  cases h <;> nofun

theorem Found.exists_column (h : Found schema e) (hvalue : e.IsValue) :
    ∃ name type, e = .column name type := by
  cases h with
  | column => exact ⟨_, _, rfl⟩
  | literal => exact absurd hvalue id
  | operation => exact absurd hvalue id

/-- The text of the label is that of the expression. -/
theorem Found.text_label (h : Found schema e) (peer : Option ColumnType) :
    (e.label peer).text false = e.shown := by
  induction h generalizing peer with
  | column => rfl
  | @literal op name word type value _ _ _ hvalue ih =>
    have hnull := ne_null_of_read (read_of_ofLiteral hvalue)
    rw [Expr.label, Label.text, Expr.shown, ih, Expr.label, Label.text, constantText_eq hnull,
      shown_constant hnull]
  | operation _ _ ihleft ihright => rw [Expr.label, Label.text, ihleft, ihright, Expr.shown]

/-! ### Labels that read back, and printable expressions -/

theorem lookup_quotable (hschema : Registered schema rs) {word : String} {column : Column}
    (hlookup : schema.lookup word = .ok (some column)) (hname : IsQuotable column.name) :
    schema.lookup (Text.loweredEach column.name) = .ok (some column) := by
  obtain ⟨r, hr, rfl⟩ := hschema.exists_of_lookup hlookup
  have hkey : Text.fold (Text.loweredEach r.column.name) = r.key := by
    rw [hname.2, Registration.column_name, Registration.key]
  exact hschema.lookup_of_key hr hkey

theorem length_fold_loweredEach {name : String} (h : Text.Bare name.toList) :
    (Text.fold (Text.loweredEach name)).toList.length = (Text.fold name).toList.length := by
  have hlowered := h.lowerEach
  rw [Text.toList_fold, Text.toList_fold, h.trim_eq, Text.loweredEach, String.toList_ofList,
    hlowered.trim_eq, Text.lower, Text.lower, (Text.settled_lowerEach _).lowerFrom_eq,
    Text.length_lowerFrom]

/-- A column that is found under its name between quotes is lowered alike in both ways: a name of
    another length finds other columns only. -/
theorem fold_lowered_of_lookup (hschema : Registered schema rs) {name : String} {type : ColumnType}
    (hlookup : schema.lookup (Text.loweredEach name) = .ok (some ⟨name, type⟩)) :
    Text.fold (Text.loweredEach name) = Text.fold name := by
  obtain ⟨r, hr, hcolumn, hnames⟩ := hschema.names_of_lookup hlookup
  obtain ⟨rfl, -⟩ := Column.mk.inj hcolumn
  have hlength : (Text.fold (Text.loweredEach r.name)).toList.length = r.key.toList.length :=
    length_fold_loweredEach (Registration.bare_name (hschema.shown r hr))
  rw [← String.toList_inj]
  -- A name that starts with the text and is no longer is the text itself.
  rcases hnames with hstart | ⟨d, hd, hstart, hkey⟩
  · exact (Dictionary.startsWith_iff.mp hstart).eq_of_length hlength
  · have hle := (Dictionary.startsWith_iff.mp hstart).length_le
    by_cases hspace : Text.trimmed d.space = ""
    · rw [hspace, qualify_empty, Registration.shortKey, Text.fold_fold,
        ← Registration.shortKey] at hkey
      rw [← hkey] at hstart
      exact (Dictionary.startsWith_iff.mp hstart).eq_of_length hlength
    · have hshown : d.shortKey ≠ "" := by
        rw [Registration.shortKey, Ne, Text.fold_eq_empty_iff]
        exact hschema.shown d hd
      have hlonger : d.shortKey.toList.length <
          (Text.fold (Text.trimmed d.space ++ "." ++ d.shortKey)).toList.length :=
        length_lt_fold_joined (Text.bare_trimmed d.space) (Text.bare_fold d.short) hspace hshown
          (Text.settled_fold d.short)
      rw [hkey, qualify_of_ne hspace] at hlength
      omega

/-- A column that was found is found again by its own name, if only that can be quoted. -/
theorem printable_column_iff (hschema : Registered schema rs) {word : String} {column : Column}
    (hlookup : schema.lookup word = .ok (some column)) :
    Printable schema (.column column.name column.type) ↔ IsQuotable column.name := by
  constructor
  · intro h
    cases h with
    | column hname hlookup => exact ⟨hname, fold_lowered_of_lookup hschema hlookup⟩
  · intro h
    exact .column h.1 (lookup_quotable hschema hlookup h)

/-- A comparison or a text test reads back if its sides do and the right one is no column. -/
theorem readsBack_sides_iff {op : Operator} {left right : Label}
    (hop : ∀ connective, op ≠ .connective connective) :
    (Label.binary op left right).ReadsBack ↔
      (left.ReadsBack ∧ right.ReadsBack) ∧ ∀ name, right ≠ .column name := by
  cases op with
  | connective op => exact absurd rfl (hop op)
  | comparison op => cases right <;> simp [Label.ReadsBack]
  | textTest op => cases right <;> simp [Label.ReadsBack]

/-- A condition that was read from a text has a label that reads back exactly if it is printable. -/
theorem readsBack_iff_printable (hschema : Registered schema rs) (hfound : Found schema e)
    (hcondition : e.IsFilter) (peer : Option ColumnType) :
    (e.label peer).ReadsBack ↔ Printable schema e := by
  induction hfound generalizing peer with
  | column hlookup => exact (printable_column_iff hschema hlookup).symm
  | @literal op name word type value hop hcolumn hword hvalue _ =>
    have hread := read_of_ofLiteral hvalue
    -- The column need not be boolean here, and then the induction hypothesis says nothing of it.
    have hleft : (Label.column name).ReadsBack ↔ Printable schema (.column name type) := by
      cases hcolumn with
      | column hlookup => exact (printable_column_iff hschema hlookup).symm
    rw [Expr.label, readsBack_sides_iff hop, Expr.label, hleft]
    constructor
    · rintro ⟨⟨hprintable, hreads⟩, -⟩
      obtain ⟨hrun, hback⟩ := Value.read?_shown hword.settled hread hreads
      exact .condition hop hprintable hrun hback
    · intro h
      cases h with
      | condition _ hprintable hrun =>
        exact ⟨⟨hprintable, Value.readsBack_of_isRun hrun⟩, nofun⟩
      | connect => exact absurd rfl (hop _)
  | @operation op left right hleft hright ihleft ihright =>
    by_cases hop : ∀ connective, op ≠ .connective connective
    · -- A column on the right would be read as a literal, so neither side holds.
      obtain ⟨name, type, rfl⟩ := hright.exists_column (isValue_sides hop hcondition).2
      rw [Expr.label, readsBack_sides_iff hop]
      constructor
      · rintro ⟨-, hcolumn⟩
        exact absurd rfl (hcolumn name)
      · intro h
        cases h with
        | connect => exact absurd rfl (hop _)
    · obtain ⟨connective, rfl⟩ : ∃ connective, op = .connective connective := by
        simpa using hop
      have hsides := and_congr (ihleft hcondition.1 right.columnType?)
        (ihright hcondition.2 left.columnType?)
      rw [Expr.label, Label.ReadsBack, hsides]
      constructor
      · rintro ⟨hprintl, hprintr⟩
        exact .connect hprintl hprintr
      · intro h
        cases h with
        | condition hop => exact absurd rfl (hop connective)
        | connect hprintl hprintr => exact ⟨hprintl, hprintr⟩

/-! ### Filters whose labels read back -/

/-- The expression that a filter was read from, and what the filter shows of it. -/
theorem Filter.exists_expr {t : String} {f : Filter} (h : Filter.ofText schema t none = .ok f) :
    ∃ e, Expr.ofCommand schema (Command.ofText t) = .ok e ∧ e.compile schema none = .ok f ∧
      Found schema e ∧ e.IsFilter ∧ f.text = e.shown ∧
      (f.label.ReadsBack ↔ (e.label none).ReadsBack) := by
  obtain ⟨e, he, hcompile⟩ := ofText_eq_ok_iff.mp h
  have hfound := found_of_ofCommand he (Expr.ne_empty_of_compile hcompile)
  obtain ⟨low, hlow, rfl⟩ := bind_pure_eq_ok_iff.mp (Expr.compile_none_eq_ok_iff.mp hcompile)
  obtain ⟨hcondition, hlabel⟩ := label_of_lowerCondition hlow
  refine ⟨e, he, hcompile, hfound, hcondition, ?_, ?_⟩
  · rw [Filter.text, Label.text, Bool.false_and, if_neg Bool.false_ne_true, hlabel,
      hfound.text_label]
  · rw [Label.ReadsBack, hlabel]

/-- A filter whose label reads back is read from its own text. -/
theorem Filter.ofText_text {t : String} {f : Filter}
    (h : Filter.ofText (empty.registerAll rs) t none = .ok f) (hreads : f.label.ReadsBack) :
    Filter.ofText (empty.registerAll rs) f.text none = .ok f := by
  obtain ⟨e, -, hcompile, hfound, hcondition, htext, hlabel⟩ := Filter.exists_expr h
  have hprintable := (readsBack_iff_printable (registered_added rs) hfound hcondition none).mp
    (hlabel.mp hreads)
  rw [htext]
  exact ofText_eq_ok_iff.mpr ⟨e, ofCommand_shown hprintable, hcompile⟩

end RecordFilter
