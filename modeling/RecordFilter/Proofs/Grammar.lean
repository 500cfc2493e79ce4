import RecordFilter.Expr.Reading
/-!
# The grammar of filters

What a list of tokens means, said without stacks and states: a grammar whose derivations assign a
tree to a run of tokens.  The symbols follow the way a filter is read from the left.  An expression
begins with an operand; after it comes a tail that depends on the tree read so far; after an
operator comes its right side; and after a finished operation the rest of a chain.

Groups with nothing in them are allowed wherever an operand can begin, and add nothing.

A derivation does not look at the positions of the tokens (`Derives.of_written_eq`).
-/

namespace RecordFilter

namespace Token

/-- Whether the token is a word, which is anything but a parenthesis outside quotes. -/
def isWord (t : Token) : Bool := !t.isParen '(' && !t.isParen ')'

def IsOperator (t : Token) (op : Operator) : Prop := t.quoted = false ∧ t.text = op.symbol

/-- What is written in the command for the token, which leaves its position open. -/
def written (t : Token) : String × Bool := (t.text, t.quoted)

end Token

namespace Grammar

/-- Groups with nothing but such groups in them. -/
inductive Blank : List Token → Prop where
  | nil : Blank []
  | group {opening closing : Token} {inner rest : List Token} (hopening : opening.isParen '(')
      (hinner : Blank inner) (hclosing : closing.isParen ')') (hrest : Blank rest) :
      Blank (opening :: (inner ++ closing :: rest))

/-- What a run of tokens can stand for. -/
inductive Symbol where
  /-- An expression that is not blank. -/
  | expr
  | operand
  /-- All that follows an operand of the given tree. -/
  | tail (left : Expr)
  /-- All that follows an operator and the blank behind it. -/
  | right (left : Expr) (op : Operator)
  /-- All that follows a finished operation. -/
  | rest (operation : Expr)

/-- The tokens, read as the symbol, have the tree. -/
inductive Derives (schema : Schema) : Symbol → List Token → Expr → Prop where
  | expr {blank operand tail : List Token} {left e : Expr} (hblank : Blank blank)
      (hoperand : Derives schema .operand operand left)
      (htail : Derives schema (.tail left) tail e) :
      Derives schema .expr (blank ++ (operand ++ tail)) e
  | column {word : Token} {column : Column} (hword : word.isWord)
      (hlookup : schema.lookup word.text = .ok (some column)) :
      Derives schema .operand [word] (.column column.name column.type)
  | group {opening closing : Token} {inner : List Token} {e : Expr}
      (hopening : opening.isParen '(') (hinner : Derives schema .expr inner e)
      (hclosing : closing.isParen ')') :
      Derives schema .operand (opening :: (inner ++ [closing])) e
  | ends {left : Expr} : Derives schema (.tail left) [] left
  | operator {token : Token} {op : Operator} {blank right : List Token} {left e : Expr}
      (hop : token.IsOperator op) (hblank : Blank blank)
      (hright : Derives schema (.right left op) right e) :
      Derives schema (.tail left) (token :: (blank ++ right)) e
  /-- A literal, which takes the type of the column on its left. -/
  | literal {word : Token} {op : Operator} {name : String} {type : ColumnType} {value : Value}
      {rest : List Token} {e : Expr} (hop : ∀ connective, op ≠ .connective connective)
      (hword : word.isWord) (hvalue : Value.ofLiteral word.text type = .ok value)
      (hrest : Derives schema (.rest (.binary op (.column name type) (.constant value))) rest e) :
      Derives schema (.right (.column name type) op) (word :: rest) e
  | rightGroup {opening closing : Token} {op : Operator} {inner rest : List Token}
      {left right e : Expr} (hopening : opening.isParen '(')
      (hinner : Derives schema .expr inner right) (hclosing : closing.isParen ')')
      (hrest : Derives schema (.rest (.binary op left right)) rest e) :
      Derives schema (.right left op) (opening :: (inner ++ closing :: rest)) e
  /-- A word after a connective begins an operand, and all that follows belongs to it. -/
  | connective {word : Token} {column : Column} {op : Connective} {tail : List Token}
      {left right : Expr} (hword : word.isWord)
      (hlookup : schema.lookup word.text = .ok (some column))
      (htail : Derives schema (.tail (.column column.name column.type)) tail right) :
      Derives schema (.right left (.connective op)) (word :: tail)
        (.binary (.connective op) left right)
  | stops {operation : Expr} : Derives schema (.rest operation) [] operation
  | chain {token : Token} {op : Operator} {next : List Token} {operation right : Expr}
      (hop : token.IsOperator op) (hnext : Derives schema .expr next right) :
      Derives schema (.rest operation) (token :: next) (.binary op operation right)

/-- The tokens write the expression: they are blank and it is empty, or they derive it. -/
def Writes (schema : Schema) (tokens : List Token) (e : Expr) : Prop :=
  (Blank tokens ∧ e = .empty) ∨ Derives schema .expr tokens e

/-! ### Words, parentheses and operators -/

theorem isWord_iff {t : Token} :
    t.isWord = true ↔ t.isParen '(' = false ∧ t.isParen ')' = false := by
  simp [Token.isWord]

theorem not_opening_of_word {t : Token} (h : t.isWord = true) : ¬ t.isParen '(' = true := by
  simp [(isWord_iff.mp h).1]

theorem not_closing_of_opening {t : Token} (h : t.isParen '(' = true) : t.isParen ')' = false := by
  simp only [Token.isParen, Bool.and_eq_true, beq_iff_eq] at h
  simp [Token.isParen, h.2]

theorem isWord_of_isOperator {t : Token} {op : Operator} (h : t.IsOperator op) :
    t.isWord = true := by
  have hsymbol : op.symbol ≠ "(" ∧ op.symbol ≠ ")" := by
    cases op with
    | connective op => cases op <;> decide
    | comparison op => cases op <;> decide
    | textTest op => cases op <;> decide
  simp [isWord_iff, Token.isParen, h.2, hsymbol]

/-- A token is the symbol of one operator at most. -/
theorem operator_unique {t : Token} {op op' : Operator} (h : t.IsOperator op)
    (h' : t.IsOperator op') : op = op' := by
  have hop : Operator.ofSymbol? t.text = some op := Operator.ofSymbol?_eq_some_iff.mpr h.2
  have hop' : Operator.ofSymbol? t.text = some op' := Operator.ofSymbol?_eq_some_iff.mpr h'.2
  exact Option.some.inj (hop.symm.trans hop')

/-! ### Blanks -/

/-- What a blank and a list of tokens begin with, if it is no parenthesis, begins the list. -/
theorem Blank.eq_nil_of_word {blank rest tokens : List Token} {t : Token} (hblank : Blank blank)
    (heq : t :: tokens = blank ++ rest) (ht : t.isWord = true) : blank = [] := by
  cases hblank with
  | nil => rfl
  | group hopening =>
    obtain ⟨rfl, -⟩ := List.cons.inj heq
    exact absurd hopening (not_opening_of_word ht)

/-! ### The first token of a derivation -/

variable {schema : Schema} {symbol : Symbol} {tokens : List Token} {e : Expr}

theorem Blank.head_not_closing {blank : List Token} (h : Blank blank) :
    ∀ t ∈ blank.head?, t.isParen ')' = false := by
  cases h with
  | nil => simp
  | group hopening => simpa using not_closing_of_opening hopening

theorem Derives.head_not_closing (h : Derives schema symbol tokens e) :
    ∀ t ∈ tokens.head?, t.isParen ')' = false := by
  induction h with
  | expr hblank hoperand _ ihoperand =>
    cases hblank with
    | nil => cases hoperand <;> simpa using ihoperand
    | group hopening => simpa using not_closing_of_opening hopening
  | column hword => simpa using (isWord_iff.mp hword).2
  | group hopening => simpa using not_closing_of_opening hopening
  | ends => simp
  | operator hop => simpa using (isWord_iff.mp (isWord_of_isOperator hop)).2
  | literal _ hword => simpa using (isWord_iff.mp hword).2
  | rightGroup hopening => simpa using not_closing_of_opening hopening
  | connective hword => simpa using (isWord_iff.mp hword).2
  | stops => simp
  | chain hop => simpa using (isWord_iff.mp (isWord_of_isOperator hop)).2

/-- Only a tail and a rest can be derived from no tokens at all. -/
theorem Derives.eq_of_nil (h : Derives schema symbol [] e) :
    symbol = .tail e ∨ symbol = .rest e := by
  generalize htokens : [] = tokens at h
  cases h with
  | expr _ hoperand => cases hoperand <;> simp at htokens
  | ends => exact .inl rfl
  | stops => exact .inr rfl
  | _ => cases htokens

/-! ### Without blanks -/

theorem Derives.expr_of_operand {operand tail : List Token} {left : Expr}
    (hoperand : Derives schema .operand operand left) (htail : Derives schema (.tail left) tail e) :
    Derives schema .expr (operand ++ tail) e :=
  Derives.expr .nil hoperand htail

theorem Derives.tail_of_right {token : Token} {op : Operator} {left : Expr} {right : List Token}
    (hop : token.IsOperator op) (hright : Derives schema (.right left op) right e) :
    Derives schema (.tail left) (token :: right) e :=
  Derives.operator hop .nil hright

/-! ### Trees that are not empty -/

/-- Whether the tree that a symbol brings along, if it does, is not empty. -/
def Symbol.Proper : Symbol → Prop
  | tail left => left ≠ .empty
  | rest operation => operation ≠ .empty
  | _ => True

/-- A tree is empty only where the symbol brings an empty one along. -/
theorem Derives.ne_empty (h : Derives schema symbol tokens e) (hsymbol : symbol.Proper) :
    e ≠ .empty := by
  induction h with
  | expr _ _ _ ihoperand ihtail => exact ihtail (ihoperand trivial)
  | column => nofun
  | group _ _ _ ih => exact ih trivial
  | ends => exact hsymbol
  | operator _ _ _ ih => exact ih trivial
  | literal _ _ _ _ ih => exact ih nofun
  | rightGroup _ _ _ _ _ ih => exact ih nofun
  | connective => nofun
  | stops => exact hsymbol
  | chain => nofun

theorem writes_empty_iff : Writes schema tokens .empty ↔ Blank tokens := by
  constructor
  · rintro (⟨h, -⟩ | h)
    · exact h
    · exact absurd rfl (h.ne_empty trivial)
  · exact fun h => .inl ⟨h, rfl⟩

theorem writes_iff_of_ne_empty (he : e ≠ .empty) :
    Writes schema tokens e ↔ Derives schema .expr tokens e := by
  simp [Writes, he]

/-! ### What every tree has -/

def Symbol.LeftHas (P : Expr → Prop) : Symbol → Prop
  | tail left => P left
  | right left _ => P left
  | rest operation => P operation
  | _ => True

/-- Trees are columns, columns with a literal to the right of an operator, and operations on trees.
    What these have, every tree has. -/
theorem Derives.tree_induction {P : Expr → Prop} {Q : Token → Prop}
    (hcolumn : ∀ word column, Q word → schema.lookup word.text = .ok (some column) →
      P (.column column.name column.type))
    (hliteral : ∀ word op name type value, Q word → (∀ connective, op ≠ .connective connective) →
      P (.column name type) → Value.ofLiteral word.text type = .ok value →
      P (.binary op (.column name type) (.constant value)))
    (hoperation : ∀ op left right, P left → P right → P (.binary op left right))
    (h : Derives schema symbol tokens e) (htokens : ∀ t ∈ tokens, Q t)
    (hsymbol : symbol.LeftHas P) : P e := by
  -- A symbol may bring along a tree that was read before, for which `hsymbol` speaks.
  induction h with
  | expr _ _ _ ihoperand ihtail =>
    simp only [List.forall_mem_append] at htokens
    exact ihtail htokens.2.2 (ihoperand htokens.2.1 trivial)
  | column _ hlookup =>
    rw [List.forall_mem_cons] at htokens
    exact hcolumn _ _ htokens.1 hlookup
  | group _ _ _ ih =>
    simp only [List.forall_mem_cons, List.forall_mem_append] at htokens
    exact ih htokens.2.1 trivial
  | ends => exact hsymbol
  | operator _ _ _ ih =>
    simp only [List.forall_mem_cons, List.forall_mem_append] at htokens
    exact ih htokens.2.2 hsymbol
  | literal hop _ hvalue _ ih =>
    rw [List.forall_mem_cons] at htokens
    exact ih htokens.2 (hliteral _ _ _ _ _ htokens.1 hop hsymbol hvalue)
  | rightGroup _ _ _ _ ihinner ihrest =>
    simp only [List.forall_mem_cons, List.forall_mem_append] at htokens
    exact ihrest htokens.2.2.2 (hoperation _ _ _ hsymbol (ihinner htokens.2.1 trivial))
  | connective _ hlookup _ ih =>
    rw [List.forall_mem_cons] at htokens
    exact hoperation _ _ _ hsymbol (ih htokens.2 (hcolumn _ _ htokens.1 hlookup))
  | stops => exact hsymbol
  | chain _ _ ih =>
    rw [List.forall_mem_cons] at htokens
    exact hoperation _ _ _ hsymbol (ih htokens.2 trivial)

/-! ### Positions do not matter -/

theorem isParen_of_written_eq {t u : Token} (h : t.written = u.written) (paren : Char) :
    t.isParen paren = u.isParen paren := by
  obtain ⟨htext, hquoted⟩ := Prod.mk.inj h
  simp [Token.isParen, htext, hquoted]

theorem isWord_of_written_eq {t u : Token} (h : t.written = u.written) : t.isWord = u.isWord := by
  simp only [Token.isWord, isParen_of_written_eq h]

theorem isOperator_of_written_eq {t u : Token} (h : t.written = u.written) {op : Operator}
    (hop : u.IsOperator op) : t.IsOperator op := by
  obtain ⟨htext, hquoted⟩ := Prod.mk.inj h
  exact ⟨hquoted.trans hop.1, htext.trans hop.2⟩

/-- Where tokens stand makes no difference to their being blank. -/
theorem Blank.of_written_eq (h : Blank tokens) :
    ∀ {others : List Token}, others.map Token.written = tokens.map Token.written →
      Blank others := by
  induction h with
  | nil =>
    intro others heq
    rw [List.map_eq_nil_iff.mp heq]
    exact .nil
  | group hopening _ hclosing _ ihinner ihrest =>
    intro others heq
    simp only [List.map_cons, List.map_append, List.map_eq_cons_iff, List.map_eq_append_iff] at heq
    obtain ⟨opening, _, rfl, hopen, inner, _, rfl, hinner, closing, rest, rfl, hclose, hrest⟩ := heq
    exact .group ((isParen_of_written_eq hopen _).trans hopening) (ihinner hinner)
      ((isParen_of_written_eq hclose _).trans hclosing) (ihrest hrest)

/-- A derivation carries over to tokens that are written alike. -/
theorem Derives.of_written_eq (h : Derives schema symbol tokens e) :
    ∀ {others : List Token}, others.map Token.written = tokens.map Token.written →
      Derives schema symbol others e := by
  -- In each case the other tokens are split where these were, and the parts go on.
  induction h with
  | expr hblank _ _ ihoperand ihtail =>
    intro others heq
    simp only [List.map_append, List.map_eq_append_iff] at heq
    obtain ⟨blank, _, rfl, hb, operand, tail, rfl, ho, ht⟩ := heq
    exact .expr (hblank.of_written_eq hb) (ihoperand ho) (ihtail ht)
  | column hword hlookup =>
    intro others heq
    simp only [List.map_cons, List.map_nil, List.map_eq_cons_iff, List.map_eq_nil_iff] at heq
    obtain ⟨word, _, rfl, hw, rfl⟩ := heq
    refine .column ((isWord_of_written_eq hw).trans hword) ?_
    rw [(Prod.mk.inj hw).1]
    exact hlookup
  | group hopening _ hclosing ih =>
    intro others heq
    simp only [List.map_cons, List.map_append, List.map_nil, List.map_eq_cons_iff,
      List.map_eq_append_iff, List.map_eq_nil_iff] at heq
    obtain ⟨opening, _, rfl, hopen, inner, _, rfl, hinner, closing, _, rfl, hclose, rfl⟩ := heq
    exact .group ((isParen_of_written_eq hopen _).trans hopening) (ih hinner)
      ((isParen_of_written_eq hclose _).trans hclosing)
  | ends =>
    intro others heq
    rw [List.map_eq_nil_iff.mp heq]
    exact .ends
  | operator hop hblank _ ih =>
    intro others heq
    simp only [List.map_cons, List.map_append, List.map_eq_cons_iff, List.map_eq_append_iff] at heq
    obtain ⟨token, _, rfl, ht, blank, right, rfl, hb, hr⟩ := heq
    exact .operator (isOperator_of_written_eq ht hop) (hblank.of_written_eq hb) (ih hr)
  | literal hop hword hvalue _ ih =>
    intro others heq
    simp only [List.map_cons, List.map_eq_cons_iff] at heq
    obtain ⟨word, rest, rfl, hw, hr⟩ := heq
    refine .literal hop ((isWord_of_written_eq hw).trans hword) ?_ (ih hr)
    rw [(Prod.mk.inj hw).1]
    exact hvalue
  | rightGroup hopening _ hclosing _ ihinner ihrest =>
    intro others heq
    simp only [List.map_cons, List.map_append, List.map_eq_cons_iff, List.map_eq_append_iff] at heq
    obtain ⟨opening, _, rfl, hopen, inner, _, rfl, hinner, closing, rest, rfl, hclose, hrest⟩ := heq
    exact .rightGroup ((isParen_of_written_eq hopen _).trans hopening) (ihinner hinner)
      ((isParen_of_written_eq hclose _).trans hclosing) (ihrest hrest)
  | connective hword hlookup _ ih =>
    intro others heq
    simp only [List.map_cons, List.map_eq_cons_iff] at heq
    obtain ⟨word, tail, rfl, hw, ht⟩ := heq
    refine .connective ((isWord_of_written_eq hw).trans hword) ?_ (ih ht)
    rw [(Prod.mk.inj hw).1]
    exact hlookup
  | stops =>
    intro others heq
    rw [List.map_eq_nil_iff.mp heq]
    exact .stops
  | chain hop _ ih =>
    intro others heq
    simp only [List.map_cons, List.map_eq_cons_iff] at heq
    obtain ⟨token, next, rfl, ht, hn⟩ := heq
    exact .chain (isOperator_of_written_eq ht hop) (ih hn)

end Grammar

end RecordFilter
