import RecordFilter.Command.Lexer
import RecordFilter.Proofs.Compilation
import RecordFilter.Proofs.Reading
/-!
# Chains of connectives

A chain joins links by connectives.  A link is a column, a comparison or text test of a column with
a literal, or a group.  Every chain is read, and its tree is `Chain.tree`.

As a rule a chain nests to the right.  There is one exception.  After a column or a group the
operator waits for its right operand, and a group that comes next is that operand; it completes the
operation, and a connective behind it goes on from there:

    hidden && (a < 1) || b    is    (hidden && (a < 1)) || b

A comparison is complete before its connective is read, so in its place the chain nests to the
right.  `tree_eq_rightNested_iff` says that nothing else makes a chain nest differently.
-/

namespace RecordFilter

open Grammar

/-- The tokens are read as the expression, whatever text they stand in. -/
def Reads (schema : Schema) (tokens : List Token) (e : Expr) : Prop :=
  ∀ text, Expr.ofCommand schema ⟨text, tokens⟩ = .ok e

theorem reads_iff_writes {schema : Schema} {tokens : List Token} {e : Expr} :
    Reads schema tokens e ↔ Writes schema tokens e := by
  simp only [Reads, ofCommand_eq_ok_iff, ofTokens_eq_ok_iff, forall_const]

/-! ### Links and chains -/

/-- An operand of a chain, with the tree that it is read as on its own. -/
inductive Link (schema : Schema) where
  | column (word : Token) (tree : Expr) (hword : word.isWord = true)
      (hreads : Reads schema [word] tree)
  | condition (word operator literal : Token) (op : Operator) (tree : Expr)
      (hword : word.isWord = true) (hop : operator.IsOperator op)
      (hkind : ∀ connective, op ≠ .connective connective) (hliteral : literal.isWord = true)
      (hreads : Reads schema [word, operator, literal] tree)
  | group (opening : Token) (inner : List Token) (closing : Token) (tree : Expr)
      (hopening : opening.isParen '(' = true) (hclosing : closing.isParen ')' = true)
      (hreads : Reads schema inner tree) (htree : tree ≠ .empty)

/-- Links with a connective between any two neighbours. -/
inductive Chain (schema : Schema) where
  | last (link : Link schema)
  | join (link : Link schema) (token : Token) (op : Connective)
      (hop : token.IsOperator (.connective op)) (rest : Chain schema)

variable {schema : Schema}

namespace Link

def tokens : Link schema → List Token
  | column word .. => [word]
  | condition word operator literal .. => [word, operator, literal]
  | group opening inner closing .. => opening :: (inner ++ [closing])

def tree : Link schema → Expr
  | column _ tree .. => tree
  | condition _ _ _ _ tree .. => tree
  | group _ _ _ tree .. => tree

def isCondition : Link schema → Bool
  | condition .. => true
  | _ => false

def isGroup : Link schema → Bool
  | group .. => true
  | _ => false

end Link

namespace Chain

def tokens : Chain schema → List Token
  | last link => link.tokens
  | join link token _ _ rest => link.tokens ++ token :: rest.tokens

/-- The tree in which every connective has its link on the left and the rest of the chain on the
    right. -/
def rightNested : Chain schema → Expr
  | last link => link.tree
  | join link _ op _ rest => .binary (.connective op) link.tree rest.rightNested

/-- The tree that the chain is read as. -/
def tree : Chain schema → Expr
  | last link => link.tree
  | join a _ op _ (last b) => .binary (.connective op) a.tree b.tree
  | join a _ op _ (join b token op' hop' rest) =>
    if b.isGroup ∧ ¬ a.isCondition then
      .binary (.connective op') (.binary (.connective op) a.tree b.tree) rest.tree
    else .binary (.connective op) a.tree (join b token op' hop' rest).tree

/-- Wherever a group stands between two connectives, a condition stands in front of it. -/
def NestsRight : Chain schema → Prop
  | last _ => True
  | join _ _ _ _ (last _) => True
  | join a _ _ _ (join b token op' hop' rest) =>
    (b.isGroup → a.isCondition) ∧ (join b token op' hop' rest).NestsRight

end Chain

/-! ### Links in the grammar -/

namespace Link

theorem derives_operand {link : Link schema} (h : ¬ link.isCondition) :
    Derives schema .operand link.tokens link.tree := by
  cases link with
  | column word tree hword hreads =>
    have hwrites : Writes schema [word] tree := reads_iff_writes.mp hreads
    obtain ⟨left, hleft, hnil⟩ := (Pending.finishes_start_word_iff hword).mp hwrites
    obtain ⟨column, hlookup, rfl⟩ := resolve_eq_ok_iff.mp hleft
    cases Pending.finishes_nil_iff.mp hnil
    exact .column hword hlookup
  | condition => exact absurd rfl h
  | group opening inner closing tree hopening hclosing hreads htree =>
    exact .group hopening ((writes_iff_of_ne_empty htree).mp (reads_iff_writes.mp hreads)) hclosing

/-- A condition is finished before what follows it is read. -/
theorem derives_condition {link : Link schema} (h : link.isCondition) {tokens : List Token}
    {e : Expr} (hrest : Derives schema (.rest link.tree) tokens e) :
    Derives schema .expr (link.tokens ++ tokens) e := by
  cases link with
  | condition word operator literal op tree hword hop hkind hliteral hreads =>
    have hwrites : Writes schema [word, operator, literal] tree := reads_iff_writes.mp hreads
    -- The three tokens can only have been read as column, operator and literal.
    obtain ⟨left, hleft, htail⟩ := (Pending.finishes_start_word_iff hword).mp hwrites
    obtain ⟨op', hop', hright⟩ := Pending.finishes_operand_word_iff.mp htail
    obtain rfl : op' = op := operator_unique (operator_eq_ok_iff.mp hop') hop
    obtain ⟨right, hread, hnil⟩ := (Pending.finishes_literal_word_iff hliteral hkind).mp hright
    cases Pending.finishes_nil_iff.mp hnil
    obtain ⟨column, hlookup, rfl⟩ := resolve_eq_ok_iff.mp hleft
    obtain ⟨_, _, value, ⟨⟩, hvalue, rfl⟩ := literal_eq_ok_iff.mp hread
    exact (Derives.column hword hlookup).expr_of_operand
      (.tail_of_right hop (.literal hkind hliteral hvalue hrest))
  | _ => cases h

theorem derives_tree (link : Link schema) : Derives schema .expr link.tokens link.tree := by
  by_cases hcondition : link.isCondition
  · simpa using link.derives_condition hcondition .stops
  · simpa using (link.derives_operand hcondition).expr_of_operand .ends

/-- Where an expression can be read, it can be read behind a connective, if it begins with a
    word. -/
theorem derives_right_of_word {word : Token} {tokens : List Token} {left right : Expr}
    {op : Connective} (hword : word.isWord = true)
    (h : Derives schema .expr (word :: tokens) right) :
    Derives schema (.right left (.connective op)) (word :: tokens)
      (.binary (.connective op) left right) := by
  have hstart : Pending.start.Finishes schema (word :: tokens) right := .inr h
  obtain ⟨column, hcolumn, htail⟩ := (Pending.finishes_start_word_iff hword).mp hstart
  obtain ⟨column, hlookup, rfl⟩ := resolve_eq_ok_iff.mp hcolumn
  exact .connective hword hlookup htail

/-- A condition, or what a word follows, has the rest of the chain as its right operand. -/
theorem derives_join {a b : Link schema} {token : Token} {op : Connective}
    (hop : token.IsOperator (.connective op)) (hab : b.isGroup → a.isCondition)
    {tokens : List Token} {e : Expr} (hrest : Derives schema .expr (b.tokens ++ tokens) e) :
    Derives schema .expr (a.tokens ++ token :: (b.tokens ++ tokens))
      (.binary (.connective op) a.tree e) := by
  by_cases hcondition : a.isCondition
  · exact a.derives_condition hcondition (.chain hop hrest)
  · have hoperand := a.derives_operand hcondition
    have hright : Derives schema (.right a.tree (.connective op)) (b.tokens ++ tokens)
        (.binary (.connective op) a.tree e) := by
      -- The right side begins with a word, since a group in that place is excluded.
      cases b with
      | column word tree hword => exact derives_right_of_word hword hrest
      | condition word operator literal op' tree hword => exact derives_right_of_word hword hrest
      | group => exact absurd (hab rfl) hcondition
    exact hoperand.expr_of_operand (.tail_of_right hop hright)

/-- A group after a column or a group completes the operation. -/
theorem derives_pair {a b : Link schema} {token : Token} {op : Connective}
    (hop : token.IsOperator (.connective op)) (ha : ¬ a.isCondition) (hb : b.isGroup)
    {tokens : List Token} {e : Expr}
    (hrest : Derives schema (.rest (.binary (.connective op) a.tree b.tree)) tokens e) :
    Derives schema .expr (a.tokens ++ token :: (b.tokens ++ tokens)) e := by
  cases b with
  | group opening inner closing tree hopening hclosing hreads htree =>
    have hinner : Derives schema .expr inner tree :=
      (writes_iff_of_ne_empty htree).mp (reads_iff_writes.mp hreads)
    have hright := Derives.rightGroup hopening hinner hclosing hrest
    have hexpr := (a.derives_operand ha).expr_of_operand (.tail_of_right hop hright)
    simpa [Link.tokens] using hexpr
  | _ => cases hb

end Link

/-! ### Chains are read -/

namespace Chain

theorem derives_tree (chain : Chain schema) : Derives schema .expr chain.tokens chain.tree := by
  fun_induction tree chain with
  | case1 link => exact link.derives_tree
  | case2 a token op hop b =>
    rw [tokens, tokens, ← List.append_nil b.tokens]
    by_cases hpair : b.isGroup ∧ ¬ a.isCondition
    · exact Link.derives_pair hop hpair.2 hpair.1 .stops
    · exact Link.derives_join hop (by simpa using hpair) (by simpa using b.derives_tree)
  | case3 a token op hop b token' op' hop' rest hpair ih =>
    exact Link.derives_pair hop hpair.2 hpair.1 (.chain hop' ih)
  | case4 a token op hop b token' op' hop' rest hpair ih =>
    exact Link.derives_join hop (by simpa using hpair) ih

/-! ### Chains that nest to the right -/

theorem ne_binary_self {op : Operator} {left right : Expr} : left ≠ .binary op left right := by
  intro h
  have hsize := congrArg sizeOf h
  simp only [Expr.binary.sizeOf_spec] at hsize
  omega

/-- Nothing else makes a chain nest differently. -/
theorem tree_eq_rightNested_iff (chain : Chain schema) :
    chain.tree = chain.rightNested ↔ chain.NestsRight := by
  -- The cases are those of `tree`; the third is the one that nests to the left.
  fun_induction tree chain with
  | case1 link => simp [rightNested, NestsRight]
  | case2 a token op hop b => simp [rightNested, NestsRight]
  | case3 a token op hop b token' op' hop' rest hpair ih =>
    -- Were the trees equal, the first link would be an operation with itself as its left side.
    have hleft : Expr.binary (.connective op) a.tree b.tree ≠ a.tree := ne_binary_self.symm
    simp [rightNested, NestsRight, hpair, hleft]
  | case4 a token op hop b token' op' hop' rest hpair ih =>
    have hab : b.isGroup → a.isCondition := by simpa using hpair
    rw [rightNested, NestsRight, Expr.binary.injEq, ih]
    simpa using fun _ => hab

/-- **Chains and their trees.**  Every chain is read as its tree.  This is the tree that nests to
    the right exactly when no group with connectives on both sides stands behind a column or
    another group. -/
theorem ofCommand_chain (chain : Chain schema) (text : String) :
    Expr.ofCommand schema ⟨text, chain.tokens⟩ = .ok chain.tree ∧
      (Expr.ofCommand schema ⟨text, chain.tokens⟩ = .ok chain.rightNested ↔ chain.NestsRight) := by
  have hreads : Expr.ofCommand schema ⟨text, chain.tokens⟩ = .ok chain.tree :=
    reads_iff_writes.mpr (.inr chain.derives_tree) text
  refine ⟨hreads, ?_⟩
  rw [hreads, Except.ok.injEq]
  exact chain.tree_eq_rightNested_iff

/-! ### A chain that does not -/

theorem reads_of_ofTokens {tokens : List Token} {e : Expr}
    (h : Expr.ofTokens schema tokens 0 = .ok e) : Reads schema tokens e :=
  reads_iff_writes.mpr (ofTokens_eq_ok_iff.mp h)

/-- The chain `hidden && (length < 1) || length < 2`. -/
def groupBetween : Chain fileSchema :=
  .join (.column ⟨"hidden", 0, false⟩ (.column "hidden" .boolean) (by decide)
      (reads_of_ofTokens (by decide +kernel)))
    ⟨"&&", 7, false⟩ .and ⟨rfl, rfl⟩
  (.join (.group ⟨"(", 10, false⟩
      [⟨"length", 11, false⟩, ⟨"<", 18, false⟩, ⟨"1", 20, false⟩] ⟨")", 21, false⟩ (.shorter 1)
      (by decide) (by decide) (reads_of_ofTokens (by decide +kernel)) nofun)
    ⟨"||", 23, false⟩ .or ⟨rfl, rfl⟩
  (.last (.condition ⟨"length", 26, false⟩ ⟨"<", 33, false⟩ ⟨"2", 35, false⟩ (.comparison .less)
      (.shorter 2) (by decide) ⟨rfl, rfl⟩ nofun (by decide)
      (reads_of_ofTokens (by decide +kernel)))))

theorem groupBetween_nests_left :
    (Command.ofText "hidden && (length < 1) || length < 2").tokens = groupBetween.tokens ∧
      Expr.ofCommand fileSchema (Command.ofText "hidden && (length < 1) || length < 2") =
        .ok (.binary (.connective .or)
          (.binary (.connective .and) (.column "hidden" .boolean) (.shorter 1)) (.shorter 2)) ∧
      groupBetween.rightNested =
        .binary (.connective .and) (.column "hidden" .boolean)
          (.binary (.connective .or) (.shorter 1) (.shorter 2)) ∧
      Expr.ofCommand fileSchema (Command.ofText "hidden && (length < 1) || length < 2") ≠
        .ok groupBetween.rightNested := by
  refine ⟨by decide +kernel, by decide +kernel, rfl, by decide +kernel⟩

end Chain

end RecordFilter
