import RecordFilter.Proofs.Except
import RecordFilter.Proofs.Grammar
/-!
# Reading follows the grammar

The states of the reader stand for symbols of the grammar.  A pending operation says which symbol
the next tokens have to be read as (`Pending.Finishes`), and the stack says what has to follow once
that symbol has its tree (`Resumes`).  Together they give every state the list of expressions that
the rest of a command can still become (`ParseState.Completes`).

One step of the reader takes exactly one token off that rest (`completes_cons_iff`), and at the end
of the command only the expression that is finished remains (`completes_nil_iff`).  An induction on
the tokens then says that a command is read as the tree that the grammar gives it, and that every
other command is refused.
-/

namespace RecordFilter

open Grammar

variable {schema : Schema}

/-! ### What is left to read -/

/-- The tokens finish the pending operation as the expression, with no parenthesis closed that
    was open before. -/
def Pending.Finishes (schema : Schema) : Pending → List Token → Expr → Prop
  | start, tokens, e => Writes schema tokens e
  | operand left, tokens, e => Derives schema (.tail left) tokens e
  | awaiting left op _, tokens, e =>
    ∃ blank right, tokens = blank ++ right ∧ Blank blank ∧ Derives schema (.right left op) right e
  | complete left op _ right, tokens, e =>
    Derives schema (.rest (.binary op left right)) tokens e

/-- Once the operation above the stack is finished as `part`, the tokens lead to the expression. -/
def Resumes (schema : Schema) : List Frame → Expr → List Token → Expr → Prop
  | [], part, tokens, e => tokens = [] ∧ part = e
  | .chain outer :: rest, part, tokens, e =>
    ∃ next whole, outer.add part = .ok next ∧ next.finish = .ok whole ∧
      Resumes schema rest whole tokens e
  | .group outer _ :: rest, part, tokens, e =>
    ∃ closing inner outside next whole, tokens = closing :: (inner ++ outside) ∧
      closing.isParen ')' = true ∧ outer.add part = .ok next ∧
      next.Finishes schema inner whole ∧ Resumes schema rest whole outside e

/-- From the state, the tokens lead to the expression. -/
def ParseState.Completes (schema : Schema) (s : ParseState) (tokens : List Token) (e : Expr) :
    Prop :=
  ∃ inner outside part, tokens = inner ++ outside ∧ s.pending.Finishes schema inner part ∧
    Resumes schema s.stack part outside e

/-! ### What a token can stand for -/

@[simp] theorem resolve_eq_ok_iff {token : Token} {e : Expr} :
    ParseState.resolve schema token = .ok e ↔
      ∃ column, schema.lookup token.text = .ok (some column) ∧
        e = .column column.name column.type := by
  unfold ParseState.resolve
  split
  · next column h => simp [h, eq_comm]
  · next h => simp [h]
  · next h => simp [h]

@[simp] theorem operator_eq_ok_iff {token : Token} {op : Operator} :
    ParseState.operator token = .ok op ↔ token.IsOperator op := by
  unfold ParseState.operator Token.IsOperator
  cases hquoted : token.quoted with
  | true => simp
  | false =>
    simp only [Bool.false_eq_true, if_false, true_and, ← Operator.ofSymbol?_eq_some_iff]
    cases Operator.ofSymbol? token.text <;> simp

@[simp] theorem literal_eq_ok_iff {left e : Expr} {token : Token} :
    ParseState.literal left token = .ok e ↔
      ∃ name type value, left = .column name type ∧
        Value.ofLiteral token.text type = .ok value ∧ e = .constant value := by
  unfold ParseState.literal
  constructor
  · intro h
    cases left with
    | column name type =>
      simp only [Expr.columnType?] at h
      split at h
      · next value hvalue =>
        cases h
        exact ⟨name, type, value, rfl, hvalue, rfl⟩
      · cases h
    | _ => cases h
  · rintro ⟨name, type, value, rfl, hvalue, rfl⟩
    simp only [Expr.columnType?, hvalue]

/-! ### One symbol, one pending operation -/

namespace Pending

variable {p : Pending} {t : Token} {tokens : List Token} {e part : Expr}

@[simp] theorem add_empty : p.add .empty = .ok p := rfl

theorem add_start (h : part ≠ .empty) : start.add part = .ok (operand part) := by
  cases part <;> first | rfl | exact absurd rfl h

theorem add_awaiting (h : part ≠ .empty) {left : Expr} {op : Operator} {position : Nat} :
    (awaiting left op position).add part = .ok (complete left op position part) := by
  cases part <;> first | rfl | exact absurd rfl h

/-- With no token left the operation is finished as it stands. -/
theorem finishes_nil_iff : p.Finishes schema [] e ↔ p.finish = .ok e := by
  -- With nothing more to read each operation is the tree it has, if it has one.
  cases p with
  | start =>
    constructor
    · rintro (⟨-, rfl⟩ | h)
      · rfl
      · cases h.eq_of_nil <;> contradiction
    · rintro ⟨⟩
      exact .inl ⟨.nil, rfl⟩
  | operand left =>
    constructor
    · intro h
      rcases Derives.eq_of_nil h with ⟨⟨⟩⟩ | h
      · rfl
      · cases h
    · rintro ⟨⟩
      exact .ends
  | awaiting left op position =>
    constructor
    · rintro ⟨blank, right, hnil, -, hright⟩
      obtain ⟨-, rfl⟩ := List.append_eq_nil_iff.mp hnil.symm
      cases hright.eq_of_nil <;> contradiction
    · nofun
  | complete left op position right =>
    constructor
    · intro h
      rcases Derives.eq_of_nil h with h | ⟨⟨⟩⟩
      · cases h
      · rfl
    · rintro ⟨⟩
      exact .stops

theorem Finishes.head_not_closing (h : p.Finishes schema (t :: tokens) e) :
    t.isParen ')' = false := by
  -- Whatever symbol the operation stands for, none begins with a closing parenthesis.
  cases p with
  | start =>
    rcases h with ⟨hblank, -⟩ | h
    · exact hblank.head_not_closing t rfl
    · exact h.head_not_closing t rfl
  | operand left => exact Derives.head_not_closing h t rfl
  | awaiting left op position =>
    obtain ⟨blank, right, heq, hblank, hright⟩ := h
    cases hblank with
    | nil => exact hright.head_not_closing t (by rw [← List.nil_append right, ← heq]; rfl)
    | group hopening =>
      obtain ⟨rfl, -⟩ := List.cons.inj heq
      exact not_closing_of_opening hopening
  | complete left op position right => exact Derives.head_not_closing h t rfl

/-! ### A group begins -/

/-- At the start a group is the first operand, or adds nothing when it is empty. -/
theorem finishes_start_opening_iff (ht : t.isParen '(' = true) :
    start.Finishes schema (t :: tokens) e ↔
      ∃ inner closing rest part next, tokens = inner ++ closing :: rest ∧
        closing.isParen ')' = true ∧ Writes schema inner part ∧ start.add part = .ok next ∧
        next.Finishes schema rest e := by
  constructor
  · rintro (⟨hblank, rfl⟩ | h)
    · cases hblank with
      | group _ hinner hclosing hrest =>
        exact ⟨_, _, _, .empty, start, rfl, hclosing, writes_empty_iff.mpr hinner, rfl,
          writes_empty_iff.mpr hrest⟩
    · generalize heq : t :: tokens = all at h
      cases h with
      | expr hblank hoperand htail =>
        cases hblank with
        | nil =>
          cases hoperand with
          | column hword =>
            obtain ⟨rfl, -⟩ := List.cons.inj heq
            exact absurd ht (not_opening_of_word hword)
          | group _ hinner hclosing =>
            obtain ⟨rfl, rfl⟩ := List.cons.inj heq
            exact ⟨_, _, _, _, _, by simp, hclosing, .inr hinner,
              add_start (hinner.ne_empty trivial), htail⟩
        | group _ hinner hclosing hrest =>
          obtain ⟨rfl, rfl⟩ := List.cons.inj heq
          exact ⟨_, _, _, .empty, start, by simp, hclosing, writes_empty_iff.mpr hinner, rfl,
            .inr (.expr hrest hoperand htail)⟩
  · rintro ⟨inner, closing, rest, part, next, rfl, hclosing, hinner, hadd, hnext⟩
    -- An empty group adds nothing, so the grammar reads it as blank in front of the operand.
    by_cases hpart : part = .empty
    · subst hpart
      cases hadd
      have hgroup : Blank inner := writes_empty_iff.mp hinner
      rcases hnext with ⟨hrest, rfl⟩ | h
      · exact .inl ⟨.group ht hgroup hclosing hrest, rfl⟩
      · cases h with
        | expr hblank hoperand htail =>
          have hexpr := Derives.expr (.group ht hgroup hclosing hblank) hoperand htail
          exact .inr (by simpa using hexpr)
    · rw [add_start hpart] at hadd
      cases hadd
      have hgroup : Derives schema .expr inner part := (writes_iff_of_ne_empty hpart).mp hinner
      have hexpr := Derives.expr .nil (.group ht hgroup hclosing) hnext
      exact .inr (by simpa using hexpr)

/-- After an operator a group is the right operand, or adds nothing when it is empty. -/
theorem finishes_awaiting_opening_iff {left : Expr} {op : Operator} {position : Nat}
    (ht : t.isParen '(' = true) :
    (awaiting left op position).Finishes schema (t :: tokens) e ↔
      ∃ inner closing rest part next, tokens = inner ++ closing :: rest ∧
        closing.isParen ')' = true ∧ Writes schema inner part ∧
        (awaiting left op position).add part = .ok next ∧ next.Finishes schema rest e := by
  constructor
  · rintro ⟨blank, right, heq, hblank, hright⟩
    cases hblank with
    | nil =>
      rw [List.nil_append] at heq
      subst heq
      cases hright with
      | literal _ hword => exact absurd ht (not_opening_of_word hword)
      | rightGroup _ hinner hclosing hrest =>
        exact ⟨_, _, _, _, _, rfl, hclosing, .inr hinner,
          add_awaiting (hinner.ne_empty trivial), hrest⟩
      | connective hword => exact absurd ht (not_opening_of_word hword)
    | group _ hinner hclosing hrest =>
      obtain ⟨rfl, rfl⟩ := List.cons.inj heq
      exact ⟨_, _, _, .empty, _, by simp, hclosing, writes_empty_iff.mpr hinner, rfl,
        _, _, rfl, hrest, hright⟩
  · rintro ⟨inner, closing, rest, part, next, rfl, hclosing, hinner, hadd, hnext⟩
    -- Here too an empty group is blank, in front of the right side.
    by_cases hpart : part = .empty
    · subst hpart
      cases hadd
      obtain ⟨blank, right, rfl, hblank, hright⟩ := hnext
      exact ⟨_, right, by simp, .group ht (writes_empty_iff.mp hinner) hclosing hblank, hright⟩
    · rw [add_awaiting hpart] at hadd
      cases hadd
      exact ⟨[], _, rfl, .nil,
        .rightGroup ht ((writes_iff_of_ne_empty hpart).mp hinner) hclosing hnext⟩

/-- A group can begin where the pending operation accepts one.  The operation then goes on with
    the group added to it. -/
theorem finishes_opening_iff (ht : t.isParen '(' = true) :
    p.Finishes schema (t :: tokens) e ↔ p.acceptsGroup = true ∧
      ∃ inner closing rest part next, tokens = inner ++ closing :: rest ∧
        closing.isParen ')' = true ∧ Writes schema inner part ∧ p.add part = .ok next ∧
        next.Finishes schema rest e := by
  cases p with
  | start => simpa [acceptsGroup] using finishes_start_opening_iff ht
  | operand left =>
    refine ⟨fun h => ?_, fun h => by simp [acceptsGroup] at h⟩
    cases h with
    | operator hop => exact absurd ht (not_opening_of_word (isWord_of_isOperator hop))
  | awaiting left op position => simpa [acceptsGroup] using finishes_awaiting_opening_iff ht
  | complete left op position right =>
    refine ⟨fun h => ?_, fun h => by simp [acceptsGroup] at h⟩
    cases h with
    | chain hop => exact absurd ht (not_opening_of_word (isWord_of_isOperator hop))

/-! ### A word -/

theorem finishes_start_word_iff (ht : t.isWord = true) :
    start.Finishes schema (t :: tokens) e ↔
      ∃ left, ParseState.resolve schema t = .ok left ∧
        (operand left).Finishes schema tokens e := by
  constructor
  · rintro (⟨hblank, -⟩ | h)
    · cases hblank with
      | group hopening => exact absurd hopening (not_opening_of_word ht)
    · generalize heq : t :: tokens = all at h
      cases h with
      | expr hblank hoperand htail =>
        obtain rfl := hblank.eq_nil_of_word heq ht
        cases hoperand with
        | column hword hlookup =>
          obtain ⟨rfl, rfl⟩ := List.cons.inj heq
          exact ⟨_, resolve_eq_ok_iff.mpr ⟨_, hlookup, rfl⟩, htail⟩
        | group hopening =>
          obtain ⟨rfl, -⟩ := List.cons.inj heq
          exact absurd hopening (not_opening_of_word ht)
  · rintro ⟨left, hleft, htail⟩
    obtain ⟨column, hlookup, rfl⟩ := resolve_eq_ok_iff.mp hleft
    exact .inr (.expr .nil (.column ht hlookup) htail)

theorem finishes_operand_word_iff {left : Expr} :
    (operand left).Finishes schema (t :: tokens) e ↔
      ∃ op, ParseState.operator t = .ok op ∧
        (awaiting left op t.position).Finishes schema tokens e := by
  constructor
  · intro h
    cases h with
    | operator hop hblank hright =>
      exact ⟨_, operator_eq_ok_iff.mpr hop, _, _, rfl, hblank, hright⟩
  · rintro ⟨op, hop, blank, right, rfl, hblank, hright⟩
    exact .operator (operator_eq_ok_iff.mp hop) hblank hright

/-- A column behind a connective begins an operation of its own, and that is the right side. -/
theorem finishes_connective_word_iff {left : Expr} {op : Connective} {position : Nat}
    (ht : t.isWord = true) :
    (awaiting left (.connective op) position).Finishes schema (t :: tokens) e ↔
      ∃ column right, ParseState.resolve schema t = .ok column ∧
        (operand column).Finishes schema tokens right ∧
        e = .binary (.connective op) left right := by
  constructor
  · rintro ⟨blank, right, heq, hblank, hright⟩
    obtain rfl := hblank.eq_nil_of_word heq ht
    rw [List.nil_append] at heq
    subst heq
    cases hright with
    | literal hop => exact absurd rfl (hop op)
    | rightGroup hopening => exact absurd hopening (not_opening_of_word ht)
    | connective _ hlookup htail =>
      exact ⟨_, _, resolve_eq_ok_iff.mpr ⟨_, hlookup, rfl⟩, htail, rfl⟩
  · rintro ⟨column, right, hcolumn, htail, rfl⟩
    obtain ⟨column, hlookup, rfl⟩ := resolve_eq_ok_iff.mp hcolumn
    exact ⟨[], _, rfl, .nil, .connective ht hlookup htail⟩

theorem finishes_literal_word_iff {left : Expr} {op : Operator} {position : Nat}
    (ht : t.isWord = true) (hop : ∀ connective, op ≠ .connective connective) :
    (awaiting left op position).Finishes schema (t :: tokens) e ↔
      ∃ right, ParseState.literal left t = .ok right ∧
        (complete left op position right).Finishes schema tokens e := by
  constructor
  · rintro ⟨blank, right, heq, hblank, hright⟩
    obtain rfl := hblank.eq_nil_of_word heq ht
    rw [List.nil_append] at heq
    subst heq
    cases hright with
    | literal _ _ hvalue hrest =>
      exact ⟨_, literal_eq_ok_iff.mpr ⟨_, _, _, rfl, hvalue, rfl⟩, hrest⟩
    | rightGroup hopening => exact absurd hopening (not_opening_of_word ht)
    | connective => exact absurd rfl (hop _)
  · rintro ⟨right, hright, hrest⟩
    obtain ⟨name, type, value, rfl, hvalue, rfl⟩ := literal_eq_ok_iff.mp hright
    exact ⟨[], _, rfl, .nil, .literal hop ht hvalue hrest⟩

/-- An operator behind a complete operation takes it as its left side. -/
theorem finishes_complete_word_iff {left right : Expr} {op : Operator} {position : Nat} :
    (complete left op position right).Finishes schema (t :: tokens) e ↔
      ∃ next part, ParseState.operator t = .ok next ∧ part ≠ .empty ∧
        start.Finishes schema tokens part ∧ e = .binary next (.binary op left right) part := by
  constructor
  · intro h
    cases h with
    | chain hop hnext =>
      exact ⟨_, _, operator_eq_ok_iff.mpr hop, hnext.ne_empty trivial, .inr hnext, rfl⟩
  · rintro ⟨next, part, hop, hpart, hnext, rfl⟩
    exact .chain (operator_eq_ok_iff.mp hop) ((writes_iff_of_ne_empty hpart).mp hnext)

end Pending

/-! ### The stack -/

section Stack

variable {stack : List Frame} {t : Token} {tokens : List Token} {e part : Expr}

@[simp] theorem attach_eq_ok_iff {outer inner next : Pending} {position : Nat} :
    outer.attach inner position = .ok next ↔
      ∃ part, inner.finish = .ok part ∧ outer.add part = .ok next := by
  unfold Pending.attach
  rw [bind_eq_ok_iff]
  refine exists_congr fun part => and_congr_right fun _ => ?_
  split
  · next h => simp [h]
  · next h => simp [h]

/-- What was laid aside is taken up again by a closing parenthesis. -/
theorem Resumes.head_closing (h : Resumes schema stack part (t :: tokens) e) :
    t.isParen ')' = true := by
  induction stack generalizing part with
  | nil => exact absurd h.1 (by simp)
  | cons frame rest ih =>
    cases frame with
    | group outer position =>
      obtain ⟨closing, _, _, _, _, heq, hclosing, -⟩ := h
      obtain ⟨rfl, -⟩ := List.cons.inj heq
      exact hclosing
    | chain outer =>
      obtain ⟨_, whole, -, -, hrest⟩ := h
      exact ih hrest

/-- A chain hands its right operand to the operator that waits for it. -/
theorem resumes_chain_iff {left : Expr} {op : Operator} {position : Nat} :
    Resumes schema (.chain (.awaiting left op position) :: stack) part tokens e ↔
      part ≠ .empty ∧ Resumes schema stack (.binary op left part) tokens e := by
  by_cases hpart : part = .empty
  · subst hpart
    simp only [Resumes, Pending.add_empty, ne_eq, not_true_eq_false, false_and, iff_false]
    rintro ⟨_, _, ⟨⟩, hfinish, -⟩
    cases hfinish
  · simp only [Resumes, Pending.add_awaiting hpart, ne_eq, hpart, not_false_eq_true, true_and]
    constructor
    · rintro ⟨_, _, ⟨⟩, ⟨⟩, hrest⟩
      exact hrest
    · exact fun hrest => ⟨_, _, rfl, rfl, hrest⟩

/-- A token that closes nothing belongs to the pending operation. -/
theorem completes_cons_of_not_closing {p : Pending} (ht : t.isParen ')' = false) :
    ParseState.Completes schema ⟨stack, p⟩ (t :: tokens) e ↔
      ∃ inner outside part, tokens = inner ++ outside ∧ p.Finishes schema (t :: inner) part ∧
        Resumes schema stack part outside e := by
  constructor
  · rintro ⟨inner, outside, part, heq, hinner, hstack⟩
    -- Were the operation finished already, the token would have to be taken up by the stack.
    cases inner with
    | nil =>
      rw [List.nil_append] at heq
      subst heq
      rw [hstack.head_closing] at ht
      cases ht
    | cons u inner =>
      obtain ⟨rfl, rfl⟩ := List.cons.inj heq
      exact ⟨inner, outside, part, rfl, hinner, hstack⟩
  · rintro ⟨inner, outside, part, rfl, hinner, hstack⟩
    exact ⟨t :: inner, outside, part, rfl, hinner, hstack⟩

/-- At a closing parenthesis the pending operation has to be finished. -/
theorem completes_cons_of_closing {p : Pending} (ht : t.isParen ')' = true) :
    ParseState.Completes schema ⟨stack, p⟩ (t :: tokens) e ↔
      ∃ part, p.finish = .ok part ∧ Resumes schema stack part (t :: tokens) e := by
  constructor
  · rintro ⟨inner, outside, part, heq, hinner, hstack⟩
    -- No operation goes on with a closing parenthesis, so it is finished before it.
    cases inner with
    | nil =>
      rw [List.nil_append] at heq
      subst heq
      exact ⟨part, Pending.finishes_nil_iff.mp hinner, hstack⟩
    | cons u inner =>
      obtain ⟨rfl, -⟩ := List.cons.inj heq
      rw [Pending.Finishes.head_not_closing hinner] at ht
      cases ht
  · rintro ⟨part, hpart, hstack⟩
    exact ⟨[], _, part, rfl, Pending.finishes_nil_iff.mpr hpart, hstack⟩

/-! ### One token, one step -/

@[simp] theorem openGroup_eq_ok_iff {s next : ParseState} {position : Nat} :
    s.openGroup position = .ok next ↔
      s.pending.acceptsGroup = true ∧ next = ⟨.group s.pending position :: s.stack, .start⟩ := by
  unfold ParseState.openGroup
  split
  · next h => simp [h, eq_comm]
  · next h => simp [h]

theorem completes_opening_iff {s : ParseState} {position : Nat} (ht : t.isParen '(' = true) :
    s.Completes schema (t :: tokens) e ↔
      ∃ next, s.openGroup position = .ok next ∧ next.Completes schema tokens e := by
  simp only [openGroup_eq_ok_iff, and_assoc, exists_and_left, exists_eq_left]
  rw [completes_cons_of_not_closing (not_closing_of_opening ht)]
  simp only [Pending.finishes_opening_iff ht]
  constructor
  · rintro ⟨_, outside, whole, rfl, ⟨haccepts, inner, closing, rest, part, next, rfl, hclosing,
      hinner, hadd, hnext⟩, hstack⟩
    exact ⟨haccepts, inner, _, part, by simp, hinner, closing, rest, outside, next, whole, rfl,
      hclosing, hadd, hnext, hstack⟩
  · rintro ⟨haccepts, inner, _, part, rfl, hinner, closing, rest, outside, next, whole, rfl,
      hclosing, hadd, hnext, hstack⟩
    exact ⟨inner ++ closing :: rest, outside, whole, by simp, ⟨haccepts, inner, closing, rest, part,
      next, rfl, hclosing, hinner, hadd, hnext⟩, hstack⟩

/-- Closing a group finishes the chain within it and hands its tree to the operation around it. -/
theorem closeGroup_iff {p : Pending} {position : Nat} (ht : t.isParen ')' = true) :
    (∃ part, p.finish = .ok part ∧ Resumes schema stack part (t :: tokens) e) ↔
      ∃ next, ParseState.closeGroup position stack p = .ok next ∧
        next.Completes schema tokens e := by
  -- A parenthesis first finishes the chains above the group that it closes.
  induction stack generalizing p with
  | nil => simp [Resumes, ParseState.closeGroup]
  | cons frame rest ih =>
    cases frame with
    | chain outer =>
      simp only [ParseState.closeGroup, bind_eq_ok_iff, attach_eq_ok_iff]
      constructor
      · rintro ⟨part, hpart, next, whole, hadd, hwhole, hrest⟩
        obtain ⟨state, hclose, hstate⟩ := ih.mp ⟨whole, hwhole, hrest⟩
        exact ⟨state, ⟨next, ⟨part, hpart, hadd⟩, hclose⟩, hstate⟩
      · rintro ⟨state, ⟨next, ⟨part, hpart, hadd⟩, hclose⟩, hstate⟩
        obtain ⟨whole, hwhole, hrest⟩ := ih.mpr ⟨state, hclose, hstate⟩
        exact ⟨part, hpart, next, whole, hadd, hwhole, hrest⟩
    | group outer opened =>
      simp only [ParseState.closeGroup, bind_eq_ok_iff, attach_eq_ok_iff, pure_eq_ok_iff]
      constructor
      · rintro ⟨part, hpart, closing, inner, outside, next, whole, heq, -, hadd, hnext, hrest⟩
        obtain ⟨-, rfl⟩ := List.cons.inj heq
        exact ⟨_, ⟨next, ⟨part, hpart, hadd⟩, rfl⟩, inner, outside, whole, rfl, hnext, hrest⟩
      · rintro ⟨_, ⟨next, ⟨part, hpart, hadd⟩, rfl⟩, inner, outside, whole, rfl, hnext, hrest⟩
        exact ⟨part, hpart, t, inner, outside, next, whole, rfl, ht, hadd, hnext, hrest⟩

/-- After a comparison or a text test a word is a literal. -/
theorem completes_literal_iff {left : Expr} {op : Operator} {position : Nat}
    (ht : t.isWord = true) (hop : ∀ connective, op ≠ .connective connective) :
    (∃ inner outside part, tokens = inner ++ outside ∧
        (Pending.awaiting left op position).Finishes schema (t :: inner) part ∧
        Resumes schema stack part outside e) ↔
      ∃ next : ParseState,
        (∃ right, ParseState.literal left t = .ok right ∧
          ⟨stack, .complete left op position right⟩ = next) ∧
        next.Completes schema tokens e := by
  simp only [Pending.finishes_literal_word_iff ht hop]
  constructor
  · rintro ⟨inner, outside, part, rfl, ⟨right, hright, hinner⟩, hstack⟩
    exact ⟨_, ⟨right, hright, rfl⟩, inner, outside, part, rfl, hinner, hstack⟩
  · rintro ⟨_, ⟨right, hright, rfl⟩, inner, outside, part, rfl, hinner, hstack⟩
    exact ⟨inner, outside, part, rfl, ⟨right, hright, hinner⟩, hstack⟩

/-- A word goes to the pending operation, whatever was laid aside. -/
theorem completes_word_iff {s : ParseState} (ht : t.isWord = true) :
    s.Completes schema (t :: tokens) e ↔
      ∃ next, s.accept schema t = .ok next ∧ next.Completes schema tokens e := by
  obtain ⟨stack, p⟩ := s
  rw [completes_cons_of_not_closing (isWord_iff.mp ht).2]
  cases p with
  | start =>
    simp only [ParseState.accept, bind_eq_ok_iff, pure_eq_ok_iff,
      Pending.finishes_start_word_iff ht]
    constructor
    · rintro ⟨inner, outside, part, rfl, ⟨left, hleft, hinner⟩, hstack⟩
      exact ⟨_, ⟨left, hleft, rfl⟩, inner, outside, part, rfl, hinner, hstack⟩
    · rintro ⟨_, ⟨left, hleft, rfl⟩, inner, outside, part, rfl, hinner, hstack⟩
      exact ⟨inner, outside, part, rfl, ⟨left, hleft, hinner⟩, hstack⟩
  | operand left =>
    simp only [ParseState.accept, bind_eq_ok_iff, pure_eq_ok_iff,
      Pending.finishes_operand_word_iff]
    constructor
    · rintro ⟨inner, outside, part, rfl, ⟨op, hop, hinner⟩, hstack⟩
      exact ⟨_, ⟨op, hop, rfl⟩, inner, outside, part, rfl, hinner, hstack⟩
    · rintro ⟨_, ⟨op, hop, rfl⟩, inner, outside, part, rfl, hinner, hstack⟩
      exact ⟨inner, outside, part, rfl, ⟨op, hop, hinner⟩, hstack⟩
  | awaiting left op position =>
    cases op with
    | connective op =>
      simp only [ParseState.accept, bind_eq_ok_iff, pure_eq_ok_iff,
        Pending.finishes_connective_word_iff ht]
      constructor
      · rintro ⟨inner, outside, _, rfl, ⟨column, right, hcolumn, hinner, rfl⟩, hstack⟩
        -- What the column begins is not empty, so the operator that waits for it can take it.
        refine ⟨_, ⟨column, hcolumn, rfl⟩, inner, outside, right, rfl, hinner, ?_⟩
        obtain ⟨_, -, rfl⟩ := resolve_eq_ok_iff.mp hcolumn
        have hright : right ≠ .empty := by
          apply Derives.ne_empty hinner
          intro h
          cases h
        exact resumes_chain_iff.mpr ⟨hright, hstack⟩
      · rintro ⟨_, ⟨column, hcolumn, rfl⟩, inner, outside, right, rfl, hinner, hstack⟩
        exact ⟨inner, outside, _, rfl, ⟨column, right, hcolumn, hinner, rfl⟩,
          (resumes_chain_iff.mp hstack).2⟩
    | comparison op =>
      simp only [ParseState.accept, bind_eq_ok_iff, pure_eq_ok_iff]
      exact completes_literal_iff ht (by intro connective h; cases h)
    | textTest op =>
      simp only [ParseState.accept, bind_eq_ok_iff, pure_eq_ok_iff]
      exact completes_literal_iff ht (by intro connective h; cases h)
  | complete left op position right =>
    simp only [ParseState.accept, bind_eq_ok_iff, pure_eq_ok_iff,
      Pending.finishes_complete_word_iff]
    constructor
    · rintro ⟨inner, outside, _, rfl, ⟨next, part, hop, hpart, hinner, rfl⟩, hstack⟩
      exact ⟨_, ⟨next, hop, rfl⟩, inner, outside, part, rfl, hinner,
        resumes_chain_iff.mpr ⟨hpart, hstack⟩⟩
    · rintro ⟨_, ⟨next, hop, rfl⟩, inner, outside, part, rfl, hinner, hstack⟩
      obtain ⟨hpart, hstack⟩ := resumes_chain_iff.mp hstack
      exact ⟨inner, outside, _, rfl, ⟨next, part, hop, hpart, hinner, rfl⟩, hstack⟩

/-- **One step takes one token.**  What a state completes with a token in front is what the next
    state completes without it; a token that cannot be taken completes nothing. -/
theorem completes_cons_iff {s : ParseState} :
    s.Completes schema (t :: tokens) e ↔
      ∃ next, s.step schema t = .ok next ∧ next.Completes schema tokens e := by
  unfold ParseState.step
  -- The three kinds of tokens are told apart in the order in which the reader asks for them.
  by_cases hopening : t.isParen '(' = true
  · rw [if_pos hopening]
    exact completes_opening_iff hopening
  · rw [if_neg hopening]
    by_cases hclosing : t.isParen ')' = true
    · rw [if_pos hclosing, completes_cons_of_closing hclosing]
      exact closeGroup_iff hclosing
    · rw [if_neg hclosing]
      exact completes_word_iff (by simp [isWord_iff, hopening, hclosing])

/-! ### The end of the command -/

theorem finish_chains_iff {p : Pending} (position : Nat) :
    (∃ part, p.finish = .ok part ∧ Resumes schema stack part [] e) ↔
      ParseState.openGroup? stack = none ∧
        ∃ last, ParseState.unwind position stack p = .ok last ∧ last.finish = .ok e := by
  induction stack generalizing p with
  | nil => simp [Resumes, ParseState.openGroup?, ParseState.unwind]
  | cons frame rest ih =>
    cases frame with
    -- A group that is still open is an error, and nothing closes it in the grammar either.
    | group outer opened => simp [Resumes, ParseState.openGroup?]
    | chain outer =>
      simp only [ParseState.openGroup?, ParseState.unwind, bind_eq_ok_iff, attach_eq_ok_iff]
      constructor
      · rintro ⟨part, hpart, next, whole, hadd, hwhole, hrest⟩
        obtain ⟨hnone, last, hlast, he⟩ := ih.mp ⟨whole, hwhole, hrest⟩
        exact ⟨hnone, last, ⟨next, ⟨part, hpart, hadd⟩, hlast⟩, he⟩
      · rintro ⟨hnone, last, ⟨next, ⟨part, hpart, hadd⟩, hlast⟩, he⟩
        obtain ⟨whole, hwhole, hrest⟩ := ih.mpr ⟨hnone, last, hlast, he⟩
        exact ⟨part, hpart, next, whole, hadd, hwhole, hrest⟩

/-- At the end of the command everything laid aside is finished as well. -/
theorem completes_nil_iff {s : ParseState} (position : Nat) :
    s.Completes schema [] e ↔ s.finish position = .ok e := by
  obtain ⟨stack, p⟩ := s
  have hcompletes : ParseState.Completes schema ⟨stack, p⟩ [] e ↔
      ∃ part, p.finish = .ok part ∧ Resumes schema stack part [] e := by
    constructor
    · rintro ⟨inner, outside, part, heq, hinner, hstack⟩
      obtain ⟨rfl, rfl⟩ := List.append_eq_nil_iff.mp heq.symm
      exact ⟨part, Pending.finishes_nil_iff.mp hinner, hstack⟩
    · rintro ⟨part, hpart, hstack⟩
      exact ⟨[], [], part, rfl, Pending.finishes_nil_iff.mpr hpart, hstack⟩
  rw [hcompletes, finish_chains_iff position]
  unfold ParseState.finish
  cases ParseState.openGroup? stack <;> simp

end Stack

/-! ### Whole commands -/

/-- The expressions a state can still become are those that the reader reaches from it. -/
theorem completes_iff {tokens : List Token} {s : ParseState} (position : Nat) {e : Expr} :
    s.Completes schema tokens e ↔
      ∃ last, tokens.foldlM (ParseState.step schema) s = .ok last ∧
        last.finish position = .ok e := by
  -- The induction is on the tokens: each one is a step, and the end is `completes_nil_iff`.
  induction tokens generalizing s with
  | nil => simp [completes_nil_iff position]
  | cons t rest ih =>
    rw [completes_cons_iff, List.foldlM_cons]
    simp only [bind_eq_ok_iff, ih]
    constructor
    · rintro ⟨next, hstep, last, hlast, he⟩
      exact ⟨last, ⟨next, hstep, hlast⟩, he⟩
    · rintro ⟨last, ⟨next, hstep, hlast⟩, he⟩
      exact ⟨next, hstep, last, hlast, he⟩

/-- The reader gives tokens exactly the trees that they write. -/
theorem ofTokens_eq_ok_iff {tokens : List Token} {length : Nat} {e : Expr} :
    Expr.ofTokens schema tokens length = .ok e ↔ Writes schema tokens e := by
  -- With an empty stack nothing may follow what the pending operation becomes.
  have hstart : ParseState.Completes schema ⟨[], .start⟩ tokens e ↔ Writes schema tokens e := by
    constructor
    · rintro ⟨inner, _, part, rfl, hinner, rfl, rfl⟩
      rw [List.append_nil]
      exact hinner
    · exact fun h => ⟨tokens, [], e, by simp, h, rfl, rfl⟩
  rw [← hstart, completes_iff length]
  unfold Expr.ofTokens
  rw [bind_eq_ok_iff]

theorem ofCommand_eq_ok_iff {command : Command} {e : Expr} :
    Expr.ofCommand schema command = .ok e ↔
      Expr.ofTokens schema command.tokens command.text.length = .ok e := by
  unfold Expr.ofCommand
  split
  · next h => simp [h]
  · next h => simp [h]

theorem ofCommand_eq_ok_iff_derives {command : Command} {e : Expr} (he : e ≠ .empty) :
    Expr.ofCommand schema command = .ok e ↔ Derives schema .expr command.tokens e := by
  rw [ofCommand_eq_ok_iff, ofTokens_eq_ok_iff, writes_iff_of_ne_empty he]

/-- **Reading is the grammar.**  A command is read as an expression exactly when its tokens write
    that expression. -/
theorem ofCommand_eq_ok_iff_writes (schema : Schema) (command : Command) (e : Expr) :
    Expr.ofCommand schema command = .ok e ↔ Writes schema command.tokens e :=
  ofCommand_eq_ok_iff.trans ofTokens_eq_ok_iff

end RecordFilter
