import RecordFilter.Proofs.Faults
/-!
# Parentheses

Two parentheses match if what stands between them is balanced.  A command that is read has a match
for each of its parentheses; otherwise the error of an unmatched one is at the first `)` without a
match, or else at the last `(` without one.

The reader has no list of matching parentheses, only a stack, on which chains of operators lie
between the open groups.  What it keeps is that the tokens read so far are balanced apart from the
parentheses of these groups (`LeavesOpen`).
-/

namespace RecordFilter

open Grammar

/-- Every parenthesis of the tokens has its match among them. -/
inductive Balanced : List Token → Prop where
  | nil : Balanced []
  | word {t : Token} {rest : List Token} (hword : t.isWord = true) (hrest : Balanced rest) :
      Balanced (t :: rest)
  | group {opening closing : Token} {inner rest : List Token}
      (hopening : opening.isParen '(' = true) (hinner : Balanced inner)
      (hclosing : closing.isParen ')' = true) (hrest : Balanced rest) :
      Balanced (opening :: (inner ++ closing :: rest))

/-- A `)` behind the tokens matches a `(` in them. -/
def HasOpening (tokens : List Token) : Prop :=
  ∃ outside opening inner, tokens = outside ++ opening :: inner ∧
    opening.isParen '(' = true ∧ Balanced inner

/-- A `(` in front of the tokens matches a `)` in them. -/
def HasClosing (tokens : List Token) : Prop :=
  ∃ inner closing outside, tokens = inner ++ closing :: outside ∧
    closing.isParen ')' = true ∧ Balanced inner

/-- Every `)` of the tokens matches a `(` before it. -/
def ClosingsMatch (tokens : List Token) : Prop :=
  ∀ t : Token, t.isParen ')' = true → ∀ before after, tokens = before ++ t :: after →
    HasOpening before

/-- Every `(` of the tokens matches a `)` behind it. -/
def OpeningsMatch (tokens : List Token) : Prop :=
  ∀ t : Token, t.isParen '(' = true → ∀ before after, tokens = before ++ t :: after →
    HasClosing after

/-- The token is the first `)` that matches no `(` before it. -/
def FirstUnmatchedClosing (tokens : List Token) (t : Token) : Prop :=
  ∃ before after, tokens = before ++ t :: after ∧ t.isParen ')' = true ∧
    ¬ HasOpening before ∧ ClosingsMatch before

/-- The token is the last `(` that matches no `)` behind it. -/
def LastUnmatchedOpening (tokens : List Token) (t : Token) : Prop :=
  ∃ before after, tokens = before ++ t :: after ∧ t.isParen '(' = true ∧
    ¬ HasClosing after ∧ OpeningsMatch after

variable {schema : Schema} {tokens rest inner : List Token} {t : Token} {fault : ParseFault}

/-! ### Balanced tokens -/

theorem not_opening_of_closing (h : t.isParen ')' = true) : ¬ t.isParen '(' = true := by
  intro hopening
  rw [not_closing_of_opening hopening] at h
  cases h

theorem Balanced.append (h : Balanced tokens) (hrest : Balanced rest) :
    Balanced (tokens ++ rest) := by
  induction h with
  | nil => exact hrest
  | word hword _ ih => exact .word hword ih
  | group hopening hinner hclosing _ _ ih =>
    rw [List.cons_append, List.append_assoc, List.cons_append]
    exact .group hopening hinner hclosing ih

theorem HasOpening.append (h : HasOpening tokens) (first : List Token) :
    HasOpening (first ++ tokens) := by
  obtain ⟨outside, opening, inner, rfl, hopening, hinner⟩ := h
  exact ⟨first ++ outside, opening, inner, by simp, hopening, hinner⟩

theorem HasClosing.append (h : HasClosing tokens) (rest : List Token) :
    HasClosing (tokens ++ rest) := by
  obtain ⟨inner, closing, outside, rfl, hclosing, hinner⟩ := h
  exact ⟨inner, closing, outside ++ rest, by simp, hclosing, hinner⟩

theorem Balanced.closingsMatch (h : Balanced tokens) : ClosingsMatch tokens := by
  intro t ht
  induction h with
  | nil => simp
  | @word u rest hword _ ih =>
    rw [forall_split_cons]
    refine ⟨?_, fun before after heq => (ih before after heq).append [u]⟩
    rintro rfl
    exact absurd ht (by simp [(isWord_iff.mp hword).2])
  | @group opening closing inner rest hopening hinner _ _ ihinner ihrest =>
    have hgroup : HasOpening (opening :: inner) := ⟨[], opening, inner, rfl, hopening, hinner⟩
    -- A parenthesis is the opening one, within the group, the closing one, or behind it.
    rw [forall_split_cons, forall_split_append, forall_split_cons]
    refine ⟨?_, ?_, fun _ => by simpa using hgroup, ?_⟩
    · rintro rfl
      exact absurd hopening (not_opening_of_closing ht)
    · exact fun before after heq => (ihinner before after heq).append [opening]
    · intro before after heq
      simpa using (ihrest before after heq).append (opening :: (inner ++ [closing]))

theorem Balanced.openingsMatch (h : Balanced tokens) : OpeningsMatch tokens := by
  intro t ht
  induction h with
  | nil => simp
  | @word u rest hword _ ih =>
    rw [forall_split_cons]
    refine ⟨?_, ih⟩
    rintro rfl
    exact absurd ht (not_opening_of_word hword)
  | @group opening closing inner rest _ hinner hclosing _ ihinner ihrest =>
    have hgroup : HasClosing (inner ++ closing :: rest) :=
      ⟨inner, closing, rest, rfl, hclosing, hinner⟩
    -- The same four places, with the closing one at the end.
    rw [forall_split_cons, forall_split_append, forall_split_cons]
    refine ⟨fun _ => hgroup, ?_, ?_, ihrest⟩
    · exact fun before after heq => (ihinner before after heq).append (closing :: rest)
    · rintro rfl
      exact absurd ht (not_opening_of_closing hclosing)

/-- Balanced tokens have no match for a `(` in front of them: it would be a `)` that itself matches
    a `(` of theirs, and between these two the tokens are balanced again, and fewer. -/
theorem Balanced.not_hasClosing {tokens : List Token} (h : Balanced tokens) :
    ¬ HasClosing tokens := by
  rintro ⟨inner, closing, outside, rfl, hclosing, hinner⟩
  obtain ⟨before, opening, between, rfl, hopening, hbetween⟩ :=
    h.closingsMatch closing hclosing inner outside rfl
  exact Balanced.not_hasClosing hbetween (hinner.openingsMatch opening hopening before between rfl)
termination_by tokens.length
decreasing_by subst_vars; simp; omega

theorem Balanced.not_hasOpening (h : Balanced tokens) : ¬ HasOpening tokens := by
  rintro ⟨outside, opening, inner, rfl, hopening, hinner⟩
  exact hinner.not_hasClosing (h.openingsMatch opening hopening outside inner rfl)

/-! ### Groups that are still open -/

/-- The tokens are balanced apart from the `(` at these positions, the last one first. -/
inductive LeavesOpen : List Token → List Nat → Prop where
  | balanced {tokens : List Token} (h : Balanced tokens) : LeavesOpen tokens []
  | opened {before inner : List Token} {opening : Token} {positions : List Nat}
      (hbefore : LeavesOpen before positions) (hopening : opening.isParen '(' = true)
      (hinner : Balanced inner) :
      LeavesOpen (before ++ opening :: inner) (opening.position :: positions)

namespace LeavesOpen

variable {positions : List Nat} {position : Nat}

theorem append (h : LeavesOpen tokens positions) (hrest : Balanced rest) :
    LeavesOpen (tokens ++ rest) positions := by
  cases h with
  | balanced h => exact .balanced (h.append hrest)
  | opened hbefore hopening hinner =>
    rw [List.append_assoc, List.cons_append]
    exact .opened hbefore hopening (hinner.append hrest)

theorem openGroup (h : LeavesOpen tokens positions) (ht : t.isParen '(' = true) :
    LeavesOpen (tokens ++ [t]) (t.position :: positions) :=
  .opened h ht .nil

theorem closeGroup (h : LeavesOpen tokens (position :: positions)) (ht : t.isParen ')' = true) :
    LeavesOpen (tokens ++ [t]) positions := by
  cases h with
  | opened hbefore hopening hinner =>
    rw [List.append_assoc, List.cons_append]
    exact hbefore.append (.group hopening hinner ht .nil)

theorem balanced_of_nil (h : LeavesOpen tokens []) : Balanced tokens := by
  cases h with
  | balanced h => exact h

theorem closingsMatch (h : LeavesOpen tokens positions) : ClosingsMatch tokens := by
  induction h with
  | balanced h => exact h.closingsMatch
  | @opened before inner opening positions _ hopening hinner ih =>
    intro u hu
    rw [forall_split_append, forall_split_cons]
    refine ⟨ih u hu, ?_, ?_⟩
    · rintro rfl
      exact absurd hopening (not_opening_of_closing hu)
    · intro first rest heq
      simpa using (hinner.closingsMatch u hu first rest heq).append (before ++ [opening])

end LeavesOpen

/-- The positions of the groups that are open, the last one first. -/
def ParseState.openPositions : List Frame → List Nat
  | [] => []
  | .group _ position :: rest => position :: openPositions rest
  | .chain _ :: rest => openPositions rest

def ParseErrorKind.isUnmatched : ParseErrorKind → Bool
  | unclosedGroup => true
  | unexpectedClose => true
  | _ => false

/-! ### Steps -/

theorem Pending.not_isUnmatched_of_finish {inner : Pending} (h : inner.finish = .error fault) :
    fault.kind.isUnmatched = false := by
  cases inner with
  | awaiting => cases h; rfl
  | _ => cases h

theorem Pending.not_isUnmatched_of_add {outer : Pending} {part : Expr} {kind : ParseErrorKind}
    (h : outer.add part = .error kind) : kind.isUnmatched = false := by
  unfold Pending.add at h
  split at h
  · cases h
  · cases outer <;> cases h <;> rfl

theorem Pending.not_isUnmatched_of_attach {outer inner : Pending} {position : Nat}
    (h : outer.attach inner position = .error fault) : fault.kind.isUnmatched = false := by
  rcases bind_eq_error_iff.mp h with hfinish | ⟨part, -, hadd⟩
  · exact not_isUnmatched_of_finish hfinish
  · split at hadd
    · cases hadd
    next kind hkind =>
      cases hadd
      exact not_isUnmatched_of_add hkind

namespace ParseState

variable {s next : ParseState} {stack : List Frame} {inner last : Pending} {position : Nat}

theorem openGroup?_eq (stack : List Frame) : openGroup? stack = (openPositions stack).head? := by
  induction stack with
  | nil => rfl
  | cons frame rest ih =>
    cases frame with
    | group => rfl
    | chain => exact ih

/-- A closing parenthesis ends the chains of the innermost group, and this group. -/
theorem openPositions_closeGroup (h : closeGroup position stack inner = .ok next) :
    ∃ opened, openPositions stack = opened :: openPositions next.stack := by
  induction stack generalizing inner with
  | nil => cases h
  | cons frame rest ih =>
    cases frame with
    | group outer opened =>
      obtain ⟨whole, -, rfl⟩ := bind_pure_eq_ok_iff.mp h
      exact ⟨opened, rfl⟩
    | chain outer =>
      obtain ⟨whole, -, hclose⟩ := bind_eq_ok_iff.mp h
      exact ih hclose

theorem eq_of_closeGroup_unmatched (h : closeGroup position stack inner = .error fault)
    (hkind : fault.kind.isUnmatched = true) :
    fault = ⟨.unexpectedClose, position⟩ ∧ openPositions stack = [] := by
  -- The chains are gone through until there is a group, and if there is none the stack is empty.
  induction stack generalizing inner with
  | nil =>
    cases h
    exact ⟨rfl, rfl⟩
  | cons frame rest ih =>
    cases frame with
    | group outer opened =>
      rcases bind_eq_error_iff.mp h with hattach | ⟨whole, -, hpure⟩
      · simp [Pending.not_isUnmatched_of_attach hattach] at hkind
      · cases hpure
    | chain outer =>
      rcases bind_eq_error_iff.mp h with hattach | ⟨whole, -, hclose⟩
      · simp [Pending.not_isUnmatched_of_attach hattach] at hkind
      · exact ih hclose

/-- A word leaves no group open that was not, and closes none. -/
theorem openPositions_accept (h : s.accept schema t = .ok next) :
    openPositions next.stack = openPositions s.stack := by
  -- Every branch leaves the stack as it is or puts a chain on it.
  unfold accept at h
  split at h <;>
    (obtain ⟨_, -, rfl⟩ := bind_pure_eq_ok_iff.mp h
     rfl)

theorem not_isUnmatched_of_accept (ht : t.isWord = true) (h : s.accept schema t = .error fault) :
    fault.kind.isUnmatched = false := by
  obtain ⟨-, hconcerns⟩ := accept_pointsAt h
  obtain ⟨kind, position⟩ := fault
  cases kind with
  | unclosedGroup => exact absurd hconcerns (not_opening_of_word ht)
  | unexpectedClose =>
    rw [ParseErrorKind.Concerns, (isWord_iff.mp ht).2] at hconcerns
    cases hconcerns
  | _ => rfl

/-- The tokens read so far are balanced apart from the groups that lie on the stack. -/
theorem leavesOpen_step (hs : LeavesOpen tokens (openPositions s.stack))
    (h : step schema s t = .ok next) : LeavesOpen (tokens ++ [t]) (openPositions next.stack) := by
  -- One step opens a group, closes the innermost one, or leaves the groups as they are.
  unfold step at h
  split at h
  next hopening =>
    obtain ⟨-, rfl⟩ := openGroup_eq_ok_iff.mp h
    exact hs.openGroup hopening
  next hopening =>
    split at h
    next hclosing =>
      obtain ⟨opened, hopened⟩ := openPositions_closeGroup h
      rw [hopened] at hs
      exact hs.closeGroup hclosing
    next hclosing =>
      have hword : t.isWord = true := by simp [isWord_iff, hopening, hclosing]
      rw [openPositions_accept h]
      exact hs.append (.word hword .nil)

/-- The only parenthesis that a step reports is a closing one with no group open. -/
theorem eq_of_step_unmatched (h : step schema s t = .error fault)
    (hkind : fault.kind.isUnmatched = true) :
    t.isParen ')' = true ∧ fault = ⟨.unexpectedClose, t.position⟩ ∧ openPositions s.stack = [] := by
  unfold step at h
  split at h
  · unfold openGroup at h
    split at h <;> cases h
    cases hkind
  next hopening =>
    split at h
    next hclosing => exact ⟨hclosing, eq_of_closeGroup_unmatched h hkind⟩
    next hclosing =>
      have hword : t.isWord = true := by simp [isWord_iff, hopening, hclosing]
      simp [not_isUnmatched_of_accept hword h] at hkind

/-! ### The end of the command -/

theorem not_isUnmatched_of_unwind (h : unwind position stack inner = .error fault) :
    fault.kind.isUnmatched = false := by
  induction stack generalizing inner with
  | nil => cases h
  | cons frame rest ih =>
    cases frame with
    | group outer opened => exact ih h
    | chain outer =>
      rcases bind_eq_error_iff.mp h with hattach | ⟨whole, -, hunwind⟩
      · exact Pending.not_isUnmatched_of_attach hattach
      · exact ih hunwind

/-- The only parenthesis that the end reports is that of the innermost group left open. -/
theorem eq_of_finish_unmatched (h : s.finish position = .error fault)
    (hkind : fault.kind.isUnmatched = true) :
    ∃ opened positions, fault = ⟨.unclosedGroup, opened⟩ ∧
      openPositions s.stack = opened :: positions := by
  unfold finish at h
  rw [openGroup?_eq] at h
  split at h
  next opened hopened =>
    cases h
    obtain ⟨positions, hpositions⟩ := List.head?_eq_some_iff.mp hopened
    exact ⟨opened, positions, rfl, hpositions⟩
  · rcases bind_eq_error_iff.mp h with hunwind | ⟨last, -, hlast⟩
    · simp [not_isUnmatched_of_unwind hunwind] at hkind
    · simp [Pending.not_isUnmatched_of_finish hlast] at hkind

theorem openPositions_of_finish {e : Expr} (h : s.finish position = .ok e) :
    openPositions s.stack = [] := by
  unfold finish at h
  rw [openGroup?_eq] at h
  split at h
  · cases h
  next hnone => exact List.head?_eq_none_iff.mp hnone

/-! ### Whole commands -/

/-- The parentheses left open are those of the groups on the stack. -/
theorem leavesOpen_of_foldlM (h : tokens.foldlM (step schema) ⟨[], .start⟩ = .ok s) :
    LeavesOpen tokens (openPositions s.stack) := by
  refine foldlM_induction (P := fun read s => LeavesOpen read (openPositions s.stack)) ?_ ?_ h
  · exact .balanced .nil
  · exact fun _ _ _ _ _ hs hstep => leavesOpen_step hs hstep

end ParseState

namespace Expr

variable {length : Nat}

theorem balanced_of_ofTokens {e : Expr} (h : ofTokens schema tokens length = .ok e) :
    Balanced tokens := by
  obtain ⟨s, hs, hfinish⟩ := bind_eq_ok_iff.mp h
  have hleaves := ParseState.leavesOpen_of_foldlM hs
  rw [ParseState.openPositions_of_finish hfinish] at hleaves
  exact hleaves.balanced_of_nil

/-- An unexpected parenthesis is the first closing one that matches nothing. -/
theorem firstUnmatchedClosing_of_ofTokens (h : ofTokens schema tokens length = .error fault)
    (hkind : fault.kind = .unexpectedClose) :
    ∃ t, FirstUnmatchedClosing tokens t ∧ t.position = fault.position := by
  have hunmatched : fault.kind.isUnmatched = true := by rw [hkind]; rfl
  -- The end of the command finds fault with opening parentheses only, so it was a step.
  rcases bind_eq_error_iff.mp h with hread | ⟨s, -, hfinish⟩
  · obtain ⟨before, t, after, s, rfl, hs, hstep⟩ := exists_of_foldlM_eq_error hread
    obtain ⟨hclosing, hfault, hnone⟩ := ParseState.eq_of_step_unmatched hstep hunmatched
    have hleaves := ParseState.leavesOpen_of_foldlM hs
    rw [hnone] at hleaves
    have hbefore := hleaves.balanced_of_nil
    exact ⟨t, ⟨before, after, rfl, hclosing, hbefore.not_hasOpening, hbefore.closingsMatch⟩,
      by rw [hfault]⟩
  · obtain ⟨opened, positions, rfl, -⟩ := ParseState.eq_of_finish_unmatched hfinish hunmatched
    cases hkind

/-- An unclosed parenthesis is the last opening one that matches nothing. -/
theorem lastUnmatchedOpening_of_ofTokens (h : ofTokens schema tokens length = .error fault)
    (hkind : fault.kind = .unclosedGroup) :
    ClosingsMatch tokens ∧ ∃ t, LastUnmatchedOpening tokens t ∧ t.position = fault.position := by
  have hunmatched : fault.kind.isUnmatched = true := by rw [hkind]; rfl
  rcases bind_eq_error_iff.mp h with hread | ⟨s, hs, hfinish⟩
  · obtain ⟨before, t, after, s, -, -, hstep⟩ := exists_of_foldlM_eq_error hread
    obtain ⟨-, rfl, -⟩ := ParseState.eq_of_step_unmatched hstep hunmatched
    cases hkind
  · obtain ⟨opened, positions, rfl, hopened⟩ :=
      ParseState.eq_of_finish_unmatched hfinish hunmatched
    have hleaves := ParseState.leavesOpen_of_foldlM hs
    rw [hopened] at hleaves
    refine ⟨hleaves.closingsMatch, ?_⟩
    -- The innermost open group is the last: what stands behind it is balanced.
    cases hleaves with
    | @opened before inner opening _ _ hopening hinner =>
      exact ⟨opening, ⟨before, inner, rfl, hopening, hinner.not_hasClosing,
        hinner.openingsMatch⟩, rfl⟩

end Expr

/-- **Parentheses match.**  In a command that is read, every `)` matches a `(` before it and every
    `(` a `)` behind it.  A `)` is unexpected if it is the first one without a match, and a group is
    unclosed if every `)` has a match and its `(` is the last one that has none. -/
theorem Expr.ofCommand_matches_parens (schema : Schema) (command : Command) :
    (∀ e, Expr.ofCommand schema command = .ok e →
        Balanced command.tokens ∧ ClosingsMatch command.tokens ∧ OpeningsMatch command.tokens) ∧
      ∀ error, Expr.ofCommand schema command = .error error →
        (error.fault.kind = .unexpectedClose →
          ∃ t, FirstUnmatchedClosing command.tokens t ∧ t.position = error.fault.position) ∧
        (error.fault.kind = .unclosedGroup →
          ClosingsMatch command.tokens ∧
            ∃ t, LastUnmatchedOpening command.tokens t ∧ t.position = error.fault.position) := by
  refine ⟨?_, ?_⟩
  · intro e he
    have hbalanced := Expr.balanced_of_ofTokens (ofCommand_eq_ok_iff.mp he)
    exact ⟨hbalanced, hbalanced.closingsMatch, hbalanced.openingsMatch⟩
  · intro error herror
    have hread := (Expr.ofCommand_eq_error_iff.mp herror).1
    exact ⟨Expr.firstUnmatchedClosing_of_ofTokens hread,
      Expr.lastUnmatchedOpening_of_ofTokens hread⟩

/-- The parentheses of three commands: with matches, with a `)` and with a `(` that has none. -/
theorem hidden_in_parens :
    (Expr.ofCommand (Schema.empty.registerAll fileColumns) (Command.ofText "(hidden)") =
        .ok (.column "hidden" .boolean) ∧
      Balanced (Command.ofText "(hidden)").tokens) ∧
    (Expr.ofCommand (Schema.empty.registerAll fileColumns) (Command.ofText "hidden)") =
        .error ⟨"hidden)", .unexpectedClose, 6⟩ ∧
      ∃ t, FirstUnmatchedClosing (Command.ofText "hidden)").tokens t ∧ t.position = 6) ∧
    (Expr.ofCommand (Schema.empty.registerAll fileColumns) (Command.ofText "(hidden) && (") =
        .error ⟨"(hidden) && (", .unclosedGroup, 12⟩ ∧
      ∃ t, LastUnmatchedOpening (Command.ofText "(hidden) && (").tokens t ∧ t.position = 12) := by
  have hmatched : Expr.ofCommand (Schema.empty.registerAll fileColumns)
      (Command.ofText "(hidden)") = .ok (.column "hidden" .boolean) := by
    decide +kernel
  have hclosing : Expr.ofCommand (Schema.empty.registerAll fileColumns)
      (Command.ofText "hidden)") = .error ⟨"hidden)", .unexpectedClose, 6⟩ := by
    decide +kernel
  have hopening : Expr.ofCommand (Schema.empty.registerAll fileColumns)
      (Command.ofText "(hidden) && (") = .error ⟨"(hidden) && (", .unclosedGroup, 12⟩ := by
    decide +kernel
  exact ⟨⟨hmatched, ((Expr.ofCommand_matches_parens _ _).1 _ hmatched).1⟩,
    ⟨hclosing, ((Expr.ofCommand_matches_parens _ _).2 _ hclosing).1 rfl⟩,
    ⟨hopening, (((Expr.ofCommand_matches_parens _ _).2 _ hopening).2 rfl).2⟩⟩

end RecordFilter
