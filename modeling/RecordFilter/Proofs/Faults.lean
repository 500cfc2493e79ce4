import RecordFilter.Proofs.Reading
import RecordFilter.Proofs.Registration
import RecordFilter.Proofs.Splitting
/-!
# Where an error points

Every error of the reader points at a token, and at one that has to do with it: an unknown property
at the token that names it, an operator without a right side at that operator, an open group at its
parenthesis (`ParseErrorKind.Concerns`).

Most errors are found at the token that is read.  Two kinds are found later, when an operation is
finished or the command ends, and point back.  The reader keeps the positions they need from the
tokens it has read (`ParseState.Recorded`).  It also keeps room for one more operand in every
operation that it lays aside, so that there is never one too many, and nothing is ever reported at
the end of the command (`ofTokens_length_irrelevant`).
-/

namespace RecordFilter

open Grammar

variable {schema : Schema} {tokens : List Token} {t : Token} {fault : ParseFault}
  {p q position : Nat}

/-- What the token is that an error of the kind points at. -/
def ParseErrorKind.Concerns (schema : Schema) : ParseErrorKind → Token → Prop
  | unknownProperty name, t => t.text = name ∧ schema.lookup name = .ok none
  | ambiguousProperty error, t => schema.lookup t.text = .error error
  | unknownOperator text, t => t.text = text ∧ ∀ op, ¬ t.IsOperator op
  | literal error, t => ∃ type, Value.ofLiteral t.text type = .error error
  | literalWithoutProperty text, t => t.text = text
  | unclosedGroup, t => t.isParen '(' = true
  | unexpectedClose, t => t.isParen ')' = true
  | tooManyOperands, _ => False
  | missingOperand op, t => t.IsOperator op
  | missingOperator, t => t.isParen '(' = true

/-- The error points at the token. -/
def ParseFault.PointsAt (schema : Schema) (fault : ParseFault) (t : Token) : Prop :=
  t.position = fault.position ∧ fault.kind.Concerns schema t

/-! ### What a token cannot stand for -/

theorem resolve_pointsAt (h : ParseState.resolve schema t = .error fault) :
    fault.PointsAt schema t := by
  unfold ParseState.resolve at h
  split at h
  · cases h
  next hnone =>
    cases h
    exact ⟨rfl, rfl, hnone⟩
  next hambiguous =>
    cases h
    exact ⟨rfl, hambiguous⟩

theorem operator_pointsAt (h : ParseState.operator t = .error fault) :
    fault.PointsAt schema t := by
  have hnone : ∀ op, ¬ t.IsOperator op := by
    intro op hop
    rw [operator_eq_ok_iff.mpr hop] at h
    cases h
  unfold ParseState.operator at h
  split at h
  · cases h
  · cases h
    exact ⟨rfl, rfl, hnone⟩

theorem literal_pointsAt {left : Expr} (h : ParseState.literal left t = .error fault) :
    fault.PointsAt schema t := by
  unfold ParseState.literal at h
  split at h
  · cases h
    exact ⟨rfl, rfl⟩
  next type htype =>
    split at h
    · cases h
    next herror =>
      cases h
      exact ⟨rfl, type, herror⟩

/-! ### What the reader keeps -/

/-- The operator of the operation is a token at the position kept for it. -/
def Pending.Recorded (tokens : List Token) : Pending → Prop
  | awaiting _ op position => ∃ t ∈ tokens, t.IsOperator op ∧ t.position = position
  | complete _ op position _ => ∃ t ∈ tokens, t.IsOperator op ∧ t.position = position
  | _ => True

/-- An operation that was laid aside has room for one more operand, and the parenthesis for which it
    was is a token at the position kept for it. -/
def Frame.Recorded (tokens : List Token) : Frame → Prop
  | group pending position => pending.acceptsGroup = true ∧ pending.Recorded tokens ∧
      ∃ t ∈ tokens, t.isParen '(' = true ∧ t.position = position
  | chain pending => pending.acceptsGroup = true ∧ pending.Recorded tokens

structure ParseState.Recorded (tokens : List Token) (s : ParseState) : Prop where
  stack : ∀ frame ∈ s.stack, frame.Recorded tokens
  pending : s.pending.Recorded tokens

/-! ### Operations that are finished -/

namespace Pending

variable {inner outer next : Pending} {part : Expr}

theorem Recorded.pointsAt_of_finish (hinner : inner.Recorded tokens)
    (h : inner.finish = .error fault) :
    ∃ t ∈ tokens, fault.PointsAt schema t := by
  cases inner with
  | awaiting left op position =>
    obtain ⟨t, ht, hop, hposition⟩ := hinner
    cases h
    exact ⟨t, ht, hposition, hop⟩
  | _ => cases h

/-- Where there is room, a part can be added. -/
theorem exists_add (hroom : outer.acceptsGroup = true) (part : Expr) :
    ∃ next, outer.add part = .ok next := by
  by_cases hpart : part = .empty
  · exact ⟨outer, hpart ▸ add_empty⟩
  · cases outer with
    | start => exact ⟨_, add_start hpart⟩
    | awaiting left op position => exact ⟨_, add_awaiting hpart⟩
    | operand => cases hroom
    | complete => cases hroom

theorem Recorded.add (houter : outer.Recorded tokens) (h : outer.add part = .ok next) :
    next.Recorded tokens := by
  unfold Pending.add at h
  split at h
  · cases h
    exact houter
  · cases outer <;> cases h
    · trivial
    · exact houter

theorem Recorded.attach (houter : outer.Recorded tokens)
    (h : outer.attach inner position = .ok next) : next.Recorded tokens := by
  obtain ⟨part, -, hadd⟩ := attach_eq_ok_iff.mp h
  exact houter.add hadd

/-- Where there is room, only the inner operation can be at fault. -/
theorem attach_eq_error (hroom : outer.acceptsGroup = true)
    (h : outer.attach inner position = .error fault) : inner.finish = .error fault := by
  rcases bind_eq_error_iff.mp h with hfinish | ⟨part, -, hadd⟩
  · exact hfinish
  · obtain ⟨next, hnext⟩ := exists_add hroom part
    rw [hnext] at hadd
    cases hadd

theorem attach_position (hroom : outer.acceptsGroup = true) (inner : Pending) (p q : Nat) :
    outer.attach inner p = outer.attach inner q := by
  unfold Pending.attach
  refine bind_congr fun part => ?_
  obtain ⟨next, hnext⟩ := exists_add hroom part
  rw [hnext]

end Pending

/-! ### Steps -/

namespace ParseState

variable {s next : ParseState} {stack : List Frame} {inner last : Pending}

theorem Recorded.of_openGroup (hs : s.Recorded tokens) (ht : t ∈ tokens)
    (hopening : t.isParen '(' = true) (h : s.openGroup t.position = .ok next) :
    next.Recorded tokens := by
  obtain ⟨hroom, rfl⟩ := openGroup_eq_ok_iff.mp h
  have hframe : Frame.Recorded tokens (.group s.pending t.position) :=
    ⟨hroom, hs.pending, t, ht, hopening, rfl⟩
  exact ⟨List.forall_mem_cons.mpr ⟨hframe, hs.stack⟩, trivial⟩

theorem openGroup_pointsAt (hopening : t.isParen '(' = true)
    (h : s.openGroup t.position = .error fault) : fault.PointsAt schema t := by
  unfold openGroup at h
  split at h
  · cases h
  · cases h
    exact ⟨rfl, hopening⟩

theorem Recorded.of_closeGroup (hs : Recorded tokens ⟨stack, inner⟩)
    (h : closeGroup position stack inner = .ok next) : next.Recorded tokens := by
  induction stack generalizing inner with
  | nil => cases h
  | cons frame rest ih =>
    obtain ⟨hframe, hrest⟩ := List.forall_mem_cons.mp hs.stack
    cases frame with
    | chain outer =>
      obtain ⟨whole, hwhole, hclose⟩ := bind_eq_ok_iff.mp h
      exact ih ⟨hrest, hframe.2.attach hwhole⟩ hclose
    | group outer opened =>
      obtain ⟨whole, hwhole, rfl⟩ := bind_pure_eq_ok_iff.mp h
      exact ⟨hrest, hframe.2.1.attach hwhole⟩

/-- A parenthesis that cannot close a group is wrong itself, or the last operator in the group
lacks a side. -/
theorem Recorded.closeGroup_pointsAt (hs : Recorded tokens ⟨stack, inner⟩) (ht : t ∈ tokens)
    (hclosing : t.isParen ')' = true) (h : closeGroup t.position stack inner = .error fault) :
    ∃ t ∈ tokens, fault.PointsAt schema t := by
  -- The chains above the group are finished one after the other, until one lacks a side.
  induction stack generalizing inner with
  | nil =>
    cases h
    exact ⟨t, ht, rfl, hclosing⟩
  | cons frame rest ih =>
    obtain ⟨hframe, hrest⟩ := List.forall_mem_cons.mp hs.stack
    cases frame with
    | chain outer =>
      rcases bind_eq_error_iff.mp h with hattach | ⟨whole, hwhole, hclose⟩
      · exact hs.pending.pointsAt_of_finish (Pending.attach_eq_error hframe.1 hattach)
      · exact ih ⟨hrest, hframe.2.attach hwhole⟩ hclose
    | group outer opened =>
      rcases bind_eq_error_iff.mp h with hattach | ⟨whole, -, hpure⟩
      · exact hs.pending.pointsAt_of_finish (Pending.attach_eq_error hframe.1 hattach)
      · cases hpure

theorem Recorded.of_accept (hs : s.Recorded tokens) (ht : t ∈ tokens)
    (h : s.accept schema t = .ok next) : next.Recorded tokens := by
  obtain ⟨stack, pending⟩ := s
  cases pending with
  | start =>
    obtain ⟨left, -, rfl⟩ := bind_pure_eq_ok_iff.mp h
    exact ⟨hs.stack, trivial⟩
  | operand left =>
    obtain ⟨op, hop, rfl⟩ := bind_pure_eq_ok_iff.mp h
    exact ⟨hs.stack, t, ht, operator_eq_ok_iff.mp hop, rfl⟩
  | awaiting left op position =>
    cases op with
    | connective op =>
      obtain ⟨right, -, rfl⟩ := bind_pure_eq_ok_iff.mp h
      -- The operation waits on the stack for the operand that the word begins.
      exact ⟨List.forall_mem_cons.mpr ⟨⟨rfl, hs.pending⟩, hs.stack⟩, trivial⟩
    | comparison _ | textTest _ =>
      obtain ⟨right, -, rfl⟩ := bind_pure_eq_ok_iff.mp h
      exact ⟨hs.stack, hs.pending⟩
  | complete left op position right =>
    obtain ⟨op', hop, rfl⟩ := bind_pure_eq_ok_iff.mp h
    -- The finished condition waits there as the left side of the new operator.
    have hframe : Frame.Recorded tokens
        (.chain (.awaiting (.binary op left right) op' t.position)) :=
      ⟨rfl, t, ht, operator_eq_ok_iff.mp hop, rfl⟩
    exact ⟨List.forall_mem_cons.mpr ⟨hframe, hs.stack⟩, trivial⟩

theorem accept_pointsAt (h : s.accept schema t = .error fault) : fault.PointsAt schema t := by
  obtain ⟨stack, pending⟩ := s
  -- What a word has to be depends on how far the operation has come.
  cases pending with
  | start =>
    rcases bind_eq_error_iff.mp h with hleft | ⟨_, -, hpure⟩
    · exact resolve_pointsAt hleft
    · cases hpure
  | operand left =>
    rcases bind_eq_error_iff.mp h with hop | ⟨_, -, hpure⟩
    · exact operator_pointsAt hop
    · cases hpure
  | awaiting left op position =>
    cases op with
    | connective op =>
      rcases bind_eq_error_iff.mp h with hright | ⟨_, -, hpure⟩
      · exact resolve_pointsAt hright
      · cases hpure
    | comparison _ | textTest _ =>
      rcases bind_eq_error_iff.mp h with hright | ⟨_, -, hpure⟩
      · exact literal_pointsAt hright
      · cases hpure
  | complete left op position right =>
    rcases bind_eq_error_iff.mp h with hop | ⟨_, -, hpure⟩
    · exact operator_pointsAt hop
    · cases hpure

/-- A step keeps only what it takes from the token. -/
theorem Recorded.of_step (hs : s.Recorded tokens) (ht : t ∈ tokens)
    (h : step schema s t = .ok next) : next.Recorded tokens := by
  unfold step at h
  split at h
  · next hopening => exact hs.of_openGroup ht hopening h
  · split at h
    · exact hs.of_closeGroup h
    · exact hs.of_accept ht h

/-- A step that fails points at one of the tokens. -/
theorem Recorded.pointsAt_of_step (hs : s.Recorded tokens) (ht : t ∈ tokens)
    (h : step schema s t = .error fault) : ∃ t ∈ tokens, fault.PointsAt schema t := by
  unfold step at h
  split at h
  · next hopening => exact ⟨t, ht, openGroup_pointsAt hopening h⟩
  · split at h
    · next hclosing => exact hs.closeGroup_pointsAt ht hclosing h
    · exact ⟨t, ht, accept_pointsAt h⟩

/-! ### The end of the command -/

theorem exists_of_openGroup?_eq_some (hstack : ∀ frame ∈ stack, frame.Recorded tokens)
    (h : openGroup? stack = some position) :
    ∃ t ∈ tokens, t.isParen '(' = true ∧ t.position = position := by
  induction stack with
  | nil => cases h
  | cons frame rest ih =>
    obtain ⟨hframe, hrest⟩ := List.forall_mem_cons.mp hstack
    cases frame with
    | group outer opened =>
      cases h
      exact hframe.2.2
    | chain outer => exact ih hrest h

theorem Recorded.of_unwind (hs : Recorded tokens ⟨stack, inner⟩)
    (h : unwind position stack inner = .ok last) : last.Recorded tokens := by
  induction stack generalizing inner with
  | nil =>
    cases h
    exact hs.pending
  | cons frame rest ih =>
    obtain ⟨hframe, hrest⟩ := List.forall_mem_cons.mp hs.stack
    cases frame with
    | group outer opened => exact ih ⟨hrest, hs.pending⟩ h
    | chain outer =>
      obtain ⟨whole, hwhole, hlast⟩ := bind_eq_ok_iff.mp h
      exact ih ⟨hrest, hframe.2.attach hwhole⟩ hlast

/-- What fails at the end of the command fails at an operator read before. -/
theorem Recorded.pointsAt_of_unwind (hs : Recorded tokens ⟨stack, inner⟩)
    (h : unwind position stack inner = .error fault) : ∃ t ∈ tokens, fault.PointsAt schema t := by
  induction stack generalizing inner with
  | nil => cases h
  | cons frame rest ih =>
    obtain ⟨hframe, hrest⟩ := List.forall_mem_cons.mp hs.stack
    cases frame with
    | group outer opened => exact ih ⟨hrest, hs.pending⟩ h
    | chain outer =>
      rcases bind_eq_error_iff.mp h with hattach | ⟨whole, hwhole, hlast⟩
      · exact hs.pending.pointsAt_of_finish (Pending.attach_eq_error hframe.1 hattach)
      · exact ih ⟨hrest, hframe.2.attach hwhole⟩ hlast

/-- Where the command ends makes no difference, as what was laid aside has room. -/
theorem unwind_position (hstack : ∀ frame ∈ stack, frame.Recorded tokens) (inner : Pending)
    (p q : Nat) : unwind p stack inner = unwind q stack inner := by
  induction stack generalizing inner with
  | nil => rfl
  | cons frame rest ih =>
    obtain ⟨hframe, hrest⟩ := List.forall_mem_cons.mp hstack
    cases frame with
    | group outer opened => exact ih hrest inner
    | chain outer =>
      simp only [unwind]
      rw [Pending.attach_position hframe.1 inner p q]
      exact bind_congr fun whole => ih hrest whole

theorem Recorded.pointsAt_of_finish (hs : s.Recorded tokens)
    (h : s.finish position = .error fault) : ∃ t ∈ tokens, fault.PointsAt schema t := by
  unfold finish at h
  split at h
  · next opened hopened =>
    obtain ⟨t, ht, hopening, hposition⟩ := exists_of_openGroup?_eq_some hs.stack hopened
    cases h
    exact ⟨t, ht, hposition, hopening⟩
  · rcases bind_eq_error_iff.mp h with hunwind | ⟨last, hlast, hfinish⟩
    · exact hs.pointsAt_of_unwind hunwind
    · exact (hs.of_unwind hlast).pointsAt_of_finish hfinish

theorem Recorded.finish_position (hs : s.Recorded tokens) (p q : Nat) :
    s.finish p = s.finish q := by
  unfold finish
  rw [unwind_position hs.stack s.pending p q]

/-! ### Whole commands -/

/-- Nothing but what was taken from tokens is kept in a whole run. -/
theorem recorded_of_foldlM {taken : List Token} (htaken : ∀ t ∈ taken, t ∈ tokens)
    (h : taken.foldlM (step schema) ⟨[], .start⟩ = .ok s) : s.Recorded tokens := by
  refine foldlM_induction (P := fun _ s => s.Recorded tokens) ?_ ?_ h
  · exact ⟨List.forall_mem_nil _, trivial⟩
  · exact fun t ht _ _ _ hs hstep => hs.of_step (htaken t ht) hstep

end ParseState

namespace Expr

/-- Every error points at a token. -/
theorem pointsAt_of_ofTokens {length : Nat} (h : ofTokens schema tokens length = .error fault) :
    ∃ t ∈ tokens, fault.PointsAt schema t := by
  rcases bind_eq_error_iff.mp h with hread | ⟨s, hs, hfinish⟩
  · obtain ⟨taken, t, rest, s, rfl, hs, hstep⟩ := exists_of_foldlM_eq_error hread
    have hrecorded := ParseState.recorded_of_foldlM (fun _ => List.mem_append_left (t :: rest)) hs
    exact hrecorded.pointsAt_of_step (List.mem_append_cons_self ..) hstep
  · exact (ParseState.recorded_of_foldlM (fun _ => id) hs).pointsAt_of_finish hfinish

/-- Nothing is reported at the end of the command. -/
theorem ofTokens_length_irrelevant (schema : Schema) (tokens : List Token) (m n : Nat) :
    ofTokens schema tokens m = ofTokens schema tokens n := by
  unfold ofTokens
  cases hs : tokens.foldlM (ParseState.step schema) ⟨[], .start⟩ with
  | error fault => rfl
  | ok s => exact (ParseState.recorded_of_foldlM (fun _ => id) hs).finish_position m n

theorem ofCommand_eq_error_iff {command : Command} {error : ParseError} :
    ofCommand schema command = .error error ↔
      ofTokens schema command.tokens command.text.length = .error error.fault ∧
        error.command = command.text := by
  obtain ⟨text, fault⟩ := error
  unfold ofCommand
  split
  · next h => simp [h]
  · next h => simp [h, and_comm, eq_comm]

end Expr

theorem Command.position_lt_of_mem_ofText {s : String} (h : t ∈ (Command.ofText s).tokens) :
    t.position < (Text.trimmed s).length := by
  rw [Command.tokens_ofText] at h
  have hbounds := (Token.lexFrom_positions 0 (Text.trim s.toList)).1 t (List.mem_filter.mp h).1
  simpa [Text.trimmed] using hbounds.2

/-- **Every error points at a token.**  It is a token of the command that has to do with what is
    wrong: for an operator without a right side it is that operator, and for a missing operator it
    is the parenthesis that an operator should stand in front of.  There is never one operand too
    many, and no error lies at the end of the command, whatever its length is.  In a command that
    was written as a text, the error lies inside the trimmed text. -/
theorem Expr.ofCommand_error_pointsAt {schema : Schema} {command : Command} {error : ParseError}
    (h : Expr.ofCommand schema command = .error error) :
    (∃ t ∈ command.tokens, t.position = error.fault.position ∧
        error.fault.kind.Concerns schema t) ∧
      error.fault.kind ≠ .tooManyOperands ∧
      (∀ length, Expr.ofTokens schema command.tokens length = .error error.fault) ∧
      ∀ s, command = Command.ofText s → error.fault.position < (Text.trimmed s).length := by
  obtain ⟨hread, -⟩ := Expr.ofCommand_eq_error_iff.mp h
  obtain ⟨t, ht, hposition, hconcerns⟩ := Expr.pointsAt_of_ofTokens hread
  refine ⟨⟨t, ht, hposition, hconcerns⟩, ?_, ?_, ?_⟩
  · -- No token is one too many, so the kind that says so concerns none.
    intro hkind
    rw [hkind] at hconcerns
    exact hconcerns
  · intro length
    rw [Expr.ofTokens_length_irrelevant schema command.tokens length command.text.length]
    exact hread
  · rintro s rfl
    rw [← hposition]
    exact Command.position_lt_of_mem_ofText ht

/-- The error of `length <`, with the property `length`, is at its operator. -/
theorem length_less_lacks_operand :
    Expr.ofCommand (Schema.empty.registerAll fileColumns) (Command.ofText "length <") =
        .error ⟨"length <", .missingOperand (.comparison .less), 7⟩ ∧
      (∃ t ∈ (Command.ofText "length <").tokens, t.position = 7 ∧
        t.IsOperator (.comparison .less)) ∧
      7 < (Text.trimmed "length <").length := by
  have hread : Expr.ofCommand (Schema.empty.registerAll fileColumns) (Command.ofText "length <") =
      .error ⟨"length <", .missingOperand (.comparison .less), 7⟩ := by
    decide +kernel
  obtain ⟨htoken, -, -, hinside⟩ := Expr.ofCommand_error_pointsAt hread
  exact ⟨hread, htoken, hinside "length <" rfl⟩

end RecordFilter
