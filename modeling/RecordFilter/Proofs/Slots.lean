import RecordFilter.Expr.Slots
import RecordFilter.Proofs.Faults
/-!
# The slots that can be filled

Of the eight ways to fill three slots the reader reaches four: nothing, a left operand, an operator
behind it, a right operand behind that (`Slots.isFilledInOrder_iff`).  These are the four cases of a
pending operation, and the reader of expressions into slots is the reader of expressions
(`Expr.ofTokensInSlots_eq`).

The one place where the two could part is an operation that is laid aside and has no room for what
comes back.  There is none: what is laid aside accepts a group (`HasRoom`), so the finished part
goes into the slot that is free.
-/

namespace RecordFilter

/-! ### The four cases as slots -/

def Pending.slots : Pending → Slots
  | start => ⟨none, none, none⟩
  | operand left => ⟨none, some left, none⟩
  | awaiting left op position => ⟨some (op, position), some left, none⟩
  | complete left op position right => ⟨some (op, position), some left, some right⟩

def Frame.slots : Frame → SlotFrame
  | group pending position => .group pending.slots position
  | chain pending => .chain pending.slots

def ParseState.slots (state : ParseState) : SlotState :=
  ⟨state.stack.map Frame.slots, state.pending.slots⟩

def SlotFrame.slots : SlotFrame → Slots
  | group slots _ => slots
  | chain slots => slots

/-- Which slots are filled: the left one, the operator, the right one. -/
def Slots.filled (slots : Slots) : Bool × Bool × Bool :=
  (slots.left.isSome, slots.op.isSome, slots.right.isSome)

/-- The slots are filled one after the other: the left one, the operator, the right one. -/
def Slots.IsFilledInOrder (slots : Slots) : Prop :=
  (slots.right.isSome = true → slots.op.isSome = true) ∧
    (slots.op.isSome = true → slots.left.isSome = true)

theorem Slots.isFilledInOrder_iff {slots : Slots} :
    slots.IsFilledInOrder ↔ ∃ pending : Pending, pending.slots = slots := by
  constructor
  · intro h
    -- Of the eight cases the four in which a slot is passed over are excluded.
    rcases slots with ⟨_ | ⟨op, position⟩, _ | left, _ | right⟩
    · exact ⟨.start, rfl⟩
    · simp [IsFilledInOrder] at h
    · exact ⟨.operand left, rfl⟩
    · simp [IsFilledInOrder] at h
    · simp [IsFilledInOrder] at h
    · simp [IsFilledInOrder] at h
    · exact ⟨.awaiting left op position, rfl⟩
    · exact ⟨.complete left op position right, rfl⟩
  · rintro ⟨pending, rfl⟩
    cases pending <;> simp [Pending.slots, Slots.IsFilledInOrder]

variable {schema : Schema} {state : ParseState} {outer : Pending} {stack : List Frame}

/-! ### One operation -/

@[simp] theorem acceptsGroup_slots (pending : Pending) :
    pending.slots.acceptsGroup = pending.acceptsGroup := by
  cases pending <;> rfl

@[simp] theorem finish_slots (pending : Pending) (ending : Nat) :
    pending.slots.finish ending = pending.finish := by
  cases pending <;> rfl

/-- Where there is room, a finished part goes into the same slot. -/
theorem add_slots (hroom : outer.acceptsGroup = true) (part : Expr) :
    outer.slots.add part = Pending.slots <$> outer.add part := by
  cases hempty : part.isEmpty with
  | true => simp [Slots.add, Pending.add, hempty]
  | false =>
    cases outer with
    | start => simp [Slots.add, Pending.add, hempty, Pending.slots]
    | operand => cases hroom
    | awaiting => simp [Slots.add, Pending.add, hempty, Pending.slots]
    | complete => cases hroom

theorem attach_slots (hroom : outer.acceptsGroup = true) (inner : Pending) (position : Nat) :
    outer.slots.attach inner.slots position = Pending.slots <$> outer.attach inner position := by
  rw [Slots.attach, Pending.attach, finish_slots, map_bind]
  congr 1
  funext part
  rw [add_slots hroom]
  cases outer.add part <;> rfl

/-! ### One token -/

/-- The operation that was laid aside has room for one more operand. -/
def Frame.HasRoom : Frame → Prop
  | group pending _ => pending.acceptsGroup = true
  | chain pending => pending.acceptsGroup = true

theorem openGroup_slots (state : ParseState) (position : Nat) :
    state.slots.openGroup position = ParseState.slots <$> state.openGroup position := by
  rw [SlotState.openGroup, ParseState.openGroup, ParseState.slots, acceptsGroup_slots]
  split <;> rfl

theorem closeGroup_slots (hroom : ∀ frame ∈ stack, frame.HasRoom) (inner : Pending)
    (position : Nat) :
    SlotState.closeGroup position (stack.map Frame.slots) inner.slots =
      ParseState.slots <$> ParseState.closeGroup position stack inner := by
  -- Every frame has room, so each part goes into the slot that is free.
  induction stack generalizing inner with
  | nil => rfl
  | cons frame rest ih =>
    obtain ⟨hframe, hrest⟩ := List.forall_mem_cons.mp hroom
    cases frame with
    | group outer opened =>
      rw [List.map_cons, Frame.slots, SlotState.closeGroup, ParseState.closeGroup,
        attach_slots hframe, map_bind, bind_map_left]
      rfl
    | chain outer =>
      rw [List.map_cons, Frame.slots, SlotState.closeGroup, ParseState.closeGroup,
        attach_slots hframe, map_bind, bind_map_left]
      congr 1
      funext pending
      exact ih hrest pending

/-- A word fills the slot that the pending operation waits for. -/
theorem accept_slots (state : ParseState) (token : Token) :
    state.slots.accept schema token = ParseState.slots <$> state.accept schema token := by
  obtain ⟨stack, pending⟩ := state
  cases pending with
  | start =>
    rw [SlotState.accept, ParseState.accept, map_bind]
    rfl
  | operand left =>
    rw [SlotState.accept, ParseState.accept, map_bind]
    rfl
  | awaiting left op position =>
    cases op with
    | connective op =>
      -- The token is taken a second time, by the empty operation.
      rw [SlotState.accept, ParseState.accept, map_bind]
      simp only [ParseState.slots, Pending.slots]
      rw [SlotState.accept]
      rfl
    | comparison op =>
      rw [SlotState.accept, ParseState.accept, map_bind]
      rfl
    | textTest op =>
      rw [SlotState.accept, ParseState.accept, map_bind]
      rfl
  | complete left op position right =>
    rw [SlotState.accept, ParseState.accept, map_bind]
    rfl

/-- Both readers take a token in the same way. -/
theorem step_slots (hroom : ∀ frame ∈ state.stack, frame.HasRoom) (token : Token) :
    state.slots.step schema token = ParseState.slots <$> state.step schema token := by
  unfold SlotState.step ParseState.step
  split
  · exact openGroup_slots state token.position
  split
  · exact closeGroup_slots hroom state.pending token.position
  · exact accept_slots state token

/-! ### The end of the command -/

@[simp] theorem openGroup?_slots (stack : List Frame) :
    SlotState.openGroup? (stack.map Frame.slots) = ParseState.openGroup? stack := by
  induction stack with
  | nil => rfl
  | cons frame rest ih =>
    cases frame with
    | group outer opened => rfl
    | chain outer => exact ih

theorem unwind_slots (hroom : ∀ frame ∈ stack, frame.HasRoom) (inner : Pending) (position : Nat) :
    SlotState.unwind position (stack.map Frame.slots) inner.slots =
      Pending.slots <$> ParseState.unwind position stack inner := by
  induction stack generalizing inner with
  | nil => rfl
  | cons frame rest ih =>
    obtain ⟨hframe, hrest⟩ := List.forall_mem_cons.mp hroom
    cases frame with
    | group outer opened => exact ih hrest inner
    | chain outer =>
      rw [List.map_cons, Frame.slots, SlotState.unwind, ParseState.unwind, attach_slots hframe,
        map_bind, bind_map_left]
      exact bind_congr fun pending => ih hrest pending

theorem stateFinish_slots (hroom : ∀ frame ∈ state.stack, frame.HasRoom) (position : Nat) :
    state.slots.finish position = state.finish position := by
  rw [SlotState.finish, ParseState.finish, ParseState.slots, openGroup?_slots]
  cases ParseState.openGroup? state.stack with
  | some opened => rfl
  | none =>
    simp only
    rw [unwind_slots hroom, bind_map_left]
    exact bind_congr fun pending => finish_slots pending position

/-! ### Whole commands -/

/-- What the reader keeps of the tokens includes that there is room. -/
theorem ParseState.Recorded.hasRoom {tokens : List Token} (h : state.Recorded tokens) :
    ∀ frame ∈ state.stack, frame.HasRoom := by
  intro frame hframe
  have hrecorded := h.stack frame hframe
  cases frame with
  | group pending position => exact hrecorded.1
  | chain pending => exact hrecorded.1

/-- Reading tokens leads from slots to slots. -/
theorem foldlM_slots (schema : Schema) (tokens : List Token) :
    tokens.foldlM (SlotState.step schema) .initial =
      ParseState.slots <$> tokens.foldlM (ParseState.step schema) ⟨[], .start⟩ := by
  induction tokens using List.reverseRecOn with
  | nil => rfl
  | append_singleton taken t ih =>
    rw [List.foldlM_append, List.foldlM_append, ih]
    cases htaken : taken.foldlM (ParseState.step schema) ⟨[], .start⟩ with
    | error fault => rfl
    | ok s =>
      have hrecorded : s.Recorded taken := ParseState.recorded_of_foldlM (fun _ ht => ht) htaken
      simp only [List.foldlM_cons, List.foldlM_nil, bind_pure]
      exact step_slots hrecorded.hasRoom t

/-- **The four cases are all there are.**  Whatever tokens are read, the slots of the operation that
    is being written are filled in order, and so are those of every operation that was laid aside,
    which has room for what comes back to it. -/
theorem SlotState.isFilledInOrder_of_foldlM {tokens : List Token} {s : SlotState}
    (h : tokens.foldlM (SlotState.step schema) .initial = .ok s) :
    s.current.IsFilledInOrder ∧
      ∀ frame ∈ s.stack, frame.slots.IsFilledInOrder ∧ frame.slots.acceptsGroup = true := by
  -- Whatever is reached is reached by the other reader, whose states have the four shapes.
  rw [foldlM_slots] at h
  cases htokens : tokens.foldlM (ParseState.step schema) ⟨[], .start⟩ with
  | error fault =>
    rw [htokens] at h
    cases h
  | ok state =>
    rw [htokens] at h
    obtain rfl : state.slots = s := Except.ok.inj h
    have hroom := (ParseState.recorded_of_foldlM (fun _ ht => ht) htokens).hasRoom
    refine ⟨Slots.isFilledInOrder_iff.mpr ⟨state.pending, rfl⟩, ?_⟩
    intro frame hframe
    obtain ⟨frame, hmem, rfl⟩ := List.mem_map.mp hframe
    have hframe := hroom frame hmem
    cases frame with
    | group pending position | chain pending =>
      exact ⟨Slots.isFilledInOrder_iff.mpr ⟨pending, rfl⟩,
        (acceptsGroup_slots pending).trans hframe⟩

def SlotState.lengths : Schema := (Schema.empty.register "" "length" .integer).1

/-- Each of the four cases occurs, one behind the other in `length < 9`. -/
theorem SlotState.exists_foldlM (pending : Pending) :
    ∃ (schema : Schema) (tokens : List Token) (s : SlotState),
      tokens.foldlM (SlotState.step schema) .initial = .ok s ∧
        s.current.filled = pending.slots.filled := by
  have hread : ∀ (tokens : List Token) (state : ParseState),
      tokens.foldlM (ParseState.step lengths) ⟨[], .start⟩ = .ok state →
        tokens.foldlM (SlotState.step lengths) .initial = .ok state.slots := by
    intro tokens state h
    rw [foldlM_slots, h]
    rfl
  -- Four commands show them, each one token longer than the one before.
  cases pending with
  | start => exact ⟨lengths, [], _, hread [] ⟨[], .start⟩ rfl, rfl⟩
  | operand left =>
    exact ⟨lengths, [⟨"length", 0, false⟩], _,
      hread _ ⟨[], .operand (.column "length" .integer)⟩ (by decide +kernel), rfl⟩
  | awaiting left op position =>
    exact ⟨lengths, [⟨"length", 0, false⟩, ⟨"<", 7, false⟩], _,
      hread _ ⟨[], .awaiting (.column "length" .integer) (.comparison .less) 7⟩
        (by decide +kernel), rfl⟩
  | complete left op position right =>
    exact ⟨lengths, [⟨"length", 0, false⟩, ⟨"<", 7, false⟩, ⟨"9", 9, false⟩], _,
      hread _ ⟨[], .complete (.column "length" .integer) (.comparison .less) 7
        (.constant (.integer 9))⟩ (by decide +kernel), rfl⟩

/-- **Reading into slots.**  For every schema, whatever the tokens are and wherever the command
    ends, the reader into slots gives the expression that the reader gives, or reports the same
    error at the same position. -/
theorem Expr.ofTokensInSlots_eq (schema : Schema) (tokens : List Token) (length : Nat) :
    Expr.ofTokensInSlots schema tokens length = Expr.ofTokens schema tokens length := by
  rw [Expr.ofTokensInSlots, Expr.ofTokens, foldlM_slots, bind_map_left]
  cases htokens : tokens.foldlM (ParseState.step schema) ⟨[], .start⟩ with
  | error fault => rfl
  | ok s =>
    have hrecorded : s.Recorded tokens := ParseState.recorded_of_foldlM (fun _ ht => ht) htokens
    exact stateFinish_slots hrecorded.hasRoom length

end RecordFilter
