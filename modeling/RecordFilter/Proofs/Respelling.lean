import RecordFilter.Proofs.Partition
import RecordFilter.Proofs.Printing
/-!
# Tokens written back

The tokens of a text can be written down again, between quotes what was quoted and all else as it
is, with a space between any two.  The new text has the same tokens (`Command.ofText_respelled`).
The amount of white space is of no account, and none is needed where no run would go on, such as
between a word and an operator (`Spaced`).

It rests on what the tokens of a text look like (`IsSpellable`).  They are in lower case, so that
they are not lowered any further; there is no quote in them; and outside quotes a token is a
parenthesis or all of a run, so that it does not fall apart.
-/

namespace RecordFilter

namespace Token

def spelling (t : Token) : String := if t.quoted then "\"" ++ t.text ++ "\"" else t.text

/-- The tokens stand in the text one after the other, with nothing but white space around them, and
    no run of one goes on in what follows it. -/
inductive Spaced : List Token → List Char → Prop where
  | nil {gap : List Char} (hgap : ∀ c ∈ gap, Text.isBlank c = true) : Spaced [] gap
  | cons {t : Token} {tokens : List Token} {gap rest : List Char}
      (hgap : ∀ c ∈ gap, Text.isBlank c = true) (hseam : Seam t.spelling.toList rest)
      (hrest : Spaced tokens rest) : Spaced (t :: tokens) (gap ++ (t.spelling.toList ++ rest))

/-- The token shows something and can be read as it is written down. -/
structure IsSpellable (t : Token) : Prop where
  token : IsTokenText t.text
  shown : Text.isAllBlank t.text.toList = false
  /-- Outside quotes the token does not fall apart. -/
  whole : t.quoted = false → (t.text = "(" ∨ t.text = ")") ∨ isRun t.text.toList = true

variable {s run : List Char} {kind : Char → Bool} {t : Token} {tokens : List Token}

/-! ### Runs in lower case -/

/-- Lower case leaves an operator character as it is, and makes word characters of a word
    character. -/
theorem kind_of_mem_lowerChar (hkind : kind = isOperatorChar ∨ kind = isWordChar) {c d : Char}
    (hc : kind c = true) (hd : d ∈ Text.lowerChar c) : kind d = true := by
  rcases Text.lowerChar_cases c with hsame | ⟨rfl, hdotted⟩ | ⟨e, hlower, he⟩
  · rw [hsame, List.mem_singleton] at hd
    rw [hd]
    exact hc
  · obtain rfl := kind_eq_of_common hkind (.inr rfl) hc (by decide)
    rw [hdotted] at hd
    rcases List.mem_pair.mp hd with rfl | rfl <;> decide
  · obtain rfl := kind_eq_of_common hkind (.inr rfl) hc he.word.1
    rw [hlower, List.mem_singleton] at hd
    rw [hd]
    exact he.word.2

theorem isRun_of_kind (hkind : kind = isOperatorChar ∨ kind = isWordChar) (hne : s ≠ [])
    (hall : ∀ c ∈ s, kind c = true) : isRun s = true := by
  rcases hkind with rfl | rfl
  · obtain ⟨c, rest, rfl⟩ := List.exists_cons_of_ne_nil hne
    have hc := hall c (List.mem_cons_self ..)
    simp only [isRun, isRunChar, continuesRun, hc, Bool.true_or, Bool.true_and, if_true,
      List.all_eq_true]
    intro d hd
    exact hall d (List.mem_cons_of_mem c hd)
  · exact isRun_of_word hne hall

/-- A run of characters of one kind is a run of this kind in lower case too. -/
theorem isRun_lowerEach (hkind : kind = isOperatorChar ∨ kind = isWordChar) (hne : run ≠ [])
    (hall : ∀ c ∈ run, kind c = true) : isRun (Text.lowerEach run) = true := by
  apply isRun_of_kind hkind
  · exact lowerEach_ne_nil (isRun_of_kind hkind hne hall)
  · intro d hd
    obtain ⟨c, hc, hmem⟩ := List.mem_flatMap.mp hd
    exact kind_of_mem_lowerChar hkind (hall c hc) hmem

/-! ### What the tokens of a text look like -/

theorem quote_not_mem_slice {place : Nat} (h : IsSlice s place run) : '"' ∉ run := by
  intro hmem
  rcases h.kind_cases with ⟨paren, hparen, rfl⟩ | ⟨kind, hkind, hrun⟩
  · rw [List.mem_singleton] at hmem
    subst hmem
    rcases hparen with hparen | hparen <;> exact absurd hparen (by decide)
  · exact absurd (isRunChar_of_kind hkind (hrun.all _ hmem)) (by decide)

theorem IsMade.isSpellable (h : IsMade s t) (hshown : t.isBlank = false) : IsSpellable t := by
  cases h with
  | @unquoted place run hslice =>
    refine ⟨isTokenText_lowerEach (quote_not_mem_slice hslice), hshown, ?_⟩
    intro _
    -- A longest run is one token again; a parenthesis is spelled as itself.
    rcases hslice.kind_cases with ⟨paren, hparen, rfl⟩ | ⟨kind, hkind, hrun⟩
    · apply Or.inl
      have hlowered : String.ofList (Text.lowerEach ['(']) = "(" ∧
          String.ofList (Text.lowerEach [')']) = ")" := by decide +kernel
      rcases hparen with rfl | rfl
      · exact .inl hlowered.1
      · exact .inr hlowered.2
    · apply Or.inr
      rw [String.toList_ofList]
      exact isRun_lowerEach hkind hslice.nonempty hrun.all
  | @quoted place hopens =>
    have hbody : '"' ∉ quotedBody s place := by
      intro hmem
      simpa using List.mem_takeWhile_imp hmem
    refine ⟨isTokenText_lowerEach hbody, hshown, ?_⟩
    intro hquoted
    cases hquoted

theorem isSpellable_of_mem_tokens {s : String} (h : t ∈ (Command.ofText s).tokens) :
    IsSpellable t := by
  rw [Command.tokens_ofText] at h
  have hmade := (isPartition_lexFrom (Text.trim s.toList)).made t h
  have hshown : t.isBlank = false := by simpa using (List.mem_filter.mp h).2
  exact hmade.isSpellable hshown

/-! ### Tokens that are written down -/

/-- What is written for one token is closed, and is that token again. -/
theorem IsSpellable.writtenTokens_spelling (h : IsSpellable t) :
    QuotesClosed t.spelling.toList ∧ writtenTokens t.spelling.toList = [t.written] := by
  have hlowered : Text.loweredEach t.text = t.text := h.token.settled.loweredEach_eq
  cases hquoted : t.quoted with
  | true =>
    -- Between quotes every text is one token, if it has no quote itself.
    rw [spelling, if_pos hquoted]
    constructor
    · exact quotesClosed_quoted h.token.unquoted
    · rw [writtenTokens_quoted h.token.unquoted (by rw [hlowered]; exact h.shown), hlowered,
        written, hquoted]
  | false =>
    rw [spelling, if_neg (by simp [hquoted])]
    refine ⟨.of_count h.token.unquoted, ?_⟩
    rw [written, hquoted]
    rcases h.whole hquoted with (hparen | hparen) | hrun
    · rw [hparen]
      decide +kernel
    · rw [hparen]
      decide +kernel
    · rw [writtenTokens_run hrun, hlowered]

/-- However wide its gaps are, a spelling splits into the tokens it spells. -/
theorem Spaced.writtenTokens_eq (h : Spaced tokens s) (htokens : ∀ t ∈ tokens, IsSpellable t) :
    QuotesClosed s ∧ writtenTokens s = tokens.map written := by
  -- Token by token: the seams let the lexer stop where the spelling does.
  induction h with
  | nil hgap => exact ⟨.of_count (quote_not_mem_blank hgap), writtenTokens_blank hgap⟩
  | @cons t tokens gap rest hgap hseam hrest ih =>
    obtain ⟨hclosed, hwritten⟩ := (htokens t (List.mem_cons_self ..)).writtenTokens_spelling
    obtain ⟨hrestClosed, hrestWritten⟩ := ih fun u hu => htokens u (List.mem_cons_of_mem t hu)
    have hgapClosed : QuotesClosed gap := .of_count (quote_not_mem_blank hgap)
    have hgapSeam : Seam gap (t.spelling.toList ++ rest) :=
      .of_last fun c hc => isRunChar_of_blank (hgap c (List.mem_of_getLast? hc))
    constructor
    · exact hgapClosed.append (hclosed.append hrestClosed)
    · rw [writtenTokens_append hgapClosed hgapSeam, writtenTokens_append hclosed hseam,
        writtenTokens_blank hgap, hwritten, hrestWritten]
      rfl

/-- No white space is needed in front of a token. -/
theorem Spaced.cons_glued {rest : List Char} (hseam : Seam t.spelling.toList rest)
    (hrest : Spaced tokens rest) : Spaced (t :: tokens) (t.spelling.toList ++ rest) := by
  have hgap : ∀ c ∈ ([] : List Char), Text.isBlank c = true := nofun
  exact .cons hgap hseam hrest

theorem Spaced.space_cons (h : Spaced tokens s) : Spaced tokens (' ' :: s) := by
  have hspace : ∀ gap : List Char, (∀ c ∈ gap, Text.isBlank c = true) →
      ∀ c ∈ ' ' :: gap, Text.isBlank c = true := by
    intro gap hgap c hc
    rcases List.mem_cons.mp hc with rfl | hc
    · decide
    · exact hgap c hc
  cases h with
  | nil hgap => exact .nil (hspace _ hgap)
  | cons hgap hseam hrest => exact .cons (hspace _ hgap) hseam hrest

/-- Tokens with a space between any two are spaced. -/
theorem spaced_intercalate (tokens : List Token) :
    Spaced tokens ([' '].intercalate (tokens.map fun t => t.spelling.toList)) := by
  induction tokens with
  | nil => exact .nil (by simp)
  | cons t tokens ih =>
    cases tokens with
    | nil =>
      have hone : Spaced [t] (t.spelling.toList ++ []) := .cons_glued (.of_head (by simp)) ih
      simpa using hone
    | cons u tokens =>
      have hspace : isRunChar ' ' = false := by decide
      have hseam : Seam t.spelling.toList
          (' ' :: [' '].intercalate ((u :: tokens).map fun t => t.spelling.toList)) :=
        .of_head (by simpa using hspace)
      have hall := Spaced.cons_glued hseam ih.space_cons
      simpa [List.intercalate_cons_cons] using hall

end Token

open Token

/-- The tokens of a command written down, with a space between any two. -/
def Command.respelled (command : Command) : String :=
  " ".intercalate (command.tokens.map spelling)

/-- **Tokens can be written back.**  The tokens of a text, written down with a space between any
    two, are the tokens of the new text.  So they are with any white space around them, and with
    none where no run would go on. -/
theorem Command.ofText_respelled (s : String) :
    (Command.ofText (Command.ofText s).respelled).tokens.map written =
        (Command.ofText s).tokens.map written ∧
      ∀ t : String, Spaced (Command.ofText s).tokens t.toList →
        (Command.ofText t).tokens.map written = (Command.ofText s).tokens.map written := by
  have hspaced : ∀ t : String, Spaced (Command.ofText s).tokens t.toList →
      (Command.ofText t).tokens.map written = (Command.ofText s).tokens.map written := by
    intro t ht
    obtain ⟨hclosed, hwritten⟩ := ht.writtenTokens_eq fun _ => isSpellable_of_mem_tokens
    rw [written_ofText_of_closed hclosed, hwritten]
  refine ⟨?_, hspaced⟩
  apply hspaced
  rw [respelled, String.toList_intercalate, List.map_map]
  exact spaced_intercalate _

/-- A text that is written with spaces and capitals, and one with the same tokens and neither. -/
theorem Command.ofText_glued :
    Spaced (Command.ofText " Length  < 1 &&\"A (b)").tokens "length<1&&\"a (b)\"".toList ∧
      (Command.ofText "length<1&&\"a (b)\"").tokens.map written =
        (Command.ofText " Length  < 1 &&\"A (b)").tokens.map written := by
  have htokens : (Command.ofText " Length  < 1 &&\"A (b)").tokens =
      [⟨"length", 0, false⟩, ⟨"<", 8, false⟩, ⟨"1", 10, false⟩, ⟨"&&", 12, false⟩,
        ⟨"a (b)", 14, true⟩] := by
    decide +kernel
  have hspaced : Spaced (Command.ofText " Length  < 1 &&\"A (b)").tokens
      "length<1&&\"a (b)\"".toList := by
    rw [htokens]
    refine @Spaced.cons_glued _ _ "<1&&\"a (b)\"".toList (by decide +kernel) ?_
    refine @Spaced.cons_glued _ _ "1&&\"a (b)\"".toList (by decide +kernel) ?_
    refine @Spaced.cons_glued _ _ "&&\"a (b)\"".toList (by decide +kernel) ?_
    refine @Spaced.cons_glued _ _ "\"a (b)\"".toList (by decide +kernel) ?_
    refine @Spaced.cons_glued _ _ [] (by decide +kernel) ?_
    exact .nil (by simp)
  exact ⟨hspaced, (Command.ofText_respelled " Length  < 1 &&\"A (b)").2 _ hspaced⟩

end RecordFilter
