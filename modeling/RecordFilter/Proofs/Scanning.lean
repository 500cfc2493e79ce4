import RecordFilter.Command.Scanner
import RecordFilter.Proofs.LowerCase
import RecordFilter.Proofs.Splitting
/-!
# One pass reads the same tokens

Between two characters the scanner is in one of three states: there is no token to go on with, or
it is in a run, or it is between quotes.  In each state the text of the token that was begun, with
what is still to come behind it, splits into the tokens that the scanner has not made yet (`Reads`).
Every character keeps this so (`Reads.step`), and at the end nothing is left to come.

The scanner makes no token of two quotes with nothing between them.  Such a token is blank, so the
tokens that are not blank are the same (`visible_finish`), and so is the command
(`Command.scan_eq_ofText`).
-/

namespace RecordFilter

namespace Scanner

open Token

def visible (tokens : List Token) : List Token := tokens.filter fun t => !t.isBlank

/-- The tokens of the whole text are `all`, when the scanner has come as far as `s`. -/
inductive Reads (all : List Token) : Scanner → List Char → Prop where
  | between {position start : Nat} {tokens : List Token} {s : List Char}
      (h : visible (tokens ++ lexFrom position s) = all) :
      Reads all ⟨position, [], start, false, false, tokens⟩ s
  /-- In a run that began with `c`. -/
  | run {start : Nat} {tokens : List Token} {c : Char} {run s : List Char}
      (hc : isRunChar c = true) (hrun : ∀ d ∈ run, continuesRun c d = true)
      (h : visible (tokens ++ lexFrom start (c :: run ++ s)) = all) :
      Reads all ⟨start + (run.length + 1), Text.lowerEach (c :: run), start, false,
        isOperatorChar c, tokens⟩ s
  | quoted {start : Nat} {tokens : List Token} {body s : List Char} (hbody : '"' ∉ body)
      (h : visible (tokens ++ lexFrom start ('"' :: body ++ s)) = all) :
      Reads all ⟨start + (body.length + 1), Text.lowerEach body, start, true, false, tokens⟩ s

variable {scanner : Scanner} {all tokens : List Token} {c d : Char} {run body s : List Char}
  {start position : Nat}

@[simp] theorem visible_append (first second : List Token) :
    visible (first ++ second) = visible first ++ visible second :=
  List.filter_append first second

/-! ### The buffer -/

@[simp] theorem flush_nil (inQuotes inOperator quoted : Bool) (position start : Nat)
    (tokens : List Token) :
    flush ⟨position, [], start, inQuotes, inOperator, tokens⟩ quoted =
      ⟨position, [], start, inQuotes, inOperator, tokens⟩ :=
  rfl

@[simp] theorem flush_lowerEach (c : Char) (run : List Char) (inQuotes inOperator quoted : Bool)
    (position start : Nat) (tokens : List Token) :
    flush ⟨position, Text.lowerEach (c :: run), start, inQuotes, inOperator, tokens⟩ quoted =
      ⟨position, [], start, inQuotes, inOperator, tokens ++ [ofRun (c :: run) start quoted]⟩ := by
  rw [flush, Text.isEmpty_lowerEach]
  rfl

@[simp] theorem push_nil (c : Char) (inOperator : Bool) (position start : Nat)
    (tokens : List Token) :
    push ⟨position, [], start, false, inOperator, tokens⟩ c =
      ⟨position, Text.lowerEach [c], position, false, inOperator, tokens⟩ := by
  simp [push, Text.lowerEach]

/-- Where a token has been begun, by a character or by a quote, a character goes on it. -/
theorem push_lowerEach {inQuotes : Bool} (h : run.isEmpty = true → inQuotes = true) (c : Char)
    (inOperator : Bool) (position start : Nat) (tokens : List Token) :
    push ⟨position, Text.lowerEach run, start, inQuotes, inOperator, tokens⟩ c =
      ⟨position, Text.lowerEach (run ++ [c]), start, inQuotes, inOperator, tokens⟩ := by
  have hbegun : ¬ ((Text.lowerEach run).isEmpty && !inQuotes) = true := by
    rw [Text.isEmpty_lowerEach]
    simpa using h
  rw [push, if_neg hbegun, Text.lowerEach_append_singleton]

/-- What is made of the buffer behind a quote is the quoted token, if that is not blank. -/
theorem exists_flush_body (body : List Char) (position start : Nat) (tokens : List Token) :
    ∃ made, flush ⟨position, Text.lowerEach body, start, true, false, tokens⟩ true =
        ⟨position, [], start, true, false, tokens ++ made⟩ ∧
      visible made = visible [ofRun body start true] := by
  cases body with
  | nil => exact ⟨[], by rw [List.append_nil]; rfl, rfl⟩
  | cons c body => exact ⟨_, flush_lowerEach c body true false true position start tokens, rfl⟩

/-! ### One character -/

/-- Outside quotes, with an empty buffer, a character begins a run of its own kind. -/
theorem step_of_isRunChar (hd : isRunChar d = true) :
    step ⟨position, [], start, false, false, tokens⟩ d =
      ⟨position + 1, Text.lowerEach [d], position, false, isOperatorChar d, tokens⟩ := by
  obtain ⟨hquote, hparen, hblank⟩ := isRunChar_iff.mp hd
  rw [step, read, if_neg hquote, if_neg Bool.false_ne_true, if_neg hparen,
    if_neg (by simp [hblank]), readChar]
  cases hop : isOperatorChar d <;> simp

/-- A character that does not go on the run ends it, and is then read as if no run had been. -/
theorem step_of_not_continuesRun (hd : continuesRun c d = false) :
    step ⟨position, Text.lowerEach (c :: run), start, false, isOperatorChar c, tokens⟩ d =
      step ⟨position, [], start, false, false, tokens ++ [ofRun (c :: run) start false]⟩ d := by
  by_cases hquote : d = '"'
  · simp [step, read, hquote, readQuote]
  by_cases hparen : d = '(' ∨ d = ')'
  · simp [step, read, hquote, hparen, readParen]
  by_cases hblank : Text.isBlank d = true
  · simp [step, read, hquote, hparen, hblank, readBlank]
  · have hrun : isRunChar d = true := isRunChar_iff.mpr ⟨hquote, hparen, by simpa using hblank⟩
    -- A character of a run that does not go on this one is of the other kind.
    have hkind : isOperatorChar d ≠ isOperatorChar c := by
      intro hsame
      rw [continuesRun_iff.mpr ⟨hrun, hsame⟩] at hd
      cases hd
    rw [step_of_isRunChar hrun]
    simp [step, read, hquote, hparen, hblank, readChar, hkind]

theorem ofRun_paren {paren : Char} (h : paren = '(' ∨ paren = ')') (position : Nat) :
    ofRun [paren] position false = ⟨String.singleton paren, position, false⟩ := by
  have hlower : Text.lowerEach [paren] = [paren] := by
    rcases h with rfl | rfl <;> decide
  rw [ofRun, hlower, String.singleton_eq_ofList]

/-- A step between two tokens. -/
theorem Reads.step_between (h : visible (tokens ++ lexFrom position (d :: s)) = all) :
    Reads all (step ⟨position, [], start, false, false, tokens⟩ d) s := by
  by_cases hquote : d = '"'
  · subst hquote
    exact .quoted List.not_mem_nil h
  by_cases hparen : d = '(' ∨ d = ')'
  · have hlex : lexFrom position (d :: s) = ofRun [d] position false :: lexFrom (position + 1) s :=
      lexFrom_piece (.paren hparen) position
    rw [hlex, ofRun_paren hparen, ← List.singleton_append, ← List.append_assoc] at h
    simp only [step, read, readParen, flush_nil, if_neg hquote, if_pos hparen]
    exact .between h
  by_cases hblank : Text.isBlank d = true
  · have hlex : lexFrom position (d :: s) = lexFrom (position + 1) s :=
      lexFrom_piece (.blank hblank) position
    rw [hlex] at h
    simp only [step, read, readBlank, flush_nil, if_neg hquote, if_neg hparen, if_pos hblank]
    exact .between h
  · -- Nothing is in the buffer, so a run begins here and the token with it.
    have hrun : isRunChar d = true := isRunChar_iff.mpr ⟨hquote, hparen, by simpa using hblank⟩
    rw [step_of_isRunChar hrun]
    exact @Reads.run all position tokens d [] s hrun (by simp) h

/-- A step inside a run of word or operator characters. -/
theorem Reads.step_run (hc : isRunChar c = true) (hrun : ∀ e ∈ run, continuesRun c e = true)
    (h : visible (tokens ++ lexFrom start (c :: run ++ d :: s)) = all) :
    Reads all (step ⟨start + (run.length + 1), Text.lowerEach (c :: run), start, false,
      isOperatorChar c, tokens⟩ d) s := by
  cases hd : continuesRun c d with
  | true =>
    obtain ⟨hrunChar, hkind⟩ := continuesRun_iff.mp hd
    obtain ⟨hquote, hparen, hblank⟩ := isRunChar_iff.mp hrunChar
    have hstep : step ⟨start + (run.length + 1), Text.lowerEach (c :: run), start, false,
        isOperatorChar c, tokens⟩ d =
          ⟨start + ((run ++ [d]).length + 1), Text.lowerEach (c :: (run ++ [d])), start, false,
            isOperatorChar c, tokens⟩ := by
      simp [step, read, hquote, hparen, hblank, readChar, hkind, push_lowerEach, Nat.add_assoc]
    rw [hstep]
    refine .run hc ?_ ?_
    · intro e he
      rcases List.mem_append.mp he with he | he
      · exact hrun e he
      · rwa [List.mem_singleton.mp he]
    · simpa using h
  | false =>
    -- The run is flushed first, and then the character is read between two tokens.
    rw [step_of_not_continuesRun hd]
    apply Reads.step_between
    have hpiece : Piece (c :: run) (d :: s) (some (c :: run, false)) :=
      .run hc hrun (by simpa using hd)
    rw [lexFrom_piece hpiece] at h
    rwa [List.append_assoc]

/-- A step inside a quoted segment. -/
theorem Reads.step_quoted (hbody : '"' ∉ body)
    (h : visible (tokens ++ lexFrom start ('"' :: body ++ d :: s)) = all) :
    Reads all (step ⟨start + (body.length + 1), Text.lowerEach body, start, true, false, tokens⟩ d)
      s := by
  by_cases hquote : d = '"'
  · subst hquote
    obtain ⟨made, hflush, hmade⟩ := exists_flush_body body (start + (body.length + 1)) start tokens
    have hpiece : Piece ('"' :: (body ++ ['"'])) s (some (body, true)) := .quoted hbody
    have htext : '"' :: body ++ '"' :: s = '"' :: (body ++ ['"']) ++ s := by simp
    rw [htext, lexFrom_piece hpiece, visible_append, visible_append, Token.made] at h
    simp only [step, read, readQuote, hflush, if_true]
    -- The text of the token has two characters more than its buffer, the quotes.
    apply Reads.between
    rw [visible_append, visible_append, hmade, List.append_assoc]
    simpa [Nat.add_assoc] using h
  · have hstep :
        step ⟨start + (body.length + 1), Text.lowerEach body, start, true, false, tokens⟩ d =
          ⟨start + ((body ++ [d]).length + 1), Text.lowerEach (body ++ [d]), start, true, false,
            tokens⟩ := by
      simp [step, read, hquote, push_lowerEach, Nat.add_assoc]
    rw [hstep]
    refine .quoted ?_ ?_
    · simpa [Ne.symm hquote] using hbody
    · simpa using h

/-- **One character.**  Whatever the state, the tokens of the whole text stay the same. -/
theorem Reads.step (h : Reads all scanner (d :: s)) : Reads all (scanner.step d) s := by
  cases h with
  | between h => exact .step_between h
  | run hc hrun h => exact .step_run hc hrun h
  | quoted hbody h => exact .step_quoted hbody h

/-! ### A whole text -/

/-- At the end a run is a token, and so is what stands behind a quote, closed or not. -/
theorem Reads.finish (h : Reads all scanner []) : visible scanner.finish = all := by
  cases h with
  | between h => simpa [lexFrom, Scanner.finish] using h
  | @run start tokens c run _ hc hrun h =>
    have hlex : lexFrom start (c :: run ++ []) = [ofRun (c :: run) start false] := by
      rw [lexFrom_piece (.run hc hrun (by simp)), lexFrom, List.append_nil]
      rfl
    rwa [Scanner.finish, flush_lowerEach, ← hlex]
  | @quoted start tokens body _ hbody h =>
    obtain ⟨made, hflush, hmade⟩ := exists_flush_body body (start + (body.length + 1)) start tokens
    have hlex : lexFrom start ('"' :: body ++ []) = [ofRun body start true] := by
      rw [lexFrom_piece (.unclosed hbody), lexFrom, List.append_nil]
      rfl
    rwa [Scanner.finish, hflush, visible_append, hmade, ← hlex, ← visible_append]

theorem Reads.visible_finish (h : Reads all scanner s) :
    visible (s.foldl Scanner.step scanner).finish = all := by
  induction s generalizing scanner with
  | nil => exact h.finish
  | cons d s ih => exact ih h.step

/-- **A whole text.**  The scanner makes the tokens of the text, but for blank ones. -/
theorem visible_finish (s : List Char) :
    visible (s.foldl step initial).finish = visible (lexFrom 0 s) :=
  Reads.visible_finish (.between rfl)

end Scanner

/-- **Splitting in one pass.**  The scanner, which looks at every character once and knows of the
    text no more than its buffer and two flags, reads the command that the lexer reads. -/
theorem Command.scan_eq_ofText (s : String) : Command.scan s = Command.ofText s := by
  rw [Command.scan, Command.ofText, Command.ofTokens, Command.ofTokens]
  exact congrArg (fun tokens => Command.mk _ (Token.sortByPosition tokens))
    (Scanner.visible_finish (Text.trim s.toList))

end RecordFilter
