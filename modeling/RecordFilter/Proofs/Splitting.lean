import RecordFilter.Command.Lexer
import RecordFilter.Proofs.Grammar
import RecordFilter.Proofs.Runs
/-!
# How a text splits

A text falls into pieces from the left: quotes with what is between them, parentheses, white space
and longest runs.  `Piece` says which pieces there are, and what the lexer does with one is a single
equation, `lexFrom_piece`.  Every text splits into pieces (`splits`), so a property of tokens is
shown piece by piece, by induction on `Splits`.

What the tokens of a text are, apart from their positions, is `writtenTokens`.  Two texts that are
put together have the tokens of the one and then those of the other (`writtenTokens_append`), if
every quote of the first is closed and no run goes on over the seam.
-/

namespace RecordFilter

namespace Token

def isRunChar (c : Char) : Bool := isOperatorChar c || isWordChar c

/-- What can stand in front of the rest of a text, and the run and the quotes of the token that it
    makes, if it makes one. -/
inductive Piece : List Char → List Char → Option (List Char × Bool) → Prop where
  | quoted {body rest : List Char} (hbody : '"' ∉ body) :
      Piece ('"' :: (body ++ ['"'])) rest (some (body, true))
  /-- A quote that is not closed runs to the end. -/
  | unclosed {body : List Char} (hbody : '"' ∉ body) : Piece ('"' :: body) [] (some (body, true))
  | paren {c : Char} {rest : List Char} (hc : c = '(' ∨ c = ')') :
      Piece [c] rest (some ([c], false))
  | blank {c : Char} {rest : List Char} (hc : Text.isBlank c = true) : Piece [c] rest none
  | run {c : Char} {run rest : List Char} (hc : isRunChar c = true)
      (hrun : ∀ d ∈ run, continuesRun c d = true)
      (hend : ∀ d ∈ rest.head?, continuesRun c d = false) :
      Piece (c :: run) rest (some (c :: run, false))

/-- The text is a row of pieces. -/
inductive Splits : List Char → Prop where
  | nil : Splits []
  | cons {piece rest : List Char} {run : Option (List Char × Bool)}
      (hpiece : Piece piece rest run) (hrest : Splits rest) : Splits (piece ++ rest)

/-! ### Characters -/

theorem isRunChar_iff {c : Char} :
    isRunChar c = true ↔ c ≠ '"' ∧ ¬ (c = '(' ∨ c = ')') ∧ Text.isBlank c = false := by
  by_cases hop : isOperatorChar c = true
  · have hchars : ((((c = '<' ∨ c = '>') ∨ c = '=') ∨ c = '&') ∨ c = '|') ∨ c = '!' := by
      simpa [isOperatorChar] using hop
    rcases hchars with ((((rfl | rfl) | rfl) | rfl) | rfl) | rfl <;> decide
  · simp only [isRunChar, isWordChar, hop]
    grind

theorem not_special_of_blank {c : Char} (h : Text.isBlank c = true) :
    c ≠ '"' ∧ ¬ (c = '(' ∨ c = ')') := by
  refine ⟨?_, ?_⟩
  · rintro rfl
    exact absurd h (by decide)
  · rintro (rfl | rfl) <;> exact absurd h (by decide)

/-- A run goes on with the characters of its own kind. -/
theorem continuesRun_iff {c d : Char} :
    continuesRun c d = true ↔ isRunChar d = true ∧ isOperatorChar d = isOperatorChar c := by
  unfold continuesRun isRunChar
  cases hc : isOperatorChar c <;> cases hd : isOperatorChar d <;> simp [isWordChar, hd]

/-- What goes on a run could as well begin it. -/
theorem continuesRun_of_continuesRun {c d : Char} (hd : continuesRun c d = true) :
    isRunChar d = true ∧ continuesRun d = continuesRun c := by
  obtain ⟨hrun, hkind⟩ := continuesRun_iff.mp hd
  refine ⟨hrun, ?_⟩
  unfold continuesRun
  rw [hkind]

theorem isRunChar_of_blank {c : Char} (h : Text.isBlank c = true) : isRunChar c = false := by
  cases hrun : isRunChar c with
  | false => rfl
  | true =>
    rw [(isRunChar_iff.mp hrun).2.2] at h
    cases h

theorem isRunChar_of_paren {paren : Char} (h : paren = '(' ∨ paren = ')') :
    isRunChar paren = false := by
  rcases h with rfl | rfl <;> decide

theorem quote_not_mem_run {c : Char} {run : List Char} (hc : isRunChar c = true)
    (hrun : ∀ d ∈ run, continuesRun c d = true) : '"' ∉ c :: run := by
  intro hmem
  have hquote : isRunChar '"' = true := by
    rcases List.mem_cons.mp hmem with rfl | hmem
    · exact hc
    · exact (continuesRun_of_continuesRun (hrun _ hmem)).1
  exact absurd hquote (by decide)

/-- There is no quote in what a piece makes a token of. -/
theorem Piece.quote_not_mem {piece rest : List Char} {made : Option (List Char × Bool)}
    (h : Piece piece rest made) : ∀ run ∈ made, '"' ∉ run.1 := by
  cases h with
  | quoted hbody => simpa using hbody
  | unclosed hbody => simpa using hbody
  | paren hc => rcases hc with rfl | rfl <;> simp
  | blank => simp
  | run hc hrun => simpa using quote_not_mem_run hc hrun

/-! ### What the lexer does with a piece -/

def made (position : Nat) (run : Option (List Char × Bool)) : List Token :=
  run.toList.map fun run => ofRun run.1 position run.2

/-- The lexer takes one piece of the text at a time. -/
theorem lexFrom_piece {piece rest : List Char} {run : Option (List Char × Bool)}
    (h : Piece piece rest run) (position : Nat) :
    lexFrom position (piece ++ rest) =
      made position run ++ lexFrom (position + piece.length) rest := by
  cases h with
  | @quoted body rest hbody =>
    obtain ⟨htake, hdrop⟩ :=
      takeWhile_append_of_head (bne_of_not_mem hbody) ('"' :: rest) (by simp)
    have htext : ('"' :: (body ++ ['"'])) ++ rest = '"' :: (body ++ '"' :: rest) := by simp
    rw [htext, lexFrom, if_pos rfl, htake, hdrop]
    simp [made, Nat.add_assoc]
  | @unclosed body hbody =>
    obtain ⟨htake, hdrop⟩ :=
      takeWhile_append_of_head (bne_of_not_mem hbody) [] (by simp)
    rw [List.append_nil] at htake hdrop
    rw [List.append_nil, lexFrom, lexFrom, if_pos rfl, htake, hdrop]
    simp [made, lexFrom]
  | @paren c rest hc =>
    have hquote : c ≠ '"' := by
      rcases hc with rfl | rfl <;> decide
    rw [List.singleton_append, lexFrom, if_neg hquote, if_pos hc]
    rfl
  | @blank c rest hc =>
    obtain ⟨hquote, hparen⟩ := not_special_of_blank hc
    rw [List.singleton_append, lexFrom, if_neg hquote, if_neg hparen, if_pos hc]
    rfl
  | @run c run rest hc hrun hend =>
    obtain ⟨hquote, hparen, hblank⟩ := isRunChar_iff.mp hc
    obtain ⟨htake, hdrop⟩ := takeWhile_append_of_head hrun rest hend
    rw [List.cons_append, lexFrom, if_neg hquote, if_neg hparen, if_neg (by simp [hblank]), htake,
      hdrop]
    rfl

/-! ### Every text splits -/

/-- Every text consists of pieces. -/
theorem splits (s : List Char) : Splits s := by
  -- The lexer cuts the text up, so the cases are its own.
  fun_induction lexFrom 0 s with
  | case1 => exact .nil
  | case2 position rest body ih =>
    have hbody : '"' ∉ body := fun hmem => by simpa using List.mem_takeWhile_imp hmem
    have hrest : rest = body ++ rest.dropWhile (· != '"') := List.takeWhile_append_dropWhile.symm
    cases hdrop : rest.dropWhile (· != '"') with
    | nil =>
      rw [hdrop, List.append_nil] at hrest
      rw [hrest]
      simpa using Splits.cons (.unclosed hbody) .nil
    | cons c rest' =>
      have hhead : c ∈ (rest.dropWhile (· != '"')).head? := by rw [hdrop]; rfl
      obtain rfl : c = '"' := by simpa using of_mem_head?_dropWhile hhead
      rw [hdrop] at ih
      rw [hrest, hdrop]
      simpa using Splits.cons (.quoted hbody) ih
  | case3 position c rest hquote hparen ih => exact .cons (.paren hparen) ih
  | case4 position c rest hquote hparen hblank ih => exact .cons (.blank hblank) ih
  | case5 position c rest hquote hparen hblank run ih =>
    have hc : isRunChar c = true := isRunChar_iff.mpr ⟨hquote, hparen, by simpa using hblank⟩
    have hrun : ∀ d ∈ rest.takeWhile (continuesRun c), continuesRun c d = true :=
      fun d => List.mem_takeWhile_imp
    have hsplits := Splits.cons (.run hc hrun fun d => of_mem_head?_dropWhile) ih
    rwa [List.cons_append, List.takeWhile_append_dropWhile] at hsplits

/-! ### Two texts put together -/

/-- The quotes of a text come in pairs. -/
def QuotesClosed (s : List Char) : Prop := s.count '"' % 2 = 0

instance (s : List Char) : Decidable (QuotesClosed s) := inferInstanceAs (Decidable (_ = _))

/-- No run of the first text goes on in the second. -/
def Seam (s t : List Char) : Prop :=
  ∀ c ∈ s.getLast?, ∀ d ∈ t.head?, isRunChar c = true → continuesRun c d = false

theorem seam_iff {s t : List Char} :
    (s.getLast?.all fun c => t.head?.all fun d => !isRunChar c || !continuesRun c d) = true ↔
      Seam s t := by
  simp [Seam, Option.all_eq_true, Decidable.or_iff_not_imp_left]

instance (s t : List Char) : Decidable (Seam s t) := decidable_of_iff _ seam_iff

/-- A piece closes its quotes, if anything follows it. -/
theorem Piece.closed {piece rest : List Char} {run : Option (List Char × Bool)}
    (h : Piece piece rest run) : QuotesClosed piece ∨ rest = [] := by
  unfold QuotesClosed
  cases h with
  | quoted hbody => simp [List.count_eq_zero.mpr hbody]
  | unclosed => exact .inr rfl
  | paren hc => rcases hc with rfl | rfl <;> exact .inl rfl
  | blank hc => simp [(not_special_of_blank hc).1]
  | run hc hrun => simp [List.count_eq_zero.mpr (quote_not_mem_run hc hrun)]

theorem QuotesClosed.append {s t : List Char} (hs : QuotesClosed s) (ht : QuotesClosed t) :
    QuotesClosed (s ++ t) := by
  unfold QuotesClosed at hs ht ⊢
  rw [List.count_append]
  omega

theorem QuotesClosed.of_piece {piece rest : List Char} {run : Option (List Char × Bool)}
    (h : QuotesClosed (piece ++ rest)) (hpiece : Piece piece rest run) : QuotesClosed rest := by
  rcases hpiece.closed with hclosed | rfl
  · unfold QuotesClosed at h hclosed ⊢
    rw [List.count_append] at h
    omega
  · rfl

theorem Seam.of_append {first s t : List Char} (h : Seam (first ++ s) t) : Seam s t := by
  intro c hc
  exact h c (by simp [List.getLast?_append, Option.mem_def.mp hc])

theorem Seam.of_run {c : Char} {run t : List Char} (h : Seam (c :: run) t)
    (hc : isRunChar c = true) (hrun : ∀ d ∈ run, continuesRun c d = true) :
    ∀ d ∈ t.head?, continuesRun c d = false := by
  intro d hd
  cases hlast : run.getLast? with
  | none =>
    obtain rfl : run = [] := List.getLast?_eq_none_iff.mp hlast
    exact h c rfl d hd hc
  | some last =>
    obtain ⟨hrunChar, hsame⟩ :=
      continuesRun_of_continuesRun (hrun last (List.mem_of_getLast? hlast))
    have hnot := h last (by simp [List.getLast?_cons, hlast]) d hd hrunChar
    rwa [hsame] at hnot

theorem Seam.of_last {s t : List Char} (h : ∀ c ∈ s.getLast?, isRunChar c = false) : Seam s t := by
  intro c hc d _ hrun
  rw [h c hc] at hrun
  cases hrun

theorem Seam.of_head {s t : List Char} (h : ∀ d ∈ t.head?, isRunChar d = false) : Seam s t := by
  intro c _ d hd _
  cases hcontinues : continuesRun c d with
  | false => rfl
  | true =>
    have hrun := (continuesRun_of_continuesRun hcontinues).1
    rw [h d hd] at hrun
    cases hrun

/-- What follows a text does not change its pieces. -/
theorem Piece.extend {piece rest t : List Char} {run : Option (List Char × Bool)}
    (h : Piece piece rest run) (hclosed : QuotesClosed (piece ++ rest))
    (hseam : Seam (piece ++ rest) t) : Piece piece (rest ++ t) run := by
  cases h with
  | quoted hbody => exact .quoted hbody
  | unclosed hbody => simp [QuotesClosed, List.count_eq_zero.mpr hbody] at hclosed
  | paren hc => exact .paren hc
  | blank hc => exact .blank hc
  | run hc hrun hend =>
    refine .run hc hrun ?_
    cases rest with
    | nil =>
      rw [List.append_nil] at hseam
      exact hseam.of_run hc hrun
    | cons d rest => exact hend

/-- Two texts side by side are lexed one by one, if no quote is open between them and no run
goes on across the seam. -/
theorem lexFrom_append {s t : List Char} (hclosed : QuotesClosed s) (hseam : Seam s t)
    (position : Nat) :
    lexFrom position (s ++ t) = lexFrom position s ++ lexFrom (position + s.length) t := by
  have hsplits := splits s
  induction hsplits generalizing position with
  | nil => simp [lexFrom]
  | @cons piece rest run hpiece hrest ih =>
    have hpiece' : Piece piece (rest ++ t) run := hpiece.extend hclosed hseam
    rw [List.append_assoc, lexFrom_piece hpiece', lexFrom_piece hpiece,
      ih (hclosed.of_piece hpiece) hseam.of_append, List.length_append, List.append_assoc,
      Nat.add_assoc]

/-! ### Positions -/

/-- The tokens of a text stand in it, one behind the other. -/
theorem lexFrom_positions (position : Nat) (s : List Char) :
    (∀ t ∈ lexFrom position s, position ≤ t.position ∧ t.position < position + s.length) ∧
      (lexFrom position s).Pairwise (fun t u => t.position < u.position) := by
  have hsplits := splits s
  induction hsplits generalizing position with
  | nil => simp [lexFrom]
  | @cons piece rest run hpiece hrest ih =>
    obtain ⟨hbounds, hascending⟩ := ih (position + piece.length)
    -- No piece is empty, so the positions of the tokens grow.
    have hlength : 0 < piece.length := by cases hpiece <;> simp
    have hmade : ∀ t ∈ made position run, t.position = position := by
      intro t ht
      obtain ⟨r, -, rfl⟩ := List.mem_map.mp ht
      rfl
    have hpair : (made position run).Pairwise (fun t u => t.position < u.position) := by
      cases run <;> simp [made]
    rw [lexFrom_piece hpiece, List.length_append]
    refine ⟨fun t ht => ?_, List.pairwise_append.mpr ⟨hpair, hascending, fun t ht u hu => ?_⟩⟩
    · rcases List.mem_append.mp ht with ht | ht
      · have hposition := hmade t ht
        omega
      · have hbound := hbounds t ht
        omega
    · have hposition := hmade t ht
      have hbound := hbounds u hu
      omega

/-- Tokens that are in order stay as they are. -/
theorem sortByPosition_eq_self {tokens : List Token}
    (h : tokens.Pairwise (fun t u => t.position < u.position)) :
    sortByPosition tokens = tokens := by
  induction h with
  | nil => rfl
  | @cons t rest hfirst _ ih =>
    show insertByPosition t (sortByPosition rest) = t :: rest
    rw [ih]
    cases rest with
    | nil => rfl
    | cons u rest =>
      have hle : t.position ≤ u.position := Nat.le_of_lt (hfirst u (List.mem_cons_self ..))
      rw [insertByPosition, if_pos hle]

/-! ### What is written in a text -/

/-- What is written for the tokens that are not blank. -/
def kept (tokens : List Token) : List (String × Bool) :=
  (tokens.filter fun t => !t.isBlank).map written

/-- The tokens of a text without their positions. -/
def writtenTokens (s : List Char) : List (String × Bool) := kept (lexFrom 0 s)

@[simp] theorem kept_append (first second : List Token) :
    kept (first ++ second) = kept first ++ kept second := by
  simp [kept]

@[simp] theorem kept_lexFrom (position : Nat) (s : List Char) :
    kept (lexFrom position s) = writtenTokens s := by
  have hany : ∀ p q : Nat, kept (lexFrom p s) = kept (lexFrom q s) := by
    have hsplits := splits s
    induction hsplits with
    | nil => simp [lexFrom]
    | @cons piece rest run hpiece hrest ih =>
      intro p q
      have hmade : kept (made p run) = kept (made q run) := by
        cases run with
        | none => rfl
        | some run => simp [kept, made, ofRun, written, isBlank, List.filter_cons, apply_ite]
      rw [lexFrom_piece hpiece, lexFrom_piece hpiece, kept_append, kept_append, hmade,
        ih (p + piece.length) (q + piece.length)]
  exact hany position 0

theorem writtenTokens_append {s t : List Char} (hclosed : QuotesClosed s) (hseam : Seam s t) :
    writtenTokens (s ++ t) = writtenTokens s ++ writtenTokens t := by
  rw [writtenTokens, lexFrom_append hclosed hseam, kept_append, kept_lexFrom, kept_lexFrom]

theorem writtenTokens_blank {s : List Char} (h : ∀ c ∈ s, Text.isBlank c = true) :
    writtenTokens s = [] := by
  induction s with
  | nil => simp [writtenTokens, lexFrom, kept]
  | cons c rest ih =>
    have hpiece : Piece [c] rest none := .blank (h c (List.mem_cons_self ..))
    have hlex : lexFrom 0 (c :: rest) = lexFrom 1 rest := lexFrom_piece hpiece 0
    rw [writtenTokens, hlex, kept_lexFrom]
    exact ih fun d hd => h d (List.mem_cons_of_mem c hd)

/-! ### White space at the ends -/

theorem trim_eq (s : List Char) : ∃ left right, s = left ++ (Text.trim s ++ right) ∧
    (∀ c ∈ left, Text.isBlank c = true) ∧ ∀ c ∈ right, Text.isBlank c = true := by
  refine ⟨s.takeWhile Text.isBlank,
    ((Text.trimLeft s).reverse.takeWhile Text.isBlank).reverse, ?_,
    fun c => List.mem_takeWhile_imp, ?_⟩
  · have hright : Text.trim s ++ ((Text.trimLeft s).reverse.takeWhile Text.isBlank).reverse =
        Text.trimLeft s := by
      rw [Text.trim, Text.trimRight, ← List.reverse_append, List.takeWhile_append_dropWhile,
        List.reverse_reverse]
    rw [hright, Text.trimLeft, List.takeWhile_append_dropWhile]
  · intro c hc
    exact List.mem_takeWhile_imp (List.mem_reverse.mp hc)

theorem quote_not_mem_blank {s : List Char} (h : ∀ c ∈ s, Text.isBlank c = true) : '"' ∉ s :=
  fun hmem => (not_special_of_blank (h _ hmem)).1 rfl

theorem QuotesClosed.of_count {s : List Char} (h : '"' ∉ s) : QuotesClosed s := by
  rw [QuotesClosed, List.count_eq_zero.mpr h]

/-- The blanks around a text do not change its tokens. -/
theorem writtenTokens_trim {s : List Char} (hclosed : QuotesClosed s) :
    writtenTokens (Text.trim s) = writtenTokens s := by
  obtain ⟨left, right, hs, hleft, hright⟩ := trim_eq s
  have hleftQuotes := quote_not_mem_blank hleft
  have hclosed' : QuotesClosed (Text.trim s) := by
    unfold QuotesClosed at hclosed ⊢
    rw [hs] at hclosed
    simpa [List.count_eq_zero.mpr hleftQuotes,
      List.count_eq_zero.mpr (quote_not_mem_blank hright)] using hclosed
  -- No run goes on across a blank, so those around the text can be cut off.
  have hleftSeam : Seam left (Text.trim s ++ right) :=
    .of_last fun c hc => isRunChar_of_blank (hleft c (List.mem_of_getLast? hc))
  have hrightSeam : Seam (Text.trim s) right :=
    .of_head fun d hd => isRunChar_of_blank (hright d (List.mem_of_mem_head? hd))
  calc writtenTokens (Text.trim s)
      = writtenTokens (Text.trim s ++ right) := by
        rw [writtenTokens_append hclosed' hrightSeam, writtenTokens_blank hright, List.append_nil]
    _ = writtenTokens (left ++ (Text.trim s ++ right)) := by
        rw [writtenTokens_append (.of_count hleftQuotes) hleftSeam, writtenTokens_blank hleft,
          List.nil_append]
    _ = writtenTokens s := by rw [← hs]

/-! ### Groups in a text -/

theorem writtenTokens_paren {paren : Char} (h : paren = '(' ∨ paren = ')')
    (rest : List Char) :
    writtenTokens (paren :: rest) = (String.singleton paren, false) :: writtenTokens rest := by
  have hpiece : Piece [paren] rest (some ([paren], false)) := .paren h
  have hlex : lexFrom 0 (paren :: rest) = ofRun [paren] 0 false :: lexFrom 1 rest :=
    lexFrom_piece hpiece 0
  have hkept : kept [ofRun [paren] 0 false] = [(String.singleton paren, false)] := by
    rcases h with rfl | rfl <;> decide +kernel
  rw [writtenTokens, hlex, ← List.singleton_append, kept_append, kept_lexFrom, hkept,
    List.singleton_append]

theorem writtenTokens_group {s : List Char} (hclosed : QuotesClosed s) (rest : List Char) :
    writtenTokens ('(' :: (s ++ ')' :: rest)) =
      ("(", false) :: (writtenTokens s ++ (")", false) :: writtenTokens rest) := by
  have hseam : Seam s (')' :: rest) := .of_head (by simpa using isRunChar_of_paren (.inr rfl))
  rw [writtenTokens_paren (.inl rfl), writtenTokens_append hclosed hseam,
    writtenTokens_paren (.inr rfl)]
  rfl

end Token

open Token

theorem Command.tokens_ofText (s : String) :
    (Command.ofText s).tokens = (lexFrom 0 (Text.trim s.toList)).filter fun t => !t.isBlank := by
  have hsorted := ((lexFrom_positions 0 (Text.trim s.toList)).2).filter (fun t => !t.isBlank)
  rw [Command.ofText, Command.ofTokens, sortByPosition_eq_self hsorted]

theorem Command.written_ofText (s : String) :
    (Command.ofText s).tokens.map written = writtenTokens (Text.trim s.toList) := by
  rw [Command.tokens_ofText]
  rfl

theorem written_ofText_of_closed {s : String} (h : QuotesClosed s.toList) :
    (Command.ofText s).tokens.map written = writtenTokens s.toList := by
  rw [Command.written_ofText, writtenTokens_trim h]

end RecordFilter
