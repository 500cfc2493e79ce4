import Mathlib.Data.List.Nodup
import RecordFilter.Proofs.Folding
import RecordFilter.Proofs.Splitting
/-!
# Tokens partition their text

Where the number of quotes in front is even, a text is outside quotes.  Whatever shows something
there is in the slice of exactly one unquoted token, and every quote that opens there makes a token
of what stands behind it, unless that is blank (`IsPartition`).  A slice is a parenthesis or a
longest run, so two slices have no character in common (`IsSlice.position_eq`).

Places are counted from the beginning of the text.  The lexer leaves to each piece of a text the
places that it takes up (`Piece.accounts`), and a text is a row of pieces.
-/

namespace RecordFilter

namespace Token

/-- The quotes in front of the place are closed. -/
def IsOutside (s : List Char) (place : Nat) : Prop := QuotesClosed (s.take place)

/-- A quote stands at the place, and the quotes in front of it are closed. -/
def OpensQuote (s : List Char) (place : Nat) : Prop := s[place]? = some '"' ∧ IsOutside s place

/-- What stands behind the quote at a place, up to the next quote or to the end. -/
def quotedBody (s : List Char) (place : Nat) : List Char :=
  (s.drop (place + 1)).takeWhile (· != '"')

/-- All characters of the run are of one kind, and its neighbours in the text are not. -/
structure IsLongestRun (kind : Char → Bool) (s : List Char) (place : Nat) (run : List Char) :
    Prop where
  all : ∀ d ∈ run, kind d = true
  before : ∀ d ∈ (s.take place).getLast?, kind d = false
  behind : ∀ d ∈ (s.drop (place + run.length)).head?, kind d = false

/-- The run stands at the place, outside quotes, and it is a parenthesis, a longest run of operator
    characters, or a longest run of characters that are nothing else. -/
structure IsSlice (s : List Char) (place : Nat) (run : List Char) : Prop where
  stands : run <+: s.drop place
  nonempty : run ≠ []
  outside : ∀ i < run.length, IsOutside s (place + i)
  kind : (run = ['('] ∨ run = [')']) ∨ IsLongestRun isOperatorChar s place run ∨
    IsLongestRun isWordChar s place run

/-- What a token of the text is made of: a slice, or what stands behind a quote that opens.  The
    text of the token is that in lower case, character by character. -/
inductive IsMade (s : List Char) : Token → Prop where
  | unquoted {place : Nat} {run : List Char} (h : IsSlice s place run) :
      IsMade s ⟨String.ofList (Text.lowerEach run), place, false⟩
  | quoted {place : Nat} (h : OpensQuote s place) :
      IsMade s ⟨String.ofList (Text.lowerEach (quotedBody s place)), place, true⟩

/-- The token is unquoted, and its slice reaches over the place. -/
def Covers (s : List Char) (t : Token) (place : Nat) : Prop :=
  ∃ run, IsSlice s t.position run ∧
    t = ⟨String.ofList (Text.lowerEach run), t.position, false⟩ ∧ t.position ≤ place ∧
    place < t.position + run.length

/-- The tokens are those of the text, and they leave nothing out. -/
structure IsPartition (s : List Char) (tokens : List Token) : Prop where
  ascending : tokens.Pairwise fun t u => t.position < u.position
  inside : ∀ t ∈ tokens, t.position < s.length
  made : ∀ t ∈ tokens, IsMade s t
  covered : ∀ place d, s[place]? = some d → IsOutside s place → Text.isBlank d = false → d ≠ '"' →
    ∃! t, t ∈ tokens ∧ Covers s t place
  kept : ∀ place, OpensQuote s place → Text.isAllBlank (quotedBody s place) = false →
    ∃! t, t ∈ tokens ∧ t.quoted = true ∧ t.position = place
  dropped : ∀ place, OpensQuote s place → Text.isAllBlank (quotedBody s place) = true →
    ∀ t ∈ tokens, ¬ (t.quoted = true ∧ t.position = place)

variable {s first piece rest run run' body : List Char} {p q place start middle stop : Nat}

/-! ### Slices have nothing in common -/

theorem isWordChar_of_isOperatorChar {d : Char} (h : isOperatorChar d = true) :
    isWordChar d = false := by
  simp [isWordChar, h]

theorem isRunChar_of_kind {kind : Char → Bool} (hkind : kind = isOperatorChar ∨ kind = isWordChar)
    {d : Char} (h : kind d = true) : isRunChar d = true := by
  rcases hkind with rfl | rfl <;> simp [isRunChar, h]

/-- A character is of one kind only. -/
theorem kind_eq_of_common {kind kind' : Char → Bool}
    (hkind : kind = isOperatorChar ∨ kind = isWordChar)
    (hkind' : kind' = isOperatorChar ∨ kind' = isWordChar) {d : Char} (h : kind d = true)
    (h' : kind' d = true) : kind = kind' := by
  rcases hkind with rfl | rfl
  · rcases hkind' with rfl | rfl
    · rfl
    · rw [isWordChar_of_isOperatorChar h] at h'
      cases h'
  · rcases hkind' with rfl | rfl
    · rw [isWordChar_of_isOperatorChar h'] at h
      cases h
    · rfl

/-- A slice is a parenthesis or a longest run of one of the two kinds. -/
theorem IsSlice.kind_cases (h : IsSlice s p run) :
    (∃ paren, (paren = '(' ∨ paren = ')') ∧ run = [paren]) ∨
      ∃ kind, (kind = isOperatorChar ∨ kind = isWordChar) ∧ IsLongestRun kind s p run := by
  rcases h.kind with (hrun | hrun) | hrun | hrun
  · exact .inl ⟨'(', .inl rfl, hrun⟩
  · exact .inl ⟨')', .inr rfl, hrun⟩
  · exact .inr ⟨_, .inl rfl, hrun⟩
  · exact .inr ⟨_, .inr rfl, hrun⟩

theorem IsSlice.getElem? (h : IsSlice s p run) {i : Nat} (hi : i < run.length) :
    s[p + i]? = some run[i] := by
  obtain ⟨rest, hrest⟩ := h.stands
  rw [← List.getElem?_drop, ← hrest, List.getElem?_append_left hi, List.getElem?_eq_getElem hi]

/-- No slice begins inside another. -/
theorem IsSlice.not_lt (hp : IsSlice s p run) (hq : IsSlice s q run') (hpq : p < q)
    (hin : q < p + run.length) : False := by
  have hhead : 0 < run'.length := List.length_pos_iff.mpr hq.nonempty
  have hsame : run[q - p] = run'[0] := by
    have hleft := hp.getElem? (i := q - p) (by omega)
    have hright := hq.getElem? hhead
    rw [Nat.add_sub_cancel' (Nat.le_of_lt hpq)] at hleft
    exact Option.some.inj (hleft.symm.trans hright)
  -- A parenthesis has no room for a second slice, so the first is a run.
  rcases hp.kind_cases with ⟨paren, -, rfl⟩ | ⟨kind, hkind, hrun⟩
  · simp at hin
    omega
  · have hin' : kind run'[0] = true := by
      rw [← hsame]
      exact hrun.all _ (List.getElem_mem _)
    rcases hq.kind_cases with ⟨paren, hparen, rfl⟩ | ⟨kind', hkind', hrun'⟩
    · have hrunChar : isRunChar paren = true := isRunChar_of_kind hkind hin'
      rw [isRunChar_of_paren hparen] at hrunChar
      cases hrunChar
    · obtain rfl := kind_eq_of_common hkind hkind' hin' (hrun'.all _ (List.getElem_mem _))
      -- The character in front of the second slice is in the first, and of the same kind.
      have hfront : run[q - 1 - p] ∈ (s.take q).getLast? := by
        have hlast := hp.getElem? (i := q - 1 - p) (by omega)
        have hplace : p + (q - 1 - p) = q - 1 := by omega
        have hpos : q ≠ 0 := by omega
        rw [hplace] at hlast
        simp [List.getLast?_take, hlast, hpos]
      have hnot := hrun'.before _ hfront
      rw [hrun.all _ (List.getElem_mem _)] at hnot
      cases hnot

/-- Two slices that share a place begin at the same one. -/
theorem IsSlice.position_eq (hp : IsSlice s p run) (hq : IsSlice s q run')
    (hpp : p ≤ place) (hpr : place < p + run.length) (hqp : q ≤ place)
    (hqr : place < q + run'.length) : p = q := by
  rcases Nat.lt_trichotomy p q with hlt | heq | hgt
  · exact (hp.not_lt hq hlt (by omega)).elim
  · exact heq
  · exact (hq.not_lt hp hgt (by omega)).elim

/-! ### What is blank -/

theorem isBlank_lowerEach (run : List Char) (position : Nat) (quoted : Bool) :
    isBlank ⟨String.ofList (Text.lowerEach run), position, quoted⟩ = Text.isAllBlank run := by
  rw [isBlank, String.toList_ofList, Text.isAllBlank_lowerEach]

theorem IsSlice.not_blank (h : IsSlice s p run) : Text.isAllBlank run = false := by
  obtain ⟨d, rest, rfl⟩ := List.exists_cons_of_ne_nil h.nonempty
  have hd : Text.isBlank d = false := by
    rcases h.kind_cases with ⟨paren, hparen, hrun⟩ | ⟨kind, hkind, hrun⟩
    · obtain ⟨rfl, -⟩ := List.cons.inj hrun
      rcases hparen with rfl | rfl <;> decide
    · have hrunChar := isRunChar_of_kind hkind (hrun.all d (List.mem_cons_self ..))
      exact (isRunChar_iff.mp hrunChar).2.2
  simp [Text.isAllBlank, hd]

/-! ### The places of a piece -/

/-- The tokens are made of the text, and the places from `start` on, before `stop`, are in them. -/
structure Accounts (s : List Char) (start stop : Nat) (tokens : List Token) : Prop where
  made : ∀ t ∈ tokens, IsMade s t
  covered : ∀ place d, start ≤ place → place < stop → s[place]? = some d → IsOutside s place →
    Text.isBlank d = false → d ≠ '"' → ∃ t ∈ tokens, Covers s t place
  opened : ∀ place, start ≤ place → place < stop → OpensQuote s place →
    ∃ t ∈ tokens, t.quoted = true ∧ t.position = place

theorem Accounts.append {tokens tokens' : List Token} (h : Accounts s start middle tokens)
    (h' : Accounts s middle stop tokens') : Accounts s start stop (tokens ++ tokens') where
  made := by
    intro t ht
    rcases List.mem_append.mp ht with ht | ht
    · exact h.made t ht
    · exact h'.made t ht
  covered := by
    intro place d hstart hstop hd houtside hblank hquote
    rcases Nat.lt_or_ge place middle with hlt | hge
    · obtain ⟨t, ht, hcovers⟩ := h.covered place d hstart hlt hd houtside hblank hquote
      exact ⟨t, List.mem_append_left _ ht, hcovers⟩
    · obtain ⟨t, ht, hcovers⟩ := h'.covered place d hge hstop hd houtside hblank hquote
      exact ⟨t, List.mem_append_right _ ht, hcovers⟩
  opened := by
    intro place hstart hstop hopens
    rcases Nat.lt_or_ge place middle with hlt | hge
    · obtain ⟨t, ht, hquoted⟩ := h.opened place hstart hlt hopens
      exact ⟨t, List.mem_append_left _ ht, hquoted⟩
    · obtain ⟨t, ht, hquoted⟩ := h'.opened place hge hstop hopens
      exact ⟨t, List.mem_append_right _ ht, hquoted⟩

/-- A slice accounts for all of its places. -/
theorem IsSlice.accounts (h : IsSlice s p run) (hquote : '"' ∉ run) :
    Accounts s p (p + run.length) [ofRun run p false] where
  made := by
    intro t ht
    obtain rfl := List.mem_singleton.mp ht
    exact .unquoted h
  covered := by
    intro place d hstart hstop _ _ _ _
    exact ⟨_, List.mem_singleton_self _, run, h, rfl, hstart, hstop⟩
  opened := by
    rintro place hstart hstop ⟨hd, -⟩
    have hlt : place - p < run.length := by omega
    have helem := h.getElem? hlt
    rw [Nat.add_sub_cancel' hstart, hd] at helem
    exact absurd (Option.some.inj helem ▸ List.getElem_mem hlt) hquote

theorem isOutside_of_closed (hclosed : QuotesClosed first) (s : List Char) :
    IsOutside (first ++ s) first.length := by
  rw [IsOutside, List.take_left]
  exact hclosed

/-- Behind a quote that opens, up to the next one, nothing is outside quotes. -/
theorem not_isOutside_behind_quote (hclosed : QuotesClosed first) (hbody : '"' ∉ body)
    (rest : List Char) {k : Nat} (hk : k ≤ body.length) :
    ¬ IsOutside (first ++ '"' :: (body ++ rest)) (first.length + (k + 1)) := by
  have hcount : (body.take k).count '"' = 0 :=
    List.count_eq_zero.mpr fun hmem => hbody (List.mem_of_mem_take hmem)
  unfold QuotesClosed at hclosed
  rw [IsOutside, List.take_length_add_append, List.take_succ_cons,
    List.take_append_of_le_length hk, QuotesClosed, List.count_append, List.count_cons_self, hcount]
  omega

/-- The places between two quote marks, or from the last one on, are in one quoted token. -/
theorem accounts_quote (hclosed : QuotesClosed first) (hbody : '"' ∉ body)
    (hrest : ∀ d ∈ rest.head?, d = '"') (hstop : stop ≤ first.length + (body.length + 2)) :
    Accounts (first ++ '"' :: (body ++ rest)) first.length stop [ofRun body first.length true] := by
  have hopens : OpensQuote (first ++ '"' :: (body ++ rest)) first.length :=
    ⟨by simp, isOutside_of_closed hclosed _⟩
  have hquoted : quotedBody (first ++ '"' :: (body ++ rest)) first.length = body := by
    rw [quotedBody, List.drop_length_add_append, List.drop_succ_cons, List.drop_zero]
    exact (takeWhile_append_of_head (bne_of_not_mem hbody) rest
      fun d hd => by simp [hrest d hd]).1
  -- Behind its opening mark the piece is quoted, so only the mark itself is outside.
  have hplace : ∀ place, first.length ≤ place → place < stop →
      IsOutside (first ++ '"' :: (body ++ rest)) place → place = first.length := by
    intro place hstart hlt houtside
    obtain ⟨k, rfl⟩ := Nat.exists_eq_add_of_le hstart
    cases k with
    | zero => rfl
    | succ k => exact absurd houtside (not_isOutside_behind_quote hclosed hbody rest (by omega))
  refine ⟨?_, ?_, ?_⟩
  · intro t ht
    have hmade := IsMade.quoted hopens
    rw [hquoted] at hmade
    rwa [List.mem_singleton.mp ht]
  · intro place d hstart hlt hd houtside _ hne
    obtain rfl := hplace place hstart hlt houtside
    rw [hopens.1] at hd
    exact absurd (Option.some.inj hd).symm hne
  · intro place hstart hlt hopens'
    obtain rfl := hplace place hstart hlt hopens'.2
    exact ⟨_, List.mem_singleton_self _, rfl, rfl⟩

theorem isSlice_of_append (hclosed : QuotesClosed first) (hnonempty : run ≠ []) (hquote : '"' ∉ run)
    (hkind : (run = ['('] ∨ run = [')']) ∨
      IsLongestRun isOperatorChar (first ++ (run ++ rest)) first.length run ∨
      IsLongestRun isWordChar (first ++ (run ++ rest)) first.length run) :
    IsSlice (first ++ (run ++ rest)) first.length run := by
  refine ⟨?_, hnonempty, ?_, hkind⟩
  · rw [List.drop_left]
    exact List.prefix_append run rest
  · intro i hi
    rw [IsOutside, List.take_length_add_append, List.take_append_of_le_length (Nat.le_of_lt hi)]
    exact hclosed.append (.of_count fun hmem => hquote (List.mem_of_mem_take hmem))

/-- A character that goes on a run could as well stand in front of it. -/
theorem continuesRun_comm {d e : Char} (hd : isRunChar d = true) (h : continuesRun d e = true) :
    continuesRun e d = true :=
  continuesRun_iff.mpr ⟨hd, (continuesRun_iff.mp h).2.symm⟩

/-- A run that goes on neither to the left nor to the right is a longest one. -/
theorem isSlice_of_run {d : Char} (hclosed : QuotesClosed first)
    (hseam : Seam first (d :: run ++ rest)) (hd : isRunChar d = true)
    (hrun : ∀ e ∈ run, continuesRun d e = true) (hend : ∀ e ∈ rest.head?, continuesRun d e = false) :
    IsSlice (first ++ (d :: run ++ rest)) first.length (d :: run) := by
  have hself : continuesRun d d = true := continuesRun_iff.mpr ⟨hd, rfl⟩
  have hlongest :
      IsLongestRun (continuesRun d) (first ++ (d :: run ++ rest)) first.length (d :: run) := by
    refine ⟨?_, ?_, ?_⟩
    · intro e he
      rcases List.mem_cons.mp he with rfl | he
      · exact hself
      · exact hrun e he
    · intro e he
      rw [List.take_left] at he
      cases hcontinues : continuesRun d e with
      | false => rfl
      | true =>
        have hnot := hseam e he d (by simp) (continuesRun_of_continuesRun hcontinues).1
        rw [continuesRun_comm hd hcontinues] at hnot
        cases hnot
    · rwa [List.drop_length_add_append, List.drop_left]
  apply isSlice_of_append hclosed (List.cons_ne_nil d run) (quote_not_mem_run hd hrun)
  apply Or.inr
  unfold continuesRun at hlongest
  by_cases hop : isOperatorChar d = true
  · rw [if_pos hop] at hlongest
    exact .inl hlongest
  · rw [if_neg hop] at hlongest
    exact .inr hlongest

/-- The token of a piece accounts for the places of the piece. -/
theorem Piece.accounts {run : Option (List Char × Bool)} (h : Piece piece rest run)
    (hclosed : QuotesClosed first) (hseam : Seam first (piece ++ rest)) :
    Accounts (first ++ (piece ++ rest)) first.length (first.length + piece.length)
      (made first.length run) := by
  -- A blank makes no token; every other piece makes one that starts where it does.
  cases h with
  | @quoted body rest hbody =>
    have htext : ('"' :: (body ++ ['"'])) ++ rest = '"' :: (body ++ '"' :: rest) := by simp
    rw [htext]
    exact accounts_quote hclosed hbody (by simp) (by simp)
  | @unclosed body hbody =>
    have htext : ('"' :: body) ++ [] = '"' :: (body ++ []) := rfl
    rw [htext]
    exact accounts_quote hclosed hbody (by simp) (by simp)
  | @paren d rest hd =>
    have hquote : '"' ∉ [d] := by
      rcases hd with rfl | rfl <;> decide
    have hslice : IsSlice (first ++ ([d] ++ rest)) first.length [d] := by
      apply isSlice_of_append hclosed (List.cons_ne_nil d []) hquote
      rcases hd with rfl | rfl
      · exact .inl (.inl rfl)
      · exact .inl (.inr rfl)
    exact hslice.accounts hquote
  | @blank d rest hd =>
    -- A blank is in no token, and none is asked for.
    have hplace : ∀ place, first.length ≤ place → place < first.length + [d].length →
        (first ++ ([d] ++ rest))[place]? = some d := by
      intro place hstart hstop
      obtain rfl : place = first.length := by simp at hstop; omega
      simp
    refine ⟨nofun, ?_, ?_⟩
    · intro place e hstart hstop he _ hblank _
      rw [hplace place hstart hstop] at he
      rw [← Option.some.inj he, hd] at hblank
      cases hblank
    · rintro place hstart hstop ⟨hquote, -⟩
      rw [hplace place hstart hstop] at hquote
      exact absurd (Option.some.inj hquote) (not_special_of_blank hd).1
  | @run d run rest hd hrun hend =>
    exact (isSlice_of_run hclosed hseam hd hrun hend).accounts (quote_not_mem_run hd hrun)

/-- Behind a piece no run goes on. -/
theorem Piece.seam {run : Option (List Char × Bool)} (h : Piece piece rest run)
    (first : List Char) : Seam (first ++ piece) rest := by
  have hquote : isRunChar '"' = false := by decide
  cases h with
  | @quoted body rest hbody =>
    apply Seam.of_last
    rw [← List.cons_append, ← List.append_assoc, List.getLast?_concat]
    simpa using hquote
  | unclosed => exact .of_head (by simp)
  | paren hd =>
    apply Seam.of_last
    rw [List.getLast?_concat]
    simpa using isRunChar_of_paren hd
  | blank hd =>
    apply Seam.of_last
    rw [List.getLast?_concat]
    simpa using isRunChar_of_blank hd
  | @run d run rest hd hrun hend =>
    intro e he e' he' _
    have hmem : e ∈ d :: run := by
      rw [List.getLast?_append, Option.or_of_isSome (by simp)] at he
      exact List.mem_of_getLast? he
    rcases List.mem_cons.mp hmem with rfl | hmem
    · exact hend e' he'
    · rw [(continuesRun_of_continuesRun (hrun e hmem)).2]
      exact hend e' he'

/-! ### The places of a text -/

/-- The induction is on the rest of the text.  Whatever is in front of it leaves no quote open, or
    there is no rest. -/
theorem accounts_lexFrom (first : List Char) {s : List Char}
    (hclosed : QuotesClosed first ∨ s = []) (hseam : Seam first s) :
    Accounts (first ++ s) first.length (first.length + s.length) (lexFrom first.length s) := by
  have hsplits := splits s
  -- The text in front is carried along, since a slice may not go on to the left.
  induction hsplits generalizing first with
  | nil =>
    rw [lexFrom]
    refine ⟨by simp, ?_, ?_⟩
    · intro place d hstart hstop
      simp at hstop
      omega
    · intro place hstart hstop
      simp at hstop
      omega
  | @cons piece rest run hpiece hrest ih =>
    have hne : piece ≠ [] := by
      cases hpiece <;> simp
    have hfirst : QuotesClosed first := hclosed.resolve_right (by simp [hne])
    have hnext : QuotesClosed (first ++ piece) ∨ rest = [] :=
      hpiece.closed.imp_left hfirst.append
    have hrestAccounts := ih (first ++ piece) hnext (hpiece.seam first)
    rw [List.append_assoc, List.length_append] at hrestAccounts
    rw [lexFrom_piece hpiece, List.length_append, ← Nat.add_assoc]
    exact (hpiece.accounts hfirst hseam).append hrestAccounts

theorem eq_of_position_eq {tokens : List Token}
    (h : tokens.Pairwise fun t u => t.position < u.position) {t u : Token} (ht : t ∈ tokens)
    (hu : u ∈ tokens) (heq : t.position = u.position) : t = u := by
  have hnodup : (tokens.map position).Nodup := List.pairwise_map.mpr (h.imp Nat.ne_of_lt)
  exact List.inj_on_of_nodup_map hnodup ht hu heq

/-- Dropping the blank tokens drops no slice. -/
theorem isPartition_lexFrom (s : List Char) :
    IsPartition s ((lexFrom 0 s).filter fun t => !t.isBlank) := by
  have haccounts : Accounts s 0 s.length (lexFrom 0 s) := by
    simpa using accounts_lexFrom [] (s := s) (.inl rfl) (.of_last (by simp))
  obtain ⟨hbounds, hascending⟩ := lexFrom_positions 0 s
  have hmem : ∀ t, t ∈ (lexFrom 0 s).filter (fun t => !t.isBlank) ↔
      t ∈ lexFrom 0 s ∧ t.isBlank = false := by
    intro t
    simp
  refine ⟨hascending.filter _, ?_, ?_, ?_, ?_, ?_⟩
  · intro t ht
    have hbound := hbounds t ((hmem t).mp ht).1
    omega
  · intro t ht
    exact haccounts.made t ((hmem t).mp ht).1
  · -- Every visible place outside the quotes is in one token.
    intro place d hd houtside hblank hquote
    obtain ⟨hlt, -⟩ := List.getElem?_eq_some_iff.mp hd
    obtain ⟨t, ht, hcovers⟩ :=
      haccounts.covered place d (Nat.zero_le _) hlt hd houtside hblank hquote
    obtain ⟨run, hslice, hrun, hstart, hstop⟩ := hcovers
    have hvisible : t.isBlank = false := by
      rw [hrun, isBlank_lowerEach]
      exact hslice.not_blank
    refine ⟨t, ⟨(hmem t).mpr ⟨ht, hvisible⟩, run, hslice, hrun, hstart, hstop⟩, ?_⟩
    -- Slices that share a place begin at the same one, and no two tokens do.
    rintro u ⟨hu, run', hslice', -, hstart', hstop'⟩
    apply eq_of_position_eq hascending ((hmem u).mp hu).1 ht
    exact hslice'.position_eq hslice hstart' hstop' hstart hstop
  · -- Every quote with something to show has one token.
    intro place hopens hblank
    obtain ⟨hlt, -⟩ := List.getElem?_eq_some_iff.mp hopens.1
    obtain ⟨t, ht, hquoted, rfl⟩ := haccounts.opened place (Nat.zero_le _) hlt hopens
    have hvisible : t.isBlank = false := by
      cases haccounts.made t ht with
      | unquoted => cases hquoted
      | quoted => rwa [isBlank_lowerEach]
    refine ⟨t, ⟨(hmem t).mpr ⟨ht, hvisible⟩, hquoted, rfl⟩, ?_⟩
    rintro u ⟨hu, -, hposition⟩
    exact eq_of_position_eq hascending ((hmem u).mp hu).1 ht hposition
  · -- A quote around nothing but blanks has none.
    rintro place _ hblank t ht ⟨hquoted, rfl⟩
    obtain ⟨ht, hvisible⟩ := (hmem t).mp ht
    cases haccounts.made t ht with
    | unquoted => cases hquoted
    | quoted =>
      rw [isBlank_lowerEach] at hvisible
      exact absurd (hvisible.symm.trans hblank) (by decide)

end Token

/-- **Tokens partition their text.**  A command keeps its text without the white space at the ends,
    and its tokens are those of the lexer but for the blank ones, in the same order.

    Their positions ascend and lie in the text; each is made of a parenthesis or a longest run
    outside quotes, or of what stands behind a quote that opens, character by character in lower
    case.  Every character outside quotes that is neither white space nor a quote is in the slice of
    exactly one of them.  Behind every quote that opens there is exactly one of them, and none if
    there is nothing but white space, whether or not another quote follows. -/
theorem Command.ofText_isPartition (s : String) :
    (Command.ofText s).text = Text.trimmed s ∧
      (Command.ofText s).tokens =
        (Token.lexFrom 0 (Text.trimmed s).toList).filter (fun t => !t.isBlank) ∧
      Token.IsPartition (Text.trimmed s).toList (Command.ofText s).tokens := by
  have htokens := Command.tokens_ofText s
  have htrimmed : (Text.trimmed s).toList = Text.trim s.toList := String.toList_ofList ..
  rw [htrimmed, htokens]
  exact ⟨rfl, rfl, Token.isPartition_lexFrom _⟩

end RecordFilter
