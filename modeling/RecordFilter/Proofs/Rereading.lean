import RecordFilter.Proofs.Spelling
/-!
# Which texts are read back

The text of a printable expression shows no other expression (`eq_of_shown_eq`): names stand between
quotes, and from one quote to the next there is at most one constant, with the parentheses that
close behind it, an operator and the parentheses that open.  So a filter whose text is read as a
filter with the same text, whichever it is, is read back (`Filter.ofText_text_iff`).
-/

namespace RecordFilter

open Grammar Token Schema

variable {schema : Schema} {rs : List Registration} {e e' : Expr}

/-! ### Expressions without quote marks in their names -/

/-- A value read from a token has no quote mark in its text. -/
theorem quote_not_mem_shown {word : String} {type : ColumnType} {value : Value}
    (hword : IsTokenText word) (hread : Value.read? word type = some value) :
    '"' ∉ value.shown.toList := by
  have hrunChar : isRunChar '"' = false := by decide
  have hrun : ∀ {s : List Char}, isRun s = true → '"' ∉ s := by
    intro s hs hmem
    rw [isRunChar_of_mem_run hs hmem] at hrunChar
    cases hrunChar
  -- What is shown in one word is a run; left are texts, which were tokens, and dates.
  cases hreads : value.readsBack with
  | true => exact hrun (Value.read?_shown hword.settled hread hreads).1
  | false =>
    cases value with
    | text s =>
      have htext : word = s := by
        cases type <;> simp_all [Value.read?]
      rw [Value.shown, ← htext]
      exact hword.unquoted
    | dateTime t =>
      rw [Value.shown, Instant.shown, String.toList_ofList]
      intro hmem
      rcases List.mem_append.mp hmem with hmem | hmem
      · exact hrun (isRun_dateText t.date) hmem
      · exact hrun (isRun_timeText t.timeOfDay) ((List.mem_cons.mp hmem).resolve_left (by decide))
    | _ => cases hreads

/-- Where no column has a quote mark in its name, an expression that was read has none either. -/
theorem Found.isQuoted (hschema : Registered schema rs)
    (hnames : ∀ r ∈ rs, '"' ∉ r.name.toList) (h : Found schema e) : e.IsQuoted := by
  induction h with
  | @column word column hlookup =>
    obtain ⟨r, hr, rfl⟩ := hschema.exists_of_lookup hlookup
    rw [Registration.column_name]
    refine ⟨hnames r hr, ?_⟩
    rw [← Bool.not_eq_true]
    intro hblank
    have hlength := length_fold_loweredEach (Registration.bare_name (hschema.shown r hr))
    rw [fold_eq_empty_of_blank hblank, ← Registration.key] at hlength
    exact key_ne_empty (hschema.shown r hr)
      (String.toList_inj.mp (List.length_eq_zero_iff.mp hlength.symm))
  | literal _ _ hword hvalue ih =>
    have hread := read_of_ofLiteral hvalue
    exact ⟨ih, ne_null_of_read hread, quote_not_mem_shown hword hread⟩
  | operation _ _ ihleft ihright => exact ⟨ihleft, ihright⟩

theorem Printable.found (h : Printable schema e) : Found schema e := by
  induction h with
  | @column name type _ hlookup => exact @Found.column schema _ ⟨name, type⟩ hlookup
  | @condition op name type value hop _ hrun hvalue ih =>
    have hword : IsTokenText (Text.loweredEach value.shown) :=
      isTokenText_lowerEach fun hmem => absurd (isRunChar_of_mem_run hrun hmem) (by decide)
    exact .literal hop ih hword (by simp [Value.ofLiteral, hvalue])
  | connect _ _ ihleft ihright => exact .operation ihleft ihright

/-- The type of a column goes with its name. -/
theorem Found.type_eq (hschema : Registered schema rs) {name : String} {type type' : ColumnType}
    (h : Found schema (.column name type)) (h' : Found schema (.column name type')) :
    type = type' := by
  -- Under one name there is one column, so it has one type.
  have hfound : ∀ {type}, Found schema (.column name type) →
      schema.columns.find? (Text.fold name) = some ⟨name, type⟩ := by
    intro type h
    generalize he : Expr.column name type = e at h
    cases h with
    | column hlookup =>
      cases he
      obtain ⟨r, hr, hcolumn⟩ := hschema.exists_of_lookup hlookup
      refine (hschema.columns _ _).mpr ⟨r, hr, ?_, hcolumn⟩
      rw [Registration.key, ← Registration.column_name, hcolumn]
    | literal => cases he
    | operation => cases he
  have heq := (hfound h).symm.trans (hfound h')
  rw [Option.some.injEq, Column.mk.injEq] at heq
  exact heq.2

/-! ### Characters of a text -/

theorem toList_shown_column (name : String) (type : ColumnType) (rest : List Char) :
    (Expr.column name type).shown.toList ++ rest = '"' :: (name.toList ++ '"' :: rest) := by
  simp [Expr.shown]

theorem toList_shown_binary (op : Operator) (left right : Expr) (rest : List Char) :
    (Expr.binary op left right).shown.toList ++ rest = '(' :: (left.shown.toList ++
      ' ' :: (op.symbol.toList ++ ' ' :: (right.shown.toList ++ ')' :: rest))) := by
  simp [Expr.shown]

theorem symbol_chars (op : Operator) : ' ' ∉ op.symbol.toList ∧ '"' ∉ op.symbol.toList := by
  cases op with
  | connective op => cases op <;> exact ⟨by decide, by decide⟩
  | comparison op => cases op <;> exact ⟨by decide, by decide⟩
  | textTest op => cases op <;> exact ⟨by decide, by decide⟩

/-- Operators with a space behind them are the same if their symbols begin texts that are. -/
theorem operator_eq {op op' : Operator} {rest rest' : List Char}
    (heq : op.symbol.toList ++ ' ' :: rest = op'.symbol.toList ++ ' ' :: rest') :
    op = op' ∧ rest = rest' := by
  obtain ⟨hsymbol, hrest⟩ := cut_first (symbol_chars op).1 (symbol_chars op').1 heq
  have hop := Operator.ofSymbol?_symbol op
  rw [String.toList_inj.mp hsymbol, Operator.ofSymbol?_symbol op', Option.some.injEq] at hop
  exact ⟨hop.symm, hrest⟩

/-- A text begins with parentheses and a quote. -/
theorem Found.exists_shown (h : Found schema e) (rest : List Char) :
    ∃ opening more, e.shown.toList ++ rest = opening ++ '"' :: more ∧ ∀ c ∈ opening, c = '(' := by
  have hbinary : ∀ {op : Operator} {left right : Expr} {rest : List Char}, (∀ rest, ∃ opening more,
      left.shown.toList ++ rest = opening ++ '"' :: more ∧ ∀ c ∈ opening, c = '(') →
      ∃ opening more, (Expr.binary op left right).shown.toList ++ rest = opening ++ '"' :: more ∧
        ∀ c ∈ opening, c = '(' := by
    intro op left right rest hleft
    rw [toList_shown_binary]
    obtain ⟨opening, more, hshown, hopening⟩ :=
      hleft (' ' :: (op.symbol.toList ++ ' ' :: (right.shown.toList ++ ')' :: rest)))
    exact ⟨'(' :: opening, more, by rw [hshown, List.cons_append], by simpa using hopening⟩
  induction h generalizing rest with
  | column => exact ⟨[], _, toList_shown_column _ _ rest, by simp⟩
  | literal _ _ _ _ ih => exact hbinary ih
  | operation _ _ ih _ => exact hbinary ih

/-- A text that begins with a name between quotes is that of the column. -/
theorem Found.eq_column (h : Found schema e) (hquoted : e.IsQuoted) {name : String}
    {rest rest' : List Char} (hname : '"' ∉ name.toList)
    (heq : e.shown.toList ++ rest = '"' :: (name.toList ++ '"' :: rest')) :
    ∃ type, e = .column name type ∧ rest = rest' := by
  cases h with
  | @column word column hlookup =>
    rw [toList_shown_column] at heq
    obtain ⟨hsame, hrest⟩ := cut_first hquoted.1 hname (List.cons.inj heq).2
    exact ⟨column.type, by rw [String.toList_inj.mp hsame], hrest⟩
  | literal =>
    rw [toList_shown_binary] at heq
    exact absurd (List.cons.inj heq).1 (by decide)
  | operation =>
    rw [toList_shown_binary] at heq
    exact absurd (List.cons.inj heq).1 (by decide)

/-! ### What follows a part of a text -/

/-- What can follow parts of two texts that stand in the same place: parentheses that close, as many
    in both, and then the end, or an operator and parentheses in front of a quote. -/
inductive FollowAlike : List Char → List Char → Prop where
  | ends : FollowAlike [] []
  | closes {rest rest' : List Char} (h : FollowAlike rest rest') :
      FollowAlike (')' :: rest) (')' :: rest')
  | goesOn {op op' : Operator} {opening opening' rest rest' : List Char}
      (hopening : ∀ c ∈ opening, c = '(') (hopening' : ∀ c ∈ opening', c = '(') :
      FollowAlike (' ' :: (op.symbol.toList ++ ' ' :: (opening ++ '"' :: rest)))
        (' ' :: (op'.symbol.toList ++ ' ' :: (opening' ++ '"' :: rest')))

theorem not_mem_opening {opening : List Char} (h : ∀ c ∈ opening, c = '(') :
    '"' ∉ opening ∧ ' ' ∉ opening :=
  ⟨fun hmem => absurd (h _ hmem) (by decide), fun hmem => absurd (h _ hmem) (by decide)⟩

/-- Texts without quote marks in the same place are the same. -/
theorem FollowAlike.eq_of_append_eq {rest rest' : List Char} (h : FollowAlike rest rest')
    {s s' : List Char} (hs : '"' ∉ s) (hs' : '"' ∉ s') (heq : s ++ rest = s' ++ rest') :
    s = s' ∧ rest = rest' := by
  induction h generalizing s s' with
  | ends => exact ⟨by simpa using heq, rfl⟩
  | closes _ ih =>
    rw [List.append_cons, List.append_cons s'] at heq
    obtain ⟨hclosed, rfl⟩ := ih (by simpa using hs) (by simpa using hs') heq
    exact ⟨List.append_cancel_right hclosed, rfl⟩
  | @goesOn op op' opening opening' rest rest' hopening hopening' =>
    -- Up to the quote there are two spaces behind the texts.
    have hsplit : ∀ (s : List Char) (op : Operator) (opening rest : List Char),
        s ++ ' ' :: (op.symbol.toList ++ ' ' :: (opening ++ '"' :: rest)) =
          ((s ++ ' ' :: op.symbol.toList) ++ ' ' :: opening) ++ '"' :: rest := by
      intros
      simp
    have hfree : ∀ {s : List Char} (op : Operator) {opening : List Char}, '"' ∉ s →
        (∀ c ∈ opening, c = '(') → '"' ∉ (s ++ ' ' :: op.symbol.toList) ++ ' ' :: opening := by
      intro s op opening hs hopening
      simp [hs, (symbol_chars op).2, (not_mem_opening hopening).1]
    rw [hsplit, hsplit] at heq
    obtain ⟨hquote, rfl⟩ := cut_first (hfree op hs hopening) (hfree op' hs' hopening') heq
    obtain ⟨hspace, rfl⟩ :=
      cut_last (not_mem_opening hopening).2 (not_mem_opening hopening').2 hquote
    obtain ⟨rfl, hsymbol⟩ := cut_last (symbol_chars op).1 (symbol_chars op').1 hspace
    exact ⟨rfl, by rw [hsymbol]⟩

/-! ### One text, one expression -/

/-- The text of a printable expression shows no other expression that can be read, whatever
    follows. -/
theorem eq_of_shown_append (hschema : Registered schema rs) (hprintable : Printable schema e')
    (hfound : Found schema e) (hquoted : e.IsQuoted) {rest rest' : List Char}
    (hfollow : FollowAlike rest rest')
    (heq : e.shown.toList ++ rest = e'.shown.toList ++ rest') : e = e' ∧ rest = rest' := by
  -- The other expression is only known by its text, so each case looks for the same shape there.
  induction hprintable generalizing e rest rest' with
  | @column name type hname hlookup =>
    rw [toList_shown_column] at heq
    obtain ⟨type', rfl, rfl⟩ := hfound.eq_column hquoted hname heq
    rw [hfound.type_eq hschema (Printable.column hname hlookup).found]
    exact ⟨rfl, rfl⟩
  | @condition op name type value hop hcolumn hrun hvalue _ =>
    have hname : '"' ∉ name.toList := hcolumn.isQuoted.1
    rw [toList_shown_binary, toList_shown_column, shown_constant (ne_null_of_read hvalue)] at heq
    cases hfound with
    | column =>
      rw [toList_shown_column] at heq
      exact absurd (List.cons.inj heq).1 (by decide)
    | @literal op' name' word type' value' _ hcolumn' hword hvalue' =>
      rw [toList_shown_binary, shown_constant hquoted.2.1] at heq
      obtain ⟨_, hsame, htail⟩ := hcolumn'.eq_column hquoted.1 hname (List.cons.inj heq).2
      obtain ⟨rfl, -⟩ := Expr.column.inj hsame
      obtain rfl := hcolumn'.type_eq hschema hcolumn.found
      obtain ⟨rfl, hconstant⟩ := operator_eq (List.cons.inj htail).2
      obtain ⟨hshown, hrests⟩ := (FollowAlike.closes hfollow).eq_of_append_eq hquoted.2.2
        (fun hmem => absurd (isRunChar_of_mem_run hrun hmem) (by decide)) hconstant
      -- The constants are shown alike, and what is shown is read as either.
      rw [← hshown] at hrun
      have hback := (Value.read?_shown hword.settled (read_of_ofLiteral hvalue')
        (Value.readsBack_of_isRun hrun)).2
      rw [String.toList_inj.mp hshown, hvalue, Option.some.injEq] at hback
      exact ⟨by rw [hback], (List.cons.inj hrests).2⟩
    | @operation op' left right hleft hright =>
      -- A right side that is no literal begins with a parenthesis or a quote; this one does not.
      rw [toList_shown_binary] at heq
      obtain ⟨_, rfl, htail⟩ := hleft.eq_column hquoted.1 hname (List.cons.inj heq).2
      obtain ⟨rfl, hconstant⟩ := operator_eq (List.cons.inj htail).2
      obtain ⟨opening, more, hshown, hopening⟩ := hright.exists_shown (')' :: rest)
      obtain ⟨c, run, hc⟩ := List.exists_cons_of_ne_nil (l := value.shown.toList) (by
        intro hnil
        rw [hnil] at hrun
        cases hrun)
      have hrunChar : isRunChar c = true := isRunChar_of_mem_run hrun (by simp [hc])
      rw [hshown, hc] at hconstant
      cases opening with
      | nil =>
        obtain ⟨rfl, -⟩ := List.cons.inj hconstant
        exact absurd hrunChar (by decide)
      | cons d opening =>
        obtain ⟨rfl, -⟩ := List.cons.inj hconstant
        rw [hopening d (List.mem_cons_self ..)] at hrunChar
        exact absurd hrunChar (by decide)
  | @connect op left right hleft hright ihleft ihright =>
    rw [toList_shown_binary] at heq
    cases hfound with
    | column =>
      rw [toList_shown_column] at heq
      exact absurd (List.cons.inj heq).1 (by decide)
    | @literal op' name' word type' value' hop' hcolumn' hword hvalue' =>
      rw [toList_shown_binary, toList_shown_column] at heq
      obtain ⟨_, -, htail⟩ :=
        hleft.found.eq_column hleft.isQuoted hquoted.1.1 (List.cons.inj heq).2.symm
      exact absurd (operator_eq (List.cons.inj htail).2).1.symm (hop' op)
    | @operation op' left' right' hleft' hright' =>
      rw [toList_shown_binary] at heq
      have hsides := (List.cons.inj heq).2
      obtain ⟨opening, more, hshown, hopening⟩ := hright'.exists_shown (')' :: rest)
      obtain ⟨opening', more', hshown', hopening'⟩ := hright.found.exists_shown (')' :: rest')
      have hgoesOn : FollowAlike
          (' ' :: (op'.symbol.toList ++ ' ' :: (right'.shown.toList ++ ')' :: rest)))
          (' ' :: ((Operator.connective op).symbol.toList ++
            ' ' :: (right.shown.toList ++ ')' :: rest'))) := by
        rw [hshown, hshown']
        exact .goesOn hopening hopening'
      obtain ⟨rfl, htail⟩ := ihleft hleft' hquoted.1 hgoesOn hsides
      obtain ⟨rfl, hconstant⟩ := operator_eq (List.cons.inj htail).2
      obtain ⟨rfl, hrests⟩ := ihright hright' hquoted.2 (.closes hfollow) hconstant
      exact ⟨rfl, (List.cons.inj hrests).2⟩

/-- A printable expression has no text in common with any other expression that can be read. -/
theorem eq_of_shown_eq (hschema : Registered schema rs) (hprintable : Printable schema e')
    (hfound : Found schema e) (hquoted : e.IsQuoted) (heq : e.shown = e'.shown) : e = e' :=
  (eq_of_shown_append hschema hprintable hfound hquoted .ends (by rw [heq])).1

/-- A condition that is read from its own text is printable. -/
theorem printable_of_reread (hquoted : e.IsQuoted) (hcondition : e.IsFilter)
    (hread : Expr.ofCommand schema (Command.ofText e.shown) = .ok e) (hne : e ≠ .empty) :
    Printable schema e := by
  obtain ⟨hclosed, htokens⟩ := writtenTokens_shown hquoted
  have hspelled :=
    spelled_of_derives ((ofCommand_eq_ok_iff_derives hne).mp hread) spelled_nil_expr false
  rw [written_ofText_of_closed hclosed, htokens, List.nil_append] at hspelled
  have hsame : words false e.printed ++ [] = words false e.printed ++ [] := rfl
  have hends : GoesOn [] := by simp [GoesOn]
  exact (printable_of_spelled (found_of_ofCommand hread hne) hquoted hcondition hspelled hsame
    hends hends).1

/-- **Texts that are read back.**  Let a filter be read from a text.  Where its columns can be
    quoted, its constants are literals as they are shown, and none of its columns stands to the
    right of a comparison or a text test, its own text is read as the same filter.  If no column of
    the schema has a quote mark in its name, the text is read as a filter of the same text only
    then. -/
theorem Filter.ofText_text_iff {t : String} {f : Filter}
    (h : Filter.ofText (empty.registerAll rs) t none = .ok f) :
    (f.label.ReadsBack → Filter.ofText (empty.registerAll rs) f.text none = .ok f) ∧
      ((∀ column ∈ (empty.registerAll rs).columns.values, '"' ∉ column.name.toList) →
        ((∃ g, Filter.ofText (empty.registerAll rs) f.text none = .ok g ∧ g.text = f.text) ↔
          f.label.ReadsBack)) := by
  refine ⟨Filter.ofText_text h, fun hnames => ⟨?_, fun hreads => ?_⟩⟩
  · rintro ⟨g, hg, htext⟩
    have hschema := registered_added rs
    have hnames' : ∀ r ∈ empty.added rs, '"' ∉ r.name.toList := by
      intro r hr
      have hmem : r.column ∈ (empty.registerAll rs).columns.values :=
        hschema.mem_values_iff.mpr ⟨r, hr, rfl⟩
      rw [← Registration.column_name]
      exact hnames r.column hmem
    -- The text is shown by two expressions: the one it was made from and the one it is read as.
    obtain ⟨e, -, -, hfound, hcondition, hshown, hlabel⟩ := Filter.exists_expr h
    obtain ⟨e', hread, hcompile, hfound', hcondition', hshown', -⟩ := Filter.exists_expr hg
    have htexts : f.text = e'.shown := htext.symm.trans hshown'
    rw [htexts] at hread
    have hprintable := printable_of_reread (hfound'.isQuoted hschema hnames') hcondition' hread
      (Expr.ne_empty_of_compile hcompile)
    obtain rfl := eq_of_shown_eq hschema hprintable hfound (hfound.isQuoted hschema hnames')
      (hshown.symm.trans htexts)
    exact hlabel.mpr ((readsBack_iff_printable hschema hfound hcondition none).mpr hprintable)
  · exact ⟨f, Filter.ofText_text h hreads, rfl⟩

def Filter.shortHidden : Filter :=
  ⟨.guard ["length", "hidden"] (.connect .and
      (.compare .less (.property "length") (.constant (.integer 9))) (.isTrue "hidden")),
    .guard ["length", "hidden"] (.binary (.connective .and)
      (.binary (.comparison .less) (.column "length") (.constant (.integer 9) (some .integer)))
      (.column "hidden")),
    ["length", "hidden"]⟩

theorem Filter.ofText_shortHidden :
    Filter.ofText (empty.registerAll fileColumns) "Len < 9 && hidden" none = .ok .shortHidden ∧
      Filter.shortHidden.label.ReadsBack ∧
      Filter.shortHidden.text = "((\"length\" < 9) && \"hidden\")" ∧
      Filter.ofText (empty.registerAll fileColumns) Filter.shortHidden.text none =
        .ok .shortHidden := by
  have hread : Filter.ofText (empty.registerAll fileColumns) "Len < 9 && hidden" none =
      .ok .shortHidden := by decide +kernel
  have hlength : IsQuotable "length" := by decide +kernel
  have hhidden : IsQuotable "hidden" := by decide +kernel
  have hreads : Filter.shortHidden.label.ReadsBack := ⟨⟨hlength, rfl⟩, hhidden⟩
  exact ⟨hread, hreads, by decide +kernel, (Filter.ofText_text_iff hread).1 hreads⟩

def Filter.twoWords : Filter :=
  ⟨.guard ["name"] (.compare .equal (.property "name") (.constant (.text "a b"))),
    .guard ["name"]
      (.binary (.comparison .equal) (.column "name") (.constant (.text "a b") (some .text))),
    ["name"]⟩

/-- A text of two words is written without the quotes it was read between. -/
theorem Filter.ofText_twoWords :
    Filter.ofText (empty.registerAll [⟨"", "name", .text⟩]) "name == \"a b\"" none =
        .ok .twoWords ∧
      Filter.twoWords.text = "(\"name\" == a b)" ∧
      ∀ g, Filter.ofText (empty.registerAll [⟨"", "name", .text⟩]) Filter.twoWords.text none ≠
        .ok g := by
  refine ⟨by decide +kernel, by decide +kernel, ?_⟩
  have herror : Filter.ofText (empty.registerAll [⟨"", "name", .text⟩]) Filter.twoWords.text none =
      .error (.parse ⟨"(\"name\" == a b)", ⟨.unknownOperator "b", 13⟩⟩) := by decide +kernel
  rw [herror]
  exact nofun

end RecordFilter
