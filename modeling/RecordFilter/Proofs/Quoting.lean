import RecordFilter.Proofs.Printing
/-!
# Columns and texts between quotes

The plain way to ask for a text is to write the column and the text between quotes, with `==`
between them.  The lexer takes what stands between quotes letter by letter into lower case, whereas
names and texts are compared in the lower case of the whole.  The two differ where a capital sigma
ends a word (`fold_loweredEach_eq_iff`); but for that, what is written is found
(`Filter.ofText_equality_iff`).
-/

namespace RecordFilter

open Grammar Token Schema

/-! ### Letter by letter, and as a whole -/

namespace Text

theorem trim_append_blank {left right t : List Char} (hleft : ∀ c ∈ left, isBlank c = true)
    (ht : Bare t) (hright : ∀ c ∈ right, isBlank c = true) : trim (left ++ (t ++ right)) = t := by
  rw [trim, trimLeft, List.dropWhile_append_of_pos hleft]
  cases t with
  | nil =>
    have hnone : right.dropWhile isBlank = [] := List.dropWhile_eq_nil_iff.mpr hright
    rw [List.nil_append, hnone]
    rfl
  | cons c rest =>
    have hhead : ∀ d ∈ ((c :: rest) ++ right).head?, isBlank d = false := ht.1
    have hlast : ∀ d ∈ (c :: rest).reverse.head?, isBlank d = false := by
      rw [List.head?_reverse]
      exact ht.2
    rw [dropWhile_isBlank_of_head hhead, trimRight, List.reverse_append,
      List.dropWhile_append_of_pos (by simpa using hright), dropWhile_isBlank_of_head hlast,
      List.reverse_reverse]

theorem lowerEach_of_blank {s : List Char} (h : ∀ c ∈ s, isBlank c = true) : lowerEach s = s := by
  apply Settled.lowerEach_eq
  intro c hc
  exact lowerChar_of_isBlank (h c hc)

/-- Trimming and lower-casing may be done in either order. -/
theorem trim_lowerEach (s : List Char) : trim (lowerEach s) = lowerEach (trim s) := by
  obtain ⟨left, right, hs, hleft, hright⟩ := Token.trim_eq s
  have hparts : lowerEach s = left ++ (lowerEach (trim s) ++ right) := by
    calc lowerEach s = lowerEach (left ++ (trim s ++ right)) := by rw [← hs]
      _ = lowerEach left ++ (lowerEach (trim s) ++ lowerEach right) := by simp [lowerEach]
      _ = left ++ (lowerEach (trim s) ++ right) := by
        rw [lowerEach_of_blank hleft, lowerEach_of_blank hright]
  rw [hparts]
  exact trim_append_blank hleft (bare_trim s).lowerEach hright

/-- Lowered letter by letter, a text compares like itself, unless a sigma ends a word in it. -/
theorem fold_loweredEach_eq_iff {s : String} :
    fold (loweredEach s) = fold s ↔ ¬ EndsWordInSigma (trim s.toList) := by
  rw [← String.toList_inj, toList_fold, toList_fold, loweredEach, String.toList_ofList,
    trim_lowerEach, lower, (settled_lowerEach _).lowerFrom_eq, eq_comm, lower_eq_lowerEach_iff]

end Text

/-! ### What is written -/

variable {schema : Schema} {rs : List Registration} {name v : String} {e : Expr}

def equalityText (name v : String) : String := "\"" ++ name ++ "\" == \"" ++ v ++ "\""

theorem writtenTokens_equalityText (hname : '"' ∉ name.toList)
    (hnameShown : Text.isAllBlank name.toList = false) (hv : '"' ∉ v.toList)
    (hvShown : Text.isAllBlank v.toList = false) :
    (Command.ofText (equalityText name v)).tokens.map written =
      [(Text.loweredEach name, true), ("==", false), (Text.loweredEach v, true)] := by
  have hquoted : ∀ {s : String}, '"' ∉ s.toList → Text.isAllBlank s.toList = false →
      QuotesClosed ("\"" ++ s ++ "\"").toList ∧
        writtenTokens ("\"" ++ s ++ "\"").toList = [(Text.loweredEach s, true)] := by
    intro s hs hshown
    constructor
    · exact quotesClosed_quoted hs
    · apply writtenTokens_quoted hs
      rw [Text.loweredEach, String.toList_ofList, Text.isAllBlank_lowerEach]
      exact hshown
  obtain ⟨hclosedName, htokensName⟩ := hquoted hname hnameShown
  obtain ⟨hclosedValue, htokensValue⟩ := hquoted hv hvShown
  have htext : equalityText name v =
      ("\"" ++ name ++ "\"") ++ " " ++ (Operator.comparison .equal).symbol ++ " " ++
        ("\"" ++ v ++ "\"") := by
    rw [← String.toList_inj]
    simp [equalityText, Operator.symbol, Comparison.symbol]
  obtain ⟨hclosed, htokens⟩ :=
    writtenTokens_infix (.comparison .equal) hclosedName hclosedValue
  rw [htext, written_ofText_of_closed hclosed, htokens, htokensName, htokensValue]
  rfl

theorem isWord_of_quoted {t : Token} (h : t.quoted = true) : t.isWord = true := by
  simp [isWord, isParen, h]

/-- The column is looked up, and the text is a literal of its type. -/
theorem ofCommand_equalityText_iff (schema : Schema) (e : Expr) (hname : '"' ∉ name.toList)
    (hnameShown : Text.isAllBlank name.toList = false) (hv : '"' ∉ v.toList)
    (hvShown : Text.isAllBlank v.toList = false) :
    Expr.ofCommand schema (Command.ofText (equalityText name v)) = .ok e ↔
      ∃ column value, schema.lookup (Text.loweredEach name) = .ok (some column) ∧
        Value.ofLiteral (Text.loweredEach v) column.type = .ok value ∧
        e = .binary (.comparison .equal) (.column column.name column.type) (.constant value) := by
  have hwritten := writtenTokens_equalityText hname hnameShown hv hvShown
  rw [ofCommand_eq_ok_iff_writes]
  generalize (Command.ofText (equalityText name v)).tokens = tokens at hwritten
  simp only [List.map_eq_cons_iff, List.map_eq_nil_iff] at hwritten
  obtain ⟨first, _, rfl, hfirst, middle, _, rfl, hmiddle, last, _, rfl, hlast, rfl⟩ := hwritten
  obtain ⟨hfirstText, hfirstQuoted⟩ := Prod.mk.inj hfirst
  obtain ⟨hmiddleText, hmiddleQuoted⟩ := Prod.mk.inj hmiddle
  obtain ⟨hlastText, hlastQuoted⟩ := Prod.mk.inj hlast
  have hop : middle.IsOperator (.comparison .equal) := ⟨hmiddleQuoted, hmiddleText⟩
  have hnot : ∀ connective, Operator.comparison .equal ≠ .connective connective := nofun
  -- Nothing else can be read here: each word settles what the next one has to be.
  constructor
  · intro h
    obtain ⟨left, hleft, hrest⟩ :=
      (Pending.finishes_start_word_iff (isWord_of_quoted hfirstQuoted)).mp h
    obtain ⟨op, hop', hrest⟩ := Pending.finishes_operand_word_iff.mp hrest
    obtain rfl := operator_unique (operator_eq_ok_iff.mp hop') hop
    obtain ⟨right, hright, hrest⟩ :=
      (Pending.finishes_literal_word_iff (isWord_of_quoted hlastQuoted) hnot).mp hrest
    have hend := Pending.finishes_nil_iff.mp hrest
    obtain ⟨column, hlookup, rfl⟩ := resolve_eq_ok_iff.mp hleft
    obtain ⟨_, _, value, hcolumn, hvalue, rfl⟩ := literal_eq_ok_iff.mp hright
    cases hcolumn
    rw [hfirstText] at hlookup
    rw [hlastText] at hvalue
    exact ⟨column, value, hlookup, hvalue, (Except.ok.inj hend).symm⟩
  · rintro ⟨column, value, hlookup, hvalue, rfl⟩
    rw [← hfirstText] at hlookup
    rw [← hlastText] at hvalue
    have hcolumn : Derives schema .operand [first] (.column column.name column.type) :=
      .column (isWord_of_quoted hfirstQuoted) hlookup
    have hright : Derives schema (.right (.column column.name column.type) (.comparison .equal))
        [last] (.binary (.comparison .equal) (.column column.name column.type) (.constant value)) :=
      .literal hnot (isWord_of_quoted hlastQuoted) hvalue .stops
    exact .inr (hcolumn.expr_of_operand (.tail_of_right hop hright))

/-! ### What is compiled -/

theorem Comparison.equal_holds_text (s t : String) :
    Comparison.equal.holds (.text s) (.text t) = true ↔ Text.fold s = Text.fold t := by
  simp [holds, accepts, Value.compare, Value.isNull, Value.folded?]

/-- A column of the schema can be compared with a constant, and nothing else is needed. -/
theorem Expr.exists_compile_equality (type : ColumnType) (value : Value)
    (hcontains : schema.contains name = true) :
    ∃ f, (Expr.binary (.comparison .equal) (.column name type) (.constant value)).compile
      schema none = .ok f := by
  have hrequire : requireColumn schema [] name = .ok [name] := by simp [requireColumn, hcontains]
  exact ⟨_, by simp [compile, compileAlone, lowerCondition, lowerSides, lowerValue, hrequire]; rfl⟩

/-- A compiled equality accepts a record exactly when its column is there and equal to the
constant. -/
theorem Expr.compile_equality_iff {type : ColumnType} {value : Value} {f : Filter}
    (h : (Expr.binary (.comparison .equal) (.column name type) (.constant value)).compile
      schema none = .ok f) :
    f.columns = [name] ∧ ∀ properties, f.accepts properties = true ↔
      properties name ≠ .null ∧ Comparison.equal.holds (properties name) value = true := by
  obtain ⟨hcolumns, haccepts⟩ := compileAlone_eq_ok (compile_none_eq_ok_iff.mp h)
  constructor
  · rw [hcolumns]
    simp [columns, List.eraseDups_cons]
  · intro properties
    rw [haccepts]
    simp [Matches, Holds, columns, Expr.value]

/-! ### What is found -/

theorem Record.property_insert (r : Record) (name : String) (value : Value) :
    (r.insert name value).property name = value := by
  simp [property, stored?, insert]

theorem not_blank_of_registered (hschema : Registered schema rs) {column : Column}
    (hcolumn : column ∈ schema.columns.values) : Text.isAllBlank column.name.toList = false := by
  obtain ⟨r, hr, rfl⟩ := hschema.mem_values_iff.mp hcolumn
  cases hblank : Text.isAllBlank r.column.name.toList with
  | false => rfl
  | true =>
    have hempty := fold_eq_empty_of_blank hblank
    rw [Registration.column_name, ← Registration.key] at hempty
    exact absurd hempty (key_ne_empty (hschema.shown r hr))

/-- The name of a column has no white space at its ends. -/
theorem trim_name (hschema : Registered schema rs) {column : Column}
    (hcolumn : column ∈ schema.columns.values) :
    Text.trim column.name.toList = column.name.toList := by
  obtain ⟨r, hr, rfl⟩ := hschema.mem_values_iff.mp hcolumn
  rw [Registration.column_name]
  exact (Registration.bare_name (hschema.shown r hr)).trim_eq

/-- **Columns and texts between quotes.**  A column that holds texts and a text are written between
    quotes, with `==` between them.  This is a filter that needs that column and accepts every
    record with that text in it, exactly if no capital sigma ends a word in the name or in the
    text. -/
theorem Filter.ofText_equality_iff {column : Column}
    (hcolumn : column ∈ (empty.registerAll rs).columns.values) (htype : column.type = .text)
    (hname : '"' ∉ column.name.toList) (hv : '"' ∉ v.toList)
    (hshown : Text.isAllBlank v.toList = false) :
    (∃ f, Filter.ofText (empty.registerAll rs)
          ("\"" ++ column.name ++ "\" == \"" ++ v ++ "\"") none = .ok f ∧
        f.columns = [column.name] ∧
        ∀ r : Record, r.property column.name = .text v → f.accepts r.property = true) ↔
      ¬ Text.EndsWordInSigma column.name.toList ∧
        ¬ Text.EndsWordInSigma (Text.trim v.toList) := by
  have hschema := registered_added rs
  have hread := fun e => ofCommand_equalityText_iff (empty.registerAll rs) e hname
    (not_blank_of_registered hschema hcolumn) hv hshown
  rw [equalityText] at hread
  rw [← trim_name hschema hcolumn, ← Text.fold_loweredEach_eq_iff, ← Text.fold_loweredEach_eq_iff]
  constructor
  · rintro ⟨f, hf, hcolumns, haccepts⟩
    obtain ⟨e, he, hcompile⟩ := ofText_eq_ok_iff.mp hf
    obtain ⟨found, value, hlookup, hvalue, rfl⟩ := (hread e).mp he
    obtain ⟨hfound, hmatches⟩ := Expr.compile_equality_iff hcompile
    -- Another column would be named in the filter.
    have hsame : found = column := by
      apply hschema.eq_of_name_eq _ hcolumn
      · exact List.singleton_inj.mp (hfound.symm.trans hcolumns)
      · exact hschema.mem_values_iff.mpr (hschema.exists_of_lookup hlookup)
    subst hsame
    rw [htype] at hvalue
    cases Except.ok.inj hvalue
    constructor
    · exact fold_lowered_of_lookup hschema hlookup
    · -- Among the records that must be accepted is one that carries nothing else.
      have hstored := Record.property_insert (.ofId "" none) found.name (.text v)
      have hholds := ((hmatches _).mp (haccepts _ hstored)).2
      rw [hstored, Comparison.equal_holds_text] at hholds
      exact hholds.symm
  · -- The stored value folds to what the literal folds to, and so does the name.
    rintro ⟨hfoldName, hfoldValue⟩
    have hlookup : (empty.registerAll rs).lookup (Text.loweredEach column.name) =
        .ok (some column) := by
      obtain ⟨r, hr, rfl⟩ := hschema.mem_values_iff.mp hcolumn
      rw [Registration.column_name] at hfoldName ⊢
      exact hschema.lookup_of_key hr (by rw [hfoldName, Registration.key])
    have hvalue : Value.ofLiteral (Text.loweredEach v) column.type =
        .ok (.text (Text.loweredEach v)) := by
      rw [htype]
      rfl
    obtain ⟨f, hcompile⟩ := Expr.exists_compile_equality column.type
      (.text (Text.loweredEach v)) (hschema.contains_name hcolumn)
    obtain ⟨hcolumns, hmatches⟩ := Expr.compile_equality_iff hcompile
    have hexpr := (hread _).mpr ⟨column, _, hlookup, hvalue, rfl⟩
    refine ⟨f, ofText_eq_ok_iff.mpr ⟨_, hexpr, hcompile⟩, hcolumns, ?_⟩
    intro r hr
    rw [hmatches, hr, Comparison.equal_holds_text]
    exact ⟨by simp, hfoldValue.symm⟩

theorem Filter.ofText_twoQuoted : ∃ f,
    Filter.ofText (empty.registerAll [⟨"", "Title", .text⟩]) "\"Title\" == \"Two Words\"" none =
        .ok f ∧
      f.columns = ["Title"] ∧
      ∀ r : Record, r.property "Title" = .text "Two Words" → f.accepts r.property = true := by
  have hcolumn : ⟨"Title", .text⟩ ∈
      (empty.registerAll [⟨"", "Title", .text⟩]).columns.values := by decide +kernel
  have hname : ¬ Text.EndsWordInSigma "Title".toList := by
    intro h
    exact absurd h.sigma_mem (by decide +kernel)
  have hvalue : ¬ Text.EndsWordInSigma (Text.trim "Two Words".toList) := by
    intro h
    exact absurd h.sigma_mem (by decide +kernel)
  have htext : "\"Title\" == \"Two Words\"" =
      "\"" ++ "Title" ++ "\" == \"" ++ "Two Words" ++ "\"" := by decide +kernel
  rw [htext]
  exact (Filter.ofText_equality_iff hcolumn rfl (by decide +kernel) (by decide +kernel)
    (by decide +kernel)).mpr ⟨hname, hvalue⟩

def Filter.smallSigma : Filter :=
  ⟨.guard ["name"] (.compare .equal (.property "name") (.constant (.text "aσ"))),
    .guard ["name"]
      (.binary (.comparison .equal) (.column "name") (.constant (.text "aσ") (some .text))),
    ["name"]⟩

/-- A record is not found by the text it holds. -/
theorem Filter.ofText_smallSigma :
    Filter.ofText (empty.registerAll [⟨"", "name", .text⟩]) "\"name\" == \"aΣ\"" none =
        .ok .smallSigma ∧
      ((Record.ofId "r" none).insert "name" (.text "aΣ")).property "name" = .text "aΣ" ∧
      Filter.smallSigma.accepts
        ((Record.ofId "r" none).insert "name" (.text "aΣ")).property = false := by
  decide +kernel

end RecordFilter
