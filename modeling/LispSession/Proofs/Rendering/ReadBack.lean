import LispSession.Proofs.Grammar.Words
import LispSession.Proofs.Rendering.Data
import LispSession.Proofs.Sessions.Alike
import LispSession.Proofs.Symbols.Occurrences

/-!
# What is printed can be read back

The text of a plain value is made of the tokens of an item of a quoted list, whose symbols are
those that the table has for their names already. So a text that quotes it evaluates to the value
again.

* `ReadsAs`                a text is that of items with given values
* `ReadsAs.list`           items in parentheses
* `Plain.readsAs`          the text of a plain value
* `Plain.read_quoted`      what is read from that text, quoted
* `Plain.evaluate_quoted`  the evaluation of it
-/

namespace LispSession

open Grammar

/-! ### Texts of items -/

/-- An opening parenthesis is a word of its own. -/
private theorem words_leftParen (rest : List Char) :
    words ('(' :: rest) = word .leftParen "(" :: words rest :=
  words_of_lexeme (List.cons_ne_nil _ _)
    (show lexeme ('(' :: rest) = ⟨.leftParen, ['('], rest⟩ from rfl) rfl

/-- A closing parenthesis is a word of its own. -/
private theorem words_rightParen (rest : List Char) :
    words (')' :: rest) = word .rightParen ")" :: words rest :=
  words_of_lexeme (List.cons_ne_nil _ _)
    (show lexeme (')' :: rest) = ⟨.rightParen, [')'], rest⟩ from rfl) rfl

/-- A quote is a word of its own. -/
private theorem words_quote (rest : List Char) :
    words ('\'' :: rest) = word .quote "'" :: words rest :=
  words_of_lexeme (List.cons_ne_nil _ _)
    (show lexeme ('\'' :: rest) = ⟨.quote, ['\''], rest⟩ from rfl) rfl

/-- The text is that of items of a quoted list with these values, in front of whatever may
    follow. -/
def ReadsAs (sym : String → Symbol) (text : List Char) (values : List Value) : Prop :=
  ∃ ts items, Items sym ts items ∧ items.map Literal.toValue = values ∧
    ∀ rest, Divided rest → words (text ++ rest) = ts ++ words rest

namespace ReadsAs

variable {sym : String → Symbol} {text more : List Char} {values others : List Value}

/-- No text is no items. -/
private theorem nil : ReadsAs sym [] [] := ⟨[], [], .nil, rfl, fun _ _ => rfl⟩

/-- A space in front changes nothing. -/
private theorem space (h : ReadsAs sym text values) : ReadsAs sym (' ' :: text) values := by
  obtain ⟨ts, items, hitems, hvalues, hwords⟩ := h
  refine ⟨ts, items, hitems, hvalues, fun rest hrest => ?_⟩
  rw [List.cons_append, words_blank_cons (by decide), hwords rest hrest]

/-- Items before others are read as all of them, if the others begin with something that ends an
    item. -/
private theorem append (h : ReadsAs sym text values) (hmore : ReadsAs sym more others)
    (hdivided : Divided more) : ReadsAs sym (text ++ more) (values ++ others) := by
  obtain ⟨ts, items, hitems, rfl, hwords⟩ := h
  obtain ⟨us, items', hitems', rfl, hwords'⟩ := hmore
  refine ⟨ts ++ us, items ++ items', hitems.append hitems', List.map_append, fun rest hrest => ?_⟩
  rw [List.append_assoc, hwords _ (hdivided.append hrest), hwords' rest hrest, List.append_assoc]

/-- In parentheses, items are a list. -/
theorem list (h : ReadsAs sym text values) :
    ReadsAs sym ('(' :: (text ++ [')'])) [Value.ofList values] := by
  obtain ⟨ts, items, hitems, rfl, hwords⟩ := h
  have hlist : Items sym (word .leftParen "(" :: (ts ++ word .rightParen ")" :: []))
      [.list items] := .list rfl hitems rfl .nil
  refine ⟨_, _, hlist, ?_, fun rest hrest => ?_⟩
  · rw [List.map_singleton, Literal.toValue, Literal.listValue_eq]
  · have hinner := hwords (')' :: rest) (divided_cons (by decide) rest)
    simp only [List.cons_append, List.append_assoc, List.nil_append]
    rw [words_leftParen, hinner, words_rightParen]

/-- An item that is quoted denotes an expression with its value, if it is a symbol or a list. -/
private theorem exists_statement {q : Token} (hq : q.kind = .quote) {ts : List Token}
    {item : Literal}
    (h : Items sym ts [item]) (htype : item.toValue.type = .symbol ∨ item.toValue.type = .pair) :
    ∃ e, Statement sym (q :: ts) e ∧
      ∀ cx frame s, evaluate cx e frame s = .value item.toValue s := by
  -- A single item is a symbol or a list, by the type of its value.
  cases h with
  | atom hitem hitems =>
    cases hitems
    cases hitem with
    | symbol ht => exact ⟨_, .quoted hq ht, fun _ _ _ => rfl⟩
    | number | string | boolean => rcases htype with h | h <;> cases h
  | list hl hinner hr hitems =>
    cases hitems
    exact ⟨_, .data hq hl hinner hr, fun _ _ _ => rfl⟩

end ReadsAs

/-! ### Plain values -/

namespace Value

/-- The value is an atom, or a list of such values with something in it. -/
inductive Plain (symbols : SymbolTable) : Value → Prop where
  | atom {kind : TokenKind} {v : Value} (h : IsAtom symbols kind v) : Plain symbols v
  | list {items : List Value} (hne : items ≠ []) (hitems : ∀ v ∈ items, Plain symbols v) :
    Plain symbols (.ofList items)

variable {symbols : SymbolTable} {v : Value}

/-- A list of data is data. -/
private theorem isData_ofList {items : List Value} (h : ∀ v ∈ items, IsData symbols v) :
    IsData symbols (.ofList items) := by
  induction items with
  | nil => exact .null
  | cons item items ih =>
    obtain ⟨hitem, hitems⟩ := List.forall_mem_cons.mp h
    exact .pair hitem (ih hitems)

/-- Plain values are data. -/
private theorem Plain.isData (h : Plain symbols v) : IsData symbols v := by
  induction h with
  | atom h => exact .atom h
  | list _ _ ih => exact isData_ofList ih

/-- The numbers in an item of a list are numbers in the list. -/
private theorem numbers_subset_of_mem {items : List Value} (h : v ∈ items) :
    v.numbers ⊆ (ofList items).numbers := by
  induction items with
  | nil => exact absurd h List.not_mem_nil
  | cons item items ih =>
    rw [ofList_cons, numbers]
    rcases List.mem_cons.mp h with rfl | h
    · exact List.subset_append_left _ _
    · exact List.subset_append_of_subset_right _ (ih h)

/-- The names of its symbols and so the text of data stay the same when the table grows. -/
private theorem IsData.render_internAll (h : IsData symbols v) (names : List String) :
    v.render (symbols.internAll names) = v.render symbols := by
  -- The text depends on the names of the symbols only, and names stay.
  refine render_congr ?_
  induction h with
  | null => exact List.forall_mem_nil _
  | pair _ _ hcar hcdr => exact List.forall_mem_append.mpr ⟨hcar, hcdr⟩
  | atom h =>
    cases h with
    | boolean | number => exact List.forall_mem_nil _
    | symbol hname ha =>
      have hkept := SymbolTable.get?_internAll_of_get? ha names
      refine List.forall_mem_singleton.mpr ?_
      rw [SymbolTable.nameOf, SymbolTable.nameOf, SymbolTable.name?_of_get? ha,
        SymbolTable.name?_of_get? hkept]

variable {sym : String → Symbol} (hagrees : Agrees sym symbols)

include hagrees

/-- The text of an atom is read as one item with its value. -/
private theorem IsAtom.readsAs {kind : TokenKind} (h : IsAtom symbols kind v)
    (hnumbers : ∀ x ∈ v.numbers, Number.read? (Number.render x) = some x) :
    ReadsAs sym (v.render symbols).toList [v] := by
  obtain ⟨hne, -⟩ := h.lexeme_eq
  obtain ⟨l, hatom, hl⟩ : ∃ l,
      Atom sym (word kind (v.render symbols)) l ∧ l.toValue = v := by
    cases h with
    | boolean b =>
      refine ⟨_, .boolean rfl, ?_⟩
      cases b <;> simp [Literal.toValue, word]
    | @number x hx =>
      -- The number is read back as itself; this is what is assumed of its text.
      rw [render_number]
      exact ⟨_, .number rfl (hnumbers x List.mem_cons_self), rfl⟩
    | symbol hname ha =>
      rw [render_symbol ha]
      exact ⟨_, .symbol rfl, congrArg Value.symbol (hagrees _ _ ha)⟩
  refine ⟨[word kind (v.render symbols)], [l], .atom hatom .nil,
    by rw [List.map_singleton, hl], fun rest hrest => ?_⟩
  have htrivia : kind.isTrivia = false := by cases h <;> rfl
  rw [words_of_lexeme (List.append_ne_nil_of_left_ne_nil hne rest) (h.lexeme_append hrest) htrivia,
    String.ofList_toList, List.singleton_append]

omit hagrees in
/-- What follows the first item of a list is divided off from it, and is that of the others. -/
private theorem readsAs_renderTail {items : List Value}
    (h : ∀ v ∈ items, ReadsAs sym (v.render symbols).toList [v]) :
    Divided ((ofList items).renderTail symbols).toList ∧
      ReadsAs sym ((ofList items).renderTail symbols).toList items := by
  -- Induction on the items: each one stands after a space.
  induction items with
  | nil => exact ⟨divided_nil, .nil⟩
  | cons item items ih =>
    obtain ⟨hitem, hitems⟩ := List.forall_mem_cons.mp h
    obtain ⟨hdivided, htail⟩ := ih hitems
    have htext : ((ofList (item :: items)).renderTail symbols).toList =
        ' ' :: ((item.render symbols).toList ++ ((ofList items).renderTail symbols).toList) := by
      simp [renderTail]
    rw [htext]
    exact ⟨divided_cons (by decide) _, (hitem.append htail hdivided).space⟩

/-- The text of a plain value is that of an item with the value. -/
theorem Plain.readsAs (h : Plain symbols v)
    (hnumbers : ∀ x ∈ v.numbers, Number.read? (Number.render x) = some x) :
    -- Induction on the value; a list is the text of its first item, and of its tail, in
    -- parentheses.
    ReadsAs sym (v.render symbols).toList [v] := by
  induction h with
  | atom h => exact h.readsAs hagrees hnumbers
  | @list items hne hitems ih =>
    have hall : ∀ v ∈ items, ReadsAs sym (v.render symbols).toList [v] := fun v hv =>
      ih v hv fun x hx => hnumbers x (numbers_subset_of_mem hv hx)
    obtain ⟨item, items, rfl⟩ := List.exists_cons_of_ne_nil hne
    obtain ⟨hitem, hitems⟩ := List.forall_mem_cons.mp hall
    obtain ⟨hdivided, htail⟩ := readsAs_renderTail hitems
    have htext : ((ofList (item :: items)).render symbols).toList =
        '(' :: ((item.render symbols).toList ++ ((ofList items).renderTail symbols).toList ++
          [')']) := by
      simp [render]
    rw [htext]
    exact (hitem.append htail hdivided).list

end Value

/-! ### Quoted texts -/

/-- A text whose words the grammar derives a program from is read as that program. -/
private theorem readProgram_of_program {symbols : SymbolTable} {text : String} {program : List Expr}
    (h : Program (symbols.internTokens (words text.toList)).symbolOf (words text.toList) program) :
    readProgram symbols text = ⟨.ok program, symbols.internTokens (words text.toList)⟩ := by
  have hfeeds := h.feeds Assembly.collects_statements [] (agrees_symbolOf _)
  rw [List.append_nil] at hfeeds
  exact readProgram_eq_ok_iff.mpr hfeeds

namespace Value

variable {env : Environment} {v : Value}

/-- The quoted text of a plain value that is a symbol or a list is read as one expression, which
    evaluates to the value and changes nothing. -/
theorem Plain.read_quoted (hplain : v.Plain env.symbols)
    (htype : v.type = .symbol ∨ v.type = .pair)
    (hnumbers : ∀ x ∈ v.numbers, Number.read? (Number.render x) = some x)
    (interpreter : Interpreter) :
    ∃ e, interpreter.read env ("'" ++ v.render env.symbols) = .ok [e] ∧
      ∀ cx frame s, LispSession.evaluate cx e frame s = .value v s := by
  let installed := (interpreter.registry.install env).symbols
  let text := ("'" ++ v.render env.symbols).toList
  let table := installed.internTokens (words text)
  -- The names of the symbols are known before the text is read.
  have hagrees : Agrees table.symbolOf env.symbols := by
    intro name a ha
    have hinstalled : installed.get? name = some a := by
      simp only [installed, Environment.symbols_install]
      exact SymbolTable.get?_internAll_of_get? ha _
    exact agrees_symbolOf table name a (SymbolTable.get?_internTokens_of_get? hinstalled _)
  obtain ⟨ts, items, hitems, hvalues, hwords⟩ := hplain.readsAs hagrees hnumbers
  obtain ⟨item, rfl, rfl⟩ := List.map_eq_singleton_iff.mp hvalues
  have hvalue := hwords [] divided_nil
  rw [List.append_nil, words_nil, List.append_nil] at hvalue
  have htext : words text = word .quote "'" :: ts := by
    have hmark : text = '\'' :: (item.toValue.render env.symbols).toList := by simp [text]
    rw [hmark, words_quote, hvalue]
  have hquote : (word .quote "'").kind = .quote := rfl
  obtain ⟨e, hstatement, hevaluate⟩ := ReadsAs.exists_statement hquote hitems htype
  have hprogram : Program table.symbolOf (words text) [e] := by
    rw [htext, ← List.append_nil (_ :: ts)]
    exact .cons hstatement .nil
  exact ⟨e, congrArg Reading.program (readProgram_of_program hprogram), hevaluate⟩

/-- The text of data stays the same when another text is read. -/
private theorem IsData.render_prepare (h : v.IsData env.symbols) (interpreter : Interpreter)
    (text : String) : v.render (interpreter.prepare env text).symbols = v.render env.symbols := by
  obtain ⟨names, hnames⟩ :=
    exists_names_readProgram (interpreter.registry.install env).symbols text
  have hsymbols : (interpreter.prepare env text).symbols =
      env.symbols.internAll (interpreter.registry.names ++ names) := by
    rw [SymbolTable.internAll_append, ← Environment.symbols_install, ← hnames]
    rfl
  rw [hsymbols, h.render_internAll]

/-- The quoted text of a plain value that is a symbol or a list is evaluated to the value, and the
    same text is printed again, if its numbers are read from their texts as they are. -/
theorem Plain.evaluate_quoted (interpreter : Interpreter) {env : Environment} {v : Value}
    (hplain : v.Plain env.symbols) (htype : v.type = .symbol ∨ v.type = .pair)
    (hnumbers : ∀ x ∈ v.numbers, Number.read? (Number.render x) = some x) :
    let text := "'" ++ v.render env.symbols
    ∃ e w s, interpreter.read env text = .ok [e] ∧
      evaluate interpreter.context e .global ⟨interpreter.prepare env text, #[]⟩ = .value w s ∧
        w = v ∧ w.equal v = true ∧
          interpreter.evaluate env text = ⟨#[v.render env.symbols], none, s.env⟩ := by
  intro text
  -- The text is read as a quote, which evaluates to the value; the table has grown, but the text
  -- stays.
  obtain ⟨e, hread, hevaluate⟩ := hplain.read_quoted htype hnumbers interpreter
  refine ⟨e, _, _, hread, hevaluate _ _ _, rfl, hplain.isData.equal_self, ?_⟩
  rw [Interpreter.evaluate_of_ok hread]
  simp only [runStatements, hevaluate, State.write, State.render]
  rw [hplain.isData.render_prepare]
  rfl

end Value

/-- A list with a list in it, and with names that start as a keyword and a number do. -/
theorem evaluate_quoted_nested :
    let env : Environment := { Environment.new with symbols := ⟨#["iff", "-"]⟩ }
    let evaluation := (Interpreter.ofConfig .default).evaluate env "'(- (#t -2.5) iff)"
    evaluation.output = #["(- (#t -2.5) iff)"] ∧ evaluation.error = none := by
  intro env evaluation
  let v := Value.ofList
    [.symbol ⟨1⟩, .ofList [.boolean true, .number (-2.5)], .symbol ⟨0⟩]
  have hminus : IsToken .symbol "-" := by decide +kernel
  have hiff : IsToken .symbol "iff" := by decide +kernel
  have hnumber : Value.IsAtom env.symbols .number (.number (-2.5)) := .number (by decide +kernel)
  have hplain : v.Plain env.symbols := by
    refine .list (List.cons_ne_nil _ _) (List.forall_mem_cons.mpr ⟨?_, List.forall_mem_cons.mpr
      ⟨?_, List.forall_mem_singleton.mpr ?_⟩⟩)
    · exact .atom (.symbol hminus (by decide +kernel))
    · exact .list (List.cons_ne_nil _ _) (List.forall_mem_cons.mpr
        ⟨.atom (.boolean true), List.forall_mem_singleton.mpr (.atom hnumber)⟩)
    · exact .atom (.symbol hiff (by decide +kernel))
  have hrender : v.render env.symbols = "(- (#t -2.5) iff)" := by decide +kernel
  have hnumbers : ∀ x ∈ v.numbers, Number.read? (Number.render x) = some x :=
    List.forall_mem_singleton.mpr (by decide +kernel)
  obtain ⟨_, _, _, _, _, _, _, h⟩ :=
    Value.Plain.evaluate_quoted (Interpreter.ofConfig .default) hplain (.inr rfl) hnumbers
  rw [hrender] at h
  exact ⟨congrArg Evaluation.output h, congrArg Evaluation.error h⟩

end LispSession
