import LispSession.Proofs.Grammar.Basic

/-!
# The steps of the assembly

`Fits a t b` lists the ways in which a token fits into an assembly, and what becomes of
it. Every step that succeeds is one of them, so that what all steps have in common is
proved by cases.

* `fits_of_step`    every step that succeeds is one of these
* `step_of_fits`    each of these is a step that succeeds
* `symbols_step`    the token is interned if it is a symbol, and nothing else
* `symbols_feed`    the same for tokens in order
* `finish_eq_ok_iff`  when the input may end
-/

namespace LispSession

/-- The innermost open form may take an expression; it does not only wait for its end. -/
def Takes : List OpenForm → Prop
  | .complete _ :: _ => False
  | _ => True

namespace Assembly

/-- The assembly with the name of a symbol token interned. -/
def meet (a : Assembly) (t : Token) : Assembly :=
  { a with symbols := a.symbols.internToken t }

/-- A token fits into an assembly, with this result. -/
inductive Fits (a : Assembly) (t : Token) : Assembly → Prop where
  | atom {l : Literal} (ha : a.expecting = .expression) (htakes : Takes a.forms)
      (hatom : Grammar.Atom a.symbols.symbolOf t l) :
    Fits a t ((a.meet t).deliver l.toExpr a.forms)
  | quote (ha : a.expecting = .expression) (htakes : Takes a.forms) (ht : t.kind = .quote) :
    Fits a t (a.expect .quoted)
  | opening (ha : a.expecting = .expression) (htakes : Takes a.forms)
      (ht : t.kind = .leftParen) : Fits a t (a.expect .head)
  | closeComplete {form : Expr} {forms : List OpenForm} (ha : a.expecting = .expression)
      (hforms : a.forms = .complete form :: forms) (ht : t.kind = .rightParen) :
    Fits a t (a.deliver form forms)
  | closeSequence {taken : List Expr} {forms : List OpenForm} (ha : a.expecting = .expression)
      (hforms : a.forms = .sequence taken :: forms) (hne : taken ≠ [])
      (ht : t.kind = .rightParen) : Fits a t (a.deliver (.sequence taken.reverse) forms)
  | closeBody {use : FunctionUse} {params : List Symbol} {taken : List Expr}
      {forms : List OpenForm} (ha : a.expecting = .expression)
      (hforms : a.forms = .body use params taken :: forms) (hne : taken ≠ [])
      (ht : t.kind = .rightParen) :
    Fits a t (a.deliverFunction use (.mk params taken.reverse) forms)
  | closeApply {operator : Operator} {taken : List Expr} {forms : List OpenForm}
      (ha : a.expecting = .expression) (hforms : a.forms = .apply operator taken :: forms)
      (ht : t.kind = .rightParen) : Fits a t (a.deliver (.apply operator taken.reverse) forms)
  | define (ha : a.expecting = .head) (ht : t.kind = .keyword .define) :
    Fits a t (a.expect .definition)
  | lambda (ha : a.expecting = .head) (ht : t.kind = .keyword .lambda) :
    Fits a t (a.expect (.params .expression))
  | branch (ha : a.expecting = .head) (ht : t.kind = .keyword .branch) :
    Fits a t (a.within (.branch :: a.forms))
  | sequence (ha : a.expecting = .head) (ht : t.kind = .keyword .sequence) :
    Fits a t (a.within (.sequence [] :: a.forms))
  | assign (ha : a.expecting = .head) (ht : t.kind = .keyword .assign) :
    Fits a t (a.expect .assigned)
  | cons (ha : a.expecting = .head) (ht : t.kind = .keyword .cons) :
    Fits a t (a.within (.cons :: a.forms))
  | function (ha : a.expecting = .head) (ht : t.kind = .leftParen) :
    Fits a t (a.expect .operator)
  | call (ha : a.expecting = .head) (ht : t.kind = .symbol) :
    Fits a t ((a.meet t).within (.apply (.variable (a.symbols.symbolOf t.text)) [] :: a.forms))
  | operator (ha : a.expecting = .operator) (ht : t.kind = .keyword .lambda) :
    Fits a t (a.expect (.params .operator))
  | openDefinition (ha : a.expecting = .definition) (ht : t.kind = .leftParen) :
    Fits a t (a.expect .functionName)
  | defined (ha : a.expecting = .definition) (ht : t.kind = .symbol) :
    Fits a t ((a.meet t).within (.define (a.symbols.symbolOf t.text) :: a.forms))
  | functionName (ha : a.expecting = .functionName) (ht : t.kind = .symbol) :
    Fits a t ((a.meet t).expect (.param (.definition (a.symbols.symbolOf t.text)) []))
  | assigned (ha : a.expecting = .assigned) (ht : t.kind = .symbol) :
    Fits a t ((a.meet t).within (.assign (a.symbols.symbolOf t.text) :: a.forms))
  | openParams {use : FunctionUse} (ha : a.expecting = .params use) (ht : t.kind = .leftParen) :
    Fits a t (a.expect (.param use []))
  | param {use : FunctionUse} {taken : List Symbol} (ha : a.expecting = .param use taken)
      (ht : t.kind = .symbol) (hnew : a.symbols.symbolOf t.text ∉ taken) :
    Fits a t ((a.meet t).expect (.param use (a.symbols.symbolOf t.text :: taken)))
  | closeParams {use : FunctionUse} {taken : List Symbol} (ha : a.expecting = .param use taken)
      (ht : t.kind = .rightParen) : Fits a t (a.within (.body use taken.reverse [] :: a.forms))
  | quoted (ha : a.expecting = .quoted) (ht : t.kind = .symbol) :
    Fits a t ((a.meet t).deliver (.quoted (a.symbols.symbolOf t.text)) a.forms)
  | openData (ha : a.expecting = .quoted) (ht : t.kind = .leftParen) :
    Fits a t (a.expect (.item [] []))
  | item {taken : List Literal} {outer : List (List Literal)} {l : Literal}
      (ha : a.expecting = .item taken outer) (hatom : Grammar.Atom a.symbols.symbolOf t l) :
    Fits a t ((a.meet t).expect (.item (l :: taken) outer))
  | openItem {taken : List Literal} {outer : List (List Literal)}
      (ha : a.expecting = .item taken outer) (ht : t.kind = .leftParen) :
    Fits a t (a.expect (.item [] (taken :: outer)))
  | closeItem {taken around : List Literal} {outer : List (List Literal)}
      (ha : a.expecting = .item taken (around :: outer)) (ht : t.kind = .rightParen) :
    Fits a t (a.expect (.item (.list taken.reverse :: around) outer))
  | closeData {taken : List Literal} (ha : a.expecting = .item taken [])
      (ht : t.kind = .rightParen) : Fits a t (a.deliver (.data taken.reverse) a.forms)

/-- A symbol is named by the table, and its name is in the table afterwards. -/
private theorem intern_of_symbol {a : Assembly} {t : Token} (ht : t.kind = .symbol) :
    a.intern t = (a.symbols.symbolOf t.text, a.meet t) := by
  simp only [intern, meet, SymbolTable.symbolOf, SymbolTable.internToken_of_symbol ht]

/-- Other tokens leave the table as it is. -/
private theorem meet_of_not_symbol {a : Assembly} {t : Token} (ht : t.kind ≠ .symbol) :
    a.meet t = a := by
  simp only [meet, SymbolTable.internToken_of_not_symbol ht]

/-- The literals of tokens are those of atoms. -/
private theorem atom_of_literal {a b : Assembly} {t : Token} {l : Literal}
    (h : a.literal t = .ok (l, b)) : Grammar.Atom a.symbols.symbolOf t l ∧ b = a.meet t := by
  -- By the kind of token; a number must also be readable.
  unfold literal at h
  split at h
  · rename_i ht
    rw [intern_of_symbol ht] at h
    cases h
    exact ⟨.symbol ht, rfl⟩
  · rename_i ht
    cases h
    exact ⟨.boolean ht, (meet_of_not_symbol (by simp [ht])).symm⟩
  · rename_i ht
    cases h
    exact ⟨.string ht, (meet_of_not_symbol (by simp [ht])).symm⟩
  · rename_i ht
    split at h
    · rename_i x hread
      cases h
      exact ⟨.number ht hread, (meet_of_not_symbol (by simp [ht])).symm⟩
    · cases h
  · cases h

/-- A token that denotes a literal is read as that literal. -/
private theorem literal_of_atom {a : Assembly} {t : Token} {l : Literal}
    (h : Grammar.Atom a.symbols.symbolOf t l) : a.literal t = .ok (l, a.meet t) := by
  unfold literal
  cases h with
  | number ht hread =>
    have hmeet : a.meet t = a := meet_of_not_symbol (by simp [ht])
    simp only [ht, hread, hmeet]
  | string ht =>
    have hmeet : a.meet t = a := meet_of_not_symbol (by simp [ht])
    simp only [ht, hmeet]
  | boolean ht =>
    have hmeet : a.meet t = a := meet_of_not_symbol (by simp [ht])
    simp only [ht, hmeet]
  | symbol ht => simp only [ht, intern_of_symbol ht]

/-! ### Every step is one of these -/

/-- A parenthesis that closes a form fits where the form may end. -/
private theorem fits_of_close {a b : Assembly} {t : Token} (ha : a.expecting = .expression)
    (ht : t.kind = .rightParen) (h : a.close = .ok b) : Fits a t b := by
  unfold close at h
  split at h <;> cases h
  · rename_i hne hforms
    exact .closeSequence ha hforms hne ht
  · rename_i hne hforms
    exact .closeBody ha hforms hne ht
  · rename_i hforms
    exact .closeApply ha hforms ht
  · rename_i hforms
    exact .closeComplete ha hforms ht

/-- A literal fits wherever an expression does. -/
theorem fits_of_literal {a b : Assembly} {t : Token} (ha : a.expecting = .expression)
    (htakes : Takes a.forms)
    (h : (match a.literal t with
      | .ok (l, a') => .ok (a'.deliver l.toExpr a.forms)
      | .error misfit => .error misfit) = Except.ok b) : Fits a t b := by
  split at h
  · rename_i l a' hliteral
    cases h
    obtain ⟨hatom, rfl⟩ := atom_of_literal hliteral
    exact .atom ha htakes hatom
  · cases h

/-- A token that is taken where an expression is expected fits there. -/
private theorem fits_of_stepExpression {a b : Assembly} {t : Token} (ha : a.expecting = .expression)
    (h : a.stepExpression t = .ok b) : Fits a t b := by
  unfold stepExpression at h
  split at h
  -- A form whose parts are all there takes nothing but its end.
  · rename_i form forms hforms
    split at h
    · rename_i ht
      cases h
      exact .closeComplete ha hforms ht
    · cases h
  · rename_i hnot
    have htakes : Takes a.forms := by
      unfold Takes
      split
      · rename_i form forms hforms
        exact hnot form forms hforms
      · trivial
    -- Where an expression is expected, the kind of the token decides which case of the relation it
    -- is.
    split at h
    · exact fits_of_literal ha htakes h
    · exact fits_of_literal ha htakes h
    · exact fits_of_literal ha htakes h
    · exact fits_of_literal ha htakes h
    · rename_i ht
      cases h
      exact .quote ha htakes ht
    · rename_i ht
      cases h
      exact .opening ha htakes ht
    · rename_i ht
      exact fits_of_close ha ht h
    · cases h

/-- A token after the opening parenthesis fits if it names a form, a call or a function in place. -/
private theorem fits_of_stepHead {a b : Assembly} {t : Token} (ha : a.expecting = .head)
    (h : a.stepHead t = .ok b) : Fits a t b := by
  unfold stepHead at h
  -- One case for each word that a form may begin with; any other name is that of a function.
  split at h
  · rename_i ht
    cases h
    exact .define ha ht
  · rename_i ht
    cases h
    exact .lambda ha ht
  · rename_i ht
    cases h
    exact .branch ha ht
  · rename_i ht
    cases h
    exact .sequence ha ht
  · rename_i ht
    cases h
    exact .assign ha ht
  · rename_i ht
    cases h
    exact .cons ha ht
  · rename_i ht
    cases h
    exact .function ha ht
  · rename_i ht
    rw [intern_of_symbol ht] at h
    cases h
    exact .call ha ht
  · cases h

/-- A token among the parameters fits if it is a new name or closes them. -/
private theorem fits_of_stepParam {a b : Assembly} {t : Token} {use : FunctionUse}
    {taken : List Symbol}
    (ha : a.expecting = .param use taken) (h : a.stepParam use taken t = .ok b) :
    Fits a t b := by
  unfold stepParam at h
  split at h
  · rename_i ht
    cases h
    exact .closeParams ha ht
  · rename_i ht
    rw [intern_of_symbol ht] at h
    simp only at h
    split at h
    · cases h
    · rename_i hnew
      cases h
      exact .param ha ht hnew
  · cases h

/-- A token in quoted data fits if it is an atom, or opens or closes a list. -/
private theorem fits_of_stepItem {a b : Assembly} {t : Token} {taken : List Literal}
    {outer : List (List Literal)} (ha : a.expecting = .item taken outer)
    (h : a.stepItem taken outer t = .ok b) : Fits a t b := by
  unfold stepItem at h
  split at h
  · rename_i ht
    cases h
    exact .openItem ha ht
  · rename_i ht
    split at h
    · cases h
      exact .closeData ha ht
    · cases h
      exact .closeItem ha ht
  · split at h
    · rename_i l a' hliteral
      cases h
      obtain ⟨hatom, rfl⟩ := atom_of_literal hliteral
      exact .item ha hatom
    · cases h

/-- Every step that succeeds is one of those listed. -/
theorem fits_of_step {a b : Assembly} {t : Token} (h : a.step t = .ok b) : Fits a t b := by
  -- One case for each thing that may be expected; the branches that refuse the token are empty.
  unfold step at h
  split at h
  · rename_i ha
    exact fits_of_stepExpression ha h
  · rename_i ha
    exact fits_of_stepHead ha h
  · rename_i ha
    split at h
    · rename_i ht
      cases h
      exact .operator ha ht
    · cases h
  · rename_i ha
    split at h
    · rename_i ht
      cases h
      exact .openDefinition ha ht
    · rename_i ht
      rw [intern_of_symbol ht] at h
      cases h
      exact .defined ha ht
    · cases h
  · rename_i ha
    split at h
    · rename_i ht
      rw [intern_of_symbol ht] at h
      cases h
      exact .functionName ha ht
    · cases h
  · rename_i ha
    split at h
    · rename_i ht
      rw [intern_of_symbol ht] at h
      cases h
      exact .assigned ha ht
    · cases h
  · rename_i use ha
    split at h
    · rename_i ht
      cases h
      exact .openParams ha ht
    · cases h
  · rename_i use taken ha
    exact fits_of_stepParam ha h
  · rename_i ha
    split at h
    · rename_i ht
      cases h
      exact .openData ha ht
    · rename_i ht
      rw [intern_of_symbol ht] at h
      cases h
      exact .quoted ha ht
    · cases h
  · rename_i taken outer ha
    exact fits_of_stepItem ha h

/-! ### Each of these is a step -/

/-- Where a form takes another part, the kind of the token alone decides the step. -/
theorem stepExpression_of_takes {a : Assembly} {t : Token} (htakes : Takes a.forms) :
    a.stepExpression t =
      match t.kind with
      | .symbol | .number | .boolean | .string =>
        match a.literal t with
        | .ok (l, a') => .ok (a'.deliver l.toExpr a.forms)
        | .error misfit => .error misfit
      | .quote => .ok (a.expect .quoted)
      | .leftParen => .ok (a.expect .head)
      | .rightParen => a.close
      | _ => .error (.unexpected .opening) := by
  unfold stepExpression
  split
  · rename_i form forms hforms
    rw [hforms] at htakes
    cases htakes
  · rfl

/-- Each of the steps listed succeeds. -/
theorem step_of_fits {a b : Assembly} {t : Token} (h : Fits a t b) : a.step t = .ok b := by
  cases h with
  | atom ha htakes hatom =>
    have hliteral := literal_of_atom hatom
    unfold step
    rw [ha]
    show a.stepExpression t = _
    rw [stepExpression_of_takes htakes]
    -- Which branch is taken depends on the kind of the token.
    cases hatom with
    | number ht | string ht | boolean ht | symbol ht => simp only [ht, hliteral]
  | quote ha htakes ht => simp only [step, ha, stepExpression_of_takes htakes, ht]
  | opening ha htakes ht => simp only [step, ha, stepExpression_of_takes htakes, ht]
  | closeComplete ha hforms ht => simp only [step, ha, stepExpression, hforms, ht, if_true]
  | closeSequence ha hforms hne ht =>
    simp only [step, ha, stepExpression, hforms, ht, close]
  | closeBody ha hforms hne ht =>
    simp only [step, ha, stepExpression, hforms, ht, close]
  | closeApply ha hforms ht =>
    simp only [step, ha, stepExpression, hforms, ht, close]
  | define ha ht | lambda ha ht | branch ha ht | sequence ha ht | assign ha ht | cons ha ht
  | function ha ht => simp only [step, ha, stepHead, ht]
  | call ha ht => simp only [step, ha, stepHead, ht, intern_of_symbol ht]; rfl
  | operator ha ht => simp only [step, ha, ht, if_true]
  | openDefinition ha ht => simp only [step, ha, ht]
  | defined ha ht => simp only [step, ha, ht, intern_of_symbol ht]; rfl
  | functionName ha ht => simp only [step, ha, ht, intern_of_symbol ht]
  | assigned ha ht => simp only [step, ha, ht, intern_of_symbol ht]; rfl
  | openParams ha ht => simp only [step, ha, ht, if_true]
  | param ha ht hnew => simp only [step, ha, stepParam, ht, intern_of_symbol ht, if_neg hnew]
  | closeParams ha ht => simp only [step, ha, stepParam, ht]
  | quoted ha ht => simp only [step, ha, ht, intern_of_symbol ht]; rfl
  | openData ha ht => simp only [step, ha, ht]
  | item ha hatom =>
    have hliteral := literal_of_atom hatom
    cases hatom with
    | number ht | string ht | boolean ht | symbol ht =>
      simp only [step, ha, stepItem, ht, hliteral]
  | openItem ha ht | closeItem ha ht | closeData ha ht => simp only [step, ha, stepItem, ht]

/-! ### The symbols -/

/-- Handing an expression to the forms around it names nothing. -/
@[simp] theorem symbols_deliver (a : Assembly) (e : Expr) (forms : List OpenForm) :
    (a.deliver e forms).symbols = a.symbols := by
  unfold deliver
  split <;> rfl

/-- Handing a function to its use names nothing. -/
@[simp] theorem symbols_deliverFunction (a : Assembly) (use : FunctionUse) (fn : Lambda)
    (forms : List OpenForm) : (a.deliverFunction use fn forms).symbols = a.symbols := by
  cases use with
  | operator => rfl
  | expression => exact symbols_deliver a _ forms
  | definition name => exact symbols_deliver a _ forms

/-- A step interns the name of a symbol token and nothing else. -/
theorem symbols_step {a b : Assembly} {t : Token} (h : a.step t = .ok b) :
    b.symbols = a.symbols.internToken t := by
  cases fits_of_step h with
  | atom | call | defined | functionName | assigned | param | quoted | item =>
    simp [meet, within, expect]
  | _ => simp_all [SymbolTable.internToken, within, expect]

/-- Reading tokens interns the names of their symbols, in order, and no others. -/
theorem symbols_feed {a b : Assembly} {tokens : List Token} (h : a.feed tokens = (b, none)) :
    b.symbols = a.symbols.internTokens tokens := by
  induction tokens generalizing a with
  | nil =>
    cases h
    rfl
  | cons t tokens ih =>
    cases hstep : a.step t with
    | error misfit =>
      rw [feed_cons_of_error hstep] at h
      cases h
    | ok c =>
      rw [feed_cons_of_ok hstep] at h
      rw [ih h, symbols_step hstep, SymbolTable.internTokens_cons]

/-! ### The end of the input -/

/-- The input may end where no form is open, and the statements are the program then. -/
theorem finish_eq_ok_iff {a : Assembly} {last : Token} (hlast : last.kind = .endOfInput)
    {program : List Expr} :
    a.finish last = .ok program ↔ a.isComplete = true ∧ a.statements.reverse = program := by
  obtain ⟨misfit, hmisfit⟩ := a.step_endOfInput hlast
  unfold finish
  by_cases hcomplete : a.isComplete = true
  · simp [hcomplete]
  · simp [hcomplete, hmisfit]

end Assembly

end LispSession
