import LispSession.Proofs.Grammar.Step

/-!
# Everything the grammar derives is read

The tokens of a statement, fed to an assembly that may take an expression, lead to the
assembly that has taken what the statement denotes; and likewise for each other kind of
phrase. The symbols are those of any table that agrees with the one reached at the end.

* `Grammar.Statement.feeds`   one statement, wherever an expression may stand
* `Grammar.Statements.feeds`  any number of them, where any number may stand
-/

namespace LispSession

namespace Assembly

/-- The tokens fit in order, and this is the result. -/
def Feeds (a : Assembly) (ts : List Token) (b : Assembly) : Prop := a.feed ts = (b, none)

/-- No tokens change nothing. -/
theorem Feeds.nil (a : Assembly) : Feeds a [] a := rfl

/-- A token that fits, and others that are taken after it, are taken one after the other. -/
theorem Feeds.cons {a b c : Assembly} {t : Token} {ts : List Token} (h : Fits a t b)
    (hs : Feeds b ts c) : Feeds a (t :: ts) c := by
  unfold Feeds
  rw [feed_cons_of_ok (step_of_fits h)]
  exact hs

/-- Tokens are taken in two parts. -/
theorem Feeds.append {a b c : Assembly} {ts us : List Token} (h : Feeds a ts b)
    (hs : Feeds b us c) : Feeds a (ts ++ us) c := by
  unfold Feeds at h ⊢
  rw [feed_append, h]
  exact hs

/-- The assembly that has taken an expression, with these forms open before. -/
def given (e : Expr) (forms : List OpenForm) (statements : List Expr) (symbols : SymbolTable) :
    Assembly :=
  deliver ⟨.expression, forms, statements, symbols⟩ e forms

/-- The assembly that has taken a function for its use. -/
def givenFunction (use : FunctionUse) (fn : Lambda) (forms : List OpenForm)
    (statements : List Expr) (symbols : SymbolTable) : Assembly :=
  deliverFunction ⟨.expression, forms, statements, symbols⟩ use fn forms

/-- Only the statements and the symbols matter when an expression is taken. -/
theorem deliver_eq_given (a : Assembly) (e : Expr) (forms : List OpenForm) :
    a.deliver e forms = given e forms a.statements a.symbols := by
  unfold given deliver
  split <;> rfl

/-- A function handed to its use is what the use makes of it. -/
private theorem deliverFunction_eq_given (a : Assembly) (use : FunctionUse) (fn : Lambda)
    (forms : List OpenForm) :
    a.deliverFunction use fn forms = givenFunction use fn forms a.statements a.symbols := by
  cases use with
  | operator => rfl
  | expression => exact deliver_eq_given a _ forms
  | definition name => exact deliver_eq_given a _ forms

/-- Nothing more is needed once an expression is taken. -/
private theorem feeds_deliver (a : Assembly) (e : Expr) (forms : List OpenForm) :
    Feeds (a.deliver e forms) [] (given e forms a.statements a.symbols) := by
  rw [deliver_eq_given]
  exact .nil _

section

variable {forms : List OpenForm} {statements : List Expr} {symbols : SymbolTable} {r : Token}

/-- The end of a form whose parts are all there. -/
private theorem feeds_close {e : Expr} (hr : r.kind = .rightParen) :
    Feeds ⟨.expression, .complete e :: forms, statements, symbols⟩ [r]
      (given e forms statements symbols) :=
  .cons (.closeComplete rfl rfl hr) (feeds_deliver _ _ _)

/-- The end of a sequence. -/
private theorem feeds_closeSequence {body : List Expr} (hne : body ≠ [])
    (hr : r.kind = .rightParen) :
    Feeds ⟨.expression, .sequence body.reverse :: forms, statements, symbols⟩ [r]
      (given (.sequence body) forms statements symbols) := by
  have hne' : body.reverse ≠ [] := fun h => hne (List.reverse_eq_nil_iff.mp h)
  refine .cons (.closeSequence rfl rfl hne' hr) ?_
  rw [List.reverse_reverse]
  exact feeds_deliver _ _ _

/-- The end of the arguments. -/
private theorem feeds_closeApply (operator : Operator) (args : List Expr)
    (hr : r.kind = .rightParen) :
    Feeds ⟨.expression, .apply operator args.reverse :: forms, statements, symbols⟩ [r]
      (given (.apply operator args) forms statements symbols) := by
  refine .cons (.closeApply rfl rfl hr) ?_
  rw [List.reverse_reverse]
  exact feeds_deliver _ _ _

end

/-- A place that takes any number of expressions, and what the forms and the statements
    are there when some have been taken, latest first. -/
structure Collects (forms : List Expr → List OpenForm) (statements : List Expr → List Expr) :
    Prop where
  takes : ∀ taken, Takes (forms taken)
  given_eq : ∀ e taken symbols, given e (forms taken) (statements taken) symbols =
    ⟨.expression, forms (e :: taken), statements (e :: taken), symbols⟩

/-- One expression and the others after it. -/
private theorem Collects.feeds_cons {forms : List Expr → List OpenForm}
    {statements : List Expr → List Expr} (h : Collects forms statements) {taken es : List Expr}
    {e : Expr} {ts us : List Token} {s₁ s₂ s₃ : SymbolTable}
    (hfirst : Feeds ⟨.expression, forms taken, statements taken, s₁⟩ ts
      (given e (forms taken) (statements taken) s₂))
    (hrest : Feeds ⟨.expression, forms (e :: taken), statements (e :: taken), s₂⟩ us
      ⟨.expression, forms (es.reverse ++ e :: taken), statements (es.reverse ++ e :: taken), s₃⟩) :
    Feeds ⟨.expression, forms taken, statements taken, s₁⟩ (ts ++ us)
      ⟨.expression, forms ((e :: es).reverse ++ taken), statements ((e :: es).reverse ++ taken),
        s₃⟩ := by
  rw [h.given_eq] at hfirst
  rw [List.reverse_cons, List.append_assoc]
  exact hfirst.append hrest

/-- A text collects its statements. -/
theorem collects_statements : Collects (fun _ => []) id := ⟨fun _ => trivial, fun _ _ _ => rfl⟩

/-- A sequence collects its expressions. -/
private theorem collects_sequence (forms : List OpenForm) (statements : List Expr) :
    Collects (fun taken => .sequence taken :: forms) (fun _ => statements) :=
  ⟨fun _ => trivial, fun _ _ _ => rfl⟩

/-- The body of a function collects its expressions. -/
private theorem collects_body (use : FunctionUse) (params : List Symbol) (forms : List OpenForm)
    (statements : List Expr) :
    Collects (fun taken => .body use params taken :: forms) (fun _ => statements) :=
  ⟨fun _ => trivial, fun _ _ _ => rfl⟩

/-- A call collects its arguments. -/
private theorem collects_apply (operator : Operator) (forms : List OpenForm)
    (statements : List Expr) :
    Collects (fun taken => .apply operator taken :: forms) (fun _ => statements) :=
  ⟨fun _ => trivial, fun _ _ _ => rfl⟩

end Assembly

/-- A token of a kind that is not that of symbols adds no name. -/
private theorem SymbolTable.internToken_of_kind {t : Token} {kind : TokenKind} (ht : t.kind = kind)
    (hne : kind ≠ .symbol) (table : SymbolTable) : table.internToken t = table :=
  internToken_of_not_symbol (ht ▸ hne)

namespace Grammar

open Assembly SymbolTable

variable {sym : String → Symbol} {forms : List OpenForm} {statements : List Expr}
  {symbols : SymbolTable}

/-! ### Quoted lists -/

/-- The tokens of quoted items are taken, and the items are collected. -/
private theorem Items.feeds {ts : List Token} {items : List Literal} (h : Items sym ts items)
    {taken : List Literal} {outer : List (List Literal)}
    (hagrees : Agrees sym (symbols.internTokens ts)) :
    Feeds ⟨.item taken outer, forms, statements, symbols⟩ ts
      ⟨.item (items.reverse ++ taken) outer, forms, statements, symbols.internTokens ts⟩ := by
  induction h generalizing symbols taken outer with
  | nil => exact .nil _
  | @atom t ts item items hitem _ ih =>
    rw [internTokens_cons] at hagrees ⊢
    refine .cons (.item rfl ((atom_symbolOf_iff hagrees.of_internTokens).mpr hitem)) ?_
    rw [List.reverse_cons, List.append_assoc]
    exact ih hagrees
  | @list l r ts us inner items hl _ hr _ ihinner ih =>
    simp only [internTokens_cons, internTokens_append, internToken_of_kind hl (by decide),
      internToken_of_kind hr (by decide)] at hagrees ⊢
    -- The inner list is read on its own and then taken as one item.
    refine .cons (.openItem rfl hl) (.append (ihinner hagrees.of_internTokens)
      (.cons (.closeItem rfl hr) ?_))
    rw [List.append_nil, List.reverse_reverse, List.reverse_cons, List.append_assoc]
    exact ih hagrees

/-! ### Parameters -/

/-- A name that differs from some others has another symbol than they. -/
private theorem symbolOf_notMem {seen : List Token} {t : Token}
    (hnew : t.text ∉ seen.map Token.text)
    (hseen : ∀ u ∈ seen, symbols.get? u.text = some (sym u.text)) :
    symbols.symbolOf t.text ∉ seen.map fun u => sym u.text := by
  intro hmem
  obtain ⟨u, hu, heq⟩ := List.mem_map.mp hmem
  have hget := get?_intern_of_get? (hseen u hu) t.text
  rw [heq] at hget
  have htext : u.text = t.text := get?_inj hget (symbols.get?_intern t.text)
  exact hnew (htext ▸ List.mem_map.mpr ⟨u, hu, rfl⟩)

/-- Names that differ from each other and from those before them fit as parameters. -/
private theorem feeds_params {use : FunctionUse} {ps : List Token} (seen : List Token)
    (hkind : ∀ t ∈ ps, t.kind = .symbol)
    (hnodup : ((seen ++ ps).map Token.text).Nodup)
    (hseen : ∀ u ∈ seen, symbols.get? u.text = some (sym u.text))
    (hagrees : Agrees sym (symbols.internTokens ps)) :
    Feeds ⟨.param use (seen.map fun u => sym u.text).reverse, forms, statements, symbols⟩ ps
      ⟨.param use ((seen ++ ps).map fun u => sym u.text).reverse, forms, statements,
        symbols.internTokens ps⟩ := by
  induction ps generalizing seen symbols with
  | nil =>
    rw [List.append_nil]
    exact .nil _
  | cons t ps ih =>
    have ht := hkind t List.mem_cons_self
    rw [internTokens_cons] at hagrees ⊢
    have hagrees' := hagrees.of_internTokens
    -- The token moves over to those seen.
    have hsplit : seen ++ t :: ps = (seen ++ [t]) ++ ps := (List.append_cons seen t ps)
    rw [hsplit] at hnodup ⊢
    have hnew : t.text ∉ seen.map Token.text := by
      intro hmem
      rw [List.map_append, List.map_append, List.append_assoc, List.nodup_append] at hnodup
      exact hnodup.2.2 _ hmem _ (List.mem_append_left _ List.mem_cons_self) rfl
    have hfits := symbolOf_notMem hnew hseen
    have hseen' : ∀ u ∈ seen ++ [t],
        (symbols.internToken t).get? u.text = some (sym u.text) := by
      intro u hu
      rw [internToken_of_symbol ht]
      rcases List.mem_append.mp hu with hu | hu
      · exact get?_intern_of_get? (hseen u hu) t.text
      · rw [List.mem_singleton.mp hu, ← hagrees'.of_symbol ht]
        exact symbols.get?_intern t.text
    have hrest := ih _ (fun u hu => hkind u (List.mem_cons_of_mem t hu)) hnodup hseen' hagrees
    refine .cons (.param rfl ht ?_) ?_
    · rw [List.mem_reverse]
      exact hfits
    · rw [List.map_append, List.reverse_append, List.map_singleton,
        ← hagrees'.of_symbol ht] at hrest
      exact hrest

/-- The tokens of parameters are taken, and their names are collected. -/
private theorem Params.feeds {ps : List Token} {params : List Symbol} (h : Params sym ps params)
    (use : FunctionUse) (hagrees : Agrees sym (symbols.internTokens ps)) :
    Feeds ⟨.param use [], forms, statements, symbols⟩ ps
      ⟨.param use params.reverse, forms, statements, symbols.internTokens ps⟩ := by
  obtain ⟨hkind, hnodup, rfl⟩ := h
  exact feeds_params [] hkind hnodup (List.forall_mem_nil _) hagrees

/-- A function from its parameters to its end, given how its body is read. -/
private theorem feeds_function {use : FunctionUse} {ps ts : List Token} {params : List Symbol}
    {body : List Expr} {r r' : Token} (hparams : Params sym ps params) (hr : r.kind = .rightParen)
    (hne : body ≠ []) (hr' : r'.kind = .rightParen)
    (hagrees : Agrees sym (symbols.internTokens ps))
    (hbody : Feeds ⟨.expression, .body use params [] :: forms, statements,
        symbols.internTokens ps⟩ ts
      ⟨.expression, .body use params (body.reverse ++ []) :: forms, statements,
        (symbols.internTokens ps).internTokens ts⟩) :
    Feeds ⟨.param use [], forms, statements, symbols⟩ (ps ++ r :: (ts ++ [r']))
      (givenFunction use (.mk params body) forms statements
        ((symbols.internTokens ps).internTokens ts)) := by
  -- The parameters and the body have been collected last first.
  have hclose := Fits.closeParams (a := ⟨.param use params.reverse, forms, statements,
    symbols.internTokens ps⟩) rfl hr
  rw [List.reverse_reverse] at hclose
  rw [List.append_nil] at hbody
  have hne' : body.reverse ≠ [] := fun h => hne (List.reverse_eq_nil_iff.mp h)
  refine (hparams.feeds use hagrees).append (.cons hclose (hbody.append
    (.cons (.closeBody rfl rfl hne' hr') ?_)))
  rw [List.reverse_reverse, deliverFunction_eq_given]
  exact .nil _

/-! ### Statements and forms -/

-- By recursion on the derivation. The symbols agree with the table after all tokens, and
-- so with every table on the way there.
mutual

/-- The tokens of a statement are taken wherever one is expected, and the statement is handed on. -/
theorem Statement.feeds {ts : List Token} {e : Expr} (forms : List OpenForm)
    (statements : List Expr) {symbols : SymbolTable} (htakes : Takes forms)
    (hagrees : Agrees sym (symbols.internTokens ts)) : Statement sym ts e →
    Feeds ⟨.expression, forms, statements, symbols⟩ ts
      (given e forms statements (symbols.internTokens ts))
  | .atom hatom => by
    have hatom' := (atom_symbolOf_iff hagrees).mpr hatom
    exact .cons (.atom rfl htakes hatom') (feeds_deliver _ _ _)
  | .quoted hq ht => by
    simp only [internTokens_cons, internToken_of_kind hq (by decide), internTokens_nil]
      at hagrees ⊢
    rw [← hagrees.of_symbol ht]
    exact .cons (.quote rfl htakes hq) (.cons (.quoted rfl ht) (feeds_deliver _ _ _))
  | .data hq hl h hr => by
    -- The list interns its names; the quote and the parentheses around it intern nothing.
    simp only [internTokens_cons, internTokens_append, internToken_of_kind hq (by decide),
      internToken_of_kind hl (by decide), internToken_of_kind hr (by decide), internTokens_nil]
      at hagrees ⊢
    refine .cons (.quote rfl htakes hq) (.cons (.openData rfl hl) ((h.feeds hagrees).append
      (.cons (.closeData rfl hr) ?_)))
    rw [List.append_nil, List.reverse_reverse]
    exact feeds_deliver _ _ _
  | .form hl h hr => by
    simp only [internTokens_cons, internTokens_append, internToken_of_kind hl (by decide),
      internToken_of_kind hr (by decide), internTokens_nil] at hagrees ⊢
    exact .cons (.opening rfl htakes hl) (h.feeds forms statements hr hagrees)

/-- The tokens of a form and the parenthesis after it. -/
private theorem Form.feeds {ts : List Token} {e : Expr} {r : Token} (forms : List OpenForm)
    (statements : List Expr) {symbols : SymbolTable} (hr : r.kind = .rightParen)
    (hagrees : Agrees sym (symbols.internTokens ts)) : Form sym ts e →
    Feeds ⟨.head, forms, statements, symbols⟩ (ts ++ [r])
      (given e forms statements (symbols.internTokens ts))
  | .define hk ht h => by
    simp only [internTokens_cons, internToken_of_kind hk (by decide)] at hagrees ⊢
    rw [← hagrees.of_internTokens.of_symbol ht]
    refine .cons (.define rfl hk) (.cons (.defined rfl ht) ?_)
    exact .append (h.feeds _ _ trivial hagrees) (feeds_close hr)
  | .defineFunction hk hl ht hparams hr' hbody => by
    simp only [internTokens_cons, internTokens_append, internToken_of_kind hk (by decide),
      internToken_of_kind hl (by decide), internToken_of_kind hr' (by decide)] at hagrees ⊢
    have hagrees' := hagrees.of_internTokens
    rw [← hagrees'.of_internTokens.of_symbol ht]
    simp only [List.cons_append, List.append_assoc]
    refine .cons (.define rfl hk) (.cons (.openDefinition rfl hl) (.cons (.functionName rfl ht) ?_))
    exact feeds_function hparams hr' hbody.ne_nil hr hagrees'
      (hbody.feeds (collects_body ..) [] hagrees)
  | .lambda hk h => by
    simp only [internTokens_cons, internToken_of_kind hk (by decide)] at hagrees ⊢
    exact .cons (.lambda rfl hk) (h.feeds .expression forms statements hr hagrees)
  | .branch hk hcondition hconsequent halternative => by
    simp only [internTokens_cons, internTokens_append, internToken_of_kind hk (by decide)]
      at hagrees ⊢
    have hagrees' := hagrees.of_internTokens
    simp only [List.cons_append, List.append_assoc]
    refine .cons (.branch rfl hk) ?_
    refine .append (hcondition.feeds _ _ trivial hagrees'.of_internTokens) ?_
    refine .append (hconsequent.feeds _ _ trivial hagrees') ?_
    exact .append (halternative.feeds _ _ trivial hagrees) (feeds_close hr)
  | .sequence hk h => by
    simp only [internTokens_cons, internToken_of_kind hk (by decide)] at hagrees ⊢
    have hbody := h.feeds (collects_sequence forms statements) [] hagrees
    rw [List.append_nil] at hbody
    exact .cons (.sequence rfl hk) (.append hbody (feeds_closeSequence h.ne_nil hr))
  | .assign hk ht h => by
    simp only [internTokens_cons, internToken_of_kind hk (by decide)] at hagrees ⊢
    rw [← hagrees.of_internTokens.of_symbol ht]
    refine .cons (.assign rfl hk) (.cons (.assigned rfl ht) ?_)
    exact .append (h.feeds _ _ trivial hagrees) (feeds_close hr)
  | .cons hk hcar hcdr => by
    simp only [internTokens_cons, internTokens_append, internToken_of_kind hk (by decide)]
      at hagrees ⊢
    simp only [List.cons_append, List.append_assoc]
    refine .cons (.cons rfl hk) ?_
    refine .append (hcar.feeds _ _ trivial hagrees.of_internTokens) ?_
    exact .append (hcdr.feeds _ _ trivial hagrees) (feeds_close hr)
  | .call ht h => by
    rw [internTokens_cons] at hagrees ⊢
    rw [← hagrees.of_internTokens.of_symbol ht]
    refine .cons (.call rfl ht) (.append (h.feeds (collects_apply ..) [] hagrees) ?_)
    rw [List.append_nil]
    exact feeds_closeApply _ _ hr
  | .apply hl hk hfn hr' h => by
    simp only [internTokens_cons, internTokens_append, internToken_of_kind hl (by decide),
      internToken_of_kind hk (by decide), internToken_of_kind hr' (by decide)] at hagrees ⊢
    simp only [List.cons_append, List.append_assoc]
    rw [List.append_cons]
    -- The function becomes an open form of its own, which then takes the arguments.
    refine .cons (.function rfl hl) (.cons (.operator rfl hk) ?_)
    refine .append (hfn.feeds .operator _ _ hr' hagrees.of_internTokens) ?_
    refine .append (h.feeds (collects_apply ..) [] hagrees) ?_
    rw [List.append_nil]
    exact feeds_closeApply _ _ hr

/-- The tokens of a function and the parenthesis after it. -/
private theorem Function.feeds {ts : List Token} {fn : Lambda} {r : Token} (use : FunctionUse)
    (forms : List OpenForm) (statements : List Expr) {symbols : SymbolTable}
    (hr : r.kind = .rightParen) (hagrees : Agrees sym (symbols.internTokens ts)) :
    Function sym ts fn →
    Feeds ⟨.params use, forms, statements, symbols⟩ (ts ++ [r])
      (givenFunction use fn forms statements (symbols.internTokens ts))
  | .mk hl hparams hr' hbody => by
    simp only [internTokens_cons, internTokens_append, internToken_of_kind hl (by decide),
      internToken_of_kind hr' (by decide)] at hagrees ⊢
    simp only [List.cons_append, List.append_assoc]
    refine .cons (.openParams rfl hl) ?_
    exact feeds_function hparams hr' hbody.ne_nil hr hagrees.of_internTokens
      (hbody.feeds (collects_body ..) [] hagrees)

/-- The tokens of a body are taken, and its expressions are collected. -/
private theorem Body.feeds {ts : List Token} {es : List Expr} {forms : List Expr → List OpenForm}
    {statements : List Expr → List Expr} {symbols : SymbolTable}
    (hcollects : Collects forms statements) (taken : List Expr)
    (hagrees : Agrees sym (symbols.internTokens ts)) : Body sym ts es →
    Feeds ⟨.expression, forms taken, statements taken, symbols⟩ ts
      ⟨.expression, forms (es.reverse ++ taken), statements (es.reverse ++ taken),
        symbols.internTokens ts⟩
  | .mk h hs => by
    rw [internTokens_append] at hagrees ⊢
    exact hcollects.feeds_cons
      (h.feeds _ _ (hcollects.takes taken) hagrees.of_internTokens) (hs.feeds hcollects _ hagrees)

/-- Any number of statements, where any number of expressions may stand. -/
theorem Statements.feeds {ts : List Token} {es : List Expr} {forms : List Expr → List OpenForm}
    {statements : List Expr → List Expr} {symbols : SymbolTable}
    (hcollects : Collects forms statements) (taken : List Expr)
    (hagrees : Agrees sym (symbols.internTokens ts)) : Statements sym ts es →
    Feeds ⟨.expression, forms taken, statements taken, symbols⟩ ts
      ⟨.expression, forms (es.reverse ++ taken), statements (es.reverse ++ taken),
        symbols.internTokens ts⟩
  | .nil => .nil _
  | .cons h hs => by
    rw [internTokens_append] at hagrees ⊢
    exact hcollects.feeds_cons
      (h.feeds _ _ (hcollects.takes taken) hagrees.of_internTokens) (hs.feeds hcollects _ hagrees)

end

end Grammar

end LispSession
