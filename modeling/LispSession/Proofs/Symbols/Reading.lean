import LispSession.Proofs.Grammar.Words
import LispSession.Proofs.Symbols.Alike

/-!
# Reading with other symbols

The same tokens fit into assemblies that are alike, with the same misfit where they do not,
and the names that are interned are the same. So the same text is a program whatever names
the table holds, with the same error if it is none, and the programs that are read with two
tables are alike. The first assembly may hold statements that were complete before.

* `Assembly.step_alike`  one token
* `Assembly.feed_alike`  tokens in order
* `readProgram_alike`    a text, with two tables
* `readProgram_append`   a text whose words are those of two programs
-/

namespace LispSession

section

variable (same : Symbol → Symbol → Prop)

/-- Uses of functions whose symbols belong together. -/
inductive FunctionUse.Alike : FunctionUse → FunctionUse → Prop where
  | expression : Alike .expression .expression
  | operator : Alike .operator .operator
  | definition {a a' : Symbol} (h : same a a') : Alike (.definition a) (.definition a')

/-- Open forms of the same shape whose symbols belong together. -/
inductive OpenForm.Alike : OpenForm → OpenForm → Prop where
  | define {a a' : Symbol} (h : same a a') : Alike (.define a) (.define a')
  | assign {a a' : Symbol} (h : same a a') : Alike (.assign a) (.assign a')
  | branch : Alike .branch .branch
  | branchThen {e e' : Expr} (h : e.Alike same e') : Alike (.branchThen e) (.branchThen e')
  | branchElse {e₁ e₂ e₁' e₂' : Expr} (h₁ : e₁.Alike same e₁') (h₂ : e₂.Alike same e₂') :
    Alike (.branchElse e₁ e₂) (.branchElse e₁' e₂')
  | cons : Alike .cons .cons
  | consCdr {e e' : Expr} (h : e.Alike same e') : Alike (.consCdr e) (.consCdr e')
  | sequence {es es' : List Expr} (h : List.Forall₂ (Expr.Alike same) es es') :
    Alike (.sequence es) (.sequence es')
  | body {use use' : FunctionUse} {params params' : List Symbol} {es es' : List Expr}
      (huse : use.Alike same use') (hparams : List.Forall₂ same params params')
      (h : List.Forall₂ (Expr.Alike same) es es') :
    Alike (.body use params es) (.body use' params' es')
  | apply {op op' : Operator} {es es' : List Expr} (hop : op.Alike same op')
      (h : List.Forall₂ (Expr.Alike same) es es') : Alike (.apply op es) (.apply op' es')
  | complete {e e' : Expr} (h : e.Alike same e') : Alike (.complete e) (.complete e')

/-- What the next token must be, with symbols that belong together. -/
inductive Expecting.Alike : Expecting → Expecting → Prop where
  | expression : Alike .expression .expression
  | head : Alike .head .head
  | operator : Alike .operator .operator
  | definition : Alike .definition .definition
  | functionName : Alike .functionName .functionName
  | assigned : Alike .assigned .assigned
  | params {use use' : FunctionUse} (h : use.Alike same use') : Alike (.params use) (.params use')
  | param {use use' : FunctionUse} {taken taken' : List Symbol} (h : use.Alike same use')
      (htaken : List.Forall₂ same taken taken') : Alike (.param use taken) (.param use' taken')
  | quoted : Alike .quoted .quoted
  | item {taken taken' : List Literal} {outer outer' : List (List Literal)}
      (htaken : List.Forall₂ (Literal.Alike same) taken taken')
      (houter : List.Forall₂ (List.Forall₂ (Literal.Alike same)) outer outer') :
    Alike (.item taken outer) (.item taken' outer')

end

section

variable {same same' : Symbol → Symbol → Prop} (hsame : ∀ a b, same a b → same' a b)

include hsame

/-- Uses of functions stay alike when more symbols belong together. -/
private theorem FunctionUse.Alike.mono {use use' : FunctionUse} (h : use.Alike same use') :
    use.Alike same' use' := by
  cases h with
  | expression => exact .expression
  | operator => exact .operator
  | definition h => exact .definition (hsame _ _ h)

/-- Open forms stay alike when more symbols belong together. -/
private theorem OpenForm.Alike.mono {form form' : OpenForm} (h : form.Alike same form') :
    form.Alike same' form' := by
  cases h with
  | define h => exact .define (hsame _ _ h)
  | assign h => exact .assign (hsame _ _ h)
  | branch => exact .branch
  | branchThen h => exact .branchThen (h.mono hsame)
  | branchElse h₁ h₂ => exact .branchElse (h₁.mono hsame) (h₂.mono hsame)
  | cons => exact .cons
  | consCdr h => exact .consCdr (h.mono hsame)
  | sequence h => exact .sequence (Expr.Alike.mono_list hsame h)
  | body huse hparams h =>
    exact .body (huse.mono hsame) (hparams.imp hsame) (Expr.Alike.mono_list hsame h)
  | apply hop h => exact .apply (hop.mono hsame) (Expr.Alike.mono_list hsame h)
  | complete h => exact .complete (h.mono hsame)

/-- What the next token must be stays alike when more symbols belong together. -/
private theorem Expecting.Alike.mono {expecting expecting' : Expecting}
    (h : expecting.Alike same expecting') : expecting.Alike same' expecting' := by
  cases h with
  | params h => exact .params (h.mono hsame)
  | param h htaken => exact .param (h.mono hsame) (htaken.imp hsame)
  | item htaken houter =>
    exact .item (Literal.Alike.mono_list hsame htaken)
      (houter.imp fun _ _ h => Literal.Alike.mono_list hsame h)
  | _ => constructor

end

/-- Alike uses of a function are named by the same form in an error. -/
private theorem FunctionUse.Alike.form_eq {same : Symbol → Symbol → Prop} {use use' : FunctionUse}
    (h : use.Alike same use') : use.form = use'.form := by
  cases h <;> rfl

/-- Either innermost form may take an expression, or both only wait for their end. -/
private theorem takes_or_complete {same : Symbol → Symbol → Prop} {forms forms' : List OpenForm}
    (h : List.Forall₂ (OpenForm.Alike same) forms forms') :
    (Takes forms ∧ Takes forms') ∨ ∃ e e' rest rest', forms = .complete e :: rest ∧
      forms' = .complete e' :: rest' ∧ e.Alike same e' ∧
        List.Forall₂ (OpenForm.Alike same) rest rest' := by
  cases h with
  | nil => exact .inl ⟨trivial, trivial⟩
  | cons hform hrest =>
    cases hform with
    | complete he => exact .inr ⟨_, _, _, _, rfl, rfl, he, hrest⟩
    | _ => exact .inl ⟨trivial, trivial⟩

namespace Assembly

/-- The symbols stand for the same name in the two assemblies. -/
abbrev Same (a a' : Assembly) : Symbol → Symbol → Prop := a.symbols.Same a'.symbols

/-- Assemblies that differ in their symbols, and in statements that were complete before,
    alone. -/
structure Alike (base : List Expr) (a a' : Assembly) : Prop where
  expecting : a.expecting.Alike (a.Same a') a'.expecting
  forms : List.Forall₂ (OpenForm.Alike (a.Same a')) a.forms a'.forms
  statements : ∃ taken, a.statements = taken ++ base ∧
    List.Forall₂ (Expr.Alike (a.Same a')) taken a'.statements

/-- Assembly begins alike in any two tables, whatever is complete in one of them. -/
private theorem alike_start (t t' : SymbolTable) (base : List Expr) :
    Alike base ⟨.expression, [], base, t⟩ (start t') :=
  ⟨.expression, .nil, [], rfl, .nil⟩

/-- Assemblies that are alike and whose tables have grown alike since these. -/
structure Follow (base : List Expr) (a a' b b' : Assembly) : Prop where
  alike : b.Alike base b'
  grown : SymbolTable.Grown a.symbols a'.symbols b.symbols b'.symbols

/-- The results of a step in both assemblies: both tokens fit, or neither does. -/
inductive Steps (base : List Expr) (a a' : Assembly) :
    Except Misfit Assembly → Except Misfit Assembly → Prop where
  | ok {b b' : Assembly} (h : Follow base a a' b b') : Steps base a a' (.ok b) (.ok b')
  | error (misfit : Misfit) : Steps base a a' (.error misfit) (.error misfit)

section

variable {base : List Expr} {a a' : Assembly}

/-- Going on within alike forms keeps assemblies alike. -/
private theorem Alike.within (h : a.Alike base a') {forms forms' : List OpenForm}
    (hforms : List.Forall₂ (OpenForm.Alike (a.Same a')) forms forms') :
    Follow base a a' (a.within forms) (a'.within forms') :=
  ⟨⟨.expression, hforms, h.statements⟩, .refl _ _⟩

/-- Waiting for alike things keeps assemblies alike. -/
private theorem Alike.expect (h : a.Alike base a') {expecting expecting' : Expecting}
    (hexpecting : expecting.Alike (a.Same a') expecting') :
    Follow base a a' (a.expect expecting) (a'.expect expecting') :=
  ⟨⟨hexpecting, h.forms, h.statements⟩, .refl _ _⟩

/-- The name of a token is interned in both. -/
private theorem Alike.intern (h : a.Alike base a') (t : Token) :
    Follow base a a' (a.intern t).2 (a'.intern t).2 := by
  have hgrown := SymbolTable.Grown.intern a.symbols a'.symbols t.text
  obtain ⟨taken, hbase, htaken⟩ := h.statements
  exact ⟨⟨h.expecting.mono fun _ _ => hgrown.same,
    h.forms.imp fun _ _ hform => hform.mono fun _ _ => hgrown.same,
    taken, hbase, Expr.Alike.mono_list (fun _ _ => hgrown.same) htaken⟩, hgrown⟩

/-- The symbols that a token gets belong together. -/
private theorem same_intern (a a' : Assembly) (t : Token) :
    (a.intern t).2.Same (a'.intern t).2 (a.intern t).1 (a'.intern t).1 :=
  SymbolTable.same_intern a.symbols a'.symbols t.text

/-- Assemblies that follow each other twice have followed each other. -/
private theorem Follow.trans {b b' c c' : Assembly} (h : Follow base a a' b b')
    (h' : Follow base b b' c c') : Follow base a a' c c' :=
  ⟨h'.alike, h.grown.trans h'.grown⟩

/-- An expression is fitted into the same form. -/
private theorem Alike.deliver (h : a.Alike base a') {e e' : Expr} (he : e.Alike (a.Same a') e')
    {forms forms' : List OpenForm}
    (hforms : List.Forall₂ (OpenForm.Alike (a.Same a')) forms forms') :
    Follow base a a' (a.deliver e forms) (a'.deliver e' forms') := by
  -- Without an open form the expression is a statement; otherwise it goes to the innermost form.
  cases hforms with
  | nil =>
    obtain ⟨taken, hbase, htaken⟩ := h.statements
    exact ⟨⟨.expression, .nil, e :: taken, congrArg (e :: ·) hbase, .cons he htaken⟩, .refl _ _⟩
  | cons hform hforms =>
    cases hform with
    | define ha => exact h.within (.cons (.complete (.define ha he)) hforms)
    | assign ha => exact h.within (.cons (.complete (.assign ha he)) hforms)
    | branch => exact h.within (.cons (.branchThen he) hforms)
    | branchThen h₁ => exact h.within (.cons (.branchElse h₁ he) hforms)
    | branchElse h₁ h₂ => exact h.within (.cons (.complete (.branch h₁ h₂ he)) hforms)
    | cons => exact h.within (.cons (.consCdr he) hforms)
    | consCdr h₁ => exact h.within (.cons (.complete (.cons h₁ he)) hforms)
    | sequence htaken => exact h.within (.cons (.sequence (.cons he htaken)) hforms)
    | body huse hparams htaken =>
      exact h.within (.cons (.body huse hparams (.cons he htaken)) hforms)
    | apply hop htaken => exact h.within (.cons (.apply hop (.cons he htaken)) hforms)
    | complete h₁ => exact h.within (.cons (.complete h₁) hforms)

/-- Delivering alike functions for alike uses keeps assemblies alike. -/
private theorem Alike.deliverFunction (h : a.Alike base a') {use use' : FunctionUse}
    (huse : use.Alike (a.Same a') use') {fn fn' : Lambda} (hfn : fn.Alike (a.Same a') fn')
    {forms forms' : List OpenForm}
    (hforms : List.Forall₂ (OpenForm.Alike (a.Same a')) forms forms') :
    Follow base a a' (a.deliverFunction use fn forms) (a'.deliverFunction use' fn' forms') := by
  cases huse with
  | expression => exact h.deliver (.lambda hfn) hforms
  | operator => exact h.within (.cons (.apply (.lambda hfn) .nil) hforms)
  | definition ha => exact h.deliver (.define ha (.lambda hfn)) hforms

/-- Closing a form is done in both, or is the same error in both. -/
private theorem Alike.close (h : a.Alike base a') : Steps base a a' a.close a'.close := by
  obtain ⟨expecting, forms, statements, symbols⟩ := a
  obtain ⟨expecting', forms', statements', symbols'⟩ := a'
  have hforms := h.forms
  simp only at hforms
  unfold Assembly.close
  -- The innermost forms are of one kind, so both are complete, both take the parenthesis, or
  -- neither does.
  cases hforms with
  | nil => exact .error _
  | cons hform hforms =>
    cases hform with
    | sequence htaken =>
      cases htaken with
      | nil => exact .error _
      | cons he htaken =>
        exact .ok (h.deliver (.sequence (List.rel_reverse (.cons he htaken))) hforms)
    | body huse hparams htaken =>
      cases htaken with
      | nil =>
        simp only [huse.form_eq]
        exact .error _
      | cons he htaken =>
        exact .ok (h.deliverFunction huse (.mk hparams (List.rel_reverse (.cons he htaken))) hforms)
    | apply hop htaken => exact .ok (h.deliver (.apply hop (List.rel_reverse htaken)) hforms)
    | complete he => exact .ok (h.deliver he hforms)
    | _ => exact .error _

/-! ### Steps -/

/-- A token denotes alike literals, or none in both. -/
private theorem Alike.literal (h : a.Alike base a') (t : Token) :
    (∃ l l' b b', a.literal t = .ok (l, b) ∧ a'.literal t = .ok (l', b') ∧
        l.Alike (b.Same b') l' ∧ Follow base a a' b b') ∨
      ∃ misfit, a.literal t = .error misfit ∧ a'.literal t = .error misfit := by
  unfold Assembly.literal
  split
  · exact .inl ⟨_, _, _, _, rfl, rfl, .symbol (same_intern a a' t), h.intern t⟩
  · exact .inl ⟨_, _, _, _, rfl, rfl, .boolean _, h, .refl _ _⟩
  · exact .inl ⟨_, _, _, _, rfl, rfl, .string _, h, .refl _ _⟩
  · split
    · exact .inl ⟨_, _, _, _, rfl, rfl, .number _, h, .refl _ _⟩
    · exact .inr ⟨_, rfl, rfl⟩
  · exact .inr ⟨_, rfl, rfl⟩

/-- A literal is fitted into the same form. -/
private theorem Alike.stepLiteral (h : a.Alike base a') (t : Token) {forms forms' : List OpenForm}
    (hforms : List.Forall₂ (OpenForm.Alike (a.Same a')) forms forms') :
    Steps base a a'
      (match a.literal t with
        | .ok (l, b) => .ok (b.deliver l.toExpr forms)
        | .error misfit => .error misfit)
      (match a'.literal t with
        | .ok (l, b) => .ok (b.deliver l.toExpr forms')
        | .error misfit => .error misfit) := by
  rcases h.literal t with ⟨l, l', b, b', hl, hl', halike, hfollow⟩ | ⟨misfit, hl, hl'⟩
  · rw [hl, hl']
    have hforms' := hforms.imp fun _ _ hform => hform.mono fun _ _ => hfollow.grown.same
    exact .ok (hfollow.trans (hfollow.alike.deliver halike.toExpr hforms'))
  · rw [hl, hl']
    exact .error misfit

/-- A token where an expression is expected is taken by both, or is the same error in both. -/
private theorem Alike.stepExpression (h : a.Alike base a') (t : Token) :
    Steps base a a' (a.stepExpression t) (a'.stepExpression t) := by
  -- The innermost form takes the token, or waits for its closing parenthesis alone.
  rcases takes_or_complete h.forms with
    ⟨htakes, htakes'⟩ | ⟨e, e', forms, forms', hforms, hforms', he, hrest⟩
  -- A literal is delivered at once, a quote or an opening parenthesis is waited on, and a closing
  -- one ends the form.
  · rw [stepExpression_of_takes htakes, stepExpression_of_takes htakes']
    have hliteral := h.stepLiteral t h.forms
    split
    · exact hliteral
    · exact hliteral
    · exact hliteral
    · exact hliteral
    · exact .ok (h.expect .quoted)
    · exact .ok (h.expect .head)
    · exact h.close
    · exact .error _
  · simp only [Assembly.stepExpression, hforms, hforms']
    split
    · exact .ok (h.deliver he hrest)
    · exact .error _

/-- The first token of a form is taken by both, or is the same error in both. -/
private theorem Alike.stepHead (h : a.Alike base a') (t : Token) :
    Steps base a a' (a.stepHead t) (a'.stepHead t) := by
  have hintern := h.intern t
  unfold Assembly.stepHead
  -- Keywords intern nothing; the name of a function that is called is interned in both.
  split
  · exact .ok (h.expect .definition)
  · exact .ok (h.expect (.params .expression))
  · exact .ok (h.within (.cons .branch h.forms))
  · exact .ok (h.within (.cons (.sequence .nil) h.forms))
  · exact .ok (h.expect .assigned)
  · exact .ok (h.within (.cons .cons h.forms))
  · exact .ok (h.expect .operator)
  · refine .ok (hintern.trans (hintern.alike.within (.cons (.apply (.variable ?_) .nil) ?_)))
    · exact same_intern a a' t
    · exact hintern.alike.forms
  · exact .error _

/-- A name is repeated in both or in neither. -/
private theorem mem_iff_of_same {t t' : SymbolTable} {x x' : Symbol} (hx : t.Same t' x x')
    {xs xs' : List Symbol} (hxs : List.Forall₂ (t.Same t') xs xs') : x ∈ xs ↔ x' ∈ xs' := by
  induction hxs with
  | nil => simp
  | cons hy _ ih => rw [List.mem_cons, List.mem_cons, hx.eq_iff hy, ih]

/-- A token of a parameter list is taken by both, or is the same error in both. -/
private theorem Alike.stepParam (h : a.Alike base a') {use use' : FunctionUse}
    (huse : use.Alike (a.Same a') use') {taken taken' : List Symbol}
    (htaken : List.Forall₂ (a.Same a') taken taken') (t : Token) :
    Steps base a a' (a.stepParam use taken t) (a'.stepParam use' taken' t) := by
  have hintern := h.intern t
  have hsame := same_intern a a' t
  unfold Assembly.stepParam
  split
  · exact .ok (h.within (.cons (.body huse (List.rel_reverse htaken) .nil) h.forms))
  · have huse' := huse.mono fun _ _ => hintern.grown.same
    have htaken' := htaken.imp fun _ _ => hintern.grown.same
    -- A repeated parameter is found by its symbol, in both or in neither.
    simp only [mem_iff_of_same hsame htaken']
    split
    · exact .error _
    · exact .ok (hintern.trans (hintern.alike.expect (.param huse' (.cons hsame htaken'))))
  · exact .error _

/-- A token of a quoted list is taken by both, or is the same error in both. -/
private theorem Alike.stepItem (h : a.Alike base a') {taken taken' : List Literal}
    (htaken : List.Forall₂ (Literal.Alike (a.Same a')) taken taken')
    {outer outer' : List (List Literal)}
    (houter : List.Forall₂ (List.Forall₂ (Literal.Alike (a.Same a'))) outer outer') (t : Token) :
    Steps base a a' (a.stepItem taken outer t) (a'.stepItem taken' outer' t) := by
  unfold Assembly.stepItem
  -- A list begins, the innermost list ends, or a literal is added to it.
  split
  · exact .ok (h.expect (.item .nil (.cons htaken houter)))
  · cases houter with
    | nil => exact .ok (h.deliver (.data (List.rel_reverse htaken)) h.forms)
    | cons haround houter =>
      exact .ok (h.expect (.item (.cons (.list (List.rel_reverse htaken)) haround) houter))
  · rcases h.literal t with ⟨l, l', b, b', hl, hl', halike, hfollow⟩ | ⟨misfit, hl, hl'⟩
    · rw [hl, hl']
      have htaken' := Literal.Alike.mono_list (fun _ _ => hfollow.grown.same) htaken
      have houter' := houter.imp fun _ _ h =>
        Literal.Alike.mono_list (fun _ _ => hfollow.grown.same) h
      exact .ok (hfollow.trans (hfollow.alike.expect (.item (.cons halike htaken') houter')))
    · rw [hl, hl']
      exact .error misfit

/-- The same token fits in both, or has the same misfit. -/
theorem step_alike (h : a.Alike base a') (t : Token) : Steps base a a' (a.step t) (a'.step t) := by
  have hintern := h.intern t
  have hsame := same_intern a a' t
  have hexpecting := h.expecting
  unfold step
  generalize a.expecting = expecting at hexpecting ⊢
  generalize a'.expecting = expecting' at hexpecting ⊢
  -- Both wait for the same thing, which is one of ten.
  cases hexpecting with
  | expression => exact h.stepExpression t
  | head => exact h.stepHead t
  | operator =>
    simp only
    split
    · exact .ok (h.expect (.params .operator))
    · exact .error _
  | definition =>
    simp only
    split
    · exact .ok (h.expect .functionName)
    · exact .ok (hintern.trans (hintern.alike.within (.cons (.define hsame) hintern.alike.forms)))
    · exact .error _
  | functionName =>
    simp only
    split
    · exact .ok (hintern.trans (hintern.alike.expect (.param (.definition hsame) .nil)))
    · exact .error _
  | assigned =>
    simp only
    split
    · exact .ok (hintern.trans (hintern.alike.within (.cons (.assign hsame) hintern.alike.forms)))
    · exact .error _
  | params huse =>
    simp only
    split
    · exact .ok (h.expect (.param huse .nil))
    · exact .error _
  | param huse htaken => exact h.stepParam huse htaken t
  | quoted =>
    simp only
    split
    · exact .ok (h.expect (.item .nil .nil))
    · exact .ok (hintern.trans (hintern.alike.deliver (.quoted hsame) hintern.alike.forms))
    · exact .error _
  | item htaken houter => exact h.stepItem htaken houter t

end

/-- Tokens lead to alike assemblies, up to the first that does not fit in either. -/
theorem feed_alike {base : List Expr} {a a' : Assembly} (h : a.Alike base a')
    (ts : List Token) :
    Follow base a a' (a.feed ts).1 (a'.feed ts).1 ∧ (a.feed ts).2 = (a'.feed ts).2 := by
  -- Induction on the tokens: while they fit, the assemblies follow each other.
  induction ts generalizing a a' with
  | nil => exact ⟨⟨h, .refl _ _⟩, rfl⟩
  | cons t ts ih =>
    have hstep := step_alike h t
    generalize hb : a.step t = result at hstep
    generalize hb' : a'.step t = result' at hstep
    cases hstep with
    | ok hfollow =>
      obtain ⟨hrest, herror⟩ := ih hfollow.alike
      rw [feed_cons_of_ok hb, feed_cons_of_ok hb']
      exact ⟨hfollow.trans hrest, herror⟩
    | error misfit =>
      rw [feed_cons_of_error hb, feed_cons_of_error hb']
      exact ⟨⟨h, .refl _ _⟩, rfl⟩

/-- Where a program may end with one table, it may end with another, also after other
    statements. -/
private theorem Feeds.after {t' u' : SymbolTable} {ws : List Token} {statements : List Expr}
    (h : Feeds (start t') ws ⟨.expression, [], statements, u'⟩) (t : SymbolTable)
    (base : List Expr) :
    ∃ taken u, Feeds ⟨.expression, [], base, t⟩ ws ⟨.expression, [], taken ++ base, u⟩ ∧
      List.Forall₂ (Expr.Alike (u.Same u')) taken statements ∧
        SymbolTable.Grown t t' u u' := by
  obtain ⟨⟨halike, hgrown⟩, herror⟩ := feed_alike (alike_start t t' base) ws
  unfold Feeds at h ⊢
  rw [h] at halike hgrown herror
  generalize (⟨.expression, [], base, t⟩ : Assembly).feed ws = result at *
  obtain ⟨⟨expecting, forms, taken', u⟩, error⟩ := result
  obtain ⟨hexpecting, hforms, taken, htaken, hstatements⟩ := halike
  -- The first assembly is complete as well.
  simp only at hexpecting hforms htaken herror hgrown
  cases hexpecting
  cases hforms
  subst htaken herror
  exact ⟨taken, u, rfl, hstatements, hgrown⟩

/-- Words that lead to where a program may end, after other statements, are a program. -/
theorem Feeds.fresh {t u : SymbolTable} {base statements : List Expr} {ws : List Token}
    (h : Feeds ⟨.expression, [], base, t⟩ ws ⟨.expression, [], statements, u⟩)
    (t' : SymbolTable) :
    ∃ statements' u', Feeds (start t') ws ⟨.expression, [], statements', u'⟩ := by
  -- The fresh assembly follows the other one through all the words.
  obtain ⟨⟨halike, _⟩, herror⟩ := feed_alike (alike_start t t' base) ws
  unfold Feeds at h ⊢
  rw [h] at halike herror
  generalize (start t').feed ws = result at *
  obtain ⟨⟨expecting, forms, statements', u'⟩, error⟩ := result
  obtain ⟨hexpecting, hforms, _⟩ := halike
  simp only at hexpecting hforms herror
  cases hexpecting
  cases hforms
  subst herror
  exact ⟨statements', u', rfl⟩

/-- The input may end in both or in neither. -/
private theorem Alike.isComplete_eq {base : List Expr} {a a' : Assembly} (h : a.Alike base a') :
    a.isComplete = a'.isComplete := by
  obtain ⟨expecting, forms, statements, symbols⟩ := a
  obtain ⟨expecting', forms', statements', symbols'⟩ := a'
  have hexpecting := h.expecting
  have hforms := h.forms
  simp only at hexpecting hforms
  unfold isComplete
  cases hexpecting <;> cases hforms <;> rfl

/-- Alike assemblies end as alike programs, or with the same error. -/
private theorem Alike.finish {a a' : Assembly} (h : a.Alike [] a') {last : Token}
    (hlast : last.kind = .endOfInput) :
    (∃ e, a.finish last = .error e ∧ a'.finish last = .error e) ∨
      ∃ program program', a.finish last = .ok program ∧ a'.finish last = .ok program' ∧
        List.Forall₂ (Expr.Alike (a.Same a')) program program' := by
  unfold Assembly.finish
  by_cases hcomplete : a.isComplete = true
  · obtain ⟨taken, htaken, hstatements⟩ := h.statements
    rw [List.append_nil] at htaken
    rw [if_pos hcomplete, if_pos (h.isComplete_eq ▸ hcomplete), htaken]
    exact .inr ⟨_, _, rfl, rfl, List.rel_reverse hstatements⟩
  -- The end of the input fits in neither as a token, with the same misfit.
  · obtain ⟨misfit, hmisfit⟩ := a.step_endOfInput hlast
    have hstep := step_alike h last
    rw [hmisfit] at hstep
    rw [if_neg hcomplete, if_neg (h.isComplete_eq ▸ hcomplete), hmisfit]
    generalize a'.step last = result' at hstep ⊢
    cases hstep
    exact .inl ⟨_, rfl, rfl⟩

end Assembly

open Assembly

/-- A text is read alike with two tables: as alike programs, or with the same error. -/
theorem readProgram_alike (t t' : SymbolTable) (text : String) :
    SymbolTable.Grown t t' (readProgram t text).symbols (readProgram t' text).symbols ∧
      ((∃ e, (readProgram t text).program = .error e ∧
          (readProgram t' text).program = .error e) ∨
        ∃ program program', (readProgram t text).program = .ok program ∧
          (readProgram t' text).program = .ok program' ∧
            List.Forall₂ (Expr.Alike ((readProgram t text).symbols.Same
              (readProgram t' text).symbols)) program program') := by
  -- The tokens are the same: the table plays no part in finding them.
  have hstart : (start t).Alike [] (start t') := alike_start t t' []
  have hfeed := feed_alike hstart (significantTokens text)
  unfold readProgram readTokens
  generalize (start t).feed (significantTokens text) = result at *
  generalize (start t').feed (significantTokens text) = result' at *
  obtain ⟨a, error⟩ := result
  obtain ⟨a', error'⟩ := result'
  obtain ⟨⟨halike, hgrown⟩, herror⟩ := hfeed
  simp only at herror halike hgrown
  subst herror
  cases error with
  | some e => exact ⟨hgrown, .inl ⟨e, rfl, rfl⟩⟩
  | none => exact ⟨hgrown, halike.finish (kind_endToken text)⟩

/-- Reading a text does nothing to the table but intern names. -/
theorem exists_names_readProgram (t : SymbolTable) (text : String) :
    ∃ names, (readProgram t text).symbols = t.internAll names := by
  obtain ⟨⟨names, hnames, _⟩, _⟩ := readProgram_alike t t text
  exact ⟨names, hnames⟩

/-- All symbols that occur in what is read from a program are those of names in the table. -/
theorem readProgram_alike_self {t u : SymbolTable} {text : String} {program : List Expr}
    (h : readProgram t text = ⟨.ok program, u⟩) :
    List.Forall₂ (Expr.Alike (u.Same u)) program program := by
  rcases (readProgram_alike t t text).2 with ⟨e, he, _⟩ | ⟨es, es', hes, hes', halike⟩
  · rw [h] at he
    cases he
  · rw [h] at hes hes' halike
    cases hes
    cases hes'
    exact halike

/-- A text whose words are those of two programs is the program of both, one after the
    other. The second one may have been read with any table. -/
theorem readProgram_append {whole first second : String}
    (hwords : words whole.toList = words first.toList ++ words second.toList)
    {t t₁ t₂ u₂ : SymbolTable} {es fs : List Expr} (hfirst : readProgram t first = ⟨.ok es, t₁⟩)
    (hsecond : readProgram t₂ second = ⟨.ok fs, u₂⟩) :
    ∃ fs' u, readProgram t whole = ⟨.ok (es ++ fs'), u⟩ ∧
      List.Forall₂ (Expr.Alike (u.Same u₂)) fs' fs ∧ SymbolTable.Grown t₁ t₂ u u₂ := by
  -- The words of the second program are read on with the statements of the first one held.
  obtain ⟨taken, u, hfeeds, htaken, hgrown⟩ :=
    (readProgram_eq_ok_iff.mp hsecond).after t₁ es.reverse
  refine ⟨taken.reverse, u, readProgram_eq_ok_iff.mpr ?_, ?_, hgrown⟩
  · rw [hwords, List.reverse_append, List.reverse_reverse]
    exact (readProgram_eq_ok_iff.mp hfirst).append hfeeds
  · rw [← List.reverse_reverse fs]
    exact List.rel_reverse htaken

end LispSession
