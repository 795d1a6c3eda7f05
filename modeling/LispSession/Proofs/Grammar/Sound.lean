import LispSession.Proofs.Grammar.Step

/-!
# Everything that is read is derived by the grammar

What an assembly holds is spelled by the tokens that led to it: those of the statements
that are complete, then for each open form, from the outermost one inward, its first
tokens and what it has taken, and last the tokens since. Each step keeps this, so that
what is complete in the end is a program.

* `Spelled.deliver`  an expression is taken with its tokens
* `Spelled.step`     one token
* `Spelled.feed`     tokens in order
-/

namespace LispSession

namespace Grammar

variable (sym : String → Symbol)

/-- The tokens open a function, up to its first parameter. -/
inductive Header : List Token → FunctionUse → Prop where
  | expression {l k m : Token} (hl : l.kind = .leftParen) (hk : k.kind = .keyword .lambda)
      (hm : m.kind = .leftParen) : Header [l, k, m] .expression
  | operator {l m k n : Token} (hl : l.kind = .leftParen) (hm : m.kind = .leftParen)
      (hk : k.kind = .keyword .lambda) (hn : n.kind = .leftParen) : Header [l, m, k, n] .operator
  | definition {l k m t : Token} (hl : l.kind = .leftParen) (hk : k.kind = .keyword .define)
      (hm : m.kind = .leftParen) (ht : t.kind = .symbol) :
    Header [l, k, m, t] (.definition (sym t.text))

/-- The tokens open a form and are what it has taken. -/
inductive Opened : List Token → OpenForm → Prop where
  | define {l k t : Token} (hl : l.kind = .leftParen) (hk : k.kind = .keyword .define)
      (ht : t.kind = .symbol) : Opened [l, k, t] (.define (sym t.text))
  | assign {l k t : Token} (hl : l.kind = .leftParen) (hk : k.kind = .keyword .assign)
      (ht : t.kind = .symbol) : Opened [l, k, t] (.assign (sym t.text))
  | branch {l k : Token} (hl : l.kind = .leftParen) (hk : k.kind = .keyword .branch) :
    Opened [l, k] .branch
  | branchThen {l k : Token} {ts : List Token} {condition : Expr} (hl : l.kind = .leftParen)
      (hk : k.kind = .keyword .branch) (hcondition : Statement sym ts condition) :
    Opened (l :: k :: ts) (.branchThen condition)
  | branchElse {l k : Token} {ts us : List Token} {condition consequent : Expr}
      (hl : l.kind = .leftParen) (hk : k.kind = .keyword .branch)
      (hcondition : Statement sym ts condition) (hconsequent : Statement sym us consequent) :
    Opened (l :: k :: (ts ++ us)) (.branchElse condition consequent)
  | cons {l k : Token} (hl : l.kind = .leftParen) (hk : k.kind = .keyword .cons) :
    Opened [l, k] .cons
  | consCdr {l k : Token} {ts : List Token} {car : Expr} (hl : l.kind = .leftParen)
      (hk : k.kind = .keyword .cons) (hcar : Statement sym ts car) :
    Opened (l :: k :: ts) (.consCdr car)
  | sequence {l k : Token} {ts : List Token} {taken : List Expr} (hl : l.kind = .leftParen)
      (hk : k.kind = .keyword .sequence) (hs : Statements sym ts taken.reverse) :
    Opened (l :: k :: ts) (.sequence taken)
  | body {r : Token} {ws ps ts : List Token} {use : FunctionUse} {params : List Symbol}
      {taken : List Expr} (hheader : Header sym ws use) (hparams : Params sym ps params)
      (hr : r.kind = .rightParen) (hs : Statements sym ts taken.reverse) :
    Opened (ws ++ (ps ++ r :: ts)) (.body use params taken)
  | call {l t : Token} {ts : List Token} {taken : List Expr} (hl : l.kind = .leftParen)
      (ht : t.kind = .symbol) (hs : Statements sym ts taken.reverse) :
    Opened (l :: t :: ts) (.apply (.variable (sym t.text)) taken)
  | apply {l m k r : Token} {fs ts : List Token} {fn : Lambda} {taken : List Expr}
      (hl : l.kind = .leftParen) (hm : m.kind = .leftParen) (hk : k.kind = .keyword .lambda)
      (hfn : Function sym fs fn) (hr : r.kind = .rightParen)
      (hs : Statements sym ts taken.reverse) :
    Opened (l :: m :: k :: (fs ++ r :: ts)) (.apply (.lambda fn) taken)
  | complete {l : Token} {ts : List Token} {e : Expr} (hl : l.kind = .leftParen)
      (h : Form sym ts e) : Opened (l :: ts) (.complete e)

/-- The tokens are those of the complete statements and of the open forms. -/
inductive Nesting : List Token → List Expr → List OpenForm → Prop where
  | statements {ts : List Token} {statements : List Expr}
      (hs : Statements sym ts statements.reverse) : Nesting ts statements []
  | form {ts us : List Token} {statements : List Expr} {f : OpenForm} {forms : List OpenForm}
      (h : Nesting ts statements forms) (htakes : Takes forms) (hf : Opened sym us f) :
    Nesting (ts ++ us) statements (f :: forms)

/-- The tokens open quoted lists inside each other and are their items. -/
inductive Nested : List Token → List Literal → List (List Literal) → Prop where
  | list {l : Token} {ts : List Token} {taken : List Literal} (hl : l.kind = .leftParen)
      (hitems : Items sym ts taken.reverse) : Nested (l :: ts) taken []
  | inner {l : Token} {ts us : List Token} {taken around : List Literal}
      {outer : List (List Literal)} (h : Nested ts around outer) (hl : l.kind = .leftParen)
      (hitems : Items sym us taken.reverse) : Nested (ts ++ l :: us) taken (around :: outer)

/-- The tokens since the innermost open form, of what is not a form of its own yet. -/
inductive Pending : List Token → Expecting → Prop where
  | expression : Pending [] .expression
  | head {l : Token} (hl : l.kind = .leftParen) : Pending [l] .head
  | operator {l m : Token} (hl : l.kind = .leftParen) (hm : m.kind = .leftParen) :
    Pending [l, m] .operator
  | definition {l k : Token} (hl : l.kind = .leftParen) (hk : k.kind = .keyword .define) :
    Pending [l, k] .definition
  | functionName {l k m : Token} (hl : l.kind = .leftParen) (hk : k.kind = .keyword .define)
      (hm : m.kind = .leftParen) : Pending [l, k, m] .functionName
  | assigned {l k : Token} (hl : l.kind = .leftParen) (hk : k.kind = .keyword .assign) :
    Pending [l, k] .assigned
  | params {l k : Token} (hl : l.kind = .leftParen) (hk : k.kind = .keyword .lambda) :
    Pending [l, k] (.params .expression)
  | operatorParams {l m k : Token} (hl : l.kind = .leftParen) (hm : m.kind = .leftParen)
      (hk : k.kind = .keyword .lambda) : Pending [l, m, k] (.params .operator)
  | param {ws ps : List Token} {use : FunctionUse} {taken : List Symbol}
      (hheader : Header sym ws use) (hparams : Params sym ps taken.reverse) :
    Pending (ws ++ ps) (.param use taken)
  | quoted {q : Token} (hq : q.kind = .quote) : Pending [q] .quoted
  | item {q : Token} {ts : List Token} {taken : List Literal} {outer : List (List Literal)}
      (hq : q.kind = .quote) (hnested : Nested sym ts taken outer) :
    Pending (q :: ts) (.item taken outer)

/-- The tokens spell what the assembly holds. -/
inductive Spelled : List Token → Assembly → Prop where
  | mk {a : Assembly} {ts us vs : List Token} (htokens : ts = us ++ vs)
      (hnesting : Nesting sym us a.statements a.forms) (hpending : Pending sym vs a.expecting)
      (htakes : a.expecting ≠ .expression → Takes a.forms) : Spelled ts a

variable {sym}

/-! ### Taking expressions -/

/-- An open form takes an expression with its tokens. -/
private theorem Opened.take {ts us : List Token} {f : OpenForm} {forms : List OpenForm} {e : Expr}
    (hf : Opened sym ts f) (htakes : Takes (f :: forms)) (h : Statement sym us e)
    (a : Assembly) :
    ∃ f', a.deliver e (f :: forms) = a.within (f' :: forms) ∧ Opened sym (ts ++ us) f' := by
  cases hf with
  | define hl hk ht => exact ⟨_, rfl, .complete hl (.define hk ht h)⟩
  | assign hl hk ht => exact ⟨_, rfl, .complete hl (.assign hk ht h)⟩
  | branch hl hk => exact ⟨_, rfl, .branchThen hl hk h⟩
  | branchThen hl hk hcondition => exact ⟨_, rfl, .branchElse hl hk hcondition h⟩
  | branchElse hl hk hcondition hconsequent =>
    have hform := Form.branch hk hcondition hconsequent h
    rw [← List.append_assoc] at hform
    exact ⟨_, rfl, .complete hl hform⟩
  | cons hl hk => exact ⟨_, rfl, .consCdr hl hk h⟩
  | consCdr hl hk hcar => exact ⟨_, rfl, .complete hl (.cons hk hcar h)⟩
  -- What has been taken is kept latest first, and its tokens come last.
  | @sequence l k ts taken hl hk hs =>
    have hs' := hs.snoc h
    rw [← List.reverse_cons] at hs'
    exact ⟨_, rfl, .sequence hl hk hs'⟩
  | @body r ws ps ts use params taken hheader hparams hr hs =>
    have hs' := hs.snoc h
    rw [← List.reverse_cons] at hs'
    refine ⟨_, rfl, ?_⟩
    rw [List.append_assoc, List.append_assoc, List.cons_append]
    exact .body hheader hparams hr hs'
  | call hl ht hs =>
    have hs' := hs.snoc h
    rw [← List.reverse_cons] at hs'
    exact ⟨_, rfl, .call hl ht hs'⟩
  | apply hl hm hk hfn hr hs =>
    have hs' := hs.snoc h
    rw [← List.reverse_cons] at hs'
    refine ⟨_, rfl, ?_⟩
    simp only [List.cons_append, List.append_assoc]
    exact .apply hl hm hk hfn hr hs'
  | complete => cases htakes

/-- A complete expression is taken with its tokens. -/
theorem Spelled.deliver {a : Assembly} {ts us : List Token} {forms : List OpenForm} {e : Expr}
    (hnesting : Nesting sym ts a.statements forms) (htakes : Takes forms)
    (h : Statement sym us e) : Spelled sym (ts ++ us) (a.deliver e forms) := by
  -- Either a statement is over, or the innermost open form has one more part.
  cases hnesting with
  | statements hs =>
    have hs' := hs.snoc h
    rw [← List.reverse_cons] at hs'
    exact .mk (List.append_nil _).symm (.statements hs') .expression fun hne => absurd rfl hne
  | form houter houtertakes hf =>
    obtain ⟨f', hdeliver, hf'⟩ := hf.take htakes h a
    rw [hdeliver, List.append_assoc]
    exact .mk (List.append_nil _).symm (.form houter houtertakes hf') .expression
      fun hne => absurd rfl hne

/-- A complete function goes where it is used, with its tokens. -/
private theorem Spelled.deliverFunction {a : Assembly} {ts ws ps us : List Token} {r r' : Token}
    {forms : List OpenForm} {use : FunctionUse} {params : List Symbol} {body : List Expr}
    (hnesting : Nesting sym ts a.statements forms) (htakes : Takes forms)
    (hheader : Header sym ws use) (hparams : Params sym ps params) (hr : r.kind = .rightParen)
    (hbody : Body sym us body) (hr' : r'.kind = .rightParen) :
    Spelled sym (ts ++ (ws ++ (ps ++ r :: (us ++ [r']))))
      (a.deliverFunction use (.mk params body) forms) := by
  cases hheader with
  | expression hl hk hm =>
    have h := Statement.form hl (.lambda hk (.mk hm hparams hr hbody)) hr'
    simp only [List.cons_append, List.append_assoc, List.nil_append] at h ⊢
    exact .deliver hnesting htakes h
  | operator hl hm hk hn =>
    have hopened : Opened sym _ (.apply (.lambda (.mk params body)) []) :=
      .apply hl hm hk (.mk hn hparams hr hbody) hr' .nil
    simp only [List.cons_append, List.append_assoc, List.nil_append] at hopened ⊢
    exact .mk (List.append_nil _).symm (.form hnesting htakes hopened) .expression
      fun hne => absurd rfl hne
  | definition hl hk hm ht =>
    have h := Statement.form hl (.defineFunction hk hm ht hparams hr hbody) hr'
    simp only [List.cons_append, List.append_assoc, List.nil_append] at h ⊢
    exact .deliver hnesting htakes h

/-! ### One step -/

/-- Before the first parameter. -/
private theorem Pending.ofHeader {ws : List Token} {use : FunctionUse} (h : Header sym ws use) :
    Pending sym ws (.param use []) := by
  have hparams : Params sym [] ([] : List Symbol).reverse :=
    ⟨List.forall_mem_nil _, List.nodup_nil, rfl⟩
  have hparam := Pending.param h hparams
  rw [List.append_nil] at hparam
  exact hparam

/-- The innermost quoted list takes an item with its tokens. -/
private theorem Nested.take {ts us : List Token} {taken : List Literal}
    {outer : List (List Literal)}
    {item : Literal} (h : Nested sym ts taken outer) (hitem : Items sym us [item]) :
    Nested sym (ts ++ us) (item :: taken) outer := by
  cases h with
  | list hl hitems =>
    have hitems' := hitems.append hitem
    rw [← List.reverse_cons] at hitems'
    exact .list hl hitems'
  | inner houter hl hitems =>
    have hitems' := hitems.append hitem
    rw [← List.reverse_cons] at hitems'
    rw [List.append_assoc, List.cons_append]
    exact .inner houter hl hitems'

/-- Where an expression comes next, there are no other tokens than those of statements and
    open forms. -/
private theorem Spelled.nesting {a : Assembly} {ts : List Token} (h : Spelled sym ts a)
    (ha : a.expecting = .expression) : Nesting sym ts a.statements a.forms := by
  obtain ⟨rfl, hnesting, hpending, _⟩ := h
  rw [ha] at hpending
  cases hpending
  rw [List.append_nil]
  exact hnesting

/-- The last of them are those of the innermost open form. -/
private theorem Spelled.innermost {a : Assembly} {ts : List Token} {f : OpenForm}
    {forms : List OpenForm} (h : Spelled sym ts a) (ha : a.expecting = .expression)
    (hforms : a.forms = f :: forms) :
    ∃ us vs, ts = us ++ vs ∧ Nesting sym us a.statements forms ∧ Takes forms ∧
      Opened sym vs f := by
  have hnesting := h.nesting ha
  rw [hforms] at hnesting
  cases hnesting with
  | form houter htakes hf => exact ⟨_, _, rfl, houter, htakes, hf⟩

/-- Anywhere else there are, and the form around them may take what they begin. -/
private theorem Spelled.pending {a : Assembly} {ts : List Token} {x : Expecting}
    (h : Spelled sym ts a) (ha : a.expecting = x) (hx : x ≠ .expression) :
    ∃ us vs, ts = us ++ vs ∧ Nesting sym us a.statements a.forms ∧ Takes a.forms ∧
      Pending sym vs x := by
  obtain ⟨rfl, hnesting, hpending, htakes⟩ := h
  rw [ha] at hpending htakes
  exact ⟨_, _, rfl, hnesting, htakes hx, hpending⟩

/-- Where the first word of a form comes next, its parenthesis is the last token. -/
private theorem Spelled.head {a : Assembly} {ts : List Token} (h : Spelled sym ts a)
    (ha : a.expecting = .head) :
    ∃ us l, ts = us ++ [l] ∧ Nesting sym us a.statements a.forms ∧ Takes a.forms ∧
      l.kind = .leftParen := by
  obtain ⟨us, vs, rfl, hnesting, htakes, hpending⟩ := h.pending ha nofun
  cases hpending with
  | head hl => exact ⟨us, _, rfl, hnesting, htakes, hl⟩

/-- One more token of what is not a form yet. -/
private theorem Spelled.more {b : Assembly} {us vs : List Token} {t : Token}
    (hnesting : Nesting sym us b.statements b.forms) (htakes : Takes b.forms)
    (hpending : Pending sym (vs ++ [t]) b.expecting) : Spelled sym (us ++ vs ++ [t]) b :=
  .mk (List.append_assoc us vs [t]) hnesting hpending fun _ => htakes

/-- The last token before a form takes expressions. -/
private theorem Spelled.opened {a : Assembly} {us vs : List Token} {t : Token} {f : OpenForm}
    (hnesting : Nesting sym us a.statements a.forms) (htakes : Takes a.forms)
    (hf : Opened sym (vs ++ [t]) f) : Spelled sym (us ++ vs ++ [t]) (a.within (f :: a.forms)) := by
  have hnesting' := Nesting.form hnesting htakes hf
  rw [← List.append_assoc] at hnesting'
  exact .mk (List.append_nil _).symm hnesting' .expression fun hne => absurd rfl hne

/-- The token that ends a form, which is taken by the one around it. -/
private theorem Spelled.closed {a : Assembly} {us vs : List Token} {t : Token}
    {forms : List OpenForm}
    {e : Expr} (hnesting : Nesting sym us a.statements forms) (htakes : Takes forms)
    (h : Statement sym (vs ++ [t]) e) : Spelled sym (us ++ vs ++ [t]) (a.deliver e forms) := by
  rw [List.append_assoc]
  exact .deliver hnesting htakes h

/-- Each step adds its token to those that spell the assembly. -/
private theorem Spelled.fits {a b : Assembly} {ts : List Token} {t : Token} (h : Spelled sym ts a)
    (hfits : Assembly.Fits a t b) (hagrees : Agrees sym (a.symbols.internToken t)) :
    Spelled sym (ts ++ [t]) b := by
  have hsym : t.kind = .symbol → a.symbols.symbolOf t.text = sym t.text := hagrees.of_symbol
  cases hfits with
  -- An expression comes next: the token is one, or begins one.
  | atom ha htakes hatom =>
    exact .deliver (h.nesting ha) htakes (.atom ((atom_symbolOf_iff hagrees).mp hatom))
  | quote ha htakes ht => exact .mk rfl (h.nesting ha) (.quoted ht) fun _ => htakes
  | opening ha htakes ht => exact .mk rfl (h.nesting ha) (.head ht) fun _ => htakes
  -- Or it ends the innermost form, whose tokens are a statement together with it.
  | closeComplete ha hforms ht =>
    obtain ⟨us, vs, rfl, houter, htakes, hf⟩ := h.innermost ha hforms
    cases hf with
    | complete hl hform => exact .closed houter htakes (.form hl hform ht)
  | closeSequence ha hforms hne ht =>
    obtain ⟨us, vs, rfl, houter, htakes, hf⟩ := h.innermost ha hforms
    cases hf with
    | sequence hl hk hs =>
      have hbody := Body.of_statements hs fun heq => hne (List.reverse_eq_nil_iff.mp heq)
      exact .closed houter htakes (.form hl (.sequence hk hbody) ht)
  | closeBody ha hforms hne ht =>
    obtain ⟨us, vs, rfl, houter, htakes, hf⟩ := h.innermost ha hforms
    cases hf with
    | body hheader hparams hr hs =>
      have hbody := Body.of_statements hs fun heq => hne (List.reverse_eq_nil_iff.mp heq)
      simp only [List.append_assoc, List.cons_append]
      exact .deliverFunction houter htakes hheader hparams hr hbody ht
  | closeApply ha hforms ht =>
    obtain ⟨us, vs, rfl, houter, htakes, hf⟩ := h.innermost ha hforms
    cases hf with
    | call hl hhead hs => exact .closed houter htakes (.form hl (.call hhead hs) ht)
    | apply hl hm hk hfn hr hs =>
      exact .closed houter htakes (.form hl (.apply hm hk hfn hr hs) ht)
  -- The first word of a form.
  | define ha ht =>
    obtain ⟨us, l, rfl, hnesting, htakes, hl⟩ := h.head ha
    exact .more hnesting htakes (.definition hl ht)
  | lambda ha ht =>
    obtain ⟨us, l, rfl, hnesting, htakes, hl⟩ := h.head ha
    exact .more hnesting htakes (.params hl ht)
  | branch ha ht =>
    obtain ⟨us, l, rfl, hnesting, htakes, hl⟩ := h.head ha
    exact .opened hnesting htakes (.branch hl ht)
  | sequence ha ht =>
    obtain ⟨us, l, rfl, hnesting, htakes, hl⟩ := h.head ha
    exact .opened hnesting htakes (.sequence hl ht .nil)
  | assign ha ht =>
    obtain ⟨us, l, rfl, hnesting, htakes, hl⟩ := h.head ha
    exact .more hnesting htakes (.assigned hl ht)
  | cons ha ht =>
    obtain ⟨us, l, rfl, hnesting, htakes, hl⟩ := h.head ha
    exact .opened hnesting htakes (.cons hl ht)
  | function ha ht =>
    obtain ⟨us, l, rfl, hnesting, htakes, hl⟩ := h.head ha
    exact .more hnesting htakes (.operator hl ht)
  | call ha ht =>
    obtain ⟨us, l, rfl, hnesting, htakes, hl⟩ := h.head ha
    rw [hsym ht]
    exact .opened hnesting htakes (.call hl ht .nil)
  -- Names that are bound or changed.
  | operator ha ht =>
    obtain ⟨us, vs, rfl, hnesting, htakes, hpending⟩ := h.pending ha nofun
    cases hpending with
    | operator hl hm => exact .more hnesting htakes (.operatorParams hl hm ht)
  | openDefinition ha ht =>
    obtain ⟨us, vs, rfl, hnesting, htakes, hpending⟩ := h.pending ha nofun
    cases hpending with
    | definition hl hk => exact .more hnesting htakes (.functionName hl hk ht)
  | defined ha ht =>
    obtain ⟨us, vs, rfl, hnesting, htakes, hpending⟩ := h.pending ha nofun
    cases hpending with
    | definition hl hk =>
      rw [hsym ht]
      exact .opened hnesting htakes (.define hl hk ht)
  | functionName ha ht =>
    obtain ⟨us, vs, rfl, hnesting, htakes, hpending⟩ := h.pending ha nofun
    cases hpending with
    | functionName hl hk hm =>
      rw [hsym ht]
      exact .more hnesting htakes (.ofHeader (.definition hl hk hm ht))
  | assigned ha ht =>
    obtain ⟨us, vs, rfl, hnesting, htakes, hpending⟩ := h.pending ha nofun
    cases hpending with
    | assigned hl hk =>
      rw [hsym ht]
      exact .opened hnesting htakes (.assign hl hk ht)
  -- Parameters.
  | openParams ha ht =>
    obtain ⟨us, vs, rfl, hnesting, htakes, hpending⟩ := h.pending ha nofun
    cases hpending with
    | params hl hk => exact .more hnesting htakes (.ofHeader (.expression hl hk ht))
    | operatorParams hl hm hk => exact .more hnesting htakes (.ofHeader (.operator hl hm hk ht))
  | param ha ht hnew =>
    obtain ⟨us, vs, rfl, hnesting, htakes, hpending⟩ := h.pending ha nofun
    cases hpending with
    | param hheader hparams =>
      rw [hsym ht] at hnew ⊢
      have hparams' := hparams.snoc ht fun hmem => hnew (List.mem_reverse.mp hmem)
      rw [← List.reverse_cons] at hparams'
      have hpending := Pending.param hheader hparams'
      rw [← List.append_assoc] at hpending
      exact .more hnesting htakes hpending
  | closeParams ha ht =>
    obtain ⟨us, vs, rfl, hnesting, htakes, hpending⟩ := h.pending ha nofun
    cases hpending with
    | param hheader hparams =>
      have hopened : Opened sym _ (.body _ _ []) := .body hheader hparams ht .nil
      rw [← List.append_assoc] at hopened
      exact .opened hnesting htakes hopened
  -- Quoted names and lists.
  | quoted ha ht =>
    obtain ⟨us, vs, rfl, hnesting, htakes, hpending⟩ := h.pending ha nofun
    cases hpending with
    | quoted hq =>
      rw [hsym ht]
      exact .closed hnesting htakes (.quoted hq ht)
  | openData ha ht =>
    obtain ⟨us, vs, rfl, hnesting, htakes, hpending⟩ := h.pending ha nofun
    cases hpending with
    | quoted hq => exact .more hnesting htakes (.item hq (.list ht .nil))
  | item ha hatom =>
    obtain ⟨us, vs, rfl, hnesting, htakes, hpending⟩ := h.pending ha nofun
    cases hpending with
    | item hq hnested =>
      have hitem := Items.atom ((atom_symbolOf_iff hagrees).mp hatom) .nil
      exact .more hnesting htakes (.item hq (hnested.take hitem))
  | openItem ha ht =>
    obtain ⟨us, vs, rfl, hnesting, htakes, hpending⟩ := h.pending ha nofun
    cases hpending with
    | item hq hnested => exact .more hnesting htakes (.item hq (.inner hnested ht .nil))
  | closeItem ha ht =>
    obtain ⟨us, vs, rfl, hnesting, htakes, hpending⟩ := h.pending ha nofun
    cases hpending with
    | item hq hnested =>
      cases hnested with
      | inner houter hl hitems =>
        have hnested' := houter.take (.list hl hitems ht .nil)
        rw [← List.cons_append, ← List.append_assoc] at hnested'
        exact .more hnesting htakes (.item hq hnested')
  | closeData ha ht =>
    obtain ⟨us, vs, rfl, hnesting, htakes, hpending⟩ := h.pending ha nofun
    cases hpending with
    | item hq hnested =>
      cases hnested with
      | list hl hitems => exact .closed hnesting htakes (.data hq hl hitems ht)

/-! ### A whole program -/

/-- Feeding tokens keeps the account of which tokens have been read as what. -/
theorem Spelled.feed {a b : Assembly} {ts us : List Token} (h : Spelled sym ts a)
    (hfeed : a.feed us = (b, none)) (hagrees : Agrees sym (a.symbols.internTokens us)) :
    Spelled sym (ts ++ us) b := by
  induction us generalizing a ts with
  | nil =>
    cases hfeed
    rw [List.append_nil]
    exact h
  | cons t us ih =>
    cases hstep : a.step t with
    | error misfit =>
      rw [Assembly.feed_cons_of_error hstep] at hfeed
      cases hfeed
    | ok c =>
      rw [Assembly.feed_cons_of_ok hstep] at hfeed
      -- The symbols agree with the last table, and so with the one after this token.
      rw [SymbolTable.internTokens_cons, ← Assembly.symbols_step hstep] at hagrees
      have hagrees' := hagrees.of_internTokens
      rw [Assembly.symbols_step hstep] at hagrees'
      rw [List.append_cons]
      exact ih (h.fits (Assembly.fits_of_step hstep) hagrees') hfeed hagrees

/-- Nothing is spelled by no tokens. -/
theorem spelled_start (symbols : SymbolTable) : Spelled sym [] (Assembly.start symbols) :=
  .mk rfl (.statements .nil) .expression fun hne => absurd rfl hne

/-- What is complete is a program. -/
theorem Spelled.program {a : Assembly} {ts : List Token} (h : Spelled sym ts a)
    (hcomplete : a.isComplete = true) : Program sym ts a.statements.reverse := by
  -- Nothing is open and nothing is pending, so that the tokens spell statements only.
  obtain ⟨rfl, hnesting, hpending, _⟩ := h
  unfold Assembly.isComplete at hcomplete
  split at hcomplete
  · rename_i ha hforms
    rw [ha] at hpending
    rw [hforms] at hnesting
    cases hpending
    cases hnesting with
    | statements hs =>
      rw [List.append_nil]
      exact hs
  · cases hcomplete

end Grammar

end LispSession
