import LispSession.Proofs.Grammar.Complete
import LispSession.Proofs.Lexing.Tokens

/-!
# The first token that does not fit

Whatever fits can still become a program: each assembly has a way to go on, which ends
what is open from the inside out. So the tokens before the one that a parse error names
can be continued to a program, and since a token fits or does not fit whatever comes
later, no program starts with them and that token.

* `completable`            every assembly can go on to a complete one
* `exists_first_misfit`    where the reading of tokens stops
* `readProgram_misfit`     what a parse error says of a text
-/

namespace LispSession

/-- The token occurs in some text. -/
def Token.Genuine (t : Token) : Prop := ∃ text, t ∈ significantTokens text

/-- The token is recognized, and all that its characters alone are read as. -/
structure Token.Writable (t : Token) : Prop where
  reads : significantTokens t.text = [t]
  recognized : t.kind ≠ .unrecognized

/-- A token that can be written alone is a token of some text. -/
private theorem Token.Writable.genuine {t : Token} (h : t.Writable) : t.Genuine :=
  ⟨_, h.reads ▸ List.mem_singleton_self t⟩

/-- There are tokens of all the kinds that are needed to complete a program. -/
private theorem exists_writable (kind : TokenKind)
    (h : kind ∈ [.leftParen, .rightParen, .boolean, .symbol, .keyword .lambda,
      .keyword .sequence]) : ∃ t : Token, t.Writable ∧ t.kind = kind := by
  have hall : ∀ kind ∈ [TokenKind.leftParen, .rightParen, .boolean, .symbol, .keyword .lambda,
      .keyword .sequence], kind ≠ .unrecognized ∧
      ∃ text ∈ ["(", ")", "#t", "x", "lambda", "begin"], ∃ t ∈ significantTokens text,
        t.kind = kind ∧ significantTokens t.text = [t] := by decide +kernel
  obtain ⟨hne, _, _, t, _, hkind, ht⟩ := hall kind h
  exact ⟨t, ⟨ht, hkind ▸ hne⟩, hkind⟩

namespace Assembly

/-- Some tokens lead to an assembly after which the program may end. -/
inductive Completable : Assembly → Prop where
  | done {a : Assembly} (h : a.isComplete = true) : Completable a
  | step {a b : Assembly} {t : Token} (ht : t.Writable) (h : Fits a t b) (hb : Completable b) :
    Completable a

/-! ### Where an expression may come next -/

/-- After an expression has been handed on, another one is expected. -/
@[simp] theorem expecting_deliver (a : Assembly) (e : Expr) (forms : List OpenForm) :
    (a.deliver e forms).expecting = .expression := by
  unfold deliver
  split <;> rfl

/-- Taking an expression opens and closes no form. -/
@[simp] theorem length_forms_deliver (a : Assembly) (e : Expr) (forms : List OpenForm) :
    (a.deliver e forms).forms.length = forms.length := by
  unfold deliver
  split <;> rfl

section

-- All assemblies with fewer open forms, where an expression comes next, can go on.
variable {n : Nat}
  (ih : ∀ a : Assembly, a.expecting = .expression → a.forms.length = n → Completable a)
  {forms : List OpenForm} (hforms : forms.length = n) {statements : List Expr}
  {symbols : SymbolTable}

include ih hforms

/-- Handing an expression to the forms around it leaves fewer of them open. -/
private theorem completable_deliver (a : Assembly) (e : Expr) : Completable (a.deliver e forms) :=
  ih _ (expecting_deliver a e forms) ((length_forms_deliver a e forms).trans hforms)

/-- A form whose parts are all there only lacks its parenthesis. -/
private theorem completable_complete (e : Expr) :
    Completable ⟨.expression, .complete e :: forms, statements, symbols⟩ := by
  obtain ⟨r, hwritable, hr⟩ := exists_writable .rightParen (by decide)
  exact .step hwritable (.closeComplete rfl rfl hr) (completable_deliver ih hforms _ e)

/-- A call may end after any arguments. -/
private theorem completable_apply (operator : Operator) (taken : List Expr) :
    Completable ⟨.expression, .apply operator taken :: forms, statements, symbols⟩ := by
  obtain ⟨r, hwritable, hr⟩ := exists_writable .rightParen (by decide)
  exact .step hwritable (.closeApply rfl rfl hr) (completable_deliver ih hforms _ _)

/-- A sequence may end after its first expression. -/
private theorem completable_sequence (e : Expr) (taken : List Expr) :
    Completable ⟨.expression, .sequence (e :: taken) :: forms, statements, symbols⟩ := by
  obtain ⟨r, hwritable, hr⟩ := exists_writable .rightParen (by decide)
  exact .step hwritable (.closeSequence rfl rfl (List.cons_ne_nil e taken) hr)
    (completable_deliver ih hforms _ _)

/-- A function that is applied becomes an open form of its own before it is complete. -/
private theorem completable_body (use : FunctionUse) (params : List Symbol) (e : Expr)
    (taken : List Expr) :
    Completable ⟨.expression, .body use params (e :: taken) :: forms, statements, symbols⟩ := by
  obtain ⟨r, hwritable, hr⟩ := exists_writable .rightParen (by decide)
  refine .step hwritable (.closeBody rfl rfl (List.cons_ne_nil e taken) hr) ?_
  cases use with
  | expression => exact completable_deliver ih hforms _ _
  | operator => exact completable_apply ih hforms _ []
  | definition name => exact completable_deliver ih hforms _ _

end

/-- A form that may take an expression can go on if it can after a literal. -/
private theorem completable_of_literal {forms : List OpenForm} {statements : List Expr}
    {symbols : SymbolTable} (htakes : Takes forms)
    (h : ∀ b symbols, Completable (given (.boolean b) forms statements symbols)) :
    Completable ⟨.expression, forms, statements, symbols⟩ := by
  obtain ⟨t, hwritable, ht⟩ := exists_writable .boolean (by decide)
  refine .step hwritable (.atom rfl htakes (.boolean ht)) ?_
  rw [deliver_eq_given]
  exact h _ _

/-- Every assembly that waits for an expression can go on. -/
private theorem completable_of_expression {a : Assembly} (ha : a.expecting = .expression) :
    Completable a := by
  generalize hn : a.forms.length = n
  induction n generalizing a with
  | zero =>
    obtain ⟨expecting, forms, statements, symbols⟩ := a
    cases ha
    cases List.length_eq_zero_iff.mp hn
    exact .done rfl
  | succ n ih' =>
    obtain ⟨expecting, forms, statements, symbols⟩ := a
    cases ha
    obtain ⟨f, forms, rfl⟩ := List.exists_cons_of_length_eq_add_one hn
    have hforms : forms.length = n := Nat.succ.inj hn
    have ih : ∀ a : Assembly, a.expecting = .expression → a.forms.length = n → Completable a :=
      fun a ha hlength => ih' ha hlength
    -- The innermost form is ended, after literals for the expressions it still lacks.
    cases f with
    | complete e => exact completable_complete ih hforms e
    | apply operator taken => exact completable_apply ih hforms operator taken
    | sequence taken =>
      cases taken with
      | nil => exact completable_of_literal trivial fun _ _ => completable_sequence ih hforms _ []
      | cons e taken => exact completable_sequence ih hforms e taken
    | body use params taken =>
      cases taken with
      | nil =>
        exact completable_of_literal trivial fun _ _ => completable_body ih hforms use params _ []
      | cons e taken => exact completable_body ih hforms use params e taken
    | define | assign | branchElse | consCdr =>
      exact completable_of_literal trivial fun _ _ => completable_complete ih hforms _
    | branchThen | cons =>
      refine completable_of_literal trivial fun _ _ => ?_
      exact completable_of_literal trivial fun _ _ => completable_complete ih hforms _
    | branch =>
      refine completable_of_literal trivial fun _ _ => ?_
      refine completable_of_literal trivial fun _ _ => ?_
      exact completable_of_literal trivial fun _ _ => completable_complete ih hforms _

/-! ### Everywhere else -/

/-- Parameters may end at once, and a body comes next. -/
private theorem completable_param {a : Assembly} {use : FunctionUse} {taken : List Symbol}
    (ha : a.expecting = .param use taken) : Completable a := by
  obtain ⟨r, hwritable, hr⟩ := exists_writable .rightParen (by decide)
  exact .step hwritable (.closeParams ha hr) (completable_of_expression rfl)

/-- The parameters of a function can be opened and ended. -/
private theorem completable_params {a : Assembly} {use : FunctionUse}
    (ha : a.expecting = .params use) : Completable a := by
  obtain ⟨l, hwritable, hl⟩ := exists_writable .leftParen (by decide)
  exact .step hwritable (.openParams ha hl) (completable_param rfl)

/-- The quoted lists that are open are ended one after the other. -/
private theorem completable_item {a : Assembly} {taken : List Literal} {outer : List (List Literal)}
    (ha : a.expecting = .item taken outer) : Completable a := by
  obtain ⟨r, hwritable, hr⟩ := exists_writable .rightParen (by decide)
  induction outer generalizing a taken with
  | nil => exact .step hwritable (.closeData ha hr) (completable_of_expression (by simp))
  | cons around outer ih => exact .step hwritable (.closeItem ha hr) (ih rfl)

/-- Every assembly can go on to a complete one. -/
theorem completable (a : Assembly) : Completable a := by
  obtain ⟨t, hwritable, ht⟩ := exists_writable .symbol (by decide)
  -- For each thing that may be expected there is a token that fits.
  cases ha : a.expecting with
  | expression => exact completable_of_expression ha
  | head =>
    obtain ⟨k, hwritable, hk⟩ := exists_writable (.keyword .sequence) (by decide)
    exact .step hwritable (.sequence ha hk) (completable_of_expression rfl)
  | operator =>
    obtain ⟨k, hwritable, hk⟩ := exists_writable (.keyword .lambda) (by decide)
    exact .step hwritable (.operator ha hk) (completable_params rfl)
  | definition => exact .step hwritable (.defined ha ht) (completable_of_expression rfl)
  | functionName => exact .step hwritable (.functionName ha ht) (completable_param rfl)
  | assigned => exact .step hwritable (.assigned ha ht) (completable_of_expression rfl)
  | params use => exact completable_params ha
  | param use taken => exact completable_param ha
  | quoted => exact .step hwritable (.quoted ha ht) (completable_of_expression (by simp))
  | item taken outer => exact completable_item ha

/-- What can be completed is completed by some tokens that can be written. -/
theorem Completable.exists_feeds {a : Assembly} (h : Completable a) :
    ∃ more b, (∀ t ∈ more, t.Writable) ∧ Feeds a more b ∧ b.isComplete = true := by
  -- The tokens are those of the steps, in order.
  induction h with
  | @done a h => exact ⟨[], a, List.forall_mem_nil _, .nil a, h⟩
  | @step a b t ht hfits _ ih =>
    obtain ⟨more, c, hwritable, hfeeds, hcomplete⟩ := ih
    exact ⟨t :: more, c, List.forall_mem_cons.mpr ⟨ht, hwritable⟩, .cons hfits hfeeds, hcomplete⟩

/-! ### Where the reading of tokens stops -/

/-- If not all tokens fit, there is a first one that does not fit after those before it. -/
theorem exists_first_misfit {a b : Assembly} {tokens : List Token} {e : ParseError}
    (h : a.feed tokens = (b, some e)) :
    ∃ before rest, tokens = before ++ e.token :: rest ∧ Feeds a before b ∧
      b.step e.token = .error e.misfit := by
  -- Up to the first token that does not fit, every token is taken.
  induction tokens generalizing a with
  | nil => cases h
  | cons t tokens ih =>
    cases hstep : a.step t with
    | error misfit =>
      rw [feed_cons_of_error hstep] at h
      cases h
      exact ⟨[], tokens, rfl, .nil _, hstep⟩
    | ok c =>
      rw [feed_cons_of_ok hstep] at h
      obtain ⟨before, rest, rfl, hfeeds, hmisfit⟩ := ih h
      exact ⟨t :: before, rest, rfl, .cons (fits_of_step hstep) hfeeds, hmisfit⟩

end Assembly

/-! ### Token sequences that are programs, or can become programs -/

/-- The tokens are read as a program if the input ends after them. -/
def Accepted (symbols : SymbolTable) (tokens : List Token) : Prop :=
  ∃ last : Token, last.kind = .endOfInput ∧
    ∃ program, (readTokens symbols tokens last).program = .ok program

/-- Some tokens can follow so that all of them are read as a program. -/
def Continuable (symbols : SymbolTable) (tokens : List Token) : Prop :=
  ∃ more, (∀ t ∈ more, t.Genuine) ∧ Accepted symbols (tokens ++ more)

open Assembly

/-- Which end of the input follows does not matter. -/
private theorem accepted_iff {symbols : SymbolTable} {tokens : List Token} :
    Accepted symbols tokens ↔
      ∃ a, Feeds (start symbols) tokens a ∧ a.isComplete = true := by
  constructor
  · rintro ⟨last, hlast, program, h⟩
    -- Only if the tokens fit is the state asked whether it is complete.
    unfold readTokens at h
    split at h
    · rename_i a hfeed
      exact ⟨a, hfeed, ((finish_eq_ok_iff hlast).mp h).1⟩
    · cases h
  · rintro ⟨a, hfeed, hcomplete⟩
    refine ⟨⟨.endOfInput, "", .start, .start⟩, rfl, a.statements.reverse, ?_⟩
    unfold readTokens
    unfold Feeds at hfeed
    rw [hfeed]
    exact (finish_eq_ok_iff rfl).mpr ⟨hcomplete, rfl⟩

/-- Tokens that fit can be continued. -/
private theorem continuable_of_feeds {symbols : SymbolTable} {tokens : List Token} {a : Assembly}
    (h : Feeds (start symbols) tokens a) : Continuable symbols tokens := by
  obtain ⟨more, b, hwritable, hfeeds, hcomplete⟩ := (completable a).exists_feeds
  exact ⟨more, fun t ht => (hwritable t ht).genuine,
    accepted_iff.mpr ⟨b, h.append hfeeds, hcomplete⟩⟩

/-- Nothing that comes later makes a token fit. -/
private theorem not_accepted_of_step {symbols : SymbolTable} {before : List Token} {a : Assembly}
    {t : Token} {misfit : Misfit} (h : Feeds (start symbols) before a)
    (hstep : a.step t = .error misfit) (more : List Token) :
    ¬ Accepted symbols (before ++ t :: more) := by
  intro haccepted
  obtain ⟨b, hfeed, _⟩ := accepted_iff.mp haccepted
  unfold Feeds at h hfeed
  rw [feed_append, h] at hfeed
  simp only [feed_cons_of_error hstep] at hfeed
  cases hfeed

/-- A parse error names the first token that does not fit: the tokens before it can be
    continued to a program, and no program starts with them and it. It names the end of
    the input if and only if all tokens together can be continued and are no program
    themselves. -/
theorem readProgram_misfit {symbols : SymbolTable} {text : String} {e : ParseError}
    (h : (readProgram symbols text).program = .error e) :
    ((∃ before rest, significantTokens text = before ++ e.token :: rest ∧
        Continuable symbols before ∧ ∀ more, ¬ Accepted symbols (before ++ e.token :: more)) ∨
      (e.token = endToken text ∧ Continuable symbols (significantTokens text) ∧
        ¬ Accepted symbols (significantTokens text))) ∧
    (e.isIncomplete = true ↔
      Continuable symbols (significantTokens text) ∧
        ¬ Accepted symbols (significantTokens text)) := by
  have hlast := kind_endToken text
  unfold readProgram readTokens at h
  split at h
  -- All tokens fit, and the input ends too early.
  · rename_i a hfeed
    have hincomplete : a.isComplete ≠ true := by
      intro hcomplete
      have hfinish := (finish_eq_ok_iff hlast).mpr ⟨hcomplete, rfl⟩
      simp only [hfinish] at h
      cases h
    have htoken : e.token = endToken text := by
      obtain ⟨misfit, hmisfit⟩ := a.step_endOfInput hlast
      simp only [finish, if_neg hincomplete, hmisfit] at h
      cases h
      rfl
    have hcontinuable : Continuable symbols (significantTokens text) := continuable_of_feeds hfeed
    have hnot : ¬ Accepted symbols (significantTokens text) := by
      intro haccepted
      obtain ⟨b, hfeeds, hcomplete⟩ := accepted_iff.mp haccepted
      unfold Feeds at hfeeds
      rw [hfeed] at hfeeds
      cases hfeeds
      exact hincomplete hcomplete
    refine ⟨.inr ⟨htoken, hcontinuable, hnot⟩, fun _ => ⟨hcontinuable, hnot⟩, fun _ => ?_⟩
    simp [ParseError.isIncomplete, htoken, hlast]
  -- A token of the text does not fit.
  · rename_i a first hfeed
    cases h
    obtain ⟨before, rest, htokens, hfeeds, hstep⟩ := exists_first_misfit hfeed
    have hcontinuable := continuable_of_feeds hfeeds
    have hnever := not_accepted_of_step hfeeds hstep
    refine ⟨.inl ⟨before, rest, htokens, hcontinuable, hnever⟩, ?_⟩
    have hmem : e.token ∈ significantTokens text := by
      rw [htokens]
      exact List.mem_append_right _ List.mem_cons_self
    have hkind := kind_ne_endOfInput hmem
    constructor
    · intro hincomplete
      exact absurd (eq_of_beq hincomplete) hkind
    · rintro ⟨⟨more, _, haccepted⟩, _⟩
      rw [htokens, List.append_assoc, List.cons_append] at haccepted
      exact absurd haccepted (hnever (rest ++ more))

/-- A parenthesis too many: `(f)` is a program, and no program starts with `(f))`. -/
theorem readProgram_misfit_closing : ∃ e : ParseError,
    (readProgram .empty "(f))").program = .error e ∧
      e.token = ⟨.rightParen, ")", ⟨1, 4⟩, ⟨1, 5⟩⟩ ∧ e.isIncomplete = false ∧
      ¬ (Continuable .empty (significantTokens "(f))") ∧
        ¬ Accepted .empty (significantTokens "(f))")) := by
  -- The reading is computed; that nothing can follow is the general theorem.
  have hrun : (match (readProgram .empty "(f))").program with
      | .ok _ => false
      | .error e => e.token = ⟨.rightParen, ")", ⟨1, 4⟩, ⟨1, 5⟩⟩) = true := by decide +kernel
  split at hrun
  · cases hrun
  · rename_i e herror
    have htoken := of_decide_eq_true hrun
    have hincomplete : e.isIncomplete = false := by rw [ParseError.isIncomplete, htoken]; rfl
    refine ⟨e, herror, htoken, hincomplete, fun hboth => ?_⟩
    have hnot := (readProgram_misfit herror).2.mpr hboth
    rw [hincomplete] at hnot
    cases hnot

end LispSession
