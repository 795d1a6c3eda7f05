import LispSession.Proofs.Sessions.Alike
import LispSession.Proofs.Sessions.Statements

/-!
# Programs, one after the other

A text whose words are those of two programs does what the programs do one after the other.
The names of the second program become known at different times: before the statements of
the first one run, or after. So a name may have one symbol here and another there, but the
environments in the end are alike, and their tables hold the same names.

* `Environment.Settled`         environments between evaluations
* `Interpreter.outcomes`        what the statements of a text do
* `Settled.joins`               a text with the words of two programs
* `Interpreter.evaluate_append` two programs with a newline between them
-/

namespace LispSession

/-- An environment between evaluations: the native functions are bound, and all symbols are
    those of names in the table. -/
structure Environment.Settled (env : Environment) : Prop where
  alike : env.Alike env
  installed : env.AllInstalled Standard.registry

/-- One evaluation does what two others do one after the other. -/
structure Evaluation.Joins (whole first second : Evaluation) : Prop where
  output : whole.output = first.output ++ second.output
  error : whole.error = first.error.or second.error
  env : whole.env.Alike second.env
  symbols : whole.env.symbols.size = second.env.symbols.size

/-! ### Names that become known early -/

/-- The state after names have been interned. -/
def State.withNames (s : State) (names : List String) : State :=
  { s with env := { s.env with symbols := s.env.symbols.internAll names } }

/-- Statements do the same whether names become known before them or after them. -/
private theorem runStatements_withNames {cx : Context} (hcx : cx.registry = Standard.registry)
    {s : State}
    (hs : s.env.Alike s.env) {es : List Expr} (hes : List.Forall₂ (Expr.Alike (s.Same s)) es es)
    (names : List String) :
    (runStatements cx es (s.withNames names) none).2 = (runStatements cx es s none).2 ∧
      (runStatements cx es (s.withNames names) none).1.Alike #[]
        ((runStatements cx es s none).1.withNames names) ∧
      (s.withNames names).Grown s (runStatements cx es (s.withNames names) none).1
        (runStatements cx es s none).1 ∧
      (outcomes cx es (s.withNames names)).map Outcome.shown =
        (outcomes cx es s).map Outcome.shown := by
  -- Only one of the two states knows the names at first, and both do in the end.
  have hsame : ∀ a b, s.Same s a b → (s.withNames names).Same s a b :=
    fun _ _ hab => hab.of_internAll names []
  have henv : (s.withNames names).env.Alike s.env := hs.withSymbols hsame
  have hstart : (s.withNames names).Alike #[] s := ⟨henv, by simp [State.withNames]⟩
  have hes' := Expr.Alike.mono_list hsame hes
  obtain ⟨herror, ⟨henv', houtput⟩, hgrown⟩ := runStatements_alike hcx hstart hes' none
  have hend := henv'.withSymbols fun _ _ hab => hab.of_internAll [] names
  exact ⟨herror, ⟨hend, houtput⟩, hgrown, outcomes_alike hcx hstart hes'⟩

/-- A program that runs after another does what it does on its own, if the names that it
    brings are known before both. -/
private theorem runStatements_joins {cx : Context} (hcx : cx.registry = Standard.registry)
    {s : State} (hs : s.env.Alike s.env) {es fs fs₂ : List Expr} {names : List String}
    (hes : List.Forall₂ (Expr.Alike (s.Same s)) es es)
    (hfatal : ∀ o ∈ outcomes cx es s, o.isFatal = false)
    (hfs : List.Forall₂ (Expr.Alike ((s.withNames names).Same
      ((runStatements cx es s none).1.withNames names))) fs fs₂) :
    let first := runStatements cx es s none
    let start : State := ⟨(first.1.withNames names).env, #[]⟩
    let second := runStatements cx fs₂ start none
    let whole := runStatements cx (es ++ fs) (s.withNames names) none
    whole.2 = first.2.or second.2 ∧ whole.1.Alike first.1.output second.1 ∧
      whole.1.env.symbols.Permuted second.1.env.symbols ∧
      (outcomes cx (es ++ fs) (s.withNames names)).map Outcome.shown =
        (outcomes cx es s).map Outcome.shown ++ (outcomes cx fs₂ start).map Outcome.shown := by
  intro first start second whole
  obtain ⟨herror, hbetween, hgrown, hshown⟩ := runStatements_withNames hcx hs hes names
  have hfatal' := not_fatal_of_shown (fun _ hx => hshown ▸ hx) hfatal
  -- The second program starts here with the lines of the first one written.
  have hstart : (runStatements cx es (s.withNames names) none).1.Alike first.1.output start :=
    ⟨hbetween.env, by rw [hbetween.output]; simp [start, first, State.withNames]⟩
  have hfs' : List.Forall₂ (Expr.Alike
      ((runStatements cx es (s.withNames names) none).1.Same start)) fs fs₂ := by
    obtain ⟨others, hothers, _⟩ := hgrown
    refine Expr.Alike.mono_list (fun _ _ hab => ?_) hfs
    simp only [State.Same, Environment.Same, hothers]
    exact hab.of_internAll others []
  -- It starts with the first error, too, which its own errors do not replace.
  obtain ⟨herror₂, hend, hgrown₂⟩ := runStatements_alike hcx hstart hfs' first.2
  rw [runStatements_first fs₂] at herror₂ hend hgrown₂
  simp only [whole, runStatements_append hfatal' none, outcomes_append hfatal' none, herror,
    List.map_append, hshown, outcomes_alike hcx hstart hfs', and_true]
  exact ⟨herror₂, hend, hgrown.permuted.of_grown hgrown₂⟩

/-! ### Texts -/

namespace Interpreter

open Environment

/-- The outcomes of the statements of a text, in order. A text that is no program has no
    statements. -/
def outcomes (interpreter : Interpreter) (env : Environment) (text : String) :
    List (Outcome Value) :=
  match interpreter.read env text with
  | .ok program =>
    LispSession.outcomes interpreter.context program ⟨interpreter.prepare env text, #[]⟩
  | .error _ => []

/-- A program has the outcomes of its statements. -/
private theorem outcomes_of_ok {interpreter : Interpreter} {env : Environment} {text : String}
    {program : List Expr} (h : interpreter.read env text = .ok program) :
    interpreter.outcomes env text =
      LispSession.outcomes interpreter.context program ⟨interpreter.prepare env text, #[]⟩ := by
  unfold outcomes
  rw [h]

/-- The evaluation of a text runs these statements: all, each once, in order and whatever those
    before it did, unless one of them exhausts the stack. -/
structure Runs (interpreter : Interpreter) (env : Environment) (text : String)
    (program : List Expr) : Prop where
  read : interpreter.read env text = .ok program
  inOrder : InOrder interpreter.context program ⟨interpreter.prepare env text, #[]⟩
    (interpreter.outcomes env text)
  all : (∀ o ∈ interpreter.outcomes env text, o.isFatal = false) →
    (interpreter.outcomes env text).length = program.length
  /-- The first error is that of the evaluation. -/
  error : (interpreter.evaluate env text).error =
    (interpreter.outcomes env text).findSome? Outcome.error?
  /-- The last state is that of the evaluation. -/
  state : (⟨(interpreter.evaluate env text).env, (interpreter.evaluate env text).output⟩ : State) =
    ((interpreter.outcomes env text).getLast?.map Outcome.written).getD
      ⟨interpreter.prepare env text, #[]⟩

/-- A program that is read is run statement by statement. -/
private theorem runs_of_ok {interpreter : Interpreter} {env : Environment} {text : String}
    {program : List Expr} (h : interpreter.read env text = .ok program) :
    interpreter.Runs env text program := by
  have hinOrder := @inOrder_outcomes interpreter.context program ⟨interpreter.prepare env text, #[]⟩
  have hrun := @runStatements_eq interpreter.context program
    ⟨interpreter.prepare env text, #[]⟩ none
  rw [← outcomes_of_ok h] at hinOrder hrun
  refine ⟨h, hinOrder, hinOrder.length_eq, ?_, ?_⟩
  · rw [evaluate_of_ok h, hrun, Option.none_or]
  · rw [evaluate_of_ok h, hrun]

variable (config : Config) {env env' : Environment}

/-- The statements of a text have outcomes in which a user sees the same, in alike
    environments. -/
theorem outcomes_alike (h : env.Alike env') (text : String) :
    ((ofConfig config).outcomes env text).map Outcome.shown =
      ((ofConfig config).outcomes env' text).map Outcome.shown := by
  have hstart : State.Alike #[] ⟨(ofConfig config).prepare env text, #[]⟩
      ⟨(ofConfig config).prepare env' text, #[]⟩ := ⟨(prepare_alike config h text).1, rfl⟩
  unfold outcomes read
  -- The text is refused in both environments, or read as alike programs.
  rcases (readProgram_alike ((ofConfig config).registry.install env).symbols
    ((ofConfig config).registry.install env').symbols text).2 with
    ⟨e, herror, herror'⟩ | ⟨program, program', hprogram, hprogram', hes⟩
  · rw [herror, herror']
  · rw [hprogram, hprogram']
    exact LispSession.outcomes_alike (registry_context config) hstart hes

/-- Binding the native functions first changes no outcome. -/
theorem outcomes_install (h : env.Rooted) (text : String) :
    (ofConfig config).outcomes (Standard.registry.install env) text =
      (ofConfig config).outcomes env text := by
  have hinstall := install_of_allInstalled (allInstalled_install h Standard.registry)
  unfold outcomes read prepare ofConfig
  simp only [hinstall]

end Interpreter

namespace Environment

open Interpreter

variable (config : Config) {env : Environment}

/-- An environment that evaluations lead to is settled once the natives are bound in it. -/
theorem Reached.settled (h : env.Reached) : (Standard.registry.install env).Settled :=
  ⟨h.alike.install _, allInstalled_install h.rooted _⟩

namespace Settled

/-- An evaluation leaves a settled environment settled. -/
theorem evaluate (h : env.Settled) (text : String) :
    ((ofConfig config).evaluate env text).env.Settled :=
  ⟨(Interpreter.evaluate_alike config h.alike text).1.env,
    allInstalled_evaluate config h.installed.1 text⟩

/-- Preparing the evaluation of a text does nothing but read it. -/
private theorem prepare_eq (h : env.Settled) {text : String}
    {program : Except ParseError (List Expr)}
    {u : SymbolTable} (hread : readProgram env.symbols text = ⟨program, u⟩) :
    (ofConfig config).read env text = program ∧
      (ofConfig config).prepare env text = { env with symbols := u } := by
  have hinstall : (ofConfig config).registry.install env = env :=
    install_of_allInstalled h.installed
  unfold Interpreter.read prepare
  simp only [hinstall, hread, and_self]

/-- All symbols are those of names in the table, also once a text has been read. -/
private theorem alike_read (h : env.Settled) {text : String}
    {program : Except ParseError (List Expr)}
    {u : SymbolTable} (hread : readProgram env.symbols text = ⟨program, u⟩) :
    Environment.Alike { env with symbols := u } { env with symbols := u } := by
  obtain ⟨names, hnames⟩ := exists_names_readProgram env.symbols text
  rw [hread] at hnames
  simp only at hnames
  rw [hnames]
  exact h.alike.withSymbols fun _ _ hab => hab.of_internAll names names

/-- No statement of a program exhausts the stack if none does when more of them follow. -/
theorem first_not_fatal (h : env.Settled) {whole first second : String}
    (hwords : words whole.toList = words first.toList ++ words second.toList)
    (hfirst : IsProgram first) (hsecond : IsProgram second)
    (hfatal : ∀ o ∈ (ofConfig config).outcomes env whole, o.isFatal = false) :
    ∀ o ∈ (ofConfig config).outcomes env first, o.isFatal = false := by
  obtain ⟨es, t₁, hread₁⟩ := hfirst.exists_read env.symbols
  obtain ⟨fs₂, u₂, hread₂⟩ := hsecond.exists_read .empty
  obtain ⟨fs, u, hread, _, names, rfl, _⟩ := readProgram_append hwords hread₁ hread₂
  obtain ⟨hes₁, hprepare₁⟩ := h.prepare_eq config hread₁
  obtain ⟨hall, hprepare⟩ := h.prepare_eq config hread
  -- The first program runs with more names known than it has alone.
  obtain ⟨_, _, _, hshown⟩ := runStatements_withNames (registry_context config)
    (s := ⟨{ env with symbols := t₁ }, #[]⟩) (h.alike_read hread₁) (readProgram_alike_self hread₁)
    names
  rw [outcomes_of_ok hall, hprepare] at hfatal
  rw [outcomes_of_ok hes₁, hprepare₁]
  exact not_fatal_of_shown (fun _ hx => hshown ▸ hx) fun o ho =>
    hfatal o (outcomes_subset_append es fs _ ho)

/-- A text with the words of two programs does what these do one after the other. -/
theorem joins (h : env.Settled) {whole first second : String}
    (hwords : words whole.toList = words first.toList ++ words second.toList)
    (hfirst : IsProgram first) (hsecond : IsProgram second)
    (hfatal : ∀ o ∈ (ofConfig config).outcomes env first, o.isFatal = false) :
    ((ofConfig config).evaluate env whole).Joins ((ofConfig config).evaluate env first)
        ((ofConfig config).evaluate ((ofConfig config).evaluate env first).env second) ∧
      ((ofConfig config).outcomes env whole).map Outcome.shown =
        ((ofConfig config).outcomes env first).map Outcome.shown ++
          ((ofConfig config).outcomes ((ofConfig config).evaluate env first).env second).map
            Outcome.shown := by
  have hsettled := h.evaluate config first
  -- What is read, and what runs, in the two evaluations one after the other.
  obtain ⟨es, t₁, hread₁⟩ := hfirst.exists_read env.symbols
  obtain ⟨hes₁, hprepare₁⟩ := h.prepare_eq config hread₁
  rw [outcomes_of_ok hes₁, hprepare₁] at hfatal ⊢
  rw [evaluate_of_ok hes₁, hprepare₁] at hsettled ⊢
  simp only at hsettled ⊢
  obtain ⟨fs₂, u₂, hread₂⟩ := hsecond.exists_read (runStatements (ofConfig config).context es
    ⟨{ env with symbols := t₁ }, #[]⟩ none).1.env.symbols
  obtain ⟨hfs₂, hprepare₂⟩ := hsettled.prepare_eq config hread₂
  -- What is read, and what runs, in the one evaluation: the names that the second program
  -- brings are interned right after those of the first.
  obtain ⟨fs, u, hread, hfs, names, rfl, rfl⟩ := readProgram_append hwords hread₁ hread₂
  obtain ⟨hall, hprepare⟩ := h.prepare_eq config hread
  obtain ⟨herror, hstate, hpermuted, hshown⟩ :=
    runStatements_joins (registry_context config) (s := ⟨{ env with symbols := t₁ }, #[]⟩)
      (h.alike_read hread₁) (readProgram_alike_self hread₁) hfatal hfs
  rw [outcomes_of_ok hfs₂, evaluate_of_ok hfs₂, hprepare₂, outcomes_of_ok hall,
    evaluate_of_ok hall, hprepare]
  exact ⟨⟨hstate.output, herror, hstate.env, hpermuted.size_eq⟩, hshown⟩

end Settled

end Environment

/-- No string is open at the end of a program. -/
theorem IsProgram.openQuote_notMem {text : String} (h : IsProgram text) :
    openQuote ∉ words text.toList := by
  obtain ⟨program, u, hread⟩ := h.exists_read .empty
  exact (readProgram_eq_ok_iff.mp hread).openQuote_notMem

namespace Interpreter

/-- Evaluating a program, a newline and another program is evaluating one after the other:
    the lines, the first error, the sizes of the environment and the global bindings in the
    end are the same, and every statement runs, in order, once. -/
theorem evaluate_append (config : Config) {env : Environment} (henv : env.Reached)
    {p q : String} (hp : IsProgram p) (hq : IsProgram q)
    (hfatal : ∀ o ∈ (ofConfig config).outcomes env p, o.isFatal = false) :
    let first := (ofConfig config).evaluate env p
    let second := (ofConfig config).evaluate first.env q
    let whole := (ofConfig config).evaluate env (p ++ "\n" ++ q)
    whole.output = first.output ++ second.output ∧
      whole.error = first.error.or second.error ∧
      whole.env.frames.size = second.env.frames.size ∧
      whole.env.bindingCount = second.env.bindingCount ∧
      whole.env.symbols.size = second.env.symbols.size ∧
      whole.env.globals = second.env.globals ∧
      (∃ program, (ofConfig config).Runs env (p ++ "\n" ++ q) program) ∧
      ((ofConfig config).outcomes env (p ++ "\n" ++ q)).map Outcome.shown =
        ((ofConfig config).outcomes env p).map Outcome.shown ++
          ((ofConfig config).outcomes first.env q).map Outcome.shown := by
  -- The newline keeps the words apart: no string is open at the end of `p`.
  have hwords : words (p ++ "\n" ++ q).toList = words p.toList ++ words q.toList := by
    rw [String.toList_append, String.toList_append, List.append_assoc]
    exact words_append_newline hp.openQuote_notMem q.toList
  rw [← outcomes_install config henv.rooted p] at hfatal
  have hjoins := henv.settled.joins config hwords hp hq hfatal
  simp only [outcomes_install config henv.rooted, evaluate_install config henv.rooted] at hjoins
  obtain ⟨⟨houtput, herror, halike, hsymbols⟩, hshown⟩ := hjoins
  obtain ⟨program, u, hread⟩ :=
    (isProgram_append hwords hp hq).exists_read ((ofConfig config).registry.install env).symbols
  have hruns : (ofConfig config).Runs env (p ++ "\n" ++ q) program := runs_of_ok (by
    unfold read
    rw [hread])
  exact ⟨houtput, herror, halike.size_eq, halike.bindingCount_eq, hsymbols, halike.globals_eq,
    ⟨program, hruns⟩, hshown⟩

/-- The first program fails at its first statement and goes on. -/
theorem evaluate_append_after_failure :
    let interpreter := ofConfig .default
    let first := interpreter.evaluate .new "(car 1) (define a 2)"
    let second := interpreter.evaluate first.env "a"
    let whole := interpreter.evaluate .new ("(car 1) (define a 2)" ++ "\n" ++ "a")
    first.output = #["ok"] ∧ whole.output = first.output ++ second.output ∧
      whole.error = first.error.or second.error := by
  intro interpreter first second whole
  obtain ⟨houtput, herror, _⟩ := evaluate_append .default .new (p := "(car 1) (define a 2)")
    (q := "a") (by decide +kernel) (by decide +kernel) (by decide +kernel)
  exact ⟨by decide +kernel, houtput, herror⟩

end Interpreter

end LispSession
