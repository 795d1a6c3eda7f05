import LispSession.Proofs.Grammar.Prefix
import LispSession.Proofs.Machine.Interning
import LispSession.Proofs.Sessions.Alike

/-!
# The names after an evaluation

The evaluation of a text interns the names of the native functions first, then those of the
symbol tokens that are read, and at last the name that definitions yield, if one is completed.
Each goes to the end of the table, unless the table holds it.

* `symbols_readProgram`         what the reading of a text interns
* `Interpreter.names_evaluate`  the names after the evaluation of a text
-/

namespace LispSession

/-! ### Reading -/

/-- The names of the symbol tokens among some tokens, in order. -/
def symbolNames (ts : List Token) : List String :=
  (ts.filter fun t => t.kind == .symbol).map Token.text

/-- Tokens intern the texts of the symbols among them. -/
private theorem SymbolTable.internTokens_eq_internAll (table : SymbolTable) (ts : List Token) :
    table.internTokens ts = table.internAll (symbolNames ts) := by
  induction ts generalizing table with
  | nil => rfl
  | cons t ts ih =>
    rw [internTokens_cons, ih]
    by_cases ht : t.kind = .symbol
    · rw [internToken_of_symbol ht]
      simp [symbolNames, ht]
    · rw [internToken_of_not_symbol ht]
      simp [symbolNames, ht]

/-- The tokens of a text that are read: all of them, or those before the one that does not fit. -/
def tokensRead (text : String) : Except ParseError (List Expr) → List Token
  | .ok _ => significantTokens text
  | .error e => (significantTokens text).takeWhile (· != e.token)

/-- No token of a text occurs again before it. -/
private theorem takeWhile_ne_token {text : String} {before rest : List Token} {t : Token}
    (h : significantTokens text = before ++ t :: rest) :
    (significantTokens text).takeWhile (· != t) = before := by
  have hpairwise := significantTokens_pairwise text
  rw [h, List.pairwise_append] at hpairwise
  have hbefore : ∀ u ∈ before, (u != t) = true := by
    intro u hu
    refine bne_iff_ne.mpr fun heq => ?_
    have hplaces := hpairwise.2.2 u hu t List.mem_cons_self
    rw [heq] at hplaces
    exact Position.Before.irrefl _ hplaces
  rw [h, List.takeWhile_append_of_pos hbefore]
  simp

/-- The token at the end stands behind all others, so all others are read. -/
private theorem takeWhile_ne_endToken (text : String) :
    (significantTokens text).takeWhile (· != endToken text) = significantTokens text := by
  refine List.takeWhile_eq_self_iff.mpr fun t ht => bne_iff_ne.mpr fun heq => ?_
  exact kind_ne_endOfInput ht (heq ▸ kind_endToken text)

/-- The reading of a text interns the names of the symbol tokens that are read, and nothing
    else. -/
theorem symbols_readProgram (symbols : SymbolTable) (text : String) :
    (readProgram symbols text).symbols =
      symbols.internAll (symbolNames (tokensRead text (readProgram symbols text).program)) := by
  rw [← SymbolTable.internTokens_eq_internAll]
  unfold readProgram readTokens
  split
  · rename_i a hfeed
    have hsymbols : a.symbols = symbols.internTokens (significantTokens text) :=
      Assembly.symbols_feed hfeed
    rw [hsymbols]
    -- Only the end of the input is left to not fit.
    simp only [Assembly.finish]
    split
    · rfl
    · split
      · simp only [tokensRead, takeWhile_ne_endToken]
      · rfl
  · rename_i a e hfeed
    obtain ⟨before, rest, htokens, hfeeds, _⟩ := Assembly.exists_first_misfit hfeed
    simp only [tokensRead, takeWhile_ne_token htokens]
    exact Assembly.symbols_feed hfeeds

/-! ### Evaluations -/

namespace Interpreter

/-- Preparing a text interns the names of the natives, and then those of the tokens that are read.
    -/
private theorem symbols_prepare (interpreter : Interpreter) (env : Environment) (text : String) :
    (interpreter.prepare env text).symbols =
      env.symbols.internAll (interpreter.registry.names ++
        symbolNames (tokensRead text (interpreter.read env text))) := by
  rw [SymbolTable.internAll_append, ← Environment.symbols_install]
  exact symbols_readProgram _ text

/-- After the names that an evaluation starts with, it interns the name that definitions yield if
    one is completed. -/
private theorem interns_evaluate (config : Config) (env : Environment) (text : String) :
    InternsIf (∃ m, (ofConfig config).Passes env text m ∧ m.completesDefinition = true)
      ((ofConfig config).prepare env text).symbols
      ((ofConfig config).evaluate env text).env.symbols := by
  cases hread : (ofConfig config).read env text with
  | error e =>
    rw [evaluate_of_error hread]
    -- A text that is no program completes no definition.
    refine .never _ ?_
    rintro ⟨m, ⟨program, hok, _⟩, _⟩
    rw [hread] at hok
    cases hok
  | ok program =>
    rw [evaluate_of_ok hread]
    have hstatements := interns_runStatements (registry_context config) program
      ⟨(ofConfig config).prepare env text, #[]⟩ none
    refine hstatements.congr (exists_congr fun m => and_congr_left' ⟨?_, ?_⟩)
    · exact fun hpasses => ⟨program, hread, hpasses⟩
    · rintro ⟨other, hok, hpasses⟩
      rw [hread] at hok
      exact Except.ok.inj hok ▸ hpasses

/-- The names after the evaluation of a text are those before it, followed by the names of the
    native functions in alphabetical order, those of the symbol tokens that are read, and the name
    that definitions yield if one is completed, each where it is first met and not held before. No
    other step of the reading or the evaluation interns anything. -/
theorem names_evaluate (config : Config) (env : Environment) (text : String) :
    let interpreter := ofConfig config
    let before := env.symbols.names.toList
    let after := (interpreter.evaluate env text).env.symbols.names.toList
    let met := Standard.registry.names ++ symbolNames (tokensRead text (interpreter.read env text))
    let defines := ∃ m, interpreter.Passes env text m ∧ m.completesDefinition = true
    (Standard.registry.names.Perm (Standard.natives.map Native.name) ∧
        Standard.registry.names.Pairwise (· < ·)) ∧
      (defines → after = before ++ ((met ++ ["ok"]).removeAll before).eraseDups) ∧
      (¬ defines → after = before ++ (met.removeAll before).eraseDups) ∧
      (∀ (a b : Assembly) t, a.step t = .ok b →
        b.symbols = if t.kind = .symbol then (a.symbols.intern t.text).2 else a.symbols) ∧
      ∀ m m', interpreter.Passes env text m → m.step interpreter.context = some m' →
        m'.state.env.symbols = if m.completesDefinition then (m.state.env.symbols.intern "ok").2
          else m.state.env.symbols := by
  intro interpreter before after met defines
  have hinterns := interns_evaluate config env text
  have hprepare := interpreter.symbols_prepare env text
  have hnames : ∀ table, (interpreter.evaluate env text).env.symbols = table →
      after = table.names.toList := fun table h => by rw [← h]
  refine ⟨⟨by decide +kernel, by decide +kernel⟩, fun hdefines => ?_, fun hnot => ?_,
    fun _ _ _ => Assembly.symbols_step, fun _ _ _ => Machine.symbols_step (registry_context config)⟩
  · have hafter : (interpreter.evaluate env text).env.symbols =
        env.symbols.internAll (met ++ ["ok"]) := by
      rw [hinterns.1 hdefines, hprepare]
      exact (SymbolTable.internAll_append _ met ["ok"]).symm
    exact (hnames _ hafter).trans (SymbolTable.names_internAll _ _)
  · have hafter : (interpreter.evaluate env text).env.symbols = env.symbols.internAll met :=
      (hinterns.2 hnot).trans hprepare
    exact (hnames _ hafter).trans (SymbolTable.names_internAll _ _)

-- A definition counts also where its statement fails later.
example : ((ofConfig .default).evaluate .new
    "(begin (define x 1) (y x))").env.symbols.names.toList.drop 21 = ["x", "y", "ok"] := by
  decide +kernel

end Interpreter

end LispSession
