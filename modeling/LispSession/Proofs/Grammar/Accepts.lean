import LispSession.Proofs.Grammar.Complete
import LispSession.Proofs.Grammar.Sound
import LispSession.Proofs.Grammar.WellFormed
import LispSession.Proofs.Lexing.Tokens

/-!
# The parser accepts exactly its grammar

Tokens are read as a program if and only if the grammar derives it from them, and the
program that is read is the one derived.

* `readTokens_eq_ok_iff`  tokens followed by the end of the input
* `readProgram_grammar`   texts
-/

namespace LispSession

open Grammar

/-- Tokens are read as the programs that the grammar derives from them. -/
theorem readTokens_eq_ok_iff {symbols table : SymbolTable} {tokens : List Token} {last : Token}
    (hlast : last.kind = .endOfInput) {program : List Expr} :
    readTokens symbols tokens last = ⟨.ok program, table⟩ ↔
      table = symbols.internTokens tokens ∧ Program table.symbolOf tokens program := by
  constructor
  · intro h
    -- The tokens fit up to the end, and they spell the statements that have been collected.
    unfold readTokens at h
    split at h
    · rename_i a hfeed
      obtain ⟨hfinish, rfl⟩ := Reading.mk.inj h
      obtain ⟨hcomplete, rfl⟩ := (Assembly.finish_eq_ok_iff hlast).mp hfinish
      have hsymbols : a.symbols = symbols.internTokens tokens := Assembly.symbols_feed hfeed
      have hagrees := agrees_symbolOf a.symbols
      refine ⟨hsymbols, ?_⟩
      rw [hsymbols] at hagrees
      rw [hsymbols]
      exact ((spelled_start symbols).feed hfeed hagrees).program hcomplete
    · exact nomatch (Reading.mk.inj h).1
  · rintro ⟨rfl, h⟩
    -- The tokens of the statements are taken, and nothing is left open.
    have hfeed := h.feeds Assembly.collects_statements [] (agrees_symbolOf _)
    rw [List.append_nil] at hfeed
    have hfinish : (⟨.expression, [], program.reverse, symbols.internTokens tokens⟩ :
        Assembly).finish last = .ok program :=
      (Assembly.finish_eq_ok_iff hlast).mpr ⟨rfl, List.reverse_reverse program⟩
    unfold readTokens
    have hstart : (Assembly.start symbols).feed tokens =
        (⟨.expression, [], program.reverse, symbols.internTokens tokens⟩, none) := hfeed
    rw [hstart]
    simp only [hfinish]

/-- A text is read as a program if and only if the grammar derives the program from its
    significant tokens; the program is well formed then, and each symbol in it stands for
    the name of its token. No number token of a text lacks a value. -/
theorem readProgram_grammar (symbols : SymbolTable) (text : String) :
    (∀ (program : List Expr) (table : SymbolTable),
      readProgram symbols text = ⟨.ok program, table⟩ ↔
        table = symbols.internTokens (significantTokens text) ∧
          Program table.symbolOf (significantTokens text) program) ∧
      (∀ (program : List Expr) (table : SymbolTable),
        readProgram symbols text = ⟨.ok program, table⟩ →
          (∀ e ∈ program, e.WellFormed) ∧
            ∀ t ∈ significantTokens text, t.kind = .symbol →
              table.name? (table.symbolOf t.text) = some t.text) ∧
      ∀ t ∈ significantTokens text, t.kind = .number → ∃ x, Number.read? t.text = some x := by
  have hread : ∀ (program : List Expr) (table : SymbolTable),
      readProgram symbols text = ⟨.ok program, table⟩ ↔
        table = symbols.internTokens (significantTokens text) ∧
          Program table.symbolOf (significantTokens text) program :=
    fun _ _ => readTokens_eq_ok_iff (kind_endToken text)
  refine ⟨hread, ?_, fun t ht hkind => exists_read_of_number ht hkind⟩
  intro program table h
  obtain ⟨rfl, hprogram⟩ := (hread program table).mp h
  have hagrees := agrees_symbolOf (symbols.internTokens (significantTokens text))
  constructor
  · intro e he
    -- The table tells the symbols of the text apart, since it holds all their names.
    exact (hprogram.wellFormed (faithful_of_agrees hagrees)).of_mem he
  · intro t ht hkind
    exact SymbolTable.name?_of_get? (SymbolTable.get?_internTokens hagrees ht hkind)

end LispSession
