import LispSession.Expr.Program

/-!
# The names that a program mentions

Reading a program interns the name of each symbol token that it accepts, in order, and
nothing else. The symbols given out on the way are those that the last table gives.

* `get?_intern_of_get?`  a name keeps its symbol when others are interned
* `get?_inj`             different names have different symbols
* `get?_internTokens`    the names of all symbol tokens are in the last table
-/

namespace LispSession

namespace SymbolTable

/-- The symbol that the table gives to a name. -/
def symbolOf (table : SymbolTable) (name : String) : Symbol := (table.intern name).1

/-- The table after a token has been read. -/
def internToken (table : SymbolTable) (t : Token) : SymbolTable :=
  if t.kind = .symbol then (table.intern t.text).2 else table

/-- The table after tokens have been read. -/
def internTokens (table : SymbolTable) (tokens : List Token) : SymbolTable :=
  tokens.foldl internToken table

/-- A symbol adds its name to the table. -/
theorem internToken_of_symbol {table : SymbolTable} {t : Token} (h : t.kind = .symbol) :
    table.internToken t = (table.intern t.text).2 := if_pos h

/-- Only symbols change the table. -/
theorem internToken_of_not_symbol {table : SymbolTable} {t : Token} (h : t.kind ≠ .symbol) :
    table.internToken t = table := if_neg h

/-- No tokens leave the table as it is. -/
@[simp] theorem internTokens_nil (table : SymbolTable) : table.internTokens [] = table := rfl

/-- The first token is interned before the others. -/
@[simp] theorem internTokens_cons (table : SymbolTable) (t : Token) (tokens : List Token) :
    table.internTokens (t :: tokens) = (table.internToken t).internTokens tokens := rfl

/-- Tokens may be interned in two parts. -/
theorem internTokens_append (table : SymbolTable) (first second : List Token) :
    table.internTokens (first ++ second) = (table.internTokens first).internTokens second :=
  List.foldl_append

/-- The symbol for a name that the table holds is the place of the name. -/
theorem name?_of_get? {table : SymbolTable} {name : String} {symbol : Symbol}
    (h : table.get? name = some symbol) : table.name? symbol = some name := by
  obtain ⟨i, hi, rfl⟩ := Option.map_eq_some_iff.mp h
  obtain ⟨hlt, heq, _⟩ := Array.findIdx?_eq_some_iff_getElem.mp hi
  have hname : table.names[i] = name := eq_of_beq heq
  show table.names[i]? = some name
  rw [Array.getElem?_eq_getElem hlt, hname]

/-- Different names have different symbols. -/
theorem get?_inj {table : SymbolTable} {name other : String} {symbol : Symbol}
    (h : table.get? name = some symbol) (h' : table.get? other = some symbol) : name = other :=
  Option.some.inj ((name?_of_get? h).symm.trans (name?_of_get? h'))

/-- A name keeps its symbol when another name is interned. -/
theorem get?_intern_of_get? {table : SymbolTable} {name : String} {symbol : Symbol}
    (h : table.get? name = some symbol) (other : String) :
    (table.intern other).2.get? name = some symbol := by
  obtain ⟨i, hi, rfl⟩ := Option.map_eq_some_iff.mp h
  unfold intern
  split
  · exact h
  · simp [get?, Array.findIdx?_push, hi]

end SymbolTable

/-! ### Symbols that agree with a table -/

/-- Every name that the table holds has this symbol. -/
def Agrees (sym : String → Symbol) (table : SymbolTable) : Prop :=
  ∀ name symbol, table.get? name = some symbol → sym name = symbol

/-- Naming by a table agrees with that table. -/
theorem agrees_symbolOf (table : SymbolTable) : Agrees table.symbolOf table := by
  intro name symbol h
  simp only [SymbolTable.symbolOf, SymbolTable.intern, h]

namespace Agrees

variable {sym : String → Symbol} {table : SymbolTable}

/-- Naming that agrees with a table agrees with it before a name was added. -/
private theorem of_intern {name : String} (h : Agrees sym (table.intern name).2) :
    Agrees sym table :=
  fun other symbol hother => h other symbol (SymbolTable.get?_intern_of_get? hother name)

/-- Interning a name gives its symbol, if the table afterwards agrees. -/
private theorem fst_intern {name : String} (h : Agrees sym (table.intern name).2) :
    (table.intern name).1 = sym name :=
  (h name _ (table.get?_intern name)).symm

/-- Naming that agrees with a table agrees with it before a token was interned. -/
private theorem of_internToken {t : Token} (h : Agrees sym (table.internToken t)) :
    Agrees sym table := by
  by_cases ht : t.kind = .symbol
  · rw [SymbolTable.internToken_of_symbol ht] at h
    exact h.of_intern
  · rw [SymbolTable.internToken_of_not_symbol ht] at h
    exact h

/-- Naming that agrees with a table agrees with it before any tokens were interned. -/
theorem of_internTokens {tokens : List Token} (h : Agrees sym (table.internTokens tokens)) :
    Agrees sym table := by
  induction tokens generalizing table with
  | nil => exact h
  | cons t tokens ih => exact (ih h).of_internToken

/-- A symbol token gets its symbol, if the table after it agrees. -/
theorem of_symbol {t : Token} (ht : t.kind = .symbol) (h : Agrees sym (table.internToken t)) :
    (table.intern t.text).1 = sym t.text := by
  rw [SymbolTable.internToken_of_symbol ht] at h
  exact h.fst_intern

end Agrees

namespace SymbolTable

/-- Interning tokens keeps the symbol of every name. -/
theorem get?_internTokens_of_get? {table : SymbolTable} {name : String} {symbol : Symbol}
    (h : table.get? name = some symbol) (tokens : List Token) :
    (table.internTokens tokens).get? name = some symbol := by
  induction tokens generalizing table with
  | nil => exact h
  | cons t tokens ih =>
    refine ih ?_
    unfold internToken
    split
    · exact get?_intern_of_get? h t.text
    · exact h

/-- The names of all symbol tokens that were read are held. -/
theorem get?_internTokens {sym : String → Symbol} {table : SymbolTable} {tokens : List Token}
    (hagrees : Agrees sym (table.internTokens tokens)) {t : Token} (ht : t ∈ tokens)
    (hkind : t.kind = .symbol) :
    (table.internTokens tokens).get? t.text = some (sym t.text) := by
  suffices ∃ symbol, (table.internTokens tokens).get? t.text = some symbol by
    obtain ⟨symbol, hsymbol⟩ := this
    rw [hsymbol, hagrees _ _ hsymbol]
  -- Only the symbols given out depend on the agreement, not which names are held.
  clear hagrees
  induction tokens generalizing table with
  | nil => exact absurd ht List.not_mem_nil
  | cons other tokens ih =>
    rcases List.mem_cons.mp ht with rfl | ht
    · rw [internTokens_cons, internToken_of_symbol hkind]
      exact ⟨_, get?_internTokens_of_get? (table.get?_intern t.text) tokens⟩
    · exact ih ht

end SymbolTable

end LispSession
