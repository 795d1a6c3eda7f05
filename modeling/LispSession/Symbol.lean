import LispSession.Text.Quoted

/-! # Symbols

A symbol stands for a name by its place in a table, which lists every name once, in the
order in which they were first met. Names that differ in case are different names.

* `get?_intern`            the symbol for a name, once interned, is found again
* `names_isPrefix_intern`  interning keeps the names that the table holds, and their places -/

namespace LispSession

/-- The place of a name in a symbol table. -/
structure Symbol where
  index : Nat
deriving DecidableEq, Repr

/-- The names that have been met, each once. -/
structure SymbolTable where
  names : Array String
deriving DecidableEq, Repr

namespace SymbolTable

/-- The table without names. -/
def empty : SymbolTable := ⟨#[]⟩

/-- How many names there are. -/
def size (table : SymbolTable) : Nat := table.names.size

/-- The symbol for a name that the table holds. -/
def get? (table : SymbolTable) (name : String) : Option Symbol :=
  (table.names.findIdx? (· == name)).map Symbol.mk

/-- The symbol for a name, and the table that holds it: the name is added at the end if it
    has not been met before. -/
def intern (table : SymbolTable) (name : String) : Symbol × SymbolTable :=
  match table.get? name with
  | some symbol => (symbol, table)
  | none => (⟨table.names.size⟩, ⟨table.names.push name⟩)

/-- The name of a symbol of this table. -/
def name? (table : SymbolTable) (symbol : Symbol) : Option String :=
  table.names[symbol.index]?

/-- What stands for the name of a symbol that belongs to another table. -/
def foreignName : String := "<foreign symbol>"

/-- The name of a symbol. -/
def nameOf (table : SymbolTable) (symbol : Symbol) : String :=
  (table.name? symbol).getD foreignName

/-- The names in square brackets, each quoted, in the order in which they were first met. -/
def listing (table : SymbolTable) : String := Text.quotedList table.names.toList

/-- The empty table has no names. -/
@[simp] theorem size_empty : empty.size = 0 := rfl

/-- Interning only ever appends to the names. -/
theorem names_isPrefix_intern (table : SymbolTable) (name : String) :
    table.names.toList <+: (table.intern name).2.names.toList := by
  simp only [intern]
  split <;> simp

/-- The symbol for a name, once interned, is found again. -/
theorem get?_intern (table : SymbolTable) (name : String) :
    (table.intern name).2.get? name = some (table.intern name).1 := by
  simp only [intern]
  split
  · assumption
  · rename_i h
    simp only [get?, Option.map_eq_none_iff] at h
    simp [get?, Array.findIdx?_push, h]

end SymbolTable

end LispSession
