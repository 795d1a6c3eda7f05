import LispSession.Number.Read
import LispSession.Proofs.Grammar.Naming

/-!
# The grammar of programs

Which sequences of tokens are programs, and what each of them denotes:

```text
program    := statement*
statement  := atom | "'" symbol | "'" "(" items ")" | "(" form ")"
atom       := number | string | boolean | symbol
items      := (atom | "(" items ")")*
form       := "define" symbol statement
            | "define" "(" symbol params ")" body
            | "lambda" function
            | "if" statement statement statement
            | "begin" body
            | "set!" symbol statement
            | "cons" statement statement
            | symbol statement*
            | "(" "lambda" function ")" statement*
function   := "(" params ")" body
params     := symbol*
body       := statement+
```

The names among the parameters of a function differ. Symbols are given to names by a
function `sym`; nothing else about a symbol token matters than its name, and nothing but
its kind matters about a token with a fixed text.

* `Items.append` / `Statements.append`  sequences follow each other
* `Form.define_longhand`                a defined function is a name for a `lambda`
* `Body.of_statements`                  a body is a sequence that is not empty
-/

namespace LispSession

namespace Grammar

variable (sym : String → Symbol)

/-- The token is an atom and denotes a literal. -/
inductive Atom : Token → Literal → Prop where
  | number {t : Token} {x : Float} (hkind : t.kind = .number)
      (hread : Number.read? t.text = some x) : Atom t (.number x)
  | string {t : Token} (hkind : t.kind = .string) :
    Atom t (.string (Assembly.unquote t.text))
  | boolean {t : Token} (hkind : t.kind = .boolean) : Atom t (.boolean (t.text == "#t"))
  | symbol {t : Token} (hkind : t.kind = .symbol) : Atom t (.symbol (sym t.text))

/-- The tokens are the items of a quoted list. -/
inductive Items : List Token → List Literal → Prop where
  | nil : Items [] []
  | atom {t : Token} {ts : List Token} {item : Literal} {items : List Literal}
      (hitem : Atom sym t item) (hitems : Items ts items) : Items (t :: ts) (item :: items)
  | list {l r : Token} {ts us : List Token} {inner items : List Literal}
      (hl : l.kind = .leftParen) (hinner : Items ts inner) (hr : r.kind = .rightParen)
      (hitems : Items us items) : Items (l :: (ts ++ r :: us)) (.list inner :: items)

/-- The tokens are names that differ, and these are their symbols. -/
structure Params (ts : List Token) (params : List Symbol) : Prop where
  kind : ∀ t ∈ ts, t.kind = .symbol
  nodup : (ts.map Token.text).Nodup
  params : params = ts.map fun t => sym t.text

mutual

/-- The tokens are a statement that denotes an expression. -/
inductive Statement : List Token → Expr → Prop where
  | atom {t : Token} {l : Literal} (h : Atom sym t l) : Statement [t] l.toExpr
  | quoted {q t : Token} (hq : q.kind = .quote) (ht : t.kind = .symbol) :
    Statement [q, t] (.quoted (sym t.text))
  | data {q l r : Token} {ts : List Token} {items : List Literal} (hq : q.kind = .quote)
      (hl : l.kind = .leftParen) (h : Items sym ts items) (hr : r.kind = .rightParen) :
    Statement (q :: l :: (ts ++ [r])) (.data items)
  | form {l r : Token} {ts : List Token} {e : Expr} (hl : l.kind = .leftParen)
      (h : Form ts e) (hr : r.kind = .rightParen) : Statement (l :: (ts ++ [r])) e

/-- The tokens between two parentheses are a form that denotes an expression. -/
inductive Form : List Token → Expr → Prop where
  | define {k t : Token} {ts : List Token} {e : Expr} (hk : k.kind = .keyword .define)
      (ht : t.kind = .symbol) (h : Statement ts e) :
    Form (k :: t :: ts) (.define (sym t.text) e)
  /-- It denotes what a definition of the name as the function does. -/
  | defineFunction {k l t r : Token} {ps ts : List Token} {params : List Symbol}
      {body : List Expr} (hk : k.kind = .keyword .define) (hl : l.kind = .leftParen)
      (ht : t.kind = .symbol) (hparams : Params sym ps params) (hr : r.kind = .rightParen)
      (hbody : Body ts body) :
    Form (k :: l :: t :: (ps ++ r :: ts)) (.define (sym t.text) (.lambda (.mk params body)))
  | lambda {k : Token} {ts : List Token} {fn : Lambda} (hk : k.kind = .keyword .lambda)
      (h : Function ts fn) : Form (k :: ts) (.lambda fn)
  | branch {k : Token} {ts us vs : List Token} {condition consequent alternative : Expr}
      (hk : k.kind = .keyword .branch) (hcondition : Statement ts condition)
      (hconsequent : Statement us consequent) (halternative : Statement vs alternative) :
    Form (k :: (ts ++ (us ++ vs))) (.branch condition consequent alternative)
  | sequence {k : Token} {ts : List Token} {body : List Expr}
      (hk : k.kind = .keyword .sequence) (h : Body ts body) : Form (k :: ts) (.sequence body)
  | assign {k t : Token} {ts : List Token} {e : Expr} (hk : k.kind = .keyword .assign)
      (ht : t.kind = .symbol) (h : Statement ts e) :
    Form (k :: t :: ts) (.assign (sym t.text) e)
  | cons {k : Token} {ts us : List Token} {car cdr : Expr} (hk : k.kind = .keyword .cons)
      (hcar : Statement ts car) (hcdr : Statement us cdr) : Form (k :: (ts ++ us)) (.cons car cdr)
  | call {t : Token} {ts : List Token} {args : List Expr} (ht : t.kind = .symbol)
      (h : Statements ts args) : Form (t :: ts) (.apply (.variable (sym t.text)) args)
  | apply {l k r : Token} {fs ts : List Token} {fn : Lambda} {args : List Expr}
      (hl : l.kind = .leftParen) (hk : k.kind = .keyword .lambda) (hfn : Function fs fn)
      (hr : r.kind = .rightParen) (h : Statements ts args) :
    Form (l :: k :: (fs ++ r :: ts)) (.apply (.lambda fn) args)

/-- The tokens are the parameters and the body of a function. -/
inductive Function : List Token → Lambda → Prop where
  | mk {l r : Token} {ps ts : List Token} {params : List Symbol} {body : List Expr}
      (hl : l.kind = .leftParen) (hparams : Params sym ps params) (hr : r.kind = .rightParen)
      (hbody : Body ts body) : Function (l :: (ps ++ r :: ts)) (.mk params body)

/-- The tokens are at least one statement. -/
inductive Body : List Token → List Expr → Prop where
  | mk {ts us : List Token} {e : Expr} {es : List Expr} (h : Statement ts e)
      (hs : Statements us es) : Body (ts ++ us) (e :: es)

/-- The tokens are any number of statements. -/
inductive Statements : List Token → List Expr → Prop where
  | nil : Statements [] []
  | cons {ts us : List Token} {e : Expr} {es : List Expr} (h : Statement ts e)
      (hs : Statements us es) : Statements (ts ++ us) (e :: es)

end

/-- The tokens are a program. -/
abbrev Program : List Token → List Expr → Prop := Statements sym

variable {sym}

/-- The symbols of the table before a token do, where those agree with the table after it. -/
theorem atom_symbolOf_iff {symbols : SymbolTable} {t : Token} {l : Literal}
    (hagrees : Agrees sym (symbols.internToken t)) : Atom symbols.symbolOf t l ↔ Atom sym t l := by
  -- Only the case of a symbol depends on the names of symbols; they agree on this one.
  constructor
  · intro h
    cases h with
    | number ht hread => exact .number ht hread
    | string ht => exact .string ht
    | boolean ht => exact .boolean ht
    | symbol ht =>
      rw [SymbolTable.symbolOf, hagrees.of_symbol ht]
      exact .symbol ht
  · intro h
    cases h with
    | number ht hread => exact .number ht hread
    | string ht => exact .string ht
    | boolean ht => exact .boolean ht
    | symbol ht =>
      rw [← hagrees.of_symbol ht]
      exact .symbol ht

/-- Items may be read in two parts. -/
theorem Items.append {ts us : List Token} {items more : List Literal} (h : Items sym ts items)
    (hmore : Items sym us more) : Items sym (ts ++ us) (items ++ more) := by
  induction h with
  | nil => exact hmore
  | atom hitem _ ih => exact .atom hitem ih
  | list hl hinner hr _ _ ih =>
    rw [List.cons_append, List.append_assoc]
    exact .list hl hinner hr ih

/-- Statements may be read in two parts. -/
private theorem Statements.append {ts us : List Token} {es more : List Expr}
    (h : Statements sym ts es) (hmore : Statements sym us more) :
    Statements sym (ts ++ us) (es ++ more) := by
  induction es generalizing ts with
  | nil =>
    cases h
    exact hmore
  | cons e es ih =>
    cases h with
    | cons h hs =>
      rw [List.append_assoc]
      exact .cons h (ih hs)

/-- One more statement at the end. -/
theorem Statements.snoc {ts us : List Token} {es : List Expr} {e : Expr}
    (hs : Statements sym ts es) (h : Statement sym us e) :
    Statements sym (ts ++ us) (es ++ [e]) := by
  have hone := Statements.cons h .nil
  rw [List.append_nil] at hone
  exact hs.append hone

/-- Statements of which there is at least one are a body. -/
theorem Body.of_statements {ts : List Token} {es : List Expr} (h : Statements sym ts es)
    (hne : es ≠ []) : Body sym ts es := by
  cases h with
  | nil => exact absurd rfl hne
  | cons h hs => exact .mk h hs

/-- A body holds a statement. -/
theorem Body.ne_nil {ts : List Token} {es : List Expr} : Body sym ts es → es ≠ []
  | .mk _ _ => List.cons_ne_nil _ _

/-- A definition of a function denotes what the same definition written with `lambda`
    does. -/
theorem Form.define_longhand {k l t m f n : Token} {ts : List Token} {e : Expr}
    (hk : k.kind = .keyword .define) (hl : l.kind = .leftParen)
    (h : Form sym (k :: l :: t :: ts) e) (hm : m.kind = .leftParen)
    (hf : f.kind = .keyword .lambda) (hn : n.kind = .rightParen) :
    Form sym (k :: t :: m :: f :: l :: (ts ++ [n])) e := by
  generalize htokens : k :: l :: t :: ts = tokens at h
  -- A form that begins with this keyword is a definition, and here one of a function.
  cases h with
  | defineFunction hk' hl' ht hparams hr hbody =>
    cases htokens
    exact .define hk ht (.form hm (.lambda hf (.mk hl hparams hr hbody)) hn)
  | define hk' ht h =>
    cases htokens
    rw [hl] at ht
    cases ht
  | lambda hk' | branch hk' | sequence hk' | assign hk' | cons hk' | call hk' | apply hk' =>
    obtain ⟨rfl, _⟩ := List.cons.inj htokens
    rw [hk] at hk'
    cases hk'

/-- One more name, which differs from the others. -/
theorem Params.snoc {ts : List Token} {params : List Symbol} {t : Token}
    (h : Params sym ts params) (ht : t.kind = .symbol) (hnew : sym t.text ∉ params) :
    Params sym (ts ++ [t]) (params ++ [sym t.text]) := by
  obtain ⟨hkind, hnodup, rfl⟩ := h
  refine ⟨?_, ?_, ?_⟩
  · intro u hu
    rcases List.mem_append.mp hu with hu | hu
    · exact hkind u hu
    · rw [List.mem_singleton.mp hu]
      exact ht
  · rw [List.map_append, List.nodup_append]
    refine ⟨hnodup, by simp, ?_⟩
    -- The new name is not among the names so far.
    intro name hname other hother heq
    obtain ⟨u, hu, rfl⟩ := List.mem_map.mp hname
    rw [List.mem_singleton.mp hother] at heq
    exact hnew (List.mem_map.mpr ⟨u, hu, congrArg sym heq⟩)
  · rw [List.map_append, List.map_singleton]

end Grammar

end LispSession
