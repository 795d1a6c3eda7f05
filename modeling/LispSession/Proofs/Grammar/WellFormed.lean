import LispSession.Proofs.Grammar.Basic

/-!
# Well-formed expressions

The parameters of every function in an expression differ, and no function and no
sequence in it is without an expression. The evaluator relies on both. What the grammar
derives is well formed, where different names have different symbols.

* `Grammar.Statements.wellFormed`  all statements of a program are well formed
-/

namespace LispSession

mutual

/-- Functions have parameters that differ and a body, and sequences are not empty, in
    the expression and in all its parts. -/
def Expr.WellFormed : Expr → Prop
  | .cons car cdr => car.WellFormed ∧ cdr.WellFormed
  | .define _ value => value.WellFormed
  | .lambda fn => fn.WellFormed
  | .branch condition consequent alternative =>
    condition.WellFormed ∧ consequent.WellFormed ∧ alternative.WellFormed
  | .sequence body => body ≠ [] ∧ AllWellFormed body
  | .assign _ value => value.WellFormed
  | .apply operator arguments => operator.WellFormed ∧ AllWellFormed arguments
  | _ => True

/-- The same for a function. -/
def Lambda.WellFormed : Lambda → Prop
  | .mk params body => params.Nodup ∧ body ≠ [] ∧ AllWellFormed body

/-- The same for what is applied. -/
def Operator.WellFormed : Operator → Prop
  | .variable _ => True
  | .lambda fn => fn.WellFormed

/-- The same for each of some expressions. -/
def AllWellFormed : List Expr → Prop
  | [] => True
  | e :: es => e.WellFormed ∧ AllWellFormed es

end

/-- Each of some well-formed expressions is well formed. -/
theorem AllWellFormed.of_mem {es : List Expr} (h : AllWellFormed es) {e : Expr} (he : e ∈ es) :
    e.WellFormed := by
  induction es with
  | nil => exact absurd he List.not_mem_nil
  | cons first es ih =>
    rcases List.mem_cons.mp he with rfl | he
    · exact h.1
    · exact ih h.2 he

/-- A literal is well formed. -/
private theorem Literal.wellFormed_toExpr (l : Literal) : l.toExpr.WellFormed := by
  cases l <;> trivial

namespace Grammar

/-- Different names among some symbol tokens have different symbols. -/
def Faithful (sym : String → Symbol) (ts : List Token) : Prop :=
  ∀ t ∈ ts, t.kind = .symbol → ∀ u ∈ ts, u.kind = .symbol →
    sym t.text = sym u.text → t.text = u.text

variable {sym : String → Symbol}

namespace Faithful

variable {t : Token} {ts us : List Token}

/-- Naming that tells some tokens apart tells fewer of them apart. -/
private theorem mono (h : Faithful sym ts) (hsub : us ⊆ ts) : Faithful sym us :=
  fun t ht htkind u hu hukind => h t (hsub ht) htkind u (hsub hu) hukind

/-- Naming tells the later tokens apart. -/
private theorem tail (h : Faithful sym (t :: ts)) :
    Faithful sym ts := h.mono (List.subset_cons_self t ts)

/-- Naming tells the first part of the tokens apart. -/
private theorem left (h : Faithful sym (ts ++ us)) : Faithful sym ts :=
  h.mono (List.subset_append_left ts us)

/-- Naming tells the second part of the tokens apart. -/
private theorem right (h : Faithful sym (ts ++ us)) : Faithful sym us :=
  h.mono (List.subset_append_right ts us)

end Faithful

/-- The symbols of parameters differ, as their names do. -/
private theorem Params.nodup_params {ts : List Token} {params : List Symbol}
    (h : Params sym ts params) (hsym : Faithful sym ts) : params.Nodup := by
  obtain ⟨hkind, hnodup, rfl⟩ := h
  induction ts with
  | nil => exact List.nodup_nil
  | cons t ts ih =>
    rw [List.map_cons, List.nodup_cons] at hnodup ⊢
    constructor
    -- A repeated symbol would belong to two tokens with one text.
    · intro hmem
      apply hnodup.1
      obtain ⟨u, hu, heq⟩ := List.mem_map.mp hmem
      have hu' := List.mem_cons_of_mem t hu
      have ht : t ∈ t :: ts := List.mem_cons_self
      exact List.mem_map.mpr ⟨u, hu, hsym u hu' (hkind u hu') t ht (hkind t ht) heq⟩
    · exact ih hsym.tail (fun u hu => hkind u (List.mem_cons_of_mem t hu)) hnodup.2

mutual

/-- A statement denotes a well-formed expression. -/
private theorem Statement.wellFormed {ts : List Token} {e : Expr} (hsym : Faithful sym ts) :
    Statement sym ts e → e.WellFormed
  | .atom (l := l) _ => l.wellFormed_toExpr
  | .quoted .. | .data .. => trivial
  | .form _ h _ => h.wellFormed hsym.tail.left

/-- A form denotes a well-formed expression. -/
private theorem Form.wellFormed {ts : List Token} {e : Expr} (hsym : Faithful sym ts) :
    Form sym ts e → e.WellFormed
  | .define _ _ h =>
    have hvalue := h.wellFormed hsym.tail.tail
    hvalue
  | .defineFunction _ _ _ hparams _ hbody =>
    ⟨hparams.nodup_params hsym.tail.tail.tail.left,
      hbody.wellFormed hsym.tail.tail.tail.right.tail⟩
  | .lambda _ h => h.wellFormed hsym.tail
  | .branch _ hcondition hconsequent halternative =>
    ⟨hcondition.wellFormed hsym.tail.left, hconsequent.wellFormed hsym.tail.right.left,
      halternative.wellFormed hsym.tail.right.right⟩
  | .sequence _ h => h.wellFormed hsym.tail
  | .assign _ _ h =>
    have hvalue := h.wellFormed hsym.tail.tail
    hvalue
  | .cons _ hcar hcdr => ⟨hcar.wellFormed hsym.tail.left, hcdr.wellFormed hsym.tail.right⟩
  | .call _ h => ⟨trivial, h.wellFormed hsym.tail⟩
  | .apply _ _ hfn _ h =>
    ⟨hfn.wellFormed hsym.tail.tail.left, h.wellFormed hsym.tail.tail.right.tail⟩

/-- A function has no parameter twice, and its body is well formed and not empty. -/
private theorem Function.wellFormed {ts : List Token} {fn : Lambda} (hsym : Faithful sym ts) :
    Function sym ts fn → fn.WellFormed
  | .mk _ hparams _ hbody =>
    ⟨hparams.nodup_params hsym.tail.left, hbody.wellFormed hsym.tail.right.tail⟩

/-- A body is not empty, and its expressions are well formed. -/
private theorem Body.wellFormed {ts : List Token} {es : List Expr} (hsym : Faithful sym ts) :
    Body sym ts es → es ≠ [] ∧ AllWellFormed es
  | .mk h hs => ⟨List.cons_ne_nil _ _, h.wellFormed hsym.left, hs.wellFormed hsym.right⟩

/-- Statements denote well-formed expressions. -/
theorem Statements.wellFormed {ts : List Token} {es : List Expr} (hsym : Faithful sym ts) :
    Statements sym ts es → AllWellFormed es
  | .nil => trivial
  | .cons h hs => ⟨h.wellFormed hsym.left, hs.wellFormed hsym.right⟩

end

/-- Symbols that agree with a table which holds all names are faithful. -/
theorem faithful_of_agrees {table : SymbolTable} {ts : List Token}
    (h : Agrees sym (table.internTokens ts)) : Faithful sym ts := by
  intro t ht htkind u hu hukind heq
  have hu' := SymbolTable.get?_internTokens h hu hukind
  rw [← heq] at hu'
  exact SymbolTable.get?_inj (SymbolTable.get?_internTokens h ht htkind) hu'

end Grammar

end LispSession
