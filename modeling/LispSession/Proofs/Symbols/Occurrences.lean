import LispSession.Proofs.Symbols.Running

/-!
# Where symbols occur

The symbols that occur in programs, in values and in what waits to be evaluated. Whatever is
like something else has a symbol on the other side for each of its own; what is like itself,
in one table, has only symbols that stand for names of the table. And the text of a value
depends on nothing but the names of the symbols in it.

* `Expr.symbols`, `Value.symbols`, `Task.symbols`, …  the symbols that occur
* `Expr.Alike.matched`, `Value.Alike.matched`, …     each has its other side
* `Value.render_congr`                               where values are written alike
-/

namespace LispSession

/-! ### Symbols and parts -/

mutual

/-- The symbols in quoted data. -/
def Literal.symbols : Literal → List Symbol
  | .symbol name => [name]
  | .number _ | .string _ | .boolean _ => []
  | .list items => Literal.symbolsOf items

/-- The symbols in quoted items. -/
def Literal.symbolsOf : List Literal → List Symbol
  | [] => []
  | item :: items => item.symbols ++ Literal.symbolsOf items

end

mutual

/-- The symbols in an expression. -/
def Expr.symbols : Expr → List Symbol
  | .variable name | .quoted name => [name]
  | .number _ | .string _ | .boolean _ => []
  | .data items => Literal.symbolsOf items
  | .cons car cdr => car.symbols ++ cdr.symbols
  | .define name value | .assign name value => name :: value.symbols
  | .lambda fn => fn.symbols
  | .branch condition consequent alternative =>
    condition.symbols ++ (consequent.symbols ++ alternative.symbols)
  | .sequence body => Expr.symbolsOf body
  | .apply operator arguments => operator.symbols ++ Expr.symbolsOf arguments

/-- The symbols in some expressions. -/
def Expr.symbolsOf : List Expr → List Symbol
  | [] => []
  | e :: es => e.symbols ++ Expr.symbolsOf es

/-- The parameters of a function and the symbols in its body. -/
def Lambda.symbols : Lambda → List Symbol
  | .mk params body => params ++ Expr.symbolsOf body

/-- The symbols in an operator. -/
def Operator.symbols : Operator → List Symbol
  | .variable name => [name]
  | .lambda fn => fn.symbols

end

namespace Value

/-- The symbols in a value, those of functions among them. -/
def symbols : Value → List Symbol
  | symbol name => [name]
  | pair car cdr => car.symbols ++ cdr.symbols
  | closure fn _ => fn.symbols
  | number _ | string _ | boolean _ | null | native _ => []

/-- The value and, if it is a pair, the parts of its parts. -/
def parts : Value → List Value
  | pair car cdr => pair car cdr :: (car.parts ++ cdr.parts)
  | value => [value]

/-- No part of a value has other symbols. -/
theorem symbols_subset_of_mem_parts {v w : Value} (h : w ∈ v.parts) : w.symbols ⊆ v.symbols := by
  induction v with
  | pair car cdr hcar hcdr =>
    rw [parts, List.mem_cons, List.mem_append] at h
    rcases h with rfl | h | h
    · exact List.Subset.refl _
    · exact List.subset_append_of_subset_left _ (hcar h)
    · exact List.subset_append_of_subset_right _ (hcdr h)
  | _ =>
    rw [List.mem_singleton.mp h]
    exact List.Subset.refl _

end Value

/-- The symbols in what a task will evaluate or bind. -/
def Task.symbols : Task → List Symbol
  | consCdr cdr _ => cdr.symbols
  | define name _ | assign name _ => [name]
  | branch consequent alternative _ => consequent.symbols ++ alternative.symbols
  | body rest _ | argument _ _ _ rest _ => Expr.symbolsOf rest
  | consPair _ | leave _ => []

/-- The symbols in what the machine is about to evaluate. -/
def Control.symbols : Control → List Symbol
  | eval e _ => e.symbols
  | value _ | error _ => []

/-- The bindings of all frames. -/
def Environment.bindings (env : Environment) : List (Symbol × Value) :=
  env.frames.toList.flatMap Frame.bindings

/-- The bindings of an environment are those of its frames. -/
theorem Environment.mem_bindings {env : Environment} {b : Symbol × Value} :
    b ∈ env.bindings ↔ ∃ (i : Nat) (frame : Frame), env.frames[i]? = some frame ∧
      b ∈ frame.bindings := by
  constructor
  · intro h
    obtain ⟨frame, hframe, hb⟩ := List.mem_flatMap.mp h
    obtain ⟨i, hi⟩ := List.mem_iff_getElem?.mp hframe
    exact ⟨i, frame, by rwa [Array.getElem?_toList] at hi, hb⟩
  · rintro ⟨i, frame, hi, hb⟩
    rw [← Array.getElem?_toList] at hi
    exact List.mem_flatMap.mpr ⟨frame, List.mem_iff_getElem?.mpr ⟨i, hi⟩, hb⟩

/-! ### Symbols on the other side -/

/-- Each of the symbols belongs to some symbol. -/
def Matched (same : Symbol → Symbol → Prop) (symbols : List Symbol) : Prop :=
  ∀ a ∈ symbols, ∃ b, same a b

section

variable {same : Symbol → Symbol → Prop}

/-- Symbols that all belong to others do so in two lists put together. -/
theorem Matched.append {as bs : List Symbol} (has : Matched same as) (hbs : Matched same bs) :
    Matched same (as ++ bs) := List.forall_mem_append.mpr ⟨has, hbs⟩

/-- A list of such symbols may begin with one more. -/
private theorem Matched.cons {a b : Symbol} {as : List Symbol} (h : same a b)
    (has : Matched same as) : Matched same (a :: as) := List.forall_mem_cons.mpr ⟨⟨b, h⟩, has⟩

/-- An empty list has no symbol that belongs to none. -/
theorem Matched.nil : Matched same [] := List.forall_mem_nil _

/-- Symbols that belong to others one by one all belong to others. -/
private theorem Matched.of_forall₂ {as bs : List Symbol} (h : List.Forall₂ same as bs) :
    Matched same as := by
  induction h with
  | nil => exact .nil
  | cons h _ ih => exact .cons h ih

mutual

/-- The symbols of a literal belong to those of an alike one. -/
private theorem Literal.Alike.matched : ∀ {l l' : Literal}, l.Alike same l' → Matched same l.symbols
  | _, _, .symbol h => .cons h .nil
  | _, _, .number _ => .nil
  | _, _, .string _ => .nil
  | _, _, .boolean _ => .nil
  | _, _, .list h => Literal.Alike.matched_list h

/-- The symbols of a list of literals belong to those of an alike one. -/
private theorem Literal.Alike.matched_list : ∀ {ls ls' : List Literal},
    List.Forall₂ (Literal.Alike same) ls ls' → Matched same (Literal.symbolsOf ls)
  | _, _, .nil => .nil
  | _, _, .cons h hs => (Literal.Alike.matched h).append (Literal.Alike.matched_list hs)

end

mutual

/-- Each symbol in an expression has its other side. -/
theorem Expr.Alike.matched : ∀ {e e' : Expr}, e.Alike same e' → Matched same e.symbols
  -- One case for each constructor, with the lists and lambdas in it by mutual recursion.
  | _, _, .variable h => .cons h .nil
  | _, _, .number _ => .nil
  | _, _, .string _ => .nil
  | _, _, .boolean _ => .nil
  | _, _, .quoted h => .cons h .nil
  | _, _, .data h => Literal.Alike.matched_list h
  | _, _, .cons h₁ h₂ => (Expr.Alike.matched h₁).append (Expr.Alike.matched h₂)
  | _, _, .define h he => .cons h (Expr.Alike.matched he)
  | _, _, .lambda h => Lambda.Alike.matched h
  | _, _, .branch h₁ h₂ h₃ => (Expr.Alike.matched h₁).append
    ((Expr.Alike.matched h₂).append (Expr.Alike.matched h₃))
  | _, _, .sequence h => Expr.Alike.matched_list h
  | _, _, .assign h he => .cons h (Expr.Alike.matched he)
  | _, _, .apply h hes => (Operator.Alike.matched h).append (Expr.Alike.matched_list hes)

/-- The symbols of a list of expressions belong to those of an alike one. -/
theorem Expr.Alike.matched_list : ∀ {es es' : List Expr},
    List.Forall₂ (Expr.Alike same) es es' → Matched same (Expr.symbolsOf es)
  | _, _, .nil => .nil
  | _, _, .cons h hs => (Expr.Alike.matched h).append (Expr.Alike.matched_list hs)

/-- The symbols of a function belong to those of an alike one. -/
private theorem Lambda.Alike.matched : ∀ {fn fn' : Lambda},
    fn.Alike same fn' → Matched same fn.symbols
  | _, _, .mk hparams hbody => (Matched.of_forall₂ hparams).append (Expr.Alike.matched_list hbody)

/-- The symbols of an operator belong to those of an alike one. -/
private theorem Operator.Alike.matched : ∀ {op op' : Operator},
    op.Alike same op' → Matched same op.symbols
  | _, _, .variable h => .cons h .nil
  | _, _, .lambda h => Lambda.Alike.matched h

end

/-- Each symbol in a value has its other side. -/
theorem Value.Alike.matched {v v' : Value} (h : v.Alike same v') : Matched same v.symbols := by
  induction h with
  | symbol h => exact .cons h .nil
  | pair _ _ hcar hcdr => exact hcar.append hcdr
  | closure h frame => exact h.matched
  | _ => exact .nil

/-- Each symbol in some values has its other side. -/
private theorem Value.Alike.matched_list {vs vs' : List Value}
    (h : List.Forall₂ (Value.Alike same) vs vs') : Matched same (vs.flatMap Value.symbols) := by
  induction h with
  | nil => exact .nil
  | cons h _ ih => exact h.matched.append ih

/-- Each symbol in a task has its other side, and so has each in the values that it holds. -/
private theorem Task.Alike.matched {task task' : Task} (h : task.Alike same task') :
    Matched same task.symbols ∧ Matched same (task.values.flatMap Value.symbols) := by
  cases h with
  | consCdr h frame => exact ⟨h.matched, .nil⟩
  | consPair h => exact ⟨.nil, Value.Alike.matched_list (.cons h .nil)⟩
  | define h frame => exact ⟨.cons h .nil, .nil⟩
  | branch h₁ h₂ frame => exact ⟨h₁.matched.append h₂.matched, .nil⟩
  | assign h frame => exact ⟨.cons h .nil, .nil⟩
  | body h frame => exact ⟨Expr.Alike.matched_list h, .nil⟩
  | argument hcallee name htaken hrest frame =>
    exact ⟨Expr.Alike.matched_list hrest, Value.Alike.matched_list (.cons hcallee htaken)⟩
  | leave frame => exact ⟨.nil, .nil⟩

/-- The symbols of a stack of tasks, and of its values, belong to those of an alike one. -/
theorem Task.Alike.matched_list {tasks tasks' : List Task}
    (h : List.Forall₂ (Task.Alike same) tasks tasks') :
    Matched same (tasks.flatMap Task.symbols) ∧
      Matched same ((tasks.flatMap Task.values).flatMap Value.symbols) := by
  induction h with
  | nil => exact ⟨.nil, .nil⟩
  | cons h _ ih =>
    obtain ⟨hsymbols, hvalues⟩ := h.matched
    rw [List.flatMap_cons, List.flatMap_cons, List.flatMap_append]
    exact ⟨hsymbols.append ih.1, hvalues.append ih.2⟩

/-- The symbols under control, and in the value there, belong to those of an alike one. -/
theorem Control.Alike.matched {control control' : Control} (h : control.Alike same control') :
    Matched same control.symbols ∧ Matched same (control.values.flatMap Value.symbols) := by
  cases h with
  | eval h frame => exact ⟨h.matched, .nil⟩
  | value h => exact ⟨.nil, Value.Alike.matched_list (.cons h .nil)⟩
  | error e => exact ⟨.nil, .nil⟩

end

/-- A name that a frame binds has its other side, and so has each symbol in its value. -/
private theorem Frame.Alike.matched {same : Symbol → Symbol → Prop} {frame frame' : Frame}
    (h : frame.Alike same frame') : ∀ b ∈ frame.bindings, Matched same (b.1 :: b.2.symbols) := by
  obtain ⟨bindings, parent⟩ := frame
  obtain ⟨bindings', parent'⟩ := frame'
  have hbindings := h.bindings
  simp only at hbindings ⊢
  clear h
  induction hbindings with
  | nil => exact List.forall_mem_nil _
  | cons hfirst _ ih => exact List.forall_mem_cons.mpr ⟨.cons hfirst.1 hfirst.2.matched, ih⟩

/-- The symbols of all bindings belong to those of an alike environment. -/
theorem Environment.Alike.matched {env env' : Environment} (h : env.Alike env') :
    ∀ b ∈ env.bindings, Matched (env.Same env') (b.1 :: b.2.symbols) := by
  intro b hb
  obtain ⟨i, frame, hi, hb⟩ := Environment.mem_bindings.mp hb
  have halike := h.frames i
  rw [hi] at halike
  generalize env'.frames[i]? = there at halike
  cases halike with
  | some halike => exact halike.matched b hb

/-! ### Texts of values -/

/-- The text of a value depends on the names of its symbols alone. -/
theorem Value.render_congr {t t' : SymbolTable} {v : Value}
    (h : ∀ a ∈ v.symbols, t.nameOf a = t'.nameOf a) : v.render t = v.render t' := by
  -- Both texts at once: the one of a pair is made of both texts of its parts.
  suffices hboth : v.render t = v.render t' ∧ v.renderTail t = v.renderTail t' from hboth.1
  induction v with
  | pair car cdr hcar hcdr =>
    obtain ⟨hfirst, hsecond⟩ := List.forall_mem_append.mp h
    simp only [Value.render, Value.renderTail, (hcar hfirst).1, (hcdr hsecond).2, and_self]
  | symbol name =>
    have hname : t.nameOf name = t'.nameOf name := h name List.mem_cons_self
    simp only [Value.render, Value.renderTail, Value.renderAtom, hname, and_self]
  | boolean b => cases b <;> exact ⟨rfl, rfl⟩
  | _ => exact ⟨rfl, rfl⟩

end LispSession
