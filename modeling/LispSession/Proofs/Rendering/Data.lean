import LispSession.Value.Equality
import LispSession.Value.Render
import LispSession.Proofs.Grammar.Naming
import LispSession.Proofs.Lexing.Spacing
import LispSession.Proofs.Lexing.Tokens
import LispSession.Proofs.Natives.Equality

/-!
# Data that is written

The text of a boolean, of a finite number and of a symbol with the name of one is a single
token, and it stays that token in front of the spaces and parentheses of a list. Data is built
from these and the empty list by pairs.

* `IsNumeral.lexeme_eq`      digits with or without a point are one number
* `Number.exists_isNumeral`  finite numbers are written that way
* `IsAtom.lexeme_append`     the first token of a text that starts with that of an atom
* `IsData.equal_self`        data equals itself
-/

namespace LispSession

/-- A text that is taken as a whole. -/
private theorem lexeme_eq_of_all {cs : List Char} {kind : TokenKind}
    (h : (lexeme cs).kind = kind ∧ (lexeme cs).taken = cs) : lexeme cs = ⟨kind, cs, []⟩ := by
  have hall := @lexeme_eq_of_taken cs [] kind
  rw [List.append_nil] at hall
  exact hall h

/-! ### Numbers -/

namespace IsNumeral

variable {cs sign whole fraction : List Char}

/-- The decimal part that is read off a numeral without its sign is all of it. -/
private theorem leadingDecimal_eq (h : IsNumeral cs sign whole fraction) :
    leadingDecimal (whole ++ fraction) = whole ++ fraction := by
  obtain ⟨_, _, _, hwhole, hfraction⟩ := h
  have hpoint : fraction.head?.any Char.isDigit = false := by
    rcases hfraction with rfl | ⟨ds, _, rfl⟩ <;> rfl
  -- The digits of the whole part are taken up to the point, or up to the end.
  obtain ⟨htake, hdrop⟩ := span_append hwhole hpoint
  rw [leadingDecimal, htake, hdrop]
  rcases hfraction with rfl | ⟨ds, hds, rfl⟩
  · rfl
  · have hend : ([] : List Char).head?.any Char.isDigit = false := rfl
    have hall := (span_append hds hend).1
    rw [List.append_nil] at hall
    simp only [hall]

/-- All of a numeral is one token. -/
theorem lexeme_eq (h : IsNumeral cs sign whole fraction) : lexeme cs = ⟨.number, cs, []⟩ := by
  have hdecimal := h.leadingDecimal_eq
  obtain ⟨rfl, hsign, hne, hwhole, _⟩ := h
  obtain ⟨d, ds, rfl⟩ := List.exists_cons_of_ne_nil hne
  have hd := hwhole d List.mem_cons_self
  rw [List.cons_append] at hdecimal ⊢
  have hnumber : startsNumber (sign ++ d :: (ds ++ fraction)) = true ∧
      leadingNumber (sign ++ d :: (ds ++ fraction)) = sign ++ d :: (ds ++ fraction) := by
    rcases hsign with rfl | ⟨c, hc, rfl⟩
    -- A digit is no sign.
    · have hnot : isSign d = false := by
        simp only [isSign, Bool.or_eq_false_iff, beq_eq_false_iff_ne]
        constructor <;> rintro rfl <;> cases hd
      exact ⟨by simp [startsNumber, hd], by simp [leadingNumber, hnot, hdecimal]⟩
    · exact ⟨by simp [startsNumber, hc, hd], by simp [leadingNumber, hc, hdecimal]⟩
  obtain ⟨hkind, htaken⟩ := lexeme_number hnumber.1
  exact lexeme_eq_of_all ⟨hkind, htaken.trans hnumber.2⟩

/-- A numeral is not empty. -/
private theorem ne_nil (h : IsNumeral cs sign whole fraction) : cs ≠ [] := by
  rw [h.append]
  exact List.append_ne_nil_of_right_ne_nil _
    (List.append_ne_nil_of_left_ne_nil h.whole_ne_nil _)

end IsNumeral

namespace Number

open Float.Model (UnpackedFloat)

/-- A decimal that is written out has a digit before its point. -/
private theorem exists_isNumeral_positional (n : Nat) (p : Int) :
    ∃ whole fraction, IsNumeral (positional n p).toList [] whole fraction := by
  have hdigits : ∀ c ∈ Nat.toDigits 10 n, c.isDigit = true :=
    fun c hc => Nat.isDigit_of_mem_toDigits (by decide) (by decide) hc
  have hzeros : ∀ count, ∀ c ∈ List.replicate count '0', c.isDigit = true := by
    intro count c hc
    rw [List.eq_of_mem_replicate hc]
    rfl
  unfold positional
  simp only
  -- No fraction, a point among the digits, or zeros before them.
  split
  · refine ⟨Nat.toDigits 10 n ++ List.replicate p.toNat '0', [], ?_, .inl rfl, ?_, ?_, .inl rfl⟩
    · rw [String.toList_ofList, List.nil_append, List.append_nil]
    · exact List.append_ne_nil_of_left_ne_nil Nat.toDigits_ne_nil _
    · exact List.forall_mem_append.mpr ⟨hdigits, hzeros _⟩
  split
  · rename_i hplaces
    refine ⟨(Nat.toDigits 10 n).take _, '.' :: (Nat.toDigits 10 n).drop _,
      String.toList_ofList, .inl rfl, ?_, fun c hc => hdigits c (List.mem_of_mem_take hc),
      .inr ⟨_, fun c hc => hdigits c (List.mem_of_mem_drop hc), rfl⟩⟩
    intro hnil
    have hlength := congrArg List.length hnil
    rw [List.length_take, List.length_nil] at hlength
    omega
  · exact ⟨['0'], '.' :: (List.replicate _ '0' ++ Nat.toDigits 10 n), String.toList_ofList,
      .inl rfl, List.cons_ne_nil _ _, List.forall_mem_singleton.mpr rfl,
      .inr ⟨_, List.forall_mem_append.mpr ⟨hzeros _, hdigits⟩, rfl⟩⟩

/-- A sign may be written in front of a decimal. -/
private theorem exists_isNumeral_signed (sign : UnpackedFloat.Sign) {text : String}
    {whole fraction : List Char} (h : IsNumeral text.toList [] whole fraction) :
    ∃ signs, IsNumeral (signText sign ++ text).toList signs whole fraction := by
  refine ⟨(signText sign).toList, ?_, ?_, h.whole_ne_nil, h.whole, h.fraction⟩
  · have happend := h.append
    rw [String.toList_append, happend, List.nil_append]
  · cases sign with
    | positive => exact .inl rfl
    | negative => exact .inr ⟨'-', rfl, rfl⟩

/-- A finite number is written as a numeral. -/
theorem exists_isNumeral {x : Float} (hx : x.isFinite = true) :
    ∃ sign whole fraction, IsNumeral (render x).toList sign whole fraction := by
  have hunpack : x.toModel.unpack.isFinite = true := hx
  unfold render
  revert hunpack
  -- Zero is written as it is; any other finite number by its shortest digits.
  cases x.toModel.unpack with
  | notANumber => exact nofun
  | infinity sign => exact nofun
  | zero sign =>
    intro _
    have hzero : IsNumeral "0".toList [] ['0'] [] :=
      ⟨rfl, .inl rfl, List.cons_ne_nil _ _, List.forall_mem_singleton.mpr rfl, .inl rfl⟩
    obtain ⟨signs, h⟩ := exists_isNumeral_signed sign hzero
    exact ⟨signs, _, _, h⟩
  | finite sign m q hm =>
    intro _
    obtain ⟨whole, fraction, hpositional⟩ :=
      exists_isNumeral_positional (shortest m q).1 (shortest m q).2
    obtain ⟨signs, h⟩ := exists_isNumeral_signed sign hpositional
    exact ⟨signs, whole, fraction, h⟩

end Number

/-! ### Names -/

/-- The text is one token of a kind. -/
def IsToken (kind : TokenKind) (text : String) : Prop := (tokens text).map Token.kind = [kind]

instance (kind : TokenKind) (text : String) : Decidable (IsToken kind text) :=
  inferInstanceAs (Decidable (_ = _))

/-- A text that is one token has nothing else in it. -/
private theorem IsToken.lexeme_eq {kind : TokenKind} {text : String} (h : IsToken kind text) :
    text.toList ≠ [] ∧ lexeme text.toList = ⟨kind, text.toList, []⟩ := by
  unfold IsToken tokens at h
  rw [Cursor.drain] at h
  simp only at h
  split at h
  · exact nomatch h
  · rename_i hkind
    obtain ⟨hfirst, hlater⟩ := List.cons.inj h
    rw [List.map_eq_nil_iff] at hlater
    have hne : text.toList ≠ [] := fun hnil => hkind (Cursor.next_kind_eq_endOfInput.mpr hnil)
    -- No other token follows, so that nothing is left of the text.
    rw [Cursor.drain] at hlater
    simp only at hlater
    split at hlater
    · rename_i hend
      have hnil : (lexeme text.toList).rest = [] := Cursor.next_kind_eq_endOfInput.mp hend
      have happend := lexeme_append text.toList
      rw [hnil, List.append_nil] at happend
      exact ⟨hne, lexeme_eq_of_all ⟨hfirst, happend⟩⟩
    · exact nomatch hlater

/-! ### Atoms and data -/

namespace Value

/-- The value is written as one token of a kind: it is a boolean, a finite number, or a symbol
    of the table with the name of one. -/
inductive IsAtom (symbols : SymbolTable) : TokenKind → Value → Prop where
  | boolean (b : Bool) : IsAtom symbols .boolean (.boolean b)
  | number {x : Float} (hx : x.isFinite = true) : IsAtom symbols .number (.number x)
  | symbol {name : String} {a : Symbol} (hname : IsToken .symbol name)
      (ha : symbols.get? name = some a) : IsAtom symbols .symbol (.symbol a)

/-- The value is made of atoms and the empty list by pairs. -/
inductive IsData (symbols : SymbolTable) : Value → Prop where
  | null : IsData symbols .null
  | atom {kind : TokenKind} {v : Value} (h : IsAtom symbols kind v) : IsData symbols v
  | pair {car cdr : Value} (hcar : IsData symbols car) (hcdr : IsData symbols cdr) :
    IsData symbols (.pair car cdr)

/-- The numbers that a value is made of. -/
def numbers : Value → List Float
  | number x => [x]
  | pair car cdr => car.numbers ++ cdr.numbers
  | _ => []

variable {symbols : SymbolTable} {kind : TokenKind} {v : Value}

/-- Truth values are written as in a program. -/
@[simp] theorem render_boolean (b : Bool) :
    (boolean b).render symbols = if b then "#t" else "#f" := by
  cases b <;> simp [render, renderAtom]

/-- Numbers are written without a symbol table. -/
@[simp] theorem render_number (x : Float) : (number x).render symbols = Number.render x := by
  simp [render, renderAtom]

/-- A symbol of the table is written as its name. -/
theorem render_symbol {name : String} {a : Symbol} (ha : symbols.get? name = some a) :
    (symbol a).render symbols = name := by
  simp [render, renderAtom, SymbolTable.nameOf, SymbolTable.name?_of_get? ha]

/-- The text of an atom is one token and nothing else. -/
theorem IsAtom.lexeme_eq (h : IsAtom symbols kind v) :
    (v.render symbols).toList ≠ [] ∧
      lexeme (v.render symbols).toList = ⟨kind, (v.render symbols).toList, []⟩ := by
  -- Each kind of atom is read back by the rule for its own kind.
  cases h with
  | boolean b =>
    rw [render_boolean]
    cases b <;> exact ⟨by decide, by rfl⟩
  | @number x hx =>
    rw [render_number]
    obtain ⟨sign, whole, fraction, hnumeral⟩ := Number.exists_isNumeral hx
    exact ⟨hnumeral.ne_nil, hnumeral.lexeme_eq⟩
  | symbol hname ha =>
    rw [render_symbol ha]
    exact hname.lexeme_eq

/-- The text of an atom is the same token in front of anything that divides. -/
theorem IsAtom.lexeme_append (h : IsAtom symbols kind v) {rest : List Char}
    (hrest : Divided rest) :
    lexeme ((v.render symbols).toList ++ rest) = ⟨kind, (v.render symbols).toList, rest⟩ := by
  obtain ⟨hne, hall⟩ := h.lexeme_eq
  have hkind : kind.isTrivia = false ∧ kind ≠ .unrecognized := by
    cases h <;> exact ⟨rfl, nofun⟩
  have happend := lexeme_taken_append hne (by rw [hall]; exact hkind.1) hrest
  rw [hall] at happend
  refine happend fun hquote => ?_
  -- A quotation mark alone is no token of these kinds.
  simp only at hquote
  rw [hquote, lexeme_of_not_mem List.not_mem_nil] at hall
  exact absurd (congrArg Lexeme.kind hall).symm hkind.2

/-- Data equals itself. -/
theorem IsData.equal_self (h : IsData symbols v) : v.equal v = true := by
  induction h with
  | null => rfl
  | pair _ _ hcar hcdr => simp only [Value.equal, hcar, hcdr, Bool.and_self]
  | atom h =>
    cases h with
    | boolean b => cases b <;> rfl
    | number hx => exact Number.beq_self_of_isFinite hx
    | symbol => simp only [Value.equal, beq_self_eq_true]

end Value

end LispSession
