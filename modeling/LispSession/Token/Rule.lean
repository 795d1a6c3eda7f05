import LispSession.Text.Blank
import LispSession.Token.Basic

/-! # Token rules

Which characters at the start of a text make up its first token. A pattern is a short
sequence of pieces, each of which takes as many characters of its class as it may; a
rule gives the kind of the tokens that a pattern describes. The rules are tried in
order and the first that applies decides; a character to which none applies is a
token of its own.

* `lexeme_append`    the characters taken and the rest make up the text
* `lexeme_ne_nil`    something is taken from every text but the empty one -/

namespace LispSession

/-- A part of a pattern, over a class of characters. -/
inductive Piece where
  /-- Exactly one character of the class. -/
  | one (p : Char → Bool)
  /-- One character of the class, if the text starts with one. -/
  | optional (p : Char → Bool)
  /-- All characters of the class that the text starts with. -/
  | many (p : Char → Bool)

namespace Piece

/-- The piece of exactly this character. -/
def char (c : Char) : Piece := one (· == c)

/-- What the piece takes from the front of a text, and the rest. -/
def split? : Piece → List Char → Option (List Char × List Char)
  | one p, c :: cs => if p c then some ([c], cs) else none
  | one _, [] => none
  | optional p, c :: cs => if p c then some ([c], cs) else some ([], c :: cs)
  | optional _, [] => some ([], [])
  | many p, cs => some (cs.takeWhile p, cs.dropWhile p)

/-- A piece takes characters from the front, and nothing is lost. -/
private theorem split?_append {piece : Piece} {cs taken rest : List Char}
    (h : piece.split? cs = some (taken, rest)) : taken ++ rest = cs := by
  cases piece <;> cases cs <;> grind [split?, List.takeWhile_append_dropWhile]

/-- The piece never takes nothing. -/
def isOne : Piece → Bool
  | one _ => true
  | _ => false

/-- A piece that stands for one character takes one. -/
private theorem split?_ne_nil {piece : Piece} {cs taken rest : List Char}
    (hone : piece.isOne = true) (h : piece.split? cs = some (taken, rest)) : taken ≠ [] := by
  cases piece <;> simp only [isOne, Bool.false_eq_true] at hone
  cases cs <;> simp only [split?] at h
  · simp at h
  · split at h
    · simp only [Option.some.injEq, Prod.mk.injEq] at h
      simp [← h.1]
    · simp at h

end Piece

/-- Pieces that follow each other. -/
abbrev Pattern := List Piece

namespace Pattern

/-- What the pieces take one after the other, and the rest. -/
def split? : Pattern → List Char → Option (List Char × List Char)
  | [], cs => some ([], cs)
  | piece :: pieces, cs =>
    match piece.split? cs with
    | none => none
    | some (taken, rest) =>
      match split? pieces rest with
      | none => none
      | some (more, rest) => some (taken ++ more, rest)

/-- A pattern takes characters from the front, and nothing is lost. -/
theorem split?_append {pattern : Pattern} {cs taken rest : List Char}
    (h : pattern.split? cs = some (taken, rest)) : taken ++ rest = cs := by
  -- Piece by piece: what the later pieces take begins where the first one stopped.
  induction pattern generalizing cs taken rest with
  | nil => simp_all [split?]
  | cons piece pieces ih =>
    simp only [split?] at h
    split at h
    · simp at h
    · rename_i taken₁ rest₁ h₁
      split at h
      · simp at h
      · rename_i more rest₂ h₂
        simp only [Option.some.injEq, Prod.mk.injEq] at h
        rw [← h.1, ← h.2, List.append_assoc, ih h₂, Piece.split?_append h₁]

/-- A pattern with a piece for one character takes at least one. -/
private theorem split?_ne_nil {pattern : Pattern} {cs taken rest : List Char}
    (hone : pattern.any Piece.isOne = true) (h : pattern.split? cs = some (taken, rest)) :
    taken ≠ [] := by
  induction pattern generalizing cs taken rest with
  | nil => simp at hone
  | cons piece pieces ih =>
    simp only [split?] at h
    split at h
    · simp at h
    · rename_i taken₁ rest₁ h₁
      split at h
      · simp at h
      · rename_i more rest₂ h₂
        simp only [Option.some.injEq, Prod.mk.injEq] at h
        rw [← h.1]
        simp only [List.any_cons, Bool.or_eq_true] at hone
        rcases hone with hone | hone
        · simp [Piece.split?_ne_nil hone h₁]
        · simp [ih hone h₂]

end Pattern

/-! ## Character classes -/

/-- A blank character other than a newline, which ends its line instead. -/
def isInnerBlank (c : Char) : Bool := Text.isBlank c && c != '\n'

/-- A character that may begin a symbol. -/
def isSymbolStart (c : Char) : Bool :=
  c.isAlpha || "+-*/_?!~\x7b\x7d[]=<>%".toList.contains c

/-- A character that may follow the first one of a symbol. -/
def isSymbolChar (c : Char) : Bool := isSymbolStart c || c.isDigit

/-- A plus or a minus sign. -/
def isSign (c : Char) : Bool := c == '+' || c == '-'

/-! ## The rules -/

/-- The tokens of one kind that a pattern describes. -/
structure Rule where
  kind : TokenKind
  pattern : Pattern
  /-- The rule does not apply where a symbol character follows. -/
  wholeWord : Bool := false

namespace Rule

/-- What the rule takes from the front of a text, and the rest. -/
def split? (rule : Rule) (cs : List Char) : Option (List Char × List Char) :=
  match rule.pattern.split? cs with
  | none => none
  | some (taken, rest) =>
    if rule.wholeWord && (rest.head?.any isSymbolChar) then none else some (taken, rest)

/-- A rule takes what its pattern takes; it can only refuse some of it. -/
theorem split?_eq_some {rule : Rule} {cs taken rest : List Char}
    (h : rule.split? cs = some (taken, rest)) : rule.pattern.split? cs = some (taken, rest) := by
  simp only [split?] at h
  split at h
  · simp at h
  · split at h <;> simp_all

/-- The rule of one keyword. -/
def ofKeyword (word : Keyword) : Rule where
  kind := .keyword word
  pattern := word.text.toList.map Piece.char
  wholeWord := true

/-- The rules in the order in which they are tried: keywords before symbols, and numbers
    with a point before those without. -/
def all : List Rule :=
  [{ kind := .comment, pattern := [.char ';', .char ';', .many (· != '\n')] },
   { kind := .lineEnd, pattern := [.optional (· == '\r'), .char '\n'] },
   { kind := .blank, pattern := [.one isInnerBlank, .many isInnerBlank] },
   { kind := .leftParen, pattern := [.char '('] },
   { kind := .rightParen, pattern := [.char ')'] },
   { kind := .quote, pattern := [.char '\''] }] ++
  Keyword.all.map ofKeyword ++
  [{ kind := .boolean, pattern := [.char '#', .one fun c => c == 't' || c == 'f'],
     wholeWord := true },
   { kind := .number,
     pattern := [.optional isSign, .one Char.isDigit, .many Char.isDigit, .char '.',
       .many Char.isDigit] },
   { kind := .number,
     pattern := [.optional isSign, .one Char.isDigit, .many Char.isDigit] },
   { kind := .string, pattern := [.char '"', .many (· != '"'), .char '"'] },
   { kind := .symbol, pattern := [.one isSymbolStart, .many isSymbolChar] }]

/-- Every rule has a piece for one character, so that no token is empty. -/
private theorem any_isOne_of_mem_all {rule : Rule} (h : rule ∈ all) :
    rule.pattern.any Piece.isOne = true := by
  have : all.all (fun rule => rule.pattern.any Piece.isOne) = true := by rfl
  exact List.all_eq_true.mp this rule h

end Rule

/-! ## The first token of a text -/

/-- The kind and the characters of the first token of a text, and the rest. -/
structure Lexeme where
  kind : TokenKind
  taken : List Char
  rest : List Char

/-- The first of some rules that applies to a text. -/
def firstLexeme? (rules : List Rule) (cs : List Char) : Option Lexeme :=
  rules.findSome? fun rule =>
    (rule.split? cs).map fun (taken, rest) => ⟨rule.kind, taken, rest⟩

/-- The first token of a text. An empty text has only its end. -/
def lexeme : List Char → Lexeme
  | [] => ⟨.endOfInput, [], []⟩
  | c :: cs =>
    match firstLexeme? Rule.all (c :: cs) with
    | some found => found
    | none => ⟨.unrecognized, [c], cs⟩

/-- A lexeme found by rules was found by one of them. -/
theorem firstLexeme?_eq_some {rules : List Rule} {cs : List Char} {found : Lexeme}
    (h : firstLexeme? rules cs = some found) :
    ∃ rule ∈ rules, rule.kind = found.kind ∧
      rule.split? cs = some (found.taken, found.rest) := by
  simp only [firstLexeme?, List.findSome?_eq_some_iff] at h
  obtain ⟨_, rule, _, hrules, hrule, _⟩ := h
  refine ⟨rule, by simp [hrules], ?_⟩
  simp only [Option.map_eq_some_iff] at hrule
  obtain ⟨⟨taken, rest⟩, hsplit, rfl⟩ := hrule
  exact ⟨rfl, hsplit⟩

/-- The characters of the first token and those after it are all the characters. -/
theorem lexeme_append (cs : List Char) : (lexeme cs).taken ++ (lexeme cs).rest = cs := by
  cases cs with
  | nil => rfl
  | cons c cs =>
    simp only [lexeme]
    split
    · rename_i found h
      obtain ⟨rule, _, _, hsplit⟩ := firstLexeme?_eq_some h
      exact Pattern.split?_append (Rule.split?_eq_some hsplit)
    · rfl

/-- The first token of some characters has at least one of them. -/
theorem lexeme_ne_nil {cs : List Char} (hcs : cs ≠ []) : (lexeme cs).taken ≠ [] := by
  cases cs with
  | nil => exact absurd rfl hcs
  | cons c cs =>
    simp only [lexeme]
    split
    · rename_i found h
      obtain ⟨rule, hrule, _, hsplit⟩ := firstLexeme?_eq_some h
      exact Pattern.split?_ne_nil (Rule.any_isOne_of_mem_all hrule) (Rule.split?_eq_some hsplit)
    · simp

/-- Taking the first token leaves less, unless nothing was left before. -/
theorem length_rest_lt {cs : List Char} (hcs : cs ≠ []) : (lexeme cs).rest.length < cs.length := by
  have happend := congrArg List.length (lexeme_append cs)
  have hpos := List.length_pos_iff.mpr (lexeme_ne_nil hcs)
  simp only [List.length_append] at happend
  omega

end LispSession
