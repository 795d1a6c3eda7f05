import LispSession.Token.Rule

/-! # Reading tokens

A cursor stands before the next token of a text. It can be moved past one token of any
kind, or past the next significant token and the trivia before it; peeking at later
tokens moves nothing. At the end of the text it yields the end of the input, for ever.

* `next_kind_eq_endOfInput`   the end of the input is met only where the text ends
* `length_next_lt`            each other token leaves less of the text -/

namespace LispSession

/-- No rule yields the end of the input. -/
theorem lexeme_kind_ne_endOfInput {cs : List Char} (hcs : cs ≠ []) :
    (lexeme cs).kind ≠ .endOfInput := by
  cases cs with
  | nil => exact absurd rfl hcs
  | cons c cs =>
    simp only [lexeme]
    split
    · rename_i found h
      obtain ⟨rule, hrule, hkind, _⟩ := firstLexeme?_eq_some h
      have hall : Rule.all.all (fun rule => rule.kind != .endOfInput) = true := by rfl
      have := List.all_eq_true.mp hall rule hrule
      rw [← hkind]
      simpa using this
    · simp

/-- A place in a text: the characters that follow it and where it is. -/
structure Cursor where
  rest : List Char
  position : Position
deriving DecidableEq

namespace Cursor

/-- The place before the first character of a text. -/
def start (text : String) : Cursor := ⟨text.toList, .start⟩

/-- The next token of any kind, and the place after it. -/
def next (c : Cursor) : Token × Cursor :=
  let found := lexeme c.rest
  let last := c.position.after found.taken
  (⟨found.kind, String.ofList found.taken, c.position, last⟩, ⟨found.rest, last⟩)

/-- The end of the input is found just where no characters are left. -/
theorem next_kind_eq_endOfInput {c : Cursor} :
    c.next.1.kind = .endOfInput ↔ c.rest = [] := by
  simp only [next]
  constructor
  · intro h
    exact Classical.byContradiction fun hrest => lexeme_kind_ne_endOfInput hrest h
  · intro h
    rw [h]
    rfl

/-- A token that is not the end of the input leaves fewer characters. -/
theorem length_next_lt {c : Cursor} (h : c.next.1.kind ≠ .endOfInput) :
    c.next.2.rest.length < c.rest.length :=
  length_rest_lt fun hrest => h (next_kind_eq_endOfInput.mpr hrest)

/-- The next significant token, past any trivia, and the place after it. -/
def nextSignificant (c : Cursor) : Token × Cursor :=
  let step := c.next
  if step.1.kind.isTrivia then nextSignificant step.2 else step
termination_by c.rest.length
decreasing_by
  rename_i h
  refine length_next_lt fun hend => ?_
  simp [step, hend, TokenKind.isTrivia] at h

/-- The next significant token if the input has not ended, and the place after it. -/
def next? (c : Cursor) : Option Token × Cursor :=
  let step := c.nextSignificant
  (if step.1.kind = .endOfInput then none else some step.1, step.2)

/-- The significant token that follows after `offset` others, or the end of the input
    where there are fewer. -/
def peek (c : Cursor) : Nat → Token
  | 0 => c.nextSignificant.1
  | offset + 1 => c.nextSignificant.2.peek offset

/-- All tokens from here on, trivia included, and the end of the input after them. -/
def drain (c : Cursor) : List Token × Token :=
  let step := c.next
  if step.1.kind = .endOfInput then ([], step.1)
  else
    let later := drain step.2
    (step.1 :: later.1, later.2)
termination_by c.rest.length
decreasing_by
  rename_i h
  exact length_next_lt h

end Cursor

/-- The tokens of a text, trivia included. -/
def tokens (text : String) : List Token := (Cursor.start text).drain.1

/-- The tokens of a text that are not trivia. -/
def significantTokens (text : String) : List Token :=
  (tokens text).filter fun t => !t.kind.isTrivia

/-- The end of the input that follows the tokens of a text. -/
def endToken (text : String) : Token := (Cursor.start text).drain.2

end LispSession
