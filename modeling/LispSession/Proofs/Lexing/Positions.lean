import LispSession.Proofs.Lexing.Modes
import LispSession.Proofs.Grammar.Prefix

/-!
# Where the tokens stand

Lines and columns are kept up to date token by token, trivia included, and never looked up in
the text. They are nonetheless those that counting from the start of the text gives: a cursor
that has passed some characters of a text is at the place that these characters alone
determine, and each move keeps that so.

* `Position.counted_after`      counting goes on where it was left
* `Cursor.stands_next`          a token stands where the cursor was, and the cursor is past it
* `Cursor.exists_at_moves`      moves lead from a place of the text to a place of the text
* `readProgram_refuses`         a parse error is about a token of the text, or about its end
* `Cursor.positions_exact`      every token, and every parse error, is where it says
-/

namespace LispSession

namespace Position

/-- The place after some characters at the start of a text: its line counts the newlines among
    them, and its column the characters since the last of these, or since the start. -/
def counted (passed : List Char) : Position :=
  ⟨1 + passed.count '\n', 1 + (passed.reverse.takeWhile (· != '\n')).length⟩

/-- Counting a further character advances the place. -/
private theorem counted_advance (passed : List Char) (c : Char) :
    (counted passed).advance c = counted (passed ++ [c]) := by
  unfold counted advance
  by_cases hc : c = '\n'
  · simp [hc, Nat.add_assoc]
  · simp [hc, Nat.add_comm]

/-- Counting goes on where it was left. -/
theorem counted_after (passed cs : List Char) :
    (counted passed).after cs = counted (passed ++ cs) := by
  induction cs generalizing passed with
  | nil => rw [after_nil, List.append_nil]
  | cons c cs ih => rw [after_cons, counted_advance, ih, List.append_assoc, List.singleton_append]

example : counted "(define x\n  \"two\r\nλ".toList = ⟨3, 2⟩ := by decide +kernel

end Position

/-- The token has its place in a text between some characters and others, and says so. -/
structure Token.Stands (t : Token) (text : String) (before after : List Char) : Prop where
  between : text.toList = before ++ (t.text.toList ++ after)
  first : t.first = .counted before
  last : t.last = .counted (before ++ t.text.toList)

namespace Token

/-- The characters of some tokens, one after the other. -/
def chars (ts : List Token) : List Char := (ts.map fun t => t.text.toList).flatten

/-- No tokens have no characters. -/
@[simp] theorem chars_nil : chars [] = [] := rfl

/-- The characters of tokens are those of the first one and of the others. -/
@[simp] theorem chars_cons (t : Token) (ts : List Token) :
    chars (t :: ts) = t.text.toList ++ chars ts := by
  simp [chars]

end Token

namespace Cursor

/-- The cursor has passed some characters of a text, the others follow, and it is where it
    says. -/
structure At (c : Cursor) (text : String) (passed : List Char) : Prop where
  split : text.toList = passed ++ c.rest
  position : c.position = .counted passed

/-- A cursor at the beginning has passed nothing. -/
theorem at_start (text : String) : (start text).At text [] where
  split := rfl
  position := rfl

/-- The tokens that are left, with the end of the input after them. -/
def upToEnd (c : Cursor) : List Token := c.drain.1 ++ [c.drain.2]

/-- At its end a text has only its end left. -/
private theorem upToEnd_of_end {c : Cursor} (hend : c.next.1.kind = .endOfInput) :
    c.upToEnd = [c.next.1] := by
  rw [upToEnd, drain_of_end hend, List.nil_append]

/-- Before its end a text has its next token left, and what comes after that. -/
private theorem upToEnd_of_not_end {c : Cursor} (hend : c.next.1.kind ≠ .endOfInput) :
    c.upToEnd = c.next.1 :: c.next.2.upToEnd := by
  rw [upToEnd, drain_of_not_end hend, List.cons_append]
  rfl

/-- They have all characters that are left: the end of the input has none. -/
private theorem chars_upToEnd (c : Cursor) : Token.chars c.upToEnd = c.rest := by
  have hend : c.drain.2.text = "" := by
    fun_induction drain c with
    | case1 c step hend =>
      simp only [step, next, next_kind_eq_endOfInput.mp hend]
      rfl
    | case2 c step hend following ih => exact ih
  rw [← c.text_drain.1, upToEnd, Token.chars, List.map_append, List.flatten_append,
    List.map_singleton, hend]
  exact List.append_nil _

section

variable (c : Cursor) {text : String} (passed : List Char) (h : c.At text passed)

include h

/-- The next token stands where the cursor was, and the cursor is past it. -/
theorem stands_next :
    c.next.1.Stands text passed c.next.2.rest ∧
      c.next.2.At text (passed ++ c.next.1.text.toList) := by
  have htext : c.next.1.text.toList = (lexeme c.rest).taken := String.toList_ofList
  have hsplit : text.toList = passed ++ (c.next.1.text.toList ++ c.next.2.rest) := by
    rw [htext, h.split]
    exact congrArg (passed ++ ·) (lexeme_append c.rest).symm
  have hlast : c.position.after (lexeme c.rest).taken
      = .counted (passed ++ c.next.1.text.toList) := by
    rw [h.position, Position.counted_after, htext]
  exact ⟨⟨hsplit, h.position, hlast⟩, ⟨by rw [hsplit, List.append_assoc], hlast⟩⟩

/-- The trivia before the next significant token are passed like other tokens. -/
theorem stands_nextSignificant :
    ∃ before, c.nextSignificant.1.Stands text before c.nextSignificant.2.rest ∧
      c.nextSignificant.2.At text (before ++ c.nextSignificant.1.text.toList) := by
  fun_induction nextSignificant c generalizing passed with
  | case1 c step htrivia ih => exact ih _ (c.stands_next passed h).2
  | case2 c step htrivia => exact ⟨passed, c.stands_next passed h⟩

/-- After a move the cursor is at a place of the text. -/
theorem exists_at_moved (move : Move) : ∃ passed', (c.moved move).At text passed' := by
  obtain ⟨before, -, hsignificant⟩ := c.stands_nextSignificant passed h
  cases move with
  | next => exact ⟨_, (c.stands_next passed h).2⟩
  | nextSignificant => exact ⟨_, hsignificant⟩
  | next? => exact ⟨_, hsignificant⟩

/-- Wherever reading has got to, it has passed a part of the text and counted it. -/
theorem exists_at_moves (moves : List Move) :
    ∃ passed', (moves.foldl moved c).At text passed' := by
  induction moves generalizing c passed with
  | nil => exact ⟨passed, h⟩
  | cons move moves ih =>
    obtain ⟨passed', hmoved⟩ := c.exists_at_moved passed h move
    exact ih _ _ hmoved

/-- A token that is peeked at stands before the place where reading up to it would end. -/
private theorem stands_peek (k : Nat) :
    ∃ before, (c.peek k).Stands text before
      ((List.replicate (k + 1) Move.nextSignificant).foldl moved c).rest := by
  induction k generalizing c passed with
  | zero =>
    obtain ⟨before, hstands, -⟩ := c.stands_nextSignificant passed h
    exact ⟨before, hstands⟩
  | succ k ih =>
    obtain ⟨before, -, hat⟩ := c.stands_nextSignificant passed h
    exact ih _ _ hat

/-- Of the tokens that are left, with the end of the input after them, each stands after all
    characters of those before it. -/
private theorem stands_upToEnd (earlier : List Token) (t : Token) (later : List Token)
    (heq : c.upToEnd = earlier ++ t :: later) :
    t.Stands text (passed ++ Token.chars earlier) (Token.chars later) := by
  -- Token by token, while the cursor moves over those before the one in question.
  induction earlier generalizing c passed with
  | nil =>
    rw [Token.chars_nil, List.append_nil]
    by_cases hend : c.next.1.kind = .endOfInput
    · rw [upToEnd_of_end hend] at heq
      obtain ⟨rfl, rfl⟩ := List.cons_eq_cons.mp heq
      have hstands := (c.stands_next passed h).1
      rwa [next_of_end hend, next_kind_eq_endOfInput.mp hend] at hstands
    · rw [upToEnd_of_not_end hend] at heq
      obtain ⟨rfl, rfl⟩ := List.cons_eq_cons.mp heq
      rw [chars_upToEnd]
      exact (c.stands_next passed h).1
  | cons u earlier ih =>
    by_cases hend : c.next.1.kind = .endOfInput
    · rw [upToEnd_of_end hend] at heq
      exact absurd (List.cons_eq_cons.mp heq).2 (by simp)
    · rw [upToEnd_of_not_end hend] at heq
      obtain ⟨rfl, htail⟩ := List.cons_eq_cons.mp heq
      rw [Token.chars_cons, ← List.append_assoc]
      exact ih _ _ (c.stands_next passed h).2 htail

end

end Cursor

/-- A parse error is about the first significant token that is refused. The end of the input
    after the tokens of the text is one of them. -/
theorem readProgram_refuses {symbols : SymbolTable} {text : String} {e : ParseError}
    (h : (readProgram symbols text).program = .error e) :
    ∃ accepted rest a, significantTokens text ++ [endToken text] = accepted ++ e.token :: rest ∧
      (Assembly.start symbols).feed accepted = (a, none) ∧
      a.step e.token = .error e.misfit := by
  unfold readProgram readTokens at h
  split at h
  -- The text ends too early.
  · rename_i a hfeed
    refine ⟨significantTokens text, [], a, ?_⟩
    simp only [Assembly.finish] at h
    split at h
    · cases h
    · split at h
      · rename_i misfit hmisfit
        cases h
        exact ⟨rfl, hfeed, hmisfit⟩
      · cases h
  -- A token of the text does not fit.
  · rename_i a e' hfeed
    cases h
    obtain ⟨accepted, rest, htokens, hfeeds, hmisfit⟩ := Assembly.exists_first_misfit hfeed
    refine ⟨accepted, rest ++ [endToken text], a, ?_, hfeeds, hmisfit⟩
    rw [htokens, List.append_assoc, List.cons_append]

/-- The significant tokens and the end of the input are what is left without trivia. -/
private theorem significantTokens_append_endToken (text : String) :
    significantTokens text ++ [endToken text] =
      (tokens text ++ [endToken text]).filter fun t => !t.kind.isTrivia := by
  rw [List.filter_append, List.filter_cons, kind_endToken]
  rfl

namespace Cursor

/-- What a mode of reading yields stands where it says, wherever reading has got to. -/
structure Exact (text : String) (c : Cursor) : Prop where
  next : ∃ before, c.next.1.Stands text before c.next.2.rest
  nextSignificant : ∃ before, c.nextSignificant.1.Stands text before c.nextSignificant.2.rest
  next? : ∀ t, c.next?.1 = some t → ∃ before, t.Stands text before c.next?.2.rest
  peek : ∀ k, ∃ before, (c.peek k).Stands text before
    ((List.replicate (k + 1) Move.nextSignificant).foldl moved c).rest

/-- A cursor at a place of the text gives the tokens their places. -/
private theorem At.exact {c : Cursor} {text : String} {passed : List Char} (h : c.At text passed) :
    Exact text c where
  next := ⟨passed, (c.stands_next passed h).1⟩
  nextSignificant := (c.stands_nextSignificant passed h).imp fun _ hboth => hboth.1
  next? t ht := by
    have hsome : c.nextSignificant.1 = t := by
      simp only [Cursor.next?] at ht
      split at ht
      · cases ht
      · exact Option.some.inj ht
    obtain ⟨before, hstands, -⟩ := c.stands_nextSignificant passed h
    exact ⟨before, hsome ▸ hstands⟩
  peek := c.stands_peek passed h

/-- Lines and columns are exact. After any moves, in any modes, what is read or peeked at next
    stands where it says. So does each token of the text, after the characters of the tokens
    before it, and the end of the input, after the whole text. A parse error gives the place at
    which the token stands that is refused. -/
theorem positions_exact (text : String) :
    (∀ moves : List Move, Exact text (moves.foldl moved (start text))) ∧
    (∀ earlier t later, tokens text ++ [endToken text] = earlier ++ t :: later →
      t.Stands text (Token.chars earlier) (Token.chars later)) ∧
    (endToken text).Stands text text.toList [] ∧
    ∀ symbols e, (readProgram symbols text).program = .error e →
      ∃ earlier later a,
        tokens text ++ [endToken text] = earlier ++ e.token :: later ∧
        (Assembly.start symbols).feed (earlier.filter fun t => !t.kind.isTrivia) = (a, none) ∧
        a.step e.token = .error e.misfit ∧
        e.message = "parse error at line " ++ Nat.repr (Position.counted (Token.chars earlier)).line
          ++ ", column " ++ Nat.repr (Position.counted (Token.chars earlier)).column
          ++ ": " ++ e.reason := by
  have htokens : ∀ earlier t later, tokens text ++ [endToken text] = earlier ++ t :: later →
      t.Stands text (Token.chars earlier) (Token.chars later) :=
    (start text).stands_upToEnd [] (at_start text)
  have hchars : Token.chars (tokens text) = text.toList := (start text).text_drain.1
  refine ⟨fun moves => ?_, htokens, ?_, fun symbols e he => ?_⟩
  · obtain ⟨passed, hat⟩ := (start text).exists_at_moves [] (at_start text) moves
    exact hat.exact
  · exact hchars ▸ htokens (tokens text) (endToken text) [] rfl
  -- The token in the way is found among the significant tokens, and so among all of them.
  · obtain ⟨accepted, rest, a, hsplit, hfeed, hmisfit⟩ := readProgram_refuses he
    rw [significantTokens_append_endToken] at hsplit
    obtain ⟨first, second, hall, haccepted, hrest⟩ := List.filter_eq_append_iff.mp hsplit
    obtain ⟨trivia, later, rfl, htrivia, hkind, hlater⟩ := List.filter_eq_cons_iff.mp hrest
    refine ⟨first ++ trivia, later, a, by rw [hall, List.append_assoc], ?_, hmisfit, ?_⟩
    · rwa [List.filter_append, haccepted, List.filter_eq_nil_iff.mpr htrivia, List.append_nil]
    · have hstands := htokens (first ++ trivia) e.token later (by rw [hall, List.append_assoc])
      rw [← hstands.first]
      rfl

end Cursor

end LispSession
