import LispSession.Proofs.Lexing.Tokens

/-!
# The modes of reading tokens

Tokens can be read with or without trivia, one by one or ahead of time. All of it comes down
to what `Cursor.drain` makes of the rest of the text: reading in any mode yields these tokens,
or those of them that are significant, and then the end of the input for ever.

* `Cursor.drain_next`, `Cursor.drain_nextSignificant`  what is left after a token is read
* `Cursor.yields_next`, `Cursor.yields_nextSignificant`, `Cursor.yields_next?`
                                                       what each mode yields, time after time
* `Cursor.lossless`                                    the tokens of a text are all of it
* `Cursor.modes_agree`                                 the modes agree wherever reading has got to
-/

namespace LispSession

namespace Cursor

/-! ### One token -/

/-- At the end of the input the cursor stays. -/
theorem next_of_end {c : Cursor} (hend : c.next.1.kind = .endOfInput) : c.next.2 = c := by
  have hrest := next_kind_eq_endOfInput.mp hend
  obtain ⟨rest, position⟩ := c
  subst hrest
  rfl

/-- At its end a text has no more tokens. -/
theorem drain_of_end {c : Cursor} (hend : c.next.1.kind = .endOfInput) :
    c.drain = ([], c.next.1) := by
  rw [drain, if_pos hend]

/-- A token that is not the end comes first, and those after it follow. -/
theorem drain_of_not_end {c : Cursor} (hend : c.next.1.kind ≠ .endOfInput) :
    c.drain = (c.next.1 :: c.next.2.drain.1, c.next.2.drain.2) := by
  rw [drain, if_neg hend]

/-- The next token is the first of those that are left. -/
private theorem next_eq_head (c : Cursor) : c.next.1 = c.drain.1.head?.getD c.drain.2 := by
  by_cases hend : c.next.1.kind = .endOfInput
  · rw [drain_of_end hend]
    rfl
  · rw [drain_of_not_end hend]
    rfl

/-- After the next token, all but the first are left. -/
theorem drain_next (c : Cursor) : c.next.2.drain = (c.drain.1.tail, c.drain.2) := by
  by_cases hend : c.next.1.kind = .endOfInput
  · rw [next_of_end hend, drain_of_end hend]
    rfl
  · rw [drain_of_not_end hend]
    rfl

/-- Only the last token is the end of the input. -/
private theorem kind_drain (c : Cursor) :
    (∀ t ∈ c.drain.1, t.kind ≠ .endOfInput) ∧ c.drain.2.kind = .endOfInput := by
  fun_induction drain c with
  | case1 c step hend => exact ⟨List.forall_mem_nil _, hend⟩
  | case2 c step hend later ih => exact ⟨List.forall_mem_cons.mpr ⟨hend, ih.1⟩, ih.2⟩

/-! ### One significant token -/

/-- The significant tokens from here on. -/
def significant (c : Cursor) : List Token := c.drain.1.filter fun t => !t.kind.isTrivia

/-- Trivia is passed over. -/
private theorem significant_of_isTrivia {c : Cursor} (h : c.next.1.kind.isTrivia = true) :
    c.next.2.significant = c.significant := by
  have hend : c.next.1.kind ≠ .endOfInput := by
    intro hend
    rw [hend] at h
    exact nomatch h
  simp only [significant, drain_of_not_end hend, List.filter_cons, h, Bool.not_true,
    Bool.false_eq_true, if_false]

/-- A significant token is the first of the significant ones. -/
private theorem significant_of_not_isTrivia {c : Cursor} (h : c.next.1.kind.isTrivia = false)
    (hend : c.next.1.kind ≠ .endOfInput) :
    c.significant = c.next.1 :: c.next.2.significant := by
  simp only [significant, drain_of_not_end hend, List.filter_cons, h, Bool.not_false, if_true]

/-- The next significant token is the first of those that are left, and all but the first of
    them are left after it. -/
theorem drain_nextSignificant (c : Cursor) :
    c.nextSignificant.1 = c.significant.head?.getD c.drain.2 ∧
      c.nextSignificant.2.significant = c.significant.tail ∧
      c.nextSignificant.2.drain.2 = c.drain.2 := by
  -- Along the trivia that the cursor passes over, up to the first significant token.
  fun_induction nextSignificant c with
  | case1 c step htrivia ih =>
    have hend : step.2.drain.2 = c.drain.2 := by rw [drain_next]
    rwa [significant_of_isTrivia htrivia, hend] at ih
  | case2 c step htrivia =>
    have htrivia' : c.next.1.kind.isTrivia = false := Bool.eq_false_iff.mpr htrivia
    by_cases hend : c.next.1.kind = .endOfInput
    · have hnone : c.significant = [] := by rw [significant, drain_of_end hend]; rfl
      have hstep : step.2 = c := next_of_end hend
      rw [hstep, hnone, drain_of_end hend]
      exact ⟨rfl, rfl, rfl⟩
    · rw [significant_of_not_isTrivia htrivia' hend]
      have hend' : step.2.drain.2 = c.drain.2 := by rw [drain_next]
      exact ⟨rfl, rfl, hend'⟩

/-- The end of the input is no significant token that the iterator yields. -/
private theorem next?_eq_head (c : Cursor) : c.next?.1 = c.significant.head? := by
  simp only [next?, c.drain_nextSignificant.1]
  cases hhead : c.significant.head? with
  | none => rw [Option.getD_none, if_pos c.kind_drain.2]
  | some t =>
    have hmem : t ∈ c.drain.1 := (List.mem_filter.mp (List.mem_of_head? hhead)).1
    rw [Option.getD_some, if_neg (c.kind_drain.1 t hmem)]

/-! ### Token after token -/

/-- What a mode of reading yields when it has been used so many times before. -/
def yields {α : Type} (mode : Cursor → α × Cursor) (c : Cursor) : Nat → α
  | 0 => (mode c).1
  | k + 1 => yields mode (mode c).2 k

/-- One call after the other yields the tokens one after the other, and the end from then on. -/
theorem yields_next (c : Cursor) (k : Nat) : c.yields next k = c.drain.1[k]?.getD c.drain.2 := by
  induction k generalizing c with
  | zero => rw [yields, next_eq_head, List.head?_eq_getElem?]
  | succ k ih => rw [yields, ih, drain_next, List.getElem?_tail]

/-- Calls that pass over trivia yield the significant tokens, and the end from then on. -/
theorem yields_nextSignificant (c : Cursor) (k : Nat) :
    c.yields nextSignificant k = c.significant[k]?.getD c.drain.2 := by
  obtain ⟨hhead, htail, hend⟩ := c.drain_nextSignificant
  induction k generalizing c with
  | zero => rw [yields, hhead, List.head?_eq_getElem?]
  | succ k ih =>
    obtain ⟨hhead', htail', hend'⟩ := c.nextSignificant.2.drain_nextSignificant
    rw [yields, ih _ hhead' htail' hend', htail, hend, List.getElem?_tail]

/-- The iterator yields the significant tokens and then nothing. -/
theorem yields_next? (c : Cursor) (k : Nat) : c.yields next? k = c.significant[k]? := by
  induction k generalizing c with
  | zero => rw [yields, next?_eq_head, List.head?_eq_getElem?]
  | succ k ih =>
    have htail : c.next?.2.significant = c.significant.tail := c.drain_nextSignificant.2.1
    rw [yields, ih, htail, List.getElem?_tail]

/-- Peeking finds what reading on would yield. -/
private theorem peek_eq_yields (c : Cursor) (k : Nat) : c.peek k = c.yields nextSignificant k := by
  induction k generalizing c with
  | zero => rfl
  | succ k ih => exact ih _

/-! ### The text and its tokens -/

/-- The tokens that are left have all the characters that are left, and each of them has some. -/
theorem text_drain (c : Cursor) :
    (c.drain.1.map fun t => t.text.toList).flatten = c.rest ∧
      ∀ t ∈ c.drain.1, t.text ≠ "" := by
  -- Token by token: each one takes its characters from the front of what is left.
  fun_induction drain c with
  | case1 c step hend =>
    rw [next_kind_eq_endOfInput.mp hend]
    exact ⟨rfl, List.forall_mem_nil _⟩
  | case2 c step hend later ih =>
    have hrest : c.rest ≠ [] := fun hrest => hend (next_kind_eq_endOfInput.mpr hrest)
    have htext : step.1.text.toList = (lexeme c.rest).taken := String.toList_ofList
    refine ⟨?_, List.forall_mem_cons.mpr ⟨fun hempty => lexeme_ne_nil hrest ?_, ih.2⟩⟩
    · rw [List.map_cons, List.flatten_cons, ih.1, htext]
      exact lexeme_append c.rest
    · rw [← htext, hempty]
      rfl

/-- The tokens of a text are all of it, and after them comes the end of the input. -/
structure Lossless (text : String) : Prop where
  /-- Reading token after token yields the tokens of the text, and then its end for ever. -/
  next : ∀ k, (start text).yields Cursor.next k = (tokens text)[k]?.getD (endToken text)
  text_ne_empty : ∀ t ∈ tokens text, t.text ≠ ""
  join : String.join ((tokens text).map Token.text) = text
  /-- The end of the input comes after the tokens, and not among them. -/
  kind_ne : ∀ t ∈ tokens text, t.kind ≠ .endOfInput
  kind_endToken : (endToken text).kind = .endOfInput

/-- The tokens of a text in the mode that keeps trivia are all of the text. -/
theorem lossless (text : String) : Lossless text where
  next := (start text).yields_next
  text_ne_empty := (start text).text_drain.2
  join := by
    rw [← String.toList_inj, String.toList_join, List.flatMap_map, List.flatMap_def]
    exact (start text).text_drain.1
  kind_ne := (start text).kind_drain.1
  kind_endToken := (start text).kind_drain.2

/-! ### The modes together -/

/-- A way to move on in a text: past a token, past a significant token, or by asking for one. -/
inductive Move where
  | next
  | nextSignificant
  | next?
deriving DecidableEq, Repr

/-- The place that a move leads to. -/
def moved (c : Cursor) : Move → Cursor
  | .next => c.next.2
  | .nextSignificant => c.nextSignificant.2
  | .next? => c.next?.2

/-- The modes of reading agree from a place on. -/
structure Agree (c : Cursor) : Prop where
  /-- The tokens with trivia. -/
  next : ∀ k, c.yields Cursor.next k = c.drain.1[k]?.getD c.drain.2
  /-- The tokens without it are those of them that are not trivia. -/
  nextSignificant : ∀ k, c.yields Cursor.nextSignificant k =
    (c.drain.1.filter fun t => !t.kind.isTrivia)[k]?.getD c.drain.2
  /-- What can be peeked at is what reading on would yield. -/
  peek : ∀ k, c.peek k = c.yields Cursor.nextSignificant k
  /-- Asking for tokens yields the same ones, as long as the input has not ended. -/
  next? : ∀ k, c.yields Cursor.next? k =
    if (c.yields Cursor.nextSignificant k).kind = .endOfInput then none
    else some (c.yields Cursor.nextSignificant k)

/-- At every place of a text the ways to get a token agree. -/
private theorem agree (c : Cursor) : Agree c where
  next := c.yields_next
  nextSignificant := c.yields_nextSignificant
  peek := c.peek_eq_yields
  next? k := by
    rw [yields_next?, yields_nextSignificant]
    cases hget : c.significant[k]? with
    | none => rw [Option.getD_none, if_pos c.kind_drain.2]
    | some t =>
      have hmem : t ∈ c.drain.1 := (List.mem_filter.mp (List.mem_of_getElem? hget)).1
      rw [Option.getD_some, if_neg (c.kind_drain.1 t hmem)]

/-- What is left of the tokens after a move is some of what was left before it. -/
private theorem exists_drain_moved (c : Cursor) (move : Move) :
    ∃ passed, c.drain.1 = passed ++ (c.moved move).drain.1 ∧
      c.drain.2 = (c.moved move).drain.2 := by
  -- A move takes one token, or trivia and one token.
  have hnext : ∀ c : Cursor, ∃ passed, c.drain.1 = passed ++ c.next.2.drain.1 ∧
      c.drain.2 = c.next.2.drain.2 := by
    intro c
    rw [drain_next]
    exact ⟨c.drain.1.take 1, by rw [← List.drop_one, List.take_append_drop], rfl⟩
  have hsignificant : ∀ c : Cursor, ∃ passed,
      c.drain.1 = passed ++ c.nextSignificant.2.drain.1 ∧
        c.drain.2 = c.nextSignificant.2.drain.2 := by
    intro c
    fun_induction nextSignificant c with
    | case1 c step htrivia ih =>
      obtain ⟨passed, hpassed, hend⟩ := hnext c
      obtain ⟨more, hmore, hend'⟩ := ih
      refine ⟨passed ++ more, ?_, hend.trans hend'⟩
      rw [hpassed, List.append_assoc]
      exact congrArg (passed ++ ·) hmore
    | case2 c step htrivia => exact hnext c
  cases move with
  | next => exact hnext c
  | nextSignificant => exact hsignificant c
  | next? => exact hsignificant c

/-- The tokens of a text are all of it, and wherever reading has got to, in whatever modes, all
    modes yield what is left of these tokens. -/
theorem modes_agree (text : String) :
    Lossless text ∧ ∀ moves : List Move,
      let c := moves.foldl moved (start text)
      Agree c ∧ ∃ passed, tokens text = passed ++ c.drain.1 ∧ endToken text = c.drain.2 := by
  refine ⟨lossless text, fun moves => ⟨agree _, ?_⟩⟩
  -- Move by move, what has been passed grows at its end.
  have hmoved : ∀ c : Cursor, ∃ passed, c.drain.1 = passed ++ (moves.foldl moved c).drain.1 ∧
      c.drain.2 = (moves.foldl moved c).drain.2 := by
    induction moves with
    | nil => exact fun c => ⟨[], rfl, rfl⟩
    | cons move moves ih =>
      intro c
      obtain ⟨passed, hpassed, hend⟩ := c.exists_drain_moved move
      obtain ⟨more, hmore, hend'⟩ := ih (c.moved move)
      refine ⟨passed ++ more, ?_, hend.trans hend'⟩
      rw [hpassed, hmore, List.append_assoc, List.foldl_cons]
  exact hmoved (start text)

end Cursor

end LispSession
