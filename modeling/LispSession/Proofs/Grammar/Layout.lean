import LispSession.Proofs.Grammar.Words
import LispSession.Proofs.Lexing.Spacing

/-!
# Programs in another layout

What is read from a text depends on its words and their order alone. So a program may be laid
out in any way that keeps its tokens apart: the same program is read from it, or the same
token is in the way, for the same reason.

* `ParseError.Matches`      errors that differ only in where their tokens stand
* `readTokens_of_bare_eq`   what is read does not depend on where the tokens stand
* `reading_write`           what is read from a text in another layout
* `reading_write_mixed`     tokens that touch, a comment and an open quote in such a layout
-/

namespace LispSession

/-- The token of the error, one of some tokens, is as the token of the other error is among others,
    and what is wrong with it is the same. -/
structure ParseError.Matches (ts ts' : List Token) (e e' : ParseError) : Prop where
  reason : e.reason = e'.reason
  kind : e.token.kind = e'.token.kind
  text : e.token.text = e'.token.text
  /-- As many tokens come before it. -/
  ordinal : ∃ i : Nat, ts[i]? = some e.token ∧ ts'[i]? = some e'.token

/-- The programs are the same, or the errors match. -/
inductive ReadAlike (ts ts' : List Token) :
    Except ParseError (List Expr) → Except ParseError (List Expr) → Prop where
  | ok (program : List Expr) : ReadAlike ts ts' (.ok program) (.ok program)
  | error {e e' : ParseError} (h : ParseError.Matches ts ts' e e') :
    ReadAlike ts ts' (.error e) (.error e')

/-- Tokens that are the same without their places are of the same kind and text. -/
private theorem Token.eq_of_bare_eq {t t' : Token} (h : t.bare = t'.bare) :
    t.kind = t'.kind ∧ t.text = t'.text := by
  simpa [Token.bare] using h

/-- The words for a misfit do not depend on where the token stands. -/
private theorem ParseError.matches_of_bare_eq {t t' : Token} (h : t.bare = t'.bare)
    (misfit : Misfit)
    {ts ts' : List Token} {i : Nat} (ht : ts[i]? = some t) (ht' : ts'[i]? = some t') :
    ParseError.Matches ts ts' ⟨misfit, t⟩ ⟨misfit, t'⟩ where
  reason := by
    show misfit.reason t.bare = misfit.reason t'.bare
    rw [h]
  kind := (Token.eq_of_bare_eq h).1
  text := (Token.eq_of_bare_eq h).2
  ordinal := ⟨i, ht, ht'⟩

/-- More tokens before those among which the tokens of the errors are. -/
private theorem ParseError.Matches.cons {t t' : Token} {ts ts' : List Token} {e e' : ParseError}
    (h : Matches ts ts' e e') : Matches (t :: ts) (t' :: ts') e e' := by
  obtain ⟨i, hi, hi'⟩ := h.ordinal
  exact ⟨h.reason, h.kind, h.text, i + 1, hi, hi'⟩

namespace Assembly

/-- The place of a token does not matter to a step. -/
private theorem step_of_bare_eq (a : Assembly) {t t' : Token} (h : t.bare = t'.bare) :
    a.step t = a.step t' := by
  rw [← step_bare a t, ← step_bare a t', h]

/-- Tokens fit alike wherever they stand. -/
private theorem feed_of_bare_eq (a : Assembly) {ts ts' : List Token}
    (h : ts.map Token.bare = ts'.map Token.bare) (us us' : List Token) :
    (a.feed ts).1 = (a.feed ts').1 ∧
      Option.Rel (ParseError.Matches (ts ++ us) (ts' ++ us')) (a.feed ts).2 (a.feed ts').2 := by
  induction ts generalizing a ts' with
  | nil =>
    obtain rfl := List.map_eq_nil_iff.mp h.symm
    exact ⟨rfl, .none⟩
  | cons t ts ih =>
    obtain ⟨t', ts', rfl, ht, hts⟩ := List.map_eq_cons_iff.mp h.symm
    -- The first tokens fit alike, or both are the tokens of the errors.
    have hstep := a.step_of_bare_eq ht
    cases hresult : a.step t with
    | error misfit =>
      rw [feed_cons_of_error hresult, feed_cons_of_error (hstep.trans hresult)]
      exact ⟨rfl, .some (ParseError.matches_of_bare_eq (i := 0) ht.symm misfit rfl rfl)⟩
    | ok b =>
      rw [feed_cons_of_ok hresult, feed_cons_of_ok (hstep.trans hresult)]
      obtain ⟨hlast, herror⟩ := ih b hts.symm
      refine ⟨hlast, ?_⟩
      revert herror
      generalize (b.feed ts).2 = found
      generalize (b.feed ts').2 = found'
      intro herror
      cases herror with
      | none => exact .none
      | some hmatches => exact .some hmatches.cons

end Assembly

open Assembly

/-- What is read from tokens does not depend on where they stand. -/
theorem readTokens_of_bare_eq (symbols : SymbolTable) {ts ts' : List Token} {last last' : Token}
    (h : ts.map Token.bare = ts'.map Token.bare) (hlast : last.bare = last'.bare) :
    (readTokens symbols ts last).symbols = (readTokens symbols ts' last').symbols ∧
      ReadAlike (ts ++ [last]) (ts' ++ [last']) (readTokens symbols ts last).program
        (readTokens symbols ts' last').program := by
  have hlength : ts.length = ts'.length := by
    simpa using congrArg List.length h
  obtain ⟨hstate, herror⟩ := (start symbols).feed_of_bare_eq h [last] [last']
  unfold readTokens
  revert hstate herror
  generalize (start symbols).feed ts = found
  generalize (start symbols).feed ts' = found'
  obtain ⟨a, e⟩ := found
  obtain ⟨a', e'⟩ := found'
  rintro rfl herror
  cases herror with
  | some hmatches => exact ⟨rfl, .error hmatches⟩
  | none =>
    -- All tokens fit, so that only the end of the input can be in the way.
    refine ⟨rfl, ?_⟩
    simp only [finish]
    split
    · exact .ok _
    · rw [a.step_of_bare_eq hlast]
      split
      · refine .error (ParseError.matches_of_bare_eq (i := ts.length) hlast _ ?_ ?_)
        · simp
        · simp [hlength]
      · exact .ok _

/-- The end of the input has no characters. -/
private theorem bare_endToken (text : String) :
    (endToken text).bare = ⟨.endOfInput, "", .start, .start⟩ := by
  unfold endToken
  fun_induction Cursor.drain (Cursor.start text) with
  | case1 c step hend =>
    have hrest := Cursor.next_kind_eq_endOfInput.mp hend
    simp [step, Cursor.next, Token.bare, hrest, lexeme]
  | case2 c step hend later ih => exact ih

/-- A text in another layout has the same tokens, but for their places, in the same order. With
    whatever symbols, the same program is read from both, or the same token does not fit for the
    same reason; and the symbols known afterwards are the same. -/
theorem reading_write (text : String) (layout : Layout) :
    let written := String.ofList (layout.write (significantTokens text))
    ((significantTokens written).map fun t => (t.kind, t.text)) =
        ((significantTokens text).map fun t => (t.kind, t.text)) ∧
      ∀ symbols : SymbolTable,
        (readProgram symbols written).symbols = (readProgram symbols text).symbols ∧
          ReadAlike (significantTokens written ++ [endToken written])
            (significantTokens text ++ [endToken text]) (readProgram symbols written).program
            (readProgram symbols text).program := by
  intro written
  -- Without their places the tokens are the words of the text, which the layout keeps.
  have hbare : (significantTokens written).map Token.bare =
      (significantTokens text).map Token.bare := by
    rw [words_significant, words_significant, String.toList_ofList, ← layout.write_map_bare,
      words_significant, words_write]
  refine ⟨?_, fun symbols => readTokens_of_bare_eq symbols hbare ?_⟩
  · have hmap := congrArg (List.map fun t : Token => (t.kind, t.text)) hbare
    rw [List.map_map, List.map_map] at hmap
    exact hmap
  · rw [bare_endToken, bare_endToken]

/-- A layout in which a space, a tab, and a newline before an indent take turns. -/
def Layout.mixed : Layout where
  before i :=
    if i % 3 = 0 then ⟨[' '], List.all_eq_true.mp rfl⟩
    else if i % 3 = 1 then ⟨['\t'], List.all_eq_true.mp rfl⟩
    else ⟨['\n', ' ', ' '], List.all_eq_true.mp rfl⟩
  after := ⟨['\n'], List.all_eq_true.mp rfl⟩
  before_ne_nil i := by
    split
    · exact List.cons_ne_nil _ _
    · split <;> exact List.cons_ne_nil _ _

/-- Tokens that touch are set apart, and a comment is left out. The quote that opens no string is
    in the way as before, for the same reason, though it stands somewhere else. -/
theorem reading_write_mixed :
    let text := "(print(car'(1 2)));;done\n\"open"
    let written := " (\tprint\n  ( car\t'\n  ( 1\t2\n  ) )\t)\n  \" open\n"
    String.ofList (Layout.mixed.write (significantTokens text)) = written ∧
      ∃ e e' : ParseError, (readProgram .empty written).program = .error e ∧
        (readProgram .empty text).program = .error e' ∧
        ParseError.Matches (significantTokens written ++ [endToken written])
          (significantTokens text ++ [endToken text]) e e' ∧
        e.token.first = ⟨5, 3⟩ ∧ e'.token.first = ⟨2, 1⟩ := by
  intro text written
  -- What is written is computed, and so is where the quote stands in both texts.
  have hchars : Layout.mixed.write (significantTokens text) = written.toList := by decide +kernel
  have hwritten : String.ofList (Layout.mixed.write (significantTokens text)) = written := by
    rw [hchars, String.ofList_toList]
  have halike := ((reading_write text Layout.mixed).2 .empty).2
  rw [hwritten] at halike
  have hplaces : (match (readProgram .empty written).program, (readProgram .empty text).program with
      | .error e, .error e' => decide (e.token.first = ⟨5, 3⟩ ∧ e'.token.first = ⟨2, 1⟩)
      | _, _ => false) = true := by
    decide +kernel
  refine ⟨hwritten, ?_⟩
  revert halike hplaces
  generalize (readProgram .empty written).program = found
  generalize (readProgram .empty text).program = found'
  intro halike hplaces
  cases halike with
  | ok => exact nomatch hplaces
  | error h => exact ⟨_, _, rfl, rfl, h, of_decide_eq_true hplaces⟩

end LispSession
