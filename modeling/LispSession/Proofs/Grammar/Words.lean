import LispSession.Proofs.Grammar.Prefix
import LispSession.Proofs.Lexing.Words

/-!
# Programs by their words

Reading a program looks at nothing but the words of its text; only an error tells where
its token stands. So texts with the same words are programs alike, and what follows the
words of a text can be thought of as words that are fitted later.

* `feed_bare`             the places of tokens do not matter
* `openQuote_notMem`      no string is open among words that fit
* `exists_program_iff`    when a text is a program
* `of_readProgram_error`  what the error of a text says of its words
-/

namespace LispSession

namespace Assembly

/-- Whether and how a token fits does not depend on its place. -/
@[simp] theorem step_bare (a : Assembly) (t : Token) : a.step t.bare = a.step t := rfl

/-- The tokens of a text fit if its words do. -/
theorem feed_bare (a : Assembly) (ts : List Token) :
    a.feed (ts.map Token.bare) =
      ((a.feed ts).1, (a.feed ts).2.map fun e => ⟨e.misfit, e.token.bare⟩) := by
  -- The two readings take the same steps until a token does not fit.
  induction ts generalizing a with
  | nil => rfl
  | cons t ts ih =>
    rw [List.map_cons]
    cases h : a.step t with
    | ok b =>
      rw [feed_cons_of_ok h, feed_cons_of_ok ((step_bare a t).trans h), ih]
    | error misfit =>
      rw [feed_cons_of_error h, feed_cons_of_error ((step_bare a t).trans h)]
      rfl

/-- What is taken does not depend on where the tokens stand. -/
theorem feeds_bare_iff {a b : Assembly} {ts : List Token} :
    Feeds a (ts.map Token.bare) b ↔ Feeds a ts b := by
  unfold Feeds
  rw [feed_bare]
  generalize a.feed ts = result
  obtain ⟨c, e⟩ := result
  cases e <;> simp

/-- What fits in order fits in two goes. -/
theorem feeds_append_iff {a c : Assembly} {ts us : List Token} :
    Feeds a (ts ++ us) c ↔ ∃ b, Feeds a ts b ∧ Feeds b us c := by
  constructor
  · intro h
    -- What is read before the second part is where the two parts meet.
    unfold Feeds at h ⊢
    rw [feed_append] at h
    split at h
    · rename_i b hb
      exact ⟨b, hb, h⟩
    · cases h
  · rintro ⟨b, hb, hc⟩
    exact hb.append hc

/-- The assembly after some tokens is the only one. -/
theorem Feeds.unique {a b c : Assembly} {ts : List Token} (hb : Feeds a ts b)
    (hc : Feeds a ts c) : b = c :=
  (Prod.mk.inj (hb.symm.trans hc)).1

/-- What is not recognized never fits. -/
theorem step_unrecognized (a : Assembly) {t : Token} (h : t.kind = .unrecognized) :
    ∃ misfit, a.step t = .error misfit := by
  obtain ⟨expecting, forms, statements, symbols⟩ := a
  cases expecting <;>
    simp [step, stepExpression, stepHead, stepParam, stepItem, literal, h]
  split <;> simp

/-- Words do not fit if one of them does not fit after those before it. -/
theorem not_feeds_of_step {a b c : Assembly} {before rest : List Token} {t : Token}
    {misfit : Misfit} (hbefore : Feeds a before b) (hstep : b.step t = .error misfit) :
    ¬ Feeds a (before ++ t :: rest) c := by
  intro h
  obtain ⟨b', hb', hrest⟩ := feeds_append_iff.mp h
  obtain rfl := hbefore.unique hb'
  unfold Feeds at hrest
  rw [feed_cons_of_error hstep] at hrest
  cases hrest

/-- No string is open among words that fit. -/
theorem Feeds.openQuote_notMem {a b : Assembly} {ts : List Token} (h : Feeds a ts b) :
    openQuote ∉ ts := by
  intro hmem
  obtain ⟨before, rest, rfl⟩ := List.append_of_mem hmem
  obtain ⟨c, hbefore, _⟩ := feeds_append_iff.mp h
  obtain ⟨misfit, hmisfit⟩ := c.step_unrecognized (t := openQuote) rfl
  exact not_feeds_of_step hbefore hmisfit h

end Assembly

open Assembly

/-- What is read from a text whose tokens all fit. -/
theorem readProgram_of_feeds {symbols : SymbolTable} {text : String} {a : Assembly}
    (h : Feeds (start symbols) (words text.toList) a) :
    readProgram symbols text = ⟨a.finish (endToken text), a.symbols⟩ := by
  rw [← words_significant, feeds_bare_iff] at h
  unfold Feeds at h
  unfold readProgram readTokens
  rw [h]

/-- A text is a program if its words lead to where the program may end. -/
theorem readProgram_eq_ok_iff {symbols table : SymbolTable} {text : String}
    {program : List Expr} :
    readProgram symbols text = ⟨.ok program, table⟩ ↔
      Feeds (start symbols) (words text.toList) ⟨.expression, [], program.reverse, table⟩ := by
  constructor
  · intro h
    unfold readProgram readTokens at h
    split at h
    · rename_i a hfeed
      obtain ⟨hfinish, rfl⟩ := Reading.mk.inj h
      obtain ⟨hcomplete, rfl⟩ := (finish_eq_ok_iff (kind_endToken text)).mp hfinish
      rw [← words_significant, feeds_bare_iff, List.reverse_reverse]
      -- A complete assembly waits for an expression, and nothing is open.
      obtain ⟨expecting, forms, statements, symbols'⟩ := a
      unfold isComplete at hcomplete
      split at hcomplete
      · rename_i hexpecting hforms
        cases hexpecting
        cases hforms
        exact hfeed
      · cases hcomplete
    · exact nomatch (Reading.mk.inj h).1
  · intro h
    rw [readProgram_of_feeds h]
    have hfinish := (finish_eq_ok_iff (kind_endToken text)
      (a := ⟨.expression, [], program.reverse, table⟩)).mpr ⟨rfl, List.reverse_reverse program⟩
    rw [hfinish]

/-- When a text is a program. -/
theorem exists_program_iff {symbols : SymbolTable} {text : String} :
    (∃ program, (readProgram symbols text).program = .ok program) ↔
      ∃ program table, Feeds (start symbols) (words text.toList)
        ⟨.expression, [], program, table⟩ := by
  constructor
  · rintro ⟨program, h⟩
    refine ⟨program.reverse, (readProgram symbols text).symbols, readProgram_eq_ok_iff.mp ?_⟩
    rw [← h]
  · rintro ⟨program, table, h⟩
    rw [← List.reverse_reverse program] at h
    exact ⟨program.reverse, congrArg Reading.program (readProgram_eq_ok_iff.mpr h)⟩

/-- What the error of a text says of its words: they all fit and do not end where they may,
    or the token of the error is the first that does not fit. -/
theorem of_readProgram_error {symbols : SymbolTable} {text : String} {e : ParseError}
    (h : (readProgram symbols text).program = .error e) :
    (e.isIncomplete = true ∧ ∃ a, Feeds (start symbols) (words text.toList) a) ∨
      (e.isIncomplete = false ∧ ∃ before rest a,
        words text.toList = before ++ e.token.bare :: rest ∧ Feeds (start symbols) before a ∧
          a.step e.token.bare = .error e.misfit) := by
  have hlast := kind_endToken text
  unfold readProgram readTokens at h
  split at h
  · rename_i a hfeed
    refine .inl ⟨?_, a, ?_⟩
    · -- Only the end of the input is left to not fit.
      simp only [finish] at h
      split at h
      · cases h
      · split at h <;> cases h
        simp [ParseError.isIncomplete, hlast]
    · rw [← words_significant, feeds_bare_iff]
      exact hfeed
  · rename_i a first hfeed
    cases h
    -- The token that does not fit is one of the text, and not its end.
    obtain ⟨before, rest, htokens, hfeeds, hstep⟩ := exists_first_misfit hfeed
    have hmem : e.token ∈ significantTokens text := by
      rw [htokens]
      exact List.mem_append_right _ List.mem_cons_self
    refine .inr ⟨beq_eq_false_iff_ne.mpr (kind_ne_endOfInput hmem), before.map Token.bare,
      rest.map Token.bare, a, ?_, feeds_bare_iff.mpr hfeeds, hstep⟩
    rw [← words_significant, htokens, List.map_append, List.map_cons]

end LispSession
