import LispSession.Proofs.Grammar.Words

/-!
# Texts that more text completes

A text whose error is incomplete can be continued to a program. Where a line ends inside
a string, there is a second way: the mark that opens the string is unrecognized as long as
nothing closes it, and the error is not incomplete then, but text that closes the string
may still complete the program. There is no third way.

* `exists_program_of_feeds`         words that fit can be continued
* `exists_program_append_iff`       which texts can be continued to a program
* `unclosed_string_misreported`     the second way is taken
-/

namespace LispSession

open Assembly

/-! ### Writing tokens -/

/-- The characters of some tokens, one on each line. -/
def writing (ts : List Token) : List Char := ts.flatMap fun t => t.text.toList ++ ['\n']

/-- Tokens that are written on lines of their own are read as they are. -/
private theorem words_writing {ts : List Token} (h : ∀ t ∈ ts, t.Writable) :
    words (writing ts) = ts.map Token.bare := by
  induction ts with
  | nil => exact words_nil
  | cons t ts ih =>
    have ht := h t List.mem_cons_self
    have hwords : words t.text.toList = [t.bare] := by
      rw [← words_significant, ht.reads, List.map_singleton]
    -- The token is no open quote, so that the newline after it stands for itself.
    have hopen : openQuote ∉ words t.text.toList := by
      rw [hwords, List.mem_singleton]
      intro heq
      exact ht.recognized (congrArg Token.kind heq).symm
    have hwriting : writing (t :: ts) = t.text.toList ++ '\n' :: writing ts := by
      simp [writing]
    rw [hwriting, words_append_newline hopen, hwords,
      ih fun other hother => h other (List.mem_cons_of_mem _ hother)]
    rfl

/-! ### Strings -/

/-- Where one string fits, every string does. -/
private theorem Assembly.exists_step_string {a b : Assembly} {t t' : Token} (ht : t.kind = .string)
    (ht' : t'.kind = .string) (h : a.step t = .ok b) : ∃ b', a.step t' = .ok b' := by
  have hatom : Grammar.Atom a.symbols.symbolOf t' (.string (unquote t'.text)) := .string ht'
  cases fits_of_step h with
  | atom ha htakes _ => exact ⟨_, step_of_fits (.atom ha htakes hatom)⟩
  | item ha _ => exact ⟨_, step_of_fits (.item ha hatom)⟩
  | _ => simp_all

/-! ### Continuing a text -/

/-- A text whose words fit can be continued to a program. -/
theorem exists_program_of_feeds {symbols : SymbolTable} {text : String} {a : Assembly}
    (h : Feeds (start symbols) (words text.toList) a) :
    ∃ (more : String) (program : List Expr),
      (readProgram symbols (text ++ more)).program = .ok program := by
  obtain ⟨ts, b, hwritable, hfeeds, hcomplete⟩ := (completable a).exists_feeds
  -- A newline keeps the words that are added apart from those before them.
  have hwords : words (text ++ String.ofList ('\n' :: writing ts)).toList =
      words text.toList ++ ts.map Token.bare := by
    rw [String.toList_append, String.toList_ofList, words_append_newline h.openQuote_notMem,
      words_writing hwritable]
  refine ⟨String.ofList ('\n' :: writing ts), b.statements.reverse, ?_⟩
  rw [readProgram_of_feeds (a := b)]
  · exact (finish_eq_ok_iff (kind_endToken _)).mpr ⟨hcomplete, rfl⟩
  · rw [hwords]
    exact h.append (feeds_bare_iff.mpr hfeeds)

/-- A text whose error is incomplete can be continued to a program. -/
private theorem exists_program_of_isIncomplete {symbols : SymbolTable} {text : String}
    {e : ParseError}
    (h : (readProgram symbols text).program = .error e) (hincomplete : e.isIncomplete = true) :
    ∃ (more : String) (program : List Expr),
      (readProgram symbols (text ++ more)).program = .ok program := by
  rcases of_readProgram_error h with ⟨_, a, hfeeds⟩ | ⟨hnot, _⟩
  · exact exists_program_of_feeds hfeeds
  · rw [hincomplete] at hnot
    cases hnot

/-- The words of a text at the start of which all but one fit are no program. -/
private theorem not_program_of_step {symbols : SymbolTable} {text : String}
    {before rest : List Token}
    {a : Assembly} {t : Token} {misfit : Misfit} (hwords : words text.toList = before ++ t :: rest)
    (hbefore : Feeds (start symbols) before a) (hstep : a.step t = .error misfit) :
    ¬ ∃ program, (readProgram symbols text).program = .ok program := by
  intro hprogram
  obtain ⟨program, table, hfeeds⟩ := exists_program_iff.mp hprogram
  rw [hwords] at hfeeds
  exact not_feeds_of_step hbefore hstep hfeeds

/-- A quotation mark that is the first word not to fit, because nothing closes it, in a
    text that can be continued to a program: the text fits once the string is closed. -/
private theorem isIncomplete_of_close {symbols : SymbolTable} {text : String} {before : List Token}
    {a : Assembly} {zs : List Char} (hzs : '"' ∉ zs)
    (hwords : ∀ more : String, words (text ++ more).toList =
      before ++ words ('"' :: (zs ++ '\n' :: more.toList)))
    (hbefore : Feeds (start symbols) before a)
    (hprogram : ∃ (more : String) (program : List Expr),
      (readProgram symbols (text ++ more)).program = .ok program)
    {e : ParseError} (h : (readProgram symbols (text ++ "\"")).program = .error e) :
    e.isIncomplete = true := by
  obtain ⟨more, hmore⟩ := hprogram
  obtain ⟨misfit, hmisfit⟩ := a.step_unrecognized (t := openQuote) rfl
  by_cases hmem : '"' ∈ zs ++ '\n' :: more.toList
  · obtain ⟨t, ht, _, hstring⟩ := words_of_mem hmem
    have hlast : '"' ∈ zs ++ ['\n', '"'] := by simp
    obtain ⟨t', ht', _, hclosed⟩ := words_of_mem hlast
    -- Nothing follows the string that is closed at once.
    have hrest : ((zs ++ ['\n', '"']).dropWhile (· != '"')).tail = [] := by
      have hpos : ∀ c ∈ zs ++ ['\n'], (c != '"') = true := by
        intro c hc
        rcases List.mem_append.mp hc with hc | hc
        · exact bne_iff_ne.mpr fun heq => hzs (heq ▸ hc)
        · rw [List.mem_singleton.mp hc]
          rfl
      have hsplit : zs ++ ['\n', '"'] = (zs ++ ['\n']) ++ ['"'] := by simp
      rw [hsplit, List.dropWhile_append_of_pos hpos]
      rfl
    rw [hrest, words_nil] at hclosed
    -- The string that closes later fits, so the one that is closed at once fits too.
    obtain ⟨program, table, hfeeds⟩ := exists_program_iff.mp hmore
    rw [hwords, hstring] at hfeeds
    cases hstep : a.step t with
    | error misfit => exact absurd hfeeds (not_feeds_of_step hbefore hstep)
    | ok b =>
      obtain ⟨b', hb'⟩ := exists_step_string ht ht' hstep
      have hall : Feeds (start symbols) (words (text ++ "\"").toList) b' := by
        rw [hwords]
        show Feeds (start symbols) (before ++ words ('"' :: (zs ++ ['\n', '"']))) b'
        rw [hclosed]
        exact hbefore.append (.cons (fits_of_step hb') (.nil b'))
      rcases of_readProgram_error h with ⟨hincomplete, _⟩ | ⟨_, before', rest, c, heq, hc, hstep'⟩
      · exact hincomplete
      · rw [heq] at hall
        exact absurd hall (not_feeds_of_step hc hstep')
  · -- The mark stays unrecognized.
    have hopen := (hwords more).trans (congrArg (before ++ ·) (words_of_not_mem hmem))
    exact absurd hmore (not_program_of_step hopen hbefore hmisfit)

/-- Which texts of whole lines can be continued to a program: those that end too early,
    and those where a string is open at the end of the last line and nothing else is wrong,
    so that the text is a program or ends too early once the string is closed. The error of
    the second ones names the quotation mark and is not incomplete. -/
theorem exists_program_append_iff {symbols : SymbolTable} {text : String} {e : ParseError}
    (hline : text.toList.getLast? = some '\n')
    (h : (readProgram symbols text).program = .error e) :
    (∃ (more : String) (program : List Expr),
        (readProgram symbols (text ++ more)).program = .ok program) ↔
      e.isIncomplete = true ∨
        e.token.kind = .unrecognized ∧ e.token.text = "\"" ∧
          ∀ e', (readProgram symbols (text ++ "\"")).program = .error e' →
            e'.isIncomplete = true := by
  obtain ⟨xs, hxs⟩ := List.getLast?_eq_some_iff.mp hline
  have hmore : ∀ more : String, (text ++ more).toList = xs ++ '\n' :: more.toList := by
    intro more
    rw [String.toList_append, hxs, List.append_assoc, List.singleton_append]
  constructor
  · intro hprogram
    rcases of_readProgram_error h with
      ⟨hincomplete, _⟩ | ⟨_, before, rest, a, hwords, hbefore, hstep⟩
    · exact .inl hincomplete
    -- No text that follows changes the words up to the one that does not fit.
    have hfixed : (∀ more : String, ∃ later,
        words (text ++ more).toList = before ++ e.token.bare :: later) → False := by
      intro hfixed
      obtain ⟨more, hmore⟩ := hprogram
      obtain ⟨later, hlater⟩ := hfixed more
      exact not_program_of_step hlater hbefore hstep hmore
    rcases words_append_or xs with hall | ⟨before', zs, hzs, hopen, hopen'⟩
    · refine (hfixed fun more => ⟨rest ++ words more.toList, ?_⟩).elim
      have hlast : words text.toList = words xs := by
        rw [hxs, hall, words_nil, List.append_nil]
      rw [hmore, hall, ← hlast, hwords, List.append_assoc, List.cons_append]
    · have hlast : words text.toList = before' ++ openQuote :: words (zs ++ ['\n']) := by
        have hzs' : '"' ∉ zs ++ ['\n'] := List.not_mem_append hzs (by decide)
        rw [hxs, hopen', words_of_not_mem hzs']
      rw [hlast] at hwords
      -- The mark may be the word that does not fit, or stand before or after that word.
      have hmark : before = before' → e.token.bare = openQuote →
          e.token.kind = .unrecognized ∧ e.token.text = "\"" ∧
            ∀ e', (readProgram symbols (text ++ "\"")).program = .error e' →
              e'.isIncomplete = true := by
        intro heq htoken
        refine ⟨congrArg Token.kind htoken, congrArg Token.text htoken, fun e' he' => ?_⟩
        refine isIncomplete_of_close hzs (fun more => ?_) hbefore hprogram he'
        rw [hmore, hopen', heq]
      rcases List.append_eq_append_iff.mp hwords with ⟨l, hl, hrest⟩ | ⟨l, hl, hrest⟩
      · cases l with
        | nil => exact .inr (hmark (by simpa using hl) (List.cons.inj hrest).1.symm)
        | cons t l =>
          obtain ⟨rfl, _⟩ := List.cons.inj hrest
          exact absurd (hl ▸ List.mem_append_right _ List.mem_cons_self) hbefore.openQuote_notMem
      · cases l with
        | nil => exact .inr (hmark (by simpa using hl.symm) (List.cons.inj hrest).1)
        | cons t l =>
          obtain ⟨rfl, _⟩ := List.cons.inj hrest
          refine (hfixed fun more => ⟨l ++ words ('"' :: (zs ++ '\n' :: more.toList)), ?_⟩).elim
          rw [hmore, hopen', hl, List.append_assoc, List.cons_append]
  · rintro (hincomplete | ⟨_, _, hclosed⟩)
    · exact exists_program_of_isIncomplete h hincomplete
    · cases hread : (readProgram symbols (text ++ "\"")).program with
      | ok program => exact ⟨"\"", program, hread⟩
      | error e' =>
        obtain ⟨more, program, hmore⟩ := exists_program_of_isIncomplete hread (hclosed e' hread)
        exact ⟨"\"" ++ more, program, by rw [← String.append_assoc, hmore]⟩

/-- A line that opens two forms and closes none can be continued. -/
theorem exists_program_append_open : ∃ more program,
    (readProgram .empty ("(define x (+ 1\n" ++ more)).program = .ok program := by
  have hrun : (match (readProgram .empty "(define x (+ 1\n").program with
      | .ok _ => false
      | .error e => e.isIncomplete) = true := by decide +kernel
  split at hrun
  · cases hrun
  · rename_i e herror
    exact (exists_program_append_iff (by decide) herror).mpr (.inl hrun)

/-- A line that ends inside a string has an error that is not incomplete, and one more
    quotation mark makes it a program. -/
theorem unclosed_string_misreported : ∃ (e : ParseError) (program : List Expr),
    "\"a\n".toList.getLast? = some '\n' ∧
      (readProgram .empty "\"a\n").program = .error e ∧ e.isIncomplete = false ∧
        (readProgram .empty ("\"a\n" ++ "\"")).program = .ok program := by
  -- Both readings are computed at once.
  have hrun : (match (readProgram .empty "\"a\n").program,
        (readProgram .empty ("\"a\n" ++ "\"")).program with
      | .error e, .ok _ => !e.isIncomplete
      | _, _ => false) = true := by decide +kernel
  split at hrun
  · rename_i e program herror hprogram
    exact ⟨e, program, by decide, herror, by simpa using hrun, hprogram⟩
  · cases hrun

end LispSession
