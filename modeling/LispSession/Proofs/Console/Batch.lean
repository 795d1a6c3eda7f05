import LispSession.Console
import LispSession.Proofs.Console.Lines
import LispSession.Proofs.Machine.Errors
import LispSession.Proofs.Sessions.Cells

/-!
# The console evaluates programs

The console divides a program by itself: it evaluates the lines that it has kept as soon as
they are a program. What it writes is what the evaluation of the whole program shows, if no
string runs over the end of a line.

* `Text.Lines.words_eq`      the words of a text are those of its lines
* `Transcript.Shows`         what is written shows an evaluation
* `Console.shows_readLines`  reading the rest of a program
* `Console.run_eq_evaluate`  reading a whole program
-/

namespace LispSession

/-! ### Lines and words -/

/-- Lines, each with a newline at its end. -/
def unlines : List String → String
  | [] => ""
  | line :: lines => line ++ "\n" ++ unlines lines

/-- The texts of two runs of lines stand one after the other. -/
theorem unlines_append (lines others : List String) :
    unlines (lines ++ others) = unlines lines ++ unlines others := by
  induction lines with
  | nil => simp [unlines]
  | cons line lines ih => simp [unlines, ih, String.append_assoc]

/-- One more line is added at the end of the text. -/
theorem unlines_concat (lines : List String) (line : String) :
    unlines lines ++ line ++ "\n" = unlines (lines ++ [line]) := by
  simp [unlines_append, unlines, String.append_assoc]

/-- Adding lines one by one writes the text of all of them. -/
private theorem foldl_eq_unlines (lines : List String) (text : String) :
    lines.foldl (fun text line => text ++ line ++ "\n") text = text ++ unlines lines := by
  induction lines generalizing text with
  | nil => simp [unlines]
  | cons line lines ih =>
    rw [List.foldl_cons, ih, unlines]
    simp only [String.append_assoc]

/-- The words of lines, one line after the other. -/
def wordsOf (lines : List String) : List Token := lines.flatMap fun line => words line.toList

/-- The words of two runs of lines stand one after the other. -/
private theorem wordsOf_append (lines others : List String) :
    wordsOf (lines ++ others) = wordsOf lines ++ wordsOf others := List.flatMap_append

/-- The words of the first line come first. -/
private theorem wordsOf_cons (line : String) (lines : List String) :
    wordsOf (line :: lines) = words line.toList ++ wordsOf lines := List.flatMap_cons

/-- Where a line ends, the rest of the text has the words of the other lines. -/
private theorem words_line {xs ys : List Char} {line : String} {lines : List String}
    (hline : words xs = words line.toList) (hopen : openQuote ∉ words (xs ++ '\n' :: ys))
    (hstrings : ∀ t ∈ words (xs ++ '\n' :: ys), t.kind = .string → '\n' ∉ t.text.toList)
    (hrest : openQuote ∉ words ys → (∀ t ∈ words ys, t.kind = .string → '\n' ∉ t.text.toList) →
      words ys = wordsOf lines) :
    words (xs ++ '\n' :: ys) = wordsOf (line :: lines) := by
  have hwords := words_append_line hopen hstrings
  rw [hwords] at hopen hstrings ⊢
  rw [wordsOf_cons, hline]
  exact congrArg _ (hrest (fun hmem => hopen (List.mem_append_right _ hmem))
    fun t ht => hstrings t (List.mem_append_right _ ht))

/-- The words of a text in which no string runs over the end of a line are those of its
    lines. -/
theorem Text.Lines.words_eq {xs : List Char} {lines : List String} (h : Text.Lines xs lines)
    (hopen : openQuote ∉ words xs)
    (hstrings : ∀ t ∈ words xs, t.kind = .string → '\n' ∉ t.text.toList) :
    words xs = wordsOf lines := by
  induction h with
  | nil => exact words_nil
  | last hne h => simp [wordsOf]
  | newline h hrest ih => exact words_line (by rw [String.toList_ofList]) hopen hstrings ih
  | returnNewline h hrest ih =>
    exact words_line (by rw [String.toList_ofList, words_append_return]) hopen hstrings ih

/-- The lines that are kept have their words, one line after the other. -/
private theorem words_unlines {lines : List String} (h : openQuote ∉ wordsOf lines) :
    words (unlines lines).toList = wordsOf lines := by
  induction lines with
  | nil => exact words_nil
  | cons line lines ih =>
    rw [wordsOf_cons, List.mem_append, not_or] at h
    rw [unlines, String.toList_append, String.toList_append, List.append_assoc]
    show words (line.toList ++ '\n' :: (unlines lines).toList) = _
    rw [words_append_newline h.1, ih h.2, wordsOf_cons]

/-! ### Transcripts -/

namespace Transcript

/-- What is written after a transcript shows an evaluation: all of its lines, and its error
    before all others. -/
structure Shows (t : Transcript) (r : Evaluation) (t' : Transcript) : Prop where
  output : t'.output = t.output ++ unlines r.output.toList
  quiet : r.error = none → t'.errors = t.errors
  error : ∀ e, r.error = some e → ∃ more, t'.errors = t.errors ++ e.message ++ "\n" ++ more
  failure : t'.failure = t.failure

/-- What is added to a transcript for an evaluation shows it. -/
theorem shows_add (t : Transcript) (r : Evaluation) : t.Shows r (t.add r) where
  output := by
    unfold add
    rw [← Array.foldl_toList, foldl_eq_unlines]
  quiet h := by simp only [add, h]
  error e h := ⟨"", by simp only [add, h, String.append_empty]⟩
  failure := rfl

variable {t t₁ t₂ : Transcript} {r r₁ r₂ : Evaluation}

/-- Nothing that has been written is taken back. -/
private theorem Shows.exists_more (h : t.Shows r t₁) : ∃ more, t₁.errors = t.errors ++ more := by
  cases herror : r.error with
  | none => exact ⟨"", by rw [h.quiet herror, String.append_empty]⟩
  | some e =>
    obtain ⟨more, hmore⟩ := h.error e herror
    exact ⟨e.message ++ "\n" ++ more, by rw [hmore]; simp only [String.append_assoc]⟩

/-- Two evaluations that are shown one after the other show the one that does the same. -/
private theorem Shows.joins (h₁ : t.Shows r₁ t₁) (h₂ : t₁.Shows r₂ t₂) (h : r.Joins r₁ r₂) :
    t.Shows r t₂ where
  output := by
    rw [h₂.output, h₁.output, h.output, Array.toList_append, unlines_append, String.append_assoc]
  quiet hnone := by
    rw [h.error, Option.or_eq_none_iff] at hnone
    rw [h₂.quiet hnone.2, h₁.quiet hnone.1]
  error e he := by
    rw [h.error] at he
    -- If the first evaluation fails, its error is written first, else it writes none.
    cases hfirst : r₁.error with
    | none =>
      rw [hfirst, Option.none_or] at he
      rw [← h₁.quiet hfirst]
      exact h₂.error e he
    | some e₁ =>
      rw [hfirst, Option.some_or] at he
      cases he
      obtain ⟨more, hmore⟩ := h₁.error e hfirst
      obtain ⟨others, hothers⟩ := h₂.exists_more
      exact ⟨more ++ others, by rw [hothers, hmore, String.append_assoc]⟩
  failure := by rw [h₂.failure, h₁.failure]

/-- Evaluations with the same lines and the same error are shown alike. -/
private theorem Shows.of_alike (h : t.Shows r t₁) (hr : r.Alike r₁) : t.Shows r₁ t₁ :=
  ⟨hr.output ▸ h.output, hr.error ▸ h.quiet, hr.error ▸ h.error, h.failure⟩

end Transcript

/-! ### The console -/

namespace Console

open Interpreter Environment

variable (config : Config) {console : Console} {line text : String}

/-- The error of a program, if it has one, is not about its text. -/
theorem isIncomplete_of_ok {env : Environment} {program : List Expr}
    (h : (ofConfig config).read env text = .ok program) :
    ((ofConfig config).evaluate env text).isIncomplete = false := by
  -- An evaluation that runs statements fails by an error of evaluation, never by one of parsing.
  have hnone : ∀ e ∈ (none : Option EvalError), e.Raised := fun _ h => nomatch h
  have hraised := raised_runStatements (registry_context config) program
    ⟨(ofConfig config).prepare env text, #[]⟩ hnone
  rw [evaluate_of_ok h]
  unfold Evaluation.isIncomplete
  simp only
  split
  · rename_i e he
    exact (hraised _ he).elim
  · rfl

/-- Lines that are a program are evaluated. -/
private theorem feed_of_isProgram (htext : console.pending ++ line ++ "\n" = text)
    (h : IsProgram text) : console.feed (ofConfig config) line =
      (⟨((ofConfig config).evaluate console.env text).env, ""⟩,
        some ((ofConfig config).evaluate console.env text)) := by
  have hcomplete : ((ofConfig config).evaluate console.env text).isIncomplete = false := by
    obtain ⟨program, hread⟩ : ∃ program, (ofConfig config).read console.env text = .ok program :=
      (isProgram_iff _).mp h
    exact isIncomplete_of_ok config hread
  unfold feed
  simp only [htext, hcomplete]
  rfl

/-- Lines at the start of a program that are none by themselves are kept. -/
private theorem feed_of_unfinished (htext : console.pending ++ line ++ "\n" = text) {whole : String}
    {more : List Token} (hwords : words whole.toList = words text.toList ++ more)
    (hwhole : IsProgram whole) (h : ¬ IsProgram text) :
    console.feed (ofConfig config) line =
      (⟨((ofConfig config).evaluate console.env text).env, text⟩, none) := by
  -- The text is the beginning of a program but not one, so more of it is waited for.
  have hincomplete : ((ofConfig config).evaluate console.env text).isIncomplete = true := by
    cases hread : (ofConfig config).read console.env text with
    | ok program => exact absurd ((isProgram_iff _).mpr ⟨program, hread⟩) h
    | error e =>
      rw [evaluate_of_error hread]
      exact isIncomplete_of_append hwords hwhole hread
  unfold feed
  simp only [htext, hincomplete]
  rfl

/-- A text without words is a program that does nothing. -/
private theorem shows_of_words_nil {env : Environment} (h : words text.toList = [])
    (t : Transcript) : t.Shows ((ofConfig config).evaluate env text) t := by
  have hread : readProgram ((ofConfig config).registry.install env).symbols text =
      ⟨.ok [], ((ofConfig config).registry.install env).symbols⟩ := by
    rw [readProgram_eq_ok_iff, h]
    rfl
  have hok : (ofConfig config).read env text = .ok [] := by
    unfold Interpreter.read
    rw [hread]
  rw [evaluate_of_ok hok]
  exact ⟨by simp [runStatements, unlines], fun _ => rfl, fun e he => (nomatch he), rfl⟩

/-- Reading the rest of the lines of a program, after some that are kept, shows its
    evaluation. -/
theorem shows_readLines {env : Environment} (henv : env.Settled) {whole : String}
    (hwhole : IsProgram whole) {kept rest : List String}
    (hwords : words whole.toList = wordsOf (kept ++ rest))
    (hkept : kept = [] ∨ ¬ IsProgram (unlines kept))
    (hfatal : ∀ o ∈ (ofConfig config).outcomes env whole, o.isFatal = false) (t : Transcript) :
    t.Shows ((ofConfig config).evaluate env whole)
      (readLines (ofConfig config) ⟨env, unlines kept⟩ t (rest.map some)) := by
  -- By lines: they are kept or evaluated.
  induction rest generalizing env whole kept t with
  | nil =>
    -- Nothing is kept at the end, as all of it would be a program.
    have hopen : openQuote ∉ wordsOf kept := by
      rw [List.append_nil] at hwords
      rw [← hwords]
      exact hwhole.openQuote_notMem
    rw [List.append_nil] at hwords
    rcases hkept with rfl | hkept
    · exact shows_of_words_nil config hwords t
    · rw [← words_unlines hopen] at hwords
      exact absurd ((isProgram_congr hwords).mp hwhole) hkept
  | cons line rest ih =>
    have htext := unlines_concat kept line
    have hopen := hwhole.openQuote_notMem
    rw [List.append_cons, wordsOf_append] at hwords
    rw [hwords, List.mem_append, not_or] at hopen
    have hrest := words_unlines hopen.2
    rw [← words_unlines hopen.1, ← hrest] at hwords
    rw [List.map_cons, readLines]
    by_cases h : IsProgram (unlines (kept ++ [line]))
    · -- What is kept is a program, and so is what is left.
      rw [feed_of_isProgram config htext h]
      have hsecond := isProgram_of_append hwords hwhole h
      have hfirst := henv.first_not_fatal config hwords h hsecond hfatal
      obtain ⟨hjoins, hshown⟩ := henv.joins config hwords h hsecond hfirst
      have hlater := not_fatal_of_shown (fun _ ho => hshown ▸ List.mem_append_right _ ho) hfatal
      have hnext : words (unlines rest).toList = wordsOf ([] ++ rest) := hrest
      have hshows := ih (henv.evaluate config _) hsecond hnext (.inl rfl) hlater
        (t.add ((ofConfig config).evaluate env (unlines (kept ++ [line]))))
      exact (Transcript.shows_add t _).joins hshows hjoins
    · -- More lines are needed: nothing happens but that names become known.
      rw [feed_of_unfinished config htext hwords hwhole h]
      have hsettled := henv.evaluate config (unlines (kept ++ [line]))
      obtain ⟨e, names, heval⟩ := evaluate_of_not_isProgram config henv.installed h
      rw [heval] at hsettled ⊢
      have halike : Environment.Alike { env with symbols := env.symbols.internAll names } env :=
        henv.alike.withSymbols fun _ _ hab => hab.of_internAll names []
      have hlater := not_fatal_of_shown
        (fun _ ho => Interpreter.outcomes_alike config halike whole ▸ ho) hfatal
      have hnext : words whole.toList = wordsOf ((kept ++ [line]) ++ rest) := by
        rw [wordsOf_append, ← words_unlines hopen.1, ← hrest, hwords]
      have hshows := ih hsettled hwhole hnext (.inr h) hlater t
      exact hshows.of_alike (Interpreter.evaluate_alike config halike whole).1

/-- Reading the bytes of a program writes what the evaluation of the program shows. -/
theorem run_eq_evaluate (text : String) (hprogram : IsProgram text)
    (hstrings : ∀ t ∈ significantTokens text, t.kind = .string → '\n' ∉ t.text.toList)
    (hfatal : ∀ o ∈ (ofConfig config).outcomes .new text, o.isFatal = false) :
    let transcript := run (ofConfig config) text.toUTF8.toList
    let evaluation := (ofConfig config).evaluate .new text
    transcript.failure = none ∧
      transcript.output = unlines evaluation.output.toList ∧
      (transcript.errors = "" ↔ evaluation.error = none) ∧
      (evaluation.error ≠ none →
        ∃ more, transcript.errors = evaluation.errorMessage ++ "\n" ++ more) := by
  intro transcript evaluation
  obtain ⟨lines, hlines, hrun⟩ := Text.exists_lines text.toList
  have hwords : words text.toList = wordsOf ([] ++ lines) := by
    refine hlines.words_eq hprogram.openQuote_notMem fun t ht => ?_
    rw [← words_significant] at ht
    obtain ⟨token, htoken, rfl⟩ := List.mem_map.mp ht
    exact hstrings token htoken
  have hrooted := Environment.rooted_new
  rw [← outcomes_install config hrooted] at hfatal
  have hshows := shows_readLines config Environment.Reached.new.settled hprogram hwords (.inl rfl)
    hfatal .empty
  have htranscript : readLines (ofConfig config) ⟨Standard.registry.install .new, unlines []⟩ .empty
      (lines.map some) = transcript := by
    rw [← hrun, ← Text.toList_toUTF8]
    rfl
  rw [evaluate_install config hrooted, htranscript] at hshows
  -- An error has at least its newline written.
  have herrors : ∀ e, evaluation.error = some e →
      ∃ more, transcript.errors = e.message ++ "\n" ++ more := by
    intro e he
    obtain ⟨more, hmore⟩ := hshows.error e he
    exact ⟨more, by rw [hmore]; simp [Transcript.empty]⟩
  refine ⟨hshows.failure, ?_, ⟨fun hnone => ?_, hshows.quiet⟩, fun herror => ?_⟩
  · rw [hshows.output]
    exact String.empty_append
  · refine Option.eq_none_iff_forall_ne_some.mpr fun e he => ?_
    obtain ⟨more, hmore⟩ := herrors e he
    have hlength := congrArg String.length (hnone.symm.trans hmore)
    rw [String.length_append, String.length_append] at hlength
    have hempty : "".length = 0 := rfl
    have hnewline : "\n".length = 1 := rfl
    omega
  · obtain ⟨e, he⟩ := Option.ne_none_iff_exists'.mp herror
    rw [Evaluation.errorMessage, he]
    exact herrors e he

/-- A program on three lines, the first of which ends within a statement and the second of
    which fails. -/
theorem run_eq_evaluate_divided :
    let transcript := run (ofConfig .default) "(define a\r\n1) (car a)\na".toUTF8.toList
    let evaluation := (ofConfig .default).evaluate .new "(define a\r\n1) (car a)\na"
    transcript.failure = none ∧
      transcript.output = unlines evaluation.output.toList ∧
      (transcript.errors = "" ↔ evaluation.error = none) ∧
      (evaluation.error ≠ none →
        ∃ more, transcript.errors = evaluation.errorMessage ++ "\n" ++ more) :=
  run_eq_evaluate .default "(define a\r\n1) (car a)\na" (by decide +kernel) (by decide +kernel)
    (by decide +kernel)

end Console

end LispSession
