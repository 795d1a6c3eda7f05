import LispSession.Proofs.Console.Batch
import LispSession.Proofs.Lexing.Spacing
import LispSession.Proofs.Sessions.Strays

/-!
# The console evaluates each line once

The console tries to evaluate the lines that it keeps whenever one more has come, so a line is
looked at many times. All but the last of these attempts end in the middle of a statement, and
such an attempt is one of those stray texts that leave no trace. What is written is the same as
if the lines had first been cut into chunks, each of them the shortest run of lines that does
not end in the middle of a statement, and each chunk had then been evaluated once.

* `isIncomplete_evaluate`     which lines are kept depends on their text alone
* `IsCut`, `IsCut.unique`     lines are cut into chunks in one way only
* `isCut_cut`                 they are cut by going through them once
* `Console.readLines_eq_cut`  reading the rest of the lines, after some that are kept
* `Console.run_chunks`        reading all lines
-/

namespace LispSession

/-! ### Texts that end in the middle of a statement -/

/-- Blank characters hold no words. -/
private theorem words_of_isBlank {cs : List Char} (h : ∀ c ∈ cs, Text.isBlank c = true) :
    words cs = [] := by
  have hwords := words_blank_append h []
  rwa [List.append_nil, words_nil] at hwords

/-- The text ends in the middle of a statement. -/
def endsEarly (text : String) : Bool :=
  match (readProgram .empty text).program with
  | .error e => e.isIncomplete
  | .ok _ => false

/-- A text that ends early is no program. -/
private theorem not_isProgram_of_endsEarly {text : String} (h : endsEarly text = true) :
    ¬ IsProgram text := by
  rintro ⟨program, hprogram⟩
  unfold endsEarly at h
  rw [hprogram] at h
  exact nomatch h

/-- A blank text is whole. -/
private theorem endsEarly_of_isAllBlank {text : String} (h : Text.isAllBlank text = true) :
    endsEarly text = false := by
  have hwords : words text.toList = [] := words_of_isBlank (List.all_eq_true.mp h)
  have hread : readProgram .empty text = ⟨.ok [], .empty⟩ := by
    rw [readProgram_eq_ok_iff, hwords]
    rfl
  unfold endsEarly
  rw [hread]

/-- Whether an evaluation fails because its text ends too early depends on the text alone. -/
theorem isIncomplete_evaluate (config : Config) (env : Environment) (text : String) :
    ((Interpreter.ofConfig config).evaluate env text).isIncomplete = endsEarly text := by
  unfold endsEarly
  rcases (readProgram_alike .empty
      ((Interpreter.ofConfig config).registry.install env).symbols text).2 with
    ⟨e, herror, herror'⟩ | ⟨program, program', hprogram, hprogram', _⟩
  · rw [herror, Interpreter.evaluate_of_error herror']
    rfl
  · rw [hprogram, Console.isIncomplete_of_ok config hprogram']

/-! ### Cutting lines into chunks -/

/-- All lines that have come so far end in the middle of a statement, after each of them. -/
def Waits (lines : List String) : Prop :=
  ∀ first, first <+: lines → first ≠ [] → endsEarly (unlines first) = true

/-- No lines have to wait. -/
private theorem Waits.nil : Waits [] := fun _ hfirst hne => absurd (List.prefix_nil.mp hfirst) hne

/-- Lines wait on with one more that leaves them in the middle of a statement. -/
private theorem Waits.concat {lines : List String} {line : String} (h : Waits lines)
    (hline : endsEarly (unlines (lines ++ [line])) = true) : Waits (lines ++ [line]) := by
  intro first hfirst hne
  rcases List.prefix_concat_iff.mp hfirst with rfl | hfirst
  · exact hline
  · exact h first hfirst hne

/-- A shortest run of lines that does not end in the middle of a statement. -/
structure IsChunk (run : List String) : Prop where
  ne_nil : run ≠ []
  complete : endsEarly (unlines run) = false
  shortest : ∀ first, first <+: run → first ≠ [] → first ≠ run → endsEarly (unlines first) = true

/-- Waiting lines are a chunk with the line that completes their last statement. -/
private theorem IsChunk.of_waits {kept : List String} {line : String} (h : Waits kept)
    (hline : endsEarly (unlines (kept ++ [line])) = false) : IsChunk (kept ++ [line]) where
  ne_nil := List.append_ne_nil_of_right_ne_nil _ (List.cons_ne_nil _ _)
  complete := hline
  shortest first hfirst hne hproper :=
    h first ((List.prefix_concat_iff.mp hfirst).resolve_left hproper) hne

/-- No chunk is the start of another one. -/
private theorem IsChunk.eq_of_isPrefix {run other : List String} (h : IsChunk run)
    (hother : IsChunk other) (hrun : run <+: other) : run = other := by
  by_contra hne
  have hearly := hother.shortest run hrun h.ne_nil hne
  rw [h.complete] at hearly
  exact nomatch hearly

/-- No chunk is the start of lines that wait for more. -/
private theorem IsChunk.not_isPrefix {run lines : List String} (h : IsChunk run)
    (hwaits : Waits lines) : ¬ run <+: lines := by
  intro hrun
  have hearly := hwaits run hrun h.ne_nil
  rw [h.complete] at hearly
  exact nomatch hearly

/-- The lines are cut into chunks, one after the other, and a rest that holds none. -/
structure IsCut (lines : List String) (chunks : List (List String)) (rest : List String) : Prop where
  lines_eq : lines = chunks.flatten ++ rest
  isChunk : ∀ run ∈ chunks, IsChunk run
  waits : Waits rest

/-- A chunk in front of lines that are cut is cut off first. -/
private theorem IsCut.cons {run lines rest : List String} {chunks : List (List String)}
    (hrun : IsChunk run) (h : IsCut lines chunks rest) :
    IsCut (run ++ lines) (run :: chunks) rest where
  lines_eq := by rw [h.lines_eq, List.flatten_cons, List.append_assoc]
  isChunk := List.forall_mem_cons.mpr ⟨hrun, h.isChunk⟩
  waits := h.waits

/-- What is left to cut after the first chunk. -/
private theorem IsCut.exists_of_cons {run lines rest : List String} {chunks : List (List String)}
    (h : IsCut lines (run :: chunks) rest) :
    IsChunk run ∧ ∃ later, lines = run ++ later ∧ IsCut later chunks rest := by
  obtain ⟨hlines, hchunks, hwaits⟩ := h
  obtain ⟨hrun, hchunks⟩ := List.forall_mem_cons.mp hchunks
  rw [List.flatten_cons, List.append_assoc] at hlines
  exact ⟨hrun, chunks.flatten ++ rest, hlines, rfl, hchunks, hwaits⟩

/-- Lines are cut into chunks in one way only. -/
theorem IsCut.unique {lines rest rest' : List String} {chunks chunks' : List (List String)}
    (h : IsCut lines chunks rest) (h' : IsCut lines chunks' rest') :
    chunks' = chunks ∧ rest' = rest := by
  induction chunks generalizing lines chunks' with
  | nil =>
    have hlines : lines = rest := h.lines_eq
    cases chunks' with
    | nil => exact ⟨rfl, h'.lines_eq.symm.trans hlines⟩
    | cons run chunks' =>
      obtain ⟨hrun, later, hlater, _⟩ := h'.exists_of_cons
      have hstarts : run <+: rest := ⟨later, hlater.symm.trans hlines⟩
      exact absurd hstarts (hrun.not_isPrefix h.waits)
  | cons run chunks ih =>
    obtain ⟨hrun, later, hlater, hcut⟩ := h.exists_of_cons
    cases chunks' with
    | nil =>
      have hlines : lines = rest' := h'.lines_eq
      have hstarts : run <+: rest' := ⟨later, hlater.symm.trans hlines⟩
      exact absurd hstarts (hrun.not_isPrefix h'.waits)
    | cons other chunks' =>
      obtain ⟨hother, later', hlater', hcut'⟩ := h'.exists_of_cons
      -- Both first chunks start the same lines, so one of them starts the other.
      have hstarts : run <+: lines := ⟨later, hlater.symm⟩
      have hstarts' : other <+: lines := ⟨later', hlater'.symm⟩
      have hsame : other = run := by
        rcases List.prefix_or_prefix_of_prefix hstarts hstarts' with hfirst | hfirst
        · exact (hrun.eq_of_isPrefix hother hfirst).symm
        · exact hother.eq_of_isPrefix hrun hfirst
      subst hsame
      obtain rfl : later' = later := List.append_cancel_left (hlater'.symm.trans hlater)
      obtain ⟨rfl, rfl⟩ := ih hcut hcut'
      exact ⟨rfl, rfl⟩

/-- Cut lines into chunks, after some that are kept. -/
def cut (kept : List String) : List String → List (List String) × List String
  | [] => ([], kept)
  | line :: lines =>
    let run := kept ++ [line]
    if endsEarly (unlines run) then cut run lines
    else
      let later := cut [] lines
      (run :: later.1, later.2)

/-- A line is kept if it leaves the lines in the middle of a statement. -/
private theorem cut_of_endsEarly {kept : List String} {line : String}
    (h : endsEarly (unlines (kept ++ [line])) = true) (lines : List String) :
    cut kept (line :: lines) = cut (kept ++ [line]) lines := if_pos h

/-- A line that leaves them nowhere else ends a chunk. -/
private theorem cut_of_not_endsEarly {kept : List String} {line : String}
    (h : endsEarly (unlines (kept ++ [line])) = false) (lines : List String) :
    cut kept (line :: lines) = ((kept ++ [line]) :: (cut [] lines).1, (cut [] lines).2) :=
  if_neg (Bool.eq_false_iff.mp h)

/-- Going through the lines once cuts them into their chunks. -/
theorem isCut_cut {kept : List String} (h : Waits kept) (lines : List String) :
    IsCut (kept ++ lines) (cut kept lines).1 (cut kept lines).2 := by
  -- Induction on the lines that come, with those that wait kept aside.
  induction lines generalizing kept with
  | nil => exact ⟨List.append_nil kept, List.forall_mem_nil _, h⟩
  | cons line lines ih =>
    rw [List.append_cons]
    cases hline : endsEarly (unlines (kept ++ [line])) with
    | true =>
      rw [cut_of_endsEarly hline]
      exact ih (h.concat hline)
    | false =>
      rw [cut_of_not_endsEarly hline]
      exact (ih .nil).cons (.of_waits h hline)

/-! ### What answers write -/

namespace Transcript

variable (t : Transcript)

/-- What is written for an evaluation depends on its output and its error. -/
private theorem add_congr {r r' : Evaluation} (houtput : r.output = r'.output)
    (herror : r.error = r'.error) : t.add r = t.add r' := by
  unfold add
  rw [houtput, herror]

/-- The lines of all answers, one after the other. -/
private theorem output_foldl_add (answers : List Evaluation) : (answers.foldl add t).output =
    t.output ++ unlines (answers.flatMap fun r => r.output.toList) := by
  induction answers generalizing t with
  | nil => exact String.append_empty.symm
  | cons r answers ih =>
    rw [List.foldl_cons, ih, (shows_add t r).output, List.flatMap_cons, unlines_append,
      String.append_assoc]

/-- A line for the error of each answer that has one. -/
private theorem errors_foldl_add (answers : List Evaluation) : (answers.foldl add t).errors =
    t.errors ++ unlines (answers.filterMap fun r => r.error.map EvalError.message) := by
  induction answers generalizing t with
  | nil => exact String.append_empty.symm
  | cons r answers ih =>
    rw [List.foldl_cons, ih]
    cases herror : r.error with
    | none => simp [add, herror]
    | some e => simp [add, herror, unlines, String.append_assoc]

/-- Showing answers is no failure. -/
private theorem failure_foldl_add (answers : List Evaluation) :
    (answers.foldl add t).failure = t.failure := by
  induction answers generalizing t with
  | nil => rfl
  | cons r answers ih => rw [List.foldl_cons, ih, (shows_add t r).failure]

end Transcript

/-! ### Reading lines -/

namespace Console

open Interpreter

/-- The lines before the first one that is no text. -/
def texts : List (Option String) → List String
  | some line :: lines => line :: texts lines
  | _ => []

/-- What is written where reading stops, if some lines are left over. -/
def finish (t : Transcript) (lines : List (Option String)) (rest : List String) : Transcript :=
  if none ∈ lines then { t with failure := some .notText }
  else if rest = [] then t
  else { t with errors := t.errors ++ unfinishedNotice ++ "\n" }

/-- A line that is text does not decide how reading ends. -/
private theorem finish_some (t : Transcript) (line : String) (lines : List (Option String))
    (rest : List String) : finish t (some line :: lines) rest = finish t lines rest := by
  have hmem : none ∈ some line :: lines ↔ none ∈ lines := by simp
  simp only [finish, hmem]

section

variable (t : Transcript) (lines : List (Option String)) (rest : List String)

/-- Where reading stops nothing is written to the output. -/
private theorem output_finish : (finish t lines rest).output = t.output := by
  unfold finish
  split
  · rfl
  · split <;> rfl

/-- Where reading stops a notice is written for the lines that are left over, if all were text. -/
private theorem errors_finish : (finish t lines rest).errors =
    t.errors ++ if none ∈ lines ∨ rest = [] then "" else unfinishedNotice ++ "\n" := by
  unfold finish
  by_cases hnone : none ∈ lines
  · rw [if_pos hnone, if_pos (.inl hnone), String.append_empty]
  · rw [if_neg hnone]
    by_cases hrest : rest = []
    · rw [if_pos hrest, if_pos (.inr hrest), String.append_empty]
    · rw [if_neg hrest, if_neg (not_or.mpr ⟨hnone, hrest⟩), ← String.append_assoc]

/-- Reading fails where a line is no text. -/
private theorem failure_finish : (finish t lines rest).failure =
    if none ∈ lines then some .notText else t.failure := by
  unfold finish
  split
  · rfl
  · split <;> rfl

end

/-- The notice is due if any lines are kept. -/
private theorem isUnfinished_of_waits {kept : List String} (env : Environment) (h : Waits kept) :
    isUnfinished ⟨env, unlines kept⟩ = true ↔ kept ≠ [] := by
  -- Lines that wait are not blank, since a blank text is whole.
  unfold isUnfinished
  constructor
  · rintro hunfinished rfl
    exact nomatch hunfinished
  · intro hne
    have hearly := h kept (List.prefix_refl kept) hne
    cases hblank : Text.isAllBlank (unlines kept) with
    | false => rfl
    | true =>
      rw [endsEarly_of_isAllBlank hblank] at hearly
      exact nomatch hearly

variable (config : Config) {env env' : Environment}

/-- A line is kept as long as the lines end in the middle of a statement. -/
private theorem feed_of_endsEarly {kept : List String} {line : String}
    (h : endsEarly (unlines (kept ++ [line])) = true) :
    feed (ofConfig config) ⟨env, unlines kept⟩ line =
      (⟨((ofConfig config).evaluate env (unlines (kept ++ [line]))).env,
        unlines (kept ++ [line])⟩, none) := by
  unfold feed
  simp only [unlines_concat, isIncomplete_evaluate, h, if_true]

/-- Lines that do not end in the middle of a statement are evaluated. -/
private theorem feed_of_not_endsEarly {kept : List String} {line : String}
    (h : endsEarly (unlines (kept ++ [line])) = false) :
    feed (ofConfig config) ⟨env, unlines kept⟩ line =
      (⟨((ofConfig config).evaluate env (unlines (kept ++ [line]))).env, unlines []⟩,
        some ((ofConfig config).evaluate env (unlines (kept ++ [line])))) := by
  unfold feed
  simp only [unlines_concat, isIncomplete_evaluate, h, Bool.false_eq_true, if_false]
  rfl

/-- Reading lines after some that are kept writes what the evaluation of their chunks does, also
    in an environment that has met the attempts at evaluating the lines that are kept. -/
theorem readLines_eq_cut (henv : Keeps env env') {kept : List String} (hkept : Waits kept)
    (t : Transcript) (lines : List (Option String)) :
    readLines (ofConfig config) ⟨env, unlines kept⟩ t lines =
      finish (((ofConfig config).session env' ((cut kept (texts lines)).1.map unlines)).foldl
        Transcript.add t) lines (cut kept (texts lines)).2 := by
  induction lines generalizing env env' kept t with
  | nil =>
    have hunfinished := isUnfinished_of_waits env hkept
    simp only [texts, cut, List.map_nil, session, List.foldl_nil, readLines, finish, hunfinished,
      List.not_mem_nil, if_false, ite_not]
  | cons read lines ih =>
    cases read with
    | none => simp [texts, cut, session, readLines, finish]
    | some line =>
      rw [readLines, finish_some, texts]
      cases hline : endsEarly (unlines (kept ++ [line])) with
      | true =>
        -- The attempt is a stray text.
        rw [feed_of_endsEarly config hline, cut_of_endsEarly hline]
        have hstray := (henv.stray config (not_isProgram_of_endsEarly hline)).2
        exact ih hstray (hkept.concat hline) t
      | false =>
        rw [feed_of_not_endsEarly config hline, cut_of_not_endsEarly hline]
        obtain ⟨hsame, hlater⟩ := henv.evaluate config (unlines (kept ++ [line]))
        rw [List.map_cons, session, List.foldl_cons,
          ← t.add_congr hsame.output hsame.error]
        exact ih hlater .nil _

/-- The transcript of some lines is that of their chunks, each evaluated once in the environment
    that the one before it has left. -/
def Evaluates (config : Config) (lines : List (Option String)) (t : Transcript) : Prop :=
  ∃ chunks rest, IsCut (texts lines) chunks rest ∧
    (∀ chunks' rest', IsCut (texts lines) chunks' rest' → chunks' = chunks ∧ rest' = rest) ∧
    let answers := (ofConfig config).session (ofConfig config).environment (chunks.map unlines)
    t.output = unlines (answers.flatMap fun r => r.output.toList) ∧
      t.errors = unlines (answers.filterMap fun r => r.error.map EvalError.message) ++
        (if none ∈ lines ∨ rest = [] then "" else unfinishedNotice ++ "\n") ∧
      t.failure = if none ∈ lines then some .notText else none

/-- The console evaluates each chunk of the lines once: whatever lines it reads, and so for all
    streams of bytes. -/
theorem run_chunks (config : Config) :
    (∀ lines, Evaluates config lines
      ((start (ofConfig config)).readLines (ofConfig config) .empty lines)) ∧
    ∀ bytes, Evaluates config (Text.lines bytes) (run (ofConfig config) bytes) := by
  suffices h : ∀ lines, Evaluates config lines
      ((start (ofConfig config)).readLines (ofConfig config) .empty lines) from
    ⟨h, fun bytes => h (Text.lines bytes)⟩
  intro lines
  have hcut : IsCut (texts lines) (cut [] (texts lines)).1 (cut [] (texts lines)).2 :=
    isCut_cut .nil (texts lines)
  have hinstalled := Environment.allInstalled_install Environment.rooted_new Standard.registry
  have hkeeps : Keeps (Standard.registry.install .new) (Standard.registry.install .new) :=
    ⟨Environment.alike_new.install Standard.registry, hinstalled, hinstalled, .refl _⟩
  -- From here on the natives are bound, and the cut decides what the console evaluates.
  have hread := readLines_eq_cut config hkeeps .nil .empty lines
  refine ⟨_, _, hcut, fun _ _ => hcut.unique, ?_⟩
  have hstart : start (ofConfig config) = ⟨Standard.registry.install .new, unlines []⟩ := rfl
  rw [hstart, hread]
  refine ⟨?_, ?_, ?_⟩
  · rw [output_finish, Transcript.output_foldl_add]
    exact String.empty_append
  · rw [errors_finish, Transcript.errors_foldl_add]
    exact congrArg (· ++ _) String.empty_append
  · rw [failure_finish, Transcript.failure_foldl_add]
    rfl

end Console

end LispSession
