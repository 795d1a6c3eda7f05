import LispSession.Proofs.Lexing.Rules
import LispSession.Token.Cursor

/-!
# The words of a text

The words of a text are its significant tokens without their places. Where a line ends,
every word ends, except a string: its characters may hold newlines, and a quotation mark
that nothing closes is a word of its own. So the words of a text are those of its lines,
if no string runs over the end of a line.

* `words_significant`      the words are the significant tokens
* `words_append_or`        a newline divides the words, or a string is open there
* `words_append_newline`   a newline divides the words where no string is open
* `words_append_line`      it does so in a text without strings over several lines
* `words_append_return`    a carriage return at the end changes nothing
-/

namespace LispSession

/-- The token without its place in a text. -/
def Token.bare (t : Token) : Token := { t with first := .start, last := .start }

/-- The word that a lexeme makes, if it is not trivia. -/
def Lexeme.word? (found : Lexeme) : Option Token :=
  if found.kind.isTrivia then none
  else some ⟨found.kind, String.ofList found.taken, .start, .start⟩

/-- The significant tokens of some characters, without their places. -/
def words : List Char → List Token
  | [] => []
  | c :: cs => (lexeme (c :: cs)).word?.toList ++ words (lexeme (c :: cs)).rest
termination_by cs => cs.length
decreasing_by exact length_rest_lt (List.cons_ne_nil c cs)

/-- The end of the input has no words. -/
@[simp] theorem words_nil : words [] = [] := by rw [words]

/-- The words of a text that is not empty, by its first lexeme. -/
theorem words_of_ne_nil {cs : List Char} (hcs : cs ≠ []) :
    words cs = (lexeme cs).word?.toList ++ words (lexeme cs).rest := by
  obtain ⟨c, cs, rfl⟩ := List.exists_cons_of_ne_nil hcs
  rw [words]

/-- A word by its kind and its characters. -/
def word (kind : TokenKind) (text : String) : Token := ⟨kind, text, .start, .start⟩

/-- A significant token is the first word of a text that starts with it. -/
theorem words_of_lexeme {cs taken rest : List Char} {kind : TokenKind} (hcs : cs ≠ [])
    (h : lexeme cs = ⟨kind, taken, rest⟩) (hkind : kind.isTrivia = false) :
    words cs = word kind (String.ofList taken) :: words rest := by
  rw [words_of_ne_nil hcs, h]
  simp only [Lexeme.word?, hkind, Bool.false_eq_true, if_false, Option.toList_some,
    List.singleton_append, word]

/-- The significant tokens from a place on are the words of what is left there. -/
private theorem Cursor.words_drain (c : Cursor) :
    (c.drain.1.filter fun t => !t.kind.isTrivia).map Token.bare = words c.rest := by
  -- Token by token; trivia add no word.
  fun_induction drain c with
  | case1 c step hend =>
    rw [next_kind_eq_endOfInput.mp hend]
    simp
  | case2 c step hend later ih =>
    have hrest : c.rest ≠ [] := fun hrest => hend (next_kind_eq_endOfInput.mpr hrest)
    have hkind : step.1.kind = (lexeme c.rest).kind := rfl
    have hafter : step.2.rest = (lexeme c.rest).rest := rfl
    rw [words_of_ne_nil hrest, Lexeme.word?, ← hkind, ← hafter, ← ih]
    cases htrivia : step.1.kind.isTrivia with
    | true => simp [later, htrivia]
    | false =>
      simp only [later, htrivia, List.filter_cons, Bool.not_false, if_true, List.map_cons,
        Bool.false_eq_true, if_false, Option.toList_some, List.singleton_append]
      rfl

/-- The words of a text are its significant tokens. -/
theorem words_significant (text : String) :
    (significantTokens text).map Token.bare = words text.toList :=
  (Cursor.start text).words_drain

/-! ### Rule by rule

The first lexeme of a longer text is compared with that of the text by comparing what
each rule takes from them. -/

/-- The lexeme that the rule takes from the front of a text. -/
def Rule.lexeme? (rule : Rule) (cs : List Char) : Option Lexeme :=
  (rule.split? cs).map fun (taken, rest) => ⟨rule.kind, taken, rest⟩

/-- What holds of the lexemes of two texts that start alike, whichever rule takes them,
    holds of their first lexemes. -/
private theorem lexeme_rel {R : Lexeme → Lexeme → Prop} {c : Char} {cs ds : List Char}
    (hrules : ∀ rule ∈ Rule.all, Option.Rel R (rule.lexeme? (c :: cs)) (rule.lexeme? (c :: ds)))
    (hnone : R ⟨.unrecognized, [c], cs⟩ ⟨.unrecognized, [c], ds⟩) :
    R (lexeme (c :: cs)) (lexeme (c :: ds)) := by
  have hfirst : ∀ rules : List Rule,
      (∀ rule ∈ rules, Option.Rel R (rule.lexeme? (c :: cs)) (rule.lexeme? (c :: ds))) →
      Option.Rel R (firstLexeme? rules (c :: cs)) (firstLexeme? rules (c :: ds)) := by
    intro rules
    induction rules with
    | nil => intro _; exact .none
    | cons rule rules ih =>
      intro hrules
      have hrule := hrules rule List.mem_cons_self
      have hlater := ih fun other hother => hrules other (List.mem_cons_of_mem _ hother)
      simp only [Rule.lexeme?] at hrule
      simp only [firstLexeme?, List.findSome?_cons] at hlater ⊢
      -- A rule that applies to one text applies to the other.
      revert hrule
      generalize (rule.split? (c :: cs)).map _ = found
      generalize (rule.split? (c :: ds)).map _ = found'
      intro hrule
      cases hrule with
      | none => exact hlater
      | some h => exact .some h
  have hall := hfirst Rule.all hrules
  simp only [lexeme]
  revert hall
  generalize firstLexeme? Rule.all (c :: cs) = found
  generalize firstLexeme? Rule.all (c :: ds) = found'
  intro hall
  cases hall with
  | none => exact hnone
  | some h => exact h

/-- The lexeme with more characters after it. -/
def Lexeme.before (found : Lexeme) (more : List Char) : Lexeme :=
  { found with rest := found.rest ++ more }

/-- What is left after a token does not change its word. -/
@[simp] theorem Lexeme.word?_before (found : Lexeme) (more : List Char) :
    (found.before more).word? = found.word? := rfl

/-- What follows the text is left after its first token. -/
@[simp] theorem Lexeme.rest_before (found : Lexeme) (more : List Char) :
    (found.before more).rest = found.rest ++ more := rfl

/-- The rule takes the same from a text with more characters after it. -/
def Rule.Stable (rule : Rule) (cs more : List Char) : Prop :=
  rule.split? (cs ++ more) = (rule.split? cs).map fun s => (s.1, s.2 ++ more)

/-- A rule that reads on the same way yields the same token, and more is left after it. -/
private theorem Rule.Stable.lexeme?_eq {rule : Rule} {cs more : List Char}
    (h : rule.Stable cs more) :
    rule.lexeme? (cs ++ more) = (rule.lexeme? cs).map (·.before more) := by
  have h' := h
  unfold Stable at h'
  unfold lexeme?
  rw [h']
  cases rule.split? cs <;> rfl

/-! ### Where a piece stops -/

/-- The class of the piece does not have the character. -/
def Piece.refuses (c : Char) : Piece → Bool
  | one p | optional p | many p => !p c

/-- What a piece takes ends before a character that it refuses. -/
private theorem Piece.split?_append_cons {piece : Piece} {c : Char} (h : piece.refuses c = true)
    (xs ys : List Char) :
    piece.split? (xs ++ c :: ys) = (piece.split? xs).map fun s => (s.1, s.2 ++ c :: ys) := by
  -- A piece for many characters stops before the one that it refuses, or earlier.
  cases piece with
  | one p | optional p =>
    have hc : p c = false := by simpa [refuses] using h
    cases xs with
    | nil => simp [split?, hc]
    | cons x xs => by_cases hx : p x = true <;> simp [split?, hx]
  | many p =>
    have hc : p c = false := by simpa [refuses] using h
    induction xs with
    | nil => simp [split?, hc]
    | cons x xs ih =>
      simp only [split?, Option.map_some, Option.some.injEq, Prod.mk.injEq] at ih ⊢
      by_cases hx : p x = true
      · simp [hx, ih.1, ih.2]
      · simp [hx]

/-- A pattern whose pieces all refuse a character reads the same up to it. -/
private theorem Pattern.split?_append_cons {pattern : Pattern} {c : Char}
    (h : pattern.all (·.refuses c) = true) (xs ys : List Char) :
    Pattern.split? pattern (xs ++ c :: ys) =
      (Pattern.split? pattern xs).map fun s => (s.1, s.2 ++ c :: ys) := by
  induction pattern generalizing xs with
  | nil => simp [split?]
  | cons piece pieces ih =>
    simp only [List.all_cons, Bool.and_eq_true] at h
    simp only [split?, Piece.split?_append_cons h.1]
    cases piece.split? xs with
    | none => rfl
    | some s =>
      simp only [Option.map_some, ih h.2]
      cases split? pieces s.2 <;> rfl

/-- A rule stops before a character that its pattern refuses. -/
private theorem Rule.stable_of_refuses {rule : Rule} {c : Char}
    (h : rule.pattern.all (·.refuses c) = true) (hc : isSymbolChar c = false)
    (xs ys : List Char) : rule.Stable xs (c :: ys) := by
  simp only [Stable, split?, Pattern.split?_append_cons h]
  cases Pattern.split? rule.pattern xs with
  | none => rfl
  | some s =>
    obtain ⟨taken, rest⟩ := s
    simp only [Option.map_some]
    -- What follows the match is a symbol character or not, as before.
    have hhead : (rest ++ c :: ys).head?.any isSymbolChar = rest.head?.any isSymbolChar := by
      cases rest with
      | nil => simp [hc]
      | cons x xs => rfl
    rw [hhead]
    split <;> rfl

/-! ### Strings -/

/-- A quotation mark that nothing closes. -/
def openQuote : Token := ⟨.unrecognized, "\"", .start, .start⟩

/-- The text starts with a quotation mark that nothing closes. -/
def OpensString (cs : List Char) : Prop := ∃ rest, cs = '"' :: rest ∧ '"' ∉ rest

/-- What a class takes ends at the latest at a character outside the class. -/
private theorem takeWhile_append_of_mem {p : Char → Bool} {xs : List Char} {c : Char}
    (hmem : c ∈ xs) (hc : p c = false) (ys : List Char) :
    (xs ++ ys).takeWhile p = xs.takeWhile p ∧
      (xs ++ ys).dropWhile p = xs.dropWhile p ++ ys := by
  -- The run ends at the character at the latest.
  induction xs with
  | nil => exact absurd hmem List.not_mem_nil
  | cons x xs ih =>
    by_cases hx : p x = true
    · have hmem' : c ∈ xs := by
        rcases List.mem_cons.mp hmem with rfl | hmem
        · rw [hc] at hx
          cases hx
        · exact hmem
      simp [hx, ih hmem']
    · simp [hx]

/-- The rule for strings takes the same with more characters after it, unless they close
    a string. -/
private theorem stable_forStrings {cs : List Char} (hcs : cs ≠ []) {more : List Char}
    (hopen : OpensString cs → '"' ∉ more) : Rule.forStrings.Stable cs more := by
  obtain ⟨c, cs, rfl⟩ := List.exists_cons_of_ne_nil hcs
  unfold Rule.Stable
  rw [List.cons_append]
  by_cases hc : c = '"'
  · subst hc
    -- A string that is closed already ends where it did; an open quote may not be closed later.
    by_cases hmem : '"' ∈ cs
    · obtain ⟨htake, hdrop⟩ := takeWhile_append_of_mem (p := (· != '"')) hmem (by decide) more
      obtain ⟨d, ds, hds⟩ := exists_dropWhile_eq_cons hmem
      simp only [Rule.split?_forStrings, htake, hdrop, hds, List.cons_append, Option.map_some]
    · have hmore : '"' ∉ cs ++ more := List.not_mem_append hmem (hopen ⟨cs, rfl, hmem⟩)
      rw [Rule.split?_forStrings_of_not_mem hmem, Rule.split?_forStrings_of_not_mem hmore]
      rfl
  · rw [Rule.split?_forStrings_of_ne hc, Rule.split?_forStrings_of_ne hc]
    rfl

/-- The words of a text that starts with a quotation mark that nothing closes. -/
theorem words_of_not_mem {rest : List Char} (h : '"' ∉ rest) :
    words ('"' :: rest) = openQuote :: words rest := by
  rw [words_of_ne_nil (List.cons_ne_nil _ _), lexeme_of_not_mem h]
  rfl

/-- The words of a text that starts with a quotation mark that is closed. -/
theorem words_of_mem {rest : List Char} (h : '"' ∈ rest) :
    ∃ t : Token, t.kind = .string ∧
      t.text = String.ofList ('"' :: (rest.takeWhile (· != '"') ++ ['"'])) ∧
      words ('"' :: rest) = t :: words (rest.dropWhile (· != '"')).tail := by
  refine ⟨⟨.string, _, .start, .start⟩, rfl, rfl, ?_⟩
  rw [words_of_ne_nil (List.cons_ne_nil _ _), lexeme_of_mem h]
  rfl

/-! ### Newlines -/

/-- Whether a line ends here is seen from the next two characters. -/
private theorem stable_forLineEnds {cs : List Char} (hcs : cs ≠ []) {more : List Char}
    (hreturn : cs = ['\r'] → more.head? ≠ some '\n') : Rule.forLineEnds.Stable cs more := by
  obtain ⟨c, cs, rfl⟩ := List.exists_cons_of_ne_nil hcs
  by_cases hc : c = '\r'
  -- Only a carriage return at the very end could take a newline that follows.
  · subst hc
    cases cs with
    | cons d ds =>
      by_cases hd : d = '\n' <;>
        simp [Rule.Stable, Rule.split?, Rule.forLineEnds, Pattern.split?, Piece.char,
          Piece.split?, hd]
    | nil =>
      have hmore := hreturn rfl
      cases more with
      | nil => simp [Rule.Stable, Rule.split?, Rule.forLineEnds, Pattern.split?, Piece.char,
          Piece.split?]
      | cons m more =>
        have hm : m ≠ '\n' := fun heq => hmore (by simp [heq])
        simp [Rule.Stable, Rule.split?, Rule.forLineEnds, Pattern.split?, Piece.char,
          Piece.split?, hm]
  · by_cases hn : c = '\n' <;>
      simp [Rule.Stable, Rule.split?, Rule.forLineEnds, Pattern.split?, Piece.char,
        Piece.split?, hc, hn]

/-- All rules but those for strings and line ends stop before a newline. -/
private theorem refuses_newline :
    ∀ rule ∈ Rule.all, rule = Rule.forStrings ∨ rule = Rule.forLineEnds ∨
    rule.pattern.all (·.refuses '\n') = true := by
  simp only [Rule.all, Keyword.all, List.map_cons, List.map_nil, List.cons_append,
    List.nil_append, List.forall_mem_cons]
  refine ⟨?_, .inr (.inl rfl), ?_, ?_, ?_, ?_, ?_, ?_, ?_, ?_, ?_, ?_, ?_, ?_, ?_, .inl rfl, ?_,
    List.forall_mem_nil _⟩
  all_goals exact .inr (.inr rfl)

/-- The first lexeme of a text stays the same when a newline and more characters follow. -/
private theorem lexeme_append_newline {cs : List Char} (hcs : cs ≠ []) (hreturn : cs ≠ ['\r'])
    (hopen : ¬ OpensString cs) (ys : List Char) :
    lexeme (cs ++ '\n' :: ys) = (lexeme cs).before ('\n' :: ys) := by
  -- No rule reaches over the newline: the string rule would, but no string is open.
  have hrules : ∀ rule ∈ Rule.all, rule.Stable cs ('\n' :: ys) := by
    intro rule hrule
    rcases refuses_newline rule hrule with rfl | rfl | hrefuses
    · exact stable_forStrings hcs fun h => absurd h hopen
    · exact stable_forLineEnds hcs fun heq => absurd heq hreturn
    · exact Rule.stable_of_refuses hrefuses (by decide) cs ys
  obtain ⟨c, cs, rfl⟩ := List.exists_cons_of_ne_nil hcs
  rw [List.cons_append]
  refine lexeme_rel (R := fun found found' => found' = found.before ('\n' :: ys)) ?_ rfl
  intro rule hrule
  have hstable := (hrules rule hrule).lexeme?_eq
  rw [List.cons_append] at hstable
  rw [hstable]
  cases rule.lexeme? (c :: cs) with
  | none => exact .none
  | some found => exact .some rfl

/-- A newline at the beginning adds no word. -/
theorem words_newline_cons (ys : List Char) : words ('\n' :: ys) = words ys := by
  have hlexeme : lexeme ('\n' :: ys) = ⟨.lineEnd, ['\n'], ys⟩ := rfl
  rw [words_of_ne_nil (List.cons_ne_nil _ _), hlexeme]
  rfl

/-- A carriage return and a newline at the beginning add no word. -/
private theorem words_return_newline_cons (ys : List Char) :
    words ('\r' :: '\n' :: ys) = words ys := by
  have hlexeme : lexeme ('\r' :: '\n' :: ys) = ⟨.lineEnd, ['\r', '\n'], ys⟩ := rfl
  rw [words_of_ne_nil (List.cons_ne_nil _ _), hlexeme]
  rfl

/-- A carriage return alone is no word. -/
private theorem words_return : words ['\r'] = [] := by
  have hlexeme : lexeme ['\r'] = ⟨.blank, ['\r'], []⟩ := rfl
  rw [words_of_ne_nil (List.cons_ne_nil _ _), hlexeme]
  simp [Lexeme.word?, TokenKind.isTrivia]

/-- A newline divides the words of a text, or a string is open there: the text before it
    ends with a quotation mark, known as a word of its own as long as nothing closes it. -/
theorem words_append_or (xs : List Char) :
    (∀ ys, words (xs ++ '\n' :: ys) = words xs ++ words ys) ∨
      ∃ before zs, '"' ∉ zs ∧ words xs = before ++ openQuote :: words zs ∧
        ∀ ys, words (xs ++ '\n' :: ys) = before ++ words ('"' :: (zs ++ '\n' :: ys)) := by
  -- By lexemes, from the front.
  generalize hn : xs.length = n
  induction n using Nat.strongRecOn generalizing xs with
  | _ n ih =>
    by_cases hnil : xs = []
    · subst hnil
      exact .inl fun ys => by rw [List.nil_append, words_newline_cons, words_nil, List.nil_append]
    by_cases hreturn : xs = ['\r']
    · subst hreturn
      refine .inl fun ys => ?_
      rw [List.cons_append, List.nil_append, words_return_newline_cons, words_return,
        List.nil_append]
    by_cases hopen : OpensString xs
    · obtain ⟨zs, rfl, hzs⟩ := hopen
      exact .inr ⟨[], zs, hzs, words_of_not_mem hzs, fun ys => rfl⟩
    -- The first lexeme ends before the newline.
    have hwords : ∀ ys, words (xs ++ '\n' :: ys) =
        (lexeme xs).word?.toList ++ words ((lexeme xs).rest ++ '\n' :: ys) := by
      intro ys
      rw [words_of_ne_nil (by simp), lexeme_append_newline hnil hreturn hopen,
        Lexeme.word?_before, Lexeme.rest_before]
    rcases ih _ (hn ▸ length_rest_lt hnil) (lexeme xs).rest rfl with h | ⟨before, zs, hzs, h, hmore⟩
    · refine .inl fun ys => ?_
      rw [hwords, h, words_of_ne_nil hnil, List.append_assoc]
    · refine .inr ⟨(lexeme xs).word?.toList ++ before, zs, hzs, ?_, fun ys => ?_⟩
      · rw [words_of_ne_nil hnil, h, List.append_assoc]
      · rw [hwords, hmore, List.append_assoc]

/-- A newline divides the words of a text where no string is open. -/
theorem words_append_newline {xs : List Char} (h : openQuote ∉ words xs) (ys : List Char) :
    words (xs ++ '\n' :: ys) = words xs ++ words ys := by
  rcases words_append_or xs with hall | ⟨before, zs, _, hwords, _⟩
  · exact hall ys
  · exact absurd (hwords ▸ List.mem_append_right _ List.mem_cons_self) h

/-- A newline divides the words of a text in which no string runs over the end of a line. -/
theorem words_append_line {xs ys : List Char} (hopen : openQuote ∉ words (xs ++ '\n' :: ys))
    (hstrings : ∀ t ∈ words (xs ++ '\n' :: ys), t.kind = .string → '\n' ∉ t.text.toList) :
    words (xs ++ '\n' :: ys) = words xs ++ words ys := by
  rcases words_append_or xs with hall | ⟨before, zs, hzs, _, hmore⟩
  · exact hall ys
  · exfalso
    rw [hmore ys] at hopen hstrings
    -- The string that is open here is closed on a later line, or not at all.
    by_cases hmem : '"' ∈ zs ++ '\n' :: ys
    · obtain ⟨t, hkind, htext, hwords⟩ := words_of_mem hmem
      have hpos : ∀ c ∈ zs, (c != '"') = true := fun c hc => by
        simpa using fun heq : c = '"' => hzs (heq ▸ hc)
      rw [hwords] at hstrings
      refine hstrings t (List.mem_append_right _ List.mem_cons_self) hkind ?_
      rw [htext, String.toList_ofList, List.takeWhile_append_of_pos hpos]
      simp
    · rw [words_of_not_mem hmem] at hopen
      exact hopen (List.mem_append_right _ List.mem_cons_self)

/-! ### Carriage returns -/

/-- All rules but four stop before a carriage return. -/
private theorem refuses_return :
    ∀ rule ∈ Rule.all, rule = Rule.forStrings ∨ rule = Rule.forLineEnds ∨
    rule = Rule.forComments ∨ rule = Rule.forBlanks ∨
    rule.pattern.all (·.refuses '\r') = true := by
  simp only [Rule.all, Keyword.all, List.map_cons, List.map_nil, List.cons_append,
    List.nil_append, List.forall_mem_cons]
  refine ⟨.inr (.inr (.inl rfl)), .inr (.inl rfl), .inr (.inr (.inr (.inl rfl))), ?_, ?_,
    ?_, ?_, ?_, ?_, ?_, ?_, ?_, ?_, ?_, ?_, .inl rfl, ?_, List.forall_mem_nil _⟩
  all_goals exact .inr (.inr (.inr (.inr rfl)))

/-- More characters change a lexeme at most by making it longer, where it is trivia and
    nothing else follows it. -/
def Lexeme.Extends (more : List Char) (found found' : Lexeme) : Prop :=
  found' = found.before more ∨
    found.word? = none ∧ found'.word? = none ∧ found.rest = [] ∧ found'.rest = []

/-- A class takes all of a text and of what follows, or it stops before that. -/
private theorem takeWhile_append_or {p : Char → Bool} {c : Char} (hc : p c = true)
    (xs : List Char) : (xs.dropWhile p = [] ∧ (xs ++ [c]).dropWhile p = []) ∨
      ((xs ++ [c]).takeWhile p = xs.takeWhile p ∧
        (xs ++ [c]).dropWhile p = xs.dropWhile p ++ [c]) := by
  induction xs with
  | nil => exact .inl (by simp [hc])
  | cons x xs ih =>
    by_cases hx : p x = true
    · simpa [hx] using ih
    · exact .inr (by simp [hx])

/-- A comment may take a carriage return at the end of the text, and nothing else changes. -/
private theorem extends_comment (c : Char) (cs : List Char) :
    Option.Rel (Lexeme.Extends ['\r']) (Rule.forComments.lexeme? (c :: cs))
      (Rule.forComments.lexeme? (c :: (cs ++ ['\r']))) := by
  simp only [Rule.lexeme?, Rule.split?, Rule.forComments, Pattern.split?, Piece.char, Piece.split?]
  by_cases hc : (c == ';') = true
  · cases cs with
    | nil => simp [hc]
    | cons d ds =>
      by_cases hd : (d == ';') = true
      · -- The comment takes the carriage return if it runs to the end of the text.
        rcases takeWhile_append_or (p := (· != '\n')) (c := '\r') (by decide) ds with
          ⟨h, h'⟩ | ⟨h, h'⟩
        · simp only [hc, hd, if_true, h, h', List.cons_append]
          refine .some (.inr ⟨?_, ?_, ?_, ?_⟩) <;> rfl
        · simp only [hc, hd, if_true, h, h', List.cons_append]
          exact .some (.inl rfl)
      · simp [hc, hd]
  · simp only [hc, Bool.false_eq_true, if_false]
    exact .none

/-- Blanks may take a carriage return at the end of the text, and nothing else changes. -/
private theorem extends_blank (c : Char) (cs : List Char) :
    Option.Rel (Lexeme.Extends ['\r']) (Rule.forBlanks.lexeme? (c :: cs))
      (Rule.forBlanks.lexeme? (c :: (cs ++ ['\r']))) := by
  simp only [Rule.lexeme?, Rule.split?, Rule.forBlanks, Pattern.split?, Piece.split?]
  by_cases hc : isInnerBlank c = true
  · rcases takeWhile_append_or (p := isInnerBlank) (c := '\r') (by decide) cs with
      ⟨h, h'⟩ | ⟨h, h'⟩
    · simp only [hc, if_true, h, h']
      refine .some (.inr ⟨?_, ?_, ?_, ?_⟩) <;> rfl
    · simp only [hc, if_true, h, h']
      exact .some (.inl rfl)
  · simp only [hc, Bool.false_eq_true, if_false]
    exact .none

/-- The first lexeme of a text with a carriage return at the end. -/
private theorem lexeme_append_return {cs : List Char} (hcs : cs ≠ []) :
    (lexeme cs).Extends ['\r'] (lexeme (cs ++ ['\r'])) := by
  obtain ⟨c, cs, rfl⟩ := List.exists_cons_of_ne_nil hcs
  rw [List.cons_append]
  refine lexeme_rel ?_ (.inl rfl)
  intro rule hrule
  have hstable : rule.Stable (c :: cs) ['\r'] →
      Option.Rel (Lexeme.Extends ['\r']) (rule.lexeme? (c :: cs))
        (rule.lexeme? (c :: (cs ++ ['\r']))) := by
    intro hstable
    have heq := hstable.lexeme?_eq
    rw [List.cons_append] at heq
    rw [heq]
    cases rule.lexeme? (c :: cs) with
    | none => exact .none
    | some found => exact .some (.inl rfl)
  -- Comments and blanks may take the carriage return, and nothing else does.
  rcases refuses_return rule hrule with rfl | rfl | rfl | rfl | hrefuses
  · exact hstable (stable_forStrings hcs fun _ => by simp)
  · exact hstable (stable_forLineEnds hcs fun _ => by simp)
  · exact extends_comment c cs
  · exact extends_blank c cs
  · exact hstable (Rule.stable_of_refuses hrefuses (by decide) _ _)

/-- A carriage return at the end of a text changes none of its words. -/
theorem words_append_return (xs : List Char) : words (xs ++ ['\r']) = words xs := by
  -- By the length of the text, one token after the other.
  generalize hn : xs.length = n
  induction n using Nat.strongRecOn generalizing xs with
  | _ n ih =>
    by_cases hnil : xs = []
    · subst hnil
      rw [List.nil_append, words_return, words_nil]
    rw [words_of_ne_nil (by simp), words_of_ne_nil hnil]
    -- The carriage return is left after the first token, or the token takes it as trivia.
    rcases lexeme_append_return hnil with h | ⟨h₁, h₂, h₃, h₄⟩
    · rw [h, Lexeme.word?_before, Lexeme.rest_before,
        ih _ (hn ▸ length_rest_lt hnil) (lexeme xs).rest rfl]
    · rw [h₁, h₂, h₃, h₄]

end LispSession
