import LispSession.Token.Rule
import Mathlib.Data.List.TakeWhile

/-!
# The rules by name

The rule that decides the first lexeme of a text is the first one that applies. Most rules
are out of the question after a look at the first character: their patterns do not admit it.

* `Rule.all_eq`                   the rules in their order
* `lexeme_of_rule`                a rule decides if none before it applies
* `lexeme_of_none`                a character stands alone if no rule applies
* `exists_rule_of_lexeme`         every other lexeme comes from a rule
* `split?_eq_none_of_not_admits`  rules whose patterns do not admit a character
* `lexeme_of_mem`                 a string goes up to the next quotation mark
* `exists_quoted_of_lexeme`       nothing else is a string
* `lexeme_of_not_mem`             a quotation mark that nothing closes
-/

namespace LispSession

namespace Rule

/-- The rule for comments. -/
def forComments : Rule := ⟨.comment, [.char ';', .char ';', .many (· != '\n')], false⟩

/-- The rule for line ends. -/
def forLineEnds : Rule := ⟨.lineEnd, [.optional (· == '\r'), .char '\n'], false⟩

/-- The rule for blanks within a line. -/
def forBlanks : Rule := ⟨.blank, [.one isInnerBlank, .many isInnerBlank], false⟩

/-- The rules for trivia and punctuation. -/
def forMarks : List Rule :=
  [forComments, forLineEnds, forBlanks, ⟨.leftParen, [.char '('], false⟩,
   ⟨.rightParen, [.char ')'], false⟩, ⟨.quote, [.char '\''], false⟩]

/-- The rule for booleans. -/
def forBooleans : Rule := ⟨.boolean, [.char '#', .one fun c => c == 't' || c == 'f'], true⟩

/-- The rule for numbers with a point. -/
def forDecimals : Rule :=
  ⟨.number, [.optional isSign, .one Char.isDigit, .many Char.isDigit, .char '.',
    .many Char.isDigit], false⟩

/-- The rule for numbers without a point. -/
def forIntegers : Rule :=
  ⟨.number, [.optional isSign, .one Char.isDigit, .many Char.isDigit], false⟩

/-- The rule for strings. -/
def forStrings : Rule := ⟨.string, [.char '"', .many (· != '"'), .char '"'], false⟩

/-- The rule for symbols. -/
def forSymbols : Rule := ⟨.symbol, [.one isSymbolStart, .many isSymbolChar], false⟩

/-- The rules in the order in which they are tried: marks, then keywords, then the other words. -/
theorem all_eq : all = forMarks ++ Keyword.all.map ofKeyword ++
    [forBooleans, forDecimals, forIntegers, forStrings, forSymbols] := rfl

end Rule

/-! ### The rule that decides -/

/-- The first rule decides if it matches, and else those after it do. -/
theorem firstLexeme?_cons (rule : Rule) (rules : List Rule) (cs : List Char) :
    firstLexeme? (rule :: rules) cs =
      match rule.split? cs with
      | some (taken, rest) => some ⟨rule.kind, taken, rest⟩
      | none => firstLexeme? rules cs := by
  simp only [firstLexeme?, List.findSome?_cons]
  cases rule.split? cs <;> rfl

/-- A rule decides the first lexeme if it applies and none before it does. -/
theorem lexeme_of_rule {before after : List Rule} {rule : Rule} {c : Char}
    {cs taken rest : List Char} (hall : Rule.all = before ++ rule :: after)
    (hbefore : ∀ other ∈ before, other.split? (c :: cs) = none)
    (h : rule.split? (c :: cs) = some (taken, rest)) :
    lexeme (c :: cs) = ⟨rule.kind, taken, rest⟩ := by
  -- No rule before this one matches, so that it is the first that does.
  have hnone : firstLexeme? before (c :: cs) = none := by
    simp only [firstLexeme?, List.findSome?_eq_none_iff, Option.map_eq_none_iff]
    exact hbefore
  have hfirst : firstLexeme? Rule.all (c :: cs) = some ⟨rule.kind, taken, rest⟩ := by
    simp only [firstLexeme?] at hnone
    simp only [firstLexeme?, hall, List.findSome?_append, hnone, Option.none_or,
      List.findSome?_cons, h, Option.map_some]
  simp only [lexeme, hfirst]

/-- Where no rule applies, the first character stands alone. -/
theorem lexeme_of_none {c : Char} {cs : List Char}
    (h : ∀ rule ∈ Rule.all, rule.split? (c :: cs) = none) :
    lexeme (c :: cs) = ⟨.unrecognized, [c], cs⟩ := by
  have hfirst : firstLexeme? Rule.all (c :: cs) = none := by
    simp only [firstLexeme?, List.findSome?_eq_none_iff, Option.map_eq_none_iff]
    exact h
  simp only [lexeme, hfirst]

/-- A lexeme of a known kind comes from one of the rules. -/
theorem exists_rule_of_lexeme (cs : List Char) (hend : (lexeme cs).kind ≠ .endOfInput)
    (hknown : (lexeme cs).kind ≠ .unrecognized) :
    ∃ rule ∈ Rule.all, rule.kind = (lexeme cs).kind ∧
      rule.split? cs = some ((lexeme cs).taken, (lexeme cs).rest) := by
  cases cs with
  | nil => exact absurd rfl hend
  | cons c cs =>
    simp only [lexeme] at hknown ⊢
    split
    · rename_i found hfound
      exact firstLexeme?_eq_some hfound
    · rename_i hnone
      rw [hnone] at hknown
      exact absurd rfl hknown

/-! ### Rules out of the question -/

/-- The pattern may begin with the character. -/
def Pattern.admits (c : Char) : Pattern → Bool
  | [] => true
  | .one p :: _ => p c
  | .optional p :: pieces | .many p :: pieces => p c || admits c pieces

/-- A pattern that cannot begin with a character does not match there. -/
private theorem Pattern.split?_of_not_admits {pattern : Pattern} {c : Char}
    (h : pattern.admits c = false) (cs : List Char) :
    Pattern.split? pattern (c :: cs) = none := by
  -- Pieces that may be empty pass the character on to the next piece.
  induction pattern with
  | nil => simp [admits] at h
  | cons piece pieces ih =>
    cases piece with
    | one p => simp only [admits] at h; simp [split?, Piece.split?, h]
    | optional p | many p =>
      obtain ⟨hp, hpieces⟩ := Bool.or_eq_false_iff.mp h
      simp [split?, Piece.split?, hp, ih hpieces]

/-- Rules of which none admits a character do not match where it stands. -/
theorem split?_eq_none_of_not_admits {rules : List Rule} {c : Char}
    (h : (rules.all fun rule => !rule.pattern.admits c) = true) (cs : List Char) :
    ∀ rule ∈ rules, rule.split? (c :: cs) = none := by
  intro rule hrule
  have hadmits : rule.pattern.admits c = false := by
    simpa using List.all_eq_true.mp h rule hrule
  simp only [Rule.split?, Pattern.split?_of_not_admits hadmits]

/-! ### Strings -/

/-- A string is taken up to the quotation mark that closes it. -/
theorem Rule.split?_forStrings (cs : List Char) :
    forStrings.split? ('"' :: cs) =
      match cs.dropWhile (· != '"') with
      | [] => none
      | _ :: rest => some ('"' :: (cs.takeWhile (· != '"') ++ ['"']), rest) := by
  simp only [split?, forStrings, Pattern.split?, Piece.char, Piece.split?, beq_self_eq_true,
    if_true, Bool.false_and, Bool.false_eq_true, if_false]
  -- What stops the run of other characters is a quote.
  cases hdrop : cs.dropWhile (· != '"') with
  | nil => rfl
  | cons d ds =>
    have hd : d = '"' := by
      have := List.head_dropWhile_not (· != '"') (l := cs) (by simp [hdrop])
      simpa [hdrop] using this
    subst hd
    rfl

/-- A string begins with a quote. -/
theorem Rule.split?_forStrings_of_ne {c : Char} (hc : c ≠ '"') (cs : List Char) :
    forStrings.split? (c :: cs) = none := by
  have hc' : (c == '"') = false := beq_eq_false_iff_ne.mpr hc
  simp [split?, forStrings, Pattern.split?, Piece.char, Piece.split?, hc']

/-- Nothing is a string where no quotation mark closes it. -/
theorem Rule.split?_forStrings_of_not_mem {cs : List Char} (h : '"' ∉ cs) :
    forStrings.split? ('"' :: cs) = none := by
  rw [split?_forStrings, List.dropWhile_eq_nil_iff.mpr]
  intro c hc
  exact bne_iff_ne.mpr fun heq => h (heq ▸ hc)

/-- Something is left from the first quotation mark on. -/
theorem exists_dropWhile_eq_cons {cs : List Char} (h : '"' ∈ cs) :
    ∃ d ds, cs.dropWhile (· != '"') = d :: ds := by
  refine List.exists_cons_of_ne_nil fun hnil => ?_
  have hne := List.dropWhile_eq_nil_iff.mp hnil '"' h
  simp at hne

/-- Only one of the rules makes strings. -/
private theorem Rule.eq_forStrings : ∀ rule ∈ all, rule.kind = .string → rule = forStrings := by
  simp [all, Keyword.all, ofKeyword, forStrings]

/-- A string has no quotation marks but those around it. -/
theorem exists_quoted_of_lexeme {cs : List Char} (hkind : (lexeme cs).kind = .string) :
    ∃ inner, '"' ∉ inner ∧ (lexeme cs).taken = '"' :: (inner ++ ['"']) := by
  -- The token comes from a rule, and that rule is the one for strings.
  obtain ⟨rule, hrule, hrulekind, hsplit⟩ := exists_rule_of_lexeme cs
    (by rw [hkind]; decide) (by rw [hkind]; decide)
  rw [Rule.eq_forStrings rule hrule (hrulekind.trans hkind)] at hsplit
  cases cs with
  | nil => exact nomatch hkind
  | cons c cs =>
    by_cases hc : c = '"'
    · rw [hc] at hsplit ⊢
      rw [Rule.split?_forStrings] at hsplit
      split at hsplit
      · cases hsplit
      · have htaken := (Prod.mk.inj (Option.some.inj hsplit)).1
        refine ⟨cs.takeWhile (· != '"'), fun hmem => ?_, htaken.symm⟩
        have hne := List.all_eq_true.mp List.all_takeWhile _ hmem
        simp at hne
    · rw [Rule.split?_forStrings_of_ne hc] at hsplit
      cases hsplit

/-- No rule before the one for strings applies to a quotation mark. -/
private theorem split?_eq_none_before_strings (cs : List Char) :
    ∀ rule ∈ Rule.forMarks ++ Keyword.all.map Rule.ofKeyword ++
      [Rule.forBooleans, Rule.forDecimals, Rule.forIntegers], rule.split? ('"' :: cs) = none :=
  split?_eq_none_of_not_admits (by decide) cs

/-- A quotation mark that is closed starts a string, up to the mark that closes it. -/
theorem lexeme_of_mem {rest : List Char} (h : '"' ∈ rest) :
    lexeme ('"' :: rest) = ⟨.string, '"' :: (rest.takeWhile (· != '"') ++ ['"']),
      (rest.dropWhile (· != '"')).tail⟩ := by
  obtain ⟨d, ds, hdrop⟩ := exists_dropWhile_eq_cons h
  have hrule : Rule.forStrings.split? ('"' :: rest) =
      some ('"' :: (rest.takeWhile (· != '"') ++ ['"']), ds) := by
    rw [Rule.split?_forStrings, hdrop]
  have hall : Rule.all = (Rule.forMarks ++ Keyword.all.map Rule.ofKeyword ++
      [Rule.forBooleans, Rule.forDecimals, Rule.forIntegers]) ++
      Rule.forStrings :: [Rule.forSymbols] := rfl
  rw [hdrop, List.tail_cons]
  exact lexeme_of_rule hall (split?_eq_none_before_strings rest) hrule

/-- A quotation mark that nothing closes is a token. -/
theorem lexeme_of_not_mem {rest : List Char} (h : '"' ∉ rest) :
    lexeme ('"' :: rest) = ⟨.unrecognized, ['"'], rest⟩ := by
  have hafter : ∀ rule ∈ [Rule.forSymbols], rule.split? ('"' :: rest) = none :=
    split?_eq_none_of_not_admits (by decide) rest
  have hrules := List.forall_mem_append.mpr ⟨split?_eq_none_before_strings rest,
    List.forall_mem_cons.mpr ⟨Rule.split?_forStrings_of_not_mem h, hafter⟩⟩
  exact lexeme_of_none hrules

end LispSession
