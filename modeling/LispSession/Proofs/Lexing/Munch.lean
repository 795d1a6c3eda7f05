import LispSession.Proofs.Lexing.Words

/-!
# Maximal munch

What the rules for tokens come to, taken together: a number is as long as it may be, a word
is the longest run of symbol characters, and it is a keyword only as a whole. A character
that is no part of any token stands alone.

* `lexeme_number`, `lexeme_word`, `lexeme_hash`, `lexeme_comment`, `lexeme_semicolon`,
  `lexeme_blank`, `lexeme_stray`  the first lexeme of a text, by what the text starts with
* `Munched`                       how a token is marked off
* `Cursor.next_munched`           every token is marked off so
-/

namespace LispSession

/-! ### Classes of ASCII characters -/

/-- A character that may begin a symbol is an ASCII character. -/
private theorem toNat_lt_of_isSymbolStart {c : Char} (h : isSymbolStart c = true) :
    c.toNat < 128 := by
  simp only [isSymbolStart, Bool.or_eq_true, List.contains_iff_mem] at h
  rcases h with h | h
  · have hletter : c.val ≥ 'A'.val ∧ c.val ≤ 'Z'.val ∨ c.val ≥ 'a'.val ∧ c.val ≤ 'z'.val := by
      rcases Bool.or_eq_true_iff.mp h with h | h
      · exact .inl (of_decide_eq_true h)
      · have hbounds : (c.val ≥ 'a'.val && c.val ≤ 'z'.val) = true := h
        exact .inr (by simpa using hbounds)
    simp only [ge_iff_le, UInt32.le_iff_toNat_le] at hletter
    have hupper : 'Z'.val.toNat = 90 := rfl
    have hlower : 'z'.val.toNat = 122 := rfl
    show c.val.toNat < 128
    omega
  · have hall : "+-*/_?!~\x7b\x7d[]=<>%".toList.all (fun d => d.toNat < 128) = true := by decide
    simpa using List.all_eq_true.mp hall c h

/-- A digit is an ASCII character. -/
private theorem toNat_lt_of_isDigit {c : Char} (h : c.isDigit = true) : c.toNat < 128 := by
  simp only [Char.isDigit, Bool.and_eq_true, decide_eq_true_eq, ge_iff_le,
    UInt32.le_iff_toNat_le] at h
  have hnine : '9'.val.toNat = 57 := rfl
  show c.val.toNat < 128
  omega

/-- A character that a number may start with. -/
def isNumberStart (c : Char) : Bool := isSign c || c.isDigit

/-- A character that may begin a number is an ASCII character. -/
private theorem toNat_lt_of_isNumberStart {c : Char} (h : isNumberStart c = true) :
    c.toNat < 128 := by
  simp only [isNumberStart, isSign, Bool.or_eq_true, beq_iff_eq] at h
  rcases h with (rfl | rfl) | h
  · decide
  · decide
  · exact toNat_lt_of_isDigit h

/-- No rule among some applies to a text that starts with a character of a class, if none of
    them admits a character of the class. -/
private theorem split?_eq_none_of_class {p : Char → Bool} (hascii : ∀ c, p c = true → c.toNat < 128)
    {rules : List Rule}
    (h : (List.range 128).all (fun n => !p (Char.ofNat n) ||
      rules.all fun rule => !rule.pattern.admits (Char.ofNat n)) = true)
    {c : Char} (hc : p c = true) (cs : List Char) :
    ∀ rule ∈ rules, rule.split? (c :: cs) = none := by
  -- The characters of the class are gone through one by one.
  have hadmits := List.all_eq_true.mp h c.toNat (List.mem_range.mpr (hascii c hc))
  rw [Char.ofNat_toNat, hc] at hadmits
  exact split?_eq_none_of_not_admits hadmits cs

/-! ### Numbers -/

/-- The text starts with a digit, or with a sign and a digit. -/
def startsNumber : List Char → Bool
  | c :: cs => c.isDigit || isSign c && cs.head?.any Char.isDigit
  | [] => false

/-- All digits that a text starts with and, if a point comes next, the point and all digits
    after it. -/
def leadingDecimal (cs : List Char) : List Char :=
  cs.takeWhile Char.isDigit ++
    match cs.dropWhile Char.isDigit with
    | '.' :: fraction => '.' :: fraction.takeWhile Char.isDigit
    | _ => []

/-- The number that a text starts with, after its sign if it has one. -/
def leadingNumber : List Char → List Char
  | c :: cs => if isSign c then c :: leadingDecimal cs else leadingDecimal (c :: cs)
  | [] => []

/-- A text that starts with a number, divided at its first digit. -/
private theorem exists_of_startsNumber {cs : List Char} (h : startsNumber cs = true) :
    ∃ sign d ds, d.isDigit = true ∧
      (Piece.optional isSign).split? cs = some (sign, d :: ds) ∧
      leadingNumber cs = sign ++ leadingDecimal (d :: ds) := by
  cases cs with
  | nil => exact nomatch h
  | cons c cs =>
    simp only [startsNumber, Bool.or_eq_true, Bool.and_eq_true, Option.any_eq_true] at h
    -- A sign is followed by a digit; without one the first character is a digit.
    by_cases hsign : isSign c = true
    · have hdigit : c.isDigit = false := by
        simp only [isSign, Bool.or_eq_true, beq_iff_eq] at hsign
        rcases hsign with rfl | rfl <;> rfl
      rw [hdigit] at h
      obtain ⟨_, d, hhead, hd⟩ := h.resolve_left nofun
      obtain ⟨ds, rfl⟩ := List.head?_eq_some_iff.mp hhead
      exact ⟨[c], d, ds, hd, by simp [Piece.split?, hsign], by simp [leadingNumber, hsign]⟩
    · have hd : c.isDigit = true := h.resolve_right fun hboth => hsign hboth.1
      exact ⟨[], c, cs, hd, by simp [Piece.split?, hsign], by simp [leadingNumber, hsign]⟩

section

variable {cs sign ds : List Char} {d : Char}
  (hsign : (Piece.optional isSign).split? cs = some (sign, d :: ds)) (hd : d.isDigit = true)

include hsign hd

/-- Integers are an optional sign and a run of digits. -/
private theorem Rule.split?_forIntegers : forIntegers.split? cs =
    some (sign ++ (d :: ds).takeWhile Char.isDigit, (d :: ds).dropWhile Char.isDigit) := by
  simp only [split?, forIntegers, Pattern.split?, hsign]
  simp [Piece.split?, hd]

/-- Decimals are integers with a point and a run of digits after them. -/
private theorem Rule.split?_forDecimals : forDecimals.split? cs =
    match (d :: ds).dropWhile Char.isDigit with
    | '.' :: fs => some (sign ++ ((d :: ds).takeWhile Char.isDigit ++
        '.' :: fs.takeWhile Char.isDigit), fs.dropWhile Char.isDigit)
    | _ => none := by
  simp only [split?, forDecimals, Pattern.split?, hsign]
  simp only [Piece.char, Piece.split?, hd, if_true, List.dropWhile_cons, List.takeWhile_cons]
  -- Behind the first run of digits there is the point, or no decimal.
  cases ds.dropWhile Char.isDigit with
  | nil => rfl
  | cons p fs =>
    by_cases hp : p = '.'
    · subst hp
      simp
    · have hp' : (p == '.') = false := beq_eq_false_iff_ne.mpr hp
      simp only [hp', Bool.false_eq_true, if_false]
      split
      · rename_i heq
        exact absurd (List.cons.inj heq).1 hp
      · rfl

end

/-- A text that starts with a number has it as its first lexeme, whatever comes after. -/
theorem lexeme_number {cs : List Char} (h : startsNumber cs = true) :
    (lexeme cs).kind = .number ∧ (lexeme cs).taken = leadingNumber cs := by
  obtain ⟨sign, d, ds, hd, hsign, hnumber⟩ := exists_of_startsNumber h
  obtain ⟨c, rest, rfl⟩ : ∃ c rest, cs = c :: rest := by
    refine List.exists_cons_of_ne_nil fun hnil => ?_
    rw [hnil] at h
    exact nomatch h
  have hc : isNumberStart c = true := by
    simp only [startsNumber, Bool.or_eq_true, Bool.and_eq_true] at h
    simp only [isNumberStart, Bool.or_eq_true]
    exact h.elim .inr fun hsign => .inl hsign.1
  have hbefore : ∀ rule ∈ Rule.forMarks ++ Keyword.all.map Rule.ofKeyword ++ [Rule.forBooleans],
      rule.split? (c :: rest) = none :=
    split?_eq_none_of_class (fun _ => toNat_lt_of_isNumberStart) (by decide +kernel) hc rest
  have hdecimal := Rule.split?_forDecimals hsign hd
  rw [hnumber, leadingDecimal]
  -- The number has a fraction if a point follows its first digits.
  split
  · rename_i fs hpoint
    rw [hpoint] at hdecimal
    have hall : Rule.all = (Rule.forMarks ++ Keyword.all.map Rule.ofKeyword ++
        [Rule.forBooleans]) ++ Rule.forDecimals ::
        [Rule.forIntegers, Rule.forStrings, Rule.forSymbols] := rfl
    rw [lexeme_of_rule hall hbefore hdecimal]
    exact ⟨rfl, rfl⟩
  · rename_i hpoint
    have hnone : Rule.forDecimals.split? (c :: rest) = none := by
      rw [hdecimal]
      split
      · rename_i fs heq
        exact absurd heq (hpoint fs)
      · rfl
    have hall : Rule.all = (Rule.forMarks ++ Keyword.all.map Rule.ofKeyword ++
        [Rule.forBooleans] ++ [Rule.forDecimals]) ++ Rule.forIntegers ::
        [Rule.forStrings, Rule.forSymbols] := rfl
    have hbefore' := List.forall_mem_append.mpr ⟨hbefore, List.forall_mem_singleton.mpr hnone⟩
    rw [lexeme_of_rule hall hbefore' (Rule.split?_forIntegers hsign hd), List.append_nil]
    exact ⟨rfl, rfl⟩

example : (lexeme "-1.5.2".toList).taken = "-1.5".toList := by decide +kernel

/-- The rules for numbers do not apply to a text that does not start with one. -/
private theorem split?_eq_none_of_not_startsNumber {cs : List Char} (h : startsNumber cs = false) :
    Rule.forDecimals.split? cs = none ∧ Rule.forIntegers.split? cs = none := by
  cases cs with
  | nil => exact ⟨rfl, rfl⟩
  | cons c cs =>
    simp only [startsNumber, Bool.or_eq_false_iff, Bool.and_eq_false_iff] at h
    obtain ⟨hdigit, hsigned⟩ := h
    by_cases hsign : isSign c = true
    -- The sign is taken, and no digit follows it.
    · have hhead := hsigned.resolve_left (by simp [hsign])
      cases cs with
      | nil => simp [Rule.split?, Rule.forDecimals, Rule.forIntegers, Pattern.split?, Piece.split?,
          hsign]
      | cons d ds =>
        have hd : d.isDigit = false := hhead
        simp [Rule.split?, Rule.forDecimals, Rule.forIntegers, Pattern.split?, Piece.split?, hsign,
          hd]
    · simp [Rule.split?, Rule.forDecimals, Rule.forIntegers, Pattern.split?, Piece.split?, hsign,
        hdigit]

/-! ### Words -/

/-- A run of a class is what stands before the first character outside of it. -/
theorem takeWhile_eq_iff {p : Char → Bool} {cs run : List Char} :
    cs.takeWhile p = run ↔
      (∀ c ∈ run, p c = true) ∧ ∃ rest, cs = run ++ rest ∧ rest.head?.any p = false := by
  constructor
  · rintro rfl
    refine ⟨List.all_eq_true.mp List.all_takeWhile, cs.dropWhile p,
      List.takeWhile_append_dropWhile.symm, ?_⟩
    -- What stops the run, if anything does, is not of the class.
    have hhead := List.head?_dropWhile_not p cs
    cases hdrop : (cs.dropWhile p).head? with
    | none => rfl
    | some c =>
      rw [hdrop] at hhead
      simpa using hhead
  · rintro ⟨hall, rest, rfl, hhead⟩
    rw [List.takeWhile_append_of_pos hall]
    cases rest with
    | nil => simp
    | cons c rest =>
      have hc : p c = false := hhead
      simp [hc]

/-- A pattern of single characters takes these characters. -/
private theorem Pattern.split?_map_char (word cs : List Char) :
    Pattern.split? (word.map Piece.char) cs =
      if word <+: cs then some (word, cs.drop word.length) else none := by
  -- Character by character, as long as both agree.
  induction word generalizing cs with
  | nil => simp [split?]
  | cons c word ih =>
    cases cs with
    | nil => simp [split?, Piece.char, Piece.split?]
    | cons d ds =>
      by_cases hd : d = c
      · subst hd
        simp only [List.map_cons, split?, Piece.char, Piece.split?, beq_self_eq_true, if_true]
        by_cases hstarts : word <+: ds
        · simp [ih, hstarts]
        · simp [ih, hstarts]
      · have hd' : (d == c) = false := beq_eq_false_iff_ne.mpr hd
        simp [split?, Piece.char, Piece.split?, hd', Ne.symm hd]

/-- All characters of a keyword may be part of a symbol. -/
private theorem Keyword.all_isSymbolChar (word : Keyword) :
    ∀ c ∈ word.text.toList, isSymbolChar c = true :=
  List.all_eq_true.mp (by cases word <;> decide)

/-- The rule of a keyword applies where the longest run of symbol characters is the keyword. -/
private theorem Rule.split?_ofKeyword (word : Keyword) (cs : List Char) :
    (ofKeyword word).split? cs =
      if cs.takeWhile isSymbolChar = word.text.toList then
        some (word.text.toList, cs.drop word.text.toList.length)
      else none := by
  by_cases hrun : cs.takeWhile isSymbolChar = word.text.toList
  · rw [if_pos hrun]
    obtain ⟨_, rest, rfl, hhead⟩ := takeWhile_eq_iff.mp hrun
    simp [split?, ofKeyword, Pattern.split?_map_char, hhead]
  · rw [if_neg hrun]
    simp only [split?, ofKeyword, Pattern.split?_map_char]
    by_cases hstarts : word.text.toList <+: cs
    -- The keyword is only a part of the run.
    · obtain ⟨rest, rfl⟩ := hstarts
      have hhead : rest.head?.any isSymbolChar = true := by
        refine eq_true_of_ne_false fun hhead => hrun ?_
        exact takeWhile_eq_iff.mpr ⟨word.all_isSymbolChar, rest, rfl, hhead⟩
      simp [hhead]
    · simp [hstarts]

/-- The kind of a word: a keyword only if the whole run is one. -/
def wordKind (run : List Char) : TokenKind :=
  match Keyword.all.find? fun word => word.text.toList == run with
  | some word => .keyword word
  | none => .symbol

/-- A text that starts with a symbol, and no number, has the longest run of symbol characters as
    its first lexeme. -/
theorem lexeme_word {c : Char} {cs : List Char} (hc : isSymbolStart c = true)
    (h : startsNumber (c :: cs) = false) :
    (lexeme (c :: cs)).kind = wordKind ((c :: cs).takeWhile isSymbolChar) ∧
      (lexeme (c :: cs)).taken = (c :: cs).takeWhile isSymbolChar := by
  have hmarks : ∀ rule ∈ Rule.forMarks, rule.split? (c :: cs) = none :=
    split?_eq_none_of_class (fun _ => toNat_lt_of_isSymbolStart) (by decide +kernel) hc cs
  have hothers : ∀ rule ∈ [Rule.forBooleans, Rule.forStrings], rule.split? (c :: cs) = none :=
    split?_eq_none_of_class (fun _ => toNat_lt_of_isSymbolStart) (by decide +kernel) hc cs
  unfold wordKind
  cases hfind : Keyword.all.find? fun word =>
      word.text.toList == (c :: cs).takeWhile isSymbolChar with
  | some word =>
    obtain ⟨hword, before, after, hall, hbefore⟩ := List.find?_eq_some_iff_append.mp hfind
    -- The rules of the keywords that come first do not apply.
    have hbefore' : ∀ rule ∈ Rule.forMarks ++ before.map Rule.ofKeyword,
        rule.split? (c :: cs) = none := by
      refine List.forall_mem_append.mpr ⟨hmarks, List.forall_mem_map.mpr fun other hother => ?_⟩
      have hne := hbefore other hother
      rw [Rule.split?_ofKeyword, if_neg]
      intro heq
      simp [heq] at hne
    have hrule : (Rule.ofKeyword word).split? (c :: cs) =
        some (word.text.toList, (c :: cs).drop word.text.toList.length) := by
      rw [Rule.split?_ofKeyword, if_pos (eq_of_beq hword).symm]
    have hrules : Rule.all = (Rule.forMarks ++ before.map Rule.ofKeyword) ++
        Rule.ofKeyword word :: (after.map Rule.ofKeyword ++ [Rule.forBooleans, Rule.forDecimals,
          Rule.forIntegers, Rule.forStrings, Rule.forSymbols]) := by
      rw [Rule.all_eq, hall]
      simp
    rw [lexeme_of_rule hrules hbefore' hrule]
    exact ⟨rfl, eq_of_beq hword⟩
  | none =>
    have hkeywords : ∀ rule ∈ Keyword.all.map Rule.ofKeyword, rule.split? (c :: cs) = none := by
      refine List.forall_mem_map.mpr fun word hword => ?_
      have hne := List.find?_eq_none.mp hfind word hword
      rw [Rule.split?_ofKeyword, if_neg]
      intro heq
      simp [heq] at hne
    have hnumbers := split?_eq_none_of_not_startsNumber h
    have hbefore : ∀ rule ∈ Rule.forMarks ++ Keyword.all.map Rule.ofKeyword ++ [Rule.forBooleans,
        Rule.forDecimals, Rule.forIntegers, Rule.forStrings], rule.split? (c :: cs) = none := by
      simp only [List.forall_mem_append, List.forall_mem_cons] at hmarks hkeywords hothers ⊢
      exact ⟨⟨hmarks, hkeywords⟩, hothers.1, hnumbers.1, hnumbers.2, hothers.2⟩
    have hrule : Rule.forSymbols.split? (c :: cs) =
        some (c :: cs.takeWhile isSymbolChar, cs.dropWhile isSymbolChar) := by
      simp [Rule.split?, Rule.forSymbols, Pattern.split?, Piece.split?, hc]
    have hrun : (c :: cs).takeWhile isSymbolChar = c :: cs.takeWhile isSymbolChar := by
      simp [isSymbolChar, hc]
    have hrules : Rule.all = (Rule.forMarks ++ Keyword.all.map Rule.ofKeyword ++
        [Rule.forBooleans, Rule.forDecimals, Rule.forIntegers, Rule.forStrings]) ++
        Rule.forSymbols :: [] := rfl
    rw [lexeme_of_rule hrules hbefore hrule, hrun]
    exact ⟨rfl, rfl⟩

example : (lexeme "defined x".toList).kind = .symbol := by decide +kernel

/-! ### Booleans, comments and punctuation -/

/-- The text starts with a boolean that no symbol character follows. -/
def startsBoolean : List Char → Bool
  | '#' :: c :: cs => (c == 't' || c == 'f') && !cs.head?.any isSymbolChar
  | _ => false

/-- The rule for booleans takes the number sign and the letter, if no symbol goes on there. -/
private theorem Rule.split?_forBooleans (cs : List Char) :
    forBooleans.split? ('#' :: cs) =
      if startsBoolean ('#' :: cs) then some ('#' :: cs.take 1, cs.drop 1) else none := by
  -- By the character after the number sign.
  cases cs with
  | nil => rfl
  | cons c cs =>
    by_cases hc : (c == 't' || c == 'f') = true
    · by_cases hafter : cs.head?.any isSymbolChar = true
      · simp [split?, forBooleans, Pattern.split?, Piece.char, Piece.split?, startsBoolean, hc,
          hafter]
      · simp [split?, forBooleans, Pattern.split?, Piece.char, Piece.split?, startsBoolean, hc,
          hafter]
    · simp [split?, forBooleans, Pattern.split?, Piece.char, Piece.split?, startsBoolean, hc]

/-- A hash starts a boolean or stands alone. -/
theorem lexeme_hash (cs : List Char) :
    lexeme ('#' :: cs) = if startsBoolean ('#' :: cs) then ⟨.boolean, '#' :: cs.take 1, cs.drop 1⟩
      else ⟨.unrecognized, ['#'], cs⟩ := by
  have hrule := Rule.split?_forBooleans cs
  have hbefore : ∀ rule ∈ Rule.forMarks ++ Keyword.all.map Rule.ofKeyword,
      rule.split? ('#' :: cs) = none := split?_eq_none_of_not_admits (by decide) cs
  have hafter : ∀ rule ∈ [Rule.forDecimals, Rule.forIntegers, Rule.forStrings, Rule.forSymbols],
      rule.split? ('#' :: cs) = none := split?_eq_none_of_not_admits (by decide) cs
  -- The rule for booleans matches, or none does.
  split
  · rename_i h
    rw [if_pos h] at hrule
    exact lexeme_of_rule (Rule.all_eq.trans rfl) hbefore hrule
  · rename_i h
    rw [if_neg h] at hrule
    refine lexeme_of_none ?_
    rw [Rule.all_eq]
    exact List.forall_mem_append.mpr ⟨hbefore, List.forall_mem_cons.mpr ⟨hrule, hafter⟩⟩

/-- Two semicolons start a comment, which ends before the next newline. -/
theorem lexeme_comment (cs : List Char) :
    lexeme (';' :: ';' :: cs) =
      ⟨.comment, ';' :: ';' :: cs.takeWhile (· != '\n'), cs.dropWhile (· != '\n')⟩ := by
  have hrule : Rule.forComments.split? (';' :: ';' :: cs) =
      some (';' :: ';' :: cs.takeWhile (· != '\n'), cs.dropWhile (· != '\n')) := by
    simp [Rule.split?, Rule.forComments, Pattern.split?, Piece.char, Piece.split?]
  have hall : Rule.all = [] ++ Rule.forComments :: Rule.all.tail := rfl
  exact lexeme_of_rule hall (List.forall_mem_nil _) hrule

/-- A single semicolon stands alone. -/
theorem lexeme_semicolon {cs : List Char} (h : cs.head? ≠ some ';') :
    lexeme (';' :: cs) = ⟨.unrecognized, [';'], cs⟩ := by
  have hcomment : Rule.forComments.split? (';' :: cs) = none := by
    cases cs with
    | nil => rfl
    | cons d ds =>
      have hd : (d == ';') = false := beq_eq_false_iff_ne.mpr fun heq => h (heq ▸ rfl)
      simp [Rule.split?, Rule.forComments, Pattern.split?, Piece.char, Piece.split?, hd]
  have hothers : ∀ rule ∈ Rule.all.tail, rule.split? (';' :: cs) = none :=
    split?_eq_none_of_not_admits (by decide) cs
  exact lexeme_of_none (List.forall_mem_cons.mpr ⟨hcomment, hothers⟩)

/-- A line that ends with a character other than a newline ends with the newline after it. -/
private theorem exists_of_split?_forLineEnds {c : Char} {cs : List Char}
    {found : List Char × List Char}
    (hnewline : c ≠ '\n') (h : Rule.forLineEnds.split? (c :: cs) = some found) :
    ∃ ds, cs = '\n' :: ds ∧ found = ([c, '\n'], ds) := by
  -- Only a carriage return may come before the newline.
  by_cases hreturn : c = '\r'
  · subst hreturn
    cases cs with
    | nil => exact nomatch h
    | cons d ds =>
      by_cases hd : d = '\n'
      · subst hd
        exact ⟨ds, rfl, (Option.some.inj h).symm⟩
      · simp [Rule.split?, Rule.forLineEnds, Pattern.split?, Piece.char, Piece.split?, hd] at h
  · simp [Rule.split?, Rule.forLineEnds, Pattern.split?, Piece.char, Piece.split?, hreturn,
      hnewline] at h

/-- A blank within a line goes up to the next other character, if it does not start the end of
    the line. -/
theorem lexeme_innerBlank {c : Char} (hc : isInnerBlank c = true) (cs : List Char) :
    lexeme (c :: cs) = ⟨.blank, c :: cs.takeWhile isInnerBlank, cs.dropWhile isInnerBlank⟩ ∨
      ∃ ds, cs = '\n' :: ds ∧ lexeme (c :: cs) = ⟨.lineEnd, [c, '\n'], ds⟩ := by
  simp only [isInnerBlank, Bool.and_eq_true, bne_iff_ne] at hc
  obtain ⟨hblank, hnewline⟩ := hc
  -- The rule for comments comes first and does not match.
  have hcomment : Rule.forComments.split? (c :: cs) = none := by
    have hsemicolon : (c == ';') = false := by
      refine beq_eq_false_iff_ne.mpr ?_
      rintro rfl
      exact absurd hblank (by decide)
    simp [Rule.split?, Rule.forComments, Pattern.split?, Piece.char, Piece.split?, hsemicolon]
  -- A carriage return before a newline ends the line, and is blank anywhere else.
  cases hend : Rule.forLineEnds.split? (c :: cs) with
  | some found =>
    have hall : Rule.all = [Rule.forComments] ++ Rule.forLineEnds :: Rule.all.drop 2 := rfl
    have hlexeme := lexeme_of_rule hall (List.forall_mem_singleton.mpr hcomment) hend
    obtain ⟨ds, hcs, rfl⟩ := exists_of_split?_forLineEnds hnewline hend
    exact .inr ⟨ds, hcs, hlexeme⟩
  | none =>
    have hsplit : Rule.forBlanks.split? (c :: cs) =
        some (c :: cs.takeWhile isInnerBlank, cs.dropWhile isInnerBlank) := by
      simp [Rule.split?, Rule.forBlanks, Pattern.split?, Piece.split?, isInnerBlank, hblank,
        hnewline]
    have hall : Rule.all = [Rule.forComments, Rule.forLineEnds] ++
        Rule.forBlanks :: Rule.all.drop 3 := rfl
    exact .inl (lexeme_of_rule hall
      (List.forall_mem_cons.mpr ⟨hcomment, List.forall_mem_singleton.mpr hend⟩) hsplit)

/-- A blank character starts a blank or ends a line. -/
theorem lexeme_blank {c : Char} (hc : Text.isBlank c = true) (cs : List Char) :
    (lexeme (c :: cs)).kind = .blank ∨ (lexeme (c :: cs)).kind = .lineEnd := by
  by_cases hnewline : c = '\n'
  · subst hnewline
    exact .inr rfl
  · have hinner : isInnerBlank c = true := by simp [isInnerBlank, hc, hnewline]
    rcases lexeme_innerBlank hinner cs with hlexeme | ⟨ds, _, hlexeme⟩
    · exact .inl (congrArg Lexeme.kind hlexeme)
    · exact .inr (congrArg Lexeme.kind hlexeme)

/-- The punctuation marks. -/
def punctuation : List Char := ['(', ')', '\'']

/-- The characters that start strings, booleans and comments. -/
def openers : List Char := ['"', '#', ';']

/-- Characters of which one belongs to a class and the other does not are different. -/
private theorem beq_eq_false_of_class {p : Char → Bool} {c d : Char} (hc : p c = false)
    (hd : p d = true) : (c == d) = false := by
  refine beq_eq_false_iff_ne.mpr ?_
  rintro rfl
  rw [hd] at hc
  exact nomatch hc

/-- Any other character stands alone. -/
theorem lexeme_stray {c : Char} (hblank : Text.isBlank c = false) (hmark : c ∉ punctuation)
    (hopener : c ∉ openers) (hsymbol : isSymbolChar c = false) (cs : List Char) :
    lexeme (c :: cs) = ⟨.unrecognized, [c], cs⟩ := by
  have hne : ∀ {d}, isSymbolChar d = true → (c == d) = false := beq_eq_false_of_class hsymbol
  simp only [punctuation, List.mem_cons, List.not_mem_nil, or_false, not_or] at hmark
  simp only [openers, List.mem_cons, List.not_mem_nil, or_false, not_or] at hopener
  have hmarks : (Rule.forMarks.all fun rule => !rule.pattern.admits c) = true := by
    have hreturn : (c == '\r') = false := beq_eq_false_of_class hblank rfl
    have hnewline : (c == '\n') = false := beq_eq_false_of_class hblank rfl
    simp [Rule.forMarks, Rule.forComments, Rule.forLineEnds, Rule.forBlanks, Pattern.admits,
      Piece.char, isInnerBlank, hblank, hreturn, hnewline, hmark, hopener]
  have hkeywords : ((Keyword.all.map Rule.ofKeyword).all fun rule => !rule.pattern.admits c) =
      true := by
    refine List.all_eq_true.mpr (List.forall_mem_map.mpr fun word _ => ?_)
    -- The first character of a keyword is a symbol character.
    cases word with
    | define => exact congrArg not (hne (d := 'd') rfl)
    | lambda => exact congrArg not (hne (d := 'l') rfl)
    | branch => exact congrArg not (hne (d := 'i') rfl)
    | sequence => exact congrArg not (hne (d := 'b') rfl)
    | assign => exact congrArg not (hne (d := 's') rfl)
    | cons => exact congrArg not (hne (d := 'c') rfl)
  have hothers : ([Rule.forBooleans, Rule.forDecimals, Rule.forIntegers, Rule.forStrings,
      Rule.forSymbols].all fun rule => !rule.pattern.admits c) = true := by
    have hclasses := hsymbol
    simp only [isSymbolChar, Bool.or_eq_false_iff] at hclasses
    have hsign : isSign c = false := by
      simp only [isSign, hne (d := '+') rfl, hne (d := '-') rfl, Bool.or_false]
    simp [Rule.forBooleans, Rule.forDecimals, Rule.forIntegers, Rule.forStrings, Rule.forSymbols,
      Pattern.admits, Piece.char, hclasses, hsign, hopener]
  refine lexeme_of_none (split?_eq_none_of_not_admits ?_ cs)
  rw [Rule.all_eq, List.all_append, List.all_append, hmarks, hkeywords, hothers]
  rfl

/-! ### Tokens -/

/-- The first character belongs to no longer token: it is a quotation mark that nothing closes, a
    hash that starts no boolean, a single semicolon, or of no use at all. -/
def StandsAlone (c : Char) (cs : List Char) : Prop :=
  c = '"' ∧ '"' ∉ cs ∨
    c = '#' ∧ startsBoolean (c :: cs) = false ∨
    c = ';' ∧ cs.head? ≠ some ';' ∨
    Text.isBlank c = false ∧ c ∉ punctuation ∧ c ∉ openers ∧ isSymbolChar c = false

/-- How a token is marked off at the front of a text. -/
structure Munched (text : List Char) (kind : TokenKind) (taken : List Char) : Prop where
  /-- A number is as long as it may be, whatever comes after it. -/
  number : startsNumber text = true → kind = .number ∧ taken = leadingNumber text
  /-- A word is the longest run of symbol characters, and a keyword only as a whole. -/
  word : startsNumber text = false → text.head?.any isSymbolStart = true →
    taken = text.takeWhile isSymbolChar ∧
      (∀ word, kind = .keyword word ↔ taken = word.text.toList) ∧
      (kind = .symbol ↔ ∀ word : Keyword, taken ≠ word.text.toList)
  /-- A boolean is one only if no symbol character follows. -/
  boolean : kind = .boolean ↔ startsBoolean text = true
  boolean_taken : kind = .boolean → taken = text.take 2
  /-- A string ends with the next quotation mark. -/
  string : ∀ cs, text = '"' :: cs → '"' ∈ cs →
    kind = .string ∧ taken = '"' :: (cs.takeWhile (· != '"') ++ ['"'])
  /-- A comment ends before the next newline. -/
  comment : ∀ cs, text = ';' :: ';' :: cs →
    kind = .comment ∧ taken = ';' :: ';' :: cs.takeWhile (· != '\n')
  /-- All that is left are single characters. -/
  unrecognized : kind = .unrecognized ↔ ∃ c cs, text = c :: cs ∧ StandsAlone c cs
  unrecognized_taken : kind = .unrecognized → ∃ c cs, text = c :: cs ∧ taken = [c]

/-- A run of symbol characters is a keyword if it is spelled as one. -/
private theorem wordKind_eq_keyword_iff {run : List Char} {word : Keyword} :
    wordKind run = .keyword word ↔ run = word.text.toList := by
  unfold wordKind
  cases hfind : Keyword.all.find? fun word => word.text.toList == run with
  | none =>
    have hmem : word ∈ Keyword.all := by cases word <;> decide
    have hne := List.find?_eq_none.mp hfind word hmem
    refine ⟨nofun, fun heq => ?_⟩
    simp [heq] at hne
  | some other =>
    have hother := eq_of_beq (List.find?_eq_some_iff_append.mp hfind).1
    -- Keywords with the same text are the same.
    have hinj : ∀ a b : Keyword, a.text.toList = b.text.toList → a = b := by
      intro a b
      cases a <;> cases b <;> decide
    simp only [TokenKind.keyword.injEq, ← hother]
    exact ⟨fun heq => heq ▸ rfl, fun heq => hinj _ _ heq⟩

/-- A run of symbol characters is a symbol if it is spelled as no keyword. -/
private theorem wordKind_eq_symbol_iff {run : List Char} :
    wordKind run = .symbol ↔ ∀ word : Keyword, run ≠ word.text.toList := by
  simp only [ne_eq, ← wordKind_eq_keyword_iff]
  unfold wordKind
  split
  · rename_i word _
    exact ⟨nofun, fun h => absurd rfl (h word)⟩
  · exact ⟨fun _ => nofun, fun _ => rfl⟩

/-- A run of symbol characters is not unrecognized. -/
private theorem wordKind_ne_unrecognized (run : List Char) : wordKind run ≠ .unrecognized := by
  unfold wordKind
  split <;> exact nofun

/-- Only one of the rules makes booleans. -/
private theorem eq_forBooleans :
    ∀ rule ∈ Rule.all, rule.kind = .boolean → rule = Rule.forBooleans := by
  simp [Rule.all, Keyword.all, Rule.ofKeyword, Rule.forBooleans]

/-- Booleans are found by their rule, which applies to a hash only. -/
private theorem eq_hash_of_kind {c : Char} {cs : List Char}
    (h : (lexeme (c :: cs)).kind = .boolean) : c = '#' := by
  refine Classical.byContradiction fun hc => ?_
  have hnone : Rule.forBooleans.split? (c :: cs) = none := by
    have hc' : (c == '#') = false := beq_eq_false_iff_ne.mpr hc
    simp [Rule.split?, Rule.forBooleans, Pattern.split?, Piece.char, Piece.split?, hc']
  obtain ⟨rule, hrule, hkind, hsplit⟩ := exists_rule_of_lexeme (c :: cs)
    (by rw [h]; decide) (by rw [h]; decide)
  rw [eq_forBooleans rule hrule (hkind.trans h), hnone] at hsplit
  cases hsplit

/-- A boolean is a number sign and a letter that begin as booleans do. -/
private theorem startsBoolean_of_kind {cs : List Char} (h : (lexeme cs).kind = .boolean) :
    startsBoolean cs = true ∧ (lexeme cs).taken = cs.take 2 := by
  cases cs with
  | nil => exact nomatch h
  | cons c cs =>
    obtain rfl := eq_hash_of_kind h
    rw [lexeme_hash] at h ⊢
    split at h
    · rename_i hstarts
      rw [if_pos hstarts]
      exact ⟨hstarts, by simp⟩
    · exact nomatch h

/-- A character that is a token of its own is one that stands alone. -/
private theorem standsAlone_of_kind {c : Char} {cs : List Char}
    (h : (lexeme (c :: cs)).kind = .unrecognized) : StandsAlone c cs := by
  -- By what the character can start, in the order of the conditions.
  by_cases hquote : c = '"'
  · subst hquote
    refine .inl ⟨rfl, fun hmem => ?_⟩
    rw [lexeme_of_mem hmem] at h
    exact nomatch h
  by_cases hhash : c = '#'
  · subst hhash
    refine .inr (.inl ⟨rfl, Bool.eq_false_iff.mpr fun hstarts => ?_⟩)
    rw [lexeme_hash, if_pos hstarts] at h
    exact nomatch h
  by_cases hsemicolon : c = ';'
  · subst hsemicolon
    refine .inr (.inr (.inl ⟨rfl, fun hhead => ?_⟩))
    obtain ⟨ds, rfl⟩ := List.head?_eq_some_iff.mp hhead
    rw [lexeme_comment] at h
    exact nomatch h
  refine .inr (.inr (.inr ⟨?_, ?_, ?_, ?_⟩))
  · refine Bool.eq_false_iff.mpr fun hblank => ?_
    rcases lexeme_blank hblank cs with hkind | hkind <;> rw [hkind] at h <;> exact nomatch h
  · intro hmark
    simp only [punctuation, List.mem_cons, List.not_mem_nil, or_false] at hmark
    rcases hmark with rfl | rfl | rfl <;> exact nomatch h
  · simp [openers, hquote, hhash, hsemicolon]
  · refine Bool.eq_false_iff.mpr fun hsymbol => ?_
    cases hnumber : startsNumber (c :: cs) with
    | true =>
      rw [(lexeme_number hnumber).1] at h
      exact nomatch h
    | false =>
      have hdigit : c.isDigit = false := by
        simp only [startsNumber, Bool.or_eq_false_iff] at hnumber
        exact hnumber.1
      have hstart : isSymbolStart c = true := by simpa [isSymbolChar, hdigit] using hsymbol
      rw [(lexeme_word hstart hnumber).1] at h
      exact wordKind_ne_unrecognized _ h

/-- A character that stands alone is unrecognized, and taken alone. -/
private theorem lexeme_of_standsAlone {c : Char} {cs : List Char} (h : StandsAlone c cs) :
    lexeme (c :: cs) = ⟨.unrecognized, [c], cs⟩ := by
  rcases h with ⟨rfl, h⟩ | ⟨rfl, h⟩ | ⟨rfl, h⟩ | ⟨hblank, hmark, hopener, hsymbol⟩
  · exact lexeme_of_not_mem h
  · rw [lexeme_hash, if_neg (by simp [h])]
  · exact lexeme_semicolon h
  · exact lexeme_stray hblank hmark hopener hsymbol cs

/-- The first lexeme of a text is marked off as it should be. -/
private theorem lexeme_munched (cs : List Char) :
    Munched cs (lexeme cs).kind (lexeme cs).taken where
  -- Each clause is the lemma about its class of words, read in both directions where it is one.
  number := lexeme_number
  word hnumber hstart := by
    cases cs with
    | nil => exact nomatch hstart
    | cons c cs =>
      obtain ⟨hkind, htaken⟩ := lexeme_word hstart hnumber
      rw [hkind, htaken]
      exact ⟨rfl, fun _ => wordKind_eq_keyword_iff, wordKind_eq_symbol_iff⟩
  boolean := by
    refine ⟨fun h => (startsBoolean_of_kind h).1, fun h => ?_⟩
    have hstarts := h
    unfold startsBoolean at h
    split at h
    · rw [lexeme_hash, if_pos hstarts]
    · exact nomatch h
  boolean_taken h := (startsBoolean_of_kind h).2
  string := by
    rintro cs rfl hmem
    rw [lexeme_of_mem hmem]
    exact ⟨rfl, rfl⟩
  comment := by
    rintro cs rfl
    rw [lexeme_comment]
    exact ⟨rfl, rfl⟩
  unrecognized := by
    refine ⟨fun h => ?_, ?_⟩
    · cases cs with
      | nil => exact nomatch h
      | cons c cs => exact ⟨c, cs, rfl, standsAlone_of_kind h⟩
    · rintro ⟨c, cs, rfl, h⟩
      rw [lexeme_of_standsAlone h]
  unrecognized_taken h := by
    cases cs with
    | nil => exact nomatch h
    | cons c cs => exact ⟨c, cs, rfl, by rw [lexeme_of_standsAlone (standsAlone_of_kind h)]⟩

/-- Wherever a token starts in a text, it is marked off as it should be. -/
theorem Cursor.next_munched (c : Cursor) :
    Munched c.rest c.next.1.kind c.next.1.text.toList := by
  have htext : c.next.1.text.toList = (lexeme c.rest).taken := String.toList_ofList
  rw [htext]
  exact lexeme_munched c.rest

end LispSession
