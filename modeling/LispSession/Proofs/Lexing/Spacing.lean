import LispSession.Proofs.Lexing.Munch

/-!
# Tokens that are kept apart

A token may touch the next one, and what it is can depend on what follows. Once something
stands after it with which no token goes on, it is the same token whatever follows that. So
the tokens of a text can be written with any spacing between them, and are the tokens of the
new text.

* `lexeme_taken_append`  a token is the same before any divider
* `words_spacing`        spacing is no part of any token
* `words_write`          the words of a text, written with other spacing
-/

namespace LispSession

/-! ### Dividers -/

/-- No token goes on with the character: not a word, a number, a boolean or a comment. -/
def isDivider (c : Char) : Bool := !(isSymbolChar c || c == '.' || c == ';')

/-- A divider comes next, or nothing. -/
def Divided (rest : List Char) : Prop := rest.head?.all isDivider = true

/-- The end of the input divides. -/
theorem divided_nil : Divided [] := rfl

/-- Characters that begin with a divider divide. -/
theorem divided_cons {c : Char} (hc : isDivider c = true) (cs : List Char) : Divided (c :: cs) := hc

/-- What divides, and is followed by something that divides, divides. -/
theorem Divided.append {cs rest : List Char} (h : Divided cs) (hrest : Divided rest) :
    Divided (cs ++ rest) := by
  cases cs with
  | nil => exact hrest
  | cons c cs => exact h

/-- A class without dividers takes nothing of what is divided off. -/
private theorem Divided.head?_any {rest : List Char} (h : Divided rest) {p : Char → Bool}
    (hp : ∀ c, isDivider c = true → p c = false) : rest.head?.any p = false := by
  cases rest with
  | nil => rfl
  | cons c cs => exact hp c h

/-- A divider does not go on with a symbol. -/
private theorem Divided.not_symbolChar {rest : List Char} (h : Divided rest) :
    rest.head?.any isSymbolChar = false := by
  refine h.head?_any fun c hc => ?_
  simp only [isDivider, Bool.not_eq_true', Bool.or_eq_false_iff] at hc
  exact hc.1.1

/-- A divider does not go on with digits. -/
private theorem Divided.not_digit {rest : List Char} (h : Divided rest) :
    rest.head?.any Char.isDigit = false := by
  refine h.head?_any fun c hc => ?_
  simp only [isDivider, isSymbolChar, Bool.not_eq_true', Bool.or_eq_false_iff] at hc
  exact hc.1.1.2

/-- What divides begins with nothing but a divider. -/
private theorem Divided.head?_ne {rest : List Char} (h : Divided rest) {c : Char}
    (hc : isDivider c = false) : rest.head? ≠ some c := by
  intro hhead
  rw [Divided, hhead, Option.all_some, hc] at h
  exact nomatch h

/-- A run of a class ends where the class does. -/
theorem span_append {p : Char → Bool} {run rest : List Char} (hrun : ∀ c ∈ run, p c = true)
    (hrest : rest.head?.any p = false) :
    (run ++ rest).takeWhile p = run ∧ (run ++ rest).dropWhile p = rest := by
  have htake : (run ++ rest).takeWhile p = run := takeWhile_eq_iff.mpr ⟨hrun, rest, rfl, hrest⟩
  have happend := List.takeWhile_append_dropWhile (p := p) (l := run ++ rest)
  rw [htake] at happend
  exact ⟨htake, List.append_cancel_left happend⟩

/-! ### Tokens before a divider -/

/-- A lexeme is known from its kind and its characters. -/
theorem lexeme_eq_of_taken {taken rest : List Char} {kind : TokenKind}
    (h : (lexeme (taken ++ rest)).kind = kind ∧ (lexeme (taken ++ rest)).taken = taken) :
    lexeme (taken ++ rest) = ⟨kind, taken, rest⟩ := by
  obtain ⟨rfl, htaken⟩ := h
  have happend := lexeme_append (taken ++ rest)
  rw [htaken] at happend
  have hrest := List.append_cancel_left happend
  revert htaken hrest
  generalize lexeme (taken ++ rest) = found
  rintro rfl rfl
  rfl

/-- A quotation mark that is closed starts the same string before anything else. -/
private theorem lexeme_string_append {cs : List Char} (h : '"' ∈ cs) (rest : List Char) :
    lexeme ((lexeme ('"' :: cs)).taken ++ rest) = ⟨.string, (lexeme ('"' :: cs)).taken, rest⟩ := by
  have hrun : ∀ c ∈ cs.takeWhile (· != '"'), (c != '"') = true :=
    List.all_eq_true.mp List.all_takeWhile
  have hquote : ('"' :: rest).head?.any (· != '"') = false := rfl
  obtain ⟨htake, hdrop⟩ := span_append hrun hquote
  have hmem : '"' ∈ cs.takeWhile (· != '"') ++ '"' :: rest := by simp
  rw [lexeme_of_mem h]
  simp only [List.cons_append, List.append_assoc, List.nil_append]
  rw [lexeme_of_mem hmem, htake, hdrop, List.tail_cons]

/-- A boolean, or a number sign alone, ends before a divider as at the end of the input. -/
private theorem lexeme_hash_append {rest : List Char} (hrest : Divided rest) (cs : List Char) :
    lexeme ((lexeme ('#' :: cs)).taken ++ rest) =
      ⟨(lexeme ('#' :: cs)).kind, (lexeme ('#' :: cs)).taken, rest⟩ := by
  rw [lexeme_hash]
  split
  · rename_i hstarts
    -- The letter after the number sign is taken, and a divider comes next.
    cases cs with
    | nil => exact nomatch hstarts
    | cons c cs =>
      simp only [startsBoolean, Bool.and_eq_true] at hstarts
      have hagain : startsBoolean ('#' :: c :: rest) = true := by
        simp only [startsBoolean, hrest.not_symbolChar, Bool.not_false, Bool.and_true, hstarts.1]
      simp [lexeme_hash, hagain]
  · -- No letter follows that would make it a boolean.
    have hagain : startsBoolean ('#' :: rest) = false := by
      cases rest with
      | nil => rfl
      | cons c cs =>
        have ht : (c == 't') = false := beq_eq_false_iff_ne.mpr fun heq =>
          hrest.head?_ne (c := 't') (by decide) (by rw [heq]; rfl)
        have hf : (c == 'f') = false := beq_eq_false_iff_ne.mpr fun heq =>
          hrest.head?_ne (c := 'f') (by decide) (by rw [heq]; rfl)
        simp only [startsBoolean, ht, hf, Bool.or_self, Bool.false_and]
    simp [lexeme_hash, hagain]

/-- The digits and the point of a number end before a divider as at the end of the input. -/
private theorem leadingDecimal_append {rest : List Char} (hrest : Divided rest) (cs : List Char) :
    leadingDecimal (leadingDecimal cs ++ rest) = leadingDecimal cs := by
  have hdigits : ∀ ds : List Char, ∀ c ∈ ds.takeWhile Char.isDigit, c.isDigit = true :=
    fun _ => List.all_eq_true.mp List.all_takeWhile
  unfold leadingDecimal
  split
  -- The digits before the point end there, and those after it before the divider.
  · rename_i fs hpoint
    have hpoint' : ('.' :: (fs.takeWhile Char.isDigit ++ rest)).head?.any Char.isDigit = false :=
      rfl
    obtain ⟨htake, hdrop⟩ := span_append (hdigits cs) hpoint'
    obtain ⟨hfraction, _⟩ := span_append (hdigits fs) hrest.not_digit
    simp only [List.append_assoc, List.cons_append, htake, hdrop, hfraction]
  · rename_i hpoint
    obtain ⟨htake, hdrop⟩ := span_append (hdigits cs) hrest.not_digit
    simp only [List.append_nil, htake, hdrop]
    split
    · rename_i fs
      exact absurd rfl (hrest.head?_ne (c := '.') (by decide))
    · rw [List.append_nil]

/-- A number starts with its first digit, if no sign is before it. -/
private theorem exists_leadingDecimal_eq_cons {d : Char} (hd : d.isDigit = true) (ds : List Char) :
    ∃ more, leadingDecimal (d :: ds) = d :: more := by
  rw [leadingDecimal, List.takeWhile_cons, if_pos hd]
  exact ⟨_, rfl⟩

/-- A number ends before a divider as at the end of the input. -/
private theorem leadingNumber_append {cs rest : List Char} (h : startsNumber cs = true)
    (hrest : Divided rest) :
    startsNumber (leadingNumber cs ++ rest) = true ∧
      leadingNumber (leadingNumber cs ++ rest) = leadingNumber cs := by
  cases cs with
  | nil => cases h
  | cons c cs =>
    simp only [startsNumber, Bool.or_eq_true, Bool.and_eq_true, Option.any_eq_true] at h
    -- With a sign, the digits begin at the second character.
    by_cases hsign : isSign c = true
    · have hdigit : c.isDigit = false := by
        simp only [isSign, Bool.or_eq_true, beq_iff_eq] at hsign
        rcases hsign with rfl | rfl <;> rfl
      rw [hdigit] at h
      obtain ⟨_, d, hhead, hd⟩ := h.resolve_left Bool.false_ne_true
      obtain ⟨ds, rfl⟩ := List.head?_eq_some_iff.mp hhead
      obtain ⟨more, hmore⟩ := exists_leadingDecimal_eq_cons hd ds
      have hagain := leadingDecimal_append hrest (d :: ds)
      simp only [leadingNumber, hsign, if_true, List.cons_append, hagain]
      simp [startsNumber, hsign, hmore, hd]
    · have hd : c.isDigit = true := h.resolve_right fun hboth => hsign hboth.1
      obtain ⟨more, hmore⟩ := exists_leadingDecimal_eq_cons hd cs
      have hagain := leadingDecimal_append hrest (c :: cs)
      rw [hmore] at hagain
      simp only [leadingNumber, hsign, Bool.false_eq_true, if_false, hmore, List.cons_append]
      exact ⟨by simp [startsNumber, hd], hagain⟩

/-- A number is as long before a divider as it was. -/
private theorem lexeme_number_append {cs rest : List Char} (h : startsNumber cs = true)
    (hrest : Divided rest) :
    lexeme ((lexeme cs).taken ++ rest) = ⟨.number, (lexeme cs).taken, rest⟩ := by
  obtain ⟨hstarts, hagain⟩ := leadingNumber_append h hrest
  obtain ⟨hkind, htaken⟩ := lexeme_number hstarts
  rw [(lexeme_number h).2]
  exact lexeme_eq_of_taken ⟨hkind, htaken.trans hagain⟩

/-- What starts no number does not start one when it ends with its run of symbol characters. -/
private theorem startsNumber_takeWhile {c : Char} {cs rest : List Char}
    (h : startsNumber (c :: cs) = false) (hrest : Divided rest) :
    startsNumber (c :: (cs.takeWhile isSymbolChar ++ rest)) = false := by
  simp only [startsNumber, Bool.or_eq_false_iff, Bool.and_eq_false_iff] at h ⊢
  refine ⟨h.1, h.2.imp_right fun hhead => ?_⟩
  -- The character after the first one is the same, or that of the divider.
  cases cs with
  | nil => exact hrest.not_digit
  | cons d ds =>
    by_cases hd : isSymbolChar d = true
    · rw [List.takeWhile_cons, if_pos hd]
      exact hhead
    · rw [List.takeWhile_cons, if_neg hd]
      exact hrest.not_digit

/-- A word is as long before a divider as it was. -/
private theorem lexeme_word_append {c : Char} {cs rest : List Char} (hc : isSymbolStart c = true)
    (h : startsNumber (c :: cs) = false) (hrest : Divided rest) :
    lexeme ((lexeme (c :: cs)).taken ++ rest) =
      ⟨(lexeme (c :: cs)).kind, (lexeme (c :: cs)).taken, rest⟩ := by
  obtain ⟨hkind, htaken⟩ := lexeme_word hc h
  have hrun : ∀ d ∈ (c :: cs).takeWhile isSymbolChar, isSymbolChar d = true :=
    List.all_eq_true.mp List.all_takeWhile
  -- The run of the word ends where it did, since the divider does not belong to it.
  have hspan := (span_append hrun hrest.not_symbolChar).1
  have hfirst : (c :: cs).takeWhile isSymbolChar = c :: cs.takeWhile isSymbolChar := by
    simp [isSymbolChar, hc]
  rw [hkind, htaken]
  refine lexeme_eq_of_taken ?_
  rw [hfirst] at hspan ⊢
  rw [List.cons_append] at hspan ⊢
  obtain ⟨hkind', htaken'⟩ := lexeme_word hc (startsNumber_takeWhile h hrest)
  rw [hkind', htaken', hspan]
  exact ⟨rfl, rfl⟩

/-- A character that is punctuation is a token by itself. -/
private theorem lexeme_punctuation {c : Char} (hc : c ∈ punctuation) :
    ∃ kind, ∀ cs, lexeme (c :: cs) = ⟨kind, [c], cs⟩ := by
  simp only [punctuation, List.mem_cons, List.not_mem_nil, or_false] at hc
  rcases hc with rfl | rfl | rfl
  · exact ⟨.leftParen, fun _ => rfl⟩
  · exact ⟨.rightParen, fun _ => rfl⟩
  · exact ⟨.quote, fun _ => rfl⟩

/-- A significant token is the same before any divider, if it is no quotation mark that what
follows would close. -/
theorem lexeme_taken_append {cs rest : List Char} (hcs : cs ≠ [])
    (hsignificant : (lexeme cs).kind.isTrivia = false) (hrest : Divided rest)
    (hquote : (lexeme cs).taken = ['"'] → '"' ∉ rest) :
    lexeme ((lexeme cs).taken ++ rest) = ⟨(lexeme cs).kind, (lexeme cs).taken, rest⟩ := by
  obtain ⟨c, cs, rfl⟩ := List.exists_cons_of_ne_nil hcs
  -- By what the first character can start.
  by_cases hstring : c = '"'
  · subst hstring
    by_cases hmem : '"' ∈ cs
    · rw [lexeme_string_append hmem, lexeme_of_mem hmem]
    · rw [lexeme_of_not_mem hmem] at hquote ⊢
      exact lexeme_of_not_mem (hquote rfl)
  by_cases hhash : c = '#'
  · subst hhash
    exact lexeme_hash_append hrest cs
  by_cases hsemicolon : c = ';'
  · subst hsemicolon
    by_cases hhead : cs.head? = some ';'
    · obtain ⟨ds, rfl⟩ := List.head?_eq_some_iff.mp hhead
      rw [lexeme_comment] at hsignificant
      exact nomatch hsignificant
    · rw [lexeme_semicolon hhead]
      exact lexeme_semicolon (hrest.head?_ne (by decide))
  by_cases hblank : Text.isBlank c = true
  · rcases lexeme_blank hblank cs with hkind | hkind <;> rw [hkind] at hsignificant <;>
      exact nomatch hsignificant
  by_cases hmark : c ∈ punctuation
  · obtain ⟨kind, hlexeme⟩ := lexeme_punctuation hmark
    rw [hlexeme]
    exact hlexeme rest
  cases hnumber : startsNumber (c :: cs) with
  | true =>
    rw [lexeme_number_append hnumber hrest, (lexeme_number hnumber).1]
  | false =>
    by_cases hstart : isSymbolStart c = true
    · exact lexeme_word_append hstart hnumber hrest
    · have hdigit : c.isDigit = false := by
        simp only [startsNumber, Bool.or_eq_false_iff] at hnumber
        exact hnumber.1
      have hstray := lexeme_stray (c := c) (Bool.eq_false_iff.mpr hblank) hmark
        (by simp [openers, hstring, hhash, hsemicolon]) (by simp [isSymbolChar, hstart, hdigit])
      rw [hstray]
      exact hstray rest

/-! ### Spacing -/

/-- Dropping blanks from the front leaves the words. -/
private theorem words_dropWhile_isInnerBlank (cs : List Char) :
    words (cs.dropWhile isInnerBlank) = words cs := by
  cases cs with
  | nil => rfl
  | cons c cs =>
    by_cases hc : isInnerBlank c = true
    · rw [List.dropWhile_cons, if_pos hc]
      rcases lexeme_innerBlank hc cs with hlexeme | ⟨ds, rfl, hlexeme⟩
      · rw [words_of_ne_nil (List.cons_ne_nil c cs), hlexeme]
        rfl
      -- The character belongs to the end of its line, and the newline after it is another one.
      · rw [words_of_ne_nil (List.cons_ne_nil c _), hlexeme]
        exact words_newline_cons ds
    · rw [List.dropWhile_cons, if_neg hc]

/-- A blank character in front of a text is part of no word. -/
theorem words_blank_cons {c : Char} (hc : Text.isBlank c = true) (cs : List Char) :
    words (c :: cs) = words cs := by
  by_cases hnewline : c = '\n'
  · subst hnewline
    exact words_newline_cons cs
  · have hinner : isInnerBlank c = true := by simp [isInnerBlank, hc, hnewline]
    rw [← words_dropWhile_isInnerBlank (c :: cs), List.dropWhile_cons, if_pos hinner,
      words_dropWhile_isInnerBlank]

/-- Blank characters before a text add no word. -/
theorem words_blank_append {blank : List Char} (h : ∀ c ∈ blank, Text.isBlank c = true)
    (cs : List Char) : words (blank ++ cs) = words cs := by
  induction blank with
  | nil => rfl
  | cons c blank ih =>
    obtain ⟨hc, hblank⟩ := List.forall_mem_cons.mp h
    rw [List.cons_append, words_blank_cons hc, ih hblank]

/-- A space, a tab or a newline. -/
def isSpacing (c : Char) : Bool := c == ' ' || c == '\t' || c == '\n'

/-- Any number of spaces, tabs and newlines. -/
abbrev Spacing := { cs : List Char // ∀ c ∈ cs, isSpacing c = true }

/-- What spaces tokens out is blank, divides, and is no quote. -/
private theorem of_isSpacing {c : Char} (h : isSpacing c = true) :
    Text.isBlank c = true ∧ isDivider c = true ∧ c ≠ '"' := by
  simp only [isSpacing, Bool.or_eq_true, beq_iff_eq] at h
  rcases h with (rfl | rfl) | rfl <;> decide

/-- Spacing is part of no word. -/
theorem words_spacing (gap : Spacing) (cs : List Char) : words (gap.val ++ cs) = words cs :=
  words_blank_append (fun c hc => (of_isSpacing (gap.property c hc)).1) cs

/-- Spacing divides, unless there is none. -/
private theorem Spacing.divided (gap : Spacing) : Divided gap.val := by
  obtain ⟨_ | ⟨c, cs⟩, hgap⟩ := gap
  · exact divided_nil
  · exact divided_cons (of_isSpacing (hgap c List.mem_cons_self)).2.1 cs

/-- Spacing with something in it divides, whatever follows. -/
private theorem Spacing.divided_append {gap : Spacing} (hgap : gap.val ≠ []) (cs : List Char) :
    Divided (gap.val ++ cs) := by
  have hdivided := gap.divided
  obtain ⟨c, more, hcons⟩ := List.exists_cons_of_ne_nil hgap
  rw [hcons] at hdivided ⊢
  exact divided_cons hdivided (more ++ cs)

/-! ### Layouts -/

/-- How tokens are spaced out. Any two of them are kept apart. -/
structure Layout where
  /-- What stands before each token. -/
  before : Nat → Spacing
  /-- What stands after the last one. -/
  after : Spacing
  before_ne_nil : ∀ i, (before (i + 1)).val ≠ []

namespace Layout

/-- The layout of all tokens but the first. -/
def next (layout : Layout) : Layout :=
  ⟨fun i => layout.before (i + 1), layout.after, fun i => layout.before_ne_nil (i + 1)⟩

/-- The characters of tokens that are spaced out. -/
def write (layout : Layout) : List Token → List Char
  | [] => layout.after.val
  | t :: ts => (layout.before 0).val ++ (t.text.toList ++ layout.next.write ts)

/-- Only the characters of tokens are written. -/
theorem write_map_bare (layout : Layout) (ts : List Token) :
    layout.write (ts.map Token.bare) = layout.write ts := by
  induction ts generalizing layout with
  | nil => rfl
  | cons t ts ih => rw [List.map_cons, write, write, ih, Token.bare]

/-- Something that divides follows every token. -/
private theorem divided_write_next (layout : Layout) (ts : List Token) :
    Divided (layout.next.write ts) := by
  cases ts with
  | nil => exact layout.after.divided
  | cons t ts => exact Spacing.divided_append (layout.before_ne_nil 0) _

/-- What is written is spacing and the characters of the tokens. -/
private theorem notMem_write {c : Char} (hc : isSpacing c = false) {ts : List Token}
    (hts : ∀ t ∈ ts, c ∉ t.text.toList) (layout : Layout) : c ∉ layout.write ts := by
  have hspacing : ∀ gap : Spacing, c ∉ gap.val := by
    intro gap hmem
    rw [gap.property c hmem] at hc
    exact nomatch hc
  induction ts generalizing layout with
  | nil => exact hspacing _
  | cons t ts ih =>
    obtain ⟨ht, hts⟩ := List.forall_mem_cons.mp hts
    exact List.not_mem_append (hspacing _) (List.not_mem_append ht (ih hts _))

end Layout

/-- The characters of a word come from the text. -/
private theorem mem_of_mem_words {cs : List Char} {t : Token} (ht : t ∈ words cs) {c : Char}
    (hc : c ∈ t.text.toList) : c ∈ cs := by
  -- Word by word; each one is made of characters of the first token.
  fun_induction words cs with
  | case1 => exact absurd ht List.not_mem_nil
  | case2 d ds ih =>
    rw [← lexeme_append (d :: ds)]
    rcases List.mem_append.mp ht with ht | ht
    · simp only [Lexeme.word?] at ht
      split at ht
      · exact absurd ht List.not_mem_nil
      · rw [Option.toList_some, List.mem_singleton] at ht
        rw [ht, String.toList_ofList] at hc
        exact List.mem_append_left _ hc
    · exact List.mem_append_right _ (ih ht)

/-- Nothing closes a quotation mark that is a token by itself. -/
private theorem notMem_rest_of_taken {cs : List Char} (h : (lexeme cs).taken = ['"']) :
    '"' ∉ (lexeme cs).rest := by
  have happend := lexeme_append cs
  rw [h] at happend
  intro hmem
  rw [← happend] at h
  rw [List.singleton_append, lexeme_of_mem hmem] at h
  simp at h

/-- Spaced out in any way, the words of a text are the words of what is written. -/
theorem words_write (layout : Layout) (cs : List Char) :
    words (layout.write (words cs)) = words cs := by
  fun_induction words cs generalizing layout with
  | case1 =>
    rw [Layout.write, ← List.append_nil layout.after.val, words_spacing, words_nil]
  | case2 c cs ih =>
    have hcs : c :: cs ≠ [] := List.cons_ne_nil c cs
    cases htrivia : (lexeme (c :: cs)).kind.isTrivia with
    | true =>
      have hnone : (lexeme (c :: cs)).word? = none := if_pos htrivia
      rw [hnone]
      exact ih layout
    | false =>
      have hsome : (lexeme (c :: cs)).word? = some ⟨(lexeme (c :: cs)).kind,
          String.ofList (lexeme (c :: cs)).taken, .start, .start⟩ := if_neg (by simp [htrivia])
      rw [hsome, Option.toList_some, List.singleton_append]
      -- The token is the same before the next spacing, which closes no string.
      have hagain := lexeme_taken_append hcs htrivia
        (layout.divided_write_next (words (lexeme (c :: cs)).rest)) fun htaken =>
          layout.next.notMem_write (by decide) fun t ht hquote =>
            notMem_rest_of_taken htaken (mem_of_mem_words ht hquote)
      have hne := List.append_ne_nil_of_left_ne_nil (lexeme_ne_nil hcs)
        (layout.next.write (words (lexeme (c :: cs)).rest))
      rw [Layout.write, words_spacing, String.toList_ofList, words_of_lexeme hne hagain htrivia,
        ih]
      rfl

end LispSession
