import LispSession.Number.Read
import LispSession.Token.Cursor
import LispSession.Proofs.Lexing.Rules

/-!
# The tokens of a text

Every token of a text is the first lexeme of some rest of it, so what the rules say of
lexemes holds of all tokens.

* `exists_lexeme_of_mem_tokens`  where a token comes from
* `kind_endToken`                the input ends with its end, and with nothing else
* `significantTokens_pairwise`   each token stands before those that follow it
* `exists_read_of_number`        the characters of a number token denote a number
-/

namespace LispSession

/-! ### Where tokens come from -/

/-- The tokens from a place on are lexemes of what follows it. -/
private theorem Cursor.exists_lexeme_of_mem_drain {c : Cursor} {t : Token} (h : t ∈ c.drain.1) :
    ∃ cs ≠ [], t.kind = (lexeme cs).kind ∧ t.text = String.ofList (lexeme cs).taken := by
  fun_induction drain c with
  | case1 c step hend => exact absurd h List.not_mem_nil
  | case2 c step hend later ih =>
    rcases List.mem_cons.mp h with rfl | h
    · exact ⟨c.rest, fun hrest => hend (next_kind_eq_endOfInput.mpr hrest), rfl, rfl⟩
    · exact ih h

/-- Every token of a text is the first one of some characters. -/
theorem exists_lexeme_of_mem_tokens {text : String} {t : Token} (h : t ∈ tokens text) :
    ∃ cs ≠ [], t.kind = (lexeme cs).kind ∧ t.text = String.ofList (lexeme cs).taken :=
  Cursor.exists_lexeme_of_mem_drain h

/-- The end of the input is not among the tokens of a text. -/
theorem kind_ne_endOfInput {text : String} {t : Token} (h : t ∈ significantTokens text) :
    t.kind ≠ .endOfInput := by
  obtain ⟨cs, hcs, hkind, _⟩ := exists_lexeme_of_mem_tokens (List.mem_filter.mp h).1
  rw [hkind]
  exact lexeme_kind_ne_endOfInput hcs

/-- The token after all others is the end of the input. -/
theorem kind_endToken (text : String) : (endToken text).kind = .endOfInput := by
  unfold endToken
  fun_induction Cursor.drain (Cursor.start text) with
  | case1 c step hend => exact hend
  | case2 c step hend later ih => exact ih

/-! ### Where tokens stand -/

/-- One place comes before another one in the text. -/
def Position.Before (p q : Position) : Prop :=
  p.line < q.line ∨ p.line = q.line ∧ p.column < q.column

namespace Position.Before

variable {p q r : Position}

/-- What comes before something later comes before that. -/
private theorem trans (h : p.Before q) (h' : q.Before r) : p.Before r := by
  unfold Before at *
  omega

/-- No place comes before itself. -/
theorem irrefl (p : Position) : ¬ p.Before p := by
  unfold Before
  omega

/-- A character moves the place forward. -/
private theorem advance (p : Position) (c : Char) : p.Before (p.advance c) := by
  unfold Position.advance
  split
  · exact .inl (Nat.lt_succ_self _)
  · exact .inr ⟨rfl, Nat.lt_succ_self _⟩

/-- Some characters move the place forward. -/
private theorem after (p : Position) {cs : List Char} (hcs : cs ≠ []) : p.Before (p.after cs) := by
  -- Character by character, each of which moves the place forward.
  induction cs generalizing p with
  | nil => exact absurd rfl hcs
  | cons c cs ih =>
    cases cs with
    | nil => exact .advance p c
    | cons d ds => exact (advance p c).trans (ih _ (List.cons_ne_nil d ds))

end Position.Before

/-- The tokens from a place on stand there or later, each before those that follow it. -/
private theorem Cursor.pairwise_drain (c : Cursor) :
    (∀ t ∈ c.drain.1, c.position = t.first ∨ c.position.Before t.first) ∧
      c.drain.1.Pairwise fun t t' => t.first.Before t'.first := by
  -- The tokens after the first one begin where it ended or later.
  fun_induction drain c with
  | case1 c step hend => exact ⟨List.forall_mem_nil _, .nil⟩
  | case2 c step hend later ih =>
    obtain ⟨hlater, hpairwise⟩ := ih
    have hrest : c.rest ≠ [] := fun hrest => hend (next_kind_eq_endOfInput.mpr hrest)
    have hnext : c.position.Before step.2.position := .after _ (lexeme_ne_nil hrest)
    have hafter : ∀ t ∈ later.1, c.position.Before t.first := fun t ht =>
      (hlater t ht).elim (fun heq => heq ▸ hnext) hnext.trans
    exact ⟨List.forall_mem_cons.mpr ⟨.inl rfl, fun t ht => .inr (hafter t ht)⟩,
      List.pairwise_cons.mpr ⟨hafter, hpairwise⟩⟩

/-- The tokens of a text begin one after the other. -/
theorem significantTokens_pairwise (text : String) :
    (significantTokens text).Pairwise fun t t' => t.first.Before t'.first :=
  (Cursor.start text).pairwise_drain.2.filter _

/-! ### Numbers -/

/-- Digits after an optional sign, and maybe a point with more digits. -/
structure IsNumeral (cs sign whole fraction : List Char) : Prop where
  append : cs = sign ++ (whole ++ fraction)
  sign : sign = [] ∨ ∃ c, isSign c = true ∧ sign = [c]
  whole_ne_nil : whole ≠ []
  whole : ∀ c ∈ whole, c.isDigit = true
  fraction : fraction = [] ∨ ∃ ds : List Char, (∀ c ∈ ds, c.isDigit = true) ∧ fraction = '.' :: ds

/-- The first piece of a pattern takes something, and the other pieces take more. -/
private theorem Pattern.exists_of_split?_cons {piece : Piece} {pieces : Pattern}
    {cs taken rest : List Char} (h : Pattern.split? (piece :: pieces) cs = some (taken, rest)) :
    ∃ first between more, piece.split? cs = some (first, between) ∧
      Pattern.split? pieces between = some (more, rest) ∧ taken = first ++ more := by
  -- The first piece takes its characters, and the other pieces those after them.
  simp only [Pattern.split?] at h
  split at h
  · cases h
  · rename_i first between hfirst
    split at h
    · cases h
    · rename_i more rest' hmore
      simp only [Option.some.injEq, Prod.mk.injEq] at h
      obtain ⟨rfl, rfl⟩ := h
      exact ⟨first, between, more, hfirst, hmore, rfl⟩

/-- A piece for one character takes one that it admits. -/
private theorem Piece.of_split?_one {p : Char → Bool} {cs taken rest : List Char}
    (h : (Piece.one p).split? cs = some (taken, rest)) : ∃ c, p c = true ∧ taken = [c] := by
  cases cs with
  | nil => cases h
  | cons c cs =>
    simp only [Piece.split?] at h
    split at h
    · rename_i hc
      simp only [Option.some.injEq, Prod.mk.injEq] at h
      exact ⟨c, hc, h.1.symm⟩
    · cases h

/-- A piece that is optional takes nothing, or one character that it admits. -/
private theorem Piece.of_split?_optional {p : Char → Bool} {cs taken rest : List Char}
    (h : (Piece.optional p).split? cs = some (taken, rest)) :
    taken = [] ∨ ∃ c, p c = true ∧ taken = [c] := by
  cases cs with
  | nil =>
    simp only [Piece.split?, Option.some.injEq, Prod.mk.injEq] at h
    exact .inl h.1.symm
  | cons c cs =>
    simp only [Piece.split?] at h
    split at h
    · rename_i hc
      simp only [Option.some.injEq, Prod.mk.injEq] at h
      exact .inr ⟨c, hc, h.1.symm⟩
    · simp only [Option.some.injEq, Prod.mk.injEq] at h
      exact .inl h.1.symm

/-- A piece for many characters takes only those that it admits. -/
private theorem Piece.of_split?_many {p : Char → Bool} {cs taken rest : List Char}
    (h : (Piece.many p).split? cs = some (taken, rest)) : ∀ c ∈ taken, p c = true := by
  simp only [Piece.split?, Option.some.injEq, Prod.mk.injEq] at h
  intro c hc
  rw [← h.1] at hc
  exact List.all_eq_true.mp List.all_takeWhile c hc

/-- The patterns of the rules for numbers: with a point, and without. -/
private theorem pattern_of_number : ∀ rule ∈ Rule.all, rule.kind = .number →
    rule.pattern = [.optional isSign, .one Char.isDigit, .many Char.isDigit, .char '.',
      .many Char.isDigit] ∨
    rule.pattern = [.optional isSign, .one Char.isDigit, .many Char.isDigit] := by
  simp [Rule.all, Keyword.all, Rule.ofKeyword]

/-- What the rules for numbers take is a numeral. -/
private theorem exists_isNumeral {rule : Rule} (hrule : rule ∈ Rule.all)
    (hkind : rule.kind = .number)
    {cs taken rest : List Char} (h : rule.split? cs = some (taken, rest)) :
    ∃ sign whole fraction, IsNumeral taken sign whole fraction := by
  have hsplit := Rule.split?_eq_some h
  rcases pattern_of_number rule hrule hkind with hpattern | hpattern
  -- With a point: the pieces are split off one after the other.
  · rw [hpattern] at hsplit
    obtain ⟨sign, _, _, hsign, hrest₁, rfl⟩ := Pattern.exists_of_split?_cons hsplit
    obtain ⟨first, _, _, hfirst, hrest₂, rfl⟩ := Pattern.exists_of_split?_cons hrest₁
    obtain ⟨ds, _, _, hds, hrest₃, rfl⟩ := Pattern.exists_of_split?_cons hrest₂
    obtain ⟨point, _, _, hpoint, hrest₄, rfl⟩ := Pattern.exists_of_split?_cons hrest₃
    obtain ⟨fs, _, _, hfs, hrest₅, rfl⟩ := Pattern.exists_of_split?_cons hrest₄
    obtain ⟨rfl, rfl⟩ := Prod.mk.inj (Option.some.inj hrest₅)
    obtain ⟨d, hd, rfl⟩ := Piece.of_split?_one hfirst
    obtain ⟨c, hc, rfl⟩ := Piece.of_split?_one hpoint
    refine ⟨sign, d :: ds, '.' :: fs, ?_, Piece.of_split?_optional hsign, List.cons_ne_nil _ _,
      ?_, .inr ⟨fs, Piece.of_split?_many hfs, rfl⟩⟩
    · rw [eq_of_beq hc]
      simp
    · exact List.forall_mem_cons.mpr ⟨hd, Piece.of_split?_many hds⟩
  -- Without a point.
  · rw [hpattern] at hsplit
    obtain ⟨sign, _, _, hsign, hrest₁, rfl⟩ := Pattern.exists_of_split?_cons hsplit
    obtain ⟨first, _, _, hfirst, hrest₂, rfl⟩ := Pattern.exists_of_split?_cons hrest₁
    obtain ⟨ds, _, _, hds, hrest₃, rfl⟩ := Pattern.exists_of_split?_cons hrest₂
    obtain ⟨rfl, rfl⟩ := Prod.mk.inj (Option.some.inj hrest₃)
    obtain ⟨d, hd, rfl⟩ := Piece.of_split?_one hfirst
    refine ⟨sign, d :: ds, [], ?_, Piece.of_split?_optional hsign, List.cons_ne_nil _ _, ?_,
      .inl rfl⟩
    · simp
    · exact List.forall_mem_cons.mpr ⟨hd, Piece.of_split?_many hds⟩

namespace Number

/-- A sign is split off, and nothing but a sign. -/
private theorem snd_splitSign {cs sign whole fraction : List Char}
    (h : IsNumeral cs sign whole fraction) : (splitSign cs).2 = whole ++ fraction := by
  obtain ⟨rfl, hsign, hne, hwhole, _⟩ := h
  rcases hsign with rfl | ⟨c, hc, rfl⟩
  -- A digit is no sign.
  · obtain ⟨d, ds, rfl⟩ := List.exists_cons_of_ne_nil hne
    have hd := hwhole d List.mem_cons_self
    simp only [List.nil_append, List.cons_append, splitSign]
    split
    · rename_i heq
      obtain ⟨rfl, _⟩ := List.cons.inj heq
      cases hd
    · rename_i heq
      obtain ⟨rfl, _⟩ := List.cons.inj heq
      cases hd
    · rfl
  · simp only [isSign, Bool.or_eq_true, beq_iff_eq] at hc
    rcases hc with rfl | rfl <;> rfl

/-- Digits with or without a point denote a number. -/
private theorem isSome_readDecimal? {cs sign whole fraction : List Char}
    (h : IsNumeral cs sign whole fraction) : (readDecimal? (whole ++ fraction)).isSome = true := by
  obtain ⟨_, _, hne, hwhole, hfraction⟩ := h
  have hwhole' : whole.isEmpty = false := List.isEmpty_eq_false_iff.mpr hne
  -- The digits before the point are read as far as they go; then a point and digits may follow.
  unfold readDecimal?
  rw [List.takeWhile_append_of_pos hwhole, List.dropWhile_append_of_pos hwhole]
  rcases hfraction with rfl | ⟨ds, hds, rfl⟩
  · simp [hwhole', readExponent?]
  · have hpoint : Char.isDigit '.' = false := rfl
    have hrest : ds.dropWhile Char.isDigit = [] := by
      rw [← List.append_nil ds, List.dropWhile_append_of_pos hds]
      rfl
    simp [hne, hpoint, hrest, readExponent?]

/-- A numeral denotes a number. -/
theorem isSome_read? {text : String} {sign whole fraction : List Char}
    (h : IsNumeral text.toList sign whole fraction) : (read? text).isSome = true := by
  have hdecimal := isSome_readDecimal? h
  simp only [read?, snd_splitSign h, Option.isSome_map, readUnsigned?]
  split
  · rfl
  · split
    · rfl
    · exact hdecimal

end Number

/-- A number that a text starts with is a numeral. -/
theorem exists_isNumeral_of_lexeme {cs : List Char} (hkind : (lexeme cs).kind = .number) :
    ∃ sign whole fraction, IsNumeral (lexeme cs).taken sign whole fraction := by
  obtain ⟨rule, hrule, hrulekind, hsplit⟩ := exists_rule_of_lexeme cs
    (by rw [hkind]; decide) (by rw [hkind]; decide)
  exact exists_isNumeral hrule (hrulekind.trans hkind) hsplit

/-- The characters of a number token denote a number. -/
theorem exists_read_of_number {text : String} {t : Token} (h : t ∈ significantTokens text)
    (hkind : t.kind = .number) : ∃ x, Number.read? t.text = some x := by
  obtain ⟨cs, hcs, hlexeme, htext⟩ := exists_lexeme_of_mem_tokens (List.mem_filter.mp h).1
  obtain ⟨sign, whole, fraction, hnumeral⟩ := exists_isNumeral_of_lexeme (hlexeme ▸ hkind)
  have htoList : t.text.toList = (lexeme cs).taken := by rw [htext, String.toList_ofList]
  rw [← htoList] at hnumeral
  exact Option.isSome_iff_exists.mp (Number.isSome_read? hnumeral)

end LispSession
