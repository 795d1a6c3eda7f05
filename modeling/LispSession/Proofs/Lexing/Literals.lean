import LispSession.Proofs.Lexing.Bytes

/-!
# Reading literals

The value of a literal is taken from its token without a second look at the characters: what a
number token has is read as a number, and what a string token has between its first and last byte
is the string. Both always succeed, because the rules yield no other tokens of these kinds.

* `Token.Readable`               what the reading of a literal relies on
* `readable_of_lexeme`           the rules yield it
* `Assembly.step_ne_unreadable`  so no number is refused as unreadable
* `literals_readable`            nothing fails in the reading of literals
-/

namespace LispSession

/-- What the reading of a literal relies on. -/
structure Token.Readable (t : Token) : Prop where
  /-- A number has digits after an optional sign, maybe with a point, and denotes a number. -/
  number : t.kind = .number →
    (∃ sign whole fraction, IsNumeral t.text.toList sign whole fraction) ∧
      ∃ x, Number.read? t.text = some x
  /-- A string has quotation marks around it and nowhere else, and the slice between its first and
      last byte has the characters between them. -/
  string : t.kind = .string →
    ∃ inner : String, t.text = "\"" ++ inner ++ "\"" ∧ 2 ≤ t.text.length ∧
      '"' ∉ inner.toList ∧ Text.slice? t.text 1 (t.text.utf8ByteSize - 1) = some inner ∧
      Assembly.unquote t.text = inner

/-- The characters between the first and the last byte of a string are a slice. -/
private theorem Text.slice?_quoted (inner : String) :
    slice? ("\"" ++ inner ++ "\"") 1 (("\"" ++ inner ++ "\"").utf8ByteSize - 1) = some inner := by
  have hmark : "\"".utf8ByteSize = 1 := rfl
  refine slice?_eq_some_iff.mpr ⟨"\"", "\"", String.append_assoc .., rfl, ?_⟩
  rw [String.utf8ByteSize_append, String.utf8ByteSize_append, hmark]
  omega

/-- What stands between two quotes is what they quote. -/
private theorem Assembly.unquote_quoted (inner : String) :
    unquote ("\"" ++ inner ++ "\"") = inner := by
  have hmark : "\"".toList = ['"'] := rfl
  simp [unquote, String.toList_append, hmark]

/-- A token with the characters of a lexeme is readable. -/
theorem readable_of_lexeme {t : Token} {cs : List Char} (hkind : t.kind = (lexeme cs).kind)
    (htext : t.text = String.ofList (lexeme cs).taken) : t.Readable where
  number hnumber := by
    -- The characters of a number are an optional sign, digits, and an optional fraction.
    obtain ⟨sign, whole, fraction, hnumeral⟩ := exists_isNumeral_of_lexeme (hkind ▸ hnumber)
    have htoList : t.text.toList = (lexeme cs).taken := by rw [htext, String.toList_ofList]
    rw [← htoList] at hnumeral
    exact ⟨⟨sign, whole, fraction, hnumeral⟩,
      Option.isSome_iff_exists.mp (Number.isSome_read? hnumeral)⟩
  string hstring := by
    -- The characters of a string are two quotes around others.
    obtain ⟨inner, hinner, htaken⟩ := exists_quoted_of_lexeme (hkind ▸ hstring)
    have hquoted : t.text = "\"" ++ String.ofList inner ++ "\"" := by
      rw [htext, htaken]
      apply String.toList_injective
      simp
    refine ⟨String.ofList inner, hquoted, ?_, by rwa [String.toList_ofList], ?_, ?_⟩
    · rw [htext, htaken, String.length_ofList, List.length_cons, List.length_append,
        List.length_singleton]
      omega
    · rw [hquoted]
      exact Text.slice?_quoted _
    · rw [hquoted]
      exact Assembly.unquote_quoted _

/-- The tokens of a text are readable, and so is the end of the input after them. -/
private theorem readable_of_mem_tokens {text : String} {t : Token} (h : t ∈ tokens text) :
    t.Readable := by
  obtain ⟨cs, -, hkind, htext⟩ := exists_lexeme_of_mem_tokens h
  exact readable_of_lexeme hkind htext

/-- The end of the input is neither a number nor a string. -/
private theorem readable_endToken (text : String) : (endToken text).Readable where
  number h := by rw [kind_endToken] at h; cases h
  string h := by rw [kind_endToken] at h; cases h

namespace Cursor

/-- The next token is readable if it is a number or a string. -/
private theorem readable_next (c : Cursor) : c.next.1.Readable := readable_of_lexeme rfl rfl

/-- The next significant token is readable if it is a number or a string. -/
private theorem readable_nextSignificant (c : Cursor) : c.nextSignificant.1.Readable := by
  fun_induction nextSignificant c with
  | case1 c step htrivia ih => exact ih
  | case2 c step htrivia => exact c.readable_next

/-- A token ahead is readable if it is a number or a string. -/
private theorem readable_peek (c : Cursor) (k : Nat) : (c.peek k).Readable := by
  induction k generalizing c with
  | zero => exact c.readable_nextSignificant
  | succ k ih => exact ih _

end Cursor

/-! ### Parse errors -/

namespace Assembly

/-- The end of a form is never refused as an unreadable number. -/
private theorem close_ne_unreadable (a : Assembly) : a.close ≠ .error .unreadableNumber := by
  unfold close
  split <;> exact nofun

variable {t : Token} (ht : t.Readable)

include ht

/-- The literal of a readable token is not refused as an unreadable number. -/
private theorem literal_ne_unreadable (a : Assembly) : a.literal t ≠ .error .unreadableNumber := by
  unfold literal
  split
  · exact nofun
  · exact nofun
  · exact nofun
  · rename_i hkind
    obtain ⟨x, hx⟩ := (ht.number hkind).2
    rw [hx]
    exact nofun
  · exact nofun

/-- Where an expression is expected, a readable token is not refused as unreadable. -/
private theorem stepExpression_ne_unreadable (a : Assembly) :
    a.stepExpression t ≠ .error .unreadableNumber := by
  unfold stepExpression
  split
  · split <;> exact nofun
  · split
    -- The four kinds of literals.
    iterate 4
      · split
        · exact nofun
        · rename_i misfit hmisfit
          exact fun h => literal_ne_unreadable ht a (Except.error.inj h ▸ hmisfit)
    · exact nofun
    · exact nofun
    · exact close_ne_unreadable a
    · exact nofun

/-- In quoted data a readable token is not refused as unreadable. -/
private theorem stepItem_ne_unreadable (a : Assembly) (taken : List Literal)
    (outer : List (List Literal)) : a.stepItem taken outer t ≠ .error .unreadableNumber := by
  unfold stepItem
  split
  · exact nofun
  · split <;> exact nofun
  · split
    · exact nofun
    · rename_i misfit hmisfit
      exact fun h => literal_ne_unreadable ht a (Except.error.inj h ▸ hmisfit)

/-- No readable token is refused as an unreadable number. -/
theorem step_ne_unreadable (a : Assembly) : a.step t ≠ .error .unreadableNumber := by
  unfold step
  -- One case for each thing that can be expected; only two of them read literals.
  split
  · exact stepExpression_ne_unreadable ht a
  · unfold stepHead
    split <;> exact nofun
  · split <;> exact nofun
  · split <;> exact nofun
  · split <;> exact nofun
  · split <;> exact nofun
  · split <;> exact nofun
  · unfold stepParam
    split
    · exact nofun
    · simp only
      split <;> exact nofun
    · exact nofun
  · split <;> exact nofun
  · exact stepItem_ne_unreadable ht a _ _

end Assembly

/-- No text is refused for a number that cannot be read. -/
private theorem readProgram_ne_unreadable {symbols : SymbolTable} {text : String} {e : ParseError}
    (h : (readProgram symbols text).program = .error e) : e.misfit ≠ .unreadableNumber := by
  obtain ⟨accepted, rest, a, hsplit, -, hmisfit⟩ := readProgram_refuses h
  have hmem : e.token ∈ significantTokens text ++ [endToken text] := by
    rw [hsplit]
    exact List.mem_append_right _ List.mem_cons_self
  -- The token that is refused is one of the text, or its end.
  have hreadable : e.token.Readable := by
    rcases List.mem_append.mp hmem with hmem | hmem
    · exact readable_of_mem_tokens (List.mem_filter.mp hmem).1
    · rw [List.mem_singleton.mp hmem]
      exact readable_endToken text
  exact fun heq => Assembly.step_ne_unreadable hreadable a (heq ▸ hmisfit)

/-! ### Reading -/

/-- A cursor by bytes stands between characters, and from there each mode of reading yields the
    token that it yields by characters, which is readable. -/
structure ByteCursor.Sound (b : ByteCursor) (c : Cursor) : Prop where
  isValid : (⟨b.offset⟩ : String.Pos.Raw).IsValid b.text
  next : b.next? = some (c.next.1, ofCursor b.text c.next.2) ∧ c.next.1.Readable
  nextSignificant : b.nextSignificant? =
    some (c.nextSignificant.1, ofCursor b.text c.nextSignificant.2) ∧ c.nextSignificant.1.Readable
  peek : ∀ k, b.peek? k = some (c.peek k) ∧ (c.peek k).Readable

/-- At every place of a text the byte cursor gives the tokens of the cursor, all readable. -/
private theorem Cursor.At.sound {c : Cursor} {text : String} {passed : List Char}
    (h : c.At text passed) : (ByteCursor.ofCursor text c).Sound c where
  isValid := ByteCursor.isValid_ofCursor passed h
  next := ⟨ByteCursor.next?_ofCursor passed h, c.readable_next⟩
  nextSignificant := ⟨ByteCursor.nextSignificant?_ofCursor passed h, c.readable_nextSignificant⟩
  peek k := ⟨ByteCursor.peek?_ofCursor passed h k, c.readable_peek k⟩

/-- The reading of literals never fails. The significant tokens of a text that are literals are
    readable, and no parse error is about an unreadable number. After any moves, in any modes, a
    cursor by bytes stands between characters of the text and can go on: no slice is taken from or
    to any other place. -/
theorem literals_readable (text : String) :
    (∀ t ∈ significantTokens text, t.Readable) ∧
    (∀ symbols e, (readProgram symbols text).program = .error e →
      e.misfit ≠ .unreadableNumber) ∧
    ∀ moves : List Cursor.Move, ∃ b : ByteCursor,
      moves.foldlM ByteCursor.moved? (.start text) = some b ∧ b.text = text ∧
      b.Sound (moves.foldl Cursor.moved (.start text)) := by
  refine ⟨fun t ht => readable_of_mem_tokens (List.mem_filter.mp ht).1,
    fun symbols e => readProgram_ne_unreadable, fun moves => ?_⟩
  -- By characters a cursor is always somewhere in the text, and by bytes it is there, too.
  have hstart := Cursor.at_start text
  obtain ⟨passed, hat⟩ := (Cursor.start text).exists_at_moves [] hstart moves
  have hmoves := ByteCursor.foldlM_moved? [] hstart moves
  rw [ByteCursor.ofCursor_start] at hmoves
  exact ⟨_, hmoves, rfl, hat.sound⟩

end LispSession
