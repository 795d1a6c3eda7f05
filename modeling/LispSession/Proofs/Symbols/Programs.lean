import LispSession.Proofs.Symbols.Reading

/-!
# Which texts are programs

Whether a text is a program depends on its words alone, and not on the names that the table
holds. So programs may be put together and divided by their words.

* `isProgram_iff`            with any table
* `isProgram_append`         two programs, one after the other
* `isProgram_of_append`      what is left of a program after a program
* `isIncomplete_of_append`   what is left of a program before its end
-/

namespace LispSession

open Assembly

/-- The text is a program. -/
def IsProgram (text : String) : Prop := ∃ program, (readProgram .empty text).program = .ok program

instance (text : String) : Decidable (IsProgram text) :=
  match h : (readProgram .empty text).program with
  | .ok program => .isTrue ⟨program, h⟩
  | .error _ => .isFalse fun ⟨_, hprogram⟩ => nomatch h.symm.trans hprogram

/-- Whether a text is a program does not depend on the names that the table holds. -/
theorem isProgram_iff (t : SymbolTable) {text : String} :
    IsProgram text ↔ ∃ program, (readProgram t text).program = .ok program := by
  unfold IsProgram
  rcases (readProgram_alike .empty t text).2 with
    ⟨e, herror, herror'⟩ | ⟨program, program', hprogram, hprogram', _⟩
  · simp [herror, herror']
  · simp [hprogram, hprogram']

/-- What is read from a program. -/
theorem IsProgram.exists_read {text : String} (h : IsProgram text) (t : SymbolTable) :
    ∃ program u, readProgram t text = ⟨.ok program, u⟩ := by
  obtain ⟨program, hprogram⟩ := (isProgram_iff t).mp h
  exact ⟨program, (readProgram t text).symbols, by rw [← hprogram]⟩

/-- Two programs, one after the other, are a program. -/
theorem isProgram_append {whole first second : String}
    (hwords : words whole.toList = words first.toList ++ words second.toList)
    (hfirst : IsProgram first) (hsecond : IsProgram second) : IsProgram whole := by
  obtain ⟨es, t₁, hread₁⟩ := hfirst.exists_read .empty
  obtain ⟨fs, u₂, hread₂⟩ := hsecond.exists_read .empty
  obtain ⟨fs', u, hread, _⟩ := readProgram_append hwords hread₁ hread₂
  exact ⟨es ++ fs', by rw [hread]⟩

/-- What is left of a program after a program is one. -/
theorem isProgram_of_append {whole first second : String}
    (hwords : words whole.toList = words first.toList ++ words second.toList)
    (hwhole : IsProgram whole) (hfirst : IsProgram first) : IsProgram second := by
  obtain ⟨all, u, hall⟩ := exists_program_iff.mp hwhole
  obtain ⟨es, t, hes⟩ := exists_program_iff.mp hfirst
  rw [hwords, feeds_append_iff] at hall
  obtain ⟨a, ha, hrest⟩ := hall
  -- The words of the first program lead to one assembly only, from which the rest is read.
  obtain rfl := hes.unique ha
  exact exists_program_iff.mpr (hrest.fresh .empty)

/-- Whether a text is a program depends on its words alone. -/
theorem isProgram_congr {text text' : String} (h : words text.toList = words text'.toList) :
    IsProgram text ↔ IsProgram text' := by
  unfold IsProgram
  rw [exists_program_iff, exists_program_iff, h]

/-- If words that come before others in a program are none by themselves, their error is
    incomplete. -/
theorem isIncomplete_of_append {whole first : String} {more : List Token}
    (hwords : words whole.toList = words first.toList ++ more) (hwhole : IsProgram whole)
    {t : SymbolTable} {e : ParseError} (h : (readProgram t first).program = .error e) :
    e.isIncomplete = true := by
  rcases of_readProgram_error h with ⟨hincomplete, _⟩ | ⟨_, before, rest, a, hfirst, ha, hstep⟩
  · exact hincomplete
  -- A word that does not fit is no better with more words after it.
  · obtain ⟨program, u, hread⟩ := hwhole.exists_read t
    have hfeeds := readProgram_eq_ok_iff.mp hread
    rw [hwords, hfirst, List.append_assoc, List.cons_append] at hfeeds
    exact absurd hfeeds (not_feeds_of_step ha hstep)

end LispSession
