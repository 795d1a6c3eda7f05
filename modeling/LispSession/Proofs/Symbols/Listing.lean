import LispSession.Symbol

/-!
# The listing of a symbol table

A listing shows which names a table holds, and in which order, without any doubt: a quoted
text tells by itself where each of its characters begins and ends, and where it ends itself.

* `Text.Written.append_inj`        a character as it is written ends where it says
* `Text.quoted_append_inj`         so does a quoted text
* `Text.quotedList_inj`            a list of quoted texts determines the texts
* `SymbolTable.listing_inj`        a listing determines the table
-/

namespace LispSession

namespace Text

/-! ### Code points -/

/-- Different hexadecimal digits are different characters. -/
private theorem digitChar_inj : ∀ d < 16, ∀ e < 16, d.digitChar = e.digitChar → d = e := by
  decide

/-- A brace is no hexadecimal digit. -/
private theorem digitChar_ne_brace : ∀ d < 16, d.digitChar ≠ '\x7d' := by
  decide

/-- The digits of a number hold no brace. -/
private theorem brace_notMem_toDigits (n : Nat) : '\x7d' ∉ Nat.toDigits 16 n := by
  -- Along the digits, from the last one.
  induction n using Nat.strongRecOn with
  | ind n ih =>
    rw [Nat.toDigits_eq_if (by decide)]
    split
    · rename_i hlt
      exact fun hmem => digitChar_ne_brace n hlt (List.mem_singleton.mp hmem).symm
    · intro hmem
      rcases List.mem_append.mp hmem with hmem | hmem
      · exact ih (n / 16) (by omega) hmem
      · exact digitChar_ne_brace (n % 16) (by omega) (List.mem_singleton.mp hmem).symm

/-- A number is determined by its hexadecimal digits. -/
private theorem toDigits_inj {m n : Nat} (h : Nat.toDigits 16 m = Nat.toDigits 16 n) :
    m = n := by
  -- The last digits are equal, and so are the numbers that the others are the digits of.
  induction m using Nat.strongRecOn generalizing n with
  | ind m ih =>
    simp only [Nat.toDigits_eq_if (b := 16) (n := m) (by decide),
      Nat.toDigits_eq_if (b := 16) (n := n) (by decide)] at h
    split at h <;> split at h
    · rename_i hm hn
      exact digitChar_inj m hm n hn (List.singleton_inj.mp h)
    · exact absurd (congrArg List.length h) (by simp [Nat.toDigits_ne_nil])
    · exact absurd (congrArg List.length h) (by simp [Nat.toDigits_ne_nil])
    · obtain ⟨hleading, hlast⟩ := List.append_inj' h rfl
      have hquot := ih (m / 16) (by omega) hleading
      have hrem := digitChar_inj _ (by omega) _ (by omega) (List.singleton_inj.mp hlast)
      omega

/-- An escaped code point ends with its closing brace. -/
private theorem codeEscape_append_inj {a b : Char} {s t : List Char}
    (h : codeEscape a ++ s = codeEscape b ++ t) : a = b ∧ s = t := by
  simp only [codeEscape, List.append_assoc, List.append_cancel_left_eq, List.singleton_append] at h
  -- The digits are what stands before the first brace.
  have hbefore : ∀ (n : Nat) (rest : List Char),
      (Nat.toDigits 16 n ++ '\x7d' :: rest).takeWhile (· != '\x7d') = Nat.toDigits 16 n := by
    intro n rest
    rw [List.takeWhile_append_of_pos]
    · simp
    · intro c hc
      exact bne_iff_ne.mpr fun heq => brace_notMem_toDigits n (heq ▸ hc)
  have hdigits : Nat.toDigits 16 a.toNat = Nat.toDigits 16 b.toNat := by
    rw [← hbefore a.toNat s, h, hbefore]
  rw [hdigits] at h
  exact ⟨Char.toNat_inj.mp (toDigits_inj hdigits), (List.cons.inj (List.append_cancel_left h)).2⟩

/-! ### Characters -/

/-- The characters that are written with a backslash and a letter, each after its letter. -/
private def letters : List (Char × Char) :=
  [('"', '"'), ('\\', '\\'), ('n', '\n'), ('t', '\t'), ('r', '\r'), ('0', '\x00')]

/-- A letter stands for one character, and is not the one that announces a code point. -/
private theorem letters_functional : ∀ p ∈ letters, p.1 ≠ 'u' ∧
    ∀ q ∈ letters, p.1 = q.1 → p.2 = q.2 := by
  decide

/-- The ways in which a character may be written between quotes. -/
inductive Written (c : Char) : List Char → Prop where
  | itself (hquote : c ≠ '"') (hbackslash : c ≠ '\\') : Written c [c]
  | letter {x : Char} (h : (x, c) ∈ letters) : Written c ['\\', x]
  | code : Written c (codeEscape c)

/-- Quoting writes a character in one of these ways. -/
private theorem written_quoteChar (c : Char) : Written c (quoteChar c) := by
  unfold quoteChar
  split
  case h_7 hquote hbackslash _ _ _ _ =>
    split
    · exact .itself hquote hbackslash
    · exact .code
  all_goals exact .letter (by decide)

/-- A character as it is written tells where it ends, whatever follows it. -/
theorem Written.append_inj {a b : Char} {v w s t : List Char} (ha : Written a v)
    (hb : Written b w) (h : v ++ s = w ++ t) : a = b ∧ s = t := by
  -- One case for each pair of ways; two different ways already differ in the first two characters.
  cases ha with
  | itself _ hbackslash =>
    cases hb with
    | itself => exact List.cons.inj h
    | letter => exact absurd (List.cons.inj h).1 hbackslash
    | code => exact absurd (List.cons.inj h).1 hbackslash
  | letter hletter =>
    cases hb with
    | itself _ hbackslash => exact absurd (List.cons.inj h).1.symm hbackslash
    | letter hother =>
      obtain ⟨hsame, hrest⟩ := List.cons.inj (List.cons.inj h).2
      exact ⟨(letters_functional _ hletter).2 _ hother hsame, hrest⟩
    | code => exact absurd (List.cons.inj (List.cons.inj h).2).1 (letters_functional _ hletter).1
  | code =>
    cases hb with
    | itself _ hbackslash => exact absurd (List.cons.inj h).1.symm hbackslash
    | letter hletter =>
      exact absurd (List.cons.inj (List.cons.inj h).2).1.symm (letters_functional _ hletter).1
    | code => exact codeEscape_append_inj h

/-- No character is written with a quote at its beginning. -/
private theorem Written.exists_cons {c : Char} {w : List Char} (h : Written c w) :
    ∃ d ds, w = d :: ds ∧ d ≠ '"' := by
  cases h with
  | itself hquote => exact ⟨c, [], rfl, hquote⟩
  | letter => exact ⟨'\\', _, rfl, by decide⟩
  | code => exact ⟨'\\', _, rfl, by decide⟩

/-! ### Texts -/

/-- The characters of a quoted text are determined up to its closing quote. -/
private theorem flatMap_quoteChar_append_inj {cs ds s t : List Char}
    (h : cs.flatMap quoteChar ++ '"' :: s = ds.flatMap quoteChar ++ '"' :: t) :
    cs = ds ∧ s = t := by
  -- Character by character; a quote is never the beginning of one.
  induction cs generalizing ds with
  | nil =>
    cases ds with
    | nil => exact ⟨rfl, (List.cons.inj h).2⟩
    | cons d ds =>
      obtain ⟨e, es, hwritten, hne⟩ := (written_quoteChar d).exists_cons
      rw [List.flatMap_cons, hwritten] at h
      exact absurd (List.cons.inj h).1.symm hne
  | cons c cs ih =>
    cases ds with
    | nil =>
      obtain ⟨e, es, hwritten, hne⟩ := (written_quoteChar c).exists_cons
      rw [List.flatMap_cons, hwritten] at h
      exact absurd (List.cons.inj h).1 hne
    | cons d ds =>
      rw [List.flatMap_cons, List.flatMap_cons, List.append_assoc, List.append_assoc] at h
      obtain ⟨rfl, hrest⟩ := (written_quoteChar c).append_inj (written_quoteChar d) h
      obtain ⟨rfl, rfl⟩ := ih hrest
      exact ⟨rfl, rfl⟩

/-- A quoted text tells where it ends, whatever follows it. -/
theorem quoted_append_inj {a b : String} {s t : List Char}
    (h : (quoted a).toList ++ s = (quoted b).toList ++ t) : a = b ∧ s = t := by
  simp only [quoted, String.toList_ofList, List.cons_append, List.append_assoc,
    List.nil_append] at h
  obtain ⟨hchars, hrest⟩ := flatMap_quoteChar_append_inj (List.cons.inj h).2
  exact ⟨String.toList_inj.mp hchars, hrest⟩

/-! ### Lists of texts -/

/-- What stands between two texts of a list. -/
private def separator : List Char := [',', ' ']

/-- The texts after the first one stand each after a separator. -/
private theorem intercalate_cons (xs : List Char) (rest : List (List Char)) :
    separator.intercalate (xs :: rest) = xs ++ rest.flatMap (separator ++ ·) := by
  induction rest generalizing xs with
  | nil => simp
  | cons ys rest ih =>
    rw [List.intercalate_cons_cons, ih, List.flatMap_cons, List.append_assoc, List.append_assoc]

/-- The texts after the first one are determined up to the closing bracket. -/
private theorem flatMap_separator_inj {texts others : List String}
    (h : (texts.map fun a => (quoted a).toList).flatMap (separator ++ ·) ++ [']'] =
      (others.map fun a => (quoted a).toList).flatMap (separator ++ ·) ++ [']']) :
    texts = others := by
  -- Text by text; the bracket is not the beginning of a separator.
  induction texts generalizing others with
  | nil =>
    cases others with
    | nil => rfl
    | cons b others => exact absurd (List.cons.inj h).1 (by decide)
  | cons a texts ih =>
    cases others with
    | nil => exact absurd (List.cons.inj h).1 (by decide)
    | cons b others =>
      simp only [List.map_cons, List.flatMap_cons, List.append_assoc,
        List.append_cancel_left_eq] at h
      obtain ⟨rfl, hrest⟩ := quoted_append_inj h
      rw [ih hrest]

/-- The characters of a list of quoted texts. -/
private theorem toList_quotedList (texts : List String) :
    (quotedList texts).toList =
      '[' :: (separator.intercalate (texts.map fun a => (quoted a).toList) ++ [']']) := by
  simp [quotedList, separator, String.toList_intercalate, Function.comp_def]

/-- Texts are determined by their list of quoted texts. -/
theorem quotedList_inj {texts others : List String} (h : quotedList texts = quotedList others) :
    texts = others := by
  have hchars := congrArg String.toList h
  rw [toList_quotedList, toList_quotedList] at hchars
  replace hchars := (List.cons.inj hchars).2
  -- A list without texts ends where another one has its first quote.
  cases texts with
  | nil =>
    cases others with
    | nil => rfl
    | cons b others =>
      rw [List.map_cons, intercalate_cons, List.append_assoc] at hchars
      simp [quoted] at hchars
  | cons a texts =>
    cases others with
    | nil =>
      rw [List.map_cons, intercalate_cons, List.append_assoc] at hchars
      simp [quoted] at hchars
    | cons b others =>
      rw [List.map_cons, List.map_cons, intercalate_cons, intercalate_cons, List.append_assoc,
        List.append_assoc] at hchars
      obtain ⟨rfl, hrest⟩ := quoted_append_inj hchars
      rw [flatMap_separator_inj hrest]

end Text

/-- A table is determined by its listing: the names it holds, and their order. -/
theorem SymbolTable.listing_inj {table other : SymbolTable} (h : table.listing = other.listing) :
    table = other := by
  obtain ⟨names⟩ := table
  obtain ⟨others⟩ := other
  rw [mk.injEq]
  exact Array.toList_inj.mp (Text.quotedList_inj h)

/-- The names stand in the order in which they were met, a tab and a quote in one escaped. -/
example : ((SymbolTable.empty.intern "car").2.intern "c\td\"r").2.listing =
    "[\"car\", \"c\\td\\\"r\"]" := by
  cbv

end LispSession
