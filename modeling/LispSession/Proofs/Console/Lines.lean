import Mathlib.Data.List.Induction
import LispSession.Text.Lines

/-!
# Lines of text

The bytes of a text divide into lines where its characters do: in UTF-8 the bytes of a
newline and of a carriage return occur in no other character. So all lines of the bytes
of a text are text.

* `toList_toUTF8`            the bytes of a text, character by character
* `eq_of_mem_utf8EncodeChar` which bytes occur in one character only
* `Lines`                    how characters divide into lines
* `exists_lines`             the lines of the bytes of a text
-/

namespace LispSession.Text

/-! ### Bytes of characters -/

/-- The bytes of some characters. -/
def bytesOf (xs : List Char) : List UInt8 := xs.flatMap String.utf8EncodeChar

/-- No characters have no bytes. -/
@[simp] theorem bytesOf_nil : bytesOf [] = [] := rfl

/-- The bytes of a text are those of its parts, one after the other. -/
@[simp] theorem bytesOf_append (xs ys : List Char) :
    bytesOf (xs ++ ys) = bytesOf xs ++ bytesOf ys := List.flatMap_append

/-- The bytes of a text are those of its first character and of the others. -/
@[simp] theorem bytesOf_cons (c : Char) (xs : List Char) :
    bytesOf (c :: xs) = String.utf8EncodeChar c ++ bytesOf xs := List.flatMap_cons

/-- The loop that lists the bytes of an array appends those from an index on. -/
private theorem toList_loop (bytes : ByteArray) (i : Nat) (taken : List UInt8) :
    ByteArray.toList.loop bytes i taken = taken.reverse ++ bytes.data.toList.drop i := by
  -- By the number of bytes that the loop has yet to take.
  generalize hn : bytes.size - i = n
  induction n generalizing i taken with
  | zero =>
    have hend : bytes.data.toList.drop i = [] :=
      List.drop_eq_nil_iff.mpr (by rw [Array.length_toList]; exact Nat.le_of_sub_eq_zero hn)
    unfold ByteArray.toList.loop
    rw [if_neg (by omega), hend, List.append_nil]
  | succ n ih =>
    have hlt : i < bytes.data.toList.length := by
      rw [Array.length_toList]
      exact Nat.lt_of_sub_pos (by show 0 < bytes.size - i; omega)
    have hget : bytes.get! i = bytes.data.toList[i] := by
      rw [Array.length_toList] at hlt
      rw [Array.getElem_toList]
      exact getElem!_pos bytes.data i hlt
    unfold ByteArray.toList.loop
    rw [if_pos (by omega), ih _ _ (by omega), List.drop_eq_getElem_cons hlt, hget,
      List.reverse_cons, List.append_assoc]
    rfl

/-- The bytes of a text are those of its characters. -/
theorem toList_toUTF8 (text : String) : text.toUTF8.toList = bytesOf text.toList := by
  rw [String.toUTF8_eq_toByteArray, ← String.utf8Encode_toList, List.utf8Encode, ByteArray.toList,
    toList_loop, List.data_toByteArray, List.reverse_nil, List.nil_append, List.drop_zero]
  rfl

/-- The byte of an ASCII character occurs in no other character. -/
theorem eq_of_mem_utf8EncodeChar {c d : Char} (hd : d.toNat < 128)
    (h : UInt8.ofNat d.toNat ∈ String.utf8EncodeChar c) : c = d := by
  have hbyte : ∀ n, UInt8.ofNat d.toNat = UInt8.ofNat n → n < 256 → d.toNat = n := by
    intro n heq hn
    have hnat := congrArg UInt8.toNat heq
    simp only [UInt8.toNat_ofNat', Nat.reducePow] at hnat
    omega
  have hcode : c.val.toNat = c.toNat := rfl
  unfold String.utf8EncodeChar at h
  simp only at h
  split at h
  · have heq := hbyte _ (List.mem_singleton.mp h) (by omega)
    exact Char.toNat_inj.mp heq.symm
  -- The bytes of longer characters are 128 or more.
  · exfalso
    split at h
    · simp only [List.mem_cons, List.not_mem_nil, or_false] at h
      rcases h with h | h <;> have heq := hbyte _ h (by omega) <;> omega
    · split at h
      · simp only [List.mem_cons, List.not_mem_nil, or_false] at h
        rcases h with h | h | h <;> have heq := hbyte _ h (by omega) <;> omega
      · simp only [List.mem_cons, List.not_mem_nil, or_false] at h
        rcases h with h | h | h | h <;> have heq := hbyte _ h (by omega) <;> omega

/-- The byte of a newline belongs to no other character. -/
private theorem newline_notMem_bytesOf {xs : List Char} (h : '\n' ∉ xs) : newline ∉ bytesOf xs := by
  intro hmem
  obtain ⟨c, hc, hbyte⟩ := List.mem_flatMap.mp hmem
  exact h (eq_of_mem_utf8EncodeChar (d := '\n') (by decide) hbyte ▸ hc)

/-- The bytes of characters are text. -/
private theorem ofBytes?_bytesOf (xs : List Char) :
    ofBytes? (bytesOf xs) = some (String.ofList xs) := by
  have hencode : (⟨(bytesOf xs).toArray⟩ : ByteArray) = xs.utf8Encode := by
    apply ByteArray.ext
    rw [List.utf8Encode, List.data_toByteArray]
    rfl
  -- The bytes are valid as the encoding of these characters, and decode to them.
  have hvalid : (⟨(bytesOf xs).toArray⟩ : ByteArray).IsValidUTF8 := ⟨xs, hencode⟩
  unfold ofBytes? String.fromUTF8?
  rw [dif_pos hvalid]
  refine congrArg some (String.toByteArray_inj.mp ?_)
  rw [String.toByteArray_ofList, ← hencode]
  rfl

/-! ### Lines -/

/-- How characters divide into lines. -/
inductive Lines : List Char → List String → Prop where
  | nil : Lines [] []
  /-- The last line lacks its newline. -/
  | last {xs : List Char} (hne : xs ≠ []) (h : '\n' ∉ xs) : Lines xs [String.ofList xs]
  | newline {xs ys : List Char} {ls : List String} (h : '\n' ∉ xs) (hrest : Lines ys ls) :
    Lines (xs ++ '\n' :: ys) (String.ofList xs :: ls)
  /-- The carriage return belongs to the newline. -/
  | returnNewline {xs ys : List Char} {ls : List String} (h : '\n' ∉ xs) (hrest : Lines ys ls) :
    Lines (xs ++ ['\r'] ++ '\n' :: ys) (String.ofList xs :: ls)

/-- Bytes without a newline belong to one line. -/
private theorem linesFrom_append {bytes : List UInt8} (h : newline ∉ bytes)
    (line rest : List UInt8) :
    linesFrom line (bytes ++ rest) = linesFrom (bytes.reverse ++ line) rest := by
  induction bytes generalizing line with
  | nil => rfl
  | cons b bytes ih =>
    rw [List.mem_cons, not_or] at h
    rw [List.cons_append, linesFrom, if_neg (Ne.symm h.1), ih h.2, List.reverse_cons,
      List.append_assoc]
    rfl

/-- A carriage return at the end of a line is dropped. -/
private theorem endLine_return (xs : List Char) :
    endLine (bytesOf (xs ++ ['\r'])).reverse = bytesOf xs := by
  have hbyte : bytesOf ['\r'] = [carriageReturn] := by decide
  rw [bytesOf_append, hbyte, List.reverse_append]
  simp [endLine]

/-- A line that ends in another character is kept as it is. -/
private theorem endLine_of_ne {xs : List Char} {c : Char} (h : c ≠ '\r') :
    endLine (bytesOf (xs ++ [c])).reverse = bytesOf (xs ++ [c]) := by
  generalize hbytes : (bytesOf (xs ++ [c])).reverse = bytes
  have hreverse : bytesOf (xs ++ [c]) = bytes.reverse := by rw [← hbytes, List.reverse_reverse]
  rw [hreverse]
  cases bytes with
  | nil => rfl
  | cons b line =>
    -- The last byte is one of the last character.
    have hb : b ≠ carriageReturn := by
      rintro rfl
      have hlast := congrArg List.getLast? hreverse
      rw [bytesOf_append, bytesOf_cons, bytesOf_nil, List.append_nil, List.getLast?_append,
        List.reverse_cons, List.getLast?_concat] at hlast
      cases hmem : (String.utf8EncodeChar c).getLast? with
      | none => exact String.utf8EncodeChar_ne_nil (List.getLast?_eq_none_iff.mp hmem)
      | some byte =>
        rw [hmem, Option.some_or, Option.some.injEq] at hlast
        subst hlast
        exact h (eq_of_mem_utf8EncodeChar (d := '\r') (by decide) (List.mem_of_getLast? hmem))
    rw [endLine, if_neg hb]

/-- Where a line ends, it is text. -/
private theorem exists_endLine {xs ys : List Char} {ls : List String} (h : '\n' ∉ xs)
    (hrest : Lines ys ls) :
    ∃ line, Lines (xs ++ '\n' :: ys) (line :: ls) ∧
      ofBytes? (endLine (bytesOf xs).reverse) = some line := by
  -- The last character of the line, if there is one, may be a carriage return.
  rcases List.eq_nil_or_concat xs with rfl | ⟨front, c, rfl⟩
  · exact ⟨"", .newline h hrest, ofBytes?_bytesOf []⟩
  · rw [List.concat_eq_append] at h ⊢
    by_cases hc : c = '\r'
    · subst hc
      refine ⟨_, .returnNewline (fun hmem => h (List.mem_append_left _ hmem)) hrest, ?_⟩
      rw [endLine_return, ofBytes?_bytesOf]
    · exact ⟨_, .newline h hrest, by rw [endLine_of_ne hc, ofBytes?_bytesOf]⟩

/-- The lines of the bytes of a text are the lines of its characters, each of them text. -/
theorem exists_lines (xs : List Char) : ∃ ls, Lines xs ls ∧ lines (bytesOf xs) = ls.map some := by
  -- By lines, from the front.
  generalize hn : xs.length = n
  induction n using Nat.strongRecOn generalizing xs with
  | _ n ih =>
    by_cases hmem : '\n' ∈ xs
    · obtain ⟨front, ys, rfl, hfront⟩ := List.eq_append_cons_of_mem hmem
      have hlength : ys.length < n := by
        rw [List.length_append, List.length_cons] at hn
        omega
      obtain ⟨ls, hls, hlines⟩ := ih ys.length hlength ys rfl
      obtain ⟨line, hline, htext⟩ := exists_endLine hfront hls
      have hbyte : String.utf8EncodeChar '\n' = [newline] := by decide
      refine ⟨line :: ls, hline, ?_⟩
      unfold lines at hlines ⊢
      rw [bytesOf_append, linesFrom_append (newline_notMem_bytesOf hfront), List.append_nil,
        bytesOf_cons, hbyte, List.singleton_append, linesFrom, if_pos rfl, List.map_cons, htext,
        hlines, List.map_cons]
    · by_cases hne : xs = []
      · subst hne
        exact ⟨[], .nil, rfl⟩
      · refine ⟨_, .last hne hmem, ?_⟩
        have hbytes : (bytesOf xs).reverse ≠ [] := by
          obtain ⟨c, rest, rfl⟩ := List.exists_cons_of_ne_nil hne
          simp [String.utf8EncodeChar_ne_nil]
        unfold lines
        rw [← List.append_nil (bytesOf xs), linesFrom_append (newline_notMem_bytesOf hmem),
          List.append_nil, linesFrom, if_neg (by simpa using hbytes), List.reverse_reverse,
          List.map_singleton, ofBytes?_bytesOf, List.map_singleton]

end LispSession.Text
