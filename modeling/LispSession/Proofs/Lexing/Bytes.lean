import LispSession.Proofs.Lexing.Positions

/-!
# Reading by bytes

A cursor may also hold the whole text and the number of bytes before it, and take what follows,
and each token, as slices of the text. Bytes may be counted to the middle of a character, or past
the end of the text, and there is no slice from or to such a place. Reading by bytes never comes
to one: it does what reading characters does.

* `Text.slice?_eq_some_iff`    where there is a slice
* `ByteCursor.next?_ofCursor`  the next token by bytes is the next token
* `ByteCursor.foldlM_moved?`   so wherever reading gets to by bytes it gets by characters
-/

namespace LispSession

namespace Text

/-- The part of a text between two numbers of bytes, if both are counted to places between
    characters, and the first to no later one. -/
def slice? (text : String) (i j : Nat) : Option String :=
  if h : (⟨i⟩ : String.Pos.Raw).IsValid text ∧ (⟨j⟩ : String.Pos.Raw).IsValid text ∧ i ≤ j then
    some (text.slice ⟨⟨i⟩, h.1⟩ ⟨⟨j⟩, h.2.1⟩ h.2.2).copy
  else none

/-- There are slices between the parts of a text, and no others. -/
theorem slice?_eq_some_iff {text middle : String} {i j : Nat} :
    slice? text i j = some middle ↔ ∃ before after, text = before ++ (middle ++ after) ∧
      i = before.utf8ByteSize ∧ j = before.utf8ByteSize + middle.utf8ByteSize := by
  constructor
  · intro h
    unfold slice? at h
    split at h
    · rename_i hplaces
      obtain ⟨before, after, hfirst, hlast⟩ :=
        String.copy_slice_eq_iff_splits.mp ⟨hplaces.2.2, Option.some.inj h⟩
      have hi := congrArg String.Pos.Raw.byteIdx hfirst.offset_eq_rawEndPos
      have hj := congrArg String.Pos.Raw.byteIdx hlast.offset_eq_rawEndPos
      simp only [String.byteIdx_rawEndPos, String.utf8ByteSize_append] at hi hj
      exact ⟨before, after, hfirst.eq_append, hi, hj⟩
    · cases h
  · rintro ⟨before, after, rfl, rfl, rfl⟩
    -- Both places are where one part ends and the next one begins.
    have hfirst : (⟨before.utf8ByteSize⟩ : String.Pos.Raw).IsValid (before ++ (middle ++ after)) :=
      String.Pos.Raw.isValid_iff_exists_append.mpr ⟨before, middle ++ after, rfl, rfl⟩
    have hlast : (⟨before.utf8ByteSize + middle.utf8ByteSize⟩ : String.Pos.Raw).IsValid
        (before ++ (middle ++ after)) :=
      String.Pos.Raw.isValid_iff_exists_append.mpr ⟨before ++ middle, after,
        (String.append_assoc ..).symm, by simp [String.Pos.Raw.ext_iff]⟩
    obtain ⟨hle, hcopy⟩ := String.copy_slice_eq_iff_splits.mpr ⟨before, after,
      (⟨rfl, rfl⟩ : (⟨_, hfirst⟩ : String.Pos _).Splits before (middle ++ after)),
      (⟨(String.append_assoc ..).symm, by simp [String.Pos.Raw.ext_iff]⟩ :
        (⟨_, hlast⟩ : String.Pos _).Splits (before ++ middle) after)⟩
    unfold slice?
    rw [dif_pos ⟨hfirst, hlast, Nat.le_add_right _ _⟩, hcopy]

example : slice? "λx" 2 3 = some "x" ∧ slice? "λx" 1 3 = none := by decide +kernel

/-- The part of a text that follows a number of bytes. -/
def sliceFrom? (text : String) (i : Nat) : Option String := slice? text i text.utf8ByteSize

/-- What is left of a text after its first part, by the bytes of that part. -/
private theorem sliceFrom?_ofList (before after : List Char) :
    sliceFrom? (String.ofList (before ++ after)) (String.ofList before).utf8ByteSize =
      some (String.ofList after) := by
  refine slice?_eq_some_iff.mpr ⟨String.ofList before, "", ?_, rfl, ?_⟩
  · rw [String.append_empty, String.ofList_append]
  · rw [String.ofList_append, String.utf8ByteSize_append]

/-- The part of a text that a number of bytes makes up. -/
def sliceTo? (text : String) (j : Nat) : Option String := slice? text 0 j

/-- The first part of a text, by its bytes. -/
private theorem sliceTo?_ofList (before after : List Char) :
    sliceTo? (String.ofList (before ++ after)) (String.ofList before).utf8ByteSize =
      some (String.ofList before) := by
  refine slice?_eq_some_iff.mpr ⟨"", String.ofList after, ?_, rfl, ?_⟩
  · rw [String.empty_append, String.ofList_append]
  · rw [String.utf8ByteSize_empty, Nat.zero_add]

end Text

/-! ### Cursors by bytes -/

/-- A place in a text: the number of bytes before it, and where it is. -/
structure ByteCursor where
  text : String
  offset : Nat
  position : Position

namespace ByteCursor

open Text

/-- The place before the first character of a text. -/
def start (text : String) : ByteCursor := ⟨text, 0, .start⟩

/-- The kind and the characters of the first token of a text, found by the first of some rules
    that applies. Nothing, if there is no slice where one is taken. -/
def firstToken? (rest : String) (first : Char) : List Rule → Option (TokenKind × String)
  | [] => do
    let single ← sliceTo? rest first.utf8Size
    some (.unrecognized, single)
  | rule :: rules =>
    match rule.pattern.split? rest.toList with
    | none => firstToken? rest first rules
    | some (taken, _) => do
      let found ← sliceTo? rest (String.ofList taken).utf8ByteSize
      if rule.wholeWord then
        let follows ← sliceFrom? rest found.utf8ByteSize
        if follows.toList.head?.any isSymbolChar then firstToken? rest first rules
        else some (rule.kind, found)
      else some (rule.kind, found)

/-- The kind and the characters of the next token. An empty rest has only its end. -/
def nextRaw? (c : ByteCursor) : Option (TokenKind × String) := do
  let rest ← sliceFrom? c.text c.offset
  match rest.toList with
  | [] => some (.endOfInput, "")
  | first :: _ => firstToken? rest first Rule.all

/-- The next token of any kind, and the place after it. -/
def next? (c : ByteCursor) : Option (Token × ByteCursor) := do
  let (kind, found) ← c.nextRaw?
  let last := c.position.after found.toList
  some (⟨kind, found, c.position, last⟩, ⟨c.text, c.offset + found.utf8ByteSize, last⟩)

/-! ### The next token -/

/-- The first token by bytes is the one that the rules find. -/
private theorem firstToken?_eq (c : Char) (cs : List Char) (rules : List Rule) :
    firstToken? (String.ofList (c :: cs)) c rules =
      match firstLexeme? rules (c :: cs) with
      | some found => some (found.kind, String.ofList found.taken)
      | none => some (.unrecognized, String.ofList [c]) := by
  -- By induction on the rules that are still to be tried.
  induction rules with
  | nil =>
    have hsize : (String.ofList [c]).utf8ByteSize = c.utf8Size := by
      rw [← String.singleton_eq_ofList, String.utf8ByteSize_singleton]
    have hsingle := sliceTo?_ofList [c] cs
    rw [hsize, List.singleton_append] at hsingle
    simp only [firstToken?, hsingle]
    rfl
  | cons rule rules ih =>
    simp only [firstToken?, String.toList_ofList]
    cases hsplit : rule.pattern.split? (c :: cs) with
    | none =>
      have hrule : rule.split? (c :: cs) = none := by simp only [Rule.split?, hsplit]
      simp only [firstLexeme?_cons, hrule, ih]
    | some parts =>
      obtain ⟨taken, rest⟩ := parts
      -- What the pattern takes, and what follows it, are slices.
      have happend := Pattern.split?_append hsplit
      have hfound := sliceTo?_ofList taken rest
      have hfollows := sliceFrom?_ofList taken rest
      rw [happend] at hfound hfollows
      have hrule : rule.split? (c :: cs) =
          if rule.wholeWord && rest.head?.any isSymbolChar then none else some (taken, rest) := by
        simp only [Rule.split?, hsplit]
      simp only [firstLexeme?_cons, hrule, hfound, hfollows, ih, Option.bind_eq_bind,
        Option.bind_some, String.toList_ofList]
      -- A whole word must not go on; if it does, the other rules are tried.
      cases rule.wholeWord with
      | false => rfl
      | true =>
        cases rest.head?.any isSymbolChar with
        | false => rfl
        | true => rfl

/-- The next token is the first lexeme of the slice that follows. -/
private theorem nextRaw?_eq {c : ByteCursor} {rest : List Char}
    (h : sliceFrom? c.text c.offset = some (String.ofList rest)) :
    c.nextRaw? = some ((lexeme rest).kind, String.ofList (lexeme rest).taken) := by
  simp only [nextRaw?, h, Option.bind_eq_bind, Option.bind_some, String.toList_ofList]
  cases rest with
  | nil => rfl
  | cons first rest =>
    simp only [firstToken?_eq, lexeme]
    cases firstLexeme? Rule.all (first :: rest) <;> rfl

/-- Trivia has bytes, which are passed. -/
private theorem remaining_lt {c c' : ByteCursor} {t : Token} (h : c.next? = some (t, c'))
    (htrivia : t.kind.isTrivia = true) :
    c'.text.utf8ByteSize - c'.offset < c.text.utf8ByteSize - c.offset := by
  cases hrest : sliceFrom? c.text c.offset with
  | none => simp [next?, nextRaw?, hrest] at h
  | some rest =>
    obtain ⟨before, after, -, hoffset, hsize⟩ := slice?_eq_some_iff.mp hrest
    rw [← String.ofList_toList (s := rest)] at hrest
    simp only [next?, nextRaw?_eq hrest, Option.bind_eq_bind, Option.bind_some,
      Option.some.injEq, Prod.mk.injEq] at h
    obtain ⟨rfl, rfl⟩ := h
    -- The end of the input is no trivia, so something is taken.
    have hne : rest.toList ≠ [] := by
      intro hnil
      rw [hnil] at htrivia
      cases htrivia
    have htaken : (String.ofList (lexeme rest.toList).taken).utf8ByteSize ≠ 0 := by
      intro hzero
      have hempty := congrArg String.toList (String.utf8ByteSize_eq_zero_iff.mp hzero)
      rw [String.toList_ofList] at hempty
      exact lexeme_ne_nil hne hempty
    have hrestSize : rest.utf8ByteSize =
        (String.ofList (lexeme rest.toList).taken).utf8ByteSize +
          (String.ofList (lexeme rest.toList).rest).utf8ByteSize := by
      rw [← String.utf8ByteSize_append, ← String.ofList_append, lexeme_append,
        String.ofList_toList]
    simp only
    omega

/-- The next significant token, past any trivia, and the place after it. -/
def nextSignificant? (c : ByteCursor) : Option (Token × ByteCursor) :=
  match _ : c.next? with
  | none => none
  | some (token, c') => if token.kind.isTrivia then nextSignificant? c' else some (token, c')
termination_by c.text.utf8ByteSize - c.offset
decreasing_by
  rename_i h htrivia
  exact remaining_lt h htrivia

/-- The next significant token is the next token, or is found after it. -/
private theorem nextSignificant?_of_next? {c c' : ByteCursor} {t : Token}
    (h : c.next? = some (t, c')) :
    c.nextSignificant? = if t.kind.isTrivia then c'.nextSignificant? else some (t, c') := by
  rw [nextSignificant?]
  split
  · rename_i hnone
    rw [h] at hnone
    cases hnone
  · rename_i hsome
    rw [h] at hsome
    cases hsome
    rfl

/-- The significant token that follows after `offset` others. -/
def peek? (c : ByteCursor) : Nat → Option Token
  | 0 => do
    let (token, _) ← c.nextSignificant?
    some token
  | offset + 1 => do
    let (_, c) ← c.nextSignificant?
    c.peek? offset

/-- The place that a move leads to. -/
def moved? (c : ByteCursor) : Cursor.Move → Option ByteCursor
  | .next => c.next?.map Prod.snd
  | .nextSignificant | .next? => c.nextSignificant?.map Prod.snd

/-! ### Reading by bytes and by characters -/

/-- A cursor in a text, by the bytes before it: those of the text but for what follows. -/
def ofCursor (text : String) (c : Cursor) : ByteCursor :=
  ⟨text, text.utf8ByteSize - (String.ofList c.rest).utf8ByteSize, c.position⟩

/-- The byte cursor at the beginning is that of the cursor at the beginning. -/
theorem ofCursor_start (text : String) : ofCursor text (.start text) = start text := by
  simp [ofCursor, start, Cursor.start]

section

variable {c : Cursor} {text : String} (passed : List Char) (h : c.At text passed)

include h

/-- The characters that are passed and those that follow make up the text. -/
private theorem ofList_passed : String.ofList (passed ++ c.rest) = text := by
  rw [← h.split, String.ofList_toList]

/-- The bytes before a cursor are those of the characters it has passed. -/
private theorem offset_ofCursor :
    (ofCursor text c).offset = (String.ofList passed).utf8ByteSize := by
  have hsize : text.utf8ByteSize =
      (String.ofList passed).utf8ByteSize + (String.ofList c.rest).utf8ByteSize := by
    rw [← ofList_passed passed h, String.ofList_append, String.utf8ByteSize_append]
  show text.utf8ByteSize - (String.ofList c.rest).utf8ByteSize = _
  omega

/-- They are counted to a place between characters. -/
theorem isValid_ofCursor : (⟨(ofCursor text c).offset⟩ : String.Pos.Raw).IsValid text := by
  have htext := (ofList_passed passed h).symm.trans String.ofList_append
  refine String.Pos.Raw.isValid_iff_exists_append.mpr ⟨_, _, htext, ?_⟩
  rw [offset_ofCursor passed h]
  rfl

/-- The bytes at the cursor are cut as its characters are. -/
private theorem nextRaw?_ofCursor :
    (ofCursor text c).nextRaw? =
      some ((lexeme c.rest).kind, String.ofList (lexeme c.rest).taken) := by
  have hrest := sliceFrom?_ofList passed c.rest
  rw [ofList_passed passed h, ← offset_ofCursor passed h] at hrest
  exact nextRaw?_eq hrest

/-- The next token by bytes is the next token. -/
theorem next?_ofCursor : (ofCursor text c).next? = some (c.next.1, ofCursor text c.next.2) := by
  have hoffset := offset_ofCursor _ (c.stands_next passed h).2
  -- The bytes of the token are added to those before it.
  have hnext : (ofCursor text c).offset + (String.ofList (lexeme c.rest).taken).utf8ByteSize =
      (ofCursor text c.next.2).offset := by
    rw [hoffset, offset_ofCursor passed h, String.ofList_append, String.utf8ByteSize_append,
      String.ofList_toList]
    rfl
  simp only [next?, nextRaw?_ofCursor passed h, Option.bind_eq_bind, Option.bind_some, hnext]
  rw [String.toList_ofList]
  rfl

/-- The next significant token of both cursors is the same, and so is where they stand after it. -/
theorem nextSignificant?_ofCursor :
    (ofCursor text c).nextSignificant? =
      some (c.nextSignificant.1, ofCursor text c.nextSignificant.2) := by
  fun_induction Cursor.nextSignificant c generalizing passed with
  | case1 c step htrivia ih =>
    -- Past the trivia both cursors stand at the same place again.
    rw [nextSignificant?_of_next? (next?_ofCursor passed h), if_pos htrivia]
    exact ih _ (c.stands_next passed h).2
  | case2 c step htrivia =>
    rw [nextSignificant?_of_next? (next?_ofCursor passed h), if_neg htrivia]

/-- Both cursors look ahead to the same tokens. -/
theorem peek?_ofCursor (k : Nat) : (ofCursor text c).peek? k = some (c.peek k) := by
  -- By how far to look; one token fewer from the next one on.
  induction k generalizing c passed with
  | zero =>
    simp only [peek?, nextSignificant?_ofCursor passed h, Option.bind_eq_bind, Option.bind_some,
      Cursor.peek]
  | succ k ih =>
    obtain ⟨before, -, hat⟩ := c.stands_nextSignificant passed h
    simp only [peek?, nextSignificant?_ofCursor passed h, Option.bind_eq_bind, Option.bind_some,
      Cursor.peek]
    exact ih _ hat

/-- Both cursors move alike. -/
private theorem moved?_ofCursor (move : Cursor.Move) :
    (ofCursor text c).moved? move = some (ofCursor text (c.moved move)) := by
  cases move with
  | next => simp only [moved?, next?_ofCursor passed h, Option.map_some, Cursor.moved]
  | nextSignificant | next? =>
    simp only [moved?, nextSignificant?_ofCursor passed h, Option.map_some, Cursor.moved,
      Cursor.next?]

/-- Wherever reading gets to by characters it gets by bytes. -/
theorem foldlM_moved? (moves : List Cursor.Move) :
    moves.foldlM moved? (ofCursor text c) = some (ofCursor text (moves.foldl Cursor.moved c)) := by
  induction moves generalizing c passed with
  | nil => rfl
  | cons move moves ih =>
    obtain ⟨passed', hmoved⟩ := c.exists_at_moved passed h move
    rw [List.foldlM_cons, moved?_ofCursor passed h, Option.bind_eq_bind, Option.bind_some,
      List.foldl_cons, ih _ hmoved]

end

end ByteCursor

end LispSession
