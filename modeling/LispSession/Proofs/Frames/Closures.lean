import LispSession.Native.Standard

/-!
# Frames in values

A value refers to frames only through the closures in it. `Below n` says that they all
refer to the first `n` frames, and `relocate r` moves each reference from a frame `i` to
the frame `r i`. Nothing that a program can observe of a value depends on these
references.

* `relocate_congr`         only the frames that a value refers to matter
* `below_of_relocate_eq`   a value that every move of later frames leaves alone is below
* `render_relocate`        the text of a value
-/

namespace LispSession

namespace FrameId

/-- The frame that a frame is moved to. -/
def relocate (r : Nat → Nat) (frame : FrameId) : FrameId := ⟨r frame.index⟩

/-- Moving a frame moves its index. -/
@[simp] theorem index_relocate (r : Nat → Nat) (frame : FrameId) :
    (frame.relocate r).index = r frame.index := rfl

end FrameId

namespace Value

/-- Every closure in the value refers to one of the first `n` frames. -/
def Below (n : Nat) : Value → Prop
  | pair car cdr => car.Below n ∧ cdr.Below n
  | closure _ frame => frame.index < n
  | _ => True

/-- The value with the frames of its closures moved. -/
def relocate (r : Nat → Nat) : Value → Value
  | pair car cdr => pair (car.relocate r) (cdr.relocate r)
  | closure fn frame => closure fn (frame.relocate r)
  | number x => number x
  | string text => string text
  | symbol name => symbol name
  | boolean b => boolean b
  | null => null
  | native name => native name

/-- A value that refers to frames below a bound refers to frames below any higher one. -/
theorem Below.mono {m n : Nat} (hmn : m ≤ n) {v : Value} (h : v.Below m) : v.Below n := by
  induction v with
  | pair car cdr ihcar ihcdr => exact ⟨ihcar h.1, ihcdr h.2⟩
  | closure fn frame => exact Nat.lt_of_lt_of_le h hmn
  | _ => trivial

/-- Two moves that agree on the first frames move a value below them alike. -/
theorem relocate_congr {n : Nat} {r r' : Nat → Nat} (hr : ∀ i < n, r i = r' i) {v : Value}
    (h : v.Below n) : v.relocate r = v.relocate r' := by
  induction v with
  | pair car cdr ihcar ihcdr => simp only [relocate, ihcar h.1, ihcdr h.2]
  | closure fn frame => simp only [relocate, FrameId.relocate, hr frame.index h]
  | _ => rfl

/-- A value that does not change when all later frames are moved is below them. -/
theorem below_of_relocate_eq {n : Nat} {v : Value}
    (h : v.relocate (fun i => if i < n then i else i + 1) = v) : v.Below n := by
  -- A frame at the bound or above would have moved.
  induction v with
  | pair car cdr ihcar ihcdr =>
    simp only [relocate, pair.injEq] at h
    exact ⟨ihcar h.1, ihcdr h.2⟩
  | closure fn frame =>
    simp only [relocate, FrameId.relocate, closure.injEq, true_and] at h
    have hindex := congrArg FrameId.index h
    simp only at hindex
    simp only [Below]
    split at hindex <;> omega
  | _ => trivial

/-- A value below some frames does not change when all later ones are moved. -/
theorem relocate_eq_of_below {n : Nat} {v : Value} (h : v.Below n) :
    v.relocate (fun i => if i < n then i else i + 1) = v := by
  induction v with
  | pair car cdr ihcar ihcdr => simp only [relocate, ihcar h.1, ihcdr h.2]
  | closure fn frame =>
    have hlt : frame.index < n := h
    simp only [relocate, FrameId.relocate, if_pos hlt]
  | _ => rfl

/-! ### What a program can observe of a value -/

/-- Moving frames leaves the type of a value. -/
@[simp] theorem type_relocate (r : Nat → Nat) (v : Value) : (v.relocate r).type = v.type := by
  cases v <;> rfl

/-- Moving frames leaves whether a value counts as true. -/
@[simp] theorem isTruthy_relocate (r : Nat → Nat) (v : Value) :
    (v.relocate r).isTruthy = v.isTruthy := by
  cases v <;> rfl

/-- Moving frames leaves whether a value can be called. -/
@[simp] theorem isCallable_relocate (r : Nat → Nat) (v : Value) :
    (v.relocate r).isCallable = v.isCallable := by
  cases v <;> rfl

/-- The text of a value and the text of a rest of a list, together. -/
private theorem render_and_renderTail_relocate (r : Nat → Nat) (symbols : SymbolTable)
    (v : Value) :
    (v.relocate r).render symbols = v.render symbols ∧
      (v.relocate r).renderTail symbols = v.renderTail symbols := by
  induction v with
  | pair car cdr ihcar ihcdr =>
    simp only [relocate, render, renderTail, ihcar.1, ihcdr.2, and_self]
  | closure fn frame => exact ⟨rfl, rfl⟩
  | _ => exact ⟨rfl, rfl⟩

/-- Moving frames leaves how a value is shown. -/
@[simp] theorem render_relocate (r : Nat → Nat) (symbols : SymbolTable) (v : Value) :
    (v.relocate r).render symbols = v.render symbols :=
  (render_and_renderTail_relocate r symbols v).1

/-- The frames in a list of values are moved item by item. -/
@[simp] theorem ofList_relocate (r : Nat → Nat) (items : List Value) :
    ofList (items.map (relocate r)) = (ofList items).relocate r := by
  induction items with
  | nil => rfl
  | cons item items ih => simp only [List.map_cons, ofList_cons, relocate, ih]

end Value

/-! ### Quoted data -/

mutual

/-- Quoted data holds no closures. -/
private theorem Literal.toValue_relocate (r : Nat → Nat) : ∀ item : Literal,
    item.toValue.relocate r = item.toValue
  | .symbol _ | .number _ | .string _ | .boolean _ => rfl
  | .list items => Literal.listValue_relocate r items

/-- A quoted list holds no closures. -/
theorem Literal.listValue_relocate (r : Nat → Nat) : ∀ items : List Literal,
    (Literal.listValue items).relocate r = Literal.listValue items
  | [] => rfl
  | item :: items => by
    simp only [Literal.listValue, Value.relocate, Literal.toValue_relocate r item,
      Literal.listValue_relocate r items]

end

/-- Quoted data refers to no frames. -/
theorem Literal.below_listValue (n : Nat) (items : List Literal) :
    (Literal.listValue items).Below n :=
  Value.below_of_relocate_eq (Literal.listValue_relocate _ items)

end LispSession
