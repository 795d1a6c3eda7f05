import Mathlib.Data.List.Perm.Basic
import LispSession.Proofs.Natives.Contract

/-!
# Equality of arguments

The function `=` compares neighbours only. That is enough: equality of numbers is symmetric and
transitive, although "not a number" differs from itself, and so is equality of atoms, so where
all neighbours are equal any two arguments are. Their order does not matter.

* `Number.beq_iff`        two numbers are equal if they are the same but for the sign of zero
* `Value.SameAtom`        two atoms of the same type that are equal
* `allEqual_iff_pairwise` neighbours are equal just if any two are
* `invoke_equal`          what `=` answers
-/

namespace LispSession

/-! ### Numbers -/

namespace Number

open Float.Model (UnpackedFloat)

/-- Two numbers are the same: both are zero, of whatever sign, or both are the same infinity or
    the same finite number. "Not a number" is not the same as anything. -/
inductive Same : UnpackedFloat → UnpackedFloat → Prop where
  | infinity (s : UnpackedFloat.Sign) : Same (.infinity s) (.infinity s)
  | zero (s t : UnpackedFloat.Sign) : Same (.zero s) (.zero t)
  | finite (s : UnpackedFloat.Sign) (m : Nat) (q : Int) (hm : 0 < m) :
    Same (.finite s m q hm) (.finite s m q hm)

/-- Being the same number is symmetric. -/
private theorem Same.symm {u v : UnpackedFloat} (h : Same u v) : Same v u := by
  cases h with
  | infinity s => exact .infinity s
  | zero s t => exact .zero t s
  | finite s m q hm => exact .finite s m q hm

/-- Being the same number is transitive. -/
private theorem Same.trans {u v w : UnpackedFloat} (h : Same u v) (h' : Same v w) : Same u w := by
  cases h with
  | zero s t =>
    -- The sign may change again.
    cases h' with
    | zero _ t' => exact .zero s t'
  | _ => exact h'

/-- The same numbers compare as equal. -/
private theorem compare_of_same {u v : UnpackedFloat} (h : Same u v) : u.compare v = some .eq := by
  cases h with
  | infinity s => cases s <;> rfl
  | zero s t => rfl
  -- Exponents are compared first, then significands, and the other way round below zero.
  | finite s m q hm =>
    have hsame : (compare q q).then (compare m m) = .eq := by simp
    cases s with
    | positive => exact congrArg some hsame
    | negative => exact congrArg some (congrArg Ordering.swap hsame)

/-- Numbers that compare as equal are the same. -/
private theorem same_of_compare {u v : UnpackedFloat} (h : u.compare v = some .eq) : Same u v := by
  -- Numbers of different kinds or signs compare as less or greater, or not at all.
  cases u with
  | notANumber => exact nomatch h
  | infinity s =>
    cases v with
    | infinity t =>
      cases s <;> cases t
      · exact .infinity _
      · exact nomatch h
      · exact nomatch h
      · exact .infinity _
    | _ => cases s <;> exact nomatch h
  | zero s =>
    cases v with
    | notANumber => exact nomatch h
    | zero t => exact .zero s t
    | infinity t | finite t _ _ _ => cases t <;> exact nomatch h
  | finite s m q hm =>
    cases v with
    | notANumber => exact nomatch h
    | zero t => cases s <;> exact nomatch h
    | infinity t => cases t <;> exact nomatch h
    | finite t n r hn =>
      have hparts : (compare q r).then (compare m n) = .eq → q = r ∧ m = n := by
        rw [Ordering.then_eq_eq, Int.compare_eq_eq, Nat.compare_eq_eq]
        exact id
      cases s <;> cases t
      · obtain ⟨rfl, rfl⟩ := hparts (Ordering.swap_eq_eq.mp (Option.some.inj h))
        exact .finite ..
      · exact nomatch h
      · exact nomatch h
      · obtain ⟨rfl, rfl⟩ := hparts (Option.some.inj h)
        exact .finite ..

/-- Two floats are equal just if they are the same number, whatever the signs of their zeros. -/
theorem beq_iff (x y : Float) : (x == y) = true ↔ Same x.toModel.unpack y.toModel.unpack := by
  show (x.toModel.unpack.compare y.toModel.unpack == some .eq) = true ↔ _
  rw [beq_iff_eq]
  exact ⟨same_of_compare, compare_of_same⟩

/-- A finite number equals itself. -/
theorem beq_self_of_isFinite {x : Float} (hx : x.isFinite = true) : (x == x) = true := by
  have hunpack : x.toModel.unpack.isFinite = true := hx
  rw [beq_iff]
  cases h : x.toModel.unpack with
  | notANumber | infinity =>
    rw [h] at hunpack
    cases hunpack
  | zero s => exact .zero s s
  | finite s m q hm => exact .finite s m q hm

/-- Equality of floats is symmetric. -/
private theorem beq_symm {x y : Float} (h : (x == y) = true) : (y == x) = true :=
  (beq_iff y x).mpr ((beq_iff x y).mp h).symm

/-- Equality of floats is transitive. -/
private theorem beq_trans {x y z : Float} (h : (x == y) = true) (h' : (y == z) = true) :
    (x == z) = true := (beq_iff x z).mpr (((beq_iff x y).mp h).trans ((beq_iff y z).mp h'))

end Number

/-! ### Atoms -/

/-- Two atoms of the same type are equal. -/
inductive Value.SameAtom : Value → Value → Prop where
  | number {x y : Float} (h : (x == y) = true) : SameAtom (.number x) (.number y)
  | string (text : String) : SameAtom (.string text) (.string text)
  | symbol (name : Symbol) : SameAtom (.symbol name) (.symbol name)
  | boolean (b : Bool) : SameAtom (.boolean b) (.boolean b)
  | null : SameAtom .null .null

namespace Value

variable {u v w : Value}

/-- Values that are the same atom have one type. -/
private theorem SameAtom.type_eq (h : v.SameAtom w) : v.type = w.type := by
  cases h <;> rfl

/-- Being the same atom is symmetric. -/
private theorem SameAtom.symm (h : v.SameAtom w) : w.SameAtom v := by
  cases h with
  | number h => exact .number (Number.beq_symm h)
  | string text => exact .string text
  | symbol name => exact .symbol name
  | boolean b => exact .boolean b
  | null => exact .null

/-- Being the same atom is transitive. -/
private theorem SameAtom.trans (h : u.SameAtom v) (h' : v.SameAtom w) : u.SameAtom w := by
  cases h with
  | number h =>
    cases h' with
    | number h' => exact .number (Number.beq_trans h h')
  | _ => exact h'

instance : Trans SameAtom SameAtom SameAtom := ⟨SameAtom.trans⟩

end Value

namespace Standard

variable {args : List Value} {v w : Value}

/-- Pairs, closures and natives are the values that cannot be compared. -/
private theorem isIncomparable_iff (v : Value) :
    isIncomparable v = true ↔ v.type = .pair ∨ v.type = .function ∨ v.type = .native := by
  cases v <;> simp [isIncomparable, Value.isCallable, Value.type]

/-- Equality of values that can be compared is equality of atoms. -/
private theorem beq_iff_sameAtom (hv : isIncomparable v = false) :
    (v == w) = true ↔ v.SameAtom w := by
  constructor
  · intro h
    -- The types are the same, and `v` is an atom.
    cases v with
    | number x =>
      cases w with
      | number y => exact .number h
      | _ => cases h
    | string text =>
      cases w with
      | string text' => exact eq_of_beq (a := text) h ▸ .string text
      | _ => cases h
    | symbol name =>
      cases w with
      | symbol name' => exact eq_of_beq (a := name) h ▸ .symbol name
      | _ => cases h
    | boolean b =>
      cases w with
      | boolean b' => exact eq_of_beq (a := b) h ▸ .boolean b
      | _ => cases h
    | null =>
      cases w with
      | null => exact .null
      | _ => cases h
    | pair first second => cases hv
    | closure fn frame => cases hv
    | native name => cases hv
  · intro h
    cases h with
    | number h => exact h
    | string text => exact beq_self_eq_true text
    | symbol name => exact beq_self_eq_true name
    | boolean b => exact beq_self_eq_true b
    | null => rfl

/-- Each value equals the next one just if any two of them are equal. -/
theorem allEqual_iff_pairwise (h : ∀ v ∈ args, isIncomparable v = false) :
    allEqual args = true ↔ args.Pairwise Value.SameAtom := by
  -- Equality is transitive, so that only neighbours have to be equal.
  rw [← List.isChain_iff_pairwise]
  induction args with
  | nil => simp [allEqual]
  | cons a rest ih =>
    cases rest with
    | nil => simp [allEqual]
    | cons b rest =>
      obtain ⟨ha, hrest⟩ := List.forall_mem_cons.mp h
      rw [List.isChain_cons_cons, ← ih hrest, ← beq_iff_sameAtom ha, ← Bool.and_eq_true]
      rfl

/-- The order of the values does not matter. -/
private theorem allEqual_perm {others : List Value} (h : ∀ v ∈ args, isIncomparable v = false)
    (hperm : others.Perm args) : allEqual others = allEqual args := by
  have hothers : ∀ v ∈ others, isIncomparable v = false := fun v hv => h v (hperm.mem_iff.mp hv)
  rw [Bool.eq_iff_iff, allEqual_iff_pairwise hothers, allEqual_iff_pairwise h]
  exact hperm.pairwise_iff Value.SameAtom.symm

/-! ### Answers -/

/-- Arguments that can all be compared are compared. -/
private theorem equal_of_comparable (h : ∀ v ∈ args, isIncomparable v = false) :
    equal args = .ok (.boolean (allEqual args)) := by
  have hnone : args.find? isIncomparable = none := List.find?_eq_none.mpr (by simpa using h)
  unfold equal
  rw [hnone]

/-- One argument that cannot be compared is enough for an error about a type. -/
private theorem equal_of_incomparable (hmem : v ∈ args) (hv : isIncomparable v = true) :
    ∃ fault, equal args = .error (.type fault) := by
  obtain ⟨bad, hbad⟩ := Option.isSome_iff_exists.mp (List.find?_isSome.mpr ⟨v, hmem, hv⟩)
  unfold equal
  rw [hbad]
  exact ⟨_, rfl⟩

/-- With two arguments or more, equality is computed from them. -/
private theorem invoke_eq_equal (hargs : 2 ≤ args.length) (frame : FrameId) (s : State) :
    registry.invoke "=" args frame s = .ofExcept s (equal args) := by
  have hmem : (⟨"=", .atLeast 2, computing equal⟩ : Native) ∈ registry.natives :=
    ordered_registry.find?_eq_some_iff.mp rfl
  exact (ordered_registry.invoke_eq hmem args frame s).trans (if_pos (decide_eq_true hargs))

/-- With at least two arguments `=` fails, by a type, just if one of them is a pair or a function.
    If none is, it answers whether any two of them are equal atoms of one type, in whatever order
    they are given. -/
theorem invoke_equal (hargs : 2 ≤ args.length) (frame : FrameId) (s : State) :
    ((∃ fault s', registry.invoke "=" args frame s = .error (.type fault) s') ↔
      ∃ v ∈ args, v.type = .pair ∨ v.type = .function ∨ v.type = .native) ∧
    ((∀ v ∈ args, v.type ≠ .pair ∧ v.type ≠ .function ∧ v.type ≠ .native) →
      ∃ answer,
        (∀ others : List Value, others.Perm args →
          registry.invoke "=" others frame s = .value (.boolean answer) s) ∧
        (answer = true ↔
          ∀ i j (hi : i < args.length) (hj : j < args.length), i ≠ j →
            args[i].type = args[j].type ∧ args[i].SameAtom args[j])) := by
  refine ⟨⟨fun ⟨fault, s', herror⟩ => ?_, fun ⟨v, hmem, hv⟩ => ?_⟩, fun hcomparable => ?_⟩
  · -- If all arguments could be compared, there would be an answer.
    by_contra hnone
    have hcomparable : ∀ v ∈ args, isIncomparable v = false := fun v hv =>
      Bool.eq_false_iff.mpr fun hbad => hnone ⟨v, hv, (isIncomparable_iff v).mp hbad⟩
    rw [invoke_eq_equal hargs, equal_of_comparable hcomparable] at herror
    cases herror
  · obtain ⟨fault, hfault⟩ := equal_of_incomparable hmem ((isIncomparable_iff v).mpr hv)
    exact ⟨fault, s, by rw [invoke_eq_equal hargs, hfault, Outcome.ofExcept]⟩
  · have hatoms : ∀ v ∈ args, isIncomparable v = false := by
      intro v hv
      obtain ⟨hpair, hfunction, hnative⟩ := hcomparable v hv
      refine Bool.eq_false_iff.mpr fun hbad => ?_
      rcases (isIncomparable_iff v).mp hbad with h | h | h
      · exact hpair h
      · exact hfunction h
      · exact hnative h
    refine ⟨allEqual args, fun others hperm => ?_, ?_⟩
    · have hothers : ∀ v ∈ others, isIncomparable v = false :=
        fun v hv => hatoms v (hperm.mem_iff.mp hv)
      have hlength : 2 ≤ others.length := hperm.length_eq ▸ hargs
      rw [invoke_eq_equal hlength, equal_of_comparable hothers, allEqual_perm hatoms hperm]
      rfl
    · rw [allEqual_iff_pairwise hatoms, List.pairwise_iff_getElem]
      refine ⟨fun h i j hi hj hne => ?_, fun h i j hi hj hlt => (h i j hi hj hlt.ne).2⟩
      -- Equality is symmetric, so it does not matter which place comes first.
      have hsame : args[i].SameAtom args[j] := by
        rcases Nat.lt_or_gt_of_ne hne with hlt | hgt
        · exact h i j hi hj hlt
        · exact (h j i hj hi hgt).symm
      exact ⟨hsame.type_eq, hsame⟩

/-- A pair cannot be compared at any place; two atoms of three that are equal are not enough. -/
theorem invoke_equal_mixed :
    let last : List Value := [.number 1, .null, .pair .null .null]
    let two : List Value := [.null, .null, .boolean true]
    (∀ frame s, ∃ fault s', registry.invoke "=" last frame s = .error (.type fault) s') ∧
      ∀ frame s, registry.invoke "=" two frame s = .value (.boolean false) s := by
  intro last two
  have hlast : 2 ≤ last.length := by decide
  have htwo : 2 ≤ two.length := by decide
  refine ⟨fun frame s => ?_, fun frame s => ?_⟩
  -- The pair at the end is refused although the first two arguments already differ.
  · exact (invoke_equal hlast frame s).1.mpr ⟨.pair .null .null, by simp [last], .inl rfl⟩
  · have hatoms : ∀ v ∈ two, v.type ≠ .pair ∧ v.type ≠ .function ∧ v.type ≠ .native := by
      simp [two, Value.type]
    -- Neighbours are compared, and the first and the last argument have different types.
    obtain ⟨answer, hanswer, htrue⟩ := (invoke_equal htwo frame s).2 hatoms
    have hfalse : answer = false := by
      refine Bool.eq_false_iff.mpr fun h => ?_
      have htypes := (htrue.mp h 0 2 (by decide) (by decide) (by decide)).1
      cases htypes
    rw [hanswer two (.refl _), hfalse]

end Standard

end LispSession
