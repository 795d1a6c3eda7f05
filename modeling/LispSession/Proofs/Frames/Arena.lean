import Mathlib.Logic.Relation
import LispSession.Proofs.Frames.WellFormed

/-!
# The arena of frames

Whatever is done to an environment, in any order, as long as it is done to frames that are
there: the frames form a tree, in which every frame but the global one is inside an older
one. Nothing keeps the frames around a captured frame but their age: the mark is above
the captured frame, and they stand below it.

* `Nested.perform`          every operation keeps the tree
* `Nested.outward_global`   every walk outward ends at the global frame
* `Nested.markedStay_leads` marked frames stay, each inside the same frame
* `arena_stays_nested`      all of it, after any operations
-/

namespace LispSession

namespace Environment

/-! ### Walks outward -/

/-- The frame is there. -/
def Live (env : Environment) (frame : FrameId) : Prop := frame.index < env.frames.size

/-- The frame around a frame. -/
def parent? (env : Environment) (frame : FrameId) : Option FrameId :=
  (env.frames[frame.index]?).bind Frame.parent

/-- The frame that so many steps outward lead to. -/
def outward? (env : Environment) (frame : FrameId) : Nat → Option FrameId
  | 0 => some frame
  | n + 1 => (env.outward? frame n).bind env.parent?

/-- The first step outward, and then the others. -/
theorem outward?_succ (env : Environment) (frame : FrameId) (n : Nat) :
    env.outward? frame (n + 1) = (env.parent? frame).bind fun parent => env.outward? parent n := by
  induction n with
  | zero => cases h : env.parent? frame <;> simp [outward?, h]
  | succ n ih => rw [outward?, ih, Option.bind_assoc]; rfl

/-- A frame with another one around it is there. -/
private theorem live_of_parent? {env : Environment} {frame parent : FrameId}
    (h : env.parent? frame = some parent) : env.Live frame := by
  obtain ⟨found, hfound, -⟩ := Option.bind_eq_some_iff.mp h
  exact (Array.getElem?_eq_some_iff.mp hfound).1

/-- A name changes no frame around another. -/
@[simp] theorem parent?_intern (env : Environment) (name : String) (frame : FrameId) :
    (env.intern name).2.parent? frame = env.parent? frame := rfl

/-- The frame around a new one is the one it was made in, and the others keep theirs. -/
private theorem parent?_extend (env : Environment) (home frame : FrameId) :
    (env.extend home).2.parent? frame =
      if frame.index = env.frames.size then some home else env.parent? frame := by
  unfold parent?
  rw [getElem?_extend]
  split <;> rfl

/-- A binding changes no frame around another. -/
@[simp] theorem parent?_define (env : Environment) (changed : FrameId) (name : Symbol)
    (value : Value) (frame : FrameId) :
    (env.define changed name value).parent? frame = env.parent? frame := by
  unfold parent?
  rw [getElem?_define]
  split
  · cases env.frames[frame.index]? <;> rfl
  · rfl

/-- Of the frames that are left, each keeps the one around it. -/
private theorem parent?_release (env : Environment) (released frame : FrameId) :
    (env.release released).parent? frame =
      if frame.index < max released.index env.pinned then env.parent? frame else none := by
  unfold parent?
  rw [getElem?_release]
  split <;> rfl

/-! ### The tree -/

/-- The frames form a tree, and the mark is between the global frame and the last one. -/
structure Nested (env : Environment) : Prop where
  pinned_pos : 1 ≤ env.pinned
  pinned_le : env.pinned ≤ env.frames.size
  /-- No frame is around the global one. -/
  parent_global : env.parent? .global = none
  /-- Every other frame is inside an older one. -/
  parent_lt : ∀ {frame : FrameId}, env.Live frame → frame ≠ .global →
    ∃ parent, env.parent? frame = some parent ∧ parent.index < frame.index

/-- The environment at the beginning has the global frame only, which stands alone. -/
theorem nested_new : Nested .new := by
  refine ⟨Nat.le_refl 1, Nat.le_refl 1, rfl, fun {frame} hlive hglobal => ?_⟩
  have hzero : frame.index = 0 := Nat.lt_one_iff.mp hlive
  exact absurd (congrArg FrameId.mk hzero) hglobal

namespace Nested

variable {env : Environment} (h : env.Nested)

include h

/-- The global frame is always there. -/
theorem live_global : env.Live .global := Nat.lt_of_lt_of_le h.pinned_pos h.pinned_le

/-- The frame around another one is older. -/
theorem lt_of_parent? {frame parent : FrameId} (hparent : env.parent? frame = some parent) :
    parent.index < frame.index := by
  have hglobal : frame ≠ .global := by
    rintro rfl
    rw [h.parent_global] at hparent
    cases hparent
  obtain ⟨found, hfound, hlt⟩ := h.parent_lt (live_of_parent? hparent) hglobal
  rw [hparent] at hfound
  exact Option.some.inj hfound ▸ hlt

/-- A walk outward never reaches a later frame. -/
private theorem le_of_outward {frame other : FrameId} {n : Nat}
    (hother : env.outward? frame n = some other) : other.index ≤ frame.index := by
  induction n generalizing other with
  | zero => exact Option.some.inj hother ▸ Nat.le_refl _
  | succ n ih =>
    obtain ⟨inner, hinner, hparent⟩ := Option.bind_eq_some_iff.mp hother
    exact Nat.le_trans (Nat.le_of_lt (h.lt_of_parent? hparent)) (ih hinner)

/-- What holds of a frame if it holds of the frame around it holds of every frame. -/
theorem induct {P : FrameId → Prop} (hstep : ∀ frame, env.Live frame →
    (∀ parent, env.parent? frame = some parent → env.Live parent ∧ P parent) → P frame)
    {frame : FrameId} (hlive : env.Live frame) : P frame := by
  induction hindex : frame.index using Nat.strongRecOn generalizing frame with
  | ind index ih =>
    refine hstep frame hlive fun parent hparent => ?_
    have hlt := h.lt_of_parent? hparent
    have hparentLive : env.Live parent := Nat.lt_trans hlt hlive
    exact ⟨hparentLive, ih parent.index (hindex ▸ hlt) hparentLive rfl⟩

/-- Every walk outward ends at the global frame. -/
theorem outward_global {frame : FrameId} (hlive : env.Live frame) :
    ∃ n, env.outward? frame n = some .global ∧ env.outward? frame (n + 1) = none := by
  -- From the global frame outward: what holds of a frame is taken from the one around it.
  refine h.induct (P := fun frame => ∃ n, env.outward? frame n = some .global ∧
    env.outward? frame (n + 1) = none) (fun frame hlive ih => ?_) hlive
  by_cases hglobal : frame = .global
  · refine ⟨0, congrArg some hglobal, ?_⟩
    rw [outward?_succ, hglobal, h.parent_global]
    rfl
  · obtain ⟨parent, hparent, -⟩ := h.parent_lt hlive hglobal
    obtain ⟨-, n, hn, hend⟩ := ih parent hparent
    refine ⟨n + 1, ?_, ?_⟩
    · rw [outward?_succ, hparent]
      exact hn
    · rw [outward?_succ, hparent]
      exact hend

end Nested

/-! ### Operations -/

/-- Something that is done to an environment. -/
inductive Operation where
  | intern (name : String)
  | extend (home : FrameId)
  | capture (frame : FrameId)
  | define (frame : FrameId) (name : Symbol) (value : Value)
  | assign (frame : FrameId) (name : Symbol) (value : Value)
  | release (frame : FrameId)

/-- The operation is done to a frame that is there. Any frame may be released, also one that
    has been dropped already. -/
def Operation.Allowed (env : Environment) : Operation → Prop
  | extend frame | capture frame | define frame _ _ | assign frame _ _ => env.Live frame
  | intern _ | release _ => True

/-- The environment after an operation. An assignment that fails changes nothing. -/
def perform (env : Environment) : Operation → Environment
  | .intern name => (env.intern name).2
  | .extend home => (env.extend home).2
  | .capture frame => env.capture frame
  | .define frame name value => env.define frame name value
  | .assign frame name value => (env.assign? frame name value).getD env
  | .release frame => env.release frame

/-- One operation leads from one environment to another. -/
def Next (env env' : Environment) : Prop := ∃ op : Operation, op.Allowed env ∧ env' = env.perform op

/-- Some operations one after the other lead from one environment to another. -/
def Leads : Environment → Environment → Prop := Relation.ReflTransGen Next

/-- An assignment is a definition in the frame that binds the name, if there is one. -/
private theorem perform_assign (env : Environment) (frame : FrameId) (name : Symbol)
    (value : Value) : env.perform (.assign frame name value) = env ∨
      ∃ found, env.perform (.assign frame name value) = env.define found name value := by
  cases hassign : env.assign? frame name value with
  | none =>
    left
    rw [perform, hassign, Option.getD_none]
  | some env' =>
    obtain ⟨found, -, rfl⟩ := Option.map_eq_some_iff.mp hassign
    right
    exact ⟨found, by rw [perform, hassign, Option.getD_some]⟩

namespace Nested

variable {env : Environment} (h : env.Nested)

include h

/-- The tree depends on the mark and on the frame around each frame only. -/
private theorem of_eq {env' : Environment} (hpinned : env'.pinned = env.pinned)
    (hsize : env'.frames.size = env.frames.size)
    (hparent : ∀ frame, env'.parent? frame = env.parent? frame) : env'.Nested := by
  refine ⟨hpinned ▸ h.pinned_pos, hpinned ▸ hsize ▸ h.pinned_le, ?_, fun hlive hglobal => ?_⟩
  · rw [hparent]
    exact h.parent_global
  · unfold Live at hlive
    rw [hsize] at hlive
    rw [hparent]
    exact h.parent_lt hlive hglobal

/-- A binding keeps the frames nested. -/
theorem define (frame : FrameId) (name : Symbol) (value : Value) :
    (env.define frame name value).Nested :=
  h.of_eq rfl (size_define ..) (parent?_define env frame name value)

/-- A new frame comes after the one around it. -/
private theorem extend {home : FrameId} (hhome : env.Live home) : (env.extend home).2.Nested := by
  have hsize := env.size_extend home
  refine ⟨h.pinned_pos, ?_, ?_, fun {frame} hlive hglobal => ?_⟩
  · rw [hsize]
    exact Nat.le_succ_of_le h.pinned_le
  · have hglobal : FrameId.global.index ≠ env.frames.size := Nat.ne_of_lt h.live_global
    rw [parent?_extend, if_neg hglobal]
    exact h.parent_global
  · rw [parent?_extend]
    -- The new frame is inside one that is there; the older ones have not changed.
    split
    · rename_i hnew
      exact ⟨home, rfl, hnew ▸ hhome⟩
    · refine h.parent_lt ?_ hglobal
      unfold Live at hlive ⊢
      omega

/-- Capturing a frame that is there keeps the frames nested. -/
private theorem capture {frame : FrameId} (hframe : env.Live frame) : (env.capture frame).Nested :=
  ⟨Nat.le_trans h.pinned_pos (env.pinned_le_capture frame), Nat.max_le.mpr ⟨h.pinned_le, hframe⟩,
    h.parent_global, h.parent_lt⟩

/-- The frames that are left are the older ones, and the frames around them are older still. -/
private theorem release (frame : FrameId) : (env.release frame).Nested := by
  have hpos := h.pinned_pos
  have hle := h.pinned_le
  have hsize := env.size_release frame
  refine ⟨hpos, ?_, ?_, fun {other} hlive hglobal => ?_⟩
  · rw [hsize, pinned_release]
    omega
  · rw [parent?_release, h.parent_global, ite_self]
  · unfold Live at hlive
    rw [hsize] at hlive
    rw [parent?_release, if_pos (by omega)]
    exact h.parent_lt (Nat.lt_of_lt_of_le hlive (Nat.min_le_right ..)) hglobal

/-- Every operation keeps the tree. -/
theorem perform {op : Operation} (hop : op.Allowed env) : (env.perform op).Nested := by
  -- An assignment is a binding in the frame that it finds, or nothing.
  cases op with
  | intern name => exact h.of_eq rfl rfl (parent?_intern env name)
  | extend home => exact h.extend hop
  | capture frame => exact h.capture hop
  | define frame name value => exact h.define frame name value
  | assign frame name value =>
    rcases env.perform_assign frame name value with heq | ⟨found, heq⟩
    · rw [heq]
      exact h
    · rw [heq]
      exact h.define found name value
  | release frame => exact h.release frame

/-- So do any operations one after the other. -/
theorem leads {env' : Environment} (hleads : Leads env env') : env'.Nested := by
  induction hleads with
  | refl => exact h
  | tail _ hnext ih =>
    obtain ⟨op, hop, rfl⟩ := hnext
    exact ih.perform hop

end Nested

/-! ### Marked frames -/

/-- The mark has not gone down, and the frame around each marked one is the same. -/
def MarkedStay (env env' : Environment) : Prop :=
  env.pinned ≤ env'.pinned ∧
    ∀ frame, frame.index < env.pinned → env'.parent? frame = env.parent? frame

/-- Marked frames stay over two steps if they stay over each. -/
private theorem MarkedStay.trans {env₁ env₂ env₃ : Environment} (h₁ : MarkedStay env₁ env₂)
    (h₂ : MarkedStay env₂ env₃) : MarkedStay env₁ env₃ :=
  ⟨Nat.le_trans h₁.1 h₂.1, fun frame hframe =>
    (h₂.2 frame (Nat.lt_of_lt_of_le hframe h₁.1)).trans (h₁.2 frame hframe)⟩

/-- No operation removes a marked frame or changes the frame around it. -/
private theorem Nested.markedStay_perform {env : Environment} (h : env.Nested) (op : Operation) :
    MarkedStay env (env.perform op) := by
  -- Only a new frame and a release change which frames there are, both behind the marked ones.
  cases op with
  | intern name => exact ⟨Nat.le_refl _, fun _ _ => rfl⟩
  | extend home =>
    refine ⟨Nat.le_refl _, fun frame hframe => ?_⟩
    have hold : frame.index ≠ env.frames.size :=
      Nat.ne_of_lt (Nat.lt_of_lt_of_le hframe h.pinned_le)
    rw [Environment.perform, parent?_extend, if_neg hold]
  | capture frame => exact ⟨env.pinned_le_capture frame, fun _ _ => rfl⟩
  | define frame name value =>
    exact ⟨Nat.le_refl _, fun other _ => parent?_define env frame name value other⟩
  | assign frame name value =>
    rcases env.perform_assign frame name value with heq | ⟨found, heq⟩
    · rw [heq]
      exact ⟨Nat.le_refl _, fun _ _ => rfl⟩
    · rw [heq]
      exact ⟨Nat.le_refl _, fun other _ => parent?_define env found name value other⟩
  | release frame =>
    refine ⟨Nat.le_refl _, fun other hother => ?_⟩
    have hkept : other.index < max frame.index env.pinned :=
      Nat.lt_of_lt_of_le hother (Nat.le_max_right ..)
    rw [Environment.perform, parent?_release, if_pos hkept]

/-- Marked frames stay over any operations. -/
theorem Nested.markedStay_leads {env env' : Environment} (h : env.Nested)
    (hleads : Leads env env') : MarkedStay env env' := by
  induction hleads with
  | refl => exact ⟨Nat.le_refl _, fun _ _ => rfl⟩
  | tail hbefore hnext ih =>
    obtain ⟨op, -, rfl⟩ := hnext
    exact ih.trans ((h.leads hbefore).markedStay_perform op)

/-! ### The arena after any operations -/

/-- Whatever has been done to a fresh environment, its frames form a tree and the mark is within
    the arena, so that every walk outward ends at the global frame. A frame that is captured, and
    every frame around it, stays for ever after, inside the same frame. A release drops the frames
    from the released one or the mark on, whichever is later, and leaves all others as they are. -/
theorem arena_stays_nested {env : Environment} (h : Leads .new env) :
    env.Nested ∧
      (∀ frame, env.Live frame →
        ∃ n, env.outward? frame n = some .global ∧ env.outward? frame (n + 1) = none) ∧
      (∀ (frame : FrameId) (env' : Environment), env.Live frame → Leads (env.capture frame) env' →
        ∀ (n : Nat) (outer : FrameId), env.outward? frame n = some outer →
          env'.Live outer ∧ env'.parent? outer = env.parent? outer) ∧
      ∀ released frame : FrameId,
        ((env.release released).Live frame ↔
          env.Live frame ∧ frame.index < max released.index env.pinned) ∧
        ((env.release released).Live frame →
          (env.release released).frames[frame.index]? = env.frames[frame.index]?) := by
  have hnested : env.Nested := nested_new.leads h
  refine ⟨hnested, fun frame hlive => hnested.outward_global hlive, ?_, fun released frame => ?_⟩
  · intro frame env' hlive hleads n outer houter
    have hcaptured := hnested.capture hlive
    obtain ⟨hpinned, hstay⟩ := hcaptured.markedStay_leads hleads
    -- The frames around the captured one are older, so that they are marked too.
    have hmarked : outer.index < (env.capture frame).pinned :=
      Nat.lt_of_le_of_lt (hnested.le_of_outward houter) (env.lt_pinned_capture frame)
    refine ⟨?_, hstay outer hmarked⟩
    exact Nat.lt_of_lt_of_le hmarked (Nat.le_trans hpinned (hcaptured.leads hleads).pinned_le)
  · have hsize := env.size_release released
    unfold Live
    rw [hsize, getElem?_release]
    constructor
    · omega
    · intro hlive
      rw [if_pos (by omega)]

/-- The call of a function inside another call: the inner frame is captured, and the release of
    the outer one drops neither. -/
theorem arena_stays_nested_captured :
    let env := ((Environment.new.extend .global).2.extend ⟨1⟩).2
    let released := (env.capture ⟨2⟩).release ⟨1⟩
    Leads .new env ∧ Leads (env.capture ⟨2⟩) released ∧ env.outward? ⟨2⟩ 1 = some ⟨1⟩ ∧
      released.Live ⟨1⟩ ∧ released.parent? ⟨1⟩ = some .global := by
  intro env released
  -- Two calls, one inside the other, and the inner frame captured before the outer one is released.
  have hextend : Next .new (Environment.new.extend .global).2 :=
    ⟨.extend .global, Nat.one_pos, rfl⟩
  have hagain : Next (Environment.new.extend .global).2 env :=
    ⟨.extend ⟨1⟩, Nat.one_lt_two, rfl⟩
  have henv : Leads .new env := .tail (.single hextend) hagain
  have hreleased : Leads (env.capture ⟨2⟩) released := .single ⟨.release ⟨1⟩, trivial, rfl⟩
  have hlive : env.Live ⟨2⟩ := Nat.lt_succ_self 2
  obtain ⟨hstays, hparent⟩ := (arena_stays_nested henv).2.2.1 ⟨2⟩ released hlive hreleased 1 ⟨1⟩ rfl
  exact ⟨henv, hreleased, rfl, hstays, hparent⟩

end Environment

end LispSession
