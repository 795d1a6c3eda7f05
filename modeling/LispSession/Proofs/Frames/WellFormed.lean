import LispSession.Eval.Evaluate
import LispSession.Proofs.Frames.Closures

/-!
# Well-formed environments

The frames that closures in bindings refer to are marked, the mark is within the arena,
and the frame around another one is older than that one. All operations on environments
keep this, if the values that they bind refer to marked frames only and the frames they
are given are there; so a walk outward for a name never reads a frame that is not.

* `WellFormed.extend`, `WellFormed.capture`, `WellFormed.release`, `WellFormed.define`,
  `WellFormed.install`                       what the operations keep
* `WellFormed.below_lookup`                  what a name stands for refers to marked frames
* `WellFormed.lt_size_of_reads`              every frame that a walk reads is there
-/

namespace LispSession

/-- Putting a binding adds no binding but that one. -/
theorem mem_putBinding {name : Symbol} {value : Value} {bindings : List (Symbol × Value)}
    {b : Symbol × Value} (h : b ∈ putBinding name value bindings) :
    b = (name, value) ∨ b ∈ bindings := by
  -- Along the walk to the place of the binding.
  induction bindings with
  | nil => simpa [putBinding] using h
  | cons first bindings ih =>
    obtain ⟨other, old⟩ := first
    simp only [putBinding] at h
    split at h
    · exact (List.mem_cons.mp h).imp_right (List.mem_cons_of_mem _)
    · rcases List.mem_cons.mp h with h | h
      · exact .inr (h ▸ List.mem_cons_self)
      · exact (ih h).imp_right (List.mem_cons_of_mem _)

/-- What a frame binds to a name is one of its bindings. -/
theorem Frame.mem_of_get? {frame : Frame} {name : Symbol} {value : Value}
    (h : frame.get? name = some value) : (name, value) ∈ frame.bindings := by
  obtain ⟨bindings, parent⟩ := frame
  simp only [Frame.get?] at h
  induction bindings with
  | nil => cases h
  | cons first bindings ih =>
    obtain ⟨other, old⟩ := first
    simp only [List.lookup_cons] at h
    split at h
    · rename_i heq
      rw [← Option.some.inj h, eq_of_beq heq]
      exact List.mem_cons_self
    · exact List.mem_cons_of_mem _ (ih h)

namespace Environment

/-! ### The frames and the mark after each operation -/

/-- The new frame is the last one, with no bindings yet, and the others are as they were. -/
theorem getElem?_extend (env : Environment) (parent : FrameId) (i : Nat) :
    (env.extend parent).2.frames[i]? =
      if i = env.frames.size then some ⟨[], some parent⟩ else env.frames[i]? :=
  Array.getElem?_push

/-- Only the frame in question gets the binding. -/
theorem getElem?_define (env : Environment) (frame : FrameId) (name : Symbol) (value : Value)
    (i : Nat) :
    (env.define frame name value).frames[i]? =
      if frame.index = i then env.frames[i]?.map (·.put name value) else env.frames[i]? :=
  Array.getElem?_modify

/-- The frames up to the released one are left, and all that are marked. -/
theorem getElem?_release (env : Environment) (frame : FrameId) (i : Nat) :
    (env.release frame).frames[i]? =
      if i < max frame.index env.pinned then env.frames[i]? else none := by
  simp only [release, Array.shrink_eq_take, Array.take_eq_extract, Array.getElem?_extract,
    Nat.sub_zero, Nat.zero_add]
  by_cases hkeep : i < max frame.index env.pinned
  · by_cases hsize : i < env.frames.size
    · rw [if_pos (by omega), if_pos hkeep]
    · rw [if_neg (by omega), if_pos hkeep, Array.getElem?_eq_none (by omega)]
  · rw [if_neg (by omega), if_neg hkeep]

/-- A new frame does not move the mark. -/
@[simp] theorem pinned_extend (env : Environment) (parent : FrameId) :
    (env.extend parent).2.pinned = env.pinned := rfl

/-- A binding does not move the mark. -/
@[simp] theorem pinned_define (env : Environment) (frame : FrameId) (name : Symbol)
    (value : Value) : (env.define frame name value).pinned = env.pinned := rfl

/-- Releasing frames does not move the mark. -/
@[simp] theorem pinned_release (env : Environment) (frame : FrameId) :
    (env.release frame).pinned = env.pinned := rfl

/-- A name does not move the mark. -/
@[simp] theorem pinned_intern (env : Environment) (name : String) :
    (env.intern name).2.pinned = env.pinned := rfl

/-- A name changes no frame. -/
@[simp] theorem frames_intern (env : Environment) (name : String) :
    (env.intern name).2.frames = env.frames := rfl

/-- Capturing a frame changes none. -/
@[simp] theorem frames_capture (env : Environment) (frame : FrameId) :
    (env.capture frame).frames = env.frames := rfl

/-- Capturing a frame never lowers the mark. -/
theorem pinned_le_capture (env : Environment) (frame : FrameId) :
    env.pinned ≤ (env.capture frame).pinned := Nat.le_max_left ..

/-- A captured frame is below the mark. -/
theorem lt_pinned_capture (env : Environment) (frame : FrameId) :
    frame.index < (env.capture frame).pinned := Nat.le_max_right ..

/-- Bindings do not move the mark. -/
@[simp] theorem pinned_defineAll (env : Environment) (frame : FrameId) (names : List Symbol)
    (values : List Value) : (env.defineAll frame names values).pinned = env.pinned := by
  induction names generalizing env values with
  | nil => rfl
  | cons name names ih =>
    cases values with
    | nil => rfl
    | cons value values => exact ih (env.define frame name value) values

/-- Bindings make no frame. -/
@[simp] theorem size_defineAll (env : Environment) (frame : FrameId) (names : List Symbol)
    (values : List Value) :
    (env.defineAll frame names values).frames.size = env.frames.size := by
  induction names generalizing env values with
  | nil => rfl
  | cons name names ih =>
    cases values with
    | nil => rfl
    | cons value values =>
      exact (ih (env.define frame name value) values).trans (size_define ..)

/-! ### The invariant -/

/-- The invariant of environments. -/
structure WellFormed (env : Environment) : Prop where
  /-- The global frame is always marked. -/
  pinned_pos : 0 < env.pinned
  pinned_le : env.pinned ≤ env.frames.size
  /-- The frame around another one is older. -/
  parent_lt : ∀ {i : Nat} {frame : Frame} {parent : FrameId},
    env.frames[i]? = some frame → frame.parent = some parent → parent.index < i
  /-- The closures in bindings refer to marked frames. -/
  below : ∀ {i : Nat} {frame : Frame} {name : Symbol} {value : Value},
    env.frames[i]? = some frame → (name, value) ∈ frame.bindings → value.Below env.pinned

/-- The environment at the beginning is well formed. -/
theorem wellFormed_new : WellFormed .new := by
  -- There is one frame, and it binds nothing.
  have hframes : ∀ {i : Nat} {frame : Frame}, Environment.new.frames[i]? = some frame →
      frame = ⟨[], none⟩ := by
    intro i frame h
    simp only [Environment.new, List.getElem?_toArray, List.getElem?_singleton] at h
    split at h
    · exact (Option.some.inj h).symm
    · exact nomatch h
  refine ⟨Nat.one_pos, Nat.le_refl 1, ?_, ?_⟩
  · intro i frame parent h hparent
    rw [hframes h] at hparent
    cases hparent
  · intro i frame name value h hb
    rw [hframes h] at hb
    cases hb

namespace WellFormed

variable {env : Environment}

/-- There is a global frame. -/
theorem size_pos (h : env.WellFormed) : 0 < env.frames.size :=
  Nat.lt_of_lt_of_le h.pinned_pos h.pinned_le

/-- The symbols do not matter. -/
theorem withSymbols (h : env.WellFormed) (symbols : SymbolTable) :
    WellFormed { env with symbols := symbols } :=
  ⟨h.pinned_pos, h.pinned_le, h.parent_lt, h.below⟩

/-- Interning a name keeps an environment well formed. -/
theorem intern (h : env.WellFormed) (name : String) : (env.intern name).2.WellFormed :=
  h.withSymbols _

/-- A new frame inside one that is there keeps an environment well formed. -/
theorem extend (h : env.WellFormed) {home : FrameId} (hhome : home.index < env.frames.size) :
    (env.extend home).2.WellFormed := by
  refine ⟨h.pinned_pos, ?_, ?_, ?_⟩
  · rw [pinned_extend, size_extend]
    exact Nat.le_succ_of_le h.pinned_le
  · intro i frame parent hi hparent
    rw [getElem?_extend] at hi
    split at hi
    -- The new frame comes after the one around it.
    · rename_i hsize
      obtain rfl := Option.some.inj hi
      obtain rfl := Option.some.inj hparent
      rw [hsize]
      exact hhome
    · exact h.parent_lt hi hparent
  · intro i frame name value hi hb
    rw [getElem?_extend] at hi
    split at hi
    · obtain rfl := Option.some.inj hi
      cases hb
    · exact h.below hi hb

/-- Capturing a frame that is there keeps an environment well formed. -/
theorem capture (h : env.WellFormed) {frame : FrameId}
    (hframe : frame.index < env.frames.size) : (env.capture frame).WellFormed := by
  -- The mark goes up at most to just above a frame that is there.
  have hle := env.pinned_le_capture frame
  refine ⟨Nat.lt_of_lt_of_le h.pinned_pos hle, ?_, h.parent_lt, ?_⟩
  · show max env.pinned (frame.index + 1) ≤ env.frames.size
    exact Nat.max_le.mpr ⟨h.pinned_le, hframe⟩
  · intro i holder name value hi hb
    exact (h.below hi hb).mono hle

/-- Releasing a frame keeps an environment well formed. -/
theorem release (h : env.WellFormed) (frame : FrameId) : (env.release frame).WellFormed := by
  refine ⟨h.pinned_pos, ?_, ?_, ?_⟩
  -- The marked frames are kept, so the mark stays within the arena.
  · have hle := h.pinned_le
    rw [pinned_release, size_release]
    omega
  · intro i other parent hi hparent
    rw [getElem?_release] at hi
    split at hi
    · exact h.parent_lt hi hparent
    · cases hi
  · intro i other name value hi hb
    rw [getElem?_release] at hi
    split at hi
    · exact h.below hi hb
    · cases hi

/-- Binding a name to a value that refers to marked frames keeps an environment well formed. -/
theorem define (h : env.WellFormed) (frame : FrameId) (name : Symbol) {value : Value}
    (hvalue : value.Below env.pinned) : (env.define frame name value).WellFormed := by
  refine ⟨h.pinned_pos, ?_, ?_, ?_⟩
  · rw [pinned_define, size_define]
    exact h.pinned_le
  · intro i other parent hi hparent
    rw [getElem?_define] at hi
    split at hi
    · obtain ⟨old, hold, rfl⟩ := Option.map_eq_some_iff.mp hi
      exact h.parent_lt hold hparent
    · exact h.parent_lt hi hparent
  · intro i other otherName old hi hb
    rw [getElem?_define] at hi
    split at hi
    · obtain ⟨old, hold, rfl⟩ := Option.map_eq_some_iff.mp hi
      -- The frame has the new binding and those that it had before.
      rcases mem_putBinding hb with hb | hb
      · rw [(Prod.mk.inj hb).2]
        exact hvalue
      · exact h.below hold hb
    · exact h.below hi hb

/-- Binding names to such values keeps an environment well formed. -/
theorem defineAll (h : env.WellFormed) (frame : FrameId) (names : List Symbol)
    {values : List Value} (hvalues : ∀ value ∈ values, value.Below env.pinned) :
    (env.defineAll frame names values).WellFormed := by
  induction names generalizing env values with
  | nil => exact h
  | cons name names ih =>
    cases values with
    | nil => exact h
    | cons value values =>
      exact ih (h.define frame name (hvalues value List.mem_cons_self))
        fun other hother => hvalues other (List.mem_cons_of_mem _ hother)

/-- The end of a call keeps an environment well formed. -/
theorem leave (h : env.WellFormed) (policy : FramePolicy) (frame : FrameId) :
    (policy.leave frame env).WellFormed := by
  cases policy with
  | reclaim => exact h.release frame
  | retain => exact h

/-- Installing native functions binds names to values without closures. -/
theorem install (h : env.WellFormed) (registry : Registry) : (registry.install env).WellFormed := by
  simp only [Registry.install]
  induction registry.names generalizing env with
  | nil => exact h
  | cons name names ih =>
    refine ih ?_
    simp only [Registry.installName]
    split
    · exact h.intern name
    · exact (h.intern name).define .global _ trivial

/-! ### Walks outward -/

/-- What a name stands for refers to marked frames only. -/
theorem below_lookup (h : env.WellFormed) {frame : FrameId} {name : Symbol} {value : Value}
    (hlookup : env.lookup? frame name = some value) : value.Below env.pinned := by
  obtain ⟨found, _, hlocal⟩ := Option.bind_eq_some_iff.mp hlookup
  obtain ⟨holder, hholder, hget⟩ := Option.bind_eq_some_iff.mp hlocal
  exact h.below hholder (Frame.mem_of_get? hget)

end WellFormed

/-- The walk outward from a place for a name reads the frame at another place: it reads
    the first one, and the one around each that does not bind the name. -/
inductive Reads (env : Environment) (name : Symbol) (place : Nat) : Nat → Prop where
  | here : env.Reads name place place
  | outward {i : Nat} {frame : Frame} {parent : FrameId} (h : env.Reads name place i)
      (hframe : env.frames[i]? = some frame) (hbinds : frame.binds name = false)
      (hparent : frame.parent = some parent) : env.Reads name place parent.index

/-- Every frame that a walk reads is there, if the first one is. -/
theorem WellFormed.lt_size_of_reads {env : Environment} (h : env.WellFormed) {name : Symbol}
    {place i : Nat} (hplace : place < env.frames.size) (hreads : env.Reads name place i) :
    i < env.frames.size := by
  induction hreads with
  | here => exact hplace
  | outward _ hframe _ hparent ih => exact Nat.lt_trans (h.parent_lt hframe hparent) ih

end Environment

end LispSession
