import LispSession.Proofs.Frames.InFlight

/-!
# Environments with frames in other places

Two environments may hold the same scopes in different places. `Relocated r env env'`
says that each frame `i` of the first stands at `r i` in the second, with the frames
that it refers to moved likewise; the second may hold more frames than that. Names stand
for the same values in both, and the operations keep the environments alike: a new frame
comes after all others in both, and frames may be dropped from the first alone.

* `Relocated.lookup`    what a name stands for
* `Relocated.extend`    a new frame moves to the end of the second environment
* `Relocated.release`   dropping frames from the first environment
-/

namespace LispSession

/-- The frame with the frames that it refers to moved. -/
def Frame.relocate (r : Nat → Nat) (frame : Frame) : Frame where
  bindings := frame.bindings.map fun b => (b.1, b.2.relocate r)
  parent := frame.parent.map (FrameId.relocate r)

/-- The frames in a binding are moved before or after it is put. -/
private theorem putBinding_relocate (r : Nat → Nat) (name : Symbol) (value : Value)
    (bindings : List (Symbol × Value)) :
    (putBinding name value bindings).map (fun b => (b.1, b.2.relocate r)) =
      putBinding name (value.relocate r) (bindings.map fun b => (b.1, b.2.relocate r)) := by
  induction bindings with
  | nil => rfl
  | cons first bindings ih =>
    simp only [List.map_cons, putBinding]
    split
    · rfl
    · rw [List.map_cons, ih]

/-- The frames in a frame's bindings are moved before or after another one is put. -/
private theorem Frame.put_relocate (r : Nat → Nat) (frame : Frame) (name : Symbol) (value : Value) :
    (frame.put name value).relocate r = (frame.relocate r).put name (value.relocate r) := by
  simp only [Frame.relocate, Frame.put, putBinding_relocate]

/-- What a frame binds to a name is moved with it. -/
private theorem Frame.get?_relocate (r : Nat → Nat) (frame : Frame) (name : Symbol) :
    (frame.relocate r).get? name = (frame.get? name).map (Value.relocate r) := by
  obtain ⟨bindings, parent⟩ := frame
  simp only [Frame.relocate, Frame.get?]
  induction bindings with
  | nil => rfl
  | cons first bindings ih =>
    rw [List.map_cons, List.lookup_cons, List.lookup_cons]
    cases name == first.1 with
    | true => rfl
    | false => exact ih

/-- Moving frames changes no names. -/
private theorem Frame.binds_relocate (r : Nat → Nat) (frame : Frame) (name : Symbol) :
    (frame.relocate r).binds name = frame.binds name := by
  simp only [Frame.binds, Frame.get?_relocate, Option.isSome_map]

namespace Environment

/-- Each frame `i` of the first environment stands at `r i` in the second one. -/
structure Relocated (r : Nat → Nat) (env env' : Environment) : Prop where
  symbols : env'.symbols = env.symbols
  global : r 0 = 0
  lt_size : ∀ {i : Nat}, i < env.frames.size → r i < env'.frames.size
  mono : ∀ {i j : Nat}, i < j → j < env.frames.size → r i < r j
  frames : ∀ {i : Nat} {frame : Frame}, env.frames[i]? = some frame →
    env'.frames[r i]? = some (frame.relocate r)

/-- Two moves that agree on all frames of an environment move each of them alike. -/
private theorem WellFormed.frame_relocate_congr {env : Environment} (h : env.WellFormed)
    {r r' : Nat → Nat} (hr : ∀ i < env.frames.size, r i = r' i) {i : Nat} {frame : Frame}
    (hi : env.frames[i]? = some frame) : frame.relocate r = frame.relocate r' := by
  have hsize : i < env.frames.size := (Array.getElem?_eq_some_iff.mp hi).1
  -- The values refer to marked frames, and the frame around is an older one.
  have hbindings : ∀ b ∈ frame.bindings, (b.1, b.2.relocate r) = (b.1, b.2.relocate r') :=
    fun b hb => by rw [Value.relocate_congr hr ((h.below hi hb).mono h.pinned_le)]
  have hparent : frame.parent.map (FrameId.relocate r) =
      frame.parent.map (FrameId.relocate r') := by
    cases hp : frame.parent with
    | none => rfl
    | some parent =>
      have hlt := Nat.lt_trans (h.parent_lt hi hp) hsize
      simp only [Option.map_some, FrameId.relocate, hr parent.index hlt]
  simp only [Frame.relocate, List.map_congr_left hbindings, hparent]

/-- The frame that binds a name is there. -/
theorem lt_size_of_binder {env : Environment} {frame found : FrameId} {name : Symbol}
    (h : env.binder? frame name = some found) : found.index < env.frames.size := by
  -- By the place in the arena, from older frames on: the search goes outward.
  suffices ∀ i, env.binderFrom? name i = some found → found.index < env.frames.size from
    this frame.index h
  intro i
  induction i using Nat.strongRecOn with
  | ind i ih =>
    intro hi
    rw [binderFrom?] at hi
    split at hi
    · cases hi
    · rename_i holder hholder
      split at hi
      · rw [← Option.some.inj hi]
        exact (Array.getElem?_eq_some_iff.mp hholder).1
      · split at hi
        · cases hi
        · split at hi
          · rename_i parent _ hlt
            exact ih parent.index hlt hi
          · cases hi

namespace Relocated

variable {r : Nat → Nat} {env env' : Environment}

/-- Different frames stay different. -/
private theorem inj (h : Relocated r env env') {i j : Nat} (hi : i < env.frames.size)
    (hj : j < env.frames.size) (heq : r i = r j) : i = j := by
  rcases Nat.lt_trichotomy i j with hlt | rfl | hlt
  · exact absurd heq (Nat.ne_of_lt (h.mono hlt hj))
  · rfl
  · exact absurd heq.symm (Nat.ne_of_lt (h.mono hlt hi))

/-- The walk outward for a name ends in the same frame. -/
private theorem binderFrom (h : Relocated r env env') (hwf : env.WellFormed) (name : Symbol) :
    ∀ {i : Nat}, i < env.frames.size →
      env'.binderFrom? name (r i) = (env.binderFrom? name i).map (FrameId.relocate r) := by
  intro i
  -- The frame around another one is older, in both environments.
  induction i using Nat.strongRecOn with
  | ind i ih =>
    intro hi
    have hframe : env.frames[i]? = some env.frames[i] := Array.getElem?_eq_getElem hi
    rw [binderFrom?, binderFrom?, h.frames hframe, hframe]
    simp only [Frame.binds_relocate]
    split
    · rfl
    · cases hparent : env.frames[i].parent with
      | none => simp only [Frame.relocate, hparent, Option.map_none]
      | some parent =>
        have hlt := hwf.parent_lt hframe hparent
        have hlt' : (parent.relocate r).index < r i := h.mono hlt hi
        simp only [Frame.relocate, hparent, Option.map_some]
        rw [if_pos hlt, if_pos hlt']
        exact ih parent.index hlt (Nat.lt_trans hlt hi)

/-- The same frame binds a name in both environments. -/
theorem binder (h : Relocated r env env') (hwf : env.WellFormed) {frame : FrameId}
    (hframe : frame.index < env.frames.size) (name : Symbol) :
    env'.binder? (frame.relocate r) name = (env.binder? frame name).map (FrameId.relocate r) :=
  h.binderFrom hwf name hframe

/-- The values that a frame binds are the same in both environments. -/
private theorem local? (h : Relocated r env env') {frame : FrameId}
    (hframe : frame.index < env.frames.size) (name : Symbol) :
    env'.local? (frame.relocate r) name = (env.local? frame name).map (Value.relocate r) := by
  have hhere := Array.getElem?_eq_getElem hframe
  simp only [Environment.local?, FrameId.index_relocate, h.frames hhere, hhere,
    Option.bind_some, Frame.get?_relocate]

/-- A name stands for the same value. -/
theorem lookup (h : Relocated r env env') (hwf : env.WellFormed) {frame : FrameId}
    (hframe : frame.index < env.frames.size) (name : Symbol) :
    env'.lookup? (frame.relocate r) name = (env.lookup? frame name).map (Value.relocate r) := by
  simp only [lookup?, h.binder hwf hframe]
  cases hfound : env.binder? frame name with
  | none => rfl
  | some found => exact h.local? (lt_size_of_binder hfound) name

/-- Binding a name in both environments keeps them the same. -/
theorem define (h : Relocated r env env') {frame : FrameId}
    (hframe : frame.index < env.frames.size) (name : Symbol) (value : Value) :
    Relocated r (env.define frame name value)
      (env'.define (frame.relocate r) name (value.relocate r)) := by
  refine ⟨h.symbols, h.global, ?_, ?_, ?_⟩
  · intro i hi
    rw [size_define] at hi ⊢
    exact h.lt_size hi
  · intro i j hij hj
    rw [size_define] at hj
    exact h.mono hij hj
  · intro i other hi
    have hsize : i < env.frames.size := by
      rw [← size_define env frame name value]
      exact (Array.getElem?_eq_some_iff.mp hi).1
    rw [getElem?_define] at hi ⊢
    -- The frame is changed in both environments, and every other one in neither.
    split at hi
    · rename_i heq
      have heq' : (frame.relocate r).index = r i := congrArg r heq
      obtain ⟨old, hold, rfl⟩ := Option.map_eq_some_iff.mp hi
      rw [if_pos heq', h.frames hold, Option.map_some, Frame.put_relocate]
    · rename_i hne
      have hne' : (frame.relocate r).index ≠ r i := fun heq => hne (h.inj hframe hsize heq)
      rw [if_neg hne', h.frames hi]

/-- Binding names in both environments keeps them the same. -/
theorem defineAll (h : Relocated r env env') {frame : FrameId}
    (hframe : frame.index < env.frames.size) (names : List Symbol) (values : List Value) :
    Relocated r (env.defineAll frame names values)
      (env'.defineAll (frame.relocate r) names (values.map (Value.relocate r))) := by
  induction names generalizing env env' values with
  | nil => exact h
  | cons name names ih =>
    cases values with
    | nil => exact h
    | cons value values =>
      exact ih (h.define hframe name value) (by rw [size_define]; exact hframe) values

/-- Capturing frames keeps the environments the same, since marks need not agree. -/
theorem capture (h : Relocated r env env') (frame frame' : FrameId) :
    Relocated r (env.capture frame) (env'.capture frame') :=
  ⟨h.symbols, h.global, h.lt_size, h.mono, h.frames⟩

/-- A name gets the same symbol in both environments. -/
theorem intern (h : Relocated r env env') (name : String) :
    (env'.intern name).1 = (env.intern name).1 ∧
      Relocated r (env.intern name).2 (env'.intern name).2 := by
  have hsymbols : env'.symbols.intern name = env.symbols.intern name := by rw [h.symbols]
  refine ⟨?_, ?_, h.global, h.lt_size, h.mono, h.frames⟩
  · simp only [Environment.intern, hsymbols]
  · simp only [Environment.intern, hsymbols]

/-- A new frame comes after all others in both environments. -/
theorem extend (h : Relocated r env env') (hwf : env.WellFormed) {home : FrameId}
    (hhome : home.index < env.frames.size) :
    Relocated (fun i => if i = env.frames.size then env'.frames.size else r i)
      (env.extend home).2 (env'.extend (home.relocate r)).2 := by
  have hagree : ∀ i < env.frames.size,
      r i = if i = env.frames.size then env'.frames.size else r i :=
    fun i hi => (if_neg (Nat.ne_of_lt hi)).symm
  refine ⟨h.symbols, ?_, ?_, ?_, ?_⟩
  · rw [← hagree 0 hwf.size_pos, h.global]
  · intro i hi
    rw [size_extend] at hi ⊢
    split
    · exact Nat.lt_succ_self _
    · have hold : i < env.frames.size := by omega
      exact Nat.lt_succ_of_lt (h.lt_size hold)
  · intro i j hij hj
    rw [size_extend] at hj
    have hi : i ≠ env.frames.size := by omega
    rw [if_neg hi]
    split
    · have hold : i < env.frames.size := by omega
      exact h.lt_size hold
    · have hold : j < env.frames.size := by omega
      exact h.mono hij hold
  · intro i frame hi
    rw [getElem?_extend] at hi ⊢
    -- The new frame has no bindings yet; the others are as they were.
    split at hi
    · rename_i heq
      obtain rfl := Option.some.inj hi
      rw [if_pos (if_pos heq)]
      simp only [Frame.relocate, List.map_nil, Option.map_some, FrameId.relocate,
        if_neg (Nat.ne_of_lt hhome)]
    · rename_i hne
      have hsize : i < env.frames.size := (Array.getElem?_eq_some_iff.mp hi).1
      have hother : r i ≠ env'.frames.size := Nat.ne_of_lt (h.lt_size hsize)
      rw [if_neg hne, if_neg hother, h.frames hi, hwf.frame_relocate_congr hagree hi]

/-- Frames may be dropped from the first environment alone. -/
theorem release (h : Relocated r env env') (frame : FrameId) :
    Relocated r (env.release frame) env' := by
  have hle : (env.release frame).frames.size ≤ env.frames.size := by
    rw [size_release]
    exact Nat.min_le_right ..
  refine ⟨h.symbols, h.global, ?_, ?_, ?_⟩
  · intro i hi
    exact h.lt_size (Nat.lt_of_lt_of_le hi hle)
  · intro i j hij hj
    exact h.mono hij (Nat.lt_of_lt_of_le hj hle)
  · intro i other hi
    rw [getElem?_release] at hi
    -- Nothing is said of a frame that was dropped, so the second one may keep it.
    split at hi
    · exact h.frames hi
    · cases hi

/-- The native functions are bound under the same names. -/
theorem install (h : Relocated r env env') (hwf : env.WellFormed) (registry : Registry) :
    Relocated r (registry.install env) (registry.install env') := by
  -- Each native function is bound in both environments, or bound already in both.
  simp only [Registry.install]
  induction registry.names generalizing env env' with
  | nil => exact h
  | cons name names ih =>
    obtain ⟨hsymbol, hintern⟩ := h.intern name
    have hpos : FrameId.global.index < (env.intern name).2.frames.size := hwf.size_pos
    have hglobal : FrameId.global.relocate r = .global := congrArg FrameId.mk h.global
    have hbinds : (env'.intern name).2.bindsLocally .global (env'.intern name).1 =
        (env.intern name).2.bindsLocally .global (env.intern name).1 := by
      have hlocal := hintern.local? hpos (env.intern name).1
      rw [hglobal] at hlocal
      simp only [bindsLocally, hsymbol, hlocal, Option.isSome_map]
    have hdefine := hintern.define hpos (env.intern name).1 (.native name)
    rw [hglobal] at hdefine
    simp only [List.foldl_cons, Registry.installName, hbinds]
    split
    · exact ih hintern (hwf.intern name)
    · rw [hsymbol]
      exact ih hdefine ((hwf.intern name).define .global _ trivial)

/-- The symbol tables may be replaced by a common one. -/
theorem withSymbols (h : Relocated r env env') (symbols : SymbolTable) :
    Relocated r { env with symbols := symbols } { env' with symbols := symbols } :=
  ⟨rfl, h.global, h.lt_size, h.mono, h.frames⟩

end Relocated

/-- A fresh environment, with its one frame where it is. -/
theorem relocated_new : Relocated id .new .new := by
  refine ⟨rfl, rfl, id, fun hij _ => hij, ?_⟩
  intro i frame hi
  have hsize : i < 1 := (Array.getElem?_eq_some_iff.mp hi).1
  obtain rfl : i = 0 := Nat.lt_one_iff.mp hsize
  obtain rfl : (⟨[], none⟩ : Frame) = frame := Option.some.inj hi
  rfl

end Environment

end LispSession
