import LispSession.Proofs.Frames.Arena

/-!
# Scopes

Any number of frames are inside the same one, so what is written to a frame is seen from some
frames and hidden from others by bindings on the way. What a name stands for, seen from a frame,
is what the first frame binds to it that is met on the way outward. A definition and an
assignment are seen exactly from the frames for which this is the frame they write to.

* `Nested.binder?_eq_some_iff`, `Nested.binder?_eq_none_iff`  what a walk for a name finds
* `Nested.lookup?_define`        what names stand for after a definition
* `writes_seen_outward`          the laws of definition and assignment
-/

namespace LispSession

/-- A frame that binds a name does not grow when it is bound again. -/
private theorem Frame.length_put {frame : Frame} {name : Symbol} (h : frame.binds name = true)
    (value : Value) : (frame.put name value).bindings.length = frame.bindings.length := by
  obtain ⟨bindings, parent⟩ := frame
  simp only [binds, get?] at h
  simp only [put]
  -- The name is found, and its binding is replaced where it stands.
  induction bindings with
  | nil => cases h
  | cons first bindings ih =>
    obtain ⟨other, old⟩ := first
    simp only [putBinding]
    split
    · rfl
    · rename_i hne
      rw [List.lookup_cons, beq_eq_false_iff_ne.mpr (Ne.symm hne)] at h
      rw [List.length_cons, ih h, List.length_cons]

namespace Environment

/-! ### Bindings of one frame -/

/-- Binding a name changes what that name stands for in that frame, and nothing else. -/
theorem local?_define {env : Environment} {changed : FrameId} (hlive : env.Live changed)
    (name : Symbol) (value : Value) (frame : FrameId) (other : Symbol) :
    (env.define changed name value).local? frame other =
      if frame = changed ∧ other = name then some value else env.local? frame other := by
  unfold local?
  rw [getElem?_define]
  by_cases hframe : frame = changed
  · subst hframe
    rw [if_pos rfl, Array.getElem?_eq_getElem hlive, Option.map_some, Option.bind_some,
      Frame.get?_put]
    simp
  · have hindex : changed.index ≠ frame.index := fun heq => hframe (congrArg FrameId.mk heq.symm)
    rw [if_neg hindex, if_neg fun hboth => hframe hboth.1]

/-- A frame that binds a name is there. -/
private theorem live_of_bindsLocally {env : Environment} {frame : FrameId} {name : Symbol}
    (h : env.bindsLocally frame name = true) : env.Live frame := by
  obtain ⟨value, hvalue⟩ := Option.isSome_iff_exists.mp h
  obtain ⟨found, hfound, -⟩ := Option.bind_eq_some_iff.mp hvalue
  exact (Array.getElem?_eq_some_iff.mp hfound).1

/-- Where a name is bound already, it is only its value that changes. -/
private theorem bindsLocally_define_of_binds {env : Environment} {changed : FrameId} {name : Symbol}
    (h : env.bindsLocally changed name = true) (value : Value) (frame : FrameId) (other : Symbol) :
    (env.define changed name value).bindsLocally frame other = env.bindsLocally frame other := by
  unfold bindsLocally
  rw [local?_define (live_of_bindsLocally h)]
  split
  · rename_i heq
    rw [heq.1, heq.2]
    exact h.symm
  · rfl

/-- Binding a name that the frame binds already adds no binding. -/
private theorem bindingCount_define_of_binds {env : Environment} {changed : FrameId} {name : Symbol}
    (h : env.bindsLocally changed name = true) (value : Value) :
    (env.define changed name value).bindingCount = env.bindingCount := by
  -- Each frame has as many bindings as before.
  have hlengths : (env.define changed name value).frames.map (·.bindings.length) =
      env.frames.map (·.bindings.length) := by
    refine Array.ext_getElem? fun i => ?_
    rw [Array.getElem?_map, Array.getElem?_map, getElem?_define]
    split
    · rename_i hi
      cases hframe : env.frames[i]? with
      | none => rfl
      | some frame =>
        have hbinds : frame.binds name = true := by
          rw [bindsLocally, local?, hi, hframe] at h
          exact h
        rw [Option.map_some, Option.map_some, Option.map_some, Frame.length_put hbinds]
    · rfl
  have hsum : ∀ frames : Array Frame, frames.foldl (fun n frame => n + frame.bindings.length) 0 =
      (frames.map (·.bindings.length)).foldl (· + ·) 0 := by
    intro frames
    rw [Array.foldl_map]
  rw [bindingCount, hsum, hlengths, ← hsum, bindingCount]

/-! ### The first binder -/

/-- A frame is met on the way outward from another one. -/
def OnChain (env : Environment) (frame other : FrameId) : Prop :=
  ∃ n, env.outward? frame n = some other

/-- The first frame that binds a name on the way outward from a frame. -/
def FirstBinder (env : Environment) (frame : FrameId) (name : Symbol) (found : FrameId) : Prop :=
  ∃ n, env.outward? frame n = some found ∧ env.bindsLocally found name = true ∧
    ∀ m < n, ∀ between, env.outward? frame m = some between →
      env.bindsLocally between name = false

section

variable {env : Environment} {frame : FrameId} {name : Symbol}

/-- Where the frame itself binds the name, it is the first to do so. -/
private theorem firstBinder_of_binds (h : env.bindsLocally frame name = true) {found : FrameId} :
    env.FirstBinder frame name found ↔ frame = found := by
  constructor
  · rintro ⟨n, hn, -, hbetween⟩
    cases n with
    | zero => exact Option.some.inj hn
    | succ n =>
      have hfirst := hbetween 0 (Nat.succ_pos n) frame rfl
      rw [h] at hfirst
      cases hfirst
  · rintro rfl
    exact ⟨0, rfl, h, fun m hm => absurd hm (Nat.not_lt_zero m)⟩

/-- Where the frame does not bind the name, the first to do so is found around it. -/
private theorem firstBinder_of_not_binds (h : env.bindsLocally frame name = false)
    {found : FrameId} : env.FirstBinder frame name found ↔
      ∃ parent, env.parent? frame = some parent ∧ env.FirstBinder parent name found := by
  constructor
  · rintro ⟨n, hn, hfound, hbetween⟩
    cases n with
    | zero =>
      obtain rfl := Option.some.inj hn
      rw [h] at hfound
      cases hfound
    | succ n =>
      rw [outward?_succ] at hn
      obtain ⟨parent, hparent, hn⟩ := Option.bind_eq_some_iff.mp hn
      refine ⟨parent, hparent, n, hn, hfound, fun m hm between hm' => ?_⟩
      refine hbetween (m + 1) (Nat.succ_lt_succ hm) between ?_
      rw [outward?_succ, hparent]
      exact hm'
  -- The walk from the frame takes one step more.
  · rintro ⟨parent, hparent, n, hn, hfound, hbetween⟩
    refine ⟨n + 1, ?_, hfound, fun m hm between hm' => ?_⟩
    · rw [outward?_succ, hparent]
      exact hn
    · cases m with
      | zero => exact Option.some.inj hm' ▸ h
      | succ m =>
        rw [outward?_succ, hparent] at hm'
        exact hbetween m (Nat.lt_of_succ_lt_succ hm) between hm'

/-- A walk outward visits the frame itself and what a walk from the one around it visits. -/
private theorem onChain_iff {other : FrameId} : env.OnChain frame other ↔
    frame = other ∨ ∃ parent, env.parent? frame = some parent ∧ env.OnChain parent other := by
  constructor
  · rintro ⟨n, hn⟩
    cases n with
    | zero => exact .inl (Option.some.inj hn)
    | succ n =>
      rw [outward?_succ] at hn
      obtain ⟨parent, hparent, hn⟩ := Option.bind_eq_some_iff.mp hn
      exact .inr ⟨parent, hparent, n, hn⟩
  · rintro (rfl | ⟨parent, hparent, n, hn⟩)
    · exact ⟨0, rfl⟩
    · refine ⟨n + 1, ?_⟩
      rw [outward?_succ, hparent]
      exact hn

end

namespace Nested

variable {env : Environment} (h : env.Nested)

include h

/-- The walk for a name ends where it is bound, and goes on outward where it is not. -/
private theorem binder?_eq {frame : FrameId} (hlive : env.Live frame) (name : Symbol) :
    env.binder? frame name =
      if env.bindsLocally frame name then some frame
      else (env.parent? frame).bind fun parent => env.binder? parent name := by
  have hframe : env.frames[frame.index]? = some env.frames[frame.index] :=
    Array.getElem?_eq_getElem hlive
  have hbinds : env.bindsLocally frame name = env.frames[frame.index].binds name := by
    rw [bindsLocally, local?, hframe]
    rfl
  have hparent : env.parent? frame = env.frames[frame.index].parent := by
    rw [parent?, hframe]
    rfl
  rw [hbinds, binder?, binderFrom?, hframe]
  simp only
  -- Either the frame binds the name, or the search goes on around it, in an older frame.
  split
  · rfl
  · rw [hparent]
    cases hfound : env.frames[frame.index].parent with
    | none => rfl
    | some parent =>
      have hlt := h.lt_of_parent? (hparent.trans hfound)
      simp only [if_pos hlt]
      rfl

/-- The search for a name finds the first frame outward that binds it. -/
theorem binder?_eq_some_iff {frame : FrameId} (hlive : env.Live frame) {name : Symbol}
    {found : FrameId} :
    env.binder? frame name = some found ↔ env.FirstBinder frame name found := by
  -- Along the frames outward, each search step being one of the walk.
  refine h.induct (P := fun frame => env.binder? frame name = some found ↔
    env.FirstBinder frame name found) (fun frame hlive ih => ?_) hlive
  rw [h.binder?_eq hlive]
  split
  · rename_i hbinds
    rw [firstBinder_of_binds hbinds, Option.some.injEq]
  · rename_i hbinds
    rw [firstBinder_of_not_binds (Bool.eq_false_iff.mpr hbinds), Option.bind_eq_some_iff]
    constructor
    · rintro ⟨parent, hparent, hfound⟩
      exact ⟨parent, hparent, (ih parent hparent).2.mp hfound⟩
    · rintro ⟨parent, hparent, hfound⟩
      exact ⟨parent, hparent, (ih parent hparent).2.mpr hfound⟩

/-- The search for a name fails where no frame outward binds it. -/
theorem binder?_eq_none_iff {frame : FrameId} (hlive : env.Live frame) {name : Symbol} :
    env.binder? frame name = none ↔
      ∀ other, env.OnChain frame other → env.bindsLocally other name = false := by
  -- Induction outward: a frame that binds the name ends the search, any other one passes it on.
  refine h.induct (P := fun frame => env.binder? frame name = none ↔
    ∀ other, env.OnChain frame other → env.bindsLocally other name = false)
    (fun frame hlive ih => ?_) hlive
  rw [h.binder?_eq hlive]
  split
  · rename_i hbinds
    constructor
    · intro hnone
      cases hnone
    · intro hall
      rw [hall frame ⟨0, rfl⟩] at hbinds
      cases hbinds
  · rename_i hbinds
    rw [Option.bind_eq_none_iff]
    constructor
    · intro hnone other hother
      rcases onChain_iff.mp hother with rfl | ⟨parent, hparent, hother⟩
      · exact Bool.eq_false_iff.mpr hbinds
      · exact (ih parent hparent).2.mp (hnone parent hparent) other hother
    · intro hall parent hparent
      exact (ih parent hparent).2.mpr fun other hother =>
        hall other (onChain_iff.mpr (.inr ⟨parent, hparent, hother⟩))

/-! ### Definitions -/

variable {changed : FrameId} (hchanged : env.Live changed) (name : Symbol) (value : Value)

include hchanged

/-- After a definition the walk for a name ends where it did before or where it is defined. -/
private theorem binder?_define {frame : FrameId} (hlive : env.Live frame) (other : Symbol) :
    (env.define changed name value).binder? frame other = env.binder? frame other ∨
      other = name ∧ (env.define changed name value).binder? frame other = some changed := by
  refine h.induct (P := fun frame =>
    (env.define changed name value).binder? frame other = env.binder? frame other ∨
      other = name ∧ (env.define changed name value).binder? frame other = some changed)
    (fun frame hlive ih => ?_) hlive
  have hlive' : (env.define changed name value).Live frame := by
    unfold Live
    rwa [size_define]
  rw [(h.define changed name value).binder?_eq hlive', h.binder?_eq hlive, bindsLocally,
    local?_define hchanged, bindsLocally, parent?_define]
  by_cases hhere : frame = changed ∧ other = name
  · right
    rw [if_pos hhere, hhere.1]
    exact ⟨hhere.2, rfl⟩
  · rw [if_neg hhere]
    split
    · exact .inl rfl
    -- The frame does not bind the name, before and after: the walk goes on outward.
    · cases hparent : env.parent? frame with
      | none => exact .inl rfl
      | some parent => exact (ih parent hparent).2

/-- A definition is seen from the frames from which its frame is the first to bind the name, and
    nothing else has changed. -/
theorem lookup?_define {frame : FrameId} (hlive : env.Live frame) (other : Symbol) :
    (env.define changed name value).lookup? frame other =
      if other = name ∧ (env.define changed name value).binder? frame name = some changed then
        some value
      else env.lookup? frame other := by
  have hvalue : (env.define changed name value).local? changed name = some value := by
    rw [local?_define hchanged, if_pos ⟨rfl, rfl⟩]
  -- What has changed is seen where the changed frame is the first to bind the name.
  by_cases hseen : other = name ∧ (env.define changed name value).binder? frame name = some changed
  · rw [if_pos hseen, lookup?, hseen.1, hseen.2]
    exact hvalue
  · rw [if_neg hseen]
    rcases h.binder?_define hchanged name value hlive other with heq | ⟨rfl, heq⟩
    · rw [lookup?, heq, lookup?]
      cases hbinder : env.binder? frame other with
      | none => rfl
      | some found =>
        have hother : ¬ (found = changed ∧ other = name) := by
          rintro ⟨rfl, rfl⟩
          exact hseen ⟨rfl, heq.trans hbinder⟩
        rw [Option.bind_some, Option.bind_some, local?_define hchanged, if_neg hother]
    · exact absurd ⟨rfl, heq⟩ hseen

/-- The same, by the first frame that binds the name on the way outward. -/
private theorem seen_define {viewer : FrameId} (hviewer : env.Live viewer) (other : Symbol) :
    let env' := env.define changed name value
    (other = name ∧ env'.FirstBinder viewer name changed →
      env'.lookup? viewer other = some value) ∧
    (¬ (other = name ∧ env'.FirstBinder viewer name changed) →
      env'.lookup? viewer other = env.lookup? viewer other) := by
  intro env'
  have hviewer' : env'.Live viewer := by
    unfold Live
    rwa [size_define]
  rw [h.lookup?_define hchanged name value hviewer,
    ← (h.define changed name value).binder?_eq_some_iff hviewer']
  exact ⟨fun hseen => if_pos hseen, fun hseen => if_neg hseen⟩

end Nested

/-! ### Assignments -/

/-- Two environments differ in the value that one frame binds to one name, which it binds in both,
    and in nothing else. -/
structure DifferAt (env env' : Environment) (found : FrameId) (name : Symbol) (value : Value) :
    Prop where
  pinned : env'.pinned = env.pinned
  symbols : env'.symbols = env.symbols
  size : env'.frames.size = env.frames.size
  parent? : ∀ frame, env'.parent? frame = env.parent? frame
  local? : ∀ frame other, env'.local? frame other =
    if frame = found ∧ other = name then some value else env.local? frame other
  bindsLocally : ∀ frame other, env'.bindsLocally frame other = env.bindsLocally frame other
  bindingCount : env'.bindingCount = env.bindingCount

/-- An assignment changes one binding of the frame that holds it, and nothing else. -/
private theorem differAt_define {env : Environment} {found : FrameId} {name : Symbol}
    (h : env.bindsLocally found name = true) (value : Value) :
    DifferAt env (env.define found name value) found name value where
  pinned := rfl
  symbols := rfl
  size := size_define ..
  parent? := parent?_define env found name value
  local? := local?_define (live_of_bindsLocally h) name value
  bindsLocally := bindsLocally_define_of_binds h value
  bindingCount := bindingCount_define_of_binds h value

/-- Walks outward only depend on which frame is around which. -/
private theorem outward?_congr {env env' : Environment}
    (h : ∀ frame, env'.parent? frame = env.parent? frame) (frame : FrameId) (n : Nat) :
    env'.outward? frame n = env.outward? frame n := by
  induction n with
  | zero => rfl
  | succ n ih => rw [outward?, outward?, ih, funext h]

/-- Where the frames bind the same names, they are found in the same frames. -/
private theorem DifferAt.firstBinder_iff {env env' : Environment} {found : FrameId} {name : Symbol}
    {value : Value} (h : DifferAt env env' found name value) (frame : FrameId) (other : Symbol)
    (binder : FrameId) :
    env'.FirstBinder frame other binder ↔ env.FirstBinder frame other binder := by
  simp only [FirstBinder, outward?_congr h.parent?, h.bindsLocally]

/-- What names stand for after a definition and after an assignment, in an environment to which
    anything may have been done before.

    A definition is seen from exactly those frames from which its frame is the first one that now
    binds the name. An assignment fails if and only if no frame on the way outward binds the name,
    and changes nothing then; otherwise it changes the value that the first such frame binds to
    the name, and nothing else, and is seen from exactly those frames from which that frame is the
    first one to bind the name. -/
theorem writes_seen_outward {env : Environment} (henv : Leads .new env) {frame : FrameId}
    (hframe : env.Live frame) (name : Symbol) (value : Value) :
    (∀ (viewer : FrameId) (other : Symbol), env.Live viewer →
        let env' := env.define frame name value
        (other = name ∧ env'.FirstBinder viewer name frame →
          env'.lookup? viewer other = some value) ∧
        (¬ (other = name ∧ env'.FirstBinder viewer name frame) →
          env'.lookup? viewer other = env.lookup? viewer other)) ∧
      (env.assign? frame name value = none ↔
        ∀ other, env.OnChain frame other → env.bindsLocally other name = false) ∧
      (∀ output, env.assign? frame name value = none →
        assignName name value frame ⟨env, output⟩ =
          .error (.unbound (env.symbols.nameOf name)) ⟨env, output⟩) ∧
      ∀ env', env.assign? frame name value = some env' →
        ∃ found, env.FirstBinder frame name found ∧ DifferAt env env' found name value ∧
          ∀ (viewer : FrameId) (other : Symbol), env.Live viewer →
            (other = name ∧ env.FirstBinder viewer name found →
              env'.lookup? viewer other = some value) ∧
            (¬ (other = name ∧ env.FirstBinder viewer name found) →
              env'.lookup? viewer other = env.lookup? viewer other) := by
  have hnested : env.Nested := nested_new.leads henv
  refine ⟨fun viewer other hviewer => hnested.seen_define hframe name value hviewer other,
    ?_, ?_, ?_⟩
  · rw [assign?, Option.map_eq_none_iff]
    exact hnested.binder?_eq_none_iff hframe
  -- An assignment that finds no frame is an error, and the state is as before.
  · intro output hnone
    have hnone' : (⟨env, output⟩ : State).env.assign? frame name value = none := hnone
    rw [assignName, hnone']
    rfl
  · intro env' hassign
    obtain ⟨found, hfound, rfl⟩ := Option.map_eq_some_iff.mp hassign
    have hfirst := (hnested.binder?_eq_some_iff hframe).mp hfound
    obtain ⟨-, -, hbinds, -⟩ := id hfirst
    have hdiffer := differAt_define hbinds value
    refine ⟨found, hfirst, hdiffer, fun viewer other hviewer => ?_⟩
    have hseen := hnested.seen_define (live_of_bindsLocally hbinds) name value hviewer other
    simp only [hdiffer.firstBinder_iff] at hseen
    exact hseen

/-- Two functions are called in the global frame, and one of them has a parameter of the same name
    as a global one: an assignment from the other call changes the global one, which the first
    call does not see. -/
theorem writes_seen_outward_past_shadow :
    let called := ((Environment.new.define .global ⟨0⟩ .null).extend .global).2
    let env := (called.extend .global).2.define ⟨2⟩ ⟨0⟩ (.boolean false)
    Leads .new env ∧ env.Live ⟨1⟩ ∧ ∃ env', env.assign? ⟨1⟩ ⟨0⟩ (.boolean true) = some env' ∧
      env'.lookup? .global ⟨0⟩ = some (.boolean true) ∧
      env'.lookup? ⟨2⟩ ⟨0⟩ = env.lookup? ⟨2⟩ ⟨0⟩ := by
  intro called env
  -- Each of the frames is there when it is used.
  have hleads : Leads .new env := by
    refine .tail (.tail (.tail (.single ⟨.define .global ⟨0⟩ .null, ?_, rfl⟩)
      ⟨.extend .global, ?_, rfl⟩) ⟨.extend .global, ?_, rfl⟩)
      ⟨.define ⟨2⟩ ⟨0⟩ (.boolean false), ?_, rfl⟩
    · exact Nat.lt_add_one 0
    · exact Nat.lt_add_one 0
    · exact Nat.zero_lt_two
    · exact Nat.lt_add_one 2
  have hlive : env.Live ⟨1⟩ := Nat.lt_succ_of_lt Nat.one_lt_two
  have hnested : env.Nested := nested_new.leads hleads
  have hglobal : env.bindsLocally .global ⟨0⟩ = true := rfl
  have hshadow : env.bindsLocally ⟨2⟩ ⟨0⟩ = true := rfl
  have hfirst : env.FirstBinder ⟨1⟩ ⟨0⟩ .global := by
    have hone : env.bindsLocally ⟨1⟩ ⟨0⟩ = false := rfl
    exact (firstBinder_of_not_binds hone).mpr
      ⟨.global, rfl, (firstBinder_of_binds hglobal).mpr rfl⟩
  have hassign : env.assign? ⟨1⟩ ⟨0⟩ (.boolean true) =
      some (env.define .global ⟨0⟩ (.boolean true)) := by
    rw [assign?, (hnested.binder?_eq_some_iff hlive).mpr hfirst]
    rfl
  obtain ⟨found, hfound, -, hseen⟩ :=
    (writes_seen_outward hleads hlive ⟨0⟩ (.boolean true)).2.2.2 _ hassign
  have hbinder := (hnested.binder?_eq_some_iff hlive).mpr hfound
  rw [(hnested.binder?_eq_some_iff hlive).mpr hfirst] at hbinder
  obtain rfl := Option.some.inj hbinder
  refine ⟨hleads, hlive, _, hassign, ?_, ?_⟩
  · exact (hseen .global ⟨0⟩ hnested.live_global).1 ⟨rfl, (firstBinder_of_binds hglobal).mpr rfl⟩
  · refine (hseen ⟨2⟩ ⟨0⟩ (Nat.lt_add_one 2)).2 fun hboth => ?_
    have heq := (firstBinder_of_binds hshadow).mp hboth.2
    cases heq

end Environment

end LispSession
