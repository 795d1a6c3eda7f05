import LispSession.Proofs.Frames.Effects
import LispSession.Session

/-!
# Definitions stay local

An evaluation in a frame keeps every frame that was there, with the frame around it and
with the names that it binds; only the frame of the evaluation itself may get new names,
and only those that the expression defines outside the bodies of functions. Values may
change everywhere, by assignments, and the frames of calls come and go above.

* `Frame.Grows`                   what may become of the names of a frame
* `closed_local`                  all that an evaluation does keeps to this
* `definitions_stay_local`        every evaluation and every call
-/

namespace LispSession

namespace Frame

/-- The frame binds a name exactly if it did before, or if the name is one of those added;
    the frame around it is the same. -/
structure Grows (old new : Frame) (Added : Symbol → Prop) : Prop where
  parent_eq : new.parent = old.parent
  binds_of_binds : ∀ name, old.binds name = true → new.binds name = true
  binds_or_added : ∀ name, new.binds name = true → old.binds name = true ∨ Added name

namespace Grows

variable {old new newer : Frame} {Added : Symbol → Prop}

/-- A frame that has not changed has grown by nothing. -/
private theorem refl (frame : Frame) (Added : Symbol → Prop) : frame.Grows frame Added :=
  ⟨rfl, fun _ h => h, fun _ h => .inl h⟩

/-- A frame that has grown twice has grown. -/
private theorem trans (h₁ : old.Grows new Added) (h₂ : new.Grows newer Added) :
    old.Grows newer Added where
  parent_eq := h₂.parent_eq.trans h₁.parent_eq
  binds_of_binds name h := h₂.binds_of_binds name (h₁.binds_of_binds name h)
  binds_or_added name h := (h₂.binds_or_added name h).elim (h₁.binds_or_added name) .inr

/-- A frame that has grown by some names has grown by more of them. -/
private theorem mono {Added' : Symbol → Prop} (h : old.Grows new Added)
    (hadded : ∀ name, Added name → Added' name) : old.Grows new Added' where
  parent_eq := h.parent_eq
  binds_of_binds := h.binds_of_binds
  binds_or_added name hname := (h.binds_or_added name hname).imp_right (hadded name)

/-- Without names that are added, the frame binds the same names as before. -/
private theorem binds_eq (h : old.Grows new fun _ => False) (name : Symbol) :
    new.binds name = old.binds name := by
  have hnew := h.binds_of_binds name
  have hold := h.binds_or_added name
  cases hb : old.binds name with
  | true => exact hnew hb
  | false => simpa [hb] using hold

/-- A binding adds one name at most. -/
private theorem put (frame : Frame) {name : Symbol} (value : Value)
    (h : frame.binds name = true ∨ Added name) : frame.Grows (frame.put name value) Added where
  parent_eq := rfl
  binds_of_binds other hother := by
    simp only [Frame.binds, get?_put] at hother ⊢
    split
    · rfl
    · exact hother
  binds_or_added other hother := by
    by_cases heq : other = name
    · rw [heq]
      exact h
    · simp only [Frame.binds, get?_put, if_neg heq] at hother
      exact .inl hother

end Grows

end Frame

namespace Environment

variable {Added : Nat → Symbol → Prop} {env env' : Environment}

/-- Every frame is still there, and has got at most the names that its place may get. -/
def Keeps (Added : Nat → Symbol → Prop) (env env' : Environment) : Prop :=
  ∀ (i : Nat) (old : Frame), env.frames[i]? = some old →
    ∃ new, env'.frames[i]? = some new ∧ old.Grows new (Added i)

/-- Frames that have not changed are kept. -/
private theorem Keeps.of_frames_eq (h : env'.frames = env.frames) : Keeps Added env env' :=
  fun _ old hold => ⟨old, h ▸ hold, .refl old _⟩

/-- Frames that are kept twice are kept. -/
private theorem Keeps.trans {env'' : Environment} (h₁ : Keeps Added env env')
    (h₂ : Keeps Added env' env'') : Keeps Added env env'' := by
  intro i old hold
  obtain ⟨mid, hmid, hgrows₁⟩ := h₁ i old hold
  obtain ⟨new, hnew, hgrows₂⟩ := h₂ i mid hmid
  exact ⟨new, hnew, hgrows₁.trans hgrows₂⟩

/-- A definition adds one name to one frame. -/
private theorem keeps_define (env : Environment) (frame : FrameId) {name : Symbol} (value : Value)
    (h : env.bindsLocally frame name = true ∨ Added frame.index name) :
    Keeps Added env (env.define frame name value) := by
  intro i old hold
  rw [getElem?_define]
  by_cases hi : frame.index = i
  · rw [if_pos hi, hold]
    refine ⟨old.put name value, rfl, .put old value (h.imp ?_ fun hadded => hi ▸ hadded)⟩
    intro hbinds
    rwa [bindsLocally, local?, hi, hold] at hbinds
  · rw [if_neg hi]
    exact ⟨old, hold, .refl old _⟩

/-- A walk outward for a name ends at a frame that binds it. -/
private theorem bindsLocally_of_binderFrom? {name : Symbol} {place : Nat} {found : FrameId}
    (h : env.binderFrom? name place = some found) : env.bindsLocally found name = true := by
  -- By the place of the frame, from older frames on: the search goes outward.
  induction place using Nat.strongRecOn with
  | ind place ih =>
    rw [binderFrom?] at h
    split at h
    · cases h
    · rename_i frame hframe
      split at h
      · rename_i hbinds
        obtain rfl := Option.some.inj h
        simpa [bindsLocally, local?, hframe, Frame.binds] using hbinds
      · split at h
        · cases h
        · rename_i parent _
          split at h
          · rename_i hlt
            exact ih parent.index hlt h
          · cases h

/-- Frames that are there already stay as they are while another one gets bindings. -/
private theorem getElem?_defineAll_of_ne (env : Environment) (frame : FrameId) (names : List Symbol)
    (values : List Value) {i : Nat} (hi : frame.index ≠ i) :
    (env.defineAll frame names values).frames[i]? = env.frames[i]? := by
  induction names generalizing env values with
  | nil => rfl
  | cons name names ih =>
    cases values with
    | nil => rfl
    | cons value values => rw [defineAll, ih, getElem?_define, if_neg hi]

/-- What happens in a frame made for a call leaves the frames that were there as they were,
    as soon as that frame is left. -/
private theorem Keeps.leave_extend {home : FrameId} {names : List Symbol} {values : List Value}
    (h : Keeps (fun i name => i = env.frames.size ∧ Added i name)
      ((env.extend home).2.defineAll (env.extend home).1 names values) env')
    (policy : FramePolicy) :
    Keeps (fun _ _ => False) env (policy.leave (env.extend home).1 env') := by
  intro i old hold
  obtain ⟨hi, -⟩ := Array.getElem?_eq_some_iff.mp hold
  have hne : (env.extend home).1.index ≠ i := by
    show env.frames.size ≠ i
    omega
  have hextend : ((env.extend home).2.defineAll (env.extend home).1 names values).frames[i]? =
      some old := by
    rw [getElem?_defineAll_of_ne _ _ _ _ hne, getElem?_extend, if_neg (by omega)]
    exact hold
  obtain ⟨new, hnew, hgrows⟩ := h i old hextend
  refine ⟨new, ?_, hgrows.mono fun _ hadded => absurd hadded.1 (by omega)⟩
  cases policy with
  -- The frames that are dropped are those of the call and later ones.
  | reclaim =>
    have hkeep : i < max (env.extend home).1.index env'.pinned := by
      show i < max env.frames.size env'.pinned
      omega
    rw [FramePolicy.leave, getElem?_release, if_pos hkeep]
    exact hnew
  | retain => exact hnew

end Environment

/-- From before to after an evaluation, every frame is kept, and only the frame of the
    evaluation may have got names, from those given. -/
def Local : Effect := fun frame names s s' =>
  Environment.Keeps (fun i name => i = frame.index ∧ name ∈ names) s.env s'.env

/-- All that an evaluation does keeps definitions local. -/
theorem closed_local (policy : FramePolicy) : Local.Closed policy where
  same h := .of_frames_eq (congrArg Environment.frames h)
  trans h₁ h₂ := h₁.trans h₂
  capture _ _ _ := .of_frames_eq rfl
  define hname value s := s.env.keeps_define _ value (.inr ⟨rfl, hname⟩)
  assign frame names name value s := by
    simp only [assignName]
    split
    · rename_i env henv
      -- The binding that changes is there already.
      obtain ⟨found, hfound, rfl⟩ := Option.map_eq_some_iff.mp henv
      exact s.env.keeps_define found value (.inl (Environment.bindsLocally_of_binderFrom? hfound))
    · exact .of_frames_eq rfl
  call fn home args h frame others := by
    intro i old hold
    obtain ⟨new, hnew, hgrows⟩ := Environment.Keeps.leave_extend h policy i old hold
    exact ⟨new, hnew, hgrows.mono fun _ => False.elim⟩

namespace Interpreter

/-- Definitions stay local, whether an evaluation yields a value or fails, and however many
    calls are still allowed: every frame is still there, inside the same frame and with the
    names that it bound; only the frame of the evaluation may bind more names, namely some
    of those that the expression defines outside the bodies of functions. The call of a
    function adds no name to any frame that was there before the call. -/
theorem definitions_stay_local (config : Config) (more : Nat) (s : State) (i : Nat) (old : Frame)
    (hold : s.env.frames[i]? = some old) :
    (∀ (e : Expr) (frame : FrameId), ∃ new,
        (evalExpr (ofConfig config).context (enterAt (ofConfig config).context more) e frame
          s).state.env.frames[i]? = some new ∧
        new.parent = old.parent ∧
        (∀ name, old.binds name = true → new.binds name = true) ∧
        ∀ name, new.binds name = true →
          old.binds name = true ∨ i = frame.index ∧ name ∈ e.definedNames) ∧
      ∀ (fn : Lambda) (home : FrameId) (args : List Value), ∃ new,
        (enterAt (ofConfig config).context more fn home args s).state.env.frames[i]? = some new ∧
        new.parent = old.parent ∧ ∀ name, new.binds name = old.binds name := by
  have hlocal := closed_local (ofConfig config).context.policy
  constructor
  · intro e frame
    obtain ⟨new, hnew, hgrows⟩ := hlocal.evalExpr rfl more e frame s i old hold
    exact ⟨new, hnew, hgrows.parent_eq, hgrows.binds_of_binds, hgrows.binds_or_added⟩
  · intro fn home args
    -- Seen from any frame, a call may add no names at all.
    obtain ⟨new, hnew, hgrows⟩ := hlocal.enterAt rfl more fn home args s .global [] i old hold
    have hnone : old.Grows new fun _ => False :=
      hgrows.mono fun _ hadded => List.not_mem_nil hadded.2
    exact ⟨new, hnew, hnone.parent_eq, hnone.binds_eq⟩

/-- A definition in the body of a function that is applied at once leaves the global frame
    of a fresh environment empty. -/
theorem definitions_stay_local_in_call :
    let inBody : Expr := .apply (.lambda (.mk [] [.define ⟨0⟩ (.boolean true)])) []
    Environment.new.frames[0]? = some ⟨[], none⟩ ∧
      ∃ new, (evalExpr (ofConfig .default).context (enterAt (ofConfig .default).context 1) inBody
        .global ⟨.new, #[]⟩).state.env.frames[0]? = some new ∧
        ∀ name, new.binds name = false := by
  intro inBody
  have hold : Environment.new.frames[0]? = some ⟨[], none⟩ := rfl
  obtain ⟨new, hnew, -, -, hadded⟩ :=
    (definitions_stay_local .default 1 ⟨.new, #[]⟩ 0 ⟨[], none⟩ hold).1 inBody .global
  refine ⟨hold, new, hnew, fun name => ?_⟩
  cases hbinds : new.binds name with
  | false => rfl
  | true =>
    -- The frame had no names, and the expression defines none outside the function.
    rcases hadded name hbinds with h | ⟨-, h⟩
    · exact nomatch h
    · exact nomatch h

end Interpreter

end LispSession
