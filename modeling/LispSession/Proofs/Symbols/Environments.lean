import LispSession.Proofs.Symbols.Alike

/-!
# Environments with other symbols

Environments are alike if they mark the same number of frames and their frames are alike
place by place: the same scope around them, and the same bindings in the same order. A
name has the same binder in both then, and stands for alike values; every operation keeps
environments alike, and so does interning any names in either of them.

* `Alike.binder_eq`, `Alike.lookup`     what a name stands for
* `Alike.extend`, `Alike.capture`, `Alike.release`, `Alike.define`, `Alike.intern`
                                        what the operations keep
* `Alike.withSymbols`                   the tables may grow in any way
* `Alike.get?_render_eq`                a user sees the same global bindings
-/

section

variable {α β γ δ : Type} {R : α → β → Prop} {S : γ → δ → Prop} {x : Option α} {y : Option β}

/-- Related options are mapped to related ones. -/
private theorem Option.Rel.map (h : Option.Rel R x y) {f : α → γ} {g : β → δ}
    (hfg : ∀ a b, R a b → S (f a) (g b)) : Option.Rel S (x.map f) (y.map g) := by
  cases h with
  | some h => exact .some (hfg _ _ h)
  | none => exact .none

/-- Related options are chained to related ones. -/
private theorem Option.Rel.bind (h : Option.Rel R x y) {f : α → Option γ} {g : β → Option δ}
    (hfg : ∀ a b, R a b → Option.Rel S (f a) (g b)) : Option.Rel S (x.bind f) (y.bind g) := by
  cases h with
  | some h => exact hfg _ _ h
  | none => exact .none

/-- Of related options both hold something, or neither does. -/
private theorem Option.Rel.isSome_eq (h : Option.Rel R x y) : x.isSome = y.isSome := by
  cases h <;> rfl

/-- Lists that are related place by place. -/
private theorem List.forall₂_of_getElem? {as : List α} {bs : List β}
    (h : ∀ i : Nat, Option.Rel R as[i]? bs[i]?) : List.Forall₂ R as bs := by
  -- Induction on the first list; at the end of one list the other one ends as well.
  induction as generalizing bs with
  | nil =>
    cases bs with
    | nil => exact .nil
    | cons b bs => exact nomatch h 0
  | cons a as ih =>
    cases bs with
    | nil => exact nomatch h 0
    | cons b bs =>
      have hab := h 0
      simp only [List.getElem?_cons_zero] at hab
      cases hab with
      | some hab => exact .cons hab (ih fun i => by simpa using h (i + 1))

end

namespace LispSession

/-! ### Frames -/

/-- Scopes with the same names for alike values, in the same order. -/
structure Frame.Alike (same : Symbol → Symbol → Prop) (frame frame' : Frame) : Prop where
  bindings : List.Forall₂ (fun b b' => same b.1 b'.1 ∧ b.2.Alike same b'.2) frame.bindings
    frame'.bindings
  parent : frame.parent = frame'.parent

/-- Frames stay alike when more symbols belong together. -/
private theorem Frame.Alike.mono {same same' : Symbol → Symbol → Prop}
    (hsame : ∀ a b, same a b → same' a b) {frame frame' : Frame} (h : frame.Alike same frame') :
    frame.Alike same' frame' :=
  ⟨h.bindings.imp fun _ _ hb => ⟨hsame _ _ hb.1, hb.2.mono hsame⟩, h.parent⟩

namespace Frame.Alike

variable {t t' : SymbolTable} {frame frame' : Frame} {a a' : Symbol}

/-- A name stands for alike values in alike frames. -/
private theorem get? (h : frame.Alike (t.Same t') frame') (ha : t.Same t' a a') :
    Option.Rel (Value.Alike (t.Same t')) (frame.get? a) (frame'.get? a') := by
  obtain ⟨bindings, parent⟩ := frame
  obtain ⟨bindings', parent'⟩ := frame'
  have hbindings := h.bindings
  simp only [Frame.get?] at hbindings ⊢
  clear h
  -- Induction on the bindings: the names are compared by symbols that belong together, so both
  -- frames find the name at the same place.
  induction hbindings with
  | nil => exact .none
  | @cons b b' _ _ hb _ ih =>
    rw [List.lookup_cons, List.lookup_cons, ha.beq_eq hb.1]
    cases a' == b'.1 with
    | true => exact .some hb.2
    | false => exact ih

/-- Alike frames bind symbols that belong together, or neither does. -/
private theorem binds_eq (h : frame.Alike (t.Same t') frame') (ha : t.Same t' a a') :
    frame.binds a = frame'.binds a' := (h.get? ha).isSome_eq

/-- A binding is put in the same place. -/
private theorem put (h : frame.Alike (t.Same t') frame') (ha : t.Same t' a a') {v v' : Value}
    (hv : v.Alike (t.Same t') v') : (frame.put a v).Alike (t.Same t') (frame'.put a' v') := by
  refine ⟨?_, h.parent⟩
  obtain ⟨bindings, parent⟩ := frame
  obtain ⟨bindings', parent'⟩ := frame'
  have hbindings := h.bindings
  simp only [Frame.put] at hbindings ⊢
  clear h
  induction hbindings with
  | nil => exact .cons ⟨ha, hv⟩ .nil
  | @cons b b' _ _ hb hrest ih =>
    simp only [putBinding]
    -- The name is bound here in both frames or in neither.
    by_cases heq : b.1 = a
    · rw [if_pos heq, if_pos ((hb.1.eq_iff ha).mp heq)]
      exact .cons ⟨ha, hv⟩ hrest
    · rw [if_neg heq, if_neg fun heq' => heq ((hb.1.eq_iff ha).mpr heq')]
      exact .cons hb ih

/-- A name that the first frame binds belongs to one that the second binds. -/
private theorem exists_right {same : Symbol → Symbol → Prop} (h : frame.Alike same frame')
    {v : Value} (hv : frame.get? a = some v) : ∃ a', same a a' := by
  obtain ⟨i, hi, heq⟩ := List.mem_iff_getElem.mp (Frame.mem_of_get? hv)
  have hi' : i < frame'.bindings.length := h.bindings.length_eq ▸ hi
  have hsame := (List.forall₂_iff_get.mp h.bindings).2 i hi hi'
  simp only [List.get_eq_getElem, heq] at hsame
  exact ⟨_, hsame.1⟩

/-- A name that the second frame binds belongs to one that the first binds. -/
private theorem exists_left {same : Symbol → Symbol → Prop} (h : frame.Alike same frame')
    {v' : Value} (hv' : frame'.get? a' = some v') : ∃ a, same a a' := by
  obtain ⟨i, hi', heq⟩ := List.mem_iff_getElem.mp (Frame.mem_of_get? hv')
  have hi : i < frame.bindings.length := h.bindings.length_eq.symm ▸ hi'
  have hsame := (List.forall₂_iff_get.mp h.bindings).2 i hi hi'
  simp only [List.get_eq_getElem, heq] at hsame
  exact ⟨_, hsame.1⟩

end Frame.Alike

namespace Environment

/-- Binding parameters interns nothing. -/
@[simp] theorem symbols_defineAll (env : Environment) (frame : FrameId) (names : List Symbol)
    (values : List Value) : (env.defineAll frame names values).symbols = env.symbols := by
  induction names generalizing env values with
  | nil => rfl
  | cons name names ih =>
    cases values with
    | nil => rfl
    | cons value values => exact ih (env.define frame name value) values

/-- The symbols stand for the same name in the two environments. -/
abbrev Same (env env' : Environment) : Symbol → Symbol → Prop := env.symbols.Same env'.symbols

/-- Environments that differ in their symbols alone. -/
structure Alike (env env' : Environment) : Prop where
  pinned : env.pinned = env'.pinned
  frames : ∀ i : Nat, Option.Rel (Frame.Alike (env.Same env')) env.frames[i]? env'.frames[i]?

/-- New environments are alike, whatever is interned in them later. -/
theorem alike_new : Environment.new.Alike .new := by
  refine ⟨rfl, fun i => ?_⟩
  simp only [Environment.new, List.getElem?_toArray, List.getElem?_singleton]
  split
  · exact .some ⟨.nil, rfl⟩
  · exact .none

namespace Alike

variable {env env' : Environment} {a a' : Symbol} {v v' : Value}

/-- Alike environments have the same number of frames. -/
theorem size_eq (h : env.Alike env') : env.frames.size = env'.frames.size := by
  -- An index is past the end of one just if it is past the end of the other.
  have hiff : ∀ i : Nat, env.frames.size ≤ i ↔ env'.frames.size ≤ i := by
    intro i
    have hsome := (h.frames i).isSome_eq
    rw [← Array.getElem?_eq_none_iff, ← Array.getElem?_eq_none_iff, ← Option.not_isSome_iff_eq_none,
      ← Option.not_isSome_iff_eq_none, hsome]
  exact Nat.le_antisymm ((hiff _).mpr (Nat.le_refl _)) ((hiff _).mp (Nat.le_refl _))

/-- The tables may grow in any way in which symbols stay together. -/
theorem withSymbols (h : env.Alike env') {u u' : SymbolTable}
    (hsame : ∀ a b, env.Same env' a b → u.Same u' a b) :
    Alike { env with symbols := u } { env' with symbols := u' } :=
  ⟨h.pinned, fun i => by
    simpa using (h.frames i).map (f := id) (g := id) fun _ _ hf => hf.mono hsame⟩

/-- Environments stay alike when both intern a name. -/
theorem intern (h : env.Alike env') (name : String) :
    (env.intern name).2.Alike (env'.intern name).2 :=
  h.withSymbols fun _ _ => (SymbolTable.Grown.intern _ _ name).same

/-! ### Walks outward -/

/-- The same frame binds a name. -/
private theorem binderFrom_eq (h : env.Alike env') (ha : env.Same env' a a') (place : Nat) :
    env.binderFrom? a place = env'.binderFrom? a' place := by
  -- By places: a walk goes on in an older frame, the same in both.
  induction place using Nat.strongRecOn with
  | _ place ih =>
    rw [binderFrom?, binderFrom?]
    have hframe := h.frames place
    revert hframe
    generalize env.frames[place]? = here
    generalize env'.frames[place]? = there
    intro hframe
    cases hframe with
    | none => rfl
    | some hframe =>
      simp only [hframe.binds_eq ha, hframe.parent]
      split
      · rfl
      · split
        · rfl
        · split
          · rename_i hlt
            exact ih _ hlt
          · rfl

/-- Symbols that belong together are bound in the same frame. -/
theorem binder_eq (h : env.Alike env') (ha : env.Same env' a a') (frame : FrameId) :
    env.binder? frame a = env'.binder? frame a' := h.binderFrom_eq ha frame.index

/-- Symbols that belong together have alike values in a frame, or none. -/
private theorem lookupLocally (h : env.Alike env') (ha : env.Same env' a a') (frame : FrameId) :
    Option.Rel (Value.Alike (env.Same env')) (env.local? frame a) (env'.local? frame a') :=
  (h.frames frame.index).bind fun _ _ hframe => hframe.get? ha

/-- Symbols that belong together are bound in a frame, or neither is. -/
theorem bindsLocally_eq (h : env.Alike env') (ha : env.Same env' a a') (frame : FrameId) :
    env.bindsLocally frame a = env'.bindsLocally frame a' := (h.lookupLocally ha frame).isSome_eq

/-- A name stands for alike values. -/
theorem lookup (h : env.Alike env') (ha : env.Same env' a a') (frame : FrameId) :
    Option.Rel (Value.Alike (env.Same env')) (env.lookup? frame a) (env'.lookup? frame a') := by
  simp only [lookup?, h.binder_eq ha]
  cases env'.binder? frame a' with
  | none => exact .none
  | some found => exact h.lookupLocally ha found

/-! ### Operations -/

/-- A new frame has the same place and parent in both. -/
theorem extend (h : env.Alike env') (parent : FrameId) :
    (env.extend parent).2.Alike (env'.extend parent).2 := by
  refine ⟨h.pinned, fun i => ?_⟩
  rw [getElem?_extend, getElem?_extend, h.size_eq]
  split
  · exact .some ⟨.nil, rfl⟩
  · exact h.frames i

/-- A new frame has the same number in both. -/
theorem fst_extend_eq (h : env.Alike env') (parent : FrameId) :
    (env.extend parent).1 = (env'.extend parent).1 :=
  congrArg FrameId.mk h.size_eq

/-- Capturing a frame moves both marks alike. -/
theorem capture (h : env.Alike env') (frame : FrameId) :
    (env.capture frame).Alike (env'.capture frame) :=
  ⟨congrArg (max · (frame.index + 1)) h.pinned, h.frames⟩

/-- Releasing a frame drops the same frames in both. -/
theorem release (h : env.Alike env') (frame : FrameId) :
    (env.release frame).Alike (env'.release frame) := by
  -- The same frames are marked, so the same frames are dropped.
  refine ⟨h.pinned, fun i => ?_⟩
  rw [getElem?_release, getElem?_release, h.pinned]
  split
  · exact h.frames i
  · exact .none

/-- A definition keeps environments alike, if it binds symbols that belong together to alike values.
    -/
theorem define (h : env.Alike env') (frame : FrameId) (ha : env.Same env' a a')
    (hv : v.Alike (env.Same env') v') :
    (env.define frame a v).Alike (env'.define frame a' v') := by
  refine ⟨h.pinned, fun i => ?_⟩
  rw [getElem?_define, getElem?_define]
  split
  · exact (h.frames i).map fun _ _ hframe => hframe.put ha hv
  · exact h.frames i

/-- Binding parameters keeps environments alike. -/
theorem defineAll {names names' : List Symbol} {values values' : List Value}
    (h : env.Alike env') (frame : FrameId) (hnames : List.Forall₂ (env.Same env') names names')
    (hvalues : List.Forall₂ (Value.Alike (env.Same env')) values values') :
    (env.defineAll frame names values).Alike (env'.defineAll frame names' values') := by
  -- The tables stay as they are, so the names that are left stay together.
  induction names generalizing env env' names' values values' with
  | nil =>
    cases hnames with
    | nil => exact h
  | cons name names ih =>
    cases hnames with
    | cons ha hnames =>
      cases hvalues with
      | nil => exact h
      | cons hv hvalues =>
        have hrest := ih (h.define frame ha hv) hnames hvalues
        exact hrest

/-! ### What a user sees -/

/-- A name that stands for something in the first environment is held by both tables. -/
private theorem exists_right (h : env.Alike env') {frame : FrameId}
    (hv : env.lookup? frame a = some v) : ∃ a', env.Same env' a a' := by
  obtain ⟨found, _, hlocal⟩ := Option.bind_eq_some_iff.mp hv
  obtain ⟨holder, hholder, hget⟩ := Option.bind_eq_some_iff.mp hlocal
  have hframe := h.frames found.index
  rw [hholder] at hframe
  generalize env'.frames[found.index]? = there at hframe
  cases hframe with
  | some hframe => exact hframe.exists_right hget

/-- A name that stands for something in the second environment is held by both tables. -/
private theorem exists_left (h : env.Alike env') {frame : FrameId}
    (hv' : env'.lookup? frame a' = some v') : ∃ a, env.Same env' a a' := by
  obtain ⟨found, _, hlocal⟩ := Option.bind_eq_some_iff.mp hv'
  obtain ⟨holder, hholder, hget⟩ := Option.bind_eq_some_iff.mp hlocal
  have hframe := h.frames found.index
  rw [hholder] at hframe
  generalize env.frames[found.index]? = here at hframe
  cases hframe with
  | some hframe => exact hframe.exists_left hget

/-- A user finds alike values under every name, whether the tables hold it or not. -/
private theorem get? (h : env.Alike env') (name : String) :
    Option.Rel (Value.Alike (env.Same env')) (env.get? name) (env'.get? name) := by
  unfold Environment.get?
  cases hhere : env.symbols.get? name with
  | none =>
    cases hthere : env'.symbols.get? name with
    | none => exact .none
    | some a' =>
      -- Nothing is bound to a symbol whose name only one table holds.
      cases hv' : env'.lookup? .global a' with
      | none =>
        rw [Option.bind_none, Option.bind_some, hv']
        exact .none
      | some v' =>
        obtain ⟨a, other, ha, ha'⟩ := h.exists_left hv'
        obtain rfl := SymbolTable.get?_inj hthere ha'
        rw [hhere] at ha
        cases ha
  | some a =>
    cases hthere : env'.symbols.get? name with
    | none =>
      cases hv : env.lookup? .global a with
      | none =>
        rw [Option.bind_none, Option.bind_some, hv]
        exact .none
      | some v =>
        obtain ⟨a', other, ha, ha'⟩ := h.exists_right hv
        obtain rfl := SymbolTable.get?_inj hhere ha
        rw [hthere] at ha'
        cases ha'
    | some a' => exact h.lookup ⟨name, hhere, hthere⟩ .global

/-- A name is looked up with the same text from outside. -/
theorem get?_render_eq (h : env.Alike env') (name : String) :
    (env.get? name).map (·.render env.symbols) =
      (env'.get? name).map (·.render env'.symbols) := by
  have hrel := h.get? name
  generalize env.get? name = here at hrel
  generalize env'.get? name = there at hrel
  cases hrel with
  | none => rfl
  | some hv => exact congrArg some hv.render_eq

/-- There are the same numbers of bindings. -/
theorem bindingCount_eq (h : env.Alike env') : env.bindingCount = env'.bindingCount := by
  have hframes : List.Forall₂ (Frame.Alike (env.Same env')) env.frames.toList
      env'.frames.toList := by
    refine List.forall₂_of_getElem? fun i => ?_
    rw [Array.getElem?_toList, Array.getElem?_toList]
    exact h.frames i
  -- The counts are folds over frames whose binding lists are of one length.
  simp only [bindingCount, ← Array.foldl_toList]
  generalize env.frames.toList = frames at hframes
  generalize env'.frames.toList = frames' at hframes
  generalize 0 = count
  induction hframes generalizing count with
  | nil => rfl
  | cons hframe _ ih =>
    rw [List.foldl_cons, List.foldl_cons, hframe.bindings.length_eq]
    exact ih _

end Alike

end Environment

end LispSession
