import Mathlib.Data.List.Induction
import Mathlib.Data.List.Nodup
import Mathlib.Data.String.Basic
import LispSession.Native.Registry

/-!
# Registration

A registry keeps its functions in alphabetical order, whatever the order in which they were
registered, and one function under each name. So it is known from what it finds, and what it finds
under a name is the function that was registered last under it.

* `Registry.ordered_ofList`   the names are in order, each once
* `Registry.find?_ofList`     what is found is what was registered last
* `Registry.Ordered.ext`      registries that find the same functions are the same
* `Registry.mem_ofList`       nothing is held but what was registered
-/

namespace LispSession

/-- The last of some native functions that has a name. -/
def lastNamed? (natives : List Native) (name : String) : Option Native :=
  (natives.filter (·.name == name)).getLast?

/-- The last native of a name is the one added at the end, if it has the name. -/
private theorem lastNamed?_concat (natives : List Native) (native : Native) (name : String) :
    lastNamed? (natives ++ [native]) name =
      if name = native.name then some native else lastNamed? natives name := by
  unfold lastNamed?
  rw [List.filter_append]
  by_cases h : name = native.name
  · simp [h]
  · have hne : (native.name == name) = false := beq_eq_false_iff_ne.mpr fun heq => h heq.symm
    simp [h, hne]

/-- The last native of a name is one of the natives, and has the name. -/
private theorem mem_of_lastNamed? {natives : List Native} {name : String} {native : Native}
    (h : lastNamed? natives name = some native) : native ∈ natives ∧ native.name = name := by
  have hmem := List.mem_filter.mp (List.mem_of_getLast? h)
  exact ⟨hmem.1, beq_iff_eq.mp hmem.2⟩

/-- A native in the table after an insertion was there before, or is the one inserted. -/
private theorem mem_insertNative {native other : Native} {natives : List Native}
    (h : other ∈ insertNative native natives) : other = native ∨ other ∈ natives := by
  -- Induction on the table, as the insertion goes along it.
  induction natives with
  | nil => simpa [insertNative] using h
  | cons first natives ih =>
    simp only [insertNative] at h
    split at h
    -- In place of the first function, before it, or further on.
    · rcases List.mem_cons.mp h with h | h
      · exact .inl h
      · exact .inr (List.mem_cons_of_mem _ h)
    · split at h
      · exact List.mem_cons.mp h
      · rcases List.mem_cons.mp h with h | h
        · exact .inr (h ▸ List.mem_cons_self)
        · exact (ih h).imp_right (List.mem_cons_of_mem _)

/-- The names come one after the other in the alphabet. -/
abbrev Ascending (natives : List Native) : Prop := natives.Pairwise fun a b => a.name < b.name

/-- An insertion keeps the names of the table ascending. -/
private theorem ascending_insertNative {natives : List Native} (h : Ascending natives)
    (native : Native) : Ascending (insertNative native natives) := by
  -- Induction on the table, as for membership.
  induction natives with
  | nil => simp [insertNative]
  | cons first natives ih =>
    obtain ⟨hfirst, hrest⟩ := List.pairwise_cons.mp h
    simp only [insertNative]
    split
    · rename_i heq
      exact List.pairwise_cons.mpr ⟨fun other hother => heq ▸ hfirst other hother, hrest⟩
    split
    · rename_i hlt
      refine List.pairwise_cons.mpr ⟨List.forall_mem_cons.mpr ⟨hlt, fun other hother => ?_⟩, h⟩
      exact String.lt_trans hlt (hfirst other hother)
    · rename_i hne hnot
      -- The function comes later: after the first one, and in its place among the others.
      have hlt : first.name < native.name := (lt_or_gt_of_ne hne).resolve_left hnot
      refine List.pairwise_cons.mpr ⟨fun other hother => ?_, ih hrest⟩
      rcases mem_insertNative hother with rfl | hother
      · exact hlt
      · exact hfirst other hother

namespace Registry

variable {registry registry' : Registry} {native : Native}

/-- The functions are in alphabetical order, one under each name. -/
def Ordered (registry : Registry) : Prop := Ascending registry.natives

/-- A registry is built by registering one native after the other. -/
private theorem ofList_concat (natives : List Native) (native : Native) :
    ofList (natives ++ [native]) = (ofList natives).register native := List.foldl_append

/-- A registry built from any sequence is ordered by name. -/
theorem ordered_ofList (natives : List Native) : (ofList natives).Ordered := by
  -- Induction from the end of the sequence, where the last native is registered.
  induction natives using List.reverseRecOn with
  | nil => exact List.Pairwise.nil
  | append_singleton natives native ih =>
    rw [ofList_concat]
    exact ascending_insertNative ih native

/-- What is found under a name is what was registered last under it. -/
theorem find?_ofList (natives : List Native) (name : String) :
    (ofList natives).find? name = lastNamed? natives name := by
  -- The last registration is the last one to be put in.
  induction natives using List.reverseRecOn with
  | nil => rfl
  | append_singleton natives native ih =>
    rw [ofList_concat, find?_register, ih, lastNamed?_concat]

/-- The names of an ordered registry are ascending. -/
theorem Ordered.pairwise_names (h : registry.Ordered) : registry.names.Pairwise (· < ·) :=
  List.pairwise_map.mpr h

/-- No native stands twice in an ordered registry. -/
private theorem Ordered.nodup (h : registry.Ordered) : registry.natives.Nodup :=
  .of_map Native.name (h.pairwise_names.imp ne_of_lt)

/-- A function that the registry holds is found under its name. -/
theorem Ordered.find?_eq_some_iff (h : registry.Ordered) :
    registry.find? native.name = some native ↔ native ∈ registry.natives := by
  refine ⟨List.mem_of_find?_eq_some, fun hmem => ?_⟩
  obtain ⟨before, after, hsplit⟩ := List.append_of_mem hmem
  -- The names before it are others.
  have hbefore : ∀ other ∈ before, other.name ≠ native.name := by
    intro other hother heq
    unfold Ordered at h
    rw [hsplit] at h
    have hlt := (List.pairwise_append.mp h).2.2 other hother native List.mem_cons_self
    exact String.lt_irrefl _ (heq ▸ hlt)
  refine List.find?_eq_some_iff_append.mpr ⟨beq_self_eq_true _, before, after, hsplit, ?_⟩
  intro other hother
  simpa using hbefore other hother

/-- A call by name is a call of the function that the registry holds. -/
theorem Ordered.invoke_eq (h : registry.Ordered) (hmem : native ∈ registry.natives)
    (args : List Value) (frame : FrameId) (s : State) :
    registry.invoke native.name args frame s =
      if native.arity.accepts args.length then native.run args frame s
      else .error (.arity native.name native.arity args.length) s := by
  rw [invoke, h.find?_eq_some_iff.mpr hmem]

/-- A registry is known from what it finds. -/
theorem Ordered.ext (h : registry.Ordered) (h' : registry'.Ordered)
    (hfind : ∀ name, registry.find? name = registry'.find? name) : registry = registry' := by
  have hmem : ∀ native, native ∈ registry.natives ↔ native ∈ registry'.natives := by
    intro native
    rw [← h.find?_eq_some_iff, hfind, h'.find?_eq_some_iff]
  have hperm := (List.perm_ext_iff_of_nodup h.nodup h'.nodup).mpr hmem
  -- Functions in order that are the same but for their order are the same.
  have hnatives : registry.natives = registry'.natives :=
    hperm.eq_of_pairwise (fun a b _ _ hlt hgt => absurd hgt (String.lt_asymm hlt)) h h'
  cases registry
  exact congrArg Registry.mk hnatives

/-- A registry holds nothing but what was registered. -/
theorem mem_ofList {natives : List Native} (h : native ∈ (ofList natives).natives) :
    native ∈ natives := by
  rw [← (ordered_ofList natives).find?_eq_some_iff, find?_ofList] at h
  exact (mem_of_lastNamed? h).1

/-- The names of a registry are those it contains. -/
theorem mem_names_iff {name : String} :
    name ∈ registry.names ↔ registry.contains name = true := by
  simp [names, contains, find?]

end Registry

end LispSession
