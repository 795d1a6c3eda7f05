import Mathlib.Data.List.Induction
import Mathlib.Data.List.Nodup
import Mathlib.Data.List.Perm.Subperm
import LispSession.Proofs.Grammar.Naming

/-!
# Two symbol tables

Which symbol stands for a name depends on the names met before it. Two tables are compared
by the names that both hold: the symbols that these have here and there belong together.
Symbols that belong together stay together when any names are interned in either table.

* `Same.eq_iff`        different symbols belong to different symbols
* `Same.nameOf_eq`     symbols that belong together have one name
* `Same.of_internAll`  they stay together
* `Grown`              the same names have been interned in both tables
* `names_internAll`    which names are added, and in which order
* `size_internAll_le`  which tables have more symbols
* `Covers`             one table has grown by more names than the other
* `Permuted`           two tables have grown by the same names, in another order
-/

namespace LispSession

namespace SymbolTable

/-- The table after names have been interned in order. -/
def internAll (table : SymbolTable) (names : List String) : SymbolTable :=
  names.foldl (fun table name => (table.intern name).2) table

/-- Interning no name leaves the table as it is. -/
@[simp] theorem internAll_nil (table : SymbolTable) : table.internAll [] = table := rfl

/-- Names are interned from the first to the last. -/
@[simp] theorem internAll_cons (table : SymbolTable) (name : String) (names : List String) :
    table.internAll (name :: names) = (table.intern name).2.internAll names := rfl

/-- Interning two lists of names one after the other is interning the whole. -/
theorem internAll_append (table : SymbolTable) (names others : List String) :
    table.internAll (names ++ others) = (table.internAll names).internAll others :=
  List.foldl_append

/-- A name that has a symbol keeps it, whatever is interned. -/
theorem get?_internAll_of_get? {table : SymbolTable} {name : String} {symbol : Symbol}
    (h : table.get? name = some symbol) (names : List String) :
    (table.internAll names).get? name = some symbol := by
  -- Induction on the names: no single one of them takes the symbol away.
  induction names generalizing table with
  | nil => exact h
  | cons other names ih => exact ih (get?_intern_of_get? h other)

/-- Interning a name that the table holds changes nothing. -/
theorem intern_of_get? {table : SymbolTable} {name : String} {symbol : Symbol}
    (h : table.get? name = some symbol) : table.intern name = (symbol, table) := by
  unfold intern
  rw [h]

/-- A name without a symbol is not among the names. -/
private theorem get?_eq_none_iff {table : SymbolTable} {name : String} :
    table.get? name = none ↔ name ∉ table.names.toList := by
  simp only [get?, Option.map_eq_none_iff, Array.findIdx?_eq_none_iff, Array.mem_toList_iff]
  constructor
  · intro h hmem
    simpa using h name hmem
  · intro h other hother
    exact beq_eq_false_iff_ne.mpr fun heq => h (heq ▸ hother)

/-- Interning names adds those that the table does not hold, each once. -/
private theorem exists_added (table : SymbolTable) (names : List String) :
    ∃ added : List String, (table.internAll names).names.toList = table.names.toList ++ added ∧
      added.Nodup ∧ ∀ name, name ∈ added ↔ name ∈ names ∧ table.get? name = none := by
  -- The last name is added if it was not held and not added before.
  induction names using List.reverseRecOn with
  | nil => exact ⟨[], by simp, List.nodup_nil, by simp⟩
  | append_singleton names last ih =>
    obtain ⟨added, hadded, hnodup, hmem⟩ := ih
    rw [internAll_append, internAll_cons, internAll_nil]
    cases hlast : (table.internAll names).get? last with
    | some symbol =>
      rw [intern_of_get? hlast]
      have hin : last ∈ table.names.toList ++ added := by
        rw [← hadded]
        exact Classical.byContradiction fun h => by simp [get?_eq_none_iff.mpr h] at hlast
      rw [List.mem_append] at hin
      refine ⟨added, hadded, hnodup, fun name => ?_⟩
      rw [hmem, List.mem_append, List.mem_singleton]
      constructor
      · exact fun h => ⟨.inl h.1, h.2⟩
      · rintro ⟨h | rfl, hnone⟩
        · exact ⟨h, hnone⟩
        · exact (hmem name).mp (hin.resolve_left (get?_eq_none_iff.mp hnone))
    | none =>
      have hout : last ∉ table.names.toList ++ added := by
        rw [← hadded]
        exact get?_eq_none_iff.mp hlast
      rw [List.mem_append, not_or] at hout
      refine ⟨added ++ [last], ?_, ?_, fun name => ?_⟩
      · simp only [intern, hlast, Array.toList_push, hadded, List.append_assoc]
      · exact hnodup.append (List.nodup_singleton last) (by simpa using hout.2)
      · simp only [List.mem_append, List.mem_singleton, hmem]
        constructor
        · rintro (h | rfl)
          · exact ⟨.inl h.1, h.2⟩
          · exact ⟨.inr rfl, get?_eq_none_iff.mpr hout.1⟩
        · rintro ⟨h | rfl, hnone⟩
          · exact .inl ⟨h, hnone⟩
          · exact .inr rfl

/-- Interning names adds those that the table does not hold in the order in which they are first
    met. -/
theorem names_internAll (table : SymbolTable) (names : List String) :
    (table.internAll names).names.toList =
      table.names.toList ++ (names.removeAll table.names.toList).eraseDups := by
  induction names generalizing table with
  | nil => simp
  | cons name names ih =>
    rw [internAll_cons, ih]
    by_cases hmem : name ∈ table.names.toList
    · obtain ⟨symbol, hsymbol⟩ := Option.ne_none_iff_exists'.mp fun hnone =>
        get?_eq_none_iff.mp hnone hmem
      rw [intern_of_get? hsymbol, List.cons_removeAll, if_neg (by simp [hmem])]
    · have hpush : (table.intern name).2.names.toList = table.names.toList ++ [name] := by
        simp only [intern, get?_eq_none_iff.mpr hmem, Array.toList_push]
      -- The names that are left are neither held before nor this one.
      have hleft : names.removeAll (table.names.toList ++ [name]) =
          (names.removeAll table.names.toList).filter fun other => !other == name := by
        simp only [List.removeAll, List.filter_filter]
        refine List.filter_congr fun other _ => ?_
        simp [beq_eq_decide, Bool.and_comm]
      rw [hpush, hleft, List.cons_removeAll, if_pos (by simp [hmem]), List.eraseDups_cons,
        List.append_assoc, List.singleton_append]

/-- The more names are interned, the more the table holds; their order and how often each
    is interned do not matter. -/
theorem size_internAll_le (table : SymbolTable) {names others : List String}
    (h : names ⊆ others) : (table.internAll names).size ≤ (table.internAll others).size := by
  obtain ⟨added, hadded, hnodup, hmem⟩ := table.exists_added names
  obtain ⟨added', hadded', _, hmem'⟩ := table.exists_added others
  have hsubset : added ⊆ added' := fun name hname =>
    (hmem' name).mpr (((hmem name).mp hname).imp_left (h ·))
  have hlength := (hnodup.subperm hsubset).length_le
  simp only [size, ← Array.length_toList, hadded, hadded', List.length_append]
  omega

/-! ### Symbols that belong together -/

/-- The symbols stand for the same name, each in its table. -/
def Same (table table' : SymbolTable) (symbol symbol' : Symbol) : Prop :=
  ∃ name, table.get? name = some symbol ∧ table'.get? name = some symbol'

variable {t t' u u' v v' : SymbolTable} {a a' b b' : Symbol}

/-- Different symbols belong to different symbols. -/
theorem Same.eq_iff (ha : t.Same t' a a') (hb : t.Same t' b b') : a = b ↔ a' = b' := by
  obtain ⟨name, hname, hname'⟩ := ha
  obtain ⟨other, hother, hother'⟩ := hb
  -- Equal symbols have one name, which has one symbol in the other table.
  constructor
  · rintro rfl
    obtain rfl := get?_inj hname hother
    exact Option.some.inj (hname'.symm.trans hother')
  · rintro rfl
    obtain rfl := get?_inj hname' hother'
    exact Option.some.inj (hname.symm.trans hother)

/-- Comparing two symbols, or those they belong to, gives the same answer. -/
theorem Same.beq_eq (ha : t.Same t' a a') (hb : t.Same t' b b') : (a == b) = (a' == b') := by
  by_cases h : a = b
  · rw [beq_iff_eq.mpr h, beq_iff_eq.mpr ((ha.eq_iff hb).mp h)]
  · rw [beq_eq_false_iff_ne.mpr h, beq_eq_false_iff_ne.mpr fun h' => h ((ha.eq_iff hb).mpr h')]

/-- Symbols that belong together have one name. -/
theorem Same.nameOf_eq (h : t.Same t' a a') : t.nameOf a = t'.nameOf a' := by
  obtain ⟨name, hname, hname'⟩ := h
  simp only [nameOf, name?_of_get? hname, name?_of_get? hname']

/-- Symbols stay together, whatever is interned. -/
theorem Same.of_internAll (h : t.Same t' a a') (names names' : List String) :
    (t.internAll names).Same (t'.internAll names') a a' := by
  obtain ⟨name, hname, hname'⟩ := h
  exact ⟨name, get?_internAll_of_get? hname names, get?_internAll_of_get? hname' names'⟩

/-- The symbols for a name that is interned in both tables belong together. -/
theorem same_intern (t t' : SymbolTable) (name : String) :
    (t.intern name).2.Same (t'.intern name).2 (t.intern name).1 (t'.intern name).1 :=
  ⟨name, t.get?_intern name, t'.get?_intern name⟩

/-! ### Tables that grow alike -/

/-- The same names have been interned in two tables. -/
def Grown (t t' u u' : SymbolTable) : Prop :=
  ∃ names, u = t.internAll names ∧ u' = t'.internAll names

/-- Tables grow alike from themselves. -/
theorem Grown.refl (t t' : SymbolTable) : Grown t t' t t' := ⟨[], rfl, rfl⟩

/-- A name that is interned in both tables makes them grow alike. -/
theorem Grown.intern (t t' : SymbolTable) (name : String) :
    Grown t t' (t.intern name).2 (t'.intern name).2 := ⟨[name], rfl, rfl⟩

/-- Tables that grow alike twice have grown alike. -/
theorem Grown.trans (h : Grown t t' u u') (h' : Grown u u' v v') : Grown t t' v v' := by
  obtain ⟨names, rfl, rfl⟩ := h
  obtain ⟨others, rfl, rfl⟩ := h'
  exact ⟨names ++ others, (internAll_append t names others).symm,
    (internAll_append t' names others).symm⟩

/-- Symbols stay together while their tables grow alike. -/
theorem Grown.same (h : Grown t t' u u') (hs : t.Same t' a a') : u.Same u' a a' := by
  obtain ⟨names, rfl, rfl⟩ := h
  exact hs.of_internAll names names

/-- The first table has grown by more names than the second one. -/
def Covers (u u' : SymbolTable) : Prop :=
  ∃ t names names', u = internAll t names ∧ u' = internAll t names' ∧ names' ⊆ names

/-- A table covers itself. -/
theorem Covers.refl (t : SymbolTable) : t.Covers t := ⟨t, [], [], rfl, rfl, List.Subset.refl _⟩

/-- A table that covers another one still does when both grow alike. -/
theorem Covers.of_grown (h : t.Covers t') (hgrown : Grown t t' u u') : u.Covers u' := by
  obtain ⟨base, names, names', rfl, rfl, hsubset⟩ := h
  obtain ⟨others, rfl, rfl⟩ := hgrown
  exact ⟨base, names ++ others, names' ++ others, (internAll_append _ _ _).symm,
    (internAll_append _ _ _).symm, List.append_subset.mpr
      ⟨List.subset_append_of_subset_left _ hsubset, List.subset_append_right _ _⟩⟩

/-- More names in a table that covers another one do no harm. -/
theorem Covers.internAll (h : t.Covers t') (others : List String) :
    (t.internAll others).Covers t' := by
  obtain ⟨base, names, names', rfl, rfl, hsubset⟩ := h
  exact ⟨base, names ++ others, names', (internAll_append _ _ _).symm, rfl,
    List.subset_append_of_subset_left _ hsubset⟩

/-- A table is at least as large as one it covers. -/
theorem Covers.size_le (h : t.Covers t') : t'.size ≤ t.size := by
  obtain ⟨base, names, names', rfl, rfl, hsubset⟩ := h
  exact base.size_internAll_le hsubset

/-- The tables have grown by the same names, in another order. -/
def Permuted (u u' : SymbolTable) : Prop :=
  ∃ t names names', u = internAll t names ∧ u' = internAll t names' ∧ names.Perm names'

/-- Names may be interned before others or after them. -/
theorem Grown.permuted {names : List String} (h : Grown (t.internAll names) t u u') :
    u.Permuted (u'.internAll names) := by
  obtain ⟨others, rfl, rfl⟩ := h
  exact ⟨t, names ++ others, others ++ names, (internAll_append _ _ _).symm,
    (internAll_append _ _ _).symm, List.perm_append_comm⟩

/-- Tables that grew by the same names in another order stay so when both grow alike. -/
theorem Permuted.of_grown (h : t.Permuted t') (hgrown : Grown t t' u u') : u.Permuted u' := by
  obtain ⟨base, names, names', rfl, rfl, hperm⟩ := h
  obtain ⟨others, rfl, rfl⟩ := hgrown
  exact ⟨base, names ++ others, names' ++ others, (internAll_append _ _ _).symm,
    (internAll_append _ _ _).symm, hperm.append_right others⟩

/-- Tables that grew by the same names are of one size, whatever the order. -/
theorem Permuted.size_eq (h : t.Permuted t') : t.size = t'.size := by
  obtain ⟨base, names, names', rfl, rfl, hperm⟩ := h
  -- Each of them covers the other.
  exact Nat.le_antisymm (base.size_internAll_le hperm.subset)
    (base.size_internAll_le hperm.symm.subset)

end SymbolTable

end LispSession
