import LispSession.Proofs.Rendering.Data

/-!
# Texts of data are unambiguous

The empty list is written as nothing, and the tail of a chain of pairs inside the parentheses
of the whole chain. Still the first characters of a text tell whether nothing, a token or a
parenthesis is written there, and each of these shows where it ends. So data with the same text
is the same.

* `itemShape?_render`         what the start of an item tells
* `tailShape_renderTail`      what the start of the rest of a chain tells
* `IsAtom.render_append_inj`  where a token ends
* `IsData.render_append_inj`  where data ends
* `IsData.eq_of_render_eq`    data with the same text
-/

namespace LispSession

/-! ### Shapes -/

/-- How data is written. -/
inductive Shape where
  | nothing
  | token
  | list

/-- How a value is written. -/
def Value.shape : Value → Shape
  | null => .nothing
  | pair _ _ => .list
  | _ => .token

/-- What a text that starts with an item tells of it. A point is not the start of any item. -/
def itemShape? : List Char → Option Shape
  | [] | ' ' :: _ | ')' :: _ => some .nothing
  | '(' :: _ => some .list
  | '.' :: _ => none
  | _ => some .token

/-- What a text that starts with what follows an item tells of that. -/
def tailShape : List Char → Shape
  | ')' :: _ => .nothing
  | ' ' :: '.' :: _ => .token
  | _ => .list

/-- An item may end here. -/
def EndsItem (rest : List Char) : Prop := rest.head?.all (fun c => c == ' ' || c == ')') = true

/-- What ends an item is divided from it. -/
private theorem EndsItem.divided {rest : List Char} (h : EndsItem rest) : Divided rest := by
  cases rest with
  | nil => exact divided_nil
  | cons c rest =>
    simp only [EndsItem, List.head?_cons, Option.all_some, Bool.or_eq_true, beq_iff_eq] at h
    rcases h with rfl | rfl <;> exact divided_cons (by decide) _

/-- Where an item ends no other one starts. -/
private theorem EndsItem.itemShape? {rest : List Char} (h : EndsItem rest) :
    itemShape? rest = some .nothing := by
  cases rest with
  | nil => rfl
  | cons c rest =>
    simp only [EndsItem, List.head?_cons, Option.all_some, Bool.or_eq_true, beq_iff_eq] at h
    rcases h with rfl | rfl <;> rfl

/-- An item does not start with a point, so that it is told apart from a last part. -/
private theorem tailShape_space {cs : List Char} {shape : Shape} (h : itemShape? cs = some shape) :
    tailShape (' ' :: cs) = .list := by
  unfold tailShape
  split
  · rename_i heq
    cases heq
  · rename_i heq
    cases heq
    cases h
  · rfl

/-- Tokens of these kinds start with nothing that a list is written with. -/
private theorem itemShape?_of_kind {cs : List Char}
    (h : (lexeme cs).kind ∈ [.boolean, .number, .symbol]) : itemShape? cs = some .token := by
  -- The characters that no such token starts with are those that the shape is told by.
  have hnot : ∀ kind, (lexeme cs).kind = kind → kind ∉ [.boolean, .number, .symbol] → False := by
    rintro _ rfl hnot
    exact hnot h
  unfold itemShape?
  split
  · exact (hnot .endOfInput rfl (by decide)).elim
  · rename_i rest
    rcases lexeme_blank (c := ' ') (by decide) rest with hkind | hkind
    · exact (hnot _ hkind (by decide)).elim
    · exact (hnot _ hkind (by decide)).elim
  · exact (hnot .rightParen rfl (by decide)).elim
  · exact (hnot .leftParen rfl (by decide)).elim
  · rename_i rest
    have hpoint := lexeme_stray (c := '.') (by decide) (by decide) (by decide) (by decide) rest
    exact (hnot .unrecognized (congrArg Lexeme.kind hpoint) (by decide)).elim
  · rfl

namespace Value

variable {symbols : SymbolTable} {kind kind' : TokenKind} {v w : Value} {rest rest' : List Char}

/-- An item ends where the rest of a list goes on. -/
private theorem endsItem_renderTail (v : Value) (symbols : SymbolTable) (rest : List Char) :
    EndsItem ((v.renderTail symbols).toList ++ ')' :: rest) := by
  cases v <;> simp [renderTail, EndsItem]

/-! ### Atoms -/

/-- An atom is written after a point if it stands at the end of a chain of pairs. -/
private theorem IsAtom.renderTail_eq (h : IsAtom symbols kind v) :
    v.renderTail symbols = " . " ++ v.render symbols := by
  cases h <;> simp [renderTail, render]

/-- An atom has the shape of a token. -/
private theorem IsAtom.shape_eq (h : IsAtom symbols kind v) : v.shape = .token := by
  cases h <;> rfl

/-- The text of an atom tells that it is a token. -/
private theorem IsAtom.itemShape?_append (h : IsAtom symbols kind v) (hrest : Divided rest) :
    itemShape? ((v.render symbols).toList ++ rest) = some .token := by
  refine itemShape?_of_kind ?_
  rw [h.lexeme_append hrest]
  cases h <;> simp

/-- The text of an atom shows which one it is and where it ends. -/
theorem IsAtom.render_append_inj (hv : IsAtom symbols kind v) (hw : IsAtom symbols kind' w)
    (hnumbers : ∀ x ∈ v.numbers, ∀ y ∈ w.numbers, Number.render x = Number.render y → x = y)
    (hrest : Divided rest) (hrest' : Divided rest')
    (h : (v.render symbols).toList ++ rest = (w.render symbols).toList ++ rest') :
    v = w ∧ rest = rest' := by
  -- Both texts start with the same lexeme, so the kinds and the texts of the atoms are the same.
  have hlexeme := congrArg lexeme h
  rw [hv.lexeme_append hrest, hw.lexeme_append hrest'] at hlexeme
  obtain ⟨rfl, htext, rfl⟩ := Lexeme.mk.inj hlexeme
  have htext := String.toList_inj.mp htext
  refine ⟨?_, rfl⟩
  cases hv with
  | boolean b =>
    cases hw with
    | boolean b' =>
      rw [render_boolean, render_boolean] at htext
      cases b <;> cases b' <;> simp_all
  | @number x =>
    cases hw with
    | @number y =>
      rw [render_number, render_number] at htext
      rw [hnumbers x List.mem_cons_self y List.mem_cons_self htext]
  | symbol _ ha =>
    cases hw with
    | symbol _ hb =>
      rw [render_symbol ha, render_symbol hb] at htext
      rw [htext] at ha
      rw [Option.some.inj (ha.symm.trans hb)]

/-! ### Data -/

/-- What an item is can be seen from its start. -/
theorem IsData.itemShape?_render (hv : IsData symbols v) (hrest : EndsItem rest) :
    itemShape? ((v.render symbols).toList ++ rest) = some v.shape := by
  cases hv with
  | null =>
    have hnull : (Value.null.render symbols).toList = [] := by simp [render, renderAtom]
    rw [hnull]
    exact hrest.itemShape?
  | pair hcar hcdr =>
    simp [render, itemShape?, shape]
  | atom h => rw [h.itemShape?_append hrest.divided, h.shape_eq]

/-- What follows an item can be seen from its start. -/
theorem IsData.tailShape_renderTail (hv : IsData symbols v) (rest : List Char) :
    tailShape ((v.renderTail symbols).toList ++ ')' :: rest) = v.shape := by
  cases hv with
  | null => simp [renderTail, tailShape, shape]
  | @pair car cdr hcar hcdr =>
    have hitem := hcar.itemShape?_render (endsItem_renderTail cdr symbols rest)
    have htail := tailShape_space hitem
    simpa [renderTail, shape] using htail
  | atom h =>
    rw [h.renderTail_eq, h.shape_eq]
    simp [tailShape]

/-- Items that start texts which are the same have the same shape. -/
private theorem IsData.shape_eq_of_render (hv : IsData symbols v) (hw : IsData symbols w)
    (hrest : EndsItem rest) (hrest' : EndsItem rest')
    (h : (v.render symbols).toList ++ rest = (w.render symbols).toList ++ rest') :
    v.shape = w.shape := by
  have hshape := congrArg itemShape? h
  rw [hv.itemShape?_render hrest, hw.itemShape?_render hrest'] at hshape
  exact Option.some.inj hshape

/-- The rest of a list tells of the shape of what it is written for. -/
private theorem IsData.shape_eq_of_renderTail (hv : IsData symbols v) (hw : IsData symbols w)
    (h : (v.renderTail symbols).toList ++ ')' :: rest =
      (w.renderTail symbols).toList ++ ')' :: rest') : v.shape = w.shape := by
  have hshape := congrArg tailShape h
  rwa [hv.tailShape_renderTail, hw.tailShape_renderTail] at hshape

/-- Data of a shape is made in the way of the shape. -/
private theorem IsData.of_shape (h : IsData symbols v) :
    (v.shape = .nothing → v = .null) ∧
      (v.shape = .token → ∃ kind, IsAtom symbols kind v) ∧
        (v.shape = .list → ∃ car cdr, v = .pair car cdr ∧ IsData symbols car ∧
          IsData symbols cdr) := by
  cases h with
  | null => exact ⟨fun _ => rfl, nofun, nofun⟩
  | pair hcar hcdr => exact ⟨nofun, nofun, fun _ => ⟨_, _, rfl, hcar, hcdr⟩⟩
  | atom h =>
    rw [h.shape_eq]
    exact ⟨nofun, fun _ => ⟨_, h⟩, nofun⟩

/-- The text of data shows which it is and where it ends, both as an item and as what follows
    one: the rest of a chain is an item and a rest again, or its last part. -/
theorem IsData.render_append_inj (hv : IsData symbols v) (hw : IsData symbols w)
    (hnumbers : ∀ x ∈ v.numbers, ∀ y ∈ w.numbers, Number.render x = Number.render y → x = y) :
    (∀ rest rest', EndsItem rest → EndsItem rest' →
      (v.render symbols).toList ++ rest = (w.render symbols).toList ++ rest' →
        v = w ∧ rest = rest') ∧
    ∀ rest rest', (v.renderTail symbols).toList ++ ')' :: rest =
      (w.renderTail symbols).toList ++ ')' :: rest' → v = w ∧ rest = rest' := by
  have hof := hw.of_shape
  induction hv generalizing w with
  | null =>
    constructor
    · intro rest rest' hrest hrest' h
      obtain rfl := hof.1 (IsData.null.shape_eq_of_render hw hrest hrest' h).symm
      exact ⟨rfl, List.append_cancel_left h⟩
    · intro rest rest' h
      obtain rfl := hof.1 (IsData.null.shape_eq_of_renderTail hw h).symm
      exact ⟨rfl, (List.cons.inj (List.append_cancel_left h)).2⟩
  | @atom kind v hatom =>
    constructor
    · intro rest rest' hrest hrest' h
      have hshape := (IsData.atom hatom).shape_eq_of_render hw hrest hrest' h
      obtain ⟨kind', hatom'⟩ := hof.2.1 (hshape.symm.trans hatom.shape_eq)
      exact hatom.render_append_inj hatom' hnumbers hrest.divided hrest'.divided h
    · intro rest rest' h
      have hshape := (IsData.atom hatom).shape_eq_of_renderTail hw h
      obtain ⟨kind', hatom'⟩ := hof.2.1 (hshape.symm.trans hatom.shape_eq)
      rw [hatom.renderTail_eq, hatom'.renderTail_eq, String.toList_append, String.toList_append,
        List.append_assoc, List.append_assoc] at h
      have hclosing : ∀ cs, Divided (')' :: cs) := divided_cons (by decide)
      obtain ⟨rfl, hrest⟩ := hatom.render_append_inj hatom' hnumbers (hclosing rest)
        (hclosing rest') (List.append_cancel_left h)
      exact ⟨rfl, (List.cons.inj hrest).2⟩
  | @pair car cdr hcar hcdr ihcar ihcdr =>
    -- Both as an item and as a rest, a pair is written as its first part and the rest of it.
    have hparts : ∀ {car' cdr'}, w = .pair car' cdr' → IsData symbols car' → IsData symbols cdr' →
        ∀ {rest rest'}, (car.render symbols).toList ++ ((cdr.renderTail symbols).toList ++
          ')' :: rest) = (car'.render symbols).toList ++ ((cdr'.renderTail symbols).toList ++
            ')' :: rest') → Value.pair car cdr = w ∧ rest = rest' := by
      rintro car' cdr' rfl hcar' hcdr' rest rest' h
      obtain ⟨rfl, htail⟩ := (ihcar hcar'
        (fun x hx y hy => hnumbers x (List.mem_append_left _ hx) y (List.mem_append_left _ hy))
        hcar'.of_shape).1 _ _ (endsItem_renderTail _ _ _) (endsItem_renderTail _ _ _) h
      obtain ⟨rfl, hrest⟩ := (ihcdr hcdr'
        (fun x hx y hy => hnumbers x (List.mem_append_right _ hx) y (List.mem_append_right _ hy))
        hcdr'.of_shape).2 _ _ htail
      exact ⟨rfl, hrest⟩
    constructor
    · intro rest rest' hrest hrest' h
      have hshape := (hcar.pair hcdr).shape_eq_of_render hw hrest hrest' h
      obtain ⟨car', cdr', rfl, hcar', hcdr'⟩ := hof.2.2 hshape.symm
      refine hparts rfl hcar' hcdr' ?_
      simpa [render] using h
    · intro rest rest' h
      have hshape := (hcar.pair hcdr).shape_eq_of_renderTail hw h
      obtain ⟨car', cdr', rfl, hcar', hcdr'⟩ := hof.2.2 hshape.symm
      refine hparts rfl hcar' hcdr' ?_
      simpa [renderTail] using h

/-- Data with the same text is the same, if its numbers are told apart by their texts. -/
theorem IsData.eq_of_render_eq (hv : IsData symbols v) (hw : IsData symbols w)
    (hnumbers : ∀ x ∈ v.numbers, ∀ y ∈ w.numbers, Number.render x = Number.render y → x = y)
    (h : v.render symbols = w.render symbols) : v = w ∧ v.equal w = true := by
  have hend : EndsItem [] := rfl
  obtain ⟨rfl, -⟩ := (hv.render_append_inj hw hnumbers).1 [] [] hend hend (by rw [h])
  exact ⟨rfl, hv.equal_self⟩

/-- A chain that starts with the empty list and does not end in it, with the same number in it as
    a literal and as a quotient. -/
theorem eq_of_render_eq_chain :
    let symbols : SymbolTable := ⟨#["a"]⟩
    let chain (x : Float) : Value :=
      .pair .null (.pair (.pair (.symbol ⟨0⟩) (.number x)) (.boolean true))
    (chain 2.5).render symbols = "( (a . 2.5) . #t)" ∧ chain 2.5 = chain (5 / 2) := by
  intro symbols chain
  have hchain : ∀ x : Float, x.isFinite = true → IsData symbols (chain x) := by
    intro x hx
    have hname : IsToken .symbol "a" := by decide +kernel
    have hsymbol : IsAtom symbols .symbol (.symbol ⟨0⟩) := .symbol hname (by decide +kernel)
    exact .pair .null (.pair (.pair (.atom hsymbol) (.atom (.number hx))) (.atom (.boolean true)))
  have hnumbers : ∀ x ∈ (chain 2.5).numbers, ∀ y ∈ (chain (5 / 2)).numbers,
      Number.render x = Number.render y → x = y :=
    List.forall_mem_singleton.mpr (List.forall_mem_singleton.mpr fun _ => by decide +kernel)
  refine ⟨by decide +kernel, ?_⟩
  exact ((hchain 2.5 (by decide +kernel)).eq_of_render_eq (hchain (5 / 2) (by decide +kernel))
    hnumbers (by decide +kernel)).1

end Value

end LispSession
