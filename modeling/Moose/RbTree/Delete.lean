import Moose.RbTree.Insert

/-!
# Deletion

`detach_node` cuts a node with at most one child out of the tree — the node of the key itself, or
its in-order successor, which then takes the node's place — and runs `delete_fixup` on the child
that moved up when the node cut out was black.

For the map only two things matter about `delete_fixup`: it never panics, and whatever it repaints
and rotates, the in-order list stays and the root ends up black. Both hold for *every* shape it
can meet, balanced or not, so the results here are stated without a balance assumption. What the
fixup does to the balance is only needed where it does something simple, and that part is exact
(`Deblackened.nil_eq`, `Deblackened.paint_eq`).
-/

set_option autoImplicit false

namespace Moose.RbTree

open List Lib RedBlackTree ColorTree

variable {Idx K V : Type} {A : GenArena Idx (Node Idx K V)}

/-- What `delete_fixup` makes of the subtree `T` that moved up into the hole of `C`. -/
structure Deblackened (C : Ctx (Entry Idx K V)) (T R : Shape Idx K V) : Prop where
  toList_eq : R.toList = (C.plug T).toList
  root_black : R.rootColor = .black
  /-- A missing child is left alone. -/
  nil_eq : T = .nil → R = C.plug .nil
  /-- A red child, or one that became the root, is painted black. -/
  paint_eq : T ≠ .nil → T.rootColor = .red ∨ C = [] → R = C.plug (T.paint .black)

variable {C : Ctx (Entry Idx K V)} {f : ColorTree.Frame (Entry Idx K V)} {t : RedBlackTree A}
  {T : Shape Idx K V}

theorem rootColor_plug (h : BlackTop C) :
    ∀ {T : Shape Idx K V}, (C = [] → T.rootColor = .black) → (C.plug T).rootColor = .black := by
  induction C with
  | nil => exact fun hT => hT rfl
  | cons f C ih =>
    intro T _
    rw [Ctx.plug_cons]
    refine ih h.tail fun hC => ?_
    subst hC
    rw [rootColor_mk]
    exact h f rfl

theorem BlackTop.cons (h : BlackTop C) (hf : C = [] → f.color = .black) : BlackTop (f :: C) := by
  intro g hg
  cases C with
  | nil =>
    obtain rfl : f = g := by simpa using hg
    exact hf rfl
  | cons f' C => exact h g (by simpa [getLast?_cons] using hg)

/-- Which node is cut out when the entry `z` is removed, and what is left: its child `x`, in the
    hole of a context, and the colour the node had. -/
inductive Splice (T : Shape Idx K V) (z : Entry Idx K V) :
    Ctx (Entry Idx K V) → Color → Shape Idx K V → Prop
  | one {C : Ctx (Entry Idx K V)} {b : Branch} {c : Color} {x : Shape Idx K V} :
      C.plug (.mk b c .nil z x) = T → Splice T z C c x
  | two {C D : Ctx (Entry Idx K V)} {cz cs : Color} {s : Entry Idx K V} {zl sr : Shape Idx K V} :
      D.before = [] → zl ≠ .nil → C.plug (.node cz zl z (D.plug (.node cs .nil s sr))) = T →
      Splice T z (D ++ ⟨.right, cz, s, zl⟩ :: C) cs sr

/-- The shape after `remove` took out the entry `z`. -/
inductive Removed (T : Shape Idx K V) (z : Entry Idx K V) : Shape Idx K V → Prop
  | red {C : Ctx (Entry Idx K V)} {x : Shape Idx K V} :
      Splice T z C .red x → Removed T z (C.plug x)
  | black {C : Ctx (Entry Idx K V)} {x R : Shape Idx K V} :
      Splice T z C .black x → Deblackened C x R → Removed T z R

section

variable {T T' : Shape Idx K V} {z : Entry Idx K V} {C : Ctx (Entry Idx K V)} {c : Color}
  {x : Shape Idx K V}

theorem Splice.toList_eq (h : Splice T z C c x) :
    ∃ L M, T.toList = L ++ z :: M ∧ (C.plug x).toList = L ++ M := by
  cases h with
  | @one C b c x hT =>
    refine ⟨C.before ++ (if b = .left then [] else x.toList),
      (if b = .left then x.toList else []) ++ C.after, ?_, ?_⟩
    · rw [← hT, Ctx.toList_plug]
      cases b <;> simp [ColorTree.mk, ColorTree.toList]
    rw [Ctx.toList_plug]
    cases b <;> simp
  | @two C D cz _ s zl _ hD _ hT =>
    refine ⟨C.before ++ zl.toList, s :: x.toList ++ D.after ++ C.after, ?_, ?_⟩
    · rw [← hT, Ctx.toList_plug]
      simp [toList, Ctx.toList_plug, hD]
    rw [Ctx.plug_append, Ctx.plug_cons, Ctx.toList_plug]
    simp [ColorTree.mk, ColorTree.toList, Ctx.toList_plug, hD]

theorem Splice.blackTop (h : Splice T z C c x) (hroot : T.rootColor = .black) : BlackTop C := by
  cases h with
  | one hT => exact blackTop_of_rootColor (hT ▸ hroot)
  | @two C D cz _ s zl _ hD _ hT =>
    have hf : BlackTop (⟨.right, cz, z, zl⟩ :: C) :=
      blackTop_of_rootColor (S := D.plug (.node c .nil s x)) (hT ▸ hroot)
    intro f hf'
    rw [getLast?_append, getLast?_cons, Option.some_or, ← getLast?_cons] at hf'
    refine BlackTop.cons hf.tail (fun hC => ?_) f hf'
    subst hC
    exact hf ⟨.right, cz, z, zl⟩ rfl

/-- A red node that is cut out is not the root. -/
theorem Splice.ne_nil (h : Splice T z C .red x) (hroot : T.rootColor = .black) : C ≠ [] := by
  cases h with
  | one hT =>
    rintro rfl
    rw [← hT, Ctx.plug_nil, rootColor_mk] at hroot
    exact absurd hroot (by simp)
  | two _ _ _ => simp

theorem Removed.toList_eq (h : Removed T z T') :
    ∃ L M, T.toList = L ++ z :: M ∧ T'.toList = L ++ M := by
  cases h with
  | red hs => exact hs.toList_eq
  | black hs hd =>
    rw [hd.toList_eq]
    exact hs.toList_eq

theorem Removed.root_black (h : Removed T z T') (hroot : T.rootColor = .black) :
    T'.rootColor = .black := by
  cases h with
  | red hs => exact rootColor_plug (hs.blackTop hroot) fun he => absurd he (hs.ne_nil hroot)
  | black _ hd => exact hd.root_black

end

theorem ctxRoot_mem :
    ∀ {h : Option Idx}, ∃ i, ctxRoot (f :: C) h = some i ∧ i ∈ ctxIdxs (f :: C) := by
  induction C generalizing f with
  | nil => exact ⟨f.label.idx, rfl, by simp [ctxIdxs]⟩
  | cons g C ih =>
    intro h
    obtain ⟨i, hi, hm⟩ := ih (f := g) (h := some f.label.idx)
    exact ⟨i, hi, by rw [ctxIdxs]; simp [hm]⟩

theorem mem_ctxIdxs_append (D : Ctx (Entry Idx K V)) : f.label.idx ∈ ctxIdxs (D ++ f :: C) := by
  induction D with
  | nil => simp [ctxIdxs]
  | cons g D ih => simp [ctxIdxs, ih]

theorem At.ne_root (h : At t (f :: C) T) : rootIdx T ≠ t.root := by
  obtain ⟨i, hi, hm⟩ := ctxRoot_mem (f := f) (C := C) (h := rootIdx T)
  rw [h.root, hi]
  intro he
  have hnd := nodup_append.mp h.nodup
  exact hnd.2.2 i hm i (rootIdx_mem he) rfl

/-! ## One iteration of the fixup -/

/-- The colours the code reads as near and far are those of the outer and the inner nephew. -/
theorem nephewColors_spec {b : Branch} {c cs : Color} {p w : Entry Idx K V} {N F T : Shape Idx K V}
    (h : At t (⟨b, c, p, .mk b cs N w F⟩ :: C) T) :
    t.nephewColors (some w.idx) b.opposite = some (F.rootColor, N.rootColor) := by
  have hw := h.sibling.get_mk
  have hN := h.sibling.down.colorOf
  have hF := h.sibling.down.colorOf_sib
  simp [nephewColors, link, hw, some_bind, toNode_link_opposite, Branch.opposite_opposite,
    toNode_link, hN, hF]

variable [DecidableEq Idx]

section iteration

variable {t : RedBlackTree A} {C : Ctx (Entry Idx K V)} {b : Branch} {c : Color}
  {p : Entry Idx K V} {S T : Shape Idx K V}

/-- Case 1, or nothing: afterwards the location has a sibling `S'` under the same parent node. A
    red sibling ends up above the parent, which is then red. -/
theorem deleteCase1_spec (h : At t (⟨b, c, p, S⟩ :: C) T) :
    ∃ t' c' S' C', t.deleteCase1 p.idx b (rootIdx S) = some (t', rootIdx S') ∧
      At t' (⟨b, c', p, S'⟩ :: C') T ∧ Keeps t t' ∧
      (Ctx.plug (⟨b, c', p, S'⟩ :: C') T).toList = (Ctx.plug (⟨b, c, p, S⟩ :: C) T).toList ∧
      (BlackTop (⟨b, c, p, S⟩ :: C) → BlackTop (⟨b, c', p, S'⟩ :: C')) ∧
      (C' = C ∨ c' = .red) := by
  have hcol := h.colorOf_sib
  cases hS : S.rootColor with
  | red =>
    obtain ⟨B, D, y, rfl⟩ : ∃ B D y, S = .mk b .red B y D := by
      cases S with
      | nil => exact absurd hS (by simp [rootColor])
      | node cs l y r =>
        obtain ⟨B, D, hmk⟩ := exists_mk b cs l y r
        rw [hmk, rootColor_mk] at hS
        exact ⟨B, D, y, by rw [hmk, hS]⟩
    obtain ⟨t1, e1, a1, k1⟩ := h.paint_sib .black
    obtain ⟨t2, e2, a2, k2⟩ := a1.paint_parent .red
    rw [paint_mk] at a2
    obtain ⟨t3, e3, a3, k3⟩ := (at_cons.mp a2).rotateIn
    have hp := a3.down.get_mk
    refine ⟨t3, .red, B, ⟨b, .black, y, D⟩ :: C, ?_, a3.down.down, k1.trans (k2.trans k3), ?_, ?_,
      Or.inr rfl⟩
    · simp only [deleteCase1, hcol, hS, if_true, e1, e2, e3, link, hp,
        some_bind, Option.pure_def, toNode_link_opposite]
    · simp only [Ctx.plug_cons]
      apply Ctx.toList_plug_congr
      cases b <;> simp [ColorTree.mk, ColorTree.toList]
    · intro hC
      exact (hC.tail.cons fun _ => rfl).cons fun he => absurd he (by simp)
  | black =>
    refine ⟨t, c, S, C, ?_, h, .refl t, rfl, id, Or.inl rfl⟩
    simp [deleteCase1, hcol, hS, some_bind]

theorem deleteCase3_spec {cs cf : Color} {w f : Entry Idx K V} {N F F' : Shape Idx K V}
    (h : At t (⟨b, c, p, .mk b cs N w (.mk b cf F f F')⟩ :: C) T) :
    ∃ t', t.deleteCase3 p.idx b (some w.idx) = some (t', some f.idx) ∧
      At t' (⟨b, c, p, .mk b .black (.mk b .red N w F) f F'⟩ :: C) T ∧ Keeps t t' := by
  have hw := h.sibling.get_mk
  obtain ⟨t1, e1, a1, k1⟩ := h.sibling.down.paint_sib .black
  rw [rootIdx_mk] at e1
  obtain ⟨t2, e2, a2, k2⟩ := a1.paint_parent .red
  have h2 := at_cons.mp a2
  simp only [paint_mk, ← mk_opposite b] at h2
  obtain ⟨t3, e3, a3, k3⟩ := h2.rotateOut
  simp only [mk_opposite] at a3
  have h3 := a3.sibling
  rw [Branch.opposite_opposite] at h3
  refine ⟨t3, ?_, h3, k1.trans (k2.trans k3)⟩
  simp [deleteCase3, link, hw, some_bind, toNode_link_opposite, rootIdx_mk, e1, e2, e3,
    h3.get_parent]

theorem deleteCase4_spec {cs : Color} {w : Entry Idx K V} {N F : Shape Idx K V}
    (h : At t (⟨b, c, p, .mk b cs N w F⟩ :: C) T) :
    ∃ t', t.deleteCase4 p.idx b (some w.idx) = some (t', t'.root) ∧
      At t' C (.mk b c (.mk b .black T p (N.paint .black)) w F) ∧ Keeps t t' := by
  have hp := h.get_parent
  obtain ⟨t1, e1, a1, k1⟩ := h.paint_sib c
  rw [rootIdx_mk] at e1
  obtain ⟨t2, e2, a2, k2⟩ := a1.paint_parent .black
  rw [paint_mk] at a2
  have hw := a2.sibling.get_mk
  obtain ⟨t3, e3, a3, k3⟩ := a2.sibling.down.paint .black
  have h3 := (at_cons.mp a3).sibling
  rw [Branch.opposite_opposite] at h3
  obtain ⟨t4, e4, a4, k4⟩ := (at_cons.mp h3).rotateIn
  refine ⟨t4, ?_, a4, k1.trans (k2.trans (k3.trans k4))⟩
  simp [deleteCase4, link, hp, toNode_color, some_bind, e1, e2, hw, Branch.opposite_opposite,
    toNode_link, e3, e4]

/-- One iteration: it returns the index of a place whose context still has a black top, and either
    the place is higher up or its node is red, which ends the loop. -/
theorem deleteFixupIteration_spec (h : At t (⟨b, c, p, S⟩ :: C) T)
    (hC : BlackTop (⟨b, c, p, S⟩ :: C)) :
    ∃ t' C' T', t.deleteFixupIteration p.idx b = some (t', rootIdx T') ∧ At t' C' T' ∧
      T' ≠ .nil ∧ Keeps t t' ∧ BlackTop C' ∧
      (Ctx.plug C' T').toList = (Ctx.plug (⟨b, c, p, S⟩ :: C) T).toList ∧
      (C'.length ≤ C.length ∨ T'.rootColor = .red) := by
  have hp := h.get_parent
  obtain ⟨t1, c', S', C', e1, a1, k1, hlist, htop, hC'⟩ := deleteCase1_spec h
  have hC1 := htop hC
  -- reads of the iteration up to the nephews
  have hiter : t.deleteFixupIteration p.idx b = (do
      let colors ← t1.nephewColors (rootIdx S') b.opposite
      if colors.1 = .black ∧ colors.2 = .black then do
        let t ← t1.modifySome (rootIdx S') (·.withColor .red)
        return (t, some p.idx)
      if colors.2 = .black then do
        let r ← t1.deleteCase3 p.idx b (rootIdx S')
        r.1.deleteCase4 p.idx b r.2
      else t1.deleteCase4 p.idx b (rootIdx S')) := by
    simp [deleteFixupIteration, link, hp, some_bind, toNode_link_opposite, e1]
  rw [hiter]
  by_cases hcol : t1.nephewColors (rootIdx S') b.opposite = some (.black, .black)
  · -- case 2: the sibling turns red, the parent is next
    obtain ⟨t2, e2, a2, k2⟩ := a1.paint_sib .red
    refine ⟨t2, C', _, ?_, at_cons.mp a2, ?_, k1.trans k2, hC1.tail, ?_, ?_⟩
    · simp [hcol, e2]
    · exact ColorTree.mk_ne_nil _ _ _ _ _
    · rw [← hlist, Ctx.plug_cons]
      apply Ctx.toList_plug_congr
      cases b <;> simp [ColorTree.mk, ColorTree.toList]
    · rcases hC' with rfl | rfl
      · exact Or.inl (Nat.le_refl _)
      · exact Or.inr (rootColor_mk _ _ _ _ _)
  -- the sibling exists: a missing one has two black nephews
  obtain ⟨cs, N, w, F, rfl⟩ : ∃ cs N w F, S' = .mk b cs N w F := by
    cases S' with
    | nil => exact absurd rfl hcol
    | node cs l w r =>
      obtain ⟨N, F, hmk⟩ := exists_mk b cs l w r
      exact ⟨cs, N, w, F, hmk⟩
  have hneph := nephewColors_spec a1
  rw [rootIdx_mk] at hcol ⊢
  rw [hneph] at hcol ⊢
  have hcol' : ¬ (F.rootColor = .black ∧ N.rootColor = .black) := by
    rintro ⟨hF, hN⟩
    exact hcol (by rw [hF, hN])
  simp only [Option.bind_eq_bind, Option.bind_some, hcol', if_false]
  cases hN : N.rootColor with
  | black =>
    -- case 3, then case 4: the outer nephew is red, so it is there
    obtain ⟨cf, F1, f, F2, rfl⟩ : ∃ cf F1 f F2, F = .mk b cf F1 f F2 := by
      cases F with
      | nil => exact absurd ⟨rfl, hN⟩ hcol'
      | node cf l f r =>
        obtain ⟨F1, F2, hmk⟩ := exists_mk b cf l f r
        exact ⟨cf, F1, f, F2, hmk⟩
    obtain ⟨t2, e2, a2, k2⟩ := deleteCase3_spec a1
    obtain ⟨t3, e3, a3, k3⟩ := deleteCase4_spec a2
    have a3' := at_plug.mp a3
    refine ⟨t3, [], _, ?_, a3', ?_, k1.trans (k2.trans k3), ?_, ?_, Or.inl (Nat.zero_le _)⟩
    · simp only [if_true, e2, Option.bind_some, e3]
      rw [a3'.root]
      rfl
    · exact Ctx.plug_ne_nil _ (mk_ne_nil _ _ _ _ _)
    · exact fun f hf => absurd hf (by simp)
    · rw [← hlist, Ctx.plug_nil, Ctx.plug_cons]
      apply Ctx.toList_plug_congr
      cases b <;> simp [ColorTree.mk, ColorTree.toList, ColorTree.paint]
  | red =>
    obtain ⟨t3, e3, a3, k3⟩ := deleteCase4_spec a1
    have a3' := at_plug.mp a3
    refine ⟨t3, [], _, ?_, a3', ?_, k1.trans k3, ?_, ?_, Or.inl (Nat.zero_le _)⟩
    · simp only [reduceCtorEq, if_false, e3]
      rw [a3'.root]
      rfl
    · exact Ctx.plug_ne_nil _ (mk_ne_nil _ _ _ _ _)
    · exact fun f hf => absurd hf (by simp)
    · rw [← hlist, Ctx.plug_nil, Ctx.plug_cons]
      apply Ctx.toList_plug_congr
      cases b <;> simp [ColorTree.mk, ColorTree.toList]

end iteration

/-! ## The loop -/

/-- The loop stops at once at a red node and at the root. -/
theorem deleteFixupLoop_stop {n : Nat} (h : At t C T) (hstop : T.rootColor = .red ∨ C = []) :
    deleteFixupLoop (n + 1) t (rootIdx T) = some (t, rootIdx T) := by
  have hcond : rootIdx T = t.root ∨ T.rootColor ≠ .black := by
    rcases hstop with hc | rfl
    · exact Or.inr (by simp [hc])
    · exact Or.inl h.root.symm
  simp [deleteFixupLoop, h.colorOf, hcond]

theorem deleteFixupLoop_spec :
    ∀ {n : Nat} {t : RedBlackTree A} {C : Ctx (Entry Idx K V)} {T : Shape Idx K V}, At t C T →
      T ≠ .nil → BlackTop C → 0 < n → (C.length < n ∨ T.rootColor = .red) →
      ∃ t' C' T', deleteFixupLoop n t (rootIdx T) = some (t', rootIdx T') ∧
        At t' C' T' ∧ T' ≠ .nil ∧ Keeps t t' ∧ BlackTop C' ∧
        (Ctx.plug C' T').toList = (Ctx.plug C T).toList := by
  intro n
  induction n with
  | zero => intro _ _ _ _ _ _ hn; exact absurd hn (Nat.lt_irrefl 0)
  | succ n ih =>
    intro t C T h hT hC _ hfuel
    by_cases hstop : T.rootColor = .red ∨ C = []
    · exact ⟨t, C, T, deleteFixupLoop_stop h hstop, h, hT, .refl t, hC, rfl⟩
    obtain ⟨hred, hne⟩ := not_or.mp hstop
    have hblack : T.rootColor = .black := by
      cases hc : T.rootColor with
      | red => exact absurd hc hred
      | black => rfl
    obtain ⟨⟨b, c, p, S⟩, C, rfl⟩ := exists_cons_of_ne_nil hne
    obtain ⟨xc, xl, x, xr, rfl⟩ : ∃ xc xl x xr, T = .node xc xl x xr := by
      cases T with
      | nil => exact absurd rfl hT
      | node xc xl x xr => exact ⟨xc, xl, x, xr, rfl⟩
    obtain ⟨t1, C1, T1, e1, a1, hT1, k1, hC1, hl1, hdown⟩ := deleteFixupIteration_spec h hC
    have hlen : C.length + 1 < n + 1 := by
      rcases hfuel with hlt | hr
      · simpa using hlt
      · exact absurd hr hred
    obtain ⟨t2, C2, T2, e2, a2, hT2, k2, hC2, hl2⟩ := ih a1 hT1 hC1 (by omega)
      (hdown.imp (fun hle => by omega) id)
    refine ⟨t2, C2, T2, ?_, a2, hT2, k1.trans k2, hC2, hl2.trans hl1⟩
    -- the loop's own tests: below the root, black, and the side read off the parent
    have hx := h.get_mk (b := .left)
    have hfar : rootIdx S ≠ some x.idx := h.sib_ne rfl
    have hcond : ¬ (rootIdx (.node xc xl x xr) = t.root ∨
        rootColor (.node xc xl x xr) ≠ .black) := by
      rw [not_or, not_not]
      exact ⟨h.ne_root, hblack⟩
    simp only [deleteFixupLoop, h.colorOf, Option.bind_eq_bind, Option.bind_some, hcond, if_false]
    simp only [rootIdx_node, hx, Option.bind_some, toNode_parent, parentIdx_cons, h.get_parent]
    rw [toNode_left_eq rfl hfar, e1]
    exact e2

theorem deleteFixup_spec (h : At t C T) (hC : BlackTop C) (hlen : C.length ≤ t.len) :
    ∃ t' R, t.deleteFixup (rootIdx T) = some t' ∧ At t' [] R ∧ Keeps t t' ∧ Deblackened C T R := by
  by_cases hT : T = .nil
  · subst hT
    refine ⟨t, _, ?_, at_plug.mp h, .refl t, ⟨rfl, rootColor_plug hC fun _ => rfl, fun _ => rfl,
      fun hne => absurd rfl hne⟩⟩
    simp [deleteFixup, fuel, deleteFixupLoop, colorOf, modifySome]
  by_cases hstop : T.rootColor = .red ∨ C = []
  · obtain ⟨t1, e1, a1, k1⟩ := h.paint .black
    refine ⟨t1, _, ?_, at_plug.mp a1, k1, ⟨?_, ?_, fun hn => absurd hn hT, fun _ _ => rfl⟩⟩
    · simp [deleteFixup, fuel, deleteFixupLoop_stop h hstop, some_bind, e1]
    · exact Ctx.toList_plug_congr C (toList_paint _ _)
    · exact rootColor_plug hC fun _ => by cases T <;> rfl
  obtain ⟨t1, C1, T1, e1, a1, hT1, k1, hC1, hl1⟩ := deleteFixupLoop_spec (n := t.fuel) h hT hC
    (Nat.succ_pos _) (Or.inl (Nat.lt_succ_of_le hlen))
  obtain ⟨t2, e2, a2, k2⟩ := a1.paint .black
  refine ⟨t2, _, ?_, at_plug.mp a2, k1.trans k2, ⟨?_, ?_, fun hn => absurd hn hT,
    fun _ hs => absurd hs hstop⟩⟩
  · simp [deleteFixup, e1, some_bind, e2]
  · rw [← hl1]
    exact Ctx.toList_plug_congr C1 (toList_paint _ _)
  · exact rootColor_plug hC1 fun _ => by cases T1 <;> rfl

/-! ## Cutting a node out -/

section detach

variable {t : RedBlackTree A} {C : Ctx (Entry Idx K V)}

/-- `transplant`: the subtree `W` takes the place of the node `u`, whose record stays behind. -/
theorem transplant_spec {u : Idx} {nu : Node Idx K V} {W : Shape Idx K V} {p : Option Idx}
    {r : List (Chunk Idx (Node Idx K V))} (hroot : t.root = ctxRoot C (some u))
    (h : Heap t.arenaGet (ctxChunk (some u) C :: .cell u nu :: treeChunk p W :: r))
    (hnu : nu.parent = parentIdx C) :
    ∃ t', t.transplant u (rootIdx W) = some t' ∧ t'.root = ctxRoot C (rootIdx W) ∧ Keeps t t' ∧
      Heap t'.arenaGet
        (ctxChunk (rootIdx W) C :: .cell u nu :: treeChunk (parentIdx C) W :: r) := by
  have hu := Heap.get_cell [_] h
  have hnot : u ∉ ctxIdxs C := by
    refine Heap.disjoint (l := [ctxChunk (some u) C]) (c := .cell u nu) (d := ctxChunk (some u) C)
      h (by simp) ?_
    simp [Chunk.cell]
  obtain ⟨t1, e1, r1, k1, h1⟩ := replaceInParent_spec (rootIdx W) hroot h hnot
  obtain ⟨t2, e2, r2, k2, h2⟩ := heap_reparent [_, _] h1 (parentIdx C)
  refine ⟨t2, ?_, r2.trans r1, k1.trans k2, h2⟩
  simp [transplant, hu, hnu, some_bind, e1, e2]

variable {c : Color} {z : Entry Idx K V}

/-- A node with a missing child is replaced by the other one. -/
theorem transplant_child {b : Branch} {x : Shape Idx K V} (h : At t C (.mk b c .nil z x)) :
    ∃ t', t.transplant z.idx (rootIdx x) = some t' ∧ At t' C x ∧ Keeps t t' := by
  have h0 := heap_unfold [_] h.heap
  rw [rootIdx_mk] at h0
  have h1 : Heap t.arenaGet (ctxChunk (some z.idx) C :: .cell z.idx _ ::
      treeChunk (some z.idx) x :: [treeChunk (some z.idx) .nil]) :=
    h0.perm (.cons _ (.cons _ (.swap _ _ _)))
  obtain ⟨t1, e1, r1, k1, h2⟩ := transplant_spec (by simpa using h.root) h1 (toNode_parent ..)
  refine ⟨t1, e1, ⟨r1, ?_⟩, k1⟩
  exact Heap.keep [_, _] (h2.perm (.cons _ (.swap _ _ _)))

/-- Both branches leave `z` with its left subtree and a right subtree whose top is the successor. -/
theorem liftSuccessor_spec {cz cs : Color} {z s : Entry Idx K V} {zl sr : Shape Idx K V}
    {D : Ctx (Entry Idx K V)} {zRight : Idx}
    (h : At t C (.node cz zl z (D.plug (.node cs .nil s sr))))
    (hz : rootIdx (D.plug (.node cs .nil s sr)) = some zRight) :
    ∃ t' nz ps, t.liftSuccessor z.idx zRight s.idx (rootIdx sr) = some t' ∧
      t'.root = t.root ∧ Keeps t t' ∧ nz.parent = parentIdx C ∧ nz.left = rootIdx zl ∧
      nz.color = cz ∧
      Heap t'.arenaGet [ctxChunk (some z.idx) C, .cell z.idx nz, treeChunk (some z.idx) zl,
        treeChunk ps (.node cs .nil s (D.plug sr))] := by
  have hE : At t (D ++ ⟨.right, cz, z, zl⟩ :: C) (.node cs .nil s sr) :=
    at_append.mpr (at_cons.mpr h)
  have hs := hE.get_mk (b := .left)
  cases D with
  | nil =>
    -- the successor is the right child: its own right subtree already hangs from it
    have h1 := heap_unfold (b := .left) [_, _, _] (heap_unfold (b := .left) [_] h.heap)
    obtain ⟨t1, e1, r1, k1, h2⟩ := heap_reparent [_, _, _, _, _] h1 (some s.idx)
    refine ⟨t1, z.toNode .left cz (parentIdx C) (rootIdx zl) (some s.idx), some z.idx, ?_, r1, k1,
      rfl, rfl, rfl, heap_fold (b := .left) [_, _, _] h2⟩
    simp [liftSuccessor, hs, e1]
  | cons f D =>
    have hne : f.label.idx ≠ z.idx := by
      have hnd := (nodup_append.mp hE.nodup).1
      intro he
      simp only [cons_append, ctxIdxs, nodup_cons] at hnd
      refine hnd.1 (mem_append_right _ ?_)
      rw [he]
      exact mem_ctxIdxs_append D
    -- the successor leaves its place ...
    have h1 := heap_unfold (b := .left) [_] hE.heap
    have h1' : Heap t.arenaGet (ctxChunk (some s.idx) (f :: D ++ ⟨.right, cz, z, zl⟩ :: C) ::
        .cell s.idx _ :: treeChunk (some s.idx) sr :: [treeChunk (some s.idx) .nil]) :=
      h1.perm (.cons _ (.cons _ (.swap _ _ _)))
    obtain ⟨t1, e1, r1, k1, h2⟩ := transplant_spec hE.root h1' (toNode_parent ..)
    -- ... and the rest of the right subtree is cut loose from `z`
    have h3 := heap_append.mp (h2.perm (.cons _ (.swap _ _ _)))
    have h4 := heap_unfold (b := .right) (u := zl) [_] (heap_cons.mp h3)
    have hz' : rootIdx (Ctx.plug (f :: D) sr) = some zRight := by
      rw [← hz, rootIdx_plug, rootIdx_plug]
      rfl
    rw [nodeChunks, hz'] at h4
    obtain ⟨t2, e2, r2, k2, h5⟩ := heap_modify [_, _, _, _] h4 (·.withChild .right (some zRight))
    obtain ⟨t3, e3, r3, k3, h6⟩ := heap_reparent [_, _] h5 (some s.idx)
    have h7 : Heap t3.arenaGet ([ctxChunk (some z.idx) C,
        .cell z.idx (z.toNode .right cz (parentIdx C) (some zRight) (rootIdx zl)),
        treeChunk (some z.idx) zl] ++ nodeChunks (parentIdx (f :: D ++ ⟨.right, cz, z, zl⟩ :: C))
        .left cs .nil s (Ctx.plug (f :: D) sr) ++ []) := by
      rw [nodeChunks, hz']
      refine h6.perm ?_
      show ([_, _] ++ ([_] ++ [_, _, _])).Perm ([_, _] ++ ([_, _, _] ++ [_]))
      exact perm_append_comm.append_left _
    refine ⟨t3, _, _, ?_, ?_, k1.trans (k2.trans k3), toNode_parent .., rfl, toNode_color ..,
      heap_fold (b := .left) [_, _, _] h7⟩
    · have hpar : parentIdx (f :: D ++ ⟨.right, cz, z, zl⟩ :: C) ≠ some z.idx := by
        simpa using hne
      rw [hz'] at e3
      simp only [liftSuccessor, hs, some_bind, toNode_parent, hpar, if_false, e1, setChild, e2]
      exact e3
    · rw [r3, r2, r1, hE.root]
      rfl

/-- **The two-children splice**: the successor `s` takes the place and the colour of `z`, and its
    right subtree moves up where it stood. -/
theorem detachTwoChildren_spec {cz cs : Color} {z s : Entry Idx K V} {zl sr : Shape Idx K V}
    {D : Ctx (Entry Idx K V)} (h : At t C (.node cz zl z (D.plug (.node cs .nil s sr))))
    (hD : D.before = []) (hfuel : (D.plug (.node cs .nil s sr)).height ≤ t.fuel) :
    ∃ t', t.detachTwoChildren z.idx = some (t', rootIdx sr, cs) ∧
      At t' (D ++ ⟨.right, cz, s, zl⟩ :: C) sr ∧ Keeps t t' := by
  have hE : At t (D ++ ⟨.right, cz, z, zl⟩ :: C) (.node cs .nil s sr) :=
    at_append.mpr (at_cons.mpr h)
  have hz := h.get_mk (b := .left)
  have hs := hE.get_mk (b := .left)
  obtain ⟨zRight, hzr⟩ : ∃ i, rootIdx (D.plug (.node cs .nil s sr)) = some i := by
    cases hr : rootIdx (D.plug (.node cs .nil s sr)) with
    | none =>
      have hnil : (D.plug (.node cs .nil s sr)).top? = none := by simpa [rootIdx] using hr
      exact absurd (top?_eq_none.mp hnil) (Ctx.plug_ne_nil D (by simp))
    | some i => exact ⟨i, rfl⟩
  have hmin : t.subtreeMin (some zRight) = some (some s.idx) := by
    rw [subtreeMin, ← hzr, subtreeEnd_spec h.sub.2.2 hfuel, endOf, Ctx.toList_plug, hD]
    simp [toList]
  obtain ⟨t1, nz, ps, e1, r1, k1, hpar, hleft, hcol, h1⟩ := liftSuccessor_spec h hzr
  -- the successor's subtree takes the place of `z`
  have h1' : Heap t1.arenaGet (ctxChunk (some z.idx) C :: .cell z.idx nz ::
      treeChunk ps (.node cs .nil s (D.plug sr)) :: [treeChunk (some z.idx) zl]) :=
    h1.perm (.cons _ (.cons _ (.swap _ _ _)))
  obtain ⟨t2, e2, r2, k2, h2⟩ := transplant_spec (by rw [r1, h.root]; rfl) h1' hpar
  have hz2 := Heap.get_cell [_] h2
  -- its missing left child becomes the left subtree of `z`
  have h3 := heap_unfold (b := .left) [_, _] h2
  obtain ⟨t3, e3, r3, k3, h4⟩ := heap_modify [_, _] h3 (·.withChild .left (rootIdx zl))
  have hs3 := Heap.get_cell [_, _] h4
  obtain ⟨t4, e4, r4, k4, h5⟩ := heap_reparent [_, _, _, _, _] h4 (some s.idx)
  have hz4 := Heap.get_cell [_] h5
  obtain ⟨t5, e5, r5, k5, h6⟩ := heap_modify [_, _] h5 (·.withColor cz)
  refine ⟨t5, ?_, at_append.mpr (at_cons.mpr ⟨?_, ?_⟩),
    k1.trans (k2.trans (k3.trans (k4.trans k5)))⟩
  · rw [rootIdx_node] at e2
    rw [toNode_withChild] at hs3
    rw [← hcol] at e5
    refine (bind_of_eq_some hz).trans ((bind_of_eq_some hzr).trans ?_)
    refine (bind_of_eq_some hmin).trans ((bind_of_eq_some rfl).trans ?_)
    refine (bind_of_eq_some hs).trans ((bind_of_eq_some hs).trans ?_)
    refine (bind_of_eq_some e1).trans ((bind_of_eq_some e2).trans ?_)
    refine (bind_of_eq_some hz2).trans ?_
    rw [hleft]
    refine (bind_of_eq_some e3).trans ((bind_of_eq_some hs3).trans ?_)
    refine (bind_of_eq_some e4).trans ((bind_of_eq_some hz4).trans ?_)
    exact bind_of_eq_some e5
  · rw [r5, r4, r3, r2]
    rfl
  · rw [toNode_withChild, toNode_withColor] at h6
    -- the record of `z` and the old left child of `s` go to the end, to be dropped
    have h7 : Heap t5.arenaGet ([ctxChunk (some s.idx) C] ++ nodeChunks (parentIdx C) .left cz zl s
        (D.plug sr) ++ [.cell z.idx nz, treeChunk (some s.idx) .nil]) := by
      refine h6.perm (.cons _ (.trans (.swap _ _ _) (.cons _ ?_)))
      show ([_, _] ++ [_, _]).Perm _
      exact perm_append_comm.trans (.swap _ _ _)
    exact Heap.keep [_, _] (heap_fold (b := .left) [_] h7)

theorem unlink_spec {T : Shape Idx K V} {l r : Shape Idx K V}
    (h : At t C (.node c l z r)) (hT : C.plug (.node c l z r) = T) (hfuel : r.height ≤ t.fuel) :
    ∃ t' C' c' x, t.unlink z.idx = some (t', rootIdx x, c') ∧ At t' C' x ∧ Keeps t t' ∧
      Splice T z C' c' x := by
  have hz := h.get_mk (b := .left)
  cases l with
  | nil =>
    obtain ⟨t1, e1, a1, k1⟩ := transplant_child (b := .left) h
    exact ⟨t1, C, c, r, by simp [unlink, hz, e1], a1, k1, .one (b := .left) hT⟩
  | node cl ll el lr =>
    cases r with
    | nil =>
      obtain ⟨t1, e1, a1, k1⟩ := transplant_child (b := .right) h
      rw [rootIdx_node] at e1
      exact ⟨t1, C, c, _, by simp [unlink, hz, e1], a1, k1, .one (b := .right) hT⟩
    | node cr rl er rr =>
      obtain ⟨D, cs, s, sr, hD, hr⟩ := Ctx.exists_leftmost (t := .node cr rl er rr) (by simp)
      have hne : rootIdx (D.plug (.node cs .nil s sr)) ≠ none := by rw [← hr]; simp
      rw [hr] at h hT hz hfuel
      obtain ⟨t1, e1, a1, k1⟩ := detachTwoChildren_spec h hD hfuel
      exact ⟨t1, _, cs, sr, by simp [unlink, hz, hne, e1], a1, k1, .two hD (by simp) hT⟩

theorem detachNode_spec {T : Shape Idx K V} {l r : Shape Idx K V}
    (h : At t C (.node c l z r)) (hT : C.plug (.node c l z r) = T) (hroot : T.rootColor = .black)
    (hlen : t.len = T.size) : ∃ t' T', t.detachNode z.idx = some t' ∧ Removed T z T' ∧ At t' [] T' ∧
      t'.len = t.len - 1 ∧ ∀ i, (t'.arenaGet i).map Node.data = (t.arenaGet i).map Node.data := by
  let t0 : RedBlackTree A := { t with len := t.len - 1 }
  have hsize : l.size + 1 + r.size ≤ t.len := by
    rw [hlen, ← hT]
    exact C.size_le_plug (.node c l z r)
  have hfuel : r.height ≤ t0.fuel := by
    have := r.height_le_size
    simp only [fuel, t0]
    omega
  obtain ⟨t1, C', c', x, e1, a1, k1, hs⟩ := unlink_spec (t := t0) ⟨h.root, h.heap⟩ hT hfuel
  have hdet : t.detachNode z.idx =
      if c' = .black then t1.deleteFixup (rootIdx x) else some t1 := by
    rw [detachNode, if_neg (by omega)]
    rw [e1]
    rfl
  rw [hdet]
  cases c' with
  | red => exact ⟨t1, _, rfl, .red hs, at_plug.mp a1, k1.len, k1.data⟩
  | black =>
    have hle : C'.length ≤ t1.len := by
      obtain ⟨L, M, hL, hM⟩ := hs.toList_eq
      have h1 := C'.length_add_size_le x
      have h2 : t1.len = t.len - 1 := k1.len
      rw [size_eq_length (C'.plug x), hM] at h1
      rw [h2, hlen, size_eq_length, hL]
      simp only [length_append, length_cons] at h1 ⊢
      omega
    obtain ⟨t2, R, e2, a2, k2, hR⟩ := deleteFixup_spec a1 (hs.blackTop hroot) hle
    exact ⟨t2, R, by rw [if_pos rfl, e2], .black hs hR, a2, k2.len.trans k1.len,
      fun i => (k2.data i).trans (k1.data i)⟩

end detach

/-! ## `remove` -/

variable [LinearOrder K]

section

variable {t : RedBlackTree A} {T T' : Shape Idx K V} {z : Entry Idx K V}

/-- **`remove` refines `Removed`**, and never panics, whatever the shape of the tree. -/
theorem Models.remove (h : Models t T) (hroot : T.rootColor = .black) (key : K) :
    (lookup T key = none ∧ t.remove key = some (t, none)) ∨
    ∃ z t' T', lookup T key = some z ∧ t.remove key = some (t', some z.value) ∧ Removed T z T' ∧
      Models t' T' := by
  cases hl : lookup T key with
  | none => exact Or.inl ⟨rfl, by simp [RedBlackTree.remove, h.findNode, hl]⟩
  | some z =>
    obtain ⟨hz, hk⟩ := (lookup_eq_some h.sorted).mp hl
    obtain ⟨C, c, l, r, hT⟩ := exists_location hz
    obtain ⟨t1, T', e1, hrem, a1, hlen, hdata⟩ :=
      detachNode_spec (at_plug.mpr (hT ▸ h.at_root)) hT hroot h.len
    obtain ⟨L, M, hL, hM⟩ := hrem.toList_eq
    -- the record is still there, with its value
    obtain ⟨n, hn, -, hv⟩ := h.at_root.arenaGet_of_mem hz
    obtain ⟨n1, hn1, hd1⟩ : ∃ n1, t1.arenaGet z.idx = some n1 ∧ n1.data = n.data := by
      have := hdata z.idx
      rw [hn] at this
      exact Option.map_eq_some_iff.mp this
    have hv1 : n1.value = z.value := (congrArg Prod.snd hd1).trans hv
    let t2 : RedBlackTree A := { t1 with arena := (A.remove t1.arena z.idx).2 }
    have hself : t2.arenaGet z.idx = none := A.get_remove_self _ _
    have hne : ∀ j, j ≠ z.idx → t2.arenaGet j = t1.arenaGet j := A.get_remove_of_ne _ _
    have hnot : z.idx ∉ idxs T' := by
      have hnd : (idxs T).Nodup := by simpa [ctxIdxs] using h.at_root.nodup
      rw [idxs, hL, map_append, map_cons, nodup_middle] at hnd
      rw [idxs, hM, map_append]
      exact (nodup_cons.mp hnd).1
    refine Or.inr ⟨z, t2, T', rfl, ?_, hrem, ?_, ?_, ?_, ?_⟩
    · have hfst : (A.remove t1.arena z.idx).1 = some n1 := (A.remove_fst _ _).trans hn1
      simp [RedBlackTree.remove, h.findNode, hl, e1, hfst, hv1, t2]
    · exact a1.congr rfl fun i hi => hne i fun he => hnot (he ▸ hi)
    · rw [show t2.len = t.len - 1 from hlen, h.len, size_eq_length, size_eq_length, hL, hM]
      simp
    · intro j hj
      have hjz : j ≠ z.idx := by
        rintro rfl
        rw [hself] at hj
        exact absurd hj (by simp)
      have hjT : j ∈ idxs T := by
        refine h.live j ?_
        rw [hne j hjz] at hj
        simpa using (congrArg Option.isSome (hdata j)).symm.trans (by simpa using hj)
      rw [idxs, hL, map_append, map_cons, mem_append, mem_cons] at hjT
      rw [idxs, hM, map_append, mem_append]
      exact hjT.imp id fun h => h.resolve_left hjz
    · have hs := h.sorted
      unfold Sorted at hs ⊢
      rw [hL] at hs
      rw [hM]
      exact hs.sublist ((sublist_cons_self z M).append_left L)

end
end Moose.RbTree
