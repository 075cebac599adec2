import Moose.RbTree.Search

/-!
# Insertion

The loop of `insert_fixup` performs `Rebalance` on the shape: one iteration is one constructor,
whichever side the pair hangs on. From there `insert` as a whole: the descent finds the entry and
overwrites its value, or finds the hole, and a fresh red node goes into it.
-/

set_option autoImplicit false

namespace Moose.RbTree

open List Lib RedBlackTree ColorTree

variable {Idx K V : Type} {A : GenArena Idx (Node Idx K V)}

/-- The root of a context is black: what makes a red parent have a parent of its own. -/
def BlackTop (C : Ctx (Entry Idx K V)) : Prop := ∀ f, C.getLast? = some f → f.color = .black

variable {C : Ctx (Entry Idx K V)} {t : RedBlackTree A}

theorem BlackTop.tail {f : ColorTree.Frame (Entry Idx K V)}
    (h : BlackTop (f :: C)) : BlackTop C := by
  intro g hg
  refine h g ?_
  cases C with
  | nil => exact absurd hg (by simp)
  | cons f' C => simpa [getLast?_cons] using hg

theorem blackTop_of_rootColor :
    ∀ {S : Shape Idx K V}, (C.plug S).rootColor = .black → BlackTop C := by
  induction C with
  | nil => intro S _ f hf; exact absurd hf (by simp)
  | cons g C ih =>
    intro S h f hf
    cases C with
    | nil =>
      obtain rfl : g = f := by simpa using hf
      simpa [Ctx.plug] using h
    | cons g' C => exact ih h f (by simpa [getLast?_cons] using hf)

theorem rootColor_plug_congr {S S' : Shape Idx K V}
    (h : S.rootColor = S'.rootColor) : (C.plug S).rootColor = (C.plug S').rootColor := by
  cases C with
  | nil => exact h
  | cons f C => exact Ctx.rootColor_plug_cons f C S S'

theorem exists_node {T : Shape Idx K V} {z : Idx} (h : rootIdx T = some z) :
    ∃ c l e r, T = .node c l e r ∧ e.idx = z := by
  cases T with
  | nil => cases h
  | node c l e r => exact ⟨c, l, e, r, rfl, by simpa using h⟩

/-! ## The shape after an insertion -/

section inserted

variable [LinearOrder K]

/-- What `insert key value` does to the shape: it overwrites the value in place, or puts the new
    entry into the hole it belongs into and rebalances. -/
inductive Inserted (T : Shape Idx K V) (key : K) (value : V) : Idx → Shape Idx K V → Prop
  | update {C : Ctx (Entry Idx K V)} {c : Color} {l r : Shape Idx K V} {e : Entry Idx K V} :
      C.plug (.node c l e r) = T → e.key = key →
      Inserted T key value e.idx (C.plug (.node c l { e with value := value } r))
  | fresh {C : Ctx (Entry Idx K V)} {R : Shape Idx K V} {i : Idx} :
      C.plug .nil = T → Around C key → i ∉ idxs T →
      C.Rebalance (.node .red .nil ⟨i, key, value⟩ .nil) R →
      Inserted T key value i (R.paint .black)

variable {T T' : Shape Idx K V} {key : K} {value : V} {i : Idx}

section

variable (h : Inserted T key value i T')
include h

theorem Inserted.toList_eq : (∃ L e M, T.toList = L ++ e :: M ∧ e.key = key ∧ e.idx = i ∧
      T'.toList = L ++ ⟨i, key, value⟩ :: M) ∨
    (∃ L M, T.toList = L ++ M ∧ (∀ e ∈ L, e.key < key) ∧ (∀ e ∈ M, key < e.key) ∧ i ∉ idxs T ∧
      T'.toList = L ++ ⟨i, key, value⟩ :: M) := by
  cases h with
  | @update C c l r e hT hk =>
    refine Or.inl ⟨C.before ++ l.toList, e, r.toList ++ C.after, ?_, hk, rfl, ?_⟩
    · rw [← hT, Ctx.toList_plug]
      simp [toList]
    rw [Ctx.toList_plug]
    simp [toList, hk]
  | @fresh C R i hT ha hi hR =>
    refine Or.inr ⟨C.before, C.after, ?_, ha.1, ha.2, hi, ?_⟩
    · rw [← hT, Ctx.toList_plug]
      simp [toList]
    rw [toList_paint, hR.toList_eq, Ctx.toList_plug]
    simp [toList]

theorem Inserted.sorted (hs : Sorted T) : Sorted T' := by
  unfold Sorted at hs ⊢
  rcases h.toList_eq with ⟨L, e, M, hT, hk, -, hT'⟩ | ⟨L, M, hT, hL, hM, -, hT'⟩
  · rw [hT, pairwise_append, pairwise_cons] at hs
    rw [hT', pairwise_append, pairwise_cons]
    obtain ⟨hL, ⟨heM, hM⟩, hLM⟩ := hs
    refine ⟨hL, ⟨fun a ha => hk ▸ heM a ha, hM⟩, fun a ha b hb => ?_⟩
    rcases mem_cons.mp hb with rfl | hb
    · exact hk ▸ hLM a ha e (by simp)
    · exact hLM a ha b (by simp [hb])
  rw [hT, pairwise_append] at hs
  rw [hT', pairwise_append, pairwise_cons]
  obtain ⟨hLs, hMs, hLM⟩ := hs
  refine ⟨hLs, ⟨hM, hMs⟩, fun a ha b hb => ?_⟩
  rcases mem_cons.mp hb with rfl | hb
  · exact hL a ha
  · exact hLM a ha b hb

/-- The new entry, and every entry with another key. -/
theorem Inserted.mem_iff (hs : Sorted T) (e : Entry Idx K V) :
    e ∈ T'.toList ↔ e = ⟨i, key, value⟩ ∨ (e ∈ T.toList ∧ e.key ≠ key) := by
  rcases h.toList_eq with ⟨L, a, M, hT, hk, -, hT'⟩ | ⟨L, M, hT, hL, hM, -, hT'⟩
  · have hpw : (L ++ a :: M).Pairwise fun a b => a.key < b.key := hT ▸ hs
    rw [pairwise_append, pairwise_cons] at hpw
    obtain ⟨-, ⟨hM, -⟩, hL⟩ := hpw
    have hLne : ∀ e ∈ L, e.key ≠ key := fun e he => hk ▸ (hL e he a (by simp)).ne
    have hMne : ∀ e ∈ M, e.key ≠ key := fun e he => hk ▸ (hM e he).ne'
    rw [hT, hT']
    simp only [mem_append, mem_cons]
    constructor
    · rintro (he | rfl | he)
      · exact Or.inr ⟨Or.inl he, hLne e he⟩
      · exact Or.inl rfl
      · exact Or.inr ⟨Or.inr (Or.inr he), hMne e he⟩
    rintro (rfl | ⟨he | rfl | he, hne⟩)
    · exact Or.inr (Or.inl rfl)
    · exact Or.inl he
    · exact absurd hk hne
    · exact Or.inr (Or.inr he)
  · rw [hT, hT']
    simp only [mem_append, mem_cons]
    constructor
    · rintro (he | rfl | he)
      · exact Or.inr ⟨Or.inl he, (hL e he).ne⟩
      · exact Or.inl rfl
      · exact Or.inr ⟨Or.inr he, (hM e he).ne'⟩
    rintro (rfl | ⟨he | he, -⟩)
    · exact Or.inr (Or.inl rfl)
    · exact Or.inl he
    · exact Or.inr (Or.inr he)

theorem Inserted.root_black (hroot : T.rootColor = .black) : T'.rootColor = .black := by
  cases h with
  | update hT _ =>
    rw [← hroot, ← hT]
    exact rootColor_plug_congr rfl
  | @fresh _ R _ _ _ _ _ => cases R <;> rfl

end

end inserted

/-! ## Rotations, by the side of the pair -/

variable [DecidableEq Idx]

section rotations

variable {t : RedBlackTree A} {C : Ctx (Entry Idx K V)} {b : Branch} {c c' : Color}
  {x y : Entry Idx K V} {S B D : Shape Idx K V}

theorem At.rotateIn (h : At t C (.mk b c S x (.mk b c' B y D))) :
    ∃ t', t.rotateIn x.idx b = some t' ∧ At t' C (.mk b c' (.mk b c S x B) y D) ∧
      Keeps t t' := by
  have he : t.rotateIn x.idx b = t.rotate b.opposite x.idx := by cases b <;> rfl
  rw [he]
  exact h.rotate

theorem At.rotateOut (h : At t C (.mk b c (.mk b c' S y B) x D)) :
    ∃ t', t.rotateOut x.idx b = some t' ∧ At t' C (.mk b c' S y (.mk b c B x D)) ∧
      Keeps t t' := by
  have he : t.rotateOut x.idx b = t.rotate b.opposite.opposite x.idx := by cases b <;> rfl
  -- the same rotation seen in the mirror
  rw [he]
  simp only [← mk_opposite b] at h ⊢
  exact h.rotate

end rotations

/-! ## One iteration -/

section iteration

variable {t : RedBlackTree A} {C : Ctx (Entry Idx K V)} {b d : Branch} {c : Color}
  {p g : Entry Idx K V} {s u T : Shape Idx K V} {z : Idx}

/-- Case 1: parent and uncle turn black, the grandparent red, and the climb goes on there. -/
theorem insertFixupIteration_redUncle (h : At t (⟨d, .red, p, s⟩ :: ⟨b, c, g, u⟩ :: C) T)
    (hu : u.rootColor = .red) :
    ∃ t', t.insertFixupIteration z p.idx g.idx b = some (t', g.idx) ∧
      At t' C (.mk b .red (.mk d .black T p s) g (u.paint .black)) ∧ Keeps t t' := by
  have hup := at_cons.mp h
  have hg := hup.get_parent
  have hcol := hup.colorOf_sib
  obtain ⟨t1, e1, a1, k1⟩ := h.paint_parent .black
  obtain ⟨t2, e2, a2, k2⟩ := (at_cons.mp a1).paint_sib .black
  obtain ⟨t3, e3, a3, k3⟩ := a2.paint_parent .red
  refine ⟨t3, ?_, at_cons.mp a3, k1.trans (k2.trans k3)⟩
  simp only [insertFixupIteration, link, hg, some_bind, toNode_link_opposite, hcol, hu, if_true,
    e1, e2, e3]
  rfl

/-- Case 3: the pair is in line with the grandparent. -/
theorem insertFixupIteration_line (h : At t (⟨b, .red, p, s⟩ :: ⟨b, c, g, u⟩ :: C) T)
    (hz : rootIdx T = some z) (hu : u.rootColor = .black) :
    ∃ t', t.insertFixupIteration z p.idx g.idx b = some (t', z) ∧
      At t' (⟨b, .black, p, .mk b .red s g u⟩ :: C) T ∧ Keeps t t' := by
  have hup := at_cons.mp h
  have hg := hup.get_parent
  have hp := h.get_parent
  have hcol := hup.colorOf_sib
  have hfar : (rootIdx s = some z) = False := eq_false (h.sib_ne hz)
  obtain ⟨zc, zl, ze, zr, rfl, rfl⟩ := exists_node hz
  have hgz := h.get_mk (b := .left)
  obtain ⟨t1, e1, a1, k1⟩ := h.paint_parent .black
  obtain ⟨t2, e2, a2, k2⟩ := (at_cons.mp a1).paint_parent .red
  obtain ⟨t3, e3, a3, k3⟩ := (at_cons.mp a2).rotateOut
  refine ⟨t3, ?_, a3.down, k1.trans (k2.trans k3)⟩
  simp [insertFixupIteration, link, hg, hp, hgz, some_bind, toNode_link_opposite, toNode_parent,
    hcol, hu, hfar, parentIdx_cons, e1, e2, e3]

/-- Case 2: the pair forms a triangle; a rotation at the parent makes it a line. -/
theorem insertFixupIteration_triangle {cz : Color} {ze : Entry Idx K V} {T' : Shape Idx K V}
    (h : At t (⟨b.opposite, .red, p, s⟩ :: ⟨b, c, g, u⟩ :: C) (.mk b cz T ze T'))
    (hu : u.rootColor = .black) :
    ∃ t', t.insertFixupIteration ze.idx p.idx g.idx b = some (t', p.idx) ∧
      At t' (⟨b, .black, ze, .mk b .red T' g u⟩ :: C) (.mk b .red s p T) ∧ Keeps t t' := by
  have hup := at_cons.mp h
  have hg := hup.get_parent
  have hp := h.get_parent
  have hcol := hup.colorOf_sib
  simp only [mk_opposite] at hup
  obtain ⟨t0, e0, a0, k0⟩ := hup.rotateIn
  have hgp := a0.down.get_mk
  have hgz := a0.get_mk
  obtain ⟨t1, e1, a1, k1⟩ := a0.paint_mk .black
  obtain ⟨t2, e2, a2, k2⟩ := a1.paint_parent .red
  obtain ⟨t3, e3, a3, k3⟩ := (at_cons.mp a2).rotateOut
  refine ⟨t3, ?_, a3.down, k0.trans (k1.trans (k2.trans k3))⟩
  simp [insertFixupIteration, link, hg, hp, some_bind, toNode_link_opposite, toNode_opposite, hcol,
    hu, rootIdx_mk, e0, hgp, hgz, toNode_parent, parentIdx_cons, e1, e2, e3]

end iteration

/-! ## The climb -/

theorem insertFixupLoop_stop {f : ColorTree.Frame (Entry Idx K V)}
    {T : Shape Idx K V} {z : Idx} {n : Nat} (h : At t (f :: C) T)
    (hz : rootIdx T = some z) (hf : f.color = .black) :
    insertFixupLoop (n + 1) t z = some t := by
  cases T with
  | nil => exact absurd hz (by simp)
  | node c l e r =>
    obtain rfl : e.idx = z := by simpa using hz
    have hz' := h.get_mk (b := .left)
    simp [insertFixupLoop, hz', h.get_parent, hf]

theorem insertFixupLoop_spec :
    ∀ {n : Nat} {t : RedBlackTree A} {C : Ctx (Entry Idx K V)} {T : Shape Idx K V} {z : Idx},
      At t C T → rootIdx T = some z → BlackTop C → C.length < n →
      ∃ t' R, insertFixupLoop n t z = some t' ∧ C.Rebalance T R ∧ At t' [] R ∧
        Keeps t t' := by
  intro n
  induction n with
  | zero => intro _ _ _ _ _ _ _ hn; exact absurd hn (Nat.not_lt_zero _)
  | succ n ih =>
    intro t C T z h hz hC hn
    obtain ⟨zc, zl, ze, zr, rfl, rfl⟩ := exists_node hz
    have hgz := h.get_mk (b := .left)
    match C, h, hC, hn with
    | [], h, _, _ =>
      exact ⟨t, _, by simp [insertFixupLoop, hgz], .root, h, .refl t⟩
    | ⟨d, .black, p, s⟩ :: C, h, _, _ =>
      exact ⟨t, _, insertFixupLoop_stop h rfl rfl, .blackParent rfl, at_plug.mp h, .refl t⟩
    | [⟨d, .red, p, s⟩], h, hC, _ => exact absurd (hC _ rfl) (by simp)
    | ⟨d, .red, p, s⟩ :: ⟨b, c, g, u⟩ :: C, h, hC, hn =>
      have hp := h.get_parent
      have hg := (at_cons.mp h).get_parent
      have hside := (at_cons.mp h).sib_ne (rootIdx_mk d .red _ p s)
      have hlen : C.length + 1 < n := by simpa using hn
      -- the loop's reads, up to the call of the iteration
      have hloop : insertFixupLoop (n + 1) t ze.idx = (do
          let r ← t.insertFixupIteration ze.idx p.idx g.idx b
          insertFixupLoop n r.1 r.2) := by
        simp only [insertFixupLoop, hgz, hp, hg, some_bind, toNode_parent, toNode_color,
          parentIdx_cons, ne_eq,
          not_true_eq_false, if_false, toNode_left_eq (rootIdx_mk d .red _ p s) hside]
      rw [hloop]
      cases hu : u.rootColor with
      | red =>
        obtain ⟨t1, e1, a1, k1⟩ := insertFixupIteration_redUncle (z := ze.idx) h hu
        obtain ⟨t2, R, e2, hR, a2, k2⟩ :=
          ih a1 (rootIdx_mk _ _ _ _ _) hC.tail.tail (by omega)
        exact ⟨t2, R, by simpa [e1] using e2, .redUncle hu hR, a2, k1.trans k2⟩
      | black =>
        obtain ⟨n, rfl⟩ : ∃ m, n = m + 1 := ⟨n - 1, by omega⟩
        rcases b.eq_or_opposite d with rfl | rfl
        · obtain ⟨t1, e1, a1, k1⟩ := insertFixupIteration_line h rfl hu
          refine ⟨t1, _, ?_, .line hu, at_plug.mp (at_cons.mp a1), k1⟩
          simpa [e1] using insertFixupLoop_stop a1 rfl rfl
        obtain ⟨zn, zf, hmk⟩ := exists_mk b zc zl ze zr
        rw [hmk] at h ⊢
        obtain ⟨t1, e1, a1, k1⟩ := insertFixupIteration_triangle h hu
        refine ⟨t1, _, ?_, .triangle hu, at_plug.mp (at_cons.mp a1), k1⟩
        simpa [e1] using insertFixupLoop_stop a1 (rootIdx_mk _ _ _ _ _) rfl

theorem insertFixup_spec {T : Shape Idx K V}
    {z : Idx} (h : At t C T) (hz : rootIdx T = some z) (hC : BlackTop C) (hlen : C.length ≤ t.len) :
    ∃ t' R, t.insertFixup z = some t' ∧ C.Rebalance T R ∧ At t' [] (R.paint .black) ∧
      Keeps t t' := by
  obtain ⟨t1, R, e1, hR, a1, k1⟩ :=
    insertFixupLoop_spec (n := t.fuel) h hz hC (Nat.lt_succ_of_le hlen)
  obtain ⟨t2, e2, a2, k2⟩ := a1.paint .black
  refine ⟨t2, R, ?_, hR, a2, k1.trans k2⟩
  simp only [insertFixup, e1, some_bind]
  rw [a1.root]
  exact e2

/-! ## The new node -/

theorem hang_spec [LinearOrder K] {r : List (Chunk Idx (Node Idx K V))} {i : Idx} {n : Node Idx K V}
    (hroot : t.root = ctxRoot C none) (h : Heap t.arenaGet ([ctxChunk none C] ++ .cell i n :: r))
    (ha : Around C n.key) :
    ∃ t', t.hang (parentIdx C) i = some t' ∧ t'.root = ctxRoot C (some i) ∧ Keeps t t' ∧
      Heap t'.arenaGet (ctxChunk (some i) C :: .cell i n :: r) := by
  have hi := Heap.get_cell [_] h
  cases C with
  | nil =>
    refine ⟨{ t with root := some i }, rfl, rfl, ⟨rfl, fun _ => rfl⟩, ?_⟩
    show Heap t.arenaGet _
    simpa using Heap.cut [] [ctxChunk none []] [ctxChunk (some i) []] h (.refl _)
      fun _ d hd => by simp only [mem_singleton] at hd; subst hd; trivial
  | cons f C =>
    have hctx : RepCtx t.arenaGet none (f :: C) := h.holds (ctxChunk none (f :: C)) (by simp)
    have hnd : (ctxIdxs (f :: C)).Nodup := by
      have := h.nodup
      simp only [flatMap_append, flatMap_cons, nodup_append] at this
      exact this.1.1
    obtain ⟨t', ht', hr, hl, hg⟩ := modify_spec hctx.1 (·.withChild f.side (some i))
    refine ⟨t', ?_, by rw [hr, hroot]; rfl, .of_upd hl hg fun n => n.data_withChild _ _, ?_⟩
    · simp only [hang, parentIdx_cons, hi, hctx.1, some_bind, toNode_key, ha.side]
      exact ht'
    rw [hg]
    refine Heap.write [] h (ctxChunk (some i) (f :: C)) rfl (fun j hj => ?_)
      fun hc => hc.retarget hnd _
    simp [ctxChunk, ctxIdxs, Option.some.inj hj]

/-- A fresh red node goes into an empty hole. -/
theorem insertNode_spec [LinearOrder K] {key : K}
    (value : V) {d : RedBlackTree.Descent Idx} (h : At t C .nil)
    (hd : t.descend key t.fuel none t.root = some d) (hd' : d = .missing (parentIdx C))
    (ha : Around C key) (hC : BlackTop C) (hlen : C.length ≤ t.len) :
    ∃ t' i R, t.insert key value = some (t', i) ∧ t.arenaGet i = none ∧
      C.Rebalance (.node .red .nil ⟨i, key, value⟩ .nil) R ∧ At t' [] (R.paint .black) ∧
      t'.len = t.len + 1 ∧ ∀ j, (t'.arenaGet j).isSome → j = i ∨ (t.arenaGet j).isSome := by
  subst hd'
  let n : Node Idx K V := ⟨key, value, .red, none, none, none⟩
  let i := (A.insert t.arena n).1
  let t1 : RedBlackTree A := { t with arena := (A.insert t.arena n).2, len := t.len + 1 }
  have hfresh : t.arenaGet i = none := A.insert_fresh _ _
  have hself : t1.arenaGet i = some n := A.get_insert_self _ _
  have hne : ∀ j, j ≠ i → t1.arenaGet j = t.arenaGet j := A.get_insert_of_ne _ _
  have h1 : Heap t1.arenaGet [.cell i n, ctxChunk none C, treeChunk (parentIdx C) .nil] := by
    refine h.heap.alloc (fun j hj => ?_) hfresh hself hne
    simp only [ctxChunk, treeChunk, flatMap_cons, flatMap_nil, append_nil,
      mem_append] at hj
    rcases hj with hj | hj
    · exact h.ctx.isSome_of_mem j hj
    · exact absurd hj (by simp)
  obtain ⟨t2, e2, r2, k2, h2⟩ := heap_modify [] h1 (·.withParent (parentIdx C))
  obtain ⟨t3, e3, r3, k3, h3⟩ :=
    hang_spec (by rw [r2]; exact h.root) (h2.perm (.swap _ _ _)) ha
  have h4 : At t3 C (.node .red .nil ⟨i, key, value⟩ .nil) := by
    refine ⟨r3, Heap.cut [_] _ [treeChunk _ _] (r := []) (by simpa using h3) ?_ fun hc => ?_⟩
    · simp [treeChunk, Chunk.cell, idxs_node]
    simp only [forall_mem_cons] at hc ⊢
    exact ⟨⟨hc.1, trivial, trivial⟩, by simp⟩
  obtain ⟨t4, R, e4, hR, a4, k4⟩ := insertFixup_spec h4 rfl hC
    (by rw [k3.len, k2.len]; exact Nat.le_succ_of_le hlen)
  have hk : Keeps t1 t4 := k2.trans (k3.trans k4)
  refine ⟨t4, i, R, ?_, hfresh, hR, a4, hk.len, fun j hj => ?_⟩
  · simp only [RedBlackTree.insert, hd, Option.bind_eq_bind, Option.bind_some]
    rw [e2, Option.bind_some, e3, Option.bind_some, e4, Option.bind_some]
  rw [hk.live] at hj
  by_cases hji : j = i
  · exact Or.inl hji
  · exact Or.inr (hne j hji ▸ hj)

/-! ## `insert` -/

variable [LinearOrder K]

section

variable {t : RedBlackTree A} {T : Shape Idx K V}

/-- The value of an entry is overwritten where it stands. -/
theorem Models.setValue {C : Ctx (Entry Idx K V)} {c : Color} {l r : Shape Idx K V}
    {e : Entry Idx K V} (h : Models t T) (hT : C.plug (.node c l e r) = T) (v : V) :
    ∃ t', t.modify e.idx (·.withValue v) = some t' ∧
      Models t' (C.plug (.node c l { e with value := v } r)) := by
  obtain ⟨t', ht', hat, hlen, hlive⟩ := (at_plug.mpr (hT ▸ h.at_root)).setValue v
  have hidxs : idxs (C.plug (.node c l { e with value := v } r)) = idxs T := by
    rw [← hT, idxs, idxs, Ctx.toList_plug, Ctx.toList_plug]
    simp [toList]
  have hins : Inserted T e.key v e.idx _ := .update hT rfl
  refine ⟨t', ht', at_plug.mp hat, ?_, fun j hj => ?_, hins.sorted h.sorted⟩
  · rw [hlen, h.len, size_eq_length, size_eq_length]
    simpa [idxs] using (congrArg length hidxs).symm
  rw [hidxs]
  exact h.live j (hlive j ▸ hj)

/-- **`insert` refines `Inserted`**, and never panics: the root of the tree it starts from is
    black, so a red parent has a parent. -/
theorem Models.insert (h : Models t T) (hroot : T.rootColor = .black) (key : K) (value : V) :
    ∃ t' i T', t.insert key value = some (t', i) ∧ Inserted T key value i T' ∧
      Models t' T' := by
  obtain ⟨d, hd, hloc⟩ := h.descend key
  cases hloc with
  | @found C c l r e hT hk =>
    obtain ⟨t', ht', hm⟩ := h.setValue hT value
    exact ⟨t', e.idx, _, by simp [RedBlackTree.insert, hd, ht'], .update hT hk, hm⟩
  | @missing C hT ha =>
    have hlen : C.length ≤ t.len := by
      have := C.length_add_size_le .nil
      rw [hT, ← h.len] at this
      simpa [size] using this
    obtain ⟨t', i, R, e1, hi, hR, hat, hl, hlive⟩ := insertNode_spec value
      (at_plug.mpr (hT ▸ h.at_root)) hd rfl ha (blackTop_of_rootColor (hT ▸ hroot)) hlen
    have hi' : i ∉ idxs T := fun hm => by
      have := h.at_root.sub.isSome_of_mem i hm
      rw [hi] at this
      exact absurd this (by simp)
    have hins : Inserted T key value i (R.paint .black) := .fresh hT ha hi' hR
    have hperm : ((R.paint .black).toList).Perm (⟨i, key, value⟩ :: T.toList) := by
      rw [toList_paint, hR.toList_eq, Ctx.toList_plug, ← hT, Ctx.toList_plug]
      simp [toList]
    refine ⟨t', i, _, e1, hins, hat, ?_, fun j hj => ?_, hins.sorted h.sorted⟩
    · rw [hl, h.len, size_eq_length, size_eq_length, hperm.length_eq]
      rfl
    rw [idxs, (hperm.map Entry.idx).mem_iff, map_cons, mem_cons]
    rcases hlive j hj with rfl | hj
    · exact Or.inl rfl
    · exact Or.inr (h.live j hj)

/-- `get_mut` hands out the entry of the key; a write through it changes that value only. -/
theorem Models.getMut (h : Models t T) (key : K) (f : V → V) :
    (lookup T key = none ∧ t.getMut key f = some (t, none)) ∨
    ∃ e t' T', lookup T key = some e ∧ t.getMut key f = some (t', some e.value) ∧
      Inserted T key (f e.value) e.idx T' ∧ T'.rootColor = T.rootColor ∧ Models t' T' := by
  cases hl : lookup T key with
  | none => exact Or.inl ⟨rfl, by simp [RedBlackTree.getMut, h.findNode, hl]⟩
  | some e =>
    obtain ⟨he, hk⟩ := (lookup_eq_some h.sorted).mp hl
    obtain ⟨C, c, l, r, hT⟩ := exists_location he
    obtain ⟨n, hn, -, hv⟩ := h.at_root.arenaGet_of_mem he
    obtain ⟨t', ht', hm⟩ := h.setValue hT (f e.value)
    refine Or.inr ⟨e, t', _, rfl, ?_, .update hT hk, ?_, hm⟩
    · simp [RedBlackTree.getMut, h.findNode, hl, hn, hv, ht']
    rw [← hT]
    exact rootColor_plug_congr rfl

end
end Moose.RbTree
