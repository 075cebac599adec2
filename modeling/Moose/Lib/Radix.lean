import Mathlib.Order.Lattice
import Mathlib.Data.List.Induction

/-!
# Radix tables in memory

A radix table is a tree of tables that lie in one memory. An entry of a table either is not present
or leads to the table of the next level; at the last level it is what the tree maps a path to. An
entry may also restrict what the paths through it allow, so that a path allows the meet of what its
entries allow.

`Tree` says that the tables reached by different paths are different ones and that an entry allows
no more than the one above it. Then a path allows exactly what its last entry does (`look_eq_leaf`),
and three changes of the memory have a simple effect: to let an inner entry allow more (`raise`),
to hang an empty table below an entry that was not present (`grow`), and to write an entry of the
last level (`setLeaf`).
-/

set_option autoImplicit false

namespace Moose.Lib.Radix

open List Option

/-- How an entry is read, and what an entry that leads to a table has to satisfy. -/
structure Format (A E P : Type) where
  present : E → Bool
  addr : E → A
  perm : E → P
  inner : E → Prop

variable {A I E P : Type} [DecidableEq A] [DecidableEq I]

def write (m : A → I → E) (a : A) (i : I) (e : E) : A → I → E :=
  fun b j => if b = a ∧ j = i then e else m b j

def clear (m : A → I → E) (a : A) (z : E) : A → I → E := fun b j => if b = a then z else m b j

omit [DecidableEq I] in
theorem clear_ne {m : A → I → E} {a b : A} {z : E} (h : b ≠ a) (j : I) : clear m a z b j = m b j :=
  if_neg h

theorem write_self (m : A → I → E) (a : A) (i : I) (e : E) : write m a i e a i = e :=
  if_pos ⟨rfl, rfl⟩

theorem write_ne {m : A → I → E} {a b : A} {i j : I} {e : E} (h : ¬ (b = a ∧ j = i)) :
    write m a i e b j = m b j := if_neg h

theorem write_of_ne {m : A → I → E} {a b : A} {i : I} {e : E} (h : b ≠ a) :
    write m a i e b = m b := by
  funext j
  exact write_ne fun heq => h heq.1

theorem write_write (m : A → I → E) (a : A) (i : I) (e e' : E) :
    write (write m a i e) a i e' = write m a i e' := by
  funext b j
  by_cases h : b = a ∧ j = i
  · rw [h.1, h.2, write_self, write_self]
  · rw [write_ne h, write_ne h, write_ne h]

variable (F : Format A E P)

/-! ## Walks -/

section Walks

omit [DecidableEq A] [DecidableEq I]

def tableAt (m : A → I → E) : A → List I → Option A
  | a, [] => some a
  | a, i :: is => if F.present (m a i) then tableAt m (F.addr (m a i)) is else none

def leaf (m : A → I → E) (root : A) (p : List I) (i : I) : Option (A × P) :=
  (tableAt F m root p).bind fun a =>
    if F.present (m a i) then some (F.addr (m a i), F.perm (m a i)) else none

/-- What a path leads to, and what all its entries together allow. -/
def look [SemilatticeInf P] (m : A → I → E) : A → List I → I → Option (A × P)
  | a, [], i => if F.present (m a i) then some (F.addr (m a i), F.perm (m a i)) else none
  | a, j :: js, i =>
    if F.present (m a j) then
      (look m (F.addr (m a j)) js i).map fun r => (r.1, F.perm (m a j) ⊓ r.2)
    else none

variable {F} {m m' : A → I → E} {root a b : A} {d : Nat}

theorem tableAt_cons {i : I} {is : List I} (h : F.present (m a i) = true) :
    tableAt F m a (i :: is) = tableAt F m (F.addr (m a i)) is := if_pos h

theorem leaf_cons {i j : I} {js : List I} (h : F.present (m a j) = true) :
    leaf F m a (j :: js) i = leaf F m (F.addr (m a j)) js i := by
  rw [leaf, tableAt_cons h]
  rfl

theorem tableAt_snoc (m : A → I → E) (p : List I) (j : I) : ∀ a : A,
    tableAt F m a (p ++ [j]) = (tableAt F m a p).bind fun b =>
      if F.present (m b j) then some (F.addr (m b j)) else none := by
  induction p with
  | nil => exact fun a => rfl
  | cons i is ih =>
    intro a
    by_cases hp : F.present (m a i) = true
    · rw [cons_append, tableAt_cons hp, tableAt_cons hp]
      exact ih _
    · simp [tableAt, if_neg hp]

theorem tableAt_snoc_of_present {p : List I} {i : I} (h : tableAt F m root p = some a)
    (hp : F.present (m a i) = true) : tableAt F m root (p ++ [i]) = some (F.addr (m a i)) := by
  rw [tableAt_snoc, h, bind_some, if_pos hp]

theorem tableAt_snoc_of_absent {p : List I} {i : I} (h : tableAt F m root p = some a)
    (hp : F.present (m a i) = false) : tableAt F m root (p ++ [i]) = none := by
  rw [tableAt_snoc, h, bind_some, hp]
  rfl

theorem leaf_of_table {p : List I} (h : tableAt F m root p = some a) (i : I) :
    leaf F m root p i =
      if F.present (m a i) then some (F.addr (m a i), F.perm (m a i)) else none := by
  rw [leaf, h, bind_some]

/-- A walk of four levels, entry by entry. -/
theorem leaf_three (m : A → I → E) (root : A) (i4 i3 i2 i1 : I) :
    leaf F m root [i4, i3, i2] i1 =
      let e4 := m root i4
      let e3 := m (F.addr e4) i3
      let e2 := m (F.addr e3) i2
      let e1 := m (F.addr e2) i1
      if F.present e4 then if F.present e3 then if F.present e2 then
        if F.present e1 then some (F.addr e1, F.perm e1) else none
      else none else none else none := by
  simp only [leaf, tableAt]
  split
  · split
    · split <;> rfl
    · rfl
  · rfl

/-- Walks of at most `d` steps read the entries of the tables above level `d` only. -/
theorem tableAt_congr
    (h : ∀ p a i, p.length < d → tableAt F m root p = some a →
      F.present (m' a i) = F.present (m a i) ∧ F.addr (m' a i) = F.addr (m a i)) :
    ∀ q, q.length ≤ d → tableAt F m' root q = tableAt F m root q := by
  intro q
  induction q using reverseRecOn with
  | nil => exact fun _ => rfl
  | append_singleton p j ih =>
    intro hlen
    rw [length_append, length_singleton] at hlen
    rw [tableAt_snoc, tableAt_snoc, ih (by omega)]
    cases hp : tableAt F m root p with
    | none => rfl
    | some a =>
      obtain ⟨h1, h2⟩ := h p a j (by omega) hp
      rw [bind_some, bind_some, h1, h2]

end Walks

/-! ## Trees -/

/-- The tables of the first `d` levels form a tree of used frames, and no entry allows more than the
one that leads to it. -/
structure Tree [SemilatticeInf P] (m : A → I → E) (root : A) (d : Nat) (used : A → Prop) :
    Prop where
  inj : ∀ {p q a}, p.length ≤ d → q.length ≤ d →
    tableAt F m root p = some a → tableAt F m root q = some a → p = q
  used : ∀ {p a}, p.length ≤ d → tableAt F m root p = some a → used a
  inner : ∀ {p a i}, p.length < d → tableAt F m root p = some a →
    F.present (m a i) = true → F.inner (m a i)
  mono : ∀ {p a i j}, p.length < d → tableAt F m root p = some a → F.present (m a i) = true →
    F.present (m (F.addr (m a i)) j) = true → F.perm (m (F.addr (m a i)) j) ≤ F.perm (m a i)

/-- An entry of the table at the end of `p` may allow `x`. -/
def Ceiling [SemilatticeInf P] (m : A → I → E) (root : A) (p : List I) (x : P) : Prop :=
  ∀ q j c, p = q ++ [j] → tableAt F m root q = some c → x ≤ F.perm (m c j)

variable {F} [SemilatticeInf P] {m : A → I → E} {root a b : A} {d : Nat} {used : A → Prop}

omit [DecidableEq A] [DecidableEq I] in
theorem ceiling_nil (x : P) : Ceiling F m root [] x := by
  intro q j c h
  exact absurd h (append_ne_nil_of_right_ne_nil q (cons_ne_nil j [])).symm

omit [DecidableEq A] [DecidableEq I] in
theorem ceiling_snoc {p : List I} {i : I} {x : P} (h : tableAt F m root p = some a)
    (hx : x ≤ F.perm (m a i)) : Ceiling F m root (p ++ [i]) x := by
  intro q j c heq hc
  obtain ⟨rfl, hij⟩ := append_inj' heq rfl
  cases hij
  rw [h] at hc
  cases hc
  exact hx

omit [DecidableEq A] [DecidableEq I] in
theorem Tree.init (hempty : ∀ i, F.present (m root i) = false) (hused : used root) :
    Tree F m root d used := by
  have hroot : ∀ {p : List I} {a : A}, tableAt F m root p = some a → p = [] ∧ a = root := by
    intro p a h
    cases p with
    | nil =>
      cases h
      exact ⟨rfl, rfl⟩
    | cons i is =>
      rw [tableAt, hempty i] at h
      cases h
  refine ⟨?_, ?_, ?_, ?_⟩
  · intro p q a _ _ hp hq
    rw [(hroot hp).1, (hroot hq).1]
  · intro p a _ hp
    rw [(hroot hp).2]
    exact hused
  · intro p a i _ hp hpres
    rw [(hroot hp).2, hempty i] at hpres
    cases hpres
  · intro p a i j _ hp hpres
    rw [(hroot hp).2, hempty i] at hpres
    cases hpres

omit [DecidableEq A] [DecidableEq I] in
theorem Tree.mono_used (h : Tree F m root d used) {used' : A → Prop} (hle : ∀ x, used x → used' x) :
    Tree F m root d used' :=
  ⟨h.inj, fun hlen hp => hle _ (h.used hlen hp), h.inner, h.mono⟩

omit [DecidableEq A] [DecidableEq I] in
/-- An entry is below the one that leads to its table. -/
theorem Tree.ceiling (h : Tree F m root d used) {p : List I} (hlen : p.length ≤ d)
    (ha : tableAt F m root p = some a) {i : I} (hi : F.present (m a i) = true) :
    Ceiling F m root p (F.perm (m a i)) := by
  rintro q j c rfl hc
  rw [length_append, length_singleton] at hlen
  rw [tableAt_snoc, hc, bind_some] at ha
  split at ha
  next hj =>
    cases ha
    exact h.mono (by omega) hc hj hi
  · cases ha

/-! ## Changes elsewhere -/

section Elsewhere

omit [DecidableEq A] [DecidableEq I]

variable {m' : A → I → E}

omit [SemilatticeInf P] in
theorem Tree.tableAt_agree
    (hagree : ∀ {p a}, p.length ≤ d → tableAt F m root p = some a → m' a = m a)
    {q : List I} (hq : q.length ≤ d) : tableAt F m' root q = tableAt F m root q := by
  apply tableAt_congr (d := d) _ q hq
  intro p a i hp ha
  rw [hagree hp.le ha]
  exact ⟨rfl, rfl⟩

omit [SemilatticeInf P] in
theorem Tree.leaf_agree (hagree : ∀ {p a}, p.length ≤ d → tableAt F m root p = some a → m' a = m a)
    {q : List I} (hq : q.length ≤ d) (j : I) : leaf F m' root q j = leaf F m root q j := by
  rw [leaf, leaf, Tree.tableAt_agree hagree hq]
  cases hc : tableAt F m root q with
  | none => rfl
  | some c => rw [bind_some, bind_some, hagree hq hc]

/-- A change of the memory outside its tables keeps a tree. -/
theorem Tree.agree (h : Tree F m root d used)
    (hagree : ∀ {p a}, p.length ≤ d → tableAt F m root p = some a → m' a = m a) :
    Tree F m' root d used := by
  have htable : ∀ {q : List I}, q.length ≤ d → tableAt F m' root q = tableAt F m root q :=
    fun hq => Tree.tableAt_agree hagree hq
  refine ⟨?_, ?_, ?_, ?_⟩
  · intro p q a hp hq h1 h2
    rw [htable hp] at h1
    rw [htable hq] at h2
    exact h.inj hp hq h1 h2
  · intro p a hp h1
    rw [htable hp] at h1
    exact h.used hp h1
  · intro p a i hp h1 h2
    rw [htable hp.le] at h1
    rw [hagree hp.le h1] at h2 ⊢
    exact h.inner hp h1 h2
  · intro p a i j hp h1 h2 h3
    rw [htable hp.le] at h1
    rw [hagree hp.le h1] at h2 h3 ⊢
    have hnext := tableAt_snoc_of_present h1 h2
    have hlen : (p ++ [i]).length ≤ d := by
      rw [length_append, length_singleton]
      omega
    rw [hagree hlen hnext] at h3 ⊢
    exact h.mono hp h1 h2 h3

end Elsewhere

/-! ## What a path allows -/

section Looks

omit [DecidableEq A] [DecidableEq I]

/-- The last entry of a path allows no more than its first one. -/
theorem perm_leaf_le (js : List I) : ∀ (a : A) (j : I),
    (∀ p b i k, p.length ≤ js.length → tableAt F m a p = some b → F.present (m b i) = true →
      F.present (m (F.addr (m b i)) k) = true → F.perm (m (F.addr (m b i)) k) ≤ F.perm (m b i)) →
    ∀ i x, F.present (m a j) = true → leaf F m (F.addr (m a j)) js i = some x →
      x.2 ≤ F.perm (m a j) := by
  induction js with
  | nil =>
    intro a j hmono i x hpres hleaf
    rw [leaf_of_table rfl] at hleaf
    split at hleaf
    next hi =>
      cases hleaf
      exact hmono [] a j i (Nat.le_refl _) rfl hpres hi
    · cases hleaf
  | cons k ks ih =>
    intro a j hmono i x hpres hleaf
    -- the entry in between: below the first one, above the rest
    have hk : F.present (m (F.addr (m a j)) k) = true := by
      by_contra hk
      rw [leaf, tableAt, if_neg hk] at hleaf
      cases hleaf
    rw [leaf_cons hk] at hleaf
    have hle : x.2 ≤ F.perm (m (F.addr (m a j)) k) := by
      apply ih (F.addr (m a j)) k _ i x hk hleaf
      intro p b i' k' hlen hp
      apply hmono (j :: p) b i' k' (Nat.succ_le_succ hlen)
      rw [tableAt_cons hpres]
      exact hp
    exact le_trans hle (hmono [] a j k (Nat.zero_le _) rfl hpres hk)

/-- A walk that meets the permissions of its entries gets those of the last one. -/
theorem look_eq_leaf_of_mono (p : List I) : ∀ a : A,
    (∀ q b i k, q.length < p.length → tableAt F m a q = some b → F.present (m b i) = true →
      F.present (m (F.addr (m b i)) k) = true → F.perm (m (F.addr (m b i)) k) ≤ F.perm (m b i)) →
    ∀ i, look F m a p i = leaf F m a p i := by
  induction p with
  | nil => exact fun a _ i => rfl
  | cons j js ih =>
    intro a hmono i
    by_cases hj : F.present (m a j) = true
    · have hsub : look F m (F.addr (m a j)) js i = leaf F m (F.addr (m a j)) js i := by
        apply ih
        intro q b i' k hlen hq
        apply hmono (j :: q) b i' k (Nat.succ_lt_succ hlen)
        rw [tableAt_cons hj]
        exact hq
      rw [look, if_pos hj, hsub, leaf_cons hj]
      cases hx : leaf F m (F.addr (m a j)) js i with
      | none => rfl
      | some x =>
        have hle : x.2 ≤ F.perm (m a j) := by
          apply perm_leaf_le js a j _ i x hj hx
          intro p b i' k hlen
          exact hmono p b i' k (Nat.lt_succ_of_le hlen)
        rw [map_some, inf_eq_right.mpr hle]
    · rw [look, if_neg hj, leaf, tableAt, if_neg hj]
      rfl

/-- **In a tree a path allows what its last entry allows.** -/
theorem Tree.look_eq_leaf (h : Tree F m root d used) {p : List I} (hp : p.length ≤ d) (i : I) :
    look F m root p i = leaf F m root p i :=
  look_eq_leaf_of_mono p root (fun _ _ _ _ hlen hq => h.mono (by omega) hq) i

end Looks

/-! ## Changes -/

namespace Tree

variable {p : List I} {i : I} {e z : E}

omit [DecidableEq A] [DecidableEq I] in
/-- A path that leads to the table `a` of level less than `d` does not have length `d`. -/
theorem ne_of_length (h : Tree F m root d used) (hlen : p.length < d)
    (ha : tableAt F m root p = some a) {q : List I} (hq : q.length = d) {c : A}
    (hc : tableAt F m root q = some c) : c ≠ a := by
  rintro rfl
  have := h.inj hq.le hlen.le hc ha
  rw [this] at hq
  exact absurd hq hlen.ne

/-! ### An inner entry allows more -/

omit [SemilatticeInf P] in
theorem tableAt_raise (hpres : F.present e = F.present (m a i)) (haddr : F.addr e = F.addr (m a i))
    (q : List I) : tableAt F (write m a i e) root q = tableAt F m root q := by
  apply tableAt_congr (d := q.length) _ q (Nat.le_refl _)
  intro p' c j _ _
  by_cases heq : c = a ∧ j = i
  · obtain ⟨rfl, rfl⟩ := heq
    rw [write_self]
    exact ⟨hpres, haddr⟩
  · rw [write_ne heq]
    exact ⟨rfl, rfl⟩

theorem leaf_raise (h : Tree F m root d used) (hlen : p.length < d)
    (ha : tableAt F m root p = some a) (hpres : F.present e = F.present (m a i))
    (haddr : F.addr e = F.addr (m a i)) {q : List I} (hq : q.length = d) (j : I) :
    leaf F (write m a i e) root q j = leaf F m root q j := by
  rw [leaf, leaf, tableAt_raise hpres haddr]
  cases hc : tableAt F m root q with
  | none => rfl
  | some c =>
    have hne := h.ne_of_length hlen ha hq hc
    rw [bind_some, bind_some, write_ne (fun heq => hne heq.1)]

theorem raise (h : Tree F m root d used) (hlen : p.length < d) (ha : tableAt F m root p = some a)
    (hold : F.present (m a i) = true) (hpres : F.present e = true)
    (haddr : F.addr e = F.addr (m a i)) (hinner : F.inner e) (hle : F.perm (m a i) ≤ F.perm e)
    (hceil : Ceiling F m root p (F.perm e)) : Tree F (write m a i e) root d used := by
  have hpres' : F.present e = F.present (m a i) := hpres.trans hold.symm
  have htable : ∀ q, tableAt F (write m a i e) root q = tableAt F m root q :=
    tableAt_raise hpres' haddr
  have haddr' : ∀ c j, F.addr (write m a i e c j) = F.addr (m c j) := by
    intro c j
    by_cases heq : c = a ∧ j = i
    · obtain ⟨rfl, rfl⟩ := heq
      rw [write_self, haddr]
    · rw [write_ne heq]
  have hpresent : ∀ c j, F.present (write m a i e c j) = F.present (m c j) := by
    intro c j
    by_cases heq : c = a ∧ j = i
    · obtain ⟨rfl, rfl⟩ := heq
      rw [write_self, hpres']
    · rw [write_ne heq]
  refine ⟨?_, ?_, ?_, ?_⟩
  · intro p' q c hp' hq h1 h2
    rw [htable] at h1 h2
    exact h.inj hp' hq h1 h2
  · intro p' c hp' h1
    rw [htable] at h1
    exact h.used hp' h1
  · intro p' c j hp' h1 h2
    rw [htable] at h1
    rw [hpresent] at h2
    by_cases heq : c = a ∧ j = i
    · obtain ⟨rfl, rfl⟩ := heq
      rw [write_self]
      exact hinner
    · rw [write_ne heq]
      exact h.inner hp' h1 h2
  intro p' c j k hp' h1 h2 h3
  rw [htable] at h1
  rw [hpresent] at h2
  rw [haddr', hpresent] at h3
  rw [haddr']
  have hnext := tableAt_snoc_of_present h1 h2
  have hold_le := h.mono hp' h1 h2 h3
  by_cases hup : c = a ∧ j = i
  · -- the entry is the upper one: its table is not the one below it
    obtain ⟨rfl, rfl⟩ := hup
    have hne : ¬ (F.addr (m c j) = c ∧ k = j) := by
      rintro ⟨heq, -⟩
      rw [heq] at hnext
      have := congrArg length (h.inj (by simp; omega) hp'.le hnext h1)
      simp at this
    rw [write_self, write_ne hne]
    exact le_trans hold_le hle
  · rw [write_ne hup]
    by_cases hlow : F.addr (m c j) = a ∧ k = i
    · rw [hlow.1, hlow.2, write_self]
      rw [hlow.1] at hnext
      have hpath : p' ++ [j] = p := h.inj (by simp; omega) hlen.le hnext ha
      exact hceil p' j c hpath.symm h1
    · rw [write_ne hlow]
      exact hold_le

/-! ### A new table -/

section Grow

variable (h : Tree F m root d used) (hlen : p.length < d) (ha : tableAt F m root p = some a)
  (hold : F.present (m a i) = false) (hb : ¬ used b) (hz : F.present z = false)
  (hpres : F.present e = true) (haddr : F.addr e = b)

include h hlen ha hold hb hz hpres haddr

theorem tableAt_grow : ∀ {q : List I}, q.length ≤ d →
    tableAt F (write (clear m b z) a i e) root q =
      if q = p ++ [i] then some b else tableAt F m root q := by
  have hab : a ≠ b := fun heq => hb (heq ▸ h.used hlen.le ha)
  intro q
  induction q using reverseRecOn with
  | nil =>
    intro _
    rw [if_neg (append_ne_nil_of_right_ne_nil p (cons_ne_nil i [])).symm]
    rfl
  | append_singleton q j ih =>
    intro hq
    rw [length_append, length_singleton] at hq
    rw [tableAt_snoc, ih (by omega)]
    by_cases hqp : q = p ++ [i]
    · -- below the new table there is nothing, and there was nothing before
      rw [if_pos hqp, bind_some, write_ne (fun heq => hab heq.1.symm), clear, if_pos rfl, hz,
        if_neg nofun]
      have hne : q ++ [j] ≠ p ++ [i] := by
        intro heq
        have := congrArg length heq
        rw [hqp] at this
        simp at this
      rw [if_neg hne, tableAt_snoc, hqp, tableAt_snoc_of_absent ha hold]
      rfl
    rw [if_neg hqp]
    cases hc : tableAt F m root q with
    | none =>
      have hne : q ++ [j] ≠ p ++ [i] := by
        intro heq
        rw [(append_inj' heq rfl).1, ha] at hc
        cases hc
      rw [bind_none, if_neg hne, tableAt_snoc, hc]
      rfl
    | some c =>
      have hcb : c ≠ b := fun heq => hb (heq ▸ h.used (by omega) hc)
      rw [bind_some]
      by_cases hslot : c = a ∧ j = i
      · obtain ⟨rfl, rfl⟩ := hslot
        have hpath : q = p := h.inj (by omega) hlen.le hc ha
        rw [write_self, hpres, if_pos rfl, haddr, hpath, if_pos rfl]
      have hne : q ++ [j] ≠ p ++ [i] := by
        intro heq
        obtain ⟨rfl, hji⟩ := append_inj' heq rfl
        cases hji
        rw [ha] at hc
        cases hc
        exact hslot ⟨rfl, rfl⟩
      rw [write_ne hslot, clear_ne hcb, if_neg hne, tableAt_snoc, hc]
      rfl

theorem leaf_grow {q : List I} (hq : q.length = d) (j : I) :
    leaf F (write (clear m b z) a i e) root q j = leaf F m root q j := by
  have hab : a ≠ b := fun heq => hb (heq ▸ h.used hlen.le ha)
  rw [leaf, leaf, h.tableAt_grow hlen ha hold hb hz hpres haddr hq.le]
  by_cases hqp : q = p ++ [i]
  · rw [if_pos hqp, bind_some, write_ne (fun heq => hab heq.1.symm), clear, if_pos rfl, hz,
      if_neg nofun, hqp, tableAt_snoc_of_absent ha hold]
    rfl
  rw [if_neg hqp]
  cases hc : tableAt F m root q with
  | none => rfl
  | some c =>
    have hca := h.ne_of_length hlen ha hq hc
    have hcb : c ≠ b := fun heq => hb (heq ▸ h.used hq.le hc)
    rw [bind_some, bind_some, write_ne (fun heq => hca heq.1), clear_ne hcb]

theorem grow (hinner : F.inner e) (hceil : Ceiling F m root p (F.perm e)) {used' : A → Prop}
    (hused : ∀ x, used x → used' x) (hb' : used' b) :
    Tree F (write (clear m b z) a i e) root d used' := by
  have hab : a ≠ b := fun heq => hb (heq ▸ h.used hlen.le ha)
  have htable : ∀ {q : List I}, q.length ≤ d →
      tableAt F (write (clear m b z) a i e) root q =
        if q = p ++ [i] then some b else tableAt F m root q :=
    h.tableAt_grow hlen ha hold hb hz hpres haddr
  -- what a path of the new memory leads to: the new table, or a table it led to before
  have hcases : ∀ {q : List I} {c : A}, q.length ≤ d →
      tableAt F (write (clear m b z) a i e) root q = some c →
        (q = p ++ [i] ∧ c = b) ∨ (q ≠ p ++ [i] ∧ c ≠ b ∧ tableAt F m root q = some c) := by
    intro q c hq hc
    rw [htable hq] at hc
    by_cases hqp : q = p ++ [i]
    · rw [if_pos hqp] at hc
      exact .inl ⟨hqp, (some.inj hc).symm⟩
    rw [if_neg hqp] at hc
    exact .inr ⟨hqp, fun heq => hb (heq ▸ h.used hq hc), hc⟩
  have hnew : ∀ j, F.present (write (clear m b z) a i e b j) = false := by
    intro j
    rw [write_ne (fun heq => hab heq.1.symm), clear, if_pos rfl, hz]
  refine ⟨?_, ?_, ?_, ?_⟩
  · intro p' q c hp' hq h1 h2
    obtain ⟨rfl, rfl⟩ | ⟨-, hc1, h1⟩ := hcases hp' h1
    · obtain ⟨rfl, -⟩ | ⟨-, hc2, -⟩ := hcases hq h2
      · rfl
      · exact absurd rfl hc2
    obtain ⟨-, rfl⟩ | ⟨-, -, h2⟩ := hcases hq h2
    · exact absurd rfl hc1
    · exact h.inj hp' hq h1 h2
  · intro p' c hp' h1
    obtain ⟨-, rfl⟩ | ⟨-, -, h1⟩ := hcases hp' h1
    · exact hb'
    · exact hused _ (h.used hp' h1)
  · intro p' c j hp' h1 h2
    obtain ⟨-, rfl⟩ | ⟨-, hcb, h1⟩ := hcases hp'.le h1
    · rw [hnew] at h2
      cases h2
    by_cases hslot : c = a ∧ j = i
    · rw [hslot.1, hslot.2, write_self]
      exact hinner
    rw [write_ne hslot, clear_ne hcb] at h2 ⊢
    exact h.inner hp' h1 h2
  · intro p' c j k hp' h1 h2 h3
    obtain ⟨-, rfl⟩ | ⟨-, hcb, h1⟩ := hcases hp'.le h1
    · rw [hnew] at h2
      cases h2
    by_cases hslot : c = a ∧ j = i
    · rw [hslot.1, hslot.2, write_self, haddr, hnew] at h3
      cases h3
    rw [write_ne hslot, clear_ne hcb] at h2 h3 ⊢
    have hnext := tableAt_snoc_of_present h1 h2
    have hnext_len : (p' ++ [j]).length ≤ d := by simp; omega
    have hxb : F.addr (m c j) ≠ b := fun heq => hb (heq ▸ h.used hnext_len hnext)
    by_cases hlow : F.addr (m c j) = a ∧ k = i
    · rw [hlow.1] at hnext
      rw [hlow.1, hlow.2, write_self]
      have hpath : p' ++ [j] = p := h.inj hnext_len hlen.le hnext ha
      exact hceil p' j c hpath.symm h1
    · rw [write_ne hlow, clear_ne hxb] at h3 ⊢
      exact h.mono hp' h1 h2 h3

end Grow

/-! ### An entry of the last level -/

section SetLeaf

variable (h : Tree F m root d used) (hlen : p.length = d) (ha : tableAt F m root p = some a)

include h hlen ha

/-- The table `a` is read by walks of length more than `d` only. -/
theorem write_above {q : List I} (hq : q.length < d) {c : A} (hc : tableAt F m root q = some c)
    (j : I) : write m a i e c j = m c j := by
  apply write_ne
  rintro ⟨rfl, -⟩
  have := h.inj hq.le hlen.le hc ha
  rw [this] at hq
  exact absurd hq hlen.not_lt

theorem tableAt_setLeaf {q : List I} (hq : q.length ≤ d) :
    tableAt F (write m a i e) root q = tableAt F m root q := by
  apply tableAt_congr (d := d) _ q hq
  intro q' c j hq' hc
  rw [h.write_above hlen ha hq' hc]
  exact ⟨rfl, rfl⟩

theorem leaf_setLeaf_self : leaf F (write m a i e) root p i =
    if F.present e then some (F.addr e, F.perm e) else none := by
  rw [leaf, h.tableAt_setLeaf hlen ha hlen.le, ha, bind_some, write_self]

theorem leaf_setLeaf_ne {q : List I} (hq : q.length = d) {j : I} (hne : ¬ (q = p ∧ j = i)) :
    leaf F (write m a i e) root q j = leaf F m root q j := by
  rw [leaf, leaf, h.tableAt_setLeaf hlen ha hq.le]
  cases hc : tableAt F m root q with
  | none => rfl
  | some c =>
    have hslot : ¬ (c = a ∧ j = i) := by
      rintro ⟨rfl, hji⟩
      exact hne ⟨h.inj hq.le hlen.le hc ha, hji⟩
    rw [bind_some, bind_some, write_ne hslot]

theorem setLeaf (hceil : F.present e = true → Ceiling F m root p (F.perm e)) :
    Tree F (write m a i e) root d used := by
  have htable : ∀ {q : List I}, q.length ≤ d →
      tableAt F (write m a i e) root q = tableAt F m root q := h.tableAt_setLeaf hlen ha
  refine ⟨?_, ?_, ?_, ?_⟩
  · intro p' q c hp' hq h1 h2
    rw [htable hp'] at h1
    rw [htable hq] at h2
    exact h.inj hp' hq h1 h2
  · intro p' c hp' h1
    rw [htable hp'] at h1
    exact h.used hp' h1
  · intro p' c j hp' h1 h2
    rw [htable hp'.le] at h1
    rw [h.write_above hlen ha hp' h1] at h2 ⊢
    exact h.inner hp' h1 h2
  intro p' c j k hp' h1 h2 h3
  rw [htable hp'.le] at h1
  rw [h.write_above hlen ha hp' h1] at h2 h3 ⊢
  by_cases hlow : F.addr (m c j) = a ∧ k = i
  · have hnext := tableAt_snoc_of_present h1 h2
    rw [hlow.1] at hnext
    rw [hlow.1, hlow.2, write_self] at h3 ⊢
    have hpath : p' ++ [j] = p := h.inj (by simp; omega) hlen.le hnext ha
    exact hceil h3 p' j c hpath.symm h1
  · rw [write_ne hlow] at h3 ⊢
    exact h.mono hp' h1 h2 h3

end SetLeaf

end Tree

end Moose.Lib.Radix
