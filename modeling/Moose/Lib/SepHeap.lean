import Mathlib.Data.List.Nodup
import Mathlib.Data.List.Perm.Basic

/-!
# A store in disjoint chunks

A store is a partial function from addresses to values. A `Chunk` is an assertion about a finite
footprint of addresses — it cannot see anything else, and carries the proof of that — and
`Heap g cs` says that the store `g` satisfies every chunk of the list and that their footprints
are disjoint. A write inside one chunk leaves the others alone (`Heap.write`), and a chunk may be
cut into smaller ones with the same footprint or put together again (`Heap.cut`).
-/

set_option autoImplicit false

namespace Moose.Lib

open List

/-- An assertion about the addresses of its footprint. -/
structure Chunk (ι β : Type) where
  foot : List ι
  holds : (ι → Option β) → Prop
  congr : ∀ {g g' : ι → Option β}, (∀ i ∈ foot, g' i = g i) → holds g → holds g'

/-- The store satisfies every chunk, and no address is in two of them. -/
structure Heap {ι β : Type} (g : ι → Option β) (cs : List (Chunk ι β)) : Prop where
  holds : ∀ c ∈ cs, c.holds g
  nodup : (cs.flatMap Chunk.foot).Nodup

section

variable {ι β : Type}

def Chunk.cell (i : ι) (x : β) : Chunk ι β where
  foot := [i]
  holds g := g i = some x
  congr hg h := (hg i (by simp)).trans h

variable {g : ι → Option β} {r : List (Chunk ι β)} {i : ι} {x : β} {f : β → β} {o : Option ι}

theorem Heap.get_cell (l : List (Chunk ι β)) (h : Heap g (l ++ .cell i x :: r)) : g i = some x :=
  h.holds (.cell i x) (by simp)

theorem Heap.perm {cs ds : List (Chunk ι β)} (h : Heap g cs) (hp : cs.Perm ds) : Heap g ds :=
  ⟨fun c hc => h.holds c (hp.mem_iff.mpr hc), (hp.flatMap_right _).nodup_iff.mp h.nodup⟩

theorem Heap.disjoint {l r : List (Chunk ι β)} {c d : Chunk ι β}
    (h : Heap g (l ++ c :: r)) (hd : d ∈ l ++ r) (hi : i ∈ c.foot) : i ∉ d.foot := by
  have hn := (h.perm perm_middle).nodup
  rw [flatMap_cons, nodup_append] at hn
  exact fun hid => hn.2.2 i hi i (mem_flatMap.mpr ⟨d, hd, hid⟩) rfl

/-- Cuts a chunk into several with the same addresses; read backwards, puts them together. -/
theorem Heap.cut (l cs ds : List (Chunk ι β)) (h : Heap g (l ++ cs ++ r))
    (hfoot : (cs.flatMap Chunk.foot).Perm (ds.flatMap Chunk.foot))
    (hds : (∀ c ∈ cs, c.holds g) → ∀ d ∈ ds, d.holds g) : Heap g (l ++ ds ++ r) := by
  refine ⟨?_, ?_⟩
  · intro d hd
    simp only [mem_append] at hd
    rcases hd with (hd | hd) | hd
    · exact h.holds d (by simp [hd])
    · exact hds (fun c hc => h.holds c (by simp [hc])) d hd
    · exact h.holds d (by simp [hd])
  · have hn := h.nodup
    simp only [flatMap_append] at hn ⊢
    exact ((hfoot.append_left _).append_right _).nodup_iff.mp hn

/-- Chunks that are no longer needed are dropped. -/
theorem Heap.keep (l : List (Chunk ι β)) (h : Heap g (l ++ r)) : Heap g l := by
  have hn := h.nodup
  rw [flatMap_append, nodup_append] at hn
  exact ⟨fun c hc => h.holds c (mem_append_left _ hc), hn.1⟩

/-- A fresh address becomes a chunk of its own. -/
theorem Heap.alloc {g g' : ι → Option β} {cs : List (Chunk ι β)} (h : Heap g cs)
    (hlive : ∀ j ∈ cs.flatMap Chunk.foot, (g j).isSome) (hi : g i = none) (hx : g' i = some x)
    (hne : ∀ j, j ≠ i → g' j = g j) : Heap g' (.cell i x :: cs) := by
  have hfresh : i ∉ cs.flatMap Chunk.foot := by
    intro hm
    have := hlive i hm
    rw [hi] at this
    exact absurd this (by simp)
  refine ⟨?_, ?_⟩
  · intro c hc
    rcases mem_cons.mp hc with rfl | hmem
    · exact hx
    refine c.congr (fun j hj => hne j ?_) (h.holds c hmem)
    rintro rfl
    exact hfresh (mem_flatMap.mpr ⟨c, hmem, hj⟩)
  · rw [flatMap_cons, Chunk.cell, singleton_append]
    exact nodup_cons.mpr ⟨hfresh, h.nodup⟩

variable [DecidableEq ι]

/-- The store after the value at `o`, if there is one, was changed by `f`. -/
def upd (g : ι → Option β) (o : Option ι) (f : β → β) : ι → Option β :=
  fun j => if o = some j then (g j).map f else g j

@[simp] theorem upd_none : upd g none f = g := by
  funext j
  simp [upd]

theorem upd_self (h : g i = some x) : upd g (some i) f i = some (f x) := by
  simp [upd, h]

theorem upd_of_ne {j : ι} (h : o ≠ some j) : upd g o f j = g j := by
  simp [upd, h]

@[simp] theorem upd_isSome {j : ι} : (upd g o f j).isSome = (g j).isSome := by
  unfold upd
  split <;> simp

/-- A write inside one chunk changes that chunk and no other. -/
theorem Heap.write (l : List (Chunk ι β)) {c : Chunk ι β}
    (h : Heap g (l ++ c :: r)) (c' : Chunk ι β)
    (hfoot : c'.foot = c.foot) (ho : ∀ i, o = some i → i ∈ c.foot)
    (hc : c.holds g → c'.holds (upd g o f)) : Heap (upd g o f) (l ++ c' :: r) := by
  refine ⟨?_, ?_⟩
  · intro d hd
    by_cases hlr : d ∈ l ++ r
    · have hdg : d.holds g := h.holds d (by simp at hlr ⊢; tauto)
      exact d.congr (fun _ hi => upd_of_ne fun he => h.disjoint hlr (ho _ he) hi) hdg
    obtain rfl : d = c' := by simp at hd hlr; tauto
    exact hc (h.holds c (by simp))
  · have hn := h.nodup
    simp only [flatMap_append, flatMap_cons] at hn ⊢
    rwa [hfoot]

end
end Moose.Lib
