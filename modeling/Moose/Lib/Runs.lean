import Mathlib.Data.List.Basic

/-!
# Runs in a list

The first `n` elements in a row that satisfy a predicate, found by counting: a scan keeps the number
of such elements since the last other one, and is done when it reaches `n`. `Counted` is what the
count means, with one rule for each thing a scan can do, and `FirstAt` is what it finds. There is
only one such place, so two scans that look for the same thing find the same one.
-/

set_option autoImplicit false

namespace Moose.Lib

open List

variable {α : Type} {p : α → Bool} {n count : Nat} {xs done rest pre run post : List α} {x : α}

/-- A list cut at `n` elements in a row that satisfy the predicate. -/
structure RunAt (p : α → Bool) (n : Nat) (xs pre run post : List α) : Prop where
  split : xs = pre ++ run ++ post
  length : run.length = n
  all : ∀ x ∈ run, p x = true

def HasRun (p : α → Bool) (n : Nat) (xs : List α) : Prop :=
  ∃ pre run post, RunAt p n xs pre run post

/-- The first such place: none is complete before the last element of this one. -/
structure FirstAt (p : α → Bool) (n : Nat) (xs pre run post : List α) : Prop
    extends RunAt p n xs pre run post where
  first : ¬HasRun p n (pre ++ run.dropLast)

/-- The last element, if there is one, does not satisfy the predicate. -/
def EndsOff (p : α → Bool) (xs : List α) : Prop := ∀ x, xs.getLast? = some x → p x = false

/-- The scanned elements have no run of `n`, and end with exactly `count` that satisfy the
predicate. -/
def Counted (p : α → Bool) (n : Nat) (done : List α) (count : Nat) : Prop :=
  ¬HasRun p n done ∧ ∃ pre run, RunAt p count done pre run [] ∧ EndsOff p pre

theorem HasRun.append (h : HasRun p n xs) (ys : List α) : HasRun p n (xs ++ ys) := by
  obtain ⟨pre, run, post, hrun⟩ := h
  exact ⟨pre, run, post ++ ys, by rw [hrun.split, append_assoc], hrun.length, hrun.all⟩

/-- A run stands at an index. -/
theorem HasRun.exists_index (h : HasRun p n xs) :
    ∃ i, i + n ≤ xs.length ∧ ((xs.drop i).take n).all p = true := by
  obtain ⟨pre, run, post, hrun⟩ := h
  have hlen := hrun.length
  refine ⟨pre.length, ?_, ?_⟩
  · rw [hrun.split, length_append, length_append]
    omega
  · rw [hrun.split, append_assoc, drop_left, ← hlen, take_left]
    exact all_eq_true.mpr hrun.all

namespace FirstAt

variable {pre' run' post' : List α}

theorem length_le (h : RunAt p n xs pre run post) (h' : FirstAt p n xs pre' run' post') :
    pre'.length ≤ pre.length := by
  by_contra hlt
  refine h'.first ⟨pre, run, post.take (pre'.length + (n - 1) - (pre.length + n)), ?_, h.length,
    h.all⟩
  have htake : pre' ++ run'.dropLast = xs.take (pre'.length + (n - 1)) := by
    rw [h'.split, append_assoc, take_length_add_append,
      take_append_of_le_length (by rw [h'.length]; omega), dropLast_eq_take, h'.length]
  rw [htake, h.split, take_append, take_of_length_le (by rw [length_append, h.length]; omega),
    length_append, h.length]

/-- There is one first place. -/
theorem unique (h : FirstAt p n xs pre run post) (h' : FirstAt p n xs pre' run' post') :
    pre = pre' ∧ run = run' ∧ post = post' := by
  have hlen : pre.length = pre'.length :=
    Nat.le_antisymm (length_le h'.toRunAt h) (length_le h.toRunAt h')
  have hsplit := h.split.symm.trans h'.split
  rw [append_assoc, append_assoc] at hsplit
  obtain ⟨hpre, hrest⟩ := append_inj hsplit hlen
  exact ⟨hpre, append_inj hrest (h.length.trans h'.length.symm)⟩

end FirstAt

theorem endsOff_nil : EndsOff p [] := nofun

theorem endsOff_concat (h : p x = false) : EndsOff p (xs ++ [x]) := by
  intro y hy
  rw [getLast?_concat] at hy
  cases hy
  exact h

/-- A run in a list with one more element ends with that element, or was there before. -/
theorem HasRun.of_concat (h : HasRun p n (done ++ [x])) :
    HasRun p n done ∨ ∃ pre run, RunAt p n (done ++ [x]) pre run [] := by
  obtain ⟨pre, run, post, hrun⟩ := h
  rcases eq_nil_or_concat post with rfl | ⟨post, y, rfl⟩
  · exact .inr ⟨pre, run, hrun⟩
  have hsplit := hrun.split
  rw [concat_eq_append, ← append_assoc] at hsplit
  obtain ⟨hdone, -⟩ := append_inj' hsplit rfl
  exact .inl ⟨pre, run, post, hdone, hrun.length, hrun.all⟩

/-- The last element of a run at the end, and the run without it. -/
theorem RunAt.of_concat (h : RunAt p n (done ++ [x]) pre run []) (hn : 0 < n) :
    p x = true ∧ ∃ run', RunAt p (n - 1) done pre run' [] := by
  have hlen := h.length
  rcases eq_nil_or_concat run with rfl | ⟨run', y, rfl⟩
  · rw [length_nil] at hlen
    omega
  have hsplit := h.split
  rw [append_nil, concat_eq_append, ← append_assoc] at hsplit
  obtain ⟨hdone, hxy⟩ := append_inj' hsplit rfl
  rw [length_concat] at hlen
  refine ⟨?_, run', by simpa using hdone, by omega, fun z hz => h.all z (by simp [hz])⟩
  rw [singleton_inj.mp hxy]
  exact h.all y (by simp)

theorem RunAt.concat (h : RunAt p count done pre run []) (hx : p x = true) :
    RunAt p (count + 1) (done ++ x :: rest) pre (run ++ [x]) rest := by
  refine ⟨by simp [h.split], by simp [h.length], fun y hy => ?_⟩
  rcases mem_append.mp hy with hy | hy
  · exact h.all y hy
  rw [mem_singleton.mp hy]
  exact hx

namespace Counted

theorem nil (hn : 0 < n) : Counted p n [] 0 := by
  refine ⟨?_, [], [], ⟨rfl, rfl, nofun⟩, endsOff_nil⟩
  rintro ⟨pre, run, post, h⟩
  have hnil : run = [] := by
    have := h.split
    simp_all
  have hlen := h.length
  rw [hnil, length_nil] at hlen
  omega

section

variable (h : Counted p n done count)
include h

/-- A run at the end is not longer than the count. -/
theorem length_le {m : Nat} (hm : RunAt p m done pre run []) : m ≤ count := by
  obtain ⟨-, pre', run', h', hend⟩ := h
  by_contra hlt
  have hsplit : pre ++ run = pre' ++ run' := by
    have := hm.split.symm.trans h'.split
    simpa using this
  have hlen : run'.length < run.length := by
    rw [hm.length, h'.length]
    omega
  -- the longer run covers the element in front of the shorter one
  rcases append_eq_append_iff.mp hsplit with ⟨mid, hpre, hrun⟩ | ⟨mid, hpre, hrun⟩
  · rcases eq_nil_or_concat mid with rfl | ⟨mid, y, rfl⟩
    · simp_all
    have hoff : p y = false := by
      apply hend y
      rw [hpre, concat_eq_append, ← append_assoc, getLast?_concat]
    have hon : p y = true := by
      apply hm.all y
      rw [hrun]
      simp
    rw [hoff] at hon
    cases hon
  · rw [hrun, length_append] at hlen
    omega

theorem hit (hx : p x = true) (hlt : count + 1 < n) : Counted p n (done ++ [x]) (count + 1) := by
  obtain ⟨pre, run, hrun, hend⟩ := h.2
  refine ⟨fun hhas => ?_, pre, run ++ [x], hrun.concat hx, hend⟩
  rcases hhas.of_concat with hhas | ⟨pre', run', hat⟩
  · exact h.1 hhas
  obtain ⟨-, run'', hshort⟩ := hat.of_concat (by omega)
  have := h.length_le hshort
  omega

theorem miss (hn : 0 < n) (hx : p x = false) : Counted p n (done ++ [x]) 0 := by
  refine ⟨fun hhas => ?_, done ++ [x], [], ⟨by simp, rfl, nofun⟩, endsOff_concat hx⟩
  rcases hhas.of_concat with hhas | ⟨pre', run', hat⟩
  · exact h.1 hhas
  rw [(hat.of_concat hn).1] at hx
  cases hx

/-- The scan is done: the run starts where the count did. -/
theorem full (hx : p x = true) (hn : count + 1 = n) (rest : List α) :
    ∃ pre run, FirstAt p n (done ++ x :: rest) pre run rest ∧
      pre.length + count = done.length := by
  obtain ⟨hnone, pre, run, hrun, -⟩ := h
  have hdone : done = pre ++ run := by simpa using hrun.split
  refine ⟨pre, run ++ [x], ⟨hn ▸ hrun.concat hx, ?_⟩, ?_⟩
  · rwa [dropLast_concat, ← hdone]
  · rw [hdone, length_append, hrun.length]

end

end Counted

end Moose.Lib
