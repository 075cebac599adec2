import Moose.Tcp.ReceiveBuffer

/-!
# The scoreboard of received ranges

RCV.NXT stands for a position of the peer's stream and every range for an interval of positions.
All of them lie within `2^31` positions, so the signed 32-bit comparisons of `sack.rs` decide what
they should. `K` is whatever is known of the positions in the ranges.

A range may lie behind RCV.NXT: a segment that ends inside a range leaves it in the table. It does
no harm until the sequence numbers come round, which is what `NoStaleRange` rules out.
-/

set_option autoImplicit false

namespace Moose.Tcp

open List

variable {α : Type} {base : SeqNum} {K : Nat → Prop} {pos lo hi : Nat}

theorem mem_swapRemove {rs : List SackBlock} {i : Nat} {k : SackBlock}
    (h : k ∈ swapRemove rs i) : k ∈ rs := by
  unfold swapRemove at h
  split at h
  next last hlast =>
    rcases mem_or_eq_of_mem_set (mem_of_mem_dropLast h) with hk | hk
    · exact hk
    rw [hk]
    exact mem_of_getLast? hlast
  · exact h

/-- The range stands for positions between `lo` and `hi`, all with property `K`. -/
def RangeIn (base : SeqNum) (K : Nat → Prop) (lo hi : Nat) (k : SackBlock) : Prop :=
  ∃ l h, l < h ∧ k = ⟨SeqNum.pos base l, SeqNum.pos base h⟩ ∧ lo ≤ l ∧ h ≤ hi ∧
    ∀ p, l ≤ p → p < h → K p

theorem RangeIn.mono {lo' hi' : Nat} {k : SackBlock} (h : RangeIn base K lo hi k)
    (hlo : lo' ≤ lo) (hhi : hi ≤ hi') : RangeIn base K lo' hi' k := by
  obtain ⟨l, r, hlr, hk, h1, h2, h3⟩ := h
  exact ⟨l, r, hlr, hk, by omega, by omega, h3⟩

theorem RangeIn.imp {K' : Nat → Prop} {k : SackBlock} (h : RangeIn base K lo hi k)
    (hK : ∀ p, K p → K' p) : RangeIn base K' lo hi k := by
  obtain ⟨l, r, hlr, hk, h1, h2, h3⟩ := h
  exact ⟨l, r, hlr, hk, h1, h2, fun p hl hr => hK p (h3 p hl hr)⟩

/-! ## Inserting a range -/

theorem RangeIn.join {m k : SackBlock} (hm : RangeIn base K lo hi m)
    (hk : RangeIn base K lo hi k) (hwide : hi ≤ lo + 2 ^ 31) (ht : m.touches k = true) :
    RangeIn base K lo hi (m.join k) := by
  obtain ⟨ml, mh, hm1, rfl, hm2, hm3, hm4⟩ := hm
  obtain ⟨kl, kh, hk1, rfl, hk2, hk3, hk4⟩ := hk
  simp only [SackBlock.touches, Bool.and_eq_true, decide_eq_true_eq] at ht
  rw [SeqNum.dist_pos base (by omega) (by omega), SeqNum.dist_pos base (by omega) (by omega)] at ht
  refine ⟨min kl ml, max kh mh, by omega, ?_, by omega, by omega, ?_⟩
  · simp only [SackBlock.join, SackBlock.mk.injEq]
    rw [SeqNum.dist_pos base (by omega) (by omega), SeqNum.dist_pos base (by omega) (by omega)]
    constructor
    · split
      · rw [Nat.min_eq_left (by omega)]
      · rw [Nat.min_eq_right (by omega)]
    split
    · rw [Nat.max_eq_left (by omega)]
    · rw [Nat.max_eq_right (by omega)]
  · intro p h1 h2
    by_cases hp : ml ≤ p ∧ p < mh
    · exact hm4 p hp.1 hp.2
    · exact hk4 p (by omega) (by omega)

theorem mergeTouching_spec (hwide : hi ≤ lo + 2 ^ 31) :
    ∀ (n : Nat) {rs : List SackBlock} {i : Nat} {m : SackBlock},
      (∀ k ∈ rs, RangeIn base K lo hi k) → RangeIn base K lo hi m →
      (∀ k ∈ (mergeTouching n rs i m).1, RangeIn base K lo hi k) ∧
        RangeIn base K lo hi (mergeTouching n rs i m).2 := by
  intro n
  induction n with
  | zero => exact fun hrs hm => ⟨hrs, hm⟩
  | succ n ih =>
    intro rs i m hrs hm
    unfold mergeTouching
    split
    · exact ⟨hrs, hm⟩
    rename_i k hk
    split
    next ht =>
      apply ih
      · exact fun k' hk' => hrs k' (mem_swapRemove hk')
      · exact hm.join (hrs k (mem_of_getElem? hk)) hwide ht
    · exact ih hrs hm

/-- Only the scoreboard changes, and its ranges stay within the bounds. -/
theorem sackRxInsertRange_spec {r : Receiver α} {left right : SeqNum}
    (hwide : hi ≤ lo + 2 ^ 31) (hrs : ∀ k ∈ r.rxRanges, RangeIn base K lo hi k)
    (hm : RangeIn base K lo hi ⟨left, right⟩) :
    ∃ rs recent,
      r.sackRxInsertRange left right = { r with rxRanges := rs, rxRecent := recent } ∧
      ∀ k ∈ rs, RangeIn base K lo hi k := by
  obtain ⟨h1, h2⟩ := mergeTouching_spec hwide r.rxRanges.length (i := 0) hrs hm
  unfold Receiver.sackRxInsertRange
  split
  rename_i rs m heq
  rw [heq] at h1 h2
  split
  · exact ⟨rs, r.rxRecent, rfl, h1⟩
  refine ⟨rs ++ [m], some m, rfl, ?_⟩
  intro k hk
  rcases mem_append.mp hk with hk | hk
  · exact h1 k hk
  rw [mem_singleton.mp hk]
  exact h2

/-! ## Folding ranges in -/

/-- RCV.NXT stands for `pos`, and the ranges for intervals between `lo` and `hi`. -/
structure ScoreboardOk (base : SeqNum) (K : Nat → Prop) (pos lo hi : Nat) (r : Receiver α) :
    Prop where
  rcvNxt : r.rcvNxt = SeqNum.pos base pos
  ranges : ∀ k ∈ r.rxRanges, RangeIn base K lo hi k

/-- One round of the loop: the range found starts at RCV.NXT, not a turn of the sequence space
before it. -/
theorem ScoreboardOk.fold {r : Receiver α} (h : ScoreboardOk base K pos lo hi r)
    (hwide : hi ≤ lo + 2 ^ 31) (hpos : pos ≤ hi) (hlo : lo ≤ pos) {i : Nat} {k : SackBlock}
    (hk : r.rxRanges[i]? = some k) (hleft : k.left = r.rcvNxt) :
    0 < k.len.toNat ∧ pos + k.len.toNat ≤ hi ∧
      (∀ p, pos ≤ p → p < pos + k.len.toNat → K p) ∧
      ScoreboardOk base K (pos + k.len.toNat) lo hi (r.fold i k) := by
  obtain ⟨l, e, hle, rfl, h1, h2, h3⟩ := h.ranges k (mem_of_getElem? hk)
  have hl : l = pos := by
    rw [h.rcvNxt] at hleft
    exact (SeqNum.pos_inj base (by omega) (by omega)).mp hleft
  subst hl
  have hlen : (SackBlock.len ⟨SeqNum.pos base l, SeqNum.pos base e⟩).toNat = e - l :=
    SeqNum.toNat_pos_sub base (by omega) (by omega)
  rw [hlen, show l + (e - l) = e by omega]
  refine ⟨by omega, h2, h3, ?_, ?_⟩
  · show r.rcvNxt + SackBlock.len _ = _
    rw [h.rcvNxt, SackBlock.len, BitVec.add_comm, BitVec.sub_add_cancel]
  intro k' hk'
  exact h.ranges k' (mem_swapRemove hk')

/-- The loop keeps what each fold of a range that starts at RCV.NXT keeps. -/
theorem advanceLoop_induct {I : Receiver α → Prop}
    (hfold : ∀ r i k, I r → r.rxRanges[i]? = some k → k.left = r.rcvNxt → I (r.fold i k)) :
    ∀ (n : Nat) {r : Receiver α}, I r → I (Receiver.advanceLoop n r) := by
  intro n
  induction n with
  | zero => exact fun h => h
  | succ n ih =>
    intro r h
    unfold Receiver.advanceLoop
    split
    · exact h
    rename_i i hi
    split
    · exact h
    rename_i k hk
    obtain ⟨hlt, hleft, -⟩ := findIdx?_eq_some_iff_getElem.mp hi
    rw [getElem?_eq_getElem hlt, Option.some.injEq] at hk
    rw [hk, beq_iff_eq] at hleft
    exact ih (hfold r i k h (by rw [getElem?_eq_getElem hlt, hk]) hleft)

theorem ScoreboardOk.advance {r : Receiver α} (h : ScoreboardOk base K pos lo hi r)
    (hwide : hi ≤ lo + 2 ^ 31) (hpos : pos ≤ hi) (hlo : lo ≤ pos) :
    ∃ pos', pos ≤ pos' ∧ pos' ≤ hi ∧
      ScoreboardOk base K pos' lo hi r.sackRxAdvanceFromScoreboard := by
  apply advanceLoop_induct (I := fun r' => ∃ pos', pos ≤ pos' ∧ pos' ≤ hi ∧
    ScoreboardOk base K pos' lo hi r')
  · rintro r' i k ⟨pos', h1, h2, h3⟩ hk hleft
    obtain ⟨-, hle, -, hboard⟩ := h3.fold hwide h2 (by omega) hk hleft
    exact ⟨_, by omega, hle, hboard⟩
  · exact ⟨pos, le_refl _, hpos, h⟩

/-! ## Stale ranges -/

/-- No range of the scoreboard starts more than `2^30` sequence numbers behind RCV.NXT. -/
def NoStaleRange (r : Receiver α) : Prop :=
  ∀ k ∈ r.rxRanges, -2 ^ 30 ≤ SeqNum.dist k.left r.rcvNxt

instance (r : Receiver α) : Decidable (NoStaleRange r) :=
  inferInstanceAs (Decidable (∀ k ∈ r.rxRanges, -2 ^ 30 ≤ SeqNum.dist k.left r.rcvNxt))

/-- Without stale ranges the scoreboard lies within `2^30` of RCV.NXT on both sides. -/
theorem ScoreboardOk.near {r : Receiver α}
    (h : ScoreboardOk base K pos (pos - 2 ^ 31) (pos + 2 ^ 30) r) (hn : NoStaleRange r) :
    ScoreboardOk base K pos (pos - 2 ^ 30) (pos + 2 ^ 30) r := by
  refine ⟨h.rcvNxt, ?_⟩
  intro k hk
  obtain ⟨l, e, hle, hk', h1, h2, h3⟩ := h.ranges k hk
  replace h1 : pos ≤ l + 2 ^ 31 := by omega
  have hdist := hn k hk
  rw [hk', h.rcvNxt, SeqNum.dist_pos base (by omega) (by omega)] at hdist
  exact ⟨l, e, hle, hk', by omega, h2, h3⟩

end Moose.Tcp
