import Mathlib.Data.List.Perm.Basic
import Moose.Tcp.Frame
import Moose.Tcp.Scoreboard

/-!
# What the scoreboard records

Ranges in one half of the sequence space are intervals of offsets from the start of that half. The
table keeps them disjoint and not even adjacent (`Board`): `sack_rx_insert_range` merges a new range
with every range it touches, in one pass over a table that it changes on the way.

`sack_rx_advance_from_scoreboard` looks for a range that starts exactly at RCV.NXT. A segment that
reaches into a range leaves that range behind, and the bytes of it that lie ahead.
-/

set_option autoImplicit false

namespace Moose.Tcp

open List Option Lib

variable {α : Type} {base : SeqNum}

/-! ## Ranges as intervals -/

namespace SackBlock

variable {m k : SackBlock}

def lo (base : SeqNum) (k : SackBlock) : Nat := (k.left - base).toNat

def hi (base : SeqNum) (k : SackBlock) : Nat := (k.right - base).toNat

/-- The range is not empty and lies in the half of the sequence space that starts at `base`. -/
structure InHalf (base : SeqNum) (k : SackBlock) : Prop where
  lo_lt_hi : k.lo base < k.hi base
  hi_le : k.hi base ≤ 2 ^ 31

def Covers (base : SeqNum) (k : SackBlock) (p : Nat) : Prop := k.lo base ≤ p ∧ p < k.hi base

/-- Neither overlapping nor adjacent. -/
def Apart (base : SeqNum) (m k : SackBlock) : Prop :=
  m.hi base < k.lo base ∨ k.hi base < m.lo base

instance (base : SeqNum) (k : SackBlock) : Decidable (k.InHalf base) :=
  decidable_of_iff (k.lo base < k.hi base ∧ k.hi base ≤ 2 ^ 31)
    ⟨fun h => ⟨h.1, h.2⟩, fun h => ⟨h.1, h.2⟩⟩

instance (base : SeqNum) (m k : SackBlock) : Decidable (m.Apart base k) :=
  inferInstanceAs (Decidable (m.hi base < k.lo base ∨ k.hi base < m.lo base))

theorem Apart.symm (h : m.Apart base k) : k.Apart base m := Or.symm h

theorem dist_eq_of_offsets (base : SeqNum) {a b : SeqNum} (ha : (a - base).toNat ≤ 2 ^ 31)
    (hb : (b - base).toNat ≤ 2 ^ 31) (hlt : (a - base).toNat < (b - base).toNat + 2 ^ 31) :
    SeqNum.dist a b = (a - base).toNat - (b - base).toNat := by
  have hpos : ∀ x : SeqNum, x = SeqNum.pos base (x - base).toNat := fun x => by
    simpa [SeqNum.pos] using SeqNum.eq_pos_toNat_sub base x 0
  rw [hpos a, hpos b, SeqNum.dist_pos base (by omega) (by omega), ← hpos a, ← hpos b]

section

variable (hm : m.InHalf base) (hk : k.InHalf base)
include hm hk

/-- The driver's test is exact in one half. -/
theorem touches_iff : m.touches k = true ↔ ¬ m.Apart base k := by
  have hm1 := hm.lo_lt_hi
  have hm2 := hm.hi_le
  have hk1 := hk.lo_lt_hi
  have hk2 := hk.hi_le
  unfold lo hi at *
  simp only [touches, Apart, lo, hi, Bool.and_eq_true, decide_eq_true_eq]
  rw [dist_eq_of_offsets base (by omega) (by omega) (by omega),
    dist_eq_of_offsets base (by omega) (by omega) (by omega)]
  omega

theorem bounds_join : (m.join k).lo base = min (k.lo base) (m.lo base) ∧
    (m.join k).hi base = max (k.hi base) (m.hi base) := by
  have hm1 := hm.lo_lt_hi
  have hm2 := hm.hi_le
  have hk1 := hk.lo_lt_hi
  have hk2 := hk.hi_le
  unfold lo hi at *
  unfold join
  rw [dist_eq_of_offsets base (by omega) (by omega) (by omega),
    dist_eq_of_offsets base (a := k.right) (b := m.right) (by omega) (by omega) (by omega)]
  dsimp only
  constructor <;> split <;> omega

theorem InHalf.join : (m.join k).InHalf base := by
  obtain ⟨hlo, hhi⟩ := bounds_join hm hk
  have hm1 := hm.lo_lt_hi
  have hm2 := hm.hi_le
  have hk2 := hk.hi_le
  exact ⟨by omega, by omega⟩

/-- The join of two ranges that touch has exactly their numbers. -/
theorem covers_join (ht : ¬ m.Apart base k) (p : Nat) :
    (m.join k).Covers base p ↔ k.Covers base p ∨ m.Covers base p := by
  unfold Apart at ht
  simp only [Covers, bounds_join hm hk]
  omega

/-- What touches neither of two ranges that touch does not touch their join. -/
theorem Apart.join {x : SackBlock} (hx : x.InHalf base) (ht : ¬ m.Apart base k)
    (hxm : m.Apart base x) (hxk : k.Apart base x) : (m.join k).Apart base x := by
  have hx1 := hx.lo_lt_hi
  unfold Apart at *
  simp only [bounds_join hm hk]
  omega

end

end SackBlock

/-! ## Removing an entry -/

theorem perm_set {β : Type} (x y : β) :
    ∀ (xs : List β) (i : Nat), xs[i]? = some x → (x :: xs.set i y).Perm (y :: xs) := by
  intro xs
  induction xs with
  | nil => exact fun i h => by simp at h
  | cons z xs ih =>
    intro i h
    cases i with
    | zero =>
      rw [getElem?_cons_zero, some.injEq] at h
      subst h
      exact .swap y z xs
    | succ i =>
      rw [getElem?_cons_succ] at h
      exact (List.Perm.swap z x _).trans (((ih i h).cons z).trans (.swap y z xs))

variable {rs : List SackBlock} {i : Nat} {k : SackBlock} {r : Receiver α}

/-- The table without entry `i`. -/
theorem perm_swapRemove (h : rs[i]? = some k) : (k :: swapRemove rs i).Perm rs := by
  rcases List.eq_nil_or_concat' rs with rfl | ⟨init, last, rfl⟩
  · simp at h
  rw [swapRemove, List.getLast?_concat]
  dsimp only
  have hlt : i < (init ++ [last]).length := (List.getElem?_eq_some_iff.mp h).1
  rw [List.length_append, List.length_singleton] at hlt
  by_cases hi : i < init.length
  · rw [List.getElem?_append_left hi] at h
    rw [List.set_append_left _ _ hi, List.dropLast_concat]
    exact (perm_set k last init i h).trans (List.perm_append_singleton last init).symm
  have hlast : i = init.length := by omega
  subst hlast
  rw [List.getElem?_concat_length, Option.some.injEq] at h
  subst h
  rw [List.set_append_right _ _ (Nat.le_refl _), Nat.sub_self, List.set_cons_zero,
    List.dropLast_concat]
  exact (List.perm_append_singleton last init).symm

/-- The entries in front of it stay where they are. -/
theorem take_swapRemove (h : rs[i]? = some k) : (swapRemove rs i).take i = rs.take i := by
  have hlt : i < rs.length := (List.getElem?_eq_some_iff.mp h).1
  unfold swapRemove
  split
  · rw [List.dropLast_eq_take, List.length_set, List.take_take, Nat.min_eq_left (by omega),
      List.take_set_of_le (Nat.le_refl i)]
  · rfl

/-! ## Inserting a range -/

/-- Ranges of one half, neither overlapping nor adjacent. -/
structure Board (base : SeqNum) (rs : List SackBlock) : Prop where
  half : ∀ k ∈ rs, k.InHalf base
  apart : rs.Pairwise (SackBlock.Apart base)

instance (base : SeqNum) (rs : List SackBlock) : Decidable (Board base rs) :=
  decidable_of_iff ((∀ k ∈ rs, k.InHalf base) ∧ rs.Pairwise (SackBlock.Apart base))
    ⟨fun h => ⟨h.1, h.2⟩, fun h => ⟨h.1, h.2⟩⟩

def Covered (base : SeqNum) (rs : List SackBlock) (p : Nat) : Prop :=
  ∃ k ∈ rs, k.Covers base p

theorem covered_perm {rs rs' : List SackBlock} (h : rs.Perm rs') (p : Nat) :
    Covered base rs p ↔ Covered base rs' p :=
  exists_congr fun _ => and_congr_left fun _ => h.mem_iff

theorem covered_cons {p : Nat} :
    Covered base (k :: rs) p ↔ k.Covers base p ∨ Covered base rs p := by
  simp [Covered, exists_eq_or_imp]

theorem Board.perm {rs rs' : List SackBlock} (h : Board base rs) (hp : rs.Perm rs') :
    Board base rs' :=
  ⟨fun k hk => h.half k (hp.mem_iff.mpr hk), (hp.pairwise_iff SackBlock.Apart.symm).mp h.apart⟩

theorem Board.swapRemove (h : Board base rs) (hk : rs[i]? = some k) :
    Board base (swapRemove rs i) ∧ ∀ x ∈ Tcp.swapRemove rs i, k.Apart base x := by
  have hcons := h.perm (perm_swapRemove hk).symm
  obtain ⟨hapart, hrest⟩ := pairwise_cons.mp hcons.apart
  exact ⟨⟨fun x hx => hcons.half x (mem_cons_of_mem k hx), hrest⟩, hapart⟩

/-- Merging drops entries or changes nothing. -/
theorem mergeTouching_length : ∀ (n : Nat) (rs : List SackBlock) (i : Nat) (m : SackBlock),
    mergeTouching n rs i m = (rs, m) ∨ (mergeTouching n rs i m).1.length < rs.length := by
  intro n
  induction n with
  | zero => exact fun _ _ _ => .inl rfl
  | succ n ih =>
    intro rs i m
    unfold mergeTouching
    cases hk : rs[i]? with
    | none => exact .inl rfl
    | some k =>
      dsimp only
      split
      · right
        have hsize := (perm_swapRemove hk).length_eq
        rw [length_cons] at hsize
        rcases ih (swapRemove rs i) i (m.join k) with h | h
        · rw [h]
          dsimp only
          omega
        · omega
      · exact ih rs (i + 1) m

theorem mergeTouching_of_forall : ∀ (n : Nat) {rs : List SackBlock} (i : Nat) {m : SackBlock},
    (∀ k ∈ rs, m.touches k = false) → mergeTouching n rs i m = (rs, m) := by
  intro n
  induction n with
  | zero => exact fun _ _ _ => rfl
  | succ n ih =>
    intro rs i m h
    unfold mergeTouching
    cases hk : rs[i]? with
    | none => rfl
    | some k =>
      dsimp only
      rw [h k (mem_of_getElem? hk), if_neg (by decide)]
      exact ih (i + 1) h

/-- What merging `m` into the ranges `rs` leaves. -/
structure Merged (base : SeqNum) (rs : List SackBlock) (m : SackBlock) (rs' : List SackBlock)
    (m' : SackBlock) : Prop where
  board : Board base rs'
  half : m'.InHalf base
  apart : ∀ k ∈ rs', m'.Apart base k
  covered : ∀ p, m'.Covers base p ∨ Covered base rs' p ↔ m.Covers base p ∨ Covered base rs p
  contains : ∀ p, m.Covers base p → m'.Covers base p

/-- The merging loop at entry `i`: the entries in front of it do not touch. One that is merged does
not make an earlier one touch, since the two were apart. -/
theorem mergeTouching_merged : ∀ (n : Nat) {rs : List SackBlock} {i : Nat} {m : SackBlock},
    rs.length ≤ i + n → Board base rs → m.InHalf base → (∀ k ∈ rs.take i, m.Apart base k) →
    Merged base rs m (mergeTouching n rs i m).1 (mergeTouching n rs i m).2 := by
  intro n
  induction n with
  | zero =>
    intro rs i m hlen hrs hm hfront
    rw [take_of_length_le (by omega)] at hfront
    exact ⟨hrs, hm, hfront, fun p => Iff.rfl, fun p h => h⟩
  | succ n ih =>
    intro rs i m hlen hrs hm hfront
    unfold mergeTouching
    cases hk : rs[i]? with
    | none =>
      rw [take_of_length_le (getElem?_eq_none_iff.mp hk)] at hfront
      exact ⟨hrs, hm, hfront, fun p => Iff.rfl, fun p h => h⟩
    | some k =>
      dsimp only
      have hkhalf := hrs.half k (mem_of_getElem? hk)
      have htouch := SackBlock.touches_iff hm hkhalf
      split
      next ht =>
        rw [htouch] at ht
        obtain ⟨hrest, hapart⟩ := hrs.swapRemove hk
        have hperm := perm_swapRemove hk
        have hsize := hperm.length_eq
        rw [length_cons] at hsize
        have hfront' : ∀ x ∈ (swapRemove rs i).take i, (m.join k).Apart base x := by
          intro x hx
          have hx' := mem_of_mem_take hx
          rw [take_swapRemove hk] at hx
          exact .join hm hkhalf (hrest.half x hx') ht (hfront x hx) (hapart x hx')
        have hmerged := ih (by omega) hrest (hm.join hkhalf) hfront'
        have hcovers := SackBlock.covers_join hm hkhalf ht
        refine ⟨hmerged.board, hmerged.half, hmerged.apart, fun p => ?_, fun p hp => ?_⟩
        · rw [hmerged.covered, hcovers, ← covered_perm hperm, covered_cons]
          tauto
        · exact hmerged.contains p ((hcovers p).mpr (.inr hp))
      next ht =>
        rw [htouch, not_not] at ht
        refine ih (by omega) hrs hm fun x hx => ?_
        rw [take_add_one, hk, toList_some, mem_append, mem_singleton] at hx
        rcases hx with hx | rfl
        · exact hfront x hx
        · exact ht

/-- The table is full and nothing in it touches the new range. -/
def Full (base : SeqNum) (rs : List SackBlock) (m : SackBlock) : Prop :=
  rs.length = sackRxRangesMax ∧ ∀ k ∈ rs, m.Apart base k

/-- **Inserting a range**: the table records exactly the old numbers and the new ones, and the most
recent range is the one the new numbers are in; a full table that cannot take the range stays as it
is. -/
structure Inserted (base : SeqNum) (r : Receiver α) (m : SackBlock) (r' : Receiver α) : Prop where
  length_le : r'.rxRanges.length ≤ sackRxRangesMax
  board : Board base r'.rxRanges
  full : Full base r.rxRanges m → r' = r
  covered : ¬ Full base r.rxRanges m →
    ∀ p, Covered base r'.rxRanges p ↔ Covered base r.rxRanges p ∨ m.Covers base p
  recent : ¬ Full base r.rxRanges m →
    ∃ k ∈ r'.rxRanges, r'.rxRecent = some k ∧ ∀ p, m.Covers base p → k.Covers base p

theorem sackRxInsertRange_inserted {left right : SeqNum}
    (hlen : r.rxRanges.length ≤ sackRxRangesMax) (hboard : Board base r.rxRanges)
    (hnew : SackBlock.InHalf base ⟨left, right⟩) :
    Inserted base r ⟨left, right⟩ (r.sackRxInsertRange left right) := by
  have hmerged := mergeTouching_merged r.rxRanges.length (i := 0) (by omega) hboard hnew (by simp)
  have hlength := mergeTouching_length r.rxRanges.length r.rxRanges 0 ⟨left, right⟩
  have hfull : Full base r.rxRanges ⟨left, right⟩ →
      mergeTouching r.rxRanges.length r.rxRanges 0 ⟨left, right⟩ = (r.rxRanges, ⟨left, right⟩) := by
    intro hfull
    refine mergeTouching_of_forall _ 0 fun k hk => ?_
    rw [← Bool.not_eq_true, SackBlock.touches_iff hnew (hboard.half k hk), not_not]
    exact hfull.2 k hk
  unfold Receiver.sackRxInsertRange
  generalize mergeTouching r.rxRanges.length r.rxRanges 0 ⟨left, right⟩ = res at *
  obtain ⟨rs, m⟩ := res
  dsimp only at hmerged hlength ⊢
  split
  · -- nothing was merged, and there is no room
    rename_i hroom
    rcases hlength with hsame | hless
    · obtain ⟨rfl, rfl⟩ := Prod.mk.inj hsame
      have hfull' : Full base r.rxRanges ⟨left, right⟩ := ⟨by omega, hmerged.apart⟩
      exact ⟨hlen, hboard, fun _ => rfl, absurd hfull', absurd hfull'⟩
    · omega
  rename_i hroom
  have hnot : ¬ Full base r.rxRanges ⟨left, right⟩ := by
    intro h
    obtain ⟨rfl, -⟩ := Prod.mk.inj (hfull h)
    exact hroom (Nat.le_of_eq h.1.symm)
  have hperm := perm_append_singleton m rs
  have hboard' : Board base (m :: rs) := by
    refine ⟨fun k hk => ?_, pairwise_cons.mpr ⟨hmerged.apart, hmerged.board.apart⟩⟩
    rcases mem_cons.mp hk with rfl | hk
    · exact hmerged.half
    · exact hmerged.board.half k hk
  refine ⟨?_, hboard'.perm hperm.symm, fun h => absurd h hnot, fun _ p => ?_, fun _ => ?_⟩
  · rw [length_append, length_singleton]
    omega
  · rw [covered_perm hperm, covered_cons, hmerged.covered, or_comm]
  · exact ⟨m, by simp, rfl, hmerged.contains⟩

/-! ## The most recent range -/

inductive ScoreboardCall where
  | insert (left right : SeqNum)
  | advance

def Receiver.scoreboardStep (r : Receiver α) : ScoreboardCall → Receiver α
  | .insert left right => r.sackRxInsertRange left right
  | .advance => r.sackRxAdvanceFromScoreboard

/-- The most recent range is in the table, which is not longer than it may be. -/
structure Receiver.RecentStored (r : Receiver α) : Prop where
  length_le : r.rxRanges.length ≤ sackRxRangesMax
  recent : ∀ k, r.rxRecent = some k → k ∈ r.rxRanges

namespace Receiver.RecentStored

variable {r : Receiver α}

theorem insert (h : r.RecentStored) (left right : SeqNum) :
    (r.sackRxInsertRange left right).RecentStored := by
  have hlen := h.length_le
  have hlength := mergeTouching_length r.rxRanges.length r.rxRanges 0 ⟨left, right⟩
  unfold sackRxInsertRange
  generalize mergeTouching r.rxRanges.length r.rxRanges 0 ⟨left, right⟩ = res at *
  obtain ⟨rs, m⟩ := res
  dsimp only at hlength ⊢
  split
  · rcases hlength with hsame | hless
    · obtain ⟨rfl, -⟩ := Prod.mk.inj hsame
      exact h
    · omega
  refine ⟨?_, fun k hk => ?_⟩
  · rw [length_append, length_singleton]
    omega
  cases hk
  simp

theorem fold (h : r.RecentStored) {i : Nat} {b : SackBlock} (hb : r.rxRanges[i]? = some b) :
    (r.fold i b).RecentStored := by
  have hperm := perm_swapRemove hb
  have hsize := hperm.length_eq
  rw [length_cons] at hsize
  have hlen := h.length_le
  refine ⟨?_, fun k hk => ?_⟩
  · show (swapRemove r.rxRanges i).length ≤ sackRxRangesMax
    omega
  unfold Receiver.fold at hk ⊢
  split at hk
  · cases hk
  rename_i hne
  have hmem := hperm.mem_iff.mpr (h.recent k hk)
  rcases mem_cons.mp hmem with rfl | hmem
  · exact absurd hk hne
  · exact hmem

theorem step (h : r.RecentStored) (c : ScoreboardCall) : (r.scoreboardStep c).RecentStored := by
  cases c with
  | insert left right => exact h.insert left right
  | advance => exact advanceLoop_induct (fun _ _ _ hr hk _ => hr.fold hk) _ h

theorem foldl (calls : List ScoreboardCall) :
    ∀ {r : Receiver α}, r.RecentStored → (calls.foldl scoreboardStep r).RecentStored := by
  induction calls with
  | nil => exact fun h => h
  | cons c calls ih => exact fun h => ih (h.step c)

end Receiver.RecentStored

/-- **The receive scoreboard.** A range that is inserted is recorded together with the old ones,
unless the table is full and the range touches none of them; and after any calls the most recent
range is in the table. -/
theorem scoreboard_law (base : SeqNum) (r : Receiver α) (left right : SeqNum)
    (hlen : r.rxRanges.length ≤ sackRxRangesMax) (hboard : Board base r.rxRanges)
    (hnew : SackBlock.InHalf base ⟨left, right⟩)
    (hrecent : ∀ k, r.rxRecent = some k → k ∈ r.rxRanges)
    (calls : List ScoreboardCall) :
    Inserted base r ⟨left, right⟩ (r.sackRxInsertRange left right) ∧
      ∀ k, (calls.foldl Receiver.scoreboardStep r).rxRecent = some k →
        k ∈ (calls.foldl Receiver.scoreboardStep r).rxRanges :=
  ⟨sackRxInsertRange_inserted hlen hboard hnew,
    (Receiver.RecentStored.foldl calls ⟨hlen, hrecent⟩).recent⟩

/-- A range that reaches from one range into another, over the end of the sequence space. -/
theorem scoreboard_law_bridge :
    Inserted 0xFFFFFFF0
      (⟨0, .new 0, [⟨0xFFFFFFF8, 0xFFFFFFFC⟩, ⟨4, 8⟩], none⟩ : Receiver UInt8)
      ⟨0xFFFFFFFC, 6⟩
      ⟨0, .new 0, [⟨0xFFFFFFF8, 8⟩], some ⟨0xFFFFFFF8, 8⟩⟩ :=
  (scoreboard_law 0xFFFFFFF0 ⟨0, .new 0, [⟨0xFFFFFFF8, 0xFFFFFFFC⟩, ⟨4, 8⟩], none⟩ 0xFFFFFFFC 6
    (by decide) (by decide) (by decide) nofun []).1

/-! ## Closing a gap -/

/-- RCV.NXT is the first number from the old one on that is neither among the `n` of the segment nor
in a range, and every range that is left lies above it. -/
structure GapClosed (base : SeqNum) (r : Receiver α) (n : Nat) (r' : Receiver α) : Prop where
  received : ∀ p, (r.rcvNxt - base).toNat ≤ p → p < (r'.rcvNxt - base).toNat →
    p < (r.rcvNxt - base).toNat + n ∨ Covered base r.rxRanges p
  missing : (r.rcvNxt - base).toNat + n ≤ (r'.rcvNxt - base).toNat ∧
    ¬ Covered base r.rxRanges (r'.rcvNxt - base).toNat
  above : ∀ k ∈ r'.rxRanges, (r'.rcvNxt - base).toNat < k.lo base

theorem advanceLoop_of_forall (h : ∀ k ∈ r.rxRanges, k.left ≠ r.rcvNxt) (n : Nat) :
    Receiver.advanceLoop n r = r := by
  cases n with
  | zero => rfl
  | succ n =>
    have hfind : r.rxRanges.findIdx? (·.left == r.rcvNxt) = none :=
      findIdx?_eq_none_iff.mpr fun k hk => by simpa using h k hk
    rw [Receiver.advanceLoop, hfind]

theorem rcvNxt_fold (h : k.left = r.rcvNxt) : (r.fold i k).rcvNxt = k.right := by
  show r.rcvNxt + (k.right - k.left) = k.right
  rw [h, BitVec.add_comm, BitVec.sub_add_cancel]

/-- At most one range starts at RCV.NXT, and none starts where it ends. -/
theorem sackRxAdvanceFromScoreboard_cases (hboard : Board base r.rxRanges) :
    (∀ k ∈ r.rxRanges, k.left ≠ r.rcvNxt) ∧ r.sackRxAdvanceFromScoreboard = r ∨
      ∃ i k, r.rxRanges[i]? = some k ∧ k.left = r.rcvNxt ∧
        r.sackRxAdvanceFromScoreboard = r.fold i k := by
  unfold Receiver.sackRxAdvanceFromScoreboard
  cases hfind : r.rxRanges.findIdx? (·.left == r.rcvNxt) with
  | none =>
    have hnone : ∀ k ∈ r.rxRanges, k.left ≠ r.rcvNxt := fun k hk => by
      simpa using findIdx?_eq_none_iff.mp hfind k hk
    exact .inl ⟨hnone, advanceLoop_of_forall hnone _⟩
  | some i =>
    obtain ⟨hlt, hleft, -⟩ := findIdx?_eq_some_iff_getElem.mp hfind
    have hk : r.rxRanges[i]? = some r.rxRanges[i] := getElem?_eq_getElem hlt
    rw [beq_iff_eq] at hleft
    refine .inr ⟨i, r.rxRanges[i], hk, hleft, ?_⟩
    rw [Receiver.advanceLoop, hfind]
    dsimp only
    rw [hk]
    refine advanceLoop_of_forall (fun x hx hx' => ?_) _
    rw [rcvNxt_fold hleft] at hx'
    have hapart := (hboard.swapRemove hk).2 x hx
    have hhalf := (hboard.half _ (mem_of_getElem? hk)).lo_lt_hi
    have hxhalf := (hboard.half x (mem_swapRemove hx)).lo_lt_hi
    have hsame : x.lo base = r.rxRanges[i].hi base := by rw [SackBlock.lo, hx', SackBlock.hi]
    unfold SackBlock.Apart at hapart
    omega

/-- **A gap is closed exactly if the segment stays in front of every range.** -/
theorem gapClosed_iff {b : TcpReceiveBuffer α} {n : Nat}
    (hboard : Board base r.rxRanges) (hhalf : (r.rcvNxt - base).toNat + n ≤ 2 ^ 31) :
    GapClosed base r n (Receiver.sackRxAdvanceFromScoreboard
        { r with receiveBuffer := b, rcvNxt := r.rcvNxt + BitVec.ofNat 32 n }) ↔
      ∀ k ∈ r.rxRanges, (r.rcvNxt - base).toNat + n ≤ k.lo base := by
  have hnxt : (r.rcvNxt + BitVec.ofNat 32 n - base).toNat = (r.rcvNxt - base).toNat + n := by
    bv_omega
  generalize hr1 : ({ r with receiveBuffer := b, rcvNxt := r.rcvNxt + BitVec.ofNat 32 n } :
    Receiver α) = r1
  have hranges : r1.rxRanges = r.rxRanges := by rw [← hr1]
  have hoff : (r1.rcvNxt - base).toNat = (r.rcvNxt - base).toNat + n := by
    rw [← hr1]
    exact hnxt
  have hlo : ∀ k : SackBlock, k.left = r1.rcvNxt ↔ k.lo base = (r.rcvNxt - base).toNat + n := by
    intro k
    rw [← hoff, SackBlock.lo, BitVec.toNat_inj, sub_left_inj]
  rw [← hranges] at hboard ⊢
  rcases sackRxAdvanceFromScoreboard_cases hboard with ⟨hnone, heq⟩ | ⟨i, k0, hk0, hleft, heq⟩
  · rw [heq]
    constructor
    · intro h k hk
      have := h.above k hk
      omega
    intro h
    have hstrict : ∀ k ∈ r1.rxRanges, (r1.rcvNxt - base).toNat < k.lo base := by
      intro k hk
      have hne : k.lo base ≠ (r.rcvNxt - base).toNat + n := fun he => hnone k hk ((hlo k).mpr he)
      have := h k hk
      omega
    refine ⟨fun p _ hp => .inl (by omega), ⟨by omega, ?_⟩, hstrict⟩
    rintro ⟨k, hk, hcovers⟩
    have := hstrict k (hranges ▸ hk)
    have := hcovers.1
    omega
  have hstart := (hlo k0).mp hleft
  have hlen := (hboard.half k0 (mem_of_getElem? hk0)).lo_lt_hi
  have hend : ((r1.fold i k0).rcvNxt - base).toNat = k0.hi base := by
    rw [rcvNxt_fold hleft, SackBlock.hi]
  have hrest := (hboard.swapRemove hk0).2
  have hsplit : ∀ x ∈ r1.rxRanges, x = k0 ∨ x ∈ swapRemove r1.rxRanges i := fun x hx =>
    mem_cons.mp ((perm_swapRemove hk0).mem_iff.mpr hx)
  rw [heq]
  constructor
  · -- a range that starts before the end of the segment is still there
    intro h k hk
    rcases hsplit k hk with rfl | hk
    · omega
    have := h.above k hk
    omega
  intro h
  have hstrict : ∀ x ∈ swapRemove r1.rxRanges i, k0.hi base < x.lo base := by
    intro x hx
    have hx1 := (hboard.half x (mem_swapRemove hx)).lo_lt_hi
    have hx2 := h x (mem_swapRemove hx)
    have hapart := hrest x hx
    unfold SackBlock.Apart at hapart
    omega
  refine ⟨fun p _ hp => ?_, ⟨by omega, ?_⟩, fun x hx => hend ▸ hstrict x hx⟩
  · rw [hend] at hp
    by_cases hseg : p < (r.rcvNxt - base).toNat + n
    · exact .inl hseg
    · exact .inr ⟨k0, hranges ▸ mem_of_getElem? hk0, by omega, hp⟩
  rw [hend]
  rintro ⟨k, hk, hcovers⟩
  have := hcovers.1
  have := hcovers.2
  rcases hsplit k (hranges ▸ hk) with rfl | hk
  · omega
  have := hstrict k hk
  omega

/-! ### In the block -/

namespace TcpControlBlock

variable {t t' : TcpControlBlock} {seg : Segment}

/-- How many bytes of a segment at RCV.NXT the ring takes. -/
def storable (t : TcpControlBlock) (seg : Segment) : Nat :=
  min seg.payload.length t.rx.receiveBuffer.capacity

theorem writeAt_self {b b' : TcpReceiveBuffer UInt8} {seq : SeqNum} {buf : List UInt8} {n : Nat}
    (h : b.writeAt seq seq buf = some (b', n)) : n = min buf.length b.capacity := by
  unfold TcpReceiveBuffer.writeAt at h
  have hdist : SeqNum.dist seq seq = 0 := by simp [SeqNum.dist]
  simp only [hdist] at h
  split at h
  next hempty =>
    cases h
    simp [List.isEmpty_iff.mp hempty]
  rw [if_neg (by decide)] at h
  split at h
  next hcap =>
    cases h
    rw [Nat.le_zero.mp hcap, Nat.min_zero]
  · obtain ⟨data, -, heq⟩ := map_eq_some_iff.mp h
    exact (congrArg Prod.snd heq).symm

theorem rx_receivePayload_inOrder {ackNow : Bool} {n : Nat} (hsack : t.sack.enabled = true)
    (hseq : seg.seq = t.rx.rcvNxt) (hn : t.storable seg ≠ 0)
    (h : t.receivePayload seg = some (t', ackNow, n)) :
    ∃ b, t'.rx = Receiver.sackRxAdvanceFromScoreboard { t.rx with
      receiveBuffer := b, rcvNxt := t.rx.rcvNxt + BitVec.ofNat 32 (t.storable seg) } := by
  unfold receivePayload at h
  split at h
  next hempty => simp [storable, List.isEmpty_iff.mp hempty] at hn
  rw [if_neg (not_not.mpr hseq)] at h
  simp only [bind_eq_bind, bind_eq_some_iff, Prod.exists] at h
  obtain ⟨b, n1, hstore, h⟩ := h
  rw [Receiver.storeInOrder, if_pos hsack, hseq] at hstore
  obtain rfl : n1 = t.storable seg := writeAt_self hstore
  rw [if_neg hn] at h
  simp only [bind_eq_some_iff, some.injEq, Prod.mk.injEq] at h
  obtain ⟨t1, hupd, rfl, -, rfl⟩ := h
  obtain ⟨free, -, hview⟩ := rxView_updateRcvWndFromBuffer hupd
  refine ⟨b, (congrArg RxView.rx hview).trans ?_⟩
  rw [hsack]
  rfl

/-- **Gap closing.** For a segment at RCV.NXT of which the ring takes something, RCV.NXT ends up at
the first byte that is missing, below every range that is left, exactly if what is taken does not
reach past the start of a range. -/
theorem receivePayload_gapClosed_iff (base : SeqNum) (t t' : TcpControlBlock) (seg : Segment)
    (ackNow : Bool) (n : Nat) (hsack : t.sack.enabled = true) (hboard : Board base t.rx.rxRanges)
    (hhalf : (t.rx.rcvNxt - base).toNat + t.storable seg ≤ 2 ^ 31) (hseq : seg.seq = t.rx.rcvNxt)
    (hn : t.storable seg ≠ 0) (h : t.receivePayload seg = some (t', ackNow, n)) :
    GapClosed base t.rx (t.storable seg) t'.rx ↔
      ∀ k ∈ t.rx.rxRanges, (t.rx.rcvNxt - base).toNat + t.storable seg ≤ k.lo base := by
  obtain ⟨b, hrx⟩ := rx_receivePayload_inOrder hsack hseq hn h
  rw [hrx]
  exact gapClosed_iff hboard hhalf

/-- A connection from 1001 on that holds the bytes 1011 to 1020. -/
def withGap : Option TcpControlBlock :=
  (opened 4096 [.sackPermitted]).bind fun t =>
    (t.processDataDatagram .integer { Segment.ackOfSyn with
      seq := 1011, payload := replicate 10 0 } 0).map (·.1)

def gapFiller (len : Nat) : Segment :=
  { Segment.ackOfSyn with payload := replicate len 0 }

theorem receivePayload_gapClosed_iff_exact : ∃ t t' ackNow, withGap = some t ∧
    t.receivePayload (gapFiller 10) = some (t', ackNow, 10) ∧ GapClosed 1001 t.rx 10 t'.rx := by
  obtain ⟨t, hgap, hsack, hnxt, hranges, hten, t', ⟨ackNow, _⟩, hreceive, rfl⟩ :
      ∃ t, withGap = some t ∧ t.sack.enabled = true ∧ t.rx.rcvNxt = 1001 ∧
        t.rx.rxRanges = [⟨1011, 1021⟩] ∧ t.storable (gapFiller 10) = 10 ∧ ∃ t' r,
          t.receivePayload (gapFiller 10) = some (t', r) ∧ r.2 = 10 := by decide +kernel
  refine ⟨t, t', ackNow, hgap, hreceive, ?_⟩
  have hclosed := receivePayload_gapClosed_iff 1001 t t' (gapFiller 10) ackNow 10 hsack
  rw [hten, hranges, hnxt] at hclosed
  exact (hclosed (by decide) (by decide) rfl (by decide) hreceive).mpr (by decide)

/-- Fifteen bytes reach into the range. RCV.NXT stops in the middle of it and the range stays in the
table, with its start below RCV.NXT. -/
theorem overlap_leaves_range :
    (withGap.bind fun t => (t.processDataDatagram .integer (gapFiller 15) 0).map fun (t', n) =>
      (t.rx.rcvNxt, t.rx.rxRanges, n, t'.rx.rcvNxt, t'.rx.rxRanges)) =
      some (1001, [⟨1011, 1021⟩], 15, 1016, [⟨1011, 1021⟩]) := by
  decide +kernel

end TcpControlBlock

end Moose.Tcp
