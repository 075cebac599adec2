import Moose.Lib.Run
import Moose.Tcp.Scoreboard

/-!
# The receive window

What the ring is for: a window of the peer's stream. Position `p` of the stream is kept in cell
`p % capacity`, the application has been given the first `c` positions, and RCV.NXT stands for
position `pos`. Each operation of the ring is specified for calls that stay inside the window
`[c, c + capacity)`. `write_at` itself does not check that: it takes `capacity - off` for the room
behind offset `off`, although `size` bytes in front of `head` are still unread.
-/

set_option autoImplicit false

namespace Moose.Tcp

open Lib Cells TcpReceiveBuffer

variable {α : Type} {s : Nat → α} {base : SeqNum} {cap c pos : Nat} {b b' : TcpReceiveBuffer α}

/-- Position `p` is inside the window of a ring whose reader is at `c`, and in its cell unless it
has been read. -/
def Kept (s : Nat → α) (c : Nat) (b : TcpReceiveBuffer α) (p : Nat) : Prop :=
  p < c + b.data.length ∧ (c ≤ p → Holds b.data s p)

/-- The ring holds the positions from `c` to `pos`, and its counters say so. -/
structure RingOk (s : Nat → α) (cap c pos : Nat) (b : TcpReceiveBuffer α) : Prop where
  length_data : b.data.length = cap
  head : b.head = pos % cap
  tail : b.tail = c % cap
  size : pos = c + b.size
  size_le : b.size ≤ b.occupied
  occupied_le : b.occupied ≤ cap
  holds : ∀ p, c ≤ p → p < pos → Holds b.data s p

/-- What a store of `n` positions at `q` does to the ring, whatever the counters become. -/
theorem RingOk.store (h : RingOk s cap c pos b) (off : Nat) {n : Nat} (hn : 0 < n)
    (hroom : b.size + off + n ≤ cap) :
    ∃ data, wrapStore b.data ((b.head + off) % b.capacity) (slice s (pos + off) n) = some data ∧
      data.length = cap ∧
      (∀ p, pos + off ≤ p → p < pos + off + n → Holds data s p) ∧
      (∀ p, Kept s c b p → c ≤ p → Holds data s p) := by
  have hsize := h.size
  have hcap := h.length_data
  obtain ⟨data, hd, hl, hnew, hold⟩ :=
    wrapStore_slice (s := s) (c := c) (q := pos + off) (n := n) (show 0 < b.data.length by omega)
      (by omega) (by omega)
  refine ⟨data, ?_, by omega, hnew, fun p hp hcp => hold p hcp hp.1 (hp.2 hcp)⟩
  rw [h.head, capacity, ← hcap, Nat.mod_add_mod]
  exact hd

theorem take_payload (s : Nat → α) (q : Nat) {n len : Nat} (h : n ≤ len) :
    (slice s q len).take n = slice s q n := by
  rw [take_slice, Nat.min_eq_left h]

theorem slice_isEmpty (s : Nat → α) (q : Nat) {len : Nat} (h : 0 < len) :
    (slice s q len).isEmpty = false := by
  rw [List.isEmpty_eq_false_iff, ← List.length_pos_iff, length_slice]
  exact h

section

variable (h : RingOk s cap c pos b)
include h

/-- **`write`** appends to the window whatever room there is. -/
theorem RingOk.write (len : Nat) : ∃ b', b.write (slice s pos len) =
        some (b', min len (cap - max b.occupied b.size)) ∧
      RingOk s cap c (pos + min len (cap - max b.occupied b.size)) b' ∧
      ∀ p, Kept s c b p → Kept s c b' p := by
  have hsize := h.size
  have hle := h.size_le
  have hocc := h.occupied_le
  have hfree : b.freeSpace = some (cap - max b.occupied b.size) := by
    unfold freeSpace capacity
    rw [h.length_data, if_pos (by omega)]
  generalize hn : min len (cap - max b.occupied b.size) = n
  unfold TcpReceiveBuffer.write
  simp only [hfree, some_bind, length_slice, hn]
  rcases Nat.eq_zero_or_pos n with h0 | hpos
  · subst h0
    exact ⟨b, by simp, by simpa using h, fun _ hp => hp⟩
  obtain ⟨data, hd, hlen, hnew, hold⟩ := h.store 0 hpos (by omega)
  rw [Nat.add_zero] at hd hnew
  have hhead : b.head % b.capacity = b.head := by
    rw [h.head, capacity, h.length_data, Nat.mod_mod]
  rw [if_neg (by omega), take_payload s pos (by omega)]
  rw [Nat.add_zero, hhead] at hd
  simp only [hd]
  refine ⟨_, rfl, ⟨hlen, ?_, h.tail, by dsimp only; omega, by dsimp only; omega,
    by dsimp only; omega, ?_⟩, ?_⟩
  · show (b.head + n) % b.capacity = (pos + n) % cap
    rw [h.head, capacity, h.length_data, Nat.mod_add_mod]
  · intro p hcp hp
    by_cases hnew' : pos ≤ p
    · exact hnew p hnew' (by omega)
    · exact hold p ⟨by have := h.length_data; omega, fun _ => h.holds p hcp (by omega)⟩ hcp
  · intro p hp
    exact ⟨by have := hp.1; have := h.length_data; dsimp only; omega, hold p hp⟩

/-- **`write_at`** at offset `off` from RCV.NXT, as long as what it takes fits behind the unread
bytes. -/
theorem RingOk.writeAt (base : SeqNum) (hu : cap ≤ usizeMax) (off len : Nat) (hoff : off < 2 ^ 31)
    (hroom : min len (cap - off) = 0 ∨ b.size + off + min len (cap - off) ≤ cap) :
    ∃ b', b.writeAt (SeqNum.pos base pos) (SeqNum.pos base (pos + off))
          (slice s (pos + off) len) = some (b', min len (cap - off)) ∧
      RingOk s cap c (if off = 0 then pos + min len (cap - off) else pos) b' ∧
      (∀ p, Kept s c b p → Kept s c b' p) ∧
      ∀ p, pos + off ≤ p → p < pos + off + min len (cap - off) → Kept s c b' p := by
  have hdist : SeqNum.dist (SeqNum.pos base (pos + off)) (SeqNum.pos base pos) = off := by
    rw [SeqNum.dist_pos base (by omega) (by omega)]
    omega
  have hseq : (SeqNum.pos base (pos + off) == SeqNum.pos base pos) = decide (off = 0) := by
    rw [Bool.eq_iff_iff, beq_iff_eq, decide_eq_true_iff, SeqNum.pos_inj base (by omega) (by omega)]
    omega
  have hcap : b.capacity = cap := h.length_data
  unfold TcpReceiveBuffer.writeAt
  simp only [hdist, hseq, hcap, length_slice, Int.toNat_natCast]
  generalize hn : min len (cap - off) = n at hroom ⊢
  rcases Nat.eq_zero_or_pos n with h0 | hpos
  · -- nothing to store: an empty payload, or an offset past the ring
    subst h0
    refine ⟨b, ?_, by simpa using h, fun _ hp => hp, fun p h1 h2 => absurd h2 (by omega)⟩
    rcases Nat.eq_zero_or_pos len with hl | hl
    · simp [hl, slice]
    · rw [slice_isEmpty s _ hl, if_neg (by simp), if_neg (by omega), if_pos (by omega)]
  have hfit : b.size + off + n ≤ cap := by omega
  obtain ⟨data, hd, hlen, hnew, hold⟩ := h.store off hpos hfit
  rw [hcap] at hd
  have hsize := h.size
  have hle := h.size_le
  have hocc := h.occupied_le
  have hdata : ∀ i, (b.stored data off n i).data = data := by
    intro i
    cases i <;> rfl
  rw [slice_isEmpty s _ (by omega), if_neg (by simp), if_neg (by omega), if_neg (by omega),
    take_payload s _ (by omega), hd]
  refine ⟨_, rfl, ?_, ?_, ?_⟩
  · have hheld : ∀ p, c ≤ p → p < pos → Holds data s p := fun p hcp hp =>
      hold p ⟨by have := h.length_data; omega, fun _ => h.holds p hcp hp⟩ hcp
    rcases Nat.eq_zero_or_pos off with h0 | h0
    · subst h0
      simp only [decide_true, if_true, stored, hcap]
      refine ⟨hlen, ?_, h.tail, by dsimp only; omega, by dsimp only; omega,
        by dsimp only; omega, ?_⟩
      · rw [h.head, Nat.mod_add_mod]
      intro p hcp hp
      by_cases hlt : p < pos
      · exact hheld p hcp hlt
      · exact hnew p (by omega) (by omega)
    · simp only [show ¬ off = 0 by omega, decide_false]
      exact ⟨hlen, h.head, h.tail, h.size, by simp [stored]; omega,
        by simp [stored]; omega, hheld⟩
  · intro p hp
    have hw := hp.1
    rw [h.length_data] at hw
    exact ⟨by rw [hdata]; omega, fun hcp => by rw [hdata]; exact hold p hp hcp⟩
  · intro p h1 h2
    exact ⟨by rw [hdata]; omega, fun _ => by rw [hdata]; exact hnew p h1 h2⟩

/-- **`advance_contig`** over kept positions is not cut short. -/
theorem RingOk.advanceContig {n : Nat} (hkept : ∀ p, pos ≤ p → p < pos + n → Kept s c b p) :
    RingOk s cap c (pos + n) (b.advanceContig n) ∧
      ∀ p, Kept s c b p → Kept s c (b.advanceContig n) p := by
  have hsize := h.size
  have hocc := h.occupied_le
  have hcap : b.capacity = cap := h.length_data
  rcases Nat.eq_zero_or_pos n with h0 | hpos
  · subst h0
    simp only [TcpReceiveBuffer.advanceContig, Nat.zero_min, if_true]
    exact ⟨h, fun _ hp => hp⟩
  have hlast := (hkept (pos + n - 1) (by omega) (by omega)).1
  rw [h.length_data] at hlast
  have hmin : min n (cap - b.size) = n := by omega
  unfold TcpReceiveBuffer.advanceContig
  simp only [hcap, hmin, if_neg (show ¬ n = 0 by omega)]
  refine ⟨⟨h.length_data, ?_, h.tail, by dsimp only; omega, by dsimp only; omega,
    by dsimp only; omega, ?_⟩, fun _ hp => hp⟩
  · rw [h.head, Nat.mod_add_mod]
  intro p hcp hp
  by_cases hlt : p < pos
  · exact h.holds p hcp hlt
  · exact (hkept p (by omega) hp).2 hcp

/-- **`read`** returns the next positions of the stream. -/
theorem RingOk.read (len : Nat) : ∃ b', b.read len = some (b', slice s c (min len b.size)) ∧
      RingOk s cap (c + min len b.size) pos b' ∧
      ∀ p, Kept s c b p → Kept s (c + min len b.size) b' p := by
  have hsize := h.size
  have hle := h.size_le
  have hocc := h.occupied_le
  have hcap := h.length_data
  unfold TcpReceiveBuffer.read
  generalize hn : min len b.size = n
  rcases Nat.eq_zero_or_pos n with h0 | hpos
  · subst h0
    exact ⟨b, by simp [slice], by simpa using h, fun _ hp => by simpa using hp⟩
  have hload : wrapLoad b.data b.tail n = some (slice s c n) := by
    rw [h.tail, ← hcap]
    exact wrapLoad_slice (by omega) (by omega) fun p h1 h2 => h.holds p h1 (by omega)
  simp only [if_neg (show ¬ n = 0 by omega), hload, Option.map_some]
  refine ⟨_, rfl, ⟨hcap, h.head, ?_, by dsimp only; omega, by dsimp only; omega,
    by dsimp only; omega, fun p h1 h2 => h.holds p (by omega) h2⟩, ?_⟩
  · show (b.tail + n) % b.capacity = (c + n) % cap
    rw [h.tail, capacity, hcap, Nat.mod_add_mod]
  intro p hp
  exact ⟨by have := hp.1; dsimp only; omega, fun hcp => hp.2 (by omega)⟩

end

/-! ## Ring and scoreboard together -/

/-- RCV.NXT, the ring and the scoreboard agree on a window of the stream. `P` is what is known of
every position the peer's segments have brought in. -/
structure ReceiverOk (s : Nat → α) (base : SeqNum) (cap : Nat) (P : Nat → Prop)
    (c pos lo hi : Nat) (r : Receiver α) : Prop where
  ring : RingOk s cap c pos r.receiveBuffer
  board : ScoreboardOk base (fun p => Kept s c r.receiveBuffer p ∧ P p) pos lo hi r
  seen : ∀ p, p < pos → P p

/-- What `write_at` takes at offset `off` fits behind the unread bytes, and ends in the window of
sequence numbers that signed comparisons can tell apart. -/
def Fits (r : Receiver α) (off len : Nat) : Prop :=
  off < 2 ^ 31 ∧ (min len (r.receiveBuffer.capacity - off) = 0 ∨
    r.receiveBuffer.size + off + min len (r.receiveBuffer.capacity - off) ≤
        r.receiveBuffer.capacity ∧
      off + min len (r.receiveBuffer.capacity - off) ≤ 2 ^ 30)

instance (r : Receiver α) (off len : Nat) : Decidable (Fits r off len) :=
  instDecidableAnd

section Receiver

variable {P P' : Nat → Prop} {lo hi : Nat} {r : Receiver α}

theorem ReceiverOk.weaken (h : ReceiverOk s base cap P c pos lo hi r) (hP : ∀ p, P p → P' p) :
    ReceiverOk s base cap P' c pos lo hi r :=
  ⟨h.ring, ⟨h.board.rcvNxt, fun k hk => (h.board.ranges k hk).imp fun p hp => ⟨hp.1, hP p hp.2⟩⟩,
    fun p hp => hP p (h.seen p hp)⟩

theorem ReceiverOk.mono {lo' hi' : Nat} (h : ReceiverOk s base cap P c pos lo hi r)
    (hlo : lo' ≤ lo) (hhi : hi ≤ hi') : ReceiverOk s base cap P c pos lo' hi' r :=
  ⟨h.ring, ⟨h.board.rcvNxt, fun k hk => (h.board.ranges k hk).mono hlo hhi⟩, h.seen⟩

theorem ReceiverOk.near
    (h : ReceiverOk s base cap P c pos (pos - 2 ^ 31) (pos + 2 ^ 30) r) (hn : NoStaleRange r) :
    ReceiverOk s base cap P c pos (pos - 2 ^ 30) (pos + 2 ^ 30) r :=
  ⟨h.ring, h.board.near hn, h.seen⟩

section

variable (h : ReceiverOk s base cap P c pos lo hi r)
include h

/-- **In-order data**: the ring took `n` bytes and RCV.NXT steps over them. -/
theorem ReceiverOk.inOrder {n : Nat} (hb : RingOk s cap c (pos + n) b)
    (hkeep : ∀ p, Kept s c r.receiveBuffer p → Kept s c b p) (hP : ∀ p, pos ≤ p → p < pos + n → P p)
    :
    ReceiverOk s base cap P c (pos + n) lo hi
      { r with receiveBuffer := b, rcvNxt := r.rcvNxt + BitVec.ofNat 32 n } := by
  refine ⟨hb, ⟨?_, ?_⟩, ?_⟩
  · rw [h.board.rcvNxt, SeqNum.pos_add]
  · intro k hk
    exact (h.board.ranges k hk).imp fun p hp => ⟨hkeep p hp.1, hp.2⟩
  intro p hp
  by_cases hlt : p < pos
  · exact h.seen p hlt
  · exact hP p (by omega) hp

/-- **Ranges that have become adjacent** are folded in; RCV.NXT stays below `hi`. -/
theorem ReceiverOk.advance (hwide : hi ≤ lo + 2 ^ 31) (hpos : pos ≤ hi) (hlo : lo ≤ pos) :
    ∃ pos', pos ≤ pos' ∧ pos' ≤ hi ∧
      ReceiverOk s base cap P c pos' lo hi r.sackRxAdvanceFromScoreboard ∧
      ∀ p, Kept s c r.receiveBuffer p →
        Kept s c r.sackRxAdvanceFromScoreboard.receiveBuffer p := by
  apply advanceLoop_induct (I := fun r' => ∃ pos', pos ≤ pos' ∧ pos' ≤ hi ∧
    ReceiverOk s base cap P c pos' lo hi r' ∧
    ∀ p, Kept s c r.receiveBuffer p → Kept s c r'.receiveBuffer p)
  · rintro r' i k ⟨pos', h1, h2, h3, h4⟩ hk hleft
    obtain ⟨hlen, hle, hK, hboard⟩ := h3.board.fold hwide h2 (by omega) hk hleft
    obtain ⟨hring, hkeep⟩ := h3.ring.advanceContig fun p hp1 hp2 => (hK p hp1 hp2).1
    refine ⟨_, by omega, hle, ⟨hring, ⟨hboard.rcvNxt, ?_⟩, ?_⟩, fun p hp => hkeep p (h4 p hp)⟩
    · intro k' hk'
      exact (hboard.ranges k' hk').imp fun p hp => ⟨hkeep p hp.1, hp.2⟩
    intro p hp
    by_cases hlt : p < pos'
    · exact h3.seen p hlt
    · exact (hK p (by omega) hp).2
  · exact ⟨pos, le_refl _, hpos, h, fun _ hp => hp⟩

/-- **An out-of-order segment** is stored, and recorded unless the scoreboard is full. -/
theorem ReceiverOk.sackReceiveOutOfOrder (hu : cap ≤ usizeMax) (hwide : hi ≤ lo + 2 ^ 31)
    (off len : Nat) (h0 : 0 < off) (hoff : off < 2 ^ 31) (hlo : lo ≤ pos)
    (hfit : min len (cap - off) = 0 ∨ r.receiveBuffer.size + off + min len (cap - off) ≤ cap ∧
      pos + off + min len (cap - off) ≤ hi)
    (hP : ∀ p, pos + off ≤ p → p < pos + off + min len (cap - off) → P p) :
    ∃ r', r.sackReceiveOutOfOrder (SeqNum.pos base (pos + off)) (slice s (pos + off) len) =
        some r' ∧
      ReceiverOk s base cap P c pos lo hi r' ∧
      (∀ p, Kept s c r.receiveBuffer p → Kept s c r'.receiveBuffer p) ∧
      ∀ p, pos + off ≤ p → p < pos + off + min len (cap - off) → Kept s c r'.receiveBuffer p := by
  obtain ⟨b, hb, hring, hkeep, hnew⟩ := h.ring.writeAt base hu off len hoff (by omega)
  rw [if_neg (by omega)] at hring
  have hold : ∀ k ∈ r.rxRanges, RangeIn base (fun p => Kept s c b p ∧ P p) lo hi k :=
    fun k hk => (h.board.ranges k hk).imp fun p hp => ⟨hkeep p hp.1, hp.2⟩
  unfold Receiver.sackReceiveOutOfOrder
  rw [h.board.rcvNxt]
  simp only [hb, some_bind]
  generalize min len (cap - off) = n at *
  rcases Nat.eq_zero_or_pos n with hz | hpos
  · rw [if_pos hz]
    exact ⟨_, rfl, ⟨hring, ⟨rfl, hold⟩, h.seen⟩, hkeep, hnew⟩
  obtain ⟨rs, recent, heq, hrs⟩ :=
    sackRxInsertRange_spec (r := ⟨SeqNum.pos base pos, b, r.rxRanges, r.rxRecent⟩) hwide hold
      ⟨pos + off, pos + off + n, by omega, rfl, by omega, by omega,
        fun p h1 h2 => ⟨hnew p h1 h2, hP p h1 h2⟩⟩
  rw [if_neg (by omega), SeqNum.pos_add, heq]
  exact ⟨_, rfl, ⟨hring, ⟨rfl, hrs⟩, h.seen⟩, hkeep, hnew⟩

/-- **A read** moves the reader. -/
theorem ReceiverOk.read (len : Nat) :
    ∃ b, r.receiveBuffer.read len = some (b, slice s c (min len r.receiveBuffer.size)) ∧
      ReceiverOk s base cap P (c + min len r.receiveBuffer.size) pos lo hi
        { r with receiveBuffer := b } ∧
      ∀ p, Kept s c r.receiveBuffer p → Kept s (c + min len r.receiveBuffer.size) b p := by
  obtain ⟨b, hb, hring, hkeep⟩ := h.ring.read len
  refine ⟨b, hb, ⟨hring, ⟨h.board.rcvNxt, ?_⟩, h.seen⟩, hkeep⟩
  intro k hk
  exact (h.board.ranges k hk).imp fun p hp => ⟨hkeep p hp.1, hp.2⟩

end

theorem receiverOk_new [Zero α] (s : Nat → α) (base : SeqNum) (cap : Nat) (P : Nat → Prop)
    (lo hi : Nat) : ReceiverOk s base cap P 0 0 lo hi ⟨base, .new cap, [], none⟩ := by
  refine ⟨⟨?_, ?_, ?_, rfl, le_refl _, Nat.zero_le _, ?_⟩, ⟨(SeqNum.pos_zero base).symm, ?_⟩, ?_⟩
  · simp [new]
  · simp [new]
  · simp [new]
  · intro p _ hp
    exact absurd hp (Nat.not_lt_zero p)
  · intro k hk
    exact absurd hk (List.not_mem_nil)
  · intro p hp
    exact absurd hp (Nat.not_lt_zero p)

end Receiver
end Moose.Tcp
