import Moose.Tcp.Window

/-!
# Reassembly

The calls made on the ring and the scoreboard, for a peer that sends one stream. They are safe as
long as each stays inside the window, which `write_at` does not check. The condition under which a
run is safe says what the check would have been, and that no range of the scoreboard is left so
far behind RCV.NXT that its sequence numbers come round again.
-/

set_option autoImplicit false

namespace Moose.Tcp

open Lib Cells

variable {α : Type}

/-- A receiver together with what it was given: the position RCV.NXT stands for, the bytes the
application has read, and every accepted position with the cell it was stored in. -/
structure Reassembly (α : Type) where
  rx : Receiver α
  pos : Nat
  returned : List α
  accepted : List (Nat × Nat)

/-- The calls made on the ring; a payload is cut from the stream. `outOfOrder gap len` is a segment
that starts `gap + 1` positions after RCV.NXT. -/
inductive RxCall where
  | write (len : Nat)
  | writeAt (len : Nat)
  | outOfOrder (gap len : Nat)
  | advance
  | read (len : Nat)

namespace Reassembly

def new [Zero α] (base : SeqNum) (capacity : Nat) : Reassembly α :=
  ⟨⟨base, .new capacity, [], none⟩, 0, [], []⟩

/-- `n` positions from offset `off` after RCV.NXT with the cells they go to. -/
def placed (st : Reassembly α) (off n : Nat) : List (Nat × Nat) :=
  (List.range n).map fun i =>
    (st.pos + off + i,
      (st.rx.receiveBuffer.head + off + i) % st.rx.receiveBuffer.capacity)

/-- After an in-order write that took `n` bytes. -/
def advanceBy (st : Reassembly α) (b : TcpReceiveBuffer α) (n : Nat) : Reassembly α :=
  { st with
    rx := { st.rx with receiveBuffer := b, rcvNxt := st.rx.rcvNxt + BitVec.ofNat 32 n }
    pos := st.pos + n
    accepted := st.accepted ++ st.placed 0 n }

/-- One call, for a peer that sends the stream `s`; the output is what a read returned. -/
def step (s : Nat → α) (st : Reassembly α) : RxCall → Option (Reassembly α × List α)
  | .write len => do
    let (b, n) ← st.rx.receiveBuffer.write (slice s st.pos len)
    some (st.advanceBy b n, [])
  | .writeAt len => do
    let (b, n) ← st.rx.receiveBuffer.writeAt st.rx.rcvNxt st.rx.rcvNxt (slice s st.pos len)
    some (st.advanceBy b n, [])
  | .outOfOrder gap len => do
    let seq := st.rx.rcvNxt + BitVec.ofNat 32 (gap + 1)
    let payload := slice s (st.pos + (gap + 1)) len
    let (_, n) ← st.rx.receiveBuffer.writeAt st.rx.rcvNxt seq payload
    let rx ← st.rx.sackReceiveOutOfOrder seq payload
    some ({ st with rx := rx, accepted := st.accepted ++ st.placed (gap + 1) n }, [])
  | .advance =>
    let rx := st.rx.sackRxAdvanceFromScoreboard
    some ({ st with rx := rx, pos := st.pos + (rx.rcvNxt - st.rx.rcvNxt).toNat }, [])
  | .read len => do
    let (b, out) ← st.rx.receiveBuffer.read len
    some ({ st with
      rx := { st.rx with receiveBuffer := b }
      returned := st.returned ++ out }, out)

/-- **Buffer safety**: the counters bound the ring, every accepted position that has not been read
is still in the cell it was stored in, and the reads returned a prefix of the stream. -/
structure Safe (s : Nat → α) (st : Reassembly α) : Prop where
  size_le : st.rx.receiveBuffer.size ≤ st.rx.receiveBuffer.occupied
  occupied_le : st.rx.receiveBuffer.occupied ≤ st.rx.receiveBuffer.capacity
  unread : ∀ e ∈ st.accepted, st.returned.length ≤ e.1 →
    st.rx.receiveBuffer.data[e.2]? = some (s e.1)
  returned : st.returned = slice s 0 st.returned.length

def StepOk (st : Reassembly α) : RxCall → Prop
  | .write len => min len st.rx.receiveBuffer.capacity ≤ 2 ^ 30 ∧ NoStaleRange st.rx
  | .writeAt len => Fits st.rx 0 len ∧ NoStaleRange st.rx
  | .outOfOrder gap len => Fits st.rx (gap + 1) len ∧ NoStaleRange st.rx
  | .advance => NoStaleRange st.rx
  | .read _ => True

instance (st : Reassembly α) : (call : RxCall) → Decidable (StepOk st call)
  | .write _ => inferInstanceAs (Decidable (_ ∧ _))
  | .writeAt _ => inferInstanceAs (Decidable (_ ∧ _))
  | .outOfOrder _ _ => inferInstanceAs (Decidable (_ ∧ _))
  | .advance => inferInstanceAs (Decidable (NoStaleRange st.rx))
  | .read _ => inferInstanceAs (Decidable True)

/-- The invariant of a guarded run. -/
structure Inv (s : Nat → α) (base : SeqNum) (cap : Nat) (st : Reassembly α) : Prop where
  rx : ReceiverOk s base cap (fun _ => True) st.returned.length st.pos (st.pos - 2 ^ 31)
    (st.pos + 2 ^ 30) st.rx
  accepted : ∀ e ∈ st.accepted, e.2 = e.1 % cap ∧
    Kept s st.returned.length st.rx.receiveBuffer e.1
  returned : st.returned = slice s 0 st.returned.length

section Step

variable {s : Nat → α} {base : SeqNum} {cap : Nat} {st : Reassembly α}

section

variable (h : Inv s base cap st)
include h

theorem Inv.mem_placed {off n : Nat} {e : Nat × Nat} (he : e ∈ st.placed off n) :
    e.2 = e.1 % cap ∧ st.pos + off ≤ e.1 ∧ e.1 < st.pos + off + n := by
  simp only [placed, List.mem_map, List.mem_range] at he
  obtain ⟨i, hi, rfl⟩ := he
  refine ⟨?_, by dsimp only; omega, by dsimp only; omega⟩
  dsimp only
  rw [h.rx.ring.head, TcpReceiveBuffer.capacity, h.rx.ring.length_data, Nat.add_assoc,
    Nat.mod_add_mod, Nat.add_assoc]

/-- An in-order write that took `n` bytes keeps the invariant. -/
theorem Inv.advanceBy (hn : NoStaleRange st.rx) {n : Nat} (hle : n ≤ 2 ^ 30)
    {b : TcpReceiveBuffer α} (hb : RingOk s cap st.returned.length (st.pos + n) b)
    (hkeep : ∀ p, Kept s st.returned.length st.rx.receiveBuffer p → Kept s st.returned.length b p) :
    Inv s base cap (st.advanceBy b n) := by
  refine ⟨?_, ?_, h.returned⟩
  · apply ((h.rx.near hn).inOrder hb hkeep fun _ _ _ => trivial).mono
    · show st.pos + n - 2 ^ 31 ≤ st.pos - 2 ^ 30
      omega
    show st.pos + 2 ^ 30 ≤ st.pos + n + 2 ^ 30
    omega
  intro e he
  rcases List.mem_append.mp he with he | he
  · exact ⟨(h.accepted e he).1, hkeep _ (h.accepted e he).2⟩
  obtain ⟨hcell, h1, h2⟩ := h.mem_placed he
  refine ⟨hcell, ?_, fun hc => hb.holds _ hc (by omega)⟩
  show e.1 < st.returned.length + b.data.length
  have := hb.size
  have := hb.size_le
  have := hb.occupied_le
  have := hb.length_data
  omega

theorem Inv.write {len : Nat} (hok : StepOk st (.write len)) :
    ∃ st' o, step s st (.write len) = some (st', o) ∧ Inv s base cap st' := by
  obtain ⟨b, hb, hring, hkeep⟩ := h.rx.ring.write len
  have hcap : st.rx.receiveBuffer.capacity = cap := h.rx.ring.length_data
  have hlen := hok.1
  rw [hcap] at hlen
  exact ⟨_, _, bind_of_eq_some hb, h.advanceBy hok.2 (by omega) hring hkeep⟩

theorem Inv.writeAt (hu : cap ≤ usizeMax) {len : Nat} (hok : StepOk st (.writeAt len)) :
    ∃ st' o, step s st (.writeAt len) = some (st', o) ∧ Inv s base cap st' := by
  have hcap : st.rx.receiveBuffer.capacity = cap := h.rx.ring.length_data
  have hfit := hok.1.2
  simp only [hcap] at hfit
  obtain ⟨b, hb, hring, hkeep, -⟩ :=
    h.rx.ring.writeAt base hu 0 len (by omega) (by omega)
  rw [Nat.add_zero, ← h.rx.board.rcvNxt] at hb
  rw [if_pos rfl] at hring
  exact ⟨_, _, bind_of_eq_some hb, h.advanceBy hok.2 (by omega) hring hkeep⟩

theorem Inv.outOfOrder (hu : cap ≤ usizeMax) {gap len : Nat} (hok : StepOk st (.outOfOrder gap len))
    :
    ∃ st' o, step s st (.outOfOrder gap len) = some (st', o) ∧ Inv s base cap st' := by
  have hcap : st.rx.receiveBuffer.capacity = cap := h.rx.ring.length_data
  obtain ⟨⟨hoff, hfit⟩, hstale⟩ := hok
  simp only [hcap] at hfit
  obtain ⟨rx', hrun, hrx', hkeep, hnew⟩ :=
    (h.rx.near hstale).sackReceiveOutOfOrder hu (by omega) (gap + 1) len (by omega)
      hoff (by omega) (by omega) fun _ _ _ => trivial
  obtain ⟨b, hb, -⟩ :=
    h.rx.ring.writeAt base hu (gap + 1) len hoff (by omega)
  rw [← SeqNum.pos_add, ← h.rx.board.rcvNxt] at hb hrun
  refine ⟨_, _, (bind_of_eq_some hb).trans (bind_of_eq_some hrun),
    hrx'.mono (by dsimp only; omega) (by dsimp only; omega), ?_, h.returned⟩
  intro e he
  rcases List.mem_append.mp he with he | he
  · exact ⟨(h.accepted e he).1, hkeep _ (h.accepted e he).2⟩
  obtain ⟨hcell, h1, h2⟩ := h.mem_placed he
  exact ⟨hcell, hnew _ h1 h2⟩

theorem Inv.advance (hok : StepOk st .advance) :
    ∃ st' o, step s st .advance = some (st', o) ∧ Inv s base cap st' := by
  obtain ⟨pos', h1, h2, h3, h4⟩ := (h.rx.near hok).advance (by omega) (by omega) (by omega)
  have hpos : st.pos + (st.rx.sackRxAdvanceFromScoreboard.rcvNxt - st.rx.rcvNxt).toNat = pos' := by
    rw [h3.board.rcvNxt, h.rx.board.rcvNxt, SeqNum.toNat_pos_sub base h1 (by omega)]
    omega
  refine ⟨_, _, rfl, ?_, ?_, h.returned⟩
  · dsimp only
    rw [hpos]
    exact h3.mono (by omega) (by omega)
  · intro e he
    exact ⟨(h.accepted e he).1, h4 _ (h.accepted e he).2⟩

theorem Inv.read (len : Nat) :
    ∃ st' o, step s st (.read len) = some (st', o) ∧ Inv s base cap st' := by
  obtain ⟨b, hb, hrx, hkeep⟩ := h.rx.read len
  generalize min len st.rx.receiveBuffer.size = m at *
  have hlen : (st.returned ++ slice s st.returned.length m).length = st.returned.length + m := by
    simp
  refine ⟨_, _, bind_of_eq_some hb, ?_, ?_, ?_⟩
  · rw [hlen]
    exact hrx
  · intro e he
    rw [hlen]
    exact ⟨(h.accepted e he).1, hkeep _ (h.accepted e he).2⟩
  · rw [hlen]
    conv_lhs => rw [h.returned]
    simpa using slice_append s 0 st.returned.length m

end

theorem step_inv (hu : cap ≤ usizeMax) (h : Inv s base cap st) {call : RxCall}
    (hok : StepOk st call) :
    ∃ st' o, step s st call = some (st', o) ∧ Inv s base cap st' := by
  cases call with
  | write len => exact h.write hok
  | writeAt len => exact h.writeAt hu hok
  | outOfOrder gap len => exact h.outOfOrder hu hok
  | advance => exact h.advance hok
  | read len => exact h.read len

theorem inv_new [Zero α] (s : Nat → α) (base : SeqNum) (cap : Nat) :
    Inv s base cap (new base cap) := by
  refine ⟨receiverOk_new s base cap _ _ _, ?_, rfl⟩
  intro e he
  exact absurd he (by simp [new])

theorem Inv.safe (h : Inv s base cap st) : Safe s st := by
  refine ⟨h.rx.ring.size_le, ?_, ?_, h.returned⟩
  · rw [TcpReceiveBuffer.capacity, h.rx.ring.length_data]
    exact h.rx.ring.occupied_le
  intro e he hread
  obtain ⟨hcell, hkept⟩ := h.accepted e he
  have hold := hkept.2 hread
  rw [Holds, h.rx.ring.length_data] at hold
  rw [hcell]
  exact hold

end Step

/-- **Reassembly is safe** in every run whose calls fit: no call panics and every state reached
is safe. -/
theorem run_safe [Zero α] (s : Nat → α) (base : SeqNum) (cap : Nat) (hcap : cap ≤ usizeMax)
    (calls : List RxCall) (hok : Guarded (step s) StepOk (new base cap) calls) :
    ∃ st outs, run (step s) (new base cap) calls = some (st, outs) ∧ Safe s st := by
  obtain ⟨st, outs, hrun, hinv⟩ :=
    run_inv (fun st call h hok => step_inv hcap h hok) (inv_new s base cap) hok
  exact ⟨st, outs, hrun, hinv.safe⟩

/-- A run over the end of the sequence space, with a hole that is filled and a write over the end
of the ring. -/
theorem run_safe_hole :
    ∃ st outs, run (step fun p => p) (new (0xFFFFFFFE#32) 8)
      [.outOfOrder 1 2, .writeAt 2, .advance, .read 3, .outOfOrder 2 2, .writeAt 3, .advance,
        .read 20] = some (st, outs) ∧ Safe (fun p => p) st :=
  run_safe (fun p => p) _ 8 (by decide) _ (by decide)

/-- A full ring takes a byte out of order and loses an unread one: cell 1 holds position 5 where
position 1 was stored. -/
theorem outOfOrder_overwrites_unread :
    ∃ st outs, run (step fun p => p) (new 0 4) [.writeAt 4, .outOfOrder 0 1] = some (st, outs) ∧
      ¬ Safe (fun p => p) st := by
  refine ⟨_, _, rfl, ?_⟩
  intro h
  have hcell := h.unread (1, 1) (by decide) (by decide)
  exact absurd hcell (by decide)

end Reassembly
end Moose.Tcp
