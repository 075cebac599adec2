import Moose.Tcp.SendSide

/-!
# Draining the send buffer

`process_send_queue` as a loop of rounds, each with its own reading of the clock: it comes to its
return, and what it sends is the front of the send buffer, cut into segments that the windows have
room for. Every round but the last takes at least one byte from the buffer, so one round more than
the buffer has bytes is fuel enough.
-/

set_option autoImplicit false

namespace Moose.Tcp

open List

/-- The segments follow each other from sequence number `seq` on. -/
def SentCore.Consecutive : SeqNum → List SentCore → Prop
  | _, [] => True
  | seq, e :: es => e.seq = seq ∧ Consecutive (seq + BitVec.ofNat 32 e.data.length) es

namespace TcpControlBlock

/-- The rounds of `process_send_queue`: the block after each segment that went out, and the block at
the return. `none` says that the loop is still running after `fuel` rounds. -/
def sendRounds : Nat → (Nat → Instant) → TcpControlBlock →
    Option (List TcpControlBlock × TcpControlBlock)
  | 0, _, _ => none
  | fuel + 1, clock, t =>
    match t.sendRound (clock 0) with
    | (t, true) => (sendRounds fuel (fun i => clock (i + 1)) t).map fun r => (t :: r.1, r.2)
    | (t, false) => some ([], t)

/-- The segments `out` took the block from `t` to `t'`; `blocks` are the blocks right after each of
them. -/
structure Drained (t : TcpControlBlock) (out : List SentCore) (blocks : List TcpControlBlock)
    (t' : TcpControlBlock) : Prop where
  queue : t'.sndView.queue = t.sndView.queue ++ out
  each : out.length = blocks.length
  bytes : SentCore.bytes out ++ t'.snd.sendBuffer = t.snd.sendBuffer
  sizes : ∀ e ∈ out, 1 ≤ e.data.length ∧ e.data.length ≤ t.neg.effectiveMss
  consecutive : SentCore.Consecutive t.snd.nxt out
  room : ∀ u ∈ blocks, u.flightSizeBytes ≤ min t.cc.cwnd t.snd.wnd

variable {t t1 t' : TcpControlBlock} {out : List SentCore} {blocks : List TcpControlBlock}
  {now : Instant}

/-- A round that sends nothing. -/
theorem Drained.of_sndView (h : t'.sndView = t.sndView) : Drained t [] [] t' where
  queue := by rw [h, append_nil]
  each := rfl
  bytes := congrArg SndView.sendBuffer h
  sizes := fun _ he => absurd he not_mem_nil
  consecutive := trivial
  room := fun _ hu => absurd hu not_mem_nil

/-- A round that sends `n` bytes, before the others. -/
theorem Drained.cons {n : Nat} {flags : Flags} (hround : t1.sndView = t.sndView.push n flags)
    (hsteer : t1.steering = t.steering) (hpos : 0 < n) (hlen : n ≤ t.snd.sendBuffer.length)
    (hmss : n ≤ t.neg.effectiveMss) (hroom : t.flightSizeBytes + n ≤ min t.cc.cwnd t.snd.wnd)
    (h : Drained t1 out blocks t') :
    Drained t (⟨t.snd.nxt, t.snd.sendBuffer.take n, flags⟩ :: out) (t1 :: blocks) t' := by
  have hnxt : t1.snd.nxt = t.snd.nxt + BitVec.ofNat 32 n := congrArg SndView.nxt hround
  have huna : t1.snd.una = t.snd.una := congrArg SndView.una hround
  have hwnd : t1.snd.wnd = t.snd.wnd := congrArg SndView.wnd hround
  have hbuffer : t1.snd.sendBuffer = t.snd.sendBuffer.drop n :=
    congrArg SndView.sendBuffer hround
  have hcwnd : t1.cc.cwnd = t.cc.cwnd := congrArg Steering.cwnd hsteer
  have heff : t1.neg.effectiveMss = t.neg.effectiveMss := congrArg Steering.effectiveMss hsteer
  have htake : (t.snd.sendBuffer.take n).length = n := length_take_of_le hlen
  refine ⟨?_, congrArg (· + 1) h.each, ?_, ?_, ⟨rfl, ?_⟩, ?_⟩
  · rw [h.queue, hround]
    exact append_assoc _ _ _
  · calc SentCore.bytes (⟨t.snd.nxt, t.snd.sendBuffer.take n, flags⟩ :: out) ++ t'.snd.sendBuffer
        = t.snd.sendBuffer.take n ++ (SentCore.bytes out ++ t'.snd.sendBuffer) :=
          append_assoc _ _ _
      _ = t.snd.sendBuffer.take n ++ t.snd.sendBuffer.drop n := by rw [h.bytes, hbuffer]
      _ = t.snd.sendBuffer := take_append_drop _ _
  · refine forall_mem_cons.mpr ⟨?_, heff ▸ h.sizes⟩
    rw [htake]
    exact ⟨hpos, hmss⟩
  · rw [htake, ← hnxt]
    exact h.consecutive
  · -- the sequence numbers wrap, which only makes the difference smaller
    have hflight : t1.flightSizeBytes ≤ t.flightSizeBytes + n := by
      unfold flightSizeBytes
      have hcomm : t.snd.nxt + BitVec.ofNat 32 n - t.snd.una =
          t.snd.nxt - t.snd.una + BitVec.ofNat 32 n := by bv_omega
      rw [hnxt, huna, hcomm, BitVec.toNat_add, BitVec.toNat_ofNat]
      exact Nat.le_trans (Nat.mod_le _ _) (Nat.add_le_add_left (Nat.mod_le _ _) _)
    exact forall_mem_cons.mpr ⟨Nat.le_trans hflight hroom, hcwnd ▸ hwnd ▸ h.room⟩

theorem sendRounds_drained (fuel : Nat) (clock : Nat → Instant) (t : TcpControlBlock)
    (hfuel : t.snd.sendBuffer.length < fuel) :
    ∃ out blocks t', sendRounds fuel clock t = some (blocks, t') ∧ Drained t out blocks t' := by
  -- every round that goes on takes a byte off the buffer
  induction fuel generalizing clock t with
  | zero => exact absurd hfuel (Nat.not_lt_zero _)
  | succ fuel ih =>
    have hround := t.sndView_sendRound (clock 0)
    have hquiet : Quiet t (t.sendRound (clock 0)).1 := pushes_sendRound.sends.quiet
    unfold sendRounds
    rcases hsend : t.sendRound (clock 0) with ⟨t1, sent⟩
    rw [hsend] at hround hquiet
    rcases hround with ⟨hsent, hview⟩ | ⟨hsent, n, flags, -, -, hpos, hlen, hmss, hroom, hview⟩
    · subst hsent
      exact ⟨[], [], t1, rfl, .of_sndView hview⟩
    subst hsent
    have hbuffer : t1.snd.sendBuffer = t.snd.sendBuffer.drop n :=
      congrArg SndView.sendBuffer hview
    have hlen' : n ≤ t.snd.sendBuffer.length := hlen
    have hfewer : t1.snd.sendBuffer.length < fuel := by
      rw [hbuffer, length_drop]
      omega
    obtain ⟨out, blocks, t', hrest, hdrained⟩ := ih (fun i => clock (i + 1)) t1 hfewer
    refine ⟨_, t1 :: blocks, t', ?_, hdrained.cons hview hquiet.steering hpos hlen hmss hroom⟩
    dsimp only
    rw [hrest]
    rfl

/-- With the clock standing still the rounds are those of `sendLoop`. -/
theorem sendLoop_of_sendRounds (fuel : Nat) (t : TcpControlBlock)
    (h : sendRounds fuel (fun _ => now) t = some (blocks, t')) : sendLoop now fuel t = t' := by
  induction fuel generalizing t blocks with
  | zero => cases h
  | succ fuel ih =>
    unfold sendRounds at h
    unfold sendLoop
    rcases hsend : t.sendRound now with ⟨t1, sent⟩
    rw [hsend] at h
    cases sent with
    | false =>
      cases h
      rfl
    | true =>
      simp only [Option.map_eq_some_iff, Prod.mk.injEq] at h
      obtain ⟨r, hrest, -, rfl⟩ := h
      exact ih t1 hrest

/-- **The send loop returns and loses nothing.** Whatever the clock shows in its rounds, it comes to
its return; the segments it queued carry the front of the send buffer in order, from 1 byte to an
MSS each and one after the other from the old SND.NXT on, and after each of them both windows still
cover what is in flight. -/
theorem processSendQueue_drains (clock : Nat → Instant) (t : TcpControlBlock) :
    ∃ out blocks t', sendRounds (t.snd.sendBuffer.length + 1) clock t = some (blocks, t') ∧
      Drained t out blocks t' ∧ ∀ now, (∀ i, clock i = now) → t.processSendQueue now = t' := by
  obtain ⟨out, blocks, t', hrounds, hdrained⟩ :=
    sendRounds_drained (t.snd.sendBuffer.length + 1) clock t (Nat.lt_succ_self _)
  refine ⟨out, blocks, t', hrounds, hdrained, fun now hnow => ?_⟩
  rw [show clock = fun _ => now from funext hnow] at hrounds
  exact sendLoop_of_sendRounds _ t hrounds

end TcpControlBlock
end Moose.Tcp
