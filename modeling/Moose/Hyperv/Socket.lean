import Moose.Hyperv.Channel

/-!
# Sockets over VMBus

`integration/socket.rs`: a byte stream over a channel. A write puts a pipe header in front of the
payload and sends both as one packet; the interrupt handler of the other side takes packets out of
the ring and appends their payloads to a buffer, which `read` empties. A frame without a payload
stands for the end of the stream.

Modelled is one direction between two endpoints: the writing side, the channel of `Hyperv.Channel`,
and the reading side. A call that copies is split into the steps of the channel, so the reading side
may run in between. The ring of a socket has four pages, far below what the length field of a packet
holds; a payload that does not fit the field does not fit the ring. `none` is a panic or a page
fault.

The reading side does not go round the end of the ring as the host does: `VmBusChannel::read` takes
the descriptor and the payload as slices of memory, and a packet that wraps is read from whatever is
mapped behind the ring. But no run keeps the promise of a stream socket, with or without such a
packet: `close` marks the socket as closed before it sends the empty frame, and a closed socket
sends nothing; and `write` counts the header.
-/

set_option autoImplicit false

namespace Moose.Hyperv

open List Lib

/-! ## The code -/

inductive SocketState where
  | idle | connecting | connected | listening | closed
  deriving DecidableEq

/-- The payload behind its `VmBusPipeHeader`: message type `Data`, and the length in 32 bits. -/
def pipeFrame (payload : List UInt8) : List UInt8 :=
  toLe 4 1 ++ (toLe 4 payload.length ++ payload)

/-- What the reading side keeps of `VmBusSocketState`. -/
structure Receiver where
  state : SocketState := .connected
  rxBuf : List UInt8 := []
  peerDisconnected : Bool := false

inductive ReadResult where
  | ok (bytes : List UInt8)
  /-- `connection closed by remote` -/
  | endOfStream
  /-- `read() on closed socket` -/
  | closedSocket
  /-- The caller waits for the next event. -/
  | waits
  deriving DecidableEq

namespace Receiver

/-- `read` with a buffer of `n` bytes, up to its first wait. -/
def read (r : Receiver) (n : Nat) : Receiver × ReadResult :=
  if r.state = .closed then (r, .closedSocket)
  else if r.rxBuf ≠ [] then
    ({ r with rxBuf := r.rxBuf.drop n }, .ok (r.rxBuf.take n))
  else if r.peerDisconnected then ({ r with state := .closed }, .endOfStream)
  else (r, .waits)

/-- The frame at the pointer `data`, in `process_incoming_data`: the bytes are taken from where the
frame says they are, whatever the length of the packet. -/
def processFrame (r : Receiver) (memory : List UInt8) (data : Nat) : Option Receiver := do
  let header ← Cells.copyFrom memory data 8
  let messageType := ofLe (header.take 4)
  let size := ofLe (header.drop 4)
  if size = 0 then some { r with peerDisconnected := true }
  else if messageType = 1 then do
    let bytes ← Cells.copyFrom memory (data + 8) size
    some { r with rxBuf := r.rxBuf ++ bytes }
  else none

end Receiver

/-- `VmBusChannel::read` behind its check for data: the descriptor at the read index and the pointer
to the payload. The memory begins with the ring, and what follows is read without a check. -/
def VmBusChannel.read (memory : List UInt8) (readOffset : Nat) :
    Option (VmBusNormalPacketHeader × Nat) := do
  let header := VmBusNormalPacketHeader.decode (← Cells.copyFrom memory readOffset 16)
  -- `VmBusPacketType::from`
  if 13 < header.packetType then none
  -- `VmBusXferPageHeader` has 104 bytes
  else if header.packetType = 7 ∧ Cells.copyFrom memory readOffset 104 = none then none
  -- `packet_len_qword * 8 - header_size`
  else if header.packetLenQword < header.headerLenQword then none
  else some (header, readOffset + 8 * header.headerLenQword.toNat)

/-- Two endpoints and the ring between them. -/
structure SocketPair where
  state : SocketState
  nextXid : UInt64
  /-- The argument of the running call of `write`. -/
  writing : Option (List UInt8)
  channel : VmBusChannel
  /-- What is mapped behind the ring on the reading side. -/
  behind : List UInt8
  receiver : Receiver

namespace SocketPair

inductive Action where
  | write (payload : List UInt8)
  /-- The running call of `write` takes its next step. -/
  | goOn
  | close
  /-- The interrupt handler of the reading side takes one packet. -/
  | processIncomingData
  | read (n : Nat)

inductive Out where
  /-- The call is on its way. -/
  | started
  /-- `write() on closed socket` -/
  | refused
  /-- A call of `write` came back with a count. -/
  | wrote (payload : List UInt8) (count : Nat)
  | closed
  | done
  | read (result : ReadResult)
  deriving DecidableEq

def FrameFits (payload : List UInt8) : Prop :=
  16 + 0 + ((pipeFrame payload).length + (8 - (pipeFrame payload).length % 8) % 8) < 512 * 1024

instance (payload : List UInt8) : Decidable (FrameFits payload) :=
  inferInstanceAs (Decidable (_ < _))

/-- The arguments of `send_raw`: a plain descriptor for in-band data without a completion. -/
def outgoing (xid : UInt64) (payload : List UInt8) (fits : FrameFits payload) : Outgoing where
  header := ⟨6, 2, 0, 0, xid⟩
  tail := []
  payload := pipeFrame payload
  header_len := Eq.refl (nat_lit 16)
  fits := fits

/-- `write` up to the first copy of `send_packet`. -/
def write (s : SocketPair) (payload : List UInt8) : Option (SocketPair × Out) :=
  if s.state = .closed then some (s, .refused)
  else if fits : FrameFits payload then
    match s.channel.step (.sendRaw (outgoing s.nextXid payload fits)) with
    | some (channel, .accepted) =>
      some ({ s with channel := channel, nextXid := s.nextXid + 1, writing := some payload },
        .started)
    | _ => none
  else none

/-- The empty frame is sent by a socket that is closed already. -/
def close (s : SocketPair) : Option SocketPair :=
  if s.state = .closed then some s
  else ({ s with state := .closed } : SocketPair).write [] |>.map (·.1)

/-- A caller does one thing after the other, so nothing but `goOn` happens on the writing side while
a call of `write` runs. -/
def step (s : SocketPair) : Action → Option (SocketPair × Out)
  | .write payload => if s.writing = none then s.write payload else some (s, .done)
  | .goOn =>
    match s.writing, s.channel.step .goOn with
    | none, _ => some (s, .done)
    | some payload, some (channel, .returned) =>
      some ({ s with channel := channel, writing := none },
        .wrote payload (pipeFrame payload).length)
    | some _, some (channel, _) => some ({ s with channel := channel }, .done)
    | some _, none => none
  | .close => if s.writing = none then s.close.map (·, .closed) else some (s, .done)
  | .processIncomingData =>
    let rx := s.channel.tx
    if rx.readOffset = rx.writeOffset then some (s, .done)
    else do
      let (header, data) ← VmBusChannel.read (rx.data ++ s.behind) rx.readOffset
      let receiver ← s.receiver.processFrame (rx.data ++ s.behind) data
      some ({ s with channel := s.channel.advanceReadIndex header, receiver := receiver }, .done)
  | .read n =>
    let r := s.receiver.read n
    some ({ s with receiver := r.1 }, .read r.2)

/-- Two endpoints right after the connection. -/
structure Fresh (s : SocketPair) : Prop where
  state : s.state = .connected
  writing : s.writing = none
  ring : s.channel.Empty
  receiver : s.receiver = {}

/-! ## The promise of a stream socket -/

/-- The bytes that the reads gave, in order. -/
def received (outs : List Out) : List UInt8 :=
  outs.flatMap fun
    | .read (.ok bytes) => bytes
    | _ => []

/-- The payloads of the writes that came back, in order. -/
def written (outs : List Out) : List (List UInt8) :=
  outs.filterMap fun
    | .wrote payload _ => some payload
    | _ => none

/-- What a stream socket promises, at the end of a run: the payloads arrived in order, the end of
the stream was reported or the next read reports it, and every write counted its payload. -/
structure StreamLaw (s : SocketPair) (outs : List Out) : Prop where
  data : received outs = (written outs).flatten
  ending : Out.read .endOfStream ∈ outs ∨ ∀ n, (s.receiver.read n).2 = .endOfStream
  counts : ∀ payload count, Out.wrote payload count ∈ outs → count = payload.length

theorem length_pipeFrame (payload : List UInt8) :
    (pipeFrame payload).length = payload.length + 8 := by
  simp [pipeFrame]
  omega

/-! ## What every run keeps -/

/-- The reading side has not heard of an end. -/
structure Open (past : List Out) (s : SocketPair) : Prop where
  state : s.receiver.state ≠ .closed
  connected : s.receiver.peerDisconnected = false
  unfinished : Out.read .endOfStream ∉ past
  ring : s.channel.tx.readOffset = s.channel.tx.writeOffset

/-- Every write that came back counted eight bytes too many; and as long as none has, the ring is
empty, and the reading side waits. -/
structure Inv (past : List Out) (s : SocketPair) : Prop where
  counts : ∀ payload count, Out.wrote payload count ∈ past → count = payload.length + 8
  waits : (∀ payload count, Out.wrote payload count ∉ past) → Open past s

variable {past : List Out} {s s' : SocketPair} {o : Out}

/-- A step that is neither a write that comes back nor the end of the stream. -/
theorem Inv.snoc (h : Inv past s) (hwrote : ∀ payload count, o ≠ .wrote payload count)
    (hopen : Open past s → o ≠ .read .endOfStream ∧ s'.receiver.state ≠ .closed ∧
      s'.receiver.peerDisconnected = false ∧
      s'.channel.tx.readOffset = s'.channel.tx.writeOffset) : Inv (past ++ [o]) s' where
  counts payload count hmem := by
    rw [mem_append, mem_singleton] at hmem
    rcases hmem with hmem | hmem
    · exact h.counts payload count hmem
    · exact absurd hmem.symm (hwrote payload count)
  waits hnone := by
    have hpast : Open past s := h.waits fun payload count hmem =>
      hnone payload count (mem_append_left _ hmem)
    obtain ⟨ho, hstate, hconnected, hring⟩ := hopen hpast
    refine ⟨hstate, hconnected, ?_, hring⟩
    rw [mem_append, mem_singleton, not_or]
    exact ⟨hpast.unfinished, ho.symm⟩

/-- A call of `send_raw` starts without a change to the ring. -/
theorem tx_sendRaw {c c' : VmBusChannel} {p : Outgoing} {out : VmBusChannel.Out}
    (hs : c.step (.sendRaw p) = some (c', out)) : c'.tx = c.tx := by
  simp only [VmBusChannel.step] at hs
  split at hs
  · cases hs
    rfl
  split at hs
  · cases hs
    rfl
  next hbegin =>
    cases hs
    obtain ⟨-, hbegin⟩ := Option.ite_none_left_eq_some.mp hbegin
    obtain ⟨-, hbegin⟩ := Option.ite_none_right_eq_some.mp hbegin
    cases hbegin
    rfl

/-- The writing side moves the write index last, when the call comes back. -/
theorem channel_goOn {c c' : VmBusChannel} {out : VmBusChannel.Out}
    (hs : c.step .goOn = some (c', out)) (hout : out ≠ .returned) :
    c'.tx.readOffset = c.tx.readOffset ∧ c'.tx.writeOffset = c.tx.writeOffset := by
  unfold VmBusChannel.step at hs
  cases hsender : c.sender with
  | idle =>
    simp only [hsender] at hs
    cases hs
    exact ⟨rfl, rfl⟩
  | sending segments offset =>
    cases segments with
    | nil =>
      simp only [hsender] at hs
      cases hs
      exact absurd rfl hout
    | cons bytes rest =>
      simp only [hsender] at hs
      obtain ⟨⟨tx, offset'⟩, hsend, hs⟩ := bind_eq_some.mp hs
      cases hs
      obtain ⟨data, -, htx⟩ := bind_eq_some.mp hsend
      cases htx
      exact ⟨rfl, rfl⟩

theorem Inv.write (h : Inv past s) {payload : List UInt8}
    (hs : s.write payload = some (s', o)) : Inv (past ++ [o]) s' := by
  unfold SocketPair.write at hs
  split at hs
  · cases hs
    exact h.snoc nofun fun hopen => ⟨nofun, hopen.state, hopen.connected, hopen.ring⟩
  split at hs
  next fits =>
    cases hstep : s.channel.step (.sendRaw (outgoing s.nextXid payload fits)) with
    | none => simp [hstep] at hs
    | some r =>
      obtain ⟨channel, out⟩ := r
      simp only [hstep] at hs
      split at hs
      next hr =>
        cases hs
        cases hr
        refine h.snoc nofun fun hopen => ⟨nofun, hopen.state, hopen.connected, ?_⟩
        rw [tx_sendRaw hstep]
        exact hopen.ring
      · cases hs
  · cases hs

theorem Inv.goOn (h : Inv past s) (hs : s.step .goOn = some (s', o)) : Inv (past ++ [o]) s' := by
  unfold SocketPair.step at hs
  have hsame : Open past s → Out.done ≠ .read .endOfStream ∧ s.receiver.state ≠ .closed ∧
      s.receiver.peerDisconnected = false ∧
      s.channel.tx.readOffset = s.channel.tx.writeOffset :=
    fun hopen => ⟨nofun, hopen.state, hopen.connected, hopen.ring⟩
  cases hw : s.writing with
  | none =>
    simp only [hw] at hs
    cases hs
    exact h.snoc nofun hsame
  | some payload =>
    cases hstep : s.channel.step .goOn with
    | none => simp [hw, hstep] at hs
    | some r =>
      obtain ⟨channel, out⟩ := r
      by_cases hout : out = .returned
      · subst hout
        simp only [hw, hstep] at hs
        cases hs
        refine ⟨fun payload' count hmem => ?_, fun hnone => ?_⟩
        · rw [mem_append, mem_singleton] at hmem
          rcases hmem with hmem | hmem
          · exact h.counts payload' count hmem
          · cases hmem
            exact length_pipeFrame payload
        · exact absurd (mem_append_right _ mem_cons_self) (hnone payload _)
      · have hs' : s' = { s with channel := channel } ∧ o = .done := by
          cases out <;> simp_all
        obtain ⟨rfl, rfl⟩ := hs'
        obtain ⟨hread, hwrite⟩ := channel_goOn hstep hout
        refine h.snoc nofun fun hopen => ⟨nofun, hopen.state, hopen.connected, ?_⟩
        rw [hread, hwrite]
        exact hopen.ring

theorem Inv.processIncomingData (h : Inv past s)
    (hs : s.step .processIncomingData = some (s', o)) : Inv (past ++ [o]) s' := by
  simp only [SocketPair.step] at hs
  split at hs
  · cases hs
    exact h.snoc nofun fun hopen => ⟨nofun, hopen.state, hopen.connected, hopen.ring⟩
  next hne =>
    obtain ⟨⟨header, data⟩, -, hs⟩ := bind_eq_some.mp hs
    obtain ⟨receiver, -, hs⟩ := bind_eq_some.mp hs
    cases hs
    exact h.snoc nofun fun hopen => absurd hopen.ring hne

theorem Inv.read (h : Inv past s) (k : Nat) (hs : s.step (.read k) = some (s', o)) :
    Inv (past ++ [o]) s' := by
  cases hs
  refine h.snoc nofun fun hopen => ?_
  simp only [Receiver.read, if_neg hopen.state, hopen.connected, Bool.false_eq_true, if_false]
  split
  · exact ⟨nofun, hopen.state, rfl, hopen.ring⟩
  · exact ⟨nofun, hopen.state, hopen.connected, hopen.ring⟩

theorem Inv.step {c : Action} (h : Inv past s) (hs : s.step c = some (s', o)) :
    Inv (past ++ [o]) s' := by
  have hsame : Open past s → Out.done ≠ .read .endOfStream ∧ s.receiver.state ≠ .closed ∧
      s.receiver.peerDisconnected = false ∧
      s.channel.tx.readOffset = s.channel.tx.writeOffset :=
    fun hopen => ⟨nofun, hopen.state, hopen.connected, hopen.ring⟩
  cases c with
  | write payload =>
    simp only [SocketPair.step] at hs
    split at hs
    · exact h.write hs
    · cases hs
      exact h.snoc nofun hsame
  | goOn => exact h.goOn hs
  | close =>
    simp only [SocketPair.step] at hs
    split at hs
    · obtain ⟨s1, hclose, hs1⟩ := Option.map_eq_some_iff.mp hs
      cases hs1
      unfold SocketPair.close at hclose
      split at hclose
      -- the socket is closed by the time it writes the empty frame, which is refused
      all_goals
        cases hclose
        exact h.snoc nofun fun hopen => ⟨nofun, hopen.state, hopen.connected, hopen.ring⟩
    · cases hs
      exact h.snoc nofun hsame
  | processIncomingData => exact h.processIncomingData hs
  | read k => exact h.read k hs

theorem Fresh.inv (h : s.Fresh) : Inv [] s where
  counts _ _ hmem := absurd hmem not_mem_nil
  waits _ := by
    refine ⟨?_, ?_, not_mem_nil, h.ring.indices.symm⟩ <;> rw [h.receiver]
    decide

/-- **The promise is never kept**: however the calls of the two sides are interleaved, wherever the
packets lie in the ring and whatever is mapped behind it, no write counted its payload; and without
a write the peer of a closed socket waits for ever. -/
theorem run_not_streamLaw (h : s.Fresh) {as : List Action} {outs : List Out}
    (hrun : run step s as = some (s', outs)) :
    (∀ payload count, Out.wrote payload count ∈ outs → count ≠ payload.length) ∧
      ¬ StreamLaw s' outs := by
  have hstep : ∀ (past : List Out) (t : SocketPair) (c : Action) (t' : SocketPair) (o : Out),
      Inv past t → True → t.step c = some (t', o) → Inv (past ++ [o]) t' :=
    fun _ _ _ _ _ ht _ hs => ht.step hs
  have hinv : Inv outs s' := run_history hstep h.inv (guarded_of_mem (fun _ _ => trivial) s) hrun
  have hcounts : ∀ payload count, Out.wrote payload count ∈ outs → count ≠ payload.length := by
    intro payload count hmem
    rw [hinv.counts payload count hmem]
    omega
  refine ⟨hcounts, fun hlaw => ?_⟩
  have hopen : Open outs s' :=
    hinv.waits fun payload count hmem => hcounts payload count hmem (hlaw.counts payload count hmem)
  rcases hlaw.ending with hmem | hread
  · exact hopen.unfinished hmem
  have hnext := hread 1
  simp only [Receiver.read, if_neg hopen.state, hopen.connected, Bool.false_eq_true,
    if_false] at hnext
  split at hnext <;> cases hnext

/-- A connection over an empty ring of 48 bytes. -/
def smallPair : SocketPair where
  state := .connected
  nextXid := 1
  writing := none
  channel := ⟨⟨replicate 48 0, 0, 0⟩, .idle⟩
  behind := []
  receiver := {}

/-- Three bytes are written and read in two pieces, and the socket is closed. -/
def threeBytesAndClose : List Action :=
  [.write [1, 2, 3], .goOn, .goOn, .goOn, .goOn, .goOn, .close, .processIncomingData, .read 2,
    .read 2]

theorem fresh_smallPair : smallPair.Fresh :=
  ⟨rfl, rfl, ⟨rfl, rfl, by decide, 4, by unfold GpadlFits; decide, by decide⟩, rfl⟩

theorem run_threeBytesAndClose : ∃ s' outs,
    run step smallPair threeBytesAndClose = some (s', outs) ∧
    outs = [.started, .done, .done, .done, .done, .wrote [1, 2, 3] 11, .closed, .done,
      .read (.ok [1, 2]), .read (.ok [3])] ∧ (s'.receiver.read 1).2 = .waits := by
  decide +kernel

theorem run_not_streamLaw_three : ∃ s' outs,
    run step smallPair threeBytesAndClose = some (s', outs) ∧
    received outs = [1, 2, 3] ∧ ¬ StreamLaw s' outs := by
  obtain ⟨s', _, hrun, rfl, -⟩ := run_threeBytesAndClose
  exact ⟨s', _, hrun, rfl, (run_not_streamLaw fresh_smallPair hrun).2⟩

/-- The peer of the closed socket waits, and the write of three bytes counted eleven. -/
theorem closed_without_end : ∃ s' outs, run step smallPair threeBytesAndClose = some (s', outs) ∧
    Out.wrote [1, 2, 3] 11 ∈ outs ∧ Out.read .endOfStream ∉ outs ∧
      (s'.receiver.read 1).2 = .waits ∧ ¬ StreamLaw s' outs := by
  obtain ⟨s', _, hrun, rfl, hwaits⟩ := run_threeBytesAndClose
  refine ⟨s', _, hrun, by decide, by decide, hwaits, fun hlaw => ?_⟩
  exact absurd (hlaw.counts [1, 2, 3] 11 (by decide)) (by decide)

end SocketPair

end Moose.Hyperv
