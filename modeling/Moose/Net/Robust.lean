import Moose.Net.Receive

/-!
# Which frames the receive worker survives

Each layer has a condition on the state and on the bytes it is given, a decidable one, and a lemma
that under it the layer returns. `FrameOk` puts them together for a frame.

What a condition asks for is either that a header fits (`consume_header` unwraps), that a number is
one of those a conversion knows, that the arithmetic of the block stays in range, or that an answer
finds its next hop in the ARP cache. The last one is a condition on the routes only: the sender of
an IPv4 packet has been learned by the time an answer goes out, and so has its gateway.
-/

set_option autoImplicit false

namespace Moose.Net

open Option Function

open Tcp (Instant Segment TcpControlBlock TcpSessionSettings CubicMath LocalOp RoomFor)
open Lib Ipv4PacketHeader

namespace NetworkSubsystem

variable {s s' : NetworkSubsystem} {M : CubicMath}

/-! ## Answers -/

/-- What has been learned from a packet of `ip` is enough to answer it. -/
def Answerable (s : NetworkSubsystem) (ip : Ipv4Addr) : Prop :=
  ip = Ipv4Addr.broadcast ∨ (resolveNextHop s.tables.routes ip).all (fun hop =>
    ip ≠ Ipv4Addr.unspecified ∧ hop ≠ Ipv4Addr.unspecified ∧ hop ≠ Ipv4Addr.broadcast) = true

instance (s : NetworkSubsystem) (ip : Ipv4Addr) : Decidable (s.Answerable ip) :=
  inferInstanceAs (Decidable (_ ∨ _))

/-- A packet for `ip` goes out without waiting, and only the cache notes the access. -/
def CanReply (s : NetworkSubsystem) (nic : NetworkInterfaceId) (ip : Ipv4Addr) (now : Instant) :
    Prop :=
  ∃ arp, s.sendPacket nic ip now = some (s.setArp arp)

theorem Answerable.hop {ip hop : Ipv4Addr} (h : s.Answerable ip) (hb : ip ≠ Ipv4Addr.broadcast)
    (hhop : resolveNextHop s.tables.routes ip = some hop) :
    ip ≠ Ipv4Addr.unspecified ∧ hop ≠ Ipv4Addr.unspecified ∧ hop ≠ Ipv4Addr.broadcast := by
  have hall := h.resolve_left hb
  rw [hhop] at hall
  exact of_decide_eq_true hall

variable {nic : NetworkInterfaceId} {ip sender : Ipv4Addr} {now : Instant} {payload : List UInt8}
  {a : Arrival}

/-- Connections and sockets do not matter for it. -/
theorem CanReply.congr (h : s.CanReply nic ip now) (hi : s'.tables.interfaces = s.tables.interfaces)
    (hr : s'.tables.routes = s.tables.routes) (ha : s'.tables.arp = s.tables.arp) :
    s'.CanReply nic ip now := by
  obtain ⟨arp, h⟩ := h
  unfold sendPacket at h
  unfold CanReply sendPacket
  rw [hi, hr, ha]
  split at h
  · exact ⟨s'.tables.arp, rfl⟩
  split at h
  next hb =>
    rw [if_pos hb]
    exact ⟨s'.tables.arp, rfl⟩
  rename_i hb
  rw [if_neg hb]
  split at h
  · exact ⟨s'.tables.arp, rfl⟩
  split at h
  next arp' _ _ =>
    exact ⟨arp', rfl⟩
  · cases h

theorem canReply_of_lookup (h : ∀ hop, resolveNextHop s.tables.routes ip = some hop →
      ip = Ipv4Addr.broadcast ∨ (s.tables.arp.lookup (nic, hop) now).2.isSome) :
    s.CanReply nic ip now := by
  unfold CanReply sendPacket
  split
  · exact ⟨s.tables.arp, rfl⟩
  split
  · exact ⟨s.tables.arp, rfl⟩
  rename_i hb
  split
  · exact ⟨s.tables.arp, rfl⟩
  rename_i hop hhop
  have hsome := (h hop hhop).resolve_left hb
  split
  next arp _ _ =>
    exact ⟨arp, rfl⟩
  next hnone =>
    rw [hnone] at hsome
    cases hsome

/-- Learning touches the cache only. -/
theorem learnFromIpRx_eq (s : NetworkSubsystem) (nic : NetworkInterfaceId) (ip : Ipv4Addr)
    (mac : MacAddress) (now : Instant) :
    ∃ arp, s.learnFromIpRx nic ip mac now = s.setArp arp := by
  unfold learnFromIpRx
  split
  · exact ⟨s.tables.arp, rfl⟩
  split
  · split <;> exact ⟨_, rfl⟩
  · exact ⟨_, rfl⟩

/-- **The sender of a packet can be answered** once it has been learned. -/
theorem canReply_learnFromIpRx (mac : MacAddress)
    {now : Nat} (h : s.Answerable ip) (hnow : now < 2 ^ 64 - 1) :
    (s.learnFromIpRx nic ip mac now).CanReply nic ip now := by
  have hfound : ∀ (c : ArpCache) (key : ArpKey),
      ((c.insert key mac now).lookup key now).2.isSome := by
    intro c key
    rw [TtlCache.lookup_insert c (by decide) (by decide) key mac hnow]
    rfl
  apply canReply_of_lookup
  intro hop hhop
  by_cases hb : ip = Ipv4Addr.broadcast
  · exact .inl hb
  right
  obtain ⟨arp, hlearn⟩ := learnFromIpRx_eq s nic ip mac now
  have hroute : resolveNextHop s.tables.routes ip = some hop := by
    rw [hlearn] at hhop
    exact hhop
  obtain ⟨hip, hu, hbc⟩ := h.hop hb hroute
  unfold learnFromIpRx
  rw [if_neg (not_or.mpr ⟨hip, hb⟩), hroute]
  dsimp only
  by_cases heq : hop = ip
  · rw [if_neg (fun hc => hc.1 heq), heq]
    exact hfound _ _
  rw [if_pos ⟨heq, hu, hbc⟩]
  exact hfound _ _

/-! ## The conditions -/

def ArpOk (payload : List UInt8) : Prop :=
  ArpFrameHeader.size ≤ payload.length ∧
    (ArpOperation.ofU16 (ArpFrameHeader.read payload).operation).isSome = true

def UdpOk (payload : List UInt8) : Prop := UdpDatagramHeader.size ≤ payload.length

def IcmpOk (s : NetworkSubsystem) (sender : Ipv4Addr) (payload : List UInt8) : Prop :=
  IcmpPacketHeader.size ≤ payload.length ∧
    ((IcmpPacketHeader.read payload).messageType = some .echoRequest → s.Answerable sender)

/-- A known connection takes the segment, and an answer can go out. The answer leaves on the
interface of its socket, while the sender was learned on the one the frame came from. Only a reset
is never answered, except in TIME-WAIT, where the FIN bit alone counts. -/
def KnownOk (s : NetworkSubsystem) (tuple : ConnectionTuple) (c : Connection) (seg : Segment)
    (a : Arrival) : Prop :=
  c.tcb.completesHandshake seg = false ∧ c.tcb.ArithOk ∧ RoomFor c.tcb seg ∧
    (seg.flags.rst = false ∨ c.tcb.state = .timeWait →
      c.tcb.neg.rcvWscale < 32 ∧ c.nic = a.nic ∧ s.Answerable tuple.remoteIp)

/-- A segment without a connection is answered unless it is a reset. A new block takes its window
scale from the listener. -/
def UnknownOk (s : NetworkSubsystem) (tuple : ConnectionTuple) (seg : Segment) : Prop :=
  seg.flags.rst = false → s.Answerable tuple.remoteIp ∧
    ((seg.flags.syn && !seg.flags.ack) = true → ∀ settings ∈ s.listenerOpts tuple.localPort,
      settings.rcvWscale < 32)

def SegmentOk (s : NetworkSubsystem) (tuple : ConnectionTuple) (seg : Segment) (a : Arrival) :
    Prop :=
  (∀ c ∈ s.connections tuple, s.KnownOk tuple c seg a) ∧
    (s.connections tuple = none → s.UnknownOk tuple seg)

def TcpOk (s : NetworkSubsystem) (sender target : Ipv4Addr) (segment : List UInt8) (a : Arrival)
    (tos : Nat) : Prop :=
  let header := TcpDatagramHeader.read segment
  tcpAccepts sender target segment = true → TcpDatagramHeader.size ≤ header.headerLenBytes ∧
    ∀ options ∈ optionBytes header segment,
      s.SegmentOk (tcpTuple sender target segment) (readSegment header segment options tos) a

/-- The fields that a layer checks let the packet pass to the next one. -/
def passes (header : Ipv4PacketHeader) : Bool := header.version = 4 ∧ header.fragmentOffset = 0

def Ipv4Ok (s : NetworkSubsystem) (payload : List UInt8) (a : Arrival) : Prop :=
  Ipv4PacketHeader.size ≤ payload.length ∧
    let header := Ipv4PacketHeader.read payload
    let body := ipPayload header (payload.drop Ipv4PacketHeader.size)
    passes header = true →
      (header.protocol = some .udp → UdpOk body) ∧
      (header.protocol = some .icmp → s.IcmpOk header.senderIp body) ∧
      (header.protocol = some .tcp →
        s.TcpOk header.senderIp header.targetIp body a header.tos)

/-- The frame fits a receive slot, the clock is in range, and each layer can take its part. -/
def FrameOk (s : NetworkSubsystem) (frame : List UInt8) (a : Arrival) : Prop :=
  frame.length ≤ slotSize ∧ EthernetFrameHeader.size ≤ frame.length ∧ a.now ≤ 2 ^ 61 ∧
    let payload := frame.drop EthernetFrameHeader.size
    let protocol := identifyProtocol (EthernetFrameHeader.read frame) payload
    (protocol = some .ipv4 → s.Ipv4Ok payload a) ∧ (protocol = some .arp → ArpOk payload)

instance (payload : List UInt8) : Decidable (ArpOk payload) := inferInstanceAs (Decidable (_ ∧ _))

instance (payload : List UInt8) : Decidable (UdpOk payload) := inferInstanceAs (Decidable (_ ≤ _))

instance (s : NetworkSubsystem) (sender : Ipv4Addr) (payload : List UInt8) :
    Decidable (s.IcmpOk sender payload) := inferInstanceAs (Decidable (_ ∧ _))

instance (s : NetworkSubsystem) (tuple : ConnectionTuple) (c : Connection) (seg : Segment)
    (a : Arrival) : Decidable (s.KnownOk tuple c seg a) := inferInstanceAs (Decidable (_ ∧ _))

instance (s : NetworkSubsystem) (tuple : ConnectionTuple) (seg : Segment) :
    Decidable (s.UnknownOk tuple seg) := inferInstanceAs (Decidable (_ → _))

instance (s : NetworkSubsystem) (tuple : ConnectionTuple) (seg : Segment) (a : Arrival) :
    Decidable (s.SegmentOk tuple seg a) := inferInstanceAs (Decidable (_ ∧ _))

instance (s : NetworkSubsystem) (sender target : Ipv4Addr) (segment : List UInt8) (a : Arrival)
    (tos : Nat) : Decidable (s.TcpOk sender target segment a tos) :=
  inferInstanceAs (Decidable (_ → _ ∧ _))

instance (s : NetworkSubsystem) (payload : List UInt8) (a : Arrival) :
    Decidable (s.Ipv4Ok payload a) := inferInstanceAs (Decidable (_ ∧ (_ → _)))

instance (s : NetworkSubsystem) (frame : List UInt8) (a : Arrival) :
    Decidable (s.FrameOk frame a) := inferInstanceAs (Decidable (_ ∧ _ ∧ _ ∧ _))

/-! ## The layers -/

def Sound (s : NetworkSubsystem) : Prop :=
  ∀ tuple c, s.connections tuple = some c → c.tcb.Sound

/-- A call returns, with sound blocks. -/
def Returns (result : Option NetworkSubsystem) : Prop := ∃ s, result = some s ∧ s.Sound

theorem Sound.setConnection (h : s.Sound) (tuple : ConnectionTuple) {c : Connection}
    (hc : c.tcb.Sound) : (s.setConnection tuple c).Sound := by
  intro tuple' c' hc'
  by_cases heq : tuple' = tuple
  · rw [heq, show (s.setConnection tuple c).connections tuple = some c from
      update_self ..] at hc'
    cases hc'
    exact hc
  · rw [show (s.setConnection tuple c).connections tuple' = s.connections tuple' from
      update_of_ne heq ..] at hc'
    exact h tuple' c' hc'

theorem Sound.tables (h : s.Sound) (t : Tables) : Sound { s with tables := t } := h

theorem CanReply.returns
    (h : s.CanReply nic ip now) (hs : s.Sound) : Returns (s.sendPacket nic ip now) := by
  obtain ⟨arp, h⟩ := h
  exact ⟨s.setArp arp, h, hs.tables _⟩

theorem Sound.abortConnection (hs : s.Sound) (tuple : ConnectionTuple) (error : Tcp.TcpError) :
    (s.abortConnection tuple error).Sound := by
  unfold NetworkSubsystem.abortConnection
  split
  · exact hs
  next c hc =>
    exact hs.setConnection tuple ((hs tuple c hc).abortConnection error)

/-- An echo request fits a transmit buffer because it fitted a receive slot. -/
theorem icmpProcessData_returns
    (hs : s.Sound) (h : s.IcmpOk sender payload) (hlen : payload.length ≤ slotSize)
    (hreply : s.Answerable sender → s.CanReply a.nic sender a.now) :
    Returns (s.icmpProcessData payload sender a) := by
  obtain ⟨hsize, hecho⟩ := h
  unfold icmpProcessData
  simp only [consumeHeader_of_le hsize, some_bind]
  split
  next hrequest =>
    unfold sendEchoReply
    have hfits : IcmpPacketHeader.size + (payload.drop IcmpPacketHeader.size).length ≤
      slotSize := by
      rw [List.length_drop, Nat.add_sub_cancel' hsize]
      exact hlen
    rw [if_pos hfits]
    exact (hreply (hecho hrequest)).returns hs
  · refine ⟨_, rfl, ?_⟩
    unfold handleDestinationUnreachable
    split
    · exact hs.abortConnection _ _
    · exact hs
  · exact ⟨_, rfl, hs⟩

theorem Sound.enqueueAccepted (hs : s.Sound) (tuple : ConnectionTuple) :
    (s.enqueueAccepted tuple).Sound := by
  unfold NetworkSubsystem.enqueueAccepted
  split
  · exact hs
  split
  · split
    · exact hs
    · exact hs.tables _
  · exact hs

theorem advertisedRcvWnd_of_shift {t : TcpControlBlock} (h : t.neg.rcvWscale < 32) :
    ∃ wnd, t.advertisedRcvWnd = some wnd := by
  unfold TcpControlBlock.advertisedRcvWnd
  rw [if_pos h]
  split <;> exact ⟨_, rfl⟩

/-- A reset is not answered, except in TIME-WAIT. -/
theorem reply_of_rst {t : TcpControlBlock} {seg : Segment} (hrst : seg.flags.rst = true)
    (hstate : t.state ≠ .timeWait) : t.reply M seg now = .none := by
  have hdatagram : ∀ t : TcpControlBlock, t.datagramReplies M seg now = false := by
    intro t
    simp [TcpControlBlock.datagramReplies, TcpControlBlock.isOldDuplicate,
      TcpControlBlock.checkSegment, hrst]
  unfold TcpControlBlock.reply
  cases hs : t.state with
  | timeWait => exact absurd hs hstate
  | _ => simp [hrst, hdatagram]

theorem rcvWscale_processPassiveSyn {settings : TcpSessionSettings} {iss : SeqNum}
    {tsOffset : BitVec 32} {seg : Segment} {t : TcpControlBlock}
    (h : TcpControlBlock.processPassiveSyn settings iss tsOffset seg now = some t) :
    t.neg.rcvWscale = settings.rcvWscale := by
  have hoptions : ∀ (options : List Tcp.TcpOption) (t : TcpControlBlock),
      (t.applyPeerTcpOptions options seg.seq now).neg.rcvWscale = t.neg.rcvWscale := by
    intro options
    induction options with
    | nil => exact fun _ => rfl
    | cons o options ih =>
      intro t
      refine (ih _).trans ?_
      cases o <;> rfl
  simp only [TcpControlBlock.processPassiveSyn, bind_eq_some, some.injEq] at h
  obtain ⟨t1, h1, rfl⟩ := h
  refine (hoptions _ _).trans ?_
  simp only [TcpSessionSettings.applyReceivePath, TcpControlBlock.updateRcvWndFromBuffer,
    map_eq_some_iff] at h1
  obtain ⟨wnd, -, rfl⟩ := h1
  rfl

theorem processKnown_returns {tuple : ConnectionTuple} {c : Connection} {seg : Segment}
    (hs : s.Sound) (hc : s.connections tuple = some c)
    (h : s.KnownOk tuple c seg a) (hnow : (a.now : Nat) ≤ 2 ^ 61)
    (hreply : s.Answerable tuple.remoteIp → s.CanReply a.nic tuple.remoteIp a.now) :
    Returns (s.processKnown M tuple c seg a.now) := by
  obtain ⟨hhs, harith, hroom, hanswer⟩ := h
  obtain ⟨t, ht, hsound⟩ := (hs tuple c hc).processData harith hroom hhs M hnow
  unfold processKnown
  rw [bind_of_eq_some ht]
  dsimp only
  -- the state with the new block, entered in the backlog or not
  generalize hstate : (if c.tcb.state = .synReceived ∧ t.state ≠ .synReceived ∧ t.state ≠ .closed
    then (s.setConnection tuple { c with tcb := t }).enqueueAccepted tuple
    else s.setConnection tuple { c with tcb := t }) = s1
  have hs1 : s1.Sound := by
    have hset : (s.setConnection tuple { c with tcb := t }).Sound := hs.setConnection tuple hsound
    rw [← hstate]
    split
    · exact hset.enqueueAccepted tuple
    · exact hset
  have hreply1 : c.nic = a.nic ∧ s.Answerable tuple.remoteIp →
      Returns (s1.sendPacket c.nic tuple.remoteIp a.now) := by
    rintro ⟨hnic, hans⟩
    have hset :
      (s.setConnection tuple { c with tcb := t }).CanReply c.nic tuple.remoteIp a.now := by
      rw [hnic]
      exact (hreply hans).congr rfl rfl rfl
    apply CanReply.returns _ hs1
    rw [← hstate]
    unfold enqueueAccepted
    repeat' split
    all_goals first | exact hset | exact hset.congr rfl rfl rfl
  by_cases hquiet : seg.flags.rst = false ∨ c.tcb.state = .timeWait
  · obtain ⟨hshift, hnic⟩ := hanswer hquiet
    obtain ⟨wnd, hw⟩ := advertisedRcvWnd_of_shift hshift
    split
    · exact ⟨s1, rfl, hs1⟩
    · exact hreply1 hnic
    · rw [bind_of_eq_some hw]
      exact hreply1 hnic
    · rw [bind_of_eq_some hw]
      exact ⟨s1, rfl, hs1⟩
  · rw [not_or, Bool.not_eq_false] at hquiet
    rw [reply_of_rst hquiet.1 hquiet.2]
    exact ⟨s1, rfl, hs1⟩

theorem processUnknown_returns {tuple : ConnectionTuple} {seg : Segment}
    (hs : s.Sound) (h : s.UnknownOk tuple seg)
    (hreply : s.Answerable tuple.remoteIp → s.CanReply a.nic tuple.remoteIp a.now) :
    Returns (s.processUnknown tuple seg a) := by
  unfold processUnknown
  split
  · exact ⟨s, rfl, hs⟩
  rename_i hrst
  obtain ⟨hans, hsyn⟩ := h (eq_false_of_ne_true hrst)
  split
  next hflags =>
    split
    · exact (hreply hans).returns hs
    rename_i settings hlistener
    obtain ⟨t, ht, hsound⟩ :=
      Tcp.TcpControlBlock.sound_processPassiveSyn settings a.iss a.tsOffset seg a.now
    obtain ⟨wnd, hw⟩ := advertisedRcvWnd_of_shift
      (rcvWscale_processPassiveSyn ht ▸ hsyn hflags settings hlistener)
    rw [bind_of_eq_some ht, bind_of_eq_some hw]
    have hset : (s.setConnection tuple ⟨t, a.nic⟩).CanReply a.nic tuple.remoteIp a.now :=
      (hreply hans).congr rfl rfl rfl
    exact hset.returns (hs.setConnection tuple hsound)
  · exact (hreply hans).returns hs

theorem tcpProcessData_returns {sender target : Ipv4Addr} {segment : List UInt8}
    {tos : Nat} (hs : s.Sound) (h : s.TcpOk sender target segment a tos)
    (hnow : (a.now : Nat) ≤ 2 ^ 61) (hreply : s.Answerable sender → s.CanReply a.nic sender a.now) :
    Returns (s.tcpProcessData M sender target segment a tos) := by
  unfold tcpProcessData
  split
  · exact ⟨s, rfl, hs⟩
  split
  · exact ⟨s, rfl, hs⟩
  rename_i hacc
  obtain ⟨hlen, hseg⟩ := h (by simpa using hacc)
  have hopts : optionBytes (TcpDatagramHeader.read segment) segment = some
      ((segment.take (TcpDatagramHeader.read segment).headerLenBytes).drop
        TcpDatagramHeader.size) := if_pos hlen
  obtain ⟨hknown, hunknown⟩ := hseg _ hopts
  rw [bind_of_eq_some hopts]
  dsimp only
  split
  next c hc =>
    exact processKnown_returns hs hc (hknown c hc) hnow hreply
  next hnone =>
    exact processUnknown_returns hs (hunknown hnone) hreply

theorem ipv4ProcessData_returns (hs : s.Sound)
    (h : s.Ipv4Ok payload a) (hlen : payload.length ≤ slotSize) (hnow : (a.now : Nat) ≤ 2 ^ 61)
    (hreply : s.Answerable (read payload).senderIp →
      s.CanReply a.nic (read payload).senderIp a.now) :
    Returns (s.ipv4ProcessData M payload a) := by
  obtain ⟨hsize, hbody⟩ := h
  unfold ipv4ProcessData
  rw [bind_of_eq_some (consumeHeader_of_le hsize)]
  dsimp only
  split
  · exact ⟨s, rfl, hs⟩
  rename_i hversion
  split
  · exact ⟨s, rfl, hs⟩
  rename_i hfragment
  have hpass : passes (read payload) = true := by
    simp only [passes, decide_eq_true_eq]
    exact ⟨not_not.mp hversion, not_not.mp hfragment⟩
  obtain ⟨hudp, hicmp, htcp⟩ := hbody hpass
  split
  next hproto =>
    unfold udpProcessData
    simp only [consumeHeader_of_le (hudp hproto), some_bind]
    split
    · exact ⟨_, rfl, hs⟩
    split
    · exact ⟨_, rfl, hs⟩
    · exact ⟨_, rfl, hs.tables _⟩
  next hproto =>
    apply icmpProcessData_returns hs (hicmp hproto) _ hreply
    rw [ipPayload, List.length_take, List.length_drop]
    omega
  next hproto =>
    exact tcpProcessData_returns hs (htcp hproto) hnow hreply
  · exact ⟨s, rfl, hs⟩

/-- Learning leaves the conditions as they are. -/
theorem Ipv4Ok.setArp (h : s.Ipv4Ok payload a)
    (arp : ArpCache) : (s.setArp arp).Ipv4Ok payload a := h

/-- **A frame that meets the condition is processed.** -/
theorem ethernetProcessData_returns {frame : List UInt8} (hs : s.Sound)
    (h : s.FrameOk frame a) : Returns (s.ethernetProcessData M frame a) := by
  obtain ⟨hslot, hsize, hnow, hipv4, harp⟩ := h
  unfold ethernetProcessData
  rw [bind_of_eq_some (consumeHeader_of_le hsize)]
  dsimp only
  split
  next hproto =>
    have hok := hipv4 hproto
    unfold learn
    rw [if_pos hok.1]
    obtain ⟨arp, hlearn⟩ := learnFromIpRx_eq s a.nic
      (read (frame.drop EthernetFrameHeader.size)).senderIp
      (EthernetFrameHeader.read frame).sourceMac a.now
    have hreply : s.Answerable (read (frame.drop EthernetFrameHeader.size)).senderIp →
        (s.setArp arp).CanReply a.nic
          (read (frame.drop EthernetFrameHeader.size)).senderIp a.now := by
      intro hans
      rw [← hlearn]
      exact canReply_learnFromIpRx _ hans (Nat.lt_of_le_of_lt hnow (by decide))
    rw [hlearn]
    apply ipv4ProcessData_returns (hs.tables _) (hok.setArp arp) _ hnow hreply
    rw [List.length_drop]
    omega
  next hproto =>
    obtain ⟨hlen, hop⟩ := (harp hproto)
    obtain ⟨operation, hop⟩ := isSome_iff_exists.mp hop
    unfold arpProcessData
    simp only [consumeHeader_of_le hlen, hop, some_bind]
    cases operation with
    | request => exact ⟨_, rfl, hs.tables _⟩
    | reply => exact ⟨_, rfl, hs.tables _⟩
    | rarpRequest => exact ⟨_, rfl, hs⟩
    | rarpReply => exact ⟨_, rfl, hs⟩
  · exact ⟨s, rfl, hs⟩

/-! ## Rejected frames -/

/-- The packet is not IPv4 or a later fragment, its protocol has no handler, or it is a TCP segment
whose header is cut off or whose checksum is wrong. -/
def ipv4Rejects (payload : List UInt8) : Bool :=
  let header := Ipv4PacketHeader.read payload
  if header.version ≠ 4 then true
  else if header.fragmentOffset ≠ 0 then true
  else
    match header.protocol with
    | some .udp | some .icmp => false
    | some .tcp => !tcpAccepts header.senderIp header.targetIp
        (ipPayload header (payload.drop Ipv4PacketHeader.size))
    | _ => true

def rejects (frame : List UInt8) : Bool :=
  let payload := frame.drop EthernetFrameHeader.size
  match identifyProtocol (EthernetFrameHeader.read frame) payload with
  | some .ipv4 => ipv4Rejects payload
  | some .arp => false
  | _ => true

theorem ipv4ProcessData_of_rejects
    (hsize : size ≤ payload.length) (h : ipv4Rejects payload = true) :
    s.ipv4ProcessData M payload a = some s := by
  unfold ipv4Rejects at h
  unfold ipv4ProcessData
  rw [bind_of_eq_some (consumeHeader_of_le hsize)]
  dsimp only at h ⊢
  generalize hproto : (read payload).protocol = protocol at h ⊢
  split
  · rfl
  rename_i hversion
  rw [if_neg hversion] at h
  split
  · rfl
  rename_i hfragment
  rw [if_neg hfragment] at h
  split
  · cases h
  · cases h
  · unfold tcpProcessData
    rw [(Bool.not_eq_true' _).mp h]
    split <;> rfl
  · rfl

/-- **A rejected frame is dropped**: only the ARP cache may have learned its sender. -/
theorem ethernetProcessData_of_rejects {frame : List UInt8}
    (h : s.FrameOk frame a) (hrej : rejects frame = true) :
    ∃ arp, s.ethernetProcessData M frame a = some (s.setArp arp) := by
  obtain ⟨-, hsize, -, hipv4, -⟩ := h
  unfold rejects at hrej
  unfold ethernetProcessData
  rw [bind_of_eq_some (consumeHeader_of_le hsize)]
  dsimp only at hrej ⊢
  generalize identifyProtocol (EthernetFrameHeader.read frame)
    (frame.drop EthernetFrameHeader.size) = protocol at hrej hipv4 ⊢
  split
  · have hok := hipv4 rfl
    unfold learn
    rw [if_pos hok.1]
    obtain ⟨arp, hlearn⟩ := learnFromIpRx_eq s a.nic
      (read (frame.drop EthernetFrameHeader.size)).senderIp
      (EthernetFrameHeader.read frame).sourceMac a.now
    rw [hlearn]
    exact ⟨arp, ipv4ProcessData_of_rejects hok.1 hrej⟩
  · cases hrej
  · exact ⟨s.tables.arp, rfl⟩

/-! ## Everything that can happen -/

/-- A frame arrives, the tables change in some other way, the application opens a connection, it or
the timer thread does something with one, or one is removed. -/
inductive Action where
  | frame (bytes : List UInt8) (a : Arrival)
  | tables (t : Tables)
  | connect (tuple : ConnectionTuple) (nic : NetworkInterfaceId) (settings : TcpSessionSettings)
      (iss : SeqNum) (tsOffset : BitVec 32) (now : Instant)
  | onBlock (tuple : ConnectionTuple) (op : LocalOp)
  | remove (tuple : ConnectionTuple)

def step (M : CubicMath) (s : NetworkSubsystem) : Action → Option (NetworkSubsystem × Unit)
  | .frame bytes a => (s.ethernetProcessData M bytes a).map (·, ())
  | .tables t => some ({ s with tables := t }, ())
  | .connect tuple nic settings iss tsOffset now =>
    (TcpControlBlock.connect settings iss tsOffset now).map fun t =>
      (s.setConnection tuple ⟨t, nic⟩, ())
  | .onBlock tuple op =>
    match s.connections tuple with
    | none => some (s, ())
    | some c => (c.tcb.localOp op).map fun t => (s.setConnection tuple { c with tcb := t }, ())
  | .remove tuple => some ({ s with connections := update s.connections tuple none }, ())

/-- The condition on a step: the frames are such that every layer can take them. -/
def StepOk (s : NetworkSubsystem) : Action → Prop
  | .frame bytes a => s.FrameOk bytes a
  | _ => True

instance (s : NetworkSubsystem) (i : Action) : Decidable (s.StepOk i) :=
  match i with
  | .frame bytes a => inferInstanceAs (Decidable (s.FrameOk bytes a))
  | .tables _ | .connect .. | .onBlock .. | .remove _ => isTrue trivial

theorem Sound.step (hs : s.Sound) {i : Action} (h : s.StepOk i) :
    ∃ s' o, s.step M i = some (s', o) ∧ s'.Sound := by
  cases i with
  | frame bytes a =>
    obtain ⟨s', hrun, hs'⟩ := ethernetProcessData_returns hs h
    exact ⟨s', (), congrArg (Option.map (·, ())) hrun, hs'⟩
  | tables t => exact ⟨_, (), rfl, hs.tables t⟩
  | connect tuple nic settings iss tsOffset now =>
    obtain ⟨t, ht, hsound⟩ := Tcp.TcpControlBlock.sound_connect settings iss tsOffset now
    refine ⟨s.setConnection tuple ⟨t, nic⟩, (), ?_, hs.setConnection tuple hsound⟩
    simp [NetworkSubsystem.step, ht]
  | onBlock tuple op =>
    unfold NetworkSubsystem.step
    dsimp only
    split
    · exact ⟨s, (), rfl, hs⟩
    next c hc =>
      obtain ⟨t, ht, hsound⟩ := (hs tuple c hc).localOp op
      exact ⟨_, (), congrArg (Option.map _) ht, hs.setConnection tuple hsound⟩
  | remove tuple =>
    refine ⟨_, (), rfl, ?_⟩
    intro tuple' c hc
    change Function.update s.connections tuple none tuple' = some c at hc
    by_cases heq : tuple' = tuple
    · rw [heq, Function.update_self] at hc
      cases hc
    rw [Function.update_of_ne heq] at hc
    exact hs tuple' c hc

/-- **The receive path is robust** along every run whose frames meet the condition: no step fails,
in the state reached every frame that meets it is processed, and one that no layer takes changes
nothing but the ARP cache. -/
theorem run_robust (M : CubicMath) (s : NetworkSubsystem)
    (hnew : ∀ tuple, s.connections tuple = none)
    (actions : List Action) (hok : Guarded (step M) StepOk s actions) :
    ∃ s' outs, run (step M) s actions = some (s', outs) ∧
      ∀ frame a, s'.FrameOk frame a → ∃ s'', s'.ethernetProcessData M frame a = some s'' ∧
        (rejects frame = true → ∃ arp, s'' = s'.setArp arp) := by
  have hs : s.Sound := by
    intro tuple c hc
    rw [hnew tuple] at hc
    cases hc
  obtain ⟨s', outs, hrun, hs'⟩ := run_inv (fun _ _ hs h => hs.step h) hs hok
  refine ⟨s', outs, hrun, ?_⟩
  intro frame a hframe
  obtain ⟨s'', hproc, -⟩ := ethernetProcessData_returns hs' hframe
  refine ⟨s'', hproc, ?_⟩
  intro hrej
  obtain ⟨arp, harp⟩ := ethernetProcessData_of_rejects hframe hrej
  rw [hproc] at harp
  exact ⟨arp, some.inj harp⟩

/-- One interface, a direct route to everyone, and a listener on port 80. -/
def listening : NetworkSubsystem where
  tables :=
    { interfaces := fun nic => if nic = 1 then some ⟨some 0x0A000001⟩ else none
      routes := [⟨⟨0, 0, Nat.zero_le (nat_lit 32)⟩, 1, .direct⟩]
      arp := .new (0, 0) 0
      waitQueue := []
      udpBoundPorts := fun _ => none
      udpSockets := fun _ => none
      tcpListeners := fun port => if port = 80 then some 7 else none
      tcpSockets := fun handle => if handle = 7 then some ⟨.plain 8, some (4, [])⟩ else none }
  connections := fun _ => none

/-- An ARP request of 10.0.0.2. -/
def arpRequest : List UInt8 :=
  [2, 0, 0, 0, 0, 1, 2, 0, 0, 0, 0, 2, 8, 6, 0, 1, 8, 0, 6, 4, 0, 1, 2, 0, 0, 0, 0, 2, 0xa, 0,
    0, 2, 0, 0, 0, 0, 0, 0, 0xa, 0, 0, 1]

/-- A SYN of 10.0.0.2 for port 80. -/
def synFrame : List UInt8 :=
  [2, 0, 0, 0, 0, 1, 2, 0, 0, 0, 0, 2, 8, 0, 0x45, 0, 0, 0x28, 0, 0, 0, 0, 0x40, 6, 0, 0, 0xa,
    0, 0, 2, 0xa, 0, 0, 1, 0x30, 0x39, 0, 0x50, 0, 0, 0x10, 0, 0, 0, 0, 0, 0x50, 2, 0x20, 0,
    0x3b, 0x57, 0, 0]

/-- An ARP request and then a SYN, after which the connection exists. -/
theorem run_robust_listening :
    ∃ s' outs, run (step .integer) listening
        [.frame arpRequest ⟨1, 10, 0, 0⟩, .frame synFrame ⟨1, 20, 100, 0⟩] = some (s', outs) ∧
      ∀ frame a, s'.FrameOk frame a → ∃ s'', s'.ethernetProcessData .integer frame a =
        some s'' ∧ (rejects frame = true → ∃ arp, s'' = s'.setArp arp) :=
  run_robust .integer listening (fun _ => rfl) _ (by decide +kernel)

/-- A frame of one byte is not dropped: the Ethernet header is unwrapped. -/
theorem short_frame_not_processed :
    ¬ ∀ (M : CubicMath) (s : NetworkSubsystem) (frame : List UInt8) (a : Arrival),
      frame ≠ [] → frame.length ≤ slotSize → (∀ tuple, s.connections tuple = none) →
        (s.ethernetProcessData M frame a).isSome = true := by
  intro h
  have hsome := h .integer listening [0] ⟨1, 0, 0, 0⟩ (by simp) (by decide) (fun _ => rfl)
  cases hsome

end NetworkSubsystem

end Moose.Net
