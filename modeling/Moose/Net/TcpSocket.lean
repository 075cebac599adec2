import Mathlib.Data.List.AList
import Moose.Net.Headers
import Moose.Tcp.Total

/-!
# The socket layer of TCP

`driver/net/proto/tcp_socket.rs` and the tables of `TcpDriver`: sockets under their handles, ports
under the sockets that hold them, and control blocks under their four-tuples. Sockets and blocks are
shared (`Arc`), so they are cells with a number of their own, and the tables hold numbers: a socket
that was closed may still be used by a thread inside `connect`, and a block stays after its entry is
gone.

A call is one step, except `connect`, which waits for segments: its thread is kept in `connecting`
and looks at its block from time to time. The timer thread collects the four-tuples of closed blocks
and removes them later.
-/

set_option autoImplicit false

namespace Moose.Net

open Tcp (Instant Segment TcpControlBlock TcpSessionSettings TcpError CubicMath LocalOp)

abbrev TcpSocketHandle := BitVec 32
/-- Which socket, which control block. -/
abbrev SocketId := Nat
abbrev BlockId := Nat

inductive TcpSocketError where
  | invalidHandle | notBound | addrInUse | notListening | notConnected | backlogFull | closed
  | alreadyConnected
  | io (e : TcpError)

inductive TcpSocketRole where
  | unbound
  | bound (localIp : Ipv4Addr) (localPort : Nat) (nic : NetworkInterfaceId)
  | listener (localIp : Ipv4Addr) (localPort : Nat) (nic : NetworkInterfaceId) (backlog : Nat)
      (pending : List BlockId)
  | connected (tcb : BlockId)
  | closed

structure TcpSocket where
  role : TcpSocketRole
  opts : TcpSessionSettings

/-- `TcpSessionSettings::default`. -/
def defaultSettings : TcpSessionSettings where
  nagleEnabled := true
  recvBufSize := 4096
  rcvWscale := 7
  cwvEnabled := true
  pacingEnabled := true
  wndScaleEnabled := true
  sackEnabled := true
  timestampsEnabled := true
  ecnEnabled := true
  receiveBufferSize := 4096

/-! ## The table of sockets -/

structure TcpSocketTable where
  sockets : AList fun _ : TcpSocketHandle => SocketId
  listeners : AList fun _ : Nat => TcpSocketHandle
  boundPorts : AList fun _ : Nat => TcpSocketHandle
  nextHandle : TcpSocketHandle

namespace TcpSocketTable

/-- The handle 0 is left out when the counter wraps. -/
def handleAfter (h : TcpSocketHandle) : TcpSocketHandle := if h + 1 = 0 then 1 else h + 1

def insert (t : TcpSocketTable) (c : SocketId) : TcpSocketTable :=
  { t with
    sockets := t.sockets.insert t.nextHandle c
    nextHandle := handleAfter t.nextHandle }

def portInUse (t : TcpSocketTable) (port : Nat) : Bool :=
  (t.listeners.lookup port).isSome || (t.boundPorts.lookup port).isSome

/-- The first free port of the dynamic range. -/
def allocEphemeralPort (t : TcpSocketTable) : Option Nat :=
  (List.range' 49152 16384).find? fun port => !t.portInUse port

def release (t : TcpSocketTable) : Option Nat → TcpSocketTable
  | none => t
  | some port => { t with boundPorts := t.boundPorts.erase port }

def hold (t : TcpSocketTable) (h : TcpSocketHandle) : Option Nat → TcpSocketTable
  | none => t
  | some port => { t with boundPorts := t.boundPorts.insert port h }

end TcpSocketTable

/-! ## The driver -/

structure TcpBlock where
  tcb : TcpControlBlock
  tuple : ConnectionTuple

/-- A thread inside `connect`. -/
structure Connecting where
  socket : SocketId
  block : BlockId
  tuple : ConnectionTuple

/-- A block that nothing holds any more is `none`. -/
structure TcpDriver where
  table : TcpSocketTable
  cells : SocketId → TcpSocket
  nextCell : SocketId
  connections : AList fun _ : ConnectionTuple => BlockId
  blocks : BlockId → Option TcpBlock
  nextBlock : BlockId
  connecting : List Connecting
  /-- `remove_tuples` of the timer thread -/
  removeTuples : List ConnectionTuple

/-- What a new block takes from the outside: the clock and two random numbers. -/
structure Opening where
  iss : SeqNum
  tsOffset : BitVec 32
  now : Instant

inductive SocketResult where
  | done
  | handle (h : TcpSocketHandle)
  | waits
  | failed (e : TcpSocketError)

namespace TcpDriver

def new : TcpDriver where
  table := ⟨∅, ∅, ∅, 1⟩
  cells := fun _ => ⟨.unbound, defaultSettings⟩
  nextCell := 0
  connections := ∅
  blocks := fun _ => none
  nextBlock := 0
  connecting := []
  removeTuples := []

variable (s : TcpDriver)

def setRole (c : SocketId) (role : TcpSocketRole) : TcpDriver :=
  { s with cells := Function.update s.cells c { s.cells c with role := role } }

def setBlock (b : BlockId) (block : Option TcpBlock) : TcpDriver :=
  { s with blocks := Function.update s.blocks b block }

/-- The block cannot be used any more. -/
def dead (b : BlockId) : Bool := (s.blocks b).all (·.tcb.state = .closed)

def insertSocket (sock : TcpSocket) : TcpDriver :=
  { s with
    table := s.table.insert s.nextCell
    cells := Function.update s.cells s.nextCell sock
    nextCell := s.nextCell + 1 }

def insertBlock (t : TcpControlBlock) (tuple : ConnectionTuple) : TcpDriver :=
  { s.setBlock s.nextBlock (some ⟨t, tuple⟩) with
    connections := s.connections.insert tuple s.nextBlock
    nextBlock := s.nextBlock + 1 }

def socketCreate : TcpDriver × SocketResult :=
  (s.insertSocket ⟨.unbound, defaultSettings⟩, .handle s.table.nextHandle)

variable (h : TcpSocketHandle)

def socketSetOpts (opts : TcpSessionSettings) : TcpDriver × SocketResult :=
  match s.table.sockets.lookup h with
  | none => (s, .failed .invalidHandle)
  | some c => ({ s with cells := Function.update s.cells c { s.cells c with opts := opts } }, .done)

/-! ## Ports -/

/-- `socket_bind` once the role is known; `old` is the port the socket had before. -/
def bindPort (c : SocketId) (old : Option Nat) (port : Nat)
    (nic : NetworkInterfaceId) (ip : Option Ipv4Addr) : TcpDriver × SocketResult :=
  match ip with
  | none => (s, .failed .notBound)
  | some localIp =>
    let table := s.table.release old
    let assign (p : Nat) : TcpDriver × SocketResult :=
      ({ s with table := table.hold h (some p) }.setRole c (.bound localIp p nic), .done)
    if port = 0 then
      match table.allocEphemeralPort with
      | some p => assign p
      | none => ({ s with table := table }, .failed .addrInUse)
    else if table.portInUse port then
      ({ s with table := table.hold h old }, .failed .addrInUse)
    else assign port

/-- `ip` is the address of the interface. -/
def socketBind (port : Nat) (nic : NetworkInterfaceId)
    (ip : Option Ipv4Addr) : TcpDriver × SocketResult :=
  match s.table.sockets.lookup h with
  | none => (s, .failed .invalidHandle)
  | some c =>
    match (s.cells c).role with
    | .unbound => s.bindPort h c none port nic ip
    | .bound _ old _ => s.bindPort h c (some old) port nic ip
    | .connected _ | .listener _ _ _ _ _ => (s, .failed .alreadyConnected)
    | .closed => (s, .failed .closed)

def socketListen (backlog : Nat) : TcpDriver × SocketResult :=
  match s.table.sockets.lookup h with
  | none => (s, .failed .invalidHandle)
  | some c =>
    match (s.cells c).role with
    | .bound localIp port nic =>
      if (s.table.listeners.lookup port).isSome then (s, .failed .addrInUse)
      else
        let table := { s.table with
          boundPorts := s.table.boundPorts.erase port
          listeners := s.table.listeners.insert port h }
        ({ s with table := table }.setRole c (.listener localIp port nic (max backlog 1) []),
          .done)
    | .listener _ _ _ _ _ => (s, .done)
    | _ => (s, .failed .notBound)

/-! ## Connections -/

/-- One round of `socket_accept`. -/
def socketAccept : TcpDriver × SocketResult :=
  match s.table.sockets.lookup h with
  | none => (s, .failed .invalidHandle)
  | some c =>
    match (s.cells c).role with
    | .listener localIp port nic backlog (b :: pending) =>
      let opts := (s.cells c).opts
      ((s.setRole c (.listener localIp port nic backlog pending)).insertSocket
        ⟨.connected b, opts⟩, .handle s.table.nextHandle)
    | .listener _ _ _ _ [] => (s, .waits)
    | .closed => (s, .failed .closed)
    | _ => (s, .failed .notListening)

/-- The port of an active open; `random` is what the processor gives for an unbound socket. -/
def connectPort (localPort random : Nat) : Nat :=
  if localPort = 0 then 49152 + random % 16384 else localPort

/-- `connect` up to its wait; `sent` says whether the SYN found a route. -/
def connect (s : TcpDriver) (c : SocketId) (tuple : ConnectionTuple) (o : Opening)
    (sent : Bool) : Option (TcpDriver × SocketResult) := do
  let t ← TcpControlBlock.connect (s.cells c).opts o.iss o.tsOffset o.now
  let b := s.nextBlock
  let s := s.insertBlock t tuple
  if sent then some ({ s with connecting := s.connecting ++ [⟨c, b, tuple⟩] }, .waits)
  else
    some ({ s.setBlock b none with connections := s.connections.erase tuple },
      .failed (.io .noRoute))

/-- The four-tuple of an active open, or the error. `ip` is the address of the first interface. -/
def connectTuple (c : SocketId) (remoteIp : Ipv4Addr) (remotePort : Nat)
    (ip : Option Ipv4Addr) (random : Nat) : Except TcpSocketError ConnectionTuple :=
  match (s.cells c).role with
  | .connected _ => .error .alreadyConnected
  | .listener _ _ _ _ _ => .error .notBound
  | .closed => .error .closed
  | .bound localIp port _ => .ok ⟨localIp, connectPort port random, remoteIp, remotePort⟩
  | .unbound =>
    match ip with
    | none => .error .notBound
    | some localIp => .ok ⟨localIp, connectPort 0 random, remoteIp, remotePort⟩

def socketConnect (remoteIp : Ipv4Addr) (remotePort : Nat)
    (ip : Option Ipv4Addr) (random : Nat) (o : Opening) (sent : Bool) :
    Option (TcpDriver × SocketResult) :=
  match s.table.sockets.lookup h with
  | none => some (s, .failed .invalidHandle)
  | some c =>
    match s.connectTuple c remoteIp remotePort ip random with
    | .error e => some (s, .failed e)
    | .ok tuple => s.connect c tuple o sent

/-- One round of the wait in `connect`, and the end of `socket_connect` if it is over. -/
def connectPoll (i : Nat) (expired : Bool) : TcpDriver × SocketResult :=
  match s.connecting[i]? with
  | none => (s, .waits)
  | some k =>
    match s.blocks k.block with
    | none => (s, .waits)
    | some block =>
      let ended := { s with connecting := s.connecting.eraseIdx i }
      if block.tcb.state = .established then (ended.setRole k.socket (.connected k.block), .done)
      else if block.tcb.state = .closed then
        ({ ended with connections := s.connections.erase k.tuple },
          .failed (.io (block.tcb.lastError.getD .connectionRefused)))
      else if expired then
        -- the thread was the last to hold the block
        ({ ended.setBlock k.block none with connections := s.connections.erase k.tuple },
          .failed (.io .timeout))
      else (s, .waits)

/-! ## Closing -/

def closeBlock (now : Instant) (s : TcpDriver) (b : BlockId) : TcpDriver :=
  s.setBlock b ((s.blocks b).map fun block => { block with tcb := block.tcb.closeConnection now })

def socketClose (now : Instant) : TcpDriver × SocketResult :=
  match s.table.sockets.lookup h with
  | none => (s, .failed .invalidHandle)
  | some c =>
    let table := { s.table with sockets := s.table.sockets.erase h }
    let gone := { s with table := table }.setRole c .closed
    match (s.cells c).role with
    | .listener _ port _ _ pending =>
      (pending.foldl (closeBlock now)
        { gone with table := { table with listeners := table.listeners.erase port } }, .done)
    | .bound _ port _ => ({ gone with table := table.release (some port) }, .done)
    | .connected b => (closeBlock now gone b, .done)
    | _ => (gone, .done)

/-! ## Segments -/

def listenerOpts (port : Nat) : Option TcpSessionSettings := do
  let h ← s.table.listeners.lookup port
  let c ← s.table.sockets.lookup h
  some (s.cells c).opts

/-- `enqueue_accepted_connection`; a full backlog drops it. -/
def enqueueAccepted (port : Nat) (b : BlockId) : TcpDriver :=
  match (s.table.listeners.lookup port).bind s.table.sockets.lookup with
  | none => s
  | some c =>
    match (s.cells c).role with
    | .listener localIp localPort nic backlog pending =>
      if backlog ≤ pending.length then s
      else s.setRole c (.listener localIp localPort nic backlog (pending ++ [b]))
    | _ => s

/-- The acknowledgement that completes a passive open. -/
def completesPassive (t : TcpControlBlock) (seg : Segment) : Bool :=
  t.state == .synReceived && !seg.flags.rst && seg.flags.ack && t.isAcceptableAck seg.ack

/-- `process_data` for a segment of a connection. -/
def processKnown (M : CubicMath) (s : TcpDriver) (b : BlockId) (block : TcpBlock) (seg : Segment)
    (now : Instant) : Option TcpDriver := do
  let t ← block.tcb.processData M seg now
  let s := s.setBlock b (some { block with tcb := t })
  some (if completesPassive block.tcb seg then s.enqueueAccepted block.tuple.localPort b else s)

def processUnknown (tuple : ConnectionTuple) (seg : Segment) (o : Opening) : Option TcpDriver :=
  if seg.flags.rst then some s
  else if seg.flags.syn && !seg.flags.ack then
    match s.listenerOpts tuple.localPort with
    | none => some s
    | some settings => do
      let t ← TcpControlBlock.processPassiveSyn settings o.iss o.tsOffset seg o.now
      some (s.insertBlock t tuple)
  else some s

def processData (M : CubicMath) (s : TcpDriver) (tuple : ConnectionTuple) (seg : Segment)
    (o : Opening) : Option TcpDriver :=
  match s.connections.lookup tuple with
  | none => s.processUnknown tuple seg o
  | some b =>
    match s.blocks b with
    | none => some s
    | some block => s.processKnown M b block seg o.now

/-- What the application and the timer thread do to a block. -/
def onBlock (b : BlockId) (op : LocalOp) : Option TcpDriver :=
  match s.blocks b with
  | none => some s
  | some block => do
    let t ← block.tcb.localOp op
    some (s.setBlock b (some { block with tcb := t }))

/-- The timer thread comes to a block. -/
def visit (b : BlockId) : TcpDriver :=
  match s.blocks b with
  | none => s
  | some block =>
    if block.tcb.state = .closed then { s with removeTuples := s.removeTuples ++ [block.tuple] }
    else s

/-- The end of a pass of the timer thread; nothing is removed if the table is locked. -/
def sweep (locked : Bool) : TcpDriver :=
  if locked then { s with removeTuples := [] }
  else
    { s with
      connections := s.removeTuples.foldl (fun table tuple => table.erase tuple) s.connections
      removeTuples := [] }

end TcpDriver

/-! ## Runs -/

inductive SocketEvent where
  | create
  | setOpts (h : TcpSocketHandle) (opts : TcpSessionSettings)
  | bind (h : TcpSocketHandle) (port : Nat) (nic : NetworkInterfaceId) (ip : Option Ipv4Addr)
  | listen (h : TcpSocketHandle) (backlog : Nat)
  | accept (h : TcpSocketHandle)
  | connect (h : TcpSocketHandle) (remoteIp : Ipv4Addr) (remotePort : Nat) (ip : Option Ipv4Addr)
      (random : Nat) (o : Opening) (sent : Bool)
  | poll (i : Nat) (expired : Bool)
  | close (h : TcpSocketHandle) (now : Instant)
  | segment (tuple : ConnectionTuple) (seg : Segment) (o : Opening)
  | onBlock (b : BlockId) (op : LocalOp)
  | visit (b : BlockId)
  | sweep (locked : Bool)

def TcpDriver.step (M : CubicMath) (s : TcpDriver) : SocketEvent → Option (TcpDriver × SocketResult)
  | .create => some s.socketCreate
  | .setOpts h opts => some (s.socketSetOpts h opts)
  | .bind h port nic ip => some (s.socketBind h port nic ip)
  | .listen h backlog => some (s.socketListen h backlog)
  | .accept h => some (s.socketAccept h)
  | .connect h remoteIp remotePort ip random o sent =>
    s.socketConnect h remoteIp remotePort ip random o sent
  | .poll i expired => some (s.connectPoll i expired)
  | .close h now => some (s.socketClose h now)
  | .segment tuple seg o => (s.processData M tuple seg o).map (·, .done)
  | .onBlock b op => (s.onBlock b op).map (·, .done)
  | .visit b => some (s.visit b, .done)
  | .sweep locked => some (s.sweep locked, .done)

end Moose.Net
