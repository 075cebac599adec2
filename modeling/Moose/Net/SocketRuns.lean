import Moose.Net.SocketTables

/-!
# Runs of the socket layer

`Agrees` is what the tables and the sockets have in common: `Ports` for the ports and `Reachable`
for the connections. Every call, segment and pass of the timer thread keeps it, as long as the step
is in none of the cases that `socketOk` rules out:

* a handle is given out again after the counter has wrapped, while its socket is still open;
* a bind to any port finds none free, after it gave up the port the socket had;
* a connect, or the end of one, finds a block that is in use under its four-tuple;
* a connect ends on a socket that listens by now;
* a connected socket that still holds a port is closed;
* the timer thread removes a four-tuple that is in use again.
-/

set_option autoImplicit false

namespace Moose.Net

open Option Function Lib
open Tcp (Instant Segment TcpControlBlock TcpSessionSettings TcpError CubicMath LocalOp TcpState)

namespace TcpDriver

def kinds (s : TcpDriver) : SocketId → SocketKind := fun c => (s.cells c).role.kind

structure Agrees (s : TcpDriver) : Prop where
  ports : Ports s.table s.kinds s.nextCell
  reachable : Reachable s.connections s.blocks

/-- No block that is in use is found under the four-tuple. -/
def vacant (s : TcpDriver) (tuple : ConnectionTuple) : Bool :=
  (s.connections.lookup tuple).all s.dead

def holdsBoundPort (s : TcpDriver) (h : TcpSocketHandle) : Bool :=
  s.table.boundPorts.entries.any fun e => e.2 == h

def socketOk (s : TcpDriver) : SocketEvent → Bool
  | .create | .accept _ => (s.table.sockets.lookup s.table.nextHandle).isNone
  | .bind h port _ _ =>
    match (s.table.sockets.lookup h).map s.kinds with
    | some (.bound old) => port != 0 || (s.table.release (some old)).allocEphemeralPort.isSome
    | _ => true
  | .connect h remoteIp remotePort ip random _ _ =>
    (s.table.sockets.lookup h).all fun c =>
      match s.connectTuple c remoteIp remotePort ip random with
      | .error _ => true
      | .ok tuple => s.vacant tuple
  | .poll i expired =>
    (s.connecting[i]?).all fun k => (s.blocks k.block).all fun block =>
      if block.tcb.state = .established then
        match s.kinds k.socket with
        | .listening _ => false
        | _ => true
      else if block.tcb.state = .closed ∨ expired then
        s.connections.lookup k.tuple == some k.block || s.vacant k.tuple
      else true
  | .close h _ =>
    match (s.table.sockets.lookup h).map s.kinds with
    | some .connected => !s.holdsBoundPort h
    | _ => true
  | .sweep locked => locked || s.removeTuples.all s.vacant
  | .setOpts _ _ | .listen _ _ | .segment _ _ _ | .onBlock _ _ | .visit _ => true

variable {s : TcpDriver} {h : TcpSocketHandle} {c : SocketId}

variable {tuple : ConnectionTuple} {port : Nat} {s' : TcpDriver} {r : SocketResult} {o : Opening}

theorem vacant_of_eq_true (hv : s.vacant tuple = true) : Vacant s.connections s.blocks tuple := by
  intro b block hentry hblock
  rw [vacant, hentry, all_some, dead, hblock, all_some] at hv
  exact of_decide_eq_true hv

theorem kinds_setRole (s : TcpDriver) (c : SocketId) (role : TcpSocketRole) :
    (s.setRole c role).kinds = update s.kinds c role.kind := by
  funext c'
  simp only [kinds, setRole, update_apply]
  split <;> rfl

theorem kinds_insertSocket (s : TcpDriver) (sock : TcpSocket) :
    (s.insertSocket sock).kinds = update s.kinds s.nextCell sock.role.kind := by
  funext c'
  simp only [kinds, insertSocket, update_apply]
  split <;> rfl

theorem agrees_new : Agrees new := by
  have hnone : ∀ {K V : Type} [DecidableEq K] (k : K) (v : V),
      (∅ : AList fun _ : K => V).lookup k ≠ some v := by
    intro K V _ k v hk
    rw [AList.lookup_empty] at hk
    cases hk
  refine ⟨⟨?_, ?_, ?_, ?_, ?_, ?_, ?_, ?_⟩, ?_⟩
  · exact fun h c hk => absurd hk (hnone h c)
  · exact fun h _ c hk => absurd hk (hnone h c)
  · exact fun h c _ hk => absurd hk (hnone h c)
  · exact fun h c _ hk => absurd hk (hnone h c)
  · exact fun p h hk => absurd hk (hnone p h)
  · exact fun p h hk => absurd hk (hnone p h)
  · exact fun p h hk => absurd hk (hnone p h)
  · exact ⟨AList.lookup_empty 0, AList.lookup_empty 0⟩
  · exact fun b block hblock => nomatch hblock

/-! ## One lemma for each event -/

theorem Agrees.insertSocket (ha : s.Agrees)
    (hfree : (s.table.sockets.lookup s.table.nextHandle).isNone = true) {sock : TcpSocket}
    (hk : sock.role.kind = .unbound ∨ sock.role.kind = .connected) :
    (s.insertSocket sock).Agrees := by
  refine ⟨?_, ha.reachable⟩
  rw [kinds_insertSocket]
  exact ha.ports.insert (isNone_iff_eq_none.mp hfree) hk

theorem Agrees.socketSetOpts (ha : s.Agrees) (opts : TcpSessionSettings) :
    (s.socketSetOpts h opts).1.Agrees := by
  unfold TcpDriver.socketSetOpts
  split
  · exact ha
  rename_i c _
  refine ⟨?_, ha.reachable⟩
  have hkinds : (TcpDriver.kinds { s with
      cells := update s.cells c { s.cells c with opts := opts } }) = s.kinds := by
    funext c'
    simp only [kinds, update_apply]
    split
    next hc =>
      rw [hc]
    · rfl
  exact hkinds.symm ▸ ha.ports

theorem allocEphemeralPort_spec {t : TcpSocketTable} {p : Nat}
    (hp : t.allocEphemeralPort = some p) :
    p ≠ 0 ∧ t.portInUse p = false := by
  have hmem := List.mem_of_find?_eq_some hp
  have hfree := List.find?_some hp
  rw [List.mem_range'_1] at hmem
  exact ⟨by omega, by simpa using hfree⟩

section

variable (ha : s.Agrees)
include ha

theorem Agrees.bindPort (hlookup : s.table.sockets.lookup h = some c) (old : Option Nat)
    (hkind : s.kinds c = old.elim .unbound .bound)
    (hport : ∀ o, old = some o → port = 0 → (s.table.release old).allocEphemeralPort ≠ none)
    (nic : NetworkInterfaceId) (ip : Option Ipv4Addr) :
    (s.bindPort h c old port nic ip).1.Agrees := by
  have hassign : ∀ (localIp : Ipv4Addr) (p : Nat), p ≠ 0 →
      (s.table.release old).portInUse p = false →
      ({ s with table := (s.table.release old).hold h (some p) }.setRole c
        (.bound localIp p nic)).Agrees := by
    intro localIp p hne hfree
    refine ⟨?_, ha.reachable⟩
    rw [kinds_setRole]
    exact ha.ports.bind hlookup hkind hne hfree
  unfold TcpDriver.bindPort
  split
  · exact ha
  dsimp only
  split
  · split
    next p halloc =>
      exact hassign _ p (allocEphemeralPort_spec halloc).1 (allocEphemeralPort_spec halloc).2
    rename_i hzero _ hnone
    -- without a port of its own the socket gave nothing up
    cases old with
    | none => exact ha
    | some o => exact absurd hnone (hport o rfl hzero)
  next hne =>
    split
    · exact ⟨ha.ports.restore hlookup hkind, ha.reachable⟩
    next hfree =>
      exact hassign _ port hne (eq_false_of_ne_true hfree)

theorem Agrees.socketBind {nic : NetworkInterfaceId} {ip : Option Ipv4Addr}
    (hok : s.socketOk (.bind h port nic ip) = true) : (s.socketBind h port nic ip).1.Agrees := by
  unfold TcpDriver.socketBind
  split
  · exact ha
  rename_i c hlookup
  split
  next hrole =>
    exact ha.bindPort hlookup none (by rw [kinds, hrole]; rfl) (fun _ h => nomatch h) nic ip
  next localIp old nic' hrole =>
    have hkind : s.kinds c = .bound old := by
      rw [kinds, hrole]
      rfl
    refine ha.bindPort hlookup (some old) hkind ?_ nic ip
    rintro o ho rfl hnone
    rw [socketOk, hlookup, map_some, hkind] at hok
    simp only [bne_self_eq_false, Bool.false_or] at hok
    rw [hnone] at hok
    cases hok
  · exact ha
  · exact ha
  · exact ha

theorem Agrees.socketListen (backlog : Nat) : (s.socketListen h backlog).1.Agrees := by
  unfold TcpDriver.socketListen
  split
  · exact ha
  rename_i c hlookup
  split
  next localIp port nic hrole =>
    split
    · exact ha
    rename_i hfree
    refine ⟨?_, ha.reachable⟩
    rw [kinds_setRole]
    refine ha.ports.listen hlookup ?_ (not_isSome_iff_eq_none.mp hfree)
    rw [kinds, hrole]
    rfl
  · exact ha
  · exact ha

/-- The queue of a listener is nothing the tables have to know. -/
theorem Agrees.setPending {localIp : Ipv4Addr} {port backlog : Nat} {nic : NetworkInterfaceId}
    {pending : List BlockId} (hrole : (s.cells c).role = .listener localIp port nic backlog pending)
    (pending' : List BlockId) :
    (s.setRole c (.listener localIp port nic backlog pending')).Agrees := by
  refine ⟨?_, ha.reachable⟩
  have hsame : (TcpSocketRole.listener localIp port nic backlog pending').kind = s.kinds c := by
    rw [kinds, hrole]
    rfl
  rw [kinds_setRole, hsame, update_eq_self]
  exact ha.ports

theorem Agrees.socketAccept (hok : s.socketOk (.accept h) = true) :
    (s.socketAccept h).1.Agrees := by
  unfold TcpDriver.socketAccept
  split
  · exact ha
  rename_i c hlookup
  split
  next hrole =>
    exact (ha.setPending hrole _).insertSocket hok (.inr rfl)
  · exact ha
  · exact ha
  · exact ha

theorem Agrees.insertBlock (hvacant : Vacant s.connections s.blocks tuple) (t : TcpControlBlock) :
    (s.insertBlock t tuple).Agrees :=
  ⟨ha.ports, ha.reachable.insert hvacant t⟩

theorem Agrees.connect {sent : Bool} (hvacant : Vacant s.connections s.blocks tuple)
    (hstep : s.connect c tuple o sent = some (s', r)) : s'.Agrees := by
  simp only [TcpDriver.connect, bind_eq_some] at hstep
  obtain ⟨t, -, hstep⟩ := hstep
  have hopen := ha.insertBlock hvacant t
  split at hstep
  · cases hstep
    exact ⟨hopen.ports, hopen.reachable⟩
  cases hstep
  refine ⟨hopen.ports, hopen.reachable.drop.erase ?_⟩
  -- the entry is that of the block just dropped
  intro b block hentry hblock
  cases (AList.lookup_insert _).symm.trans hentry
  rw [update_self] at hblock
  cases hblock

theorem Agrees.socketConnect {remoteIp : Ipv4Addr} {remotePort random : Nat} {ip : Option Ipv4Addr}
    {sent : Bool} (hok : s.socketOk (.connect h remoteIp remotePort ip random o sent) = true)
    (hstep : s.socketConnect h remoteIp remotePort ip random o sent = some (s', r)) :
    s'.Agrees := by
  unfold TcpDriver.socketConnect at hstep
  split at hstep
  · cases hstep
    exact ha
  rename_i c hlookup
  rw [socketOk, hlookup, all_some] at hok
  split at hstep
  · cases hstep
    exact ha
  next tuple htuple =>
    rw [htuple] at hok
    exact ha.connect (vacant_of_eq_true hok) hstep

theorem Agrees.connectPoll {i : Nat} {expired : Bool} (hok : s.socketOk (.poll i expired) = true) :
    (s.connectPoll i expired).1.Agrees := by
  unfold TcpDriver.connectPoll
  split
  · exact ha
  rename_i k hk
  split
  · exact ha
  rename_i block hblock
  rw [socketOk, hk, all_some, hblock, all_some] at hok
  split
  next hest =>
    rw [if_pos hest] at hok
    refine ⟨?_, ha.reachable⟩
    rw [kinds_setRole]
    refine ha.ports.connected fun p hlisten => ?_
    rw [show TcpDriver.kinds _ k.socket = s.kinds k.socket from rfl] at hlisten
    rw [hlisten] at hok
    cases hok
  rename_i hest
  rw [if_neg hest] at hok
  -- whatever is found under the four-tuple, it is not in use once this block is not
  have hvacant : ∀ {blocks : BlockId → Option TcpBlock},
      (block.tcb.state = .closed ∨ expired = true) →
      (∀ block', blocks k.block = some block' → block'.tcb.state = .closed) →
      (∀ b, b ≠ k.block → blocks b = s.blocks b) →
      Vacant s.connections blocks k.tuple := by
    intro blocks hover hown hother b block' hentry hblock'
    rw [if_pos hover, Bool.or_eq_true, beq_iff_eq] at hok
    by_cases hb : b = k.block
    · subst hb
      exact hown block' hblock'
    rw [hother b hb] at hblock'
    rcases hok with hsame | hv
    · exact absurd (some.inj (hentry.symm.trans hsame)) hb
    · exact vacant_of_eq_true hv b block' hentry hblock'
  split
  next hclosed =>
    refine ⟨ha.ports, ha.reachable.erase (hvacant (.inl hclosed) ?_ fun _ _ => rfl)⟩
    intro block' hblock'
    cases hblock.symm.trans hblock'
    exact hclosed
  · split
    next hexpired =>
      refine ⟨ha.ports, ha.reachable.drop.erase (hvacant (.inr hexpired) ?_ ?_)⟩
      · intro block' hblock'
        rw [update_self] at hblock'
        cases hblock'
      · exact fun b hb => update_of_ne hb _ _
    · exact ha

theorem Agrees.closeBlock (now : Instant) (b : BlockId) : (closeBlock now s b).Agrees := by
  refine ⟨ha.ports, ?_⟩
  cases hblock : s.blocks b with
  | none =>
    have hdrop := ha.reachable.drop (b := b)
    rw [TcpDriver.closeBlock, hblock]
    exact hdrop
  | some block =>
    rw [TcpDriver.closeBlock, hblock]
    exact ha.reachable.update hblock (closeConnection_closed now)

end

theorem Agrees.closeBlocks (now : Instant) (bs : List BlockId) :
    ∀ {s : TcpDriver}, s.Agrees → (bs.foldl (TcpDriver.closeBlock now) s).Agrees := by
  induction bs with
  | nil => exact fun ha => ha
  | cons b bs ih => exact fun ha => ih (ha.closeBlock now b)

/-- Closing blocks is nothing to the sockets. -/
theorem foldl_closeBlock (now : Instant) (bs : List BlockId) :
    ∀ s : TcpDriver, (bs.foldl (TcpDriver.closeBlock now) s).table = s.table ∧
      (bs.foldl (TcpDriver.closeBlock now) s).cells = s.cells := by
  induction bs with
  | nil => exact fun s => ⟨rfl, rfl⟩
  | cons b bs ih => exact fun s => ih (TcpDriver.closeBlock now s b)

theorem ne_of_holdsBoundPort (hholds : s.holdsBoundPort h = false) (q : Nat) :
    s.table.boundPorts.lookup q ≠ some h := by
  intro hentry
  have hmem := AList.mem_lookup_iff.mp hentry
  have hany : s.holdsBoundPort h = true := List.any_eq_true.mpr ⟨⟨q, h⟩, hmem, beq_self_eq_true h⟩
  cases hholds.symm.trans hany

section

variable (ha : s.Agrees)
include ha

/-- The socket is gone, with everything it had in the tables of ports. -/
theorem Agrees.gone {table : TcpSocketTable} (hlookup : s.table.sockets.lookup h = some c)
    (hsockets : table.sockets = s.table.sockets.erase h)
    (hbound : ∀ q h', table.boundPorts.lookup q = some h' ↔
      s.table.boundPorts.lookup q = some h' ∧ h' ≠ h)
    (hlisten : ∀ q h', table.listeners.lookup q = some h' ↔
      s.table.listeners.lookup q = some h' ∧ h' ≠ h) :
    ({ s with table := table }.setRole c .closed).Agrees := by
  refine ⟨?_, ha.reachable⟩
  rw [kinds_setRole]
  exact ha.ports.close hlookup hsockets hbound hlisten

theorem Agrees.socketClose {now : Instant} (hok : s.socketOk (.close h now) = true) :
    (s.socketClose h now).1.Agrees := by
  unfold TcpDriver.socketClose
  split
  · exact ha
  rename_i c hlookup
  rw [socketOk, hlookup, map_some] at hok
  -- which entries lead to the handle is said by the kind of the socket
  have hnoBound : (∀ p, s.kinds c ≠ .bound p) → s.kinds c ≠ .connected →
      ∀ q, s.table.boundPorts.lookup q ≠ some h := by
    intro hb hc q hentry
    rcases ha.ports.kind_of_boundEntry hlookup hentry with hk | hk
    · exact hb q hk
    · exact hc hk
  have hnoListen : (∀ p, s.kinds c ≠ .listening p) →
      ∀ q, s.table.listeners.lookup q ≠ some h :=
    fun hl q hentry => hl q (ha.ports.kind_of_listenEntry hlookup hentry)
  have hkind : s.kinds c = (s.cells c).role.kind := rfl
  split
  next hrole =>
    rw [hrole] at hkind
    refine Agrees.closeBlocks now _ (ha.gone hlookup rfl ?_ ?_)
    · exact Ports.entries_stay (hnoBound (by rw [hkind]; exact fun _ h => nomatch h)
        (by rw [hkind]; exact fun h => nomatch h))
    refine Ports.entries_erase (ha.ports.listening h c _ hlookup hkind) fun q hentry => ?_
    cases hkind.symm.trans (ha.ports.kind_of_listenEntry hlookup hentry)
    rfl
  next hrole =>
    rw [hrole] at hkind
    refine ha.gone hlookup rfl ?_ ?_
    · refine Ports.entries_erase (ha.ports.bound h c _ hlookup hkind) fun q hentry => ?_
      rcases ha.ports.kind_of_boundEntry hlookup hentry with hk | hk
      · cases hkind.symm.trans hk
        rfl
      · cases hkind.symm.trans hk
    · exact Ports.entries_stay (hnoListen (by rw [hkind]; exact fun _ h => nomatch h))
  next b hrole =>
    rw [hrole] at hkind
    rw [hkind] at hok
    refine Agrees.closeBlock (ha.gone hlookup rfl ?_ ?_) now b
    · exact Ports.entries_stay (ne_of_holdsBoundPort ((Bool.not_eq_true' _).mp hok))
    · exact Ports.entries_stay (hnoListen (by rw [hkind]; exact fun _ h => nomatch h))
  rename_i hlistener hbound hconnected
  refine ha.gone hlookup rfl ?_ ?_
  · refine Ports.entries_stay (hnoBound (fun p hk => ?_) fun hk => ?_)
    · cases hrole : (s.cells c).role <;> rw [hkind, hrole] at hk <;> cases hk
      exact hbound _ _ _ hrole
    cases hrole : (s.cells c).role <;> rw [hkind, hrole] at hk <;> cases hk
    exact hconnected _ hrole
  · refine Ports.entries_stay (hnoListen fun p hk => ?_)
    cases hrole : (s.cells c).role <;> rw [hkind, hrole] at hk <;> cases hk
    exact hlistener _ _ _ _ _ hrole

theorem Agrees.enqueueAccepted (port : Nat) (b : BlockId) : (s.enqueueAccepted port b).Agrees := by
  unfold TcpDriver.enqueueAccepted
  split
  · exact ha
  split
  next hrole =>
    split
    · exact ha
    · exact ha.setPending hrole _
  · exact ha

theorem Agrees.setBlock {b : BlockId} {block : TcpBlock} {t : TcpControlBlock}
    (hblock : s.blocks b = some block) (hclosed : block.tcb.state = .closed → t.state = .closed) :
    (s.setBlock b (some { block with tcb := t })).Agrees :=
  ⟨ha.ports, ha.reachable.update hblock hclosed⟩

theorem Agrees.processData {M : CubicMath} {seg : Segment}
    (hstep : s.processData M tuple seg o = some s') : s'.Agrees := by
  unfold TcpDriver.processData at hstep
  split at hstep
  next hentry =>
    unfold processUnknown at hstep
    split at hstep
    · cases hstep
      exact ha
    split at hstep
    · split at hstep
      · cases hstep
        exact ha
      simp only [bind_eq_some] at hstep
      obtain ⟨t, -, hstep⟩ := hstep
      cases hstep
      refine ha.insertBlock (fun b block hsome _ => ?_) t
      cases hentry.symm.trans hsome
    · cases hstep
      exact ha
  next b hentry =>
    split at hstep
    · cases hstep
      exact ha
    rename_i block hblock
    unfold processKnown at hstep
    simp only [bind_eq_some] at hstep
    obtain ⟨t, ht, hstep⟩ := hstep
    cases hstep
    have hset := ha.setBlock (t := t) hblock fun hclosed => by
      unfold TcpControlBlock.processData at ht
      rw [hclosed] at ht
      cases ht
      exact hclosed
    split
    · exact hset.enqueueAccepted _ b
    · exact hset

theorem Agrees.onBlock {b : BlockId} {op : LocalOp} (hstep : s.onBlock b op = some s') :
    s'.Agrees := by
  unfold TcpDriver.onBlock at hstep
  split at hstep
  · cases hstep
    exact ha
  rename_i block hblock
  simp only [bind_eq_some] at hstep
  obtain ⟨t, ht, hstep⟩ := hstep
  cases hstep
  exact ha.setBlock hblock (localOp_closed ht)

theorem Agrees.visit (b : BlockId) : (s.visit b).Agrees := by
  unfold TcpDriver.visit
  split
  · exact ha
  split
  · exact ⟨ha.ports, ha.reachable⟩
  · exact ha

theorem Agrees.sweep {locked : Bool} (hok : s.socketOk (.sweep locked) = true) :
    (s.sweep locked).Agrees := by
  unfold TcpDriver.sweep
  split
  · exact ⟨ha.ports, ha.reachable⟩
  next hlocked =>
    rw [socketOk, eq_false_of_ne_true hlocked, Bool.false_or, List.all_eq_true] at hok
    exact ⟨ha.ports, ha.reachable.eraseAll _ fun tuple hmem => vacant_of_eq_true (hok tuple hmem)⟩

theorem Agrees.step {M : CubicMath} {e : SocketEvent} (hok : s.socketOk e = true)
    (hstep : s.step M e = some (s', r)) : s'.Agrees := by
  have hdone : ∀ {p : TcpDriver × SocketResult}, p.1.Agrees → some p = some (s', r) →
      s'.Agrees := by
    intro p hp heq
    cases heq
    exact hp
  cases e with
  | create =>
    cases hstep
    exact ha.insertSocket hok (.inl rfl)
  | setOpts h opts => exact hdone (ha.socketSetOpts opts) hstep
  | bind h port nic ip => exact hdone (ha.socketBind hok) hstep
  | listen h backlog => exact hdone (ha.socketListen backlog) hstep
  | accept h => exact hdone (ha.socketAccept hok) hstep
  | connect h remoteIp remotePort ip random o sent => exact ha.socketConnect hok hstep
  | poll i expired => exact hdone (ha.connectPoll hok) hstep
  | close h now => exact hdone (ha.socketClose hok) hstep
  | segment tuple seg o =>
    obtain ⟨s1, h1, heq⟩ := map_eq_some_iff.mp hstep
    cases heq
    exact ha.processData h1
  | onBlock b op =>
    obtain ⟨s1, h1, heq⟩ := map_eq_some_iff.mp hstep
    cases heq
    exact ha.onBlock h1
  | visit b =>
    cases hstep
    exact ha.visit b
  | sweep locked =>
    cases hstep
    exact ha.sweep hok

/-! ## What follows for the sockets -/

/-- The tables agree with the sockets that are open, and with the blocks that are in use. -/
structure Consistent (s : TcpDriver) : Prop where
  /-- a bound socket owns the entry of its port, and no other -/
  bound : ∀ h c localIp port nic, s.table.sockets.lookup h = some c →
    (s.cells c).role = .bound localIp port nic →
    ∀ q, s.table.boundPorts.lookup q = some h ↔ q = port
  listener : ∀ h c localIp port nic backlog pending, s.table.sockets.lookup h = some c →
    (s.cells c).role = .listener localIp port nic backlog pending →
    ∀ q, s.table.listeners.lookup q = some h ↔ q = port
  /-- no entry refers to a closed socket -/
  entries : ∀ q h, s.table.boundPorts.lookup q = some h ∨ s.table.listeners.lookup q = some h →
    ∃ c, s.table.sockets.lookup h = some c ∧ (s.cells c).role ≠ .closed
  /-- closing a socket frees its port: any other socket can be bound to it -/
  released : ∀ h c port now, s.table.sockets.lookup h = some c →
    s.kinds c = .bound port ∨ s.kinds c = .listening port →
    (s.socketClose h now).1.table.portInUse port = false ∧
    ∀ h' c' nic ip, s.table.sockets.lookup h' = some c' → (s.cells c').role = .unbound →
      ((s.socketClose h now).1.socketBind h' port nic (some ip)).2 = .done
  /-- a block stays under its four-tuple until it is closed -/
  reachable : ∀ b block, s.blocks b = some block → block.tcb.state ≠ .closed →
    s.connections.lookup block.tuple = some b

/-- What closing a socket that has a port leaves of the tables. -/
theorem Agrees.socketClose_frees (hlookup : s.table.sockets.lookup h = some c)
    (hkind : s.kinds c = .bound port ∨ s.kinds c = .listening port) (now : Instant) :
    (s.socketClose h now).1.table.portInUse port = false ∧
    (s.socketClose h now).1.table.sockets = s.table.sockets.erase h ∧
    ∀ c', c' ≠ c → (s.socketClose h now).1.cells c' = s.cells c' := by
  unfold TcpDriver.socketClose
  rw [hlookup]
  dsimp only
  have hcells : ∀ c', c' ≠ c → update s.cells c { s.cells c with role := .closed } c' =
      s.cells c' := fun c' hne => update_of_ne hne _ _
  rcases hkind with hkind | hkind <;> cases hrole : (s.cells c).role <;>
    rw [kinds, hrole] at hkind <;> cases hkind
  · have hentry := ha.ports.bound h c port hlookup (by rw [kinds, hrole]; rfl)
    refine ⟨?_, rfl, hcells⟩
    simp [TcpSocketTable.portInUse, TcpSocketTable.release, ha.ports.apart port h hentry]
  have hentry := ha.ports.listening h c port hlookup (by rw [kinds, hrole]; rfl)
  have hnone : s.table.boundPorts.lookup port = none := by
    refine eq_none_iff_forall_ne_some.mpr fun h' hb => ?_
    cases (ha.ports.apart port h' hb).symm.trans hentry
  refine ⟨?_, ?_, ?_⟩
  · rw [(foldl_closeBlock now _ _).1]
    simp [TcpSocketTable.portInUse, hnone]
  · rw [(foldl_closeBlock now _ _).1]
  · rw [(foldl_closeBlock now _ _).2]
    exact hcells

theorem Agrees.consistent : s.Consistent := by
  constructor
  · intro h c localIp port nic hlookup hrole q
    have hkind : s.kinds c = .bound port := by
      rw [kinds, hrole]
      rfl
    constructor
    · intro hentry
      rcases ha.ports.kind_of_boundEntry hlookup hentry with hk | hk <;>
        cases hkind.symm.trans hk
      rfl
    · rintro rfl
      exact ha.ports.bound h c q hlookup hkind
  · intro h c localIp port nic backlog pending hlookup hrole q
    have hkind : s.kinds c = .listening port := by
      rw [kinds, hrole]
      rfl
    constructor
    · intro hentry
      cases hkind.symm.trans (ha.ports.kind_of_listenEntry hlookup hentry)
      rfl
    · rintro rfl
      exact ha.ports.listening h c q hlookup hkind
  · rintro q h (hentry | hentry)
    · obtain ⟨c, hlookup, hk⟩ := ha.ports.boundEntry q h hentry
      refine ⟨c, hlookup, fun hrole => ?_⟩
      rw [kinds, hrole] at hk
      rcases hk with hk | hk <;> cases hk
    obtain ⟨c, hlookup, hk⟩ := ha.ports.listenEntry q h hentry
    refine ⟨c, hlookup, fun hrole => ?_⟩
    rw [kinds, hrole] at hk
    cases hk
  · intro h c port now hlookup hkind
    obtain ⟨hfree, hsockets, hcells⟩ := ha.socketClose_frees hlookup hkind now
    refine ⟨hfree, fun h' c' nic ip hlookup' hrole' => ?_⟩
    have hne : c' ≠ c := by
      rintro rfl
      rw [kinds, hrole'] at hkind
      rcases hkind with hk | hk <;> cases hk
    have hport : port ≠ 0 := by
      rintro rfl
      rcases hkind with hk | hk
      · cases ha.ports.zero.1.symm.trans (ha.ports.bound h c 0 hlookup hk)
      · cases ha.ports.zero.2.symm.trans (ha.ports.listening h c 0 hlookup hk)
    have hhandle : h' ≠ h := mt (ha.ports.ne_of_handle_ne hlookup hlookup').mp hne
    have hstill : (s.socketClose h now).1.table.sockets.lookup h' = some c' := by
      rw [hsockets, AList.lookup_erase_ne hhandle, hlookup']
    simp [TcpDriver.socketBind, hstill, hcells c' hne, hrole', TcpDriver.bindPort,
      TcpSocketTable.release, if_neg hport, hfree]
  · exact ha.reachable

end

/-- **The tables agree with the sockets in every state of every run** whose steps are all in order.
-/
theorem run_tables_consistent (M : CubicMath) (events : List SocketEvent) (s : TcpDriver)
    (results : List SocketResult)
    (hok : Guarded (step M) (fun s e => s.socketOk e = true) new events)
    (hrun : run (step M) new events = some (s, results)) : s.Consistent := by
  have hstep : ∀ (s : TcpDriver) (e : SocketEvent) (s' : TcpDriver) (r : SocketResult), s.Agrees →
      s.socketOk e = true → s.step M e = some (s', r) → s'.Agrees :=
    fun _ _ _ _ ha hok hstep => ha.step hok hstep
  exact (run_forall hstep agrees_new hok hrun).consistent

/-- The connection of port 80 with port 5000 of a peer. -/
def served : ConnectionTuple := ⟨10, 80, 20, 5000⟩

/-- A listener on port 80 serves the peer and is closed; another socket is bound to the port. The
connection is left to the socket that `accept` returned. -/
def servedAndRebound : List SocketEvent :=
  [.create, .setOpts 1 (.plain 4), .bind 1 80 0 (some 10), .listen 1 4,
    .segment served ⟨1000, 0, { syn := true }, 65535, [], [], false⟩ ⟨100, 0, 0⟩,
    .segment served ⟨1001, 101, { ack := true }, 65535, [], [], false⟩ ⟨0, 0, 1⟩,
    .accept 1, .close 1 2, .create, .setOpts 3 (.plain 4), .bind 3 80 0 (some 10)]

/-- The socket with the old port connects to another port of the peer. -/
theorem run_tables_consistent_rebound :
    ∃ s results, run (step CubicMath.integer) new
        (servedAndRebound ++ [.connect 3 20 5001 none 0 ⟨200, 0, 3⟩ true]) = some (s, results) ∧
      s.Consistent ∧ s.connections.lookup served = some 0 := by
  refine exists_some_imp (p := fun s _ => s.connections.lookup served = some 0)
    (by decide +kernel) fun s results hrun hentry => ?_
  exact ⟨run_tables_consistent _ _ s results (by decide +kernel) hrun, hentry⟩

/-- It connects to the port that is still served: the new block takes the place of the established
one. -/
theorem tables_not_consistent :
    ∃ s results block, run (step CubicMath.integer) new
        (servedAndRebound ++ [.connect 3 20 5000 none 0 ⟨200, 0, 3⟩ true]) = some (s, results) ∧
      s.blocks 0 = some block ∧ block.tuple = served ∧ block.tcb.state = .established ∧
      s.connections.lookup served = some 1 ∧ ¬s.Consistent := by
  obtain ⟨s, results, hrun, block, hblock, htuple, hstate, hentry⟩ : ∃ s results,
      run (step .integer) new (servedAndRebound ++ [.connect 3 20 5000 none 0 ⟨200, 0, 3⟩ true]) =
        some (s, results) ∧ ∃ block, s.blocks 0 = some block ∧ block.tuple = served ∧
          block.tcb.state = .established ∧ s.connections.lookup served = some 1 := by
    decide +kernel
  refine ⟨s, results, block, hrun, hblock, htuple, hstate, hentry, fun hc => ?_⟩
  have hstill := hc.reachable 0 block hblock (by rw [hstate]; decide)
  rw [htuple, hentry] at hstill
  cases hstill

end TcpDriver
end Moose.Net
