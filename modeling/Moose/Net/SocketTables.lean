import Moose.Net.TcpSocket
import Moose.Tcp.SendSide

/-!
# The tables and the sockets

`Ports` says that the tables of ports agree with the sockets that are open, `Reachable` that every
control block that is not closed is found under its four-tuple. Each has one lemma for every way the
socket layer edits its tables: a socket is added, bound, set to listen, connected or closed, a block
is stored, changed or dropped. A call is then a few of these edits.
-/

set_option autoImplicit false

namespace Moose.Net

open Option Function AList Lib
open Tcp (Instant Segment TcpControlBlock TcpSessionSettings TcpError CubicMath LocalOp TcpState)

/-! ## Closed blocks -/

theorem closeConnection_closed {t : TcpControlBlock} (now : Instant) (hclosed : t.state = .closed) :
    (t.closeConnection now).state = .closed := by
  unfold TcpControlBlock.closeConnection
  rw [hclosed]
  exact hclosed

theorem localOp_closed {t t' : TcpControlBlock} {op : LocalOp} (h : t.localOp op = some t')
    (hclosed : t.state = .closed) : t'.state = .closed := by
  cases op with
  | sendData data now =>
    have herror : t.sendData data now = .error .notConnected := by
      unfold TcpControlBlock.sendData
      rw [if_pos (by rw [hclosed]; decide)]
    simp only [TcpControlBlock.localOp, herror] at h
    cases h
    exact hclosed
  | close now =>
    cases h
    exact closeConnection_closed now hclosed
  | read len =>
    simp only [TcpControlBlock.localOp, map_eq_some_iff, Prod.exists] at h
    obtain ⟨t1, r, hread, rfl⟩ := h
    rw [TcpControlBlock.state_receiveSync hread, hclosed]
  | abort error =>
    cases h
    unfold TcpControlBlock.abortConnection
    rw [if_pos hclosed]
    exact hclosed
  | tick now =>
    cases h
    rcases (t.tick_quiet now).2 with hstate | hstate
    · rw [hstate, hclosed]
    · exact hstate
  | perform now due =>
    cases h
    rw [(t.pushes_perform now due).state, hclosed]

/-! ## Ports -/

section Lookup

variable {κ α : Type} [DecidableEq κ] (m : AList fun _ : κ => α) (k q : κ)

theorem lookup_insert_eq_if (v : α) :
    (m.insert k v).lookup q = if q = k then some v else m.lookup q := by
  split
  · subst q
    exact lookup_insert m
  · exact lookup_insert_ne ‹_›

theorem lookup_erase_eq_if : (m.erase k).lookup q = if q = k then none else m.lookup q := by
  split
  · subst q
    exact lookup_erase k m
  · exact lookup_erase_ne ‹_›

end Lookup

/-- What the tables of ports have to know of a socket. -/
inductive SocketKind where
  | unbound
  | bound (port : Nat)
  | listening (port : Nat)
  | connected
  | closed

def TcpSocketRole.kind : TcpSocketRole → SocketKind
  | .unbound => .unbound
  | .bound _ port _ => .bound port
  | .listener _ port _ _ _ => .listening port
  | .connected _ => .connected
  | .closed => .closed

/-- The tables of ports agree with the open sockets: a bound socket and a listener have the entry of
their port, and every entry belongs to an open socket that has the port. A connected socket may
still have the port it was bound to. -/
structure Ports (t : TcpSocketTable) (kinds : SocketId → SocketKind) (n : SocketId) : Prop where
  cells : ∀ h c, t.sockets.lookup h = some c → c < n
  distinct : ∀ h h' c, t.sockets.lookup h = some c → t.sockets.lookup h' = some c → h = h'
  bound : ∀ h c p, t.sockets.lookup h = some c → kinds c = .bound p →
    t.boundPorts.lookup p = some h
  listening : ∀ h c p, t.sockets.lookup h = some c → kinds c = .listening p →
    t.listeners.lookup p = some h
  boundEntry : ∀ p h, t.boundPorts.lookup p = some h →
    ∃ c, t.sockets.lookup h = some c ∧ (kinds c = .bound p ∨ kinds c = .connected)
  listenEntry : ∀ p h, t.listeners.lookup p = some h →
    ∃ c, t.sockets.lookup h = some c ∧ kinds c = .listening p
  apart : ∀ p h, t.boundPorts.lookup p = some h → t.listeners.lookup p = none
  zero : t.boundPorts.lookup 0 = none ∧ t.listeners.lookup 0 = none

namespace Ports

variable {t : TcpSocketTable} {kinds : SocketId → SocketKind} {n c : SocketId}
  {h : TcpSocketHandle} {p : Nat}

section

variable (hp : Ports t kinds n)
include hp

theorem lookup_congr {t' : TcpSocketTable}
    (hsockets : ∀ h, t'.sockets.lookup h = t.sockets.lookup h)
    (hbound : ∀ p, t'.boundPorts.lookup p = t.boundPorts.lookup p)
    (hlisten : ∀ p, t'.listeners.lookup p = t.listeners.lookup p) : Ports t' kinds n := by
  constructor
  · simpa only [hsockets] using hp.cells
  · simpa only [hsockets] using hp.distinct
  · simpa only [hsockets, hbound] using hp.bound
  · simpa only [hsockets, hlisten] using hp.listening
  · simpa only [hsockets, hbound] using hp.boundEntry
  · simpa only [hsockets, hlisten] using hp.listenEntry
  · simpa only [hbound, hlisten] using hp.apart
  · simpa only [hbound, hlisten] using hp.zero

/-- A socket that has just been made holds no port. -/
theorem insert (hfree : t.sockets.lookup t.nextHandle = none) {k : SocketKind}
    (hk : k = .unbound ∨ k = .connected) :
    Ports (t.insert n) (update kinds n k) (n + 1) := by
  -- an old handle is not the new one, and an old cell not the new one
  have hold : ∀ h c, t.sockets.lookup h = some c →
      (t.insert n).sockets.lookup h = some c ∧ update kinds n k c = kinds c := by
    intro h c hlookup
    have hne : h ≠ t.nextHandle := by
      rintro rfl
      cases hfree.symm.trans hlookup
    exact ⟨(lookup_insert_ne hne).trans hlookup,
      update_of_ne (Nat.ne_of_lt (hp.cells h c hlookup)) _ _⟩
  have hcases : ∀ h c, (t.insert n).sockets.lookup h = some c →
      (h = t.nextHandle ∧ c = n) ∨ t.sockets.lookup h = some c := by
    intro h c hlookup
    simp only [TcpSocketTable.insert, lookup_insert_eq_if] at hlookup
    split at hlookup
    · exact .inl ⟨‹_›, (some.inj hlookup).symm⟩
    · exact .inr hlookup
  have hself : ∀ p, update kinds n k n ≠ .bound p ∧
      update kinds n k n ≠ .listening p := by
    intro p
    rw [update_self]
    rcases hk with rfl | rfl <;> exact ⟨nofun, nofun⟩
  constructor
  · intro h c hlookup
    rcases hcases h c hlookup with ⟨-, rfl⟩ | hl
    · exact Nat.lt_succ_self _
    · exact Nat.lt_succ_of_lt (hp.cells h c hl)
  · intro h h' c hlookup hlookup'
    rcases hcases h c hlookup with ⟨rfl, rfl⟩ | hl <;> rcases hcases h' _ hlookup' with
      ⟨rfl, hc⟩ | hl'
    · rfl
    · exact absurd (hp.cells h' _ hl') (Nat.lt_irrefl _)
    · exact absurd (hc ▸ hp.cells h _ hl) (Nat.lt_irrefl _)
    · exact hp.distinct h h' c hl hl'
  · intro h c p hlookup hkind
    rcases hcases h c hlookup with ⟨-, rfl⟩ | hl
    · exact absurd hkind (hself p).1
    · exact hp.bound h c p hl ((hold h c hl).2 ▸ hkind)
  · intro h c p hlookup hkind
    rcases hcases h c hlookup with ⟨-, rfl⟩ | hl
    · exact absurd hkind (hself p).2
    · exact hp.listening h c p hl ((hold h c hl).2 ▸ hkind)
  · intro p h hentry
    obtain ⟨c, hl, hkind⟩ := hp.boundEntry p h hentry
    exact ⟨c, (hold h c hl).1, by rw [(hold h c hl).2]; exact hkind⟩
  · intro p h hentry
    obtain ⟨c, hl, hkind⟩ := hp.listenEntry p h hentry
    exact ⟨c, (hold h c hl).1, by rw [(hold h c hl).2]; exact hkind⟩
  · exact hp.apart
  · exact hp.zero

/-- A socket that is not listening becomes connected; it keeps a port it was bound to. -/
theorem connected (hkind : ∀ p, kinds c ≠ .listening p) :
    Ports t (update kinds c .connected) n := by
  have hkinds : ∀ c', update kinds c .connected c' =
      if c' = c then .connected else kinds c' := by
    intro c'
    rw [update_apply]
  constructor
  · exact hp.cells
  · exact hp.distinct
  · intro h c' p hlookup hk
    rw [hkinds] at hk
    split at hk
    · cases hk
    · exact hp.bound h c' p hlookup hk
  · intro h c' p hlookup hk
    rw [hkinds] at hk
    split at hk
    · cases hk
    · exact hp.listening h c' p hlookup hk
  · intro p h hentry
    obtain ⟨c', hlookup, hk⟩ := hp.boundEntry p h hentry
    refine ⟨c', hlookup, ?_⟩
    rw [hkinds]
    split
    · exact .inr rfl
    · exact hk
  · intro p h hentry
    obtain ⟨c', hlookup, hk⟩ := hp.listenEntry p h hentry
    refine ⟨c', hlookup, ?_⟩
    rw [hkinds, if_neg (by rintro rfl; exact hkind p hk)]
    exact hk
  · exact hp.apart
  · exact hp.zero

section

variable (hlookup : t.sockets.lookup h = some c)
include hlookup

theorem kind_of_boundEntry (hentry : t.boundPorts.lookup p = some h) :
    kinds c = .bound p ∨ kinds c = .connected := by
  obtain ⟨c', hlookup', hkind⟩ := hp.boundEntry p h hentry
  cases hlookup.symm.trans hlookup'
  exact hkind

theorem kind_of_listenEntry (hentry : t.listeners.lookup p = some h) : kinds c = .listening p := by
  obtain ⟨c', hlookup', hkind⟩ := hp.listenEntry p h hentry
  cases hlookup.symm.trans hlookup'
  exact hkind

/-- The kind of a socket changes; the handles of the other sockets do not lead to it. -/
theorem ne_of_handle_ne {h' : TcpSocketHandle} {c' : SocketId}
    (hlookup' : t.sockets.lookup h' = some c') : h' = h ↔ c' = c := by
  constructor
  · rintro rfl
    exact some.inj (hlookup'.symm.trans hlookup)
  rintro rfl
  exact hp.distinct h' h c' hlookup' hlookup

/-- Giving back the port of a rebind that failed. -/
theorem restore {old : Option Nat} (hkind : kinds c = old.elim .unbound .bound) :
    Ports ((t.release old).hold h old) kinds n := by
  cases old with
  | none => exact hp
  | some o =>
    refine hp.lookup_congr (fun _ => rfl) (fun q => ?_) fun _ => rfl
    simp only [TcpSocketTable.hold, TcpSocketTable.release, lookup_insert_eq_if, lookup_erase_eq_if]
    split
    · subst q
      exact (hp.bound h c o hlookup hkind).symm
    · rfl

/-- One socket changes its kind, and no entry of another socket changes. -/
theorem edit {t' : TcpSocketTable} {k : SocketKind}
    (hsockets : ∀ h' c', t'.sockets.lookup h' = some c' → t.sockets.lookup h' = some c')
    (hkept : ∀ h' c', h' ≠ h → t.sockets.lookup h' = some c' → t'.sockets.lookup h' = some c')
    (hbound : ∀ q h', h' ≠ h → (t'.boundPorts.lookup q = some h' ↔ t.boundPorts.lookup q = some h'))
    (hlisten : ∀ q h', h' ≠ h → (t'.listeners.lookup q = some h' ↔ t.listeners.lookup q = some h'))
    (hport : ∀ q, k = .bound q → t'.boundPorts.lookup q = some h)
    (hservice : ∀ q, k = .listening q → t'.listeners.lookup q = some h)
    (hportEntry : ∀ q, t'.boundPorts.lookup q = some h → t'.sockets.lookup h = some c ∧
      k = .bound q)
    (hserviceEntry : ∀ q, t'.listeners.lookup q = some h →
      t'.sockets.lookup h = some c ∧ k = .listening q)
    (hapart : ∀ q h', t'.boundPorts.lookup q = some h' → t'.listeners.lookup q = none)
    (hzero : t'.boundPorts.lookup 0 = none ∧ t'.listeners.lookup 0 = none) :
    Ports t' (update kinds c k) n := by
  have hself : update kinds c k c = k := update_self ..
  have hother : ∀ h' c', h' ≠ h → t.sockets.lookup h' = some c' →
      update kinds c k c' = kinds c' := fun h' c' hh hl =>
    update_of_ne (mt (hp.ne_of_handle_ne hlookup hl).mpr hh) ..
  constructor
  · exact fun h' c' hl => hp.cells h' c' (hsockets h' c' hl)
  · exact fun h' h'' c' hl hl' => hp.distinct h' h'' c' (hsockets h' c' hl) (hsockets h'' c' hl')
  · intro h' c' q hl hk
    have hl := hsockets h' c' hl
    by_cases hh : h' = h
    · obtain rfl := (hp.ne_of_handle_ne hlookup hl).mp hh
      exact hh ▸ hport q (hself.symm.trans hk)
    · exact (hbound q h' hh).mpr (hp.bound h' c' q hl ((hother h' c' hh hl).symm.trans hk))
  · intro h' c' q hl hk
    have hl := hsockets h' c' hl
    by_cases hh : h' = h
    · obtain rfl := (hp.ne_of_handle_ne hlookup hl).mp hh
      exact hh ▸ hservice q (hself.symm.trans hk)
    · exact (hlisten q h' hh).mpr (hp.listening h' c' q hl ((hother h' c' hh hl).symm.trans hk))
  · intro q h' hentry
    by_cases hh : h' = h
    · subst hh
      exact ⟨c, (hportEntry q hentry).1, .inl (hself.trans (hportEntry q hentry).2)⟩
    obtain ⟨c', hl, hk⟩ := hp.boundEntry q h' ((hbound q h' hh).mp hentry)
    exact ⟨c', hkept h' c' hh hl, by rw [hother h' c' hh hl]; exact hk⟩
  · intro q h' hentry
    by_cases hh : h' = h
    · subst hh
      exact ⟨c, (hserviceEntry q hentry).1, hself.trans (hserviceEntry q hentry).2⟩
    obtain ⟨c', hl, hk⟩ := hp.listenEntry q h' ((hlisten q h' hh).mp hentry)
    exact ⟨c', hkept h' c' hh hl, (hother h' c' hh hl).trans hk⟩
  · exact hapart
  · exact hzero

/-- A socket is bound to a free port, and gives up the one it had. -/
theorem bind {old : Option Nat} (hkind : kinds c = old.elim .unbound .bound) (hne : p ≠ 0)
    (hfree : (t.release old).portInUse p = false) :
    Ports ((t.release old).hold h (some p)) (update kinds c (.bound p)) n := by
  have hrelease : ∀ q, (t.release old).boundPorts.lookup q =
      if old = some q then none else t.boundPorts.lookup q := by
    intro q
    cases old with
    | none => rfl
    | some o => simp [TcpSocketTable.release, lookup_erase_eq_if, eq_comm]
  have hsockets : (t.release old).sockets = t.sockets := by cases old <;> rfl
  have hlisteners : (t.release old).listeners = t.listeners := by cases old <;> rfl
  simp only [TcpSocketTable.portInUse, Bool.or_eq_false_iff, isSome_eq_false_iff,
    isNone_iff_eq_none, hlisteners, hrelease] at hfree
  have hmine : ∀ q, old = some q → t.boundPorts.lookup q = some h := by
    rintro q rfl
    exact hp.bound h c q hlookup hkind
  -- it had no other entry
  have honly : ∀ q, t.boundPorts.lookup q = some h → old = some q := by
    intro q hentry
    rcases hp.kind_of_boundEntry hlookup hentry with hk | hk <;> rw [hkind] at hk <;>
      cases old <;> cases hk
    rfl
  have hnone : ∀ q, t.listeners.lookup q ≠ some h := by
    intro q hentry
    have hk := hp.kind_of_listenEntry hlookup hentry
    rw [hkind] at hk
    cases old <;> cases hk
  have happart := hp.apart
  have hzero := hp.zero
  apply hp.edit hlookup <;>
    simp only [TcpSocketTable.hold, hsockets, hlisteners, lookup_insert_eq_if, hrelease] <;> grind

/-- A bound socket starts to listen: its entry moves to the other table. -/
theorem listen (hkind : kinds c = .bound p) (hfree : t.listeners.lookup p = none) : Ports { t with
      boundPorts := t.boundPorts.erase p
      listeners := t.listeners.insert p h } (update kinds c (.listening p)) n := by
  have hmine := hp.bound h c p hlookup hkind
  have honly : ∀ q, t.boundPorts.lookup q = some h → q = p := by
    intro q hentry
    rcases hp.kind_of_boundEntry hlookup hentry with hk | hk <;> cases hkind.symm.trans hk
    rfl
  have hnone : ∀ q, t.listeners.lookup q ≠ some h := by
    intro q hentry
    cases hkind.symm.trans (hp.kind_of_listenEntry hlookup hentry)
  have happart := hp.apart
  have hzero := hp.zero
  apply hp.edit hlookup <;> simp only [lookup_insert_eq_if, lookup_erase_eq_if] <;> grind

/-- A socket is closed: its handle and all its entries go. -/
theorem close {t' : TcpSocketTable} (hsockets : t'.sockets = t.sockets.erase h)
    (hbound : ∀ q h', t'.boundPorts.lookup q = some h' ↔ t.boundPorts.lookup q = some h' ∧ h' ≠ h)
    (hlisten : ∀ q h', t'.listeners.lookup q = some h' ↔ t.listeners.lookup q = some h' ∧ h' ≠ h) :
    Ports t' (update kinds c .closed) n := by
  have hnone : ∀ q, t.listeners.lookup q = none → t'.listeners.lookup q = none := fun q hq =>
    eq_none_iff_forall_ne_some.mpr fun h' hentry => by
      cases hq.symm.trans ((hlisten q h').mp hentry).1
  have hfree : ∀ q, t.boundPorts.lookup q = none → t'.boundPorts.lookup q = none := fun q hq =>
    eq_none_iff_forall_ne_some.mpr fun h' hentry => by
      cases hq.symm.trans ((hbound q h').mp hentry).1
  refine hp.edit hlookup (fun h' c' hl => ?_) (fun h' c' hh hl => ?_)
    (fun q h' hh => by simp [hbound, hh])
    (fun q h' hh => by simp [hlisten, hh]) nofun nofun (fun q hentry => ?_) (fun q hentry => ?_)
    (fun q h' hentry => hnone q (hp.apart q h' ((hbound q h').mp hentry).1))
    ⟨hfree 0 hp.zero.1, hnone 0 hp.zero.2⟩
  · rw [hsockets, lookup_erase_eq_if] at hl
    split at hl
    · cases hl
    · exact hl
  · rw [hsockets, lookup_erase_ne hh]
    exact hl
  · exact absurd rfl ((hbound q h).mp hentry).2
  · exact absurd rfl ((hlisten q h).mp hentry).2

end

end

/-- No entry of this table leads to the handle: nothing to erase. -/
theorem entries_stay {m : AList fun _ : Nat => TcpSocketHandle} (hnone : ∀ q, m.lookup q ≠ some h)
    (q : Nat) (h' : TcpSocketHandle) :
    m.lookup q = some h' ↔ m.lookup q = some h' ∧ h' ≠ h := by
  grind

/-- The one entry that leads to the handle is erased. -/
theorem entries_erase {m : AList fun _ : Nat => TcpSocketHandle} (hentry : m.lookup p = some h)
    (honly : ∀ q, m.lookup q = some h → q = p) (q : Nat) (h' : TcpSocketHandle) :
    (m.erase p).lookup q = some h' ↔ m.lookup q = some h' ∧ h' ≠ h := by
  rw [lookup_erase_eq_if]
  grind

end Ports

/-! ## Connections -/

/-- Every block that is not closed is found under its four-tuple. -/
def Reachable (connections : AList fun _ : ConnectionTuple => BlockId)
    (blocks : BlockId → Option TcpBlock) : Prop :=
  ∀ b block, blocks b = some block → block.tcb.state ≠ .closed →
    connections.lookup block.tuple = some b

/-- No block that is in use is found under the four-tuple. -/
def Vacant (connections : AList fun _ : ConnectionTuple => BlockId)
    (blocks : BlockId → Option TcpBlock) (tuple : ConnectionTuple) : Prop :=
  ∀ b block, connections.lookup tuple = some b → blocks b = some block →
    block.tcb.state = .closed

namespace Reachable

variable {connections : AList fun _ : ConnectionTuple => BlockId}
  {blocks : BlockId → Option TcpBlock} {b : BlockId} {tuple : ConnectionTuple}

section

variable (hr : Reachable connections blocks)
include hr

theorem drop : Reachable connections (update blocks b none) := by
  intro b' block hblock hlive
  by_cases hb : b' = b
  · subst hb
    rw [update_self] at hblock
    cases hblock
  · rw [update_of_ne hb] at hblock
    exact hr b' block hblock hlive

/-- A block may change as long as a closed one stays closed. -/
theorem update {block : TcpBlock} {t : TcpControlBlock} (hblock : blocks b = some block)
    (hclosed : block.tcb.state = .closed → t.state = .closed) :
    Reachable connections (update blocks b (some { block with tcb := t })) := by
  intro b' block' hblock' hlive
  by_cases hb : b' = b
  · subst hb
    rw [update_self] at hblock'
    cases hblock'
    exact hr b' block hblock (mt hclosed hlive)
  · rw [update_of_ne hb] at hblock'
    exact hr b' block' hblock' hlive

/-- A new block takes a vacant four-tuple. -/
theorem insert (hvacant : Vacant connections blocks tuple) (t : TcpControlBlock) :
    Reachable (connections.insert tuple b)
      (Function.update blocks b (some ⟨t, tuple⟩)) := by
  intro b' block hblock hlive
  by_cases hb : b' = b
  · subst hb
    rw [update_self] at hblock
    cases hblock
    exact lookup_insert _
  rw [update_of_ne hb] at hblock
  have hentry := hr b' block hblock hlive
  have htuple : block.tuple ≠ tuple := by
    rintro rfl
    exact hlive (hvacant b' block hentry hblock)
  exact (lookup_insert_ne htuple).trans hentry

theorem erase (hvacant : Vacant connections blocks tuple) :
    Reachable (connections.erase tuple) blocks := by
  intro b block hblock hlive
  have hentry := hr b block hblock hlive
  have htuple : block.tuple ≠ tuple := by
    rintro rfl
    exact hlive (hvacant b block hentry hblock)
  exact (lookup_erase_ne htuple).trans hentry

end

/-- The timer thread removes what it has collected. -/
theorem eraseAll (tuples : List ConnectionTuple) :
    ∀ {connections : AList fun _ : ConnectionTuple => BlockId}, Reachable connections blocks →
      (∀ tuple ∈ tuples, Vacant connections blocks tuple) →
      Reachable (tuples.foldl (fun table tuple => table.erase tuple) connections) blocks := by
  induction tuples with
  | nil => exact fun hr _ => hr
  | cons tuple tuples ih =>
    intro connections hr hvacant
    refine ih (hr.erase (hvacant tuple List.mem_cons_self)) ?_
    intro tuple' hmem b block hentry hblock
    by_cases htuple : tuple' = tuple
    · subst htuple
      rw [lookup_erase] at hentry
      cases hentry
    · rw [lookup_erase_ne htuple] at hentry
      exact hvacant tuple' (List.mem_cons_of_mem _ hmem) b block hentry hblock

end Reachable

end Moose.Net
