import Mathlib.Logic.Function.Basic
import Moose.Lib.Run
import Moose.Net.Tables

/-!
# UDP sockets and their ports

A socket has its port in `local_port`, and the table has the socket of every port. Binding a socket
that is bound already leaves the entry of its first port behind, so the two agree only while no such
call succeeds (`bindOk`). The search for an ephemeral port makes one attempt less than there are
ports.
-/

set_option autoImplicit false

namespace Moose.Net

open Option BitVec Lib

abbrev UdpSocketHandle := BitVec 32

structure UdpSocketState where
  localPort : BitVec 16
  remoteAddr : Option (Ipv4Addr × BitVec 16)

structure UdpSocketTable where
  sockets : BitVec 16 → Option UdpSocketState
  boundPorts : BitVec 16 → Option UdpSocketHandle
  nextEphemeral : BitVec 16

inductive UdpCall where
  | create
  | bind (handle : UdpSocketHandle) (port : BitVec 16)
  | connect (handle : UdpSocketHandle) (addr : Ipv4Addr) (port : BitVec 16)
  | close (handle : UdpSocketHandle)

inductive UdpResult where
  | created (handle : UdpSocketHandle)
  | ok
  | err
deriving DecidableEq

namespace UdpSocketTable

def new : UdpSocketTable := ⟨fun _ => none, fun _ => none, 49152⟩

/-- Handles are tried from 1 on, without 0. -/
def freeHandle (t : UdpSocketTable) : Nat → BitVec 16 → Option (BitVec 16)
  | 0, _ => none
  | fuel + 1, handle =>
    if (t.sockets handle).isNone then some handle
    else t.freeHandle fuel (if handle + 1 = 0 then 1 else handle + 1)

def setSocket (t : UdpSocketTable) (key : BitVec 16) (s : UdpSocketState) : UdpSocketTable :=
  { t with sockets := Function.update t.sockets key (some s) }

/-- With a socket for each of the 65535 handles the search goes on for ever. -/
def socketCreate (t : UdpSocketTable) : Option (UdpSocketTable × UdpResult) :=
  (t.freeHandle 65535 1).map fun key =>
    (t.setSocket key ⟨0, none⟩, .created (key.setWidth 32))

def get (t : UdpSocketTable) (handle : UdpSocketHandle) : Option UdpSocketState :=
  t.sockets (handle.setWidth 16)

def portInUse (t : UdpSocketTable) (port : BitVec 16) : Bool := (t.boundPorts port).isSome

def registerPort (t : UdpSocketTable) (port : BitVec 16) (handle : UdpSocketHandle) :
    UdpSocketTable :=
  { t with boundPorts := Function.update t.boundPorts port (some handle) }

def unregisterPort (t : UdpSocketTable) (port : BitVec 16) : UdpSocketTable :=
  { t with boundPorts := Function.update t.boundPorts port none }

def allocLoop : Nat → UdpSocketTable → UdpSocketTable × Option (BitVec 16)
  | 0, t => (t, none)
  | n + 1, t =>
    let port := t.nextEphemeral
    let next := port + 1
    let t := { t with nextEphemeral := if next < 49152 then 49152 else next }
    if t.portInUse port then allocLoop n t else (t, some port)

def allocEphemeral (t : UdpSocketTable) : UdpSocketTable × Option (BitVec 16) :=
  allocLoop (65535 - 49152) t

def socketBind (t : UdpSocketTable) (handle : UdpSocketHandle) (port : BitVec 16) :
    UdpSocketTable × UdpResult :=
  match if port = 0 then t.allocEphemeral
    else if t.portInUse port then (t, none) else (t, some port) with
  | (t, none) => (t, .err)
  | (t, some port) =>
    match t.get handle with
    | none => (t, .err)
    | some s =>
      ((t.setSocket (handle.setWidth 16) { s with localPort := port }).registerPort port handle,
        .ok)

def socketConnect (t : UdpSocketTable) (handle : UdpSocketHandle) (addr : Ipv4Addr)
    (port : BitVec 16) : UdpSocketTable × UdpResult :=
  match t.get handle with
  | none => (t, .err)
  | some s =>
    if s.localPort = 0 then
      match t.allocEphemeral with
      | (t, none) => (t, .err)
      | (t, some p) =>
        ((t.setSocket (handle.setWidth 16)
          { s with localPort := p, remoteAddr := some (addr, port) }).registerPort p handle, .ok)
    else (t.setSocket (handle.setWidth 16) { s with remoteAddr := some (addr, port) }, .ok)

def remove (t : UdpSocketTable) (handle : UdpSocketHandle) : UdpSocketTable :=
  match t.get handle with
  | none => t
  | some s =>
    let t := { t with sockets := Function.update t.sockets (handle.setWidth 16) none }
    if s.localPort = 0 then t else t.unregisterPort s.localPort

def socketClose (t : UdpSocketTable) (handle : UdpSocketHandle) : UdpSocketTable :=
  match t.get handle with
  | none => t
  | some s => (t.unregisterPort s.localPort).remove handle

/-- The key of the socket that `find_by_port` returns. -/
def findByPort (t : UdpSocketTable) (port : BitVec 16) : Option (BitVec 16) := do
  let handle ← t.boundPorts port
  let _ ← t.get handle
  some (handle.setWidth 16)

def step (t : UdpSocketTable) : UdpCall → Option (UdpSocketTable × UdpResult)
  | .create => t.socketCreate
  | .bind handle port => some (t.socketBind handle port)
  | .connect handle addr port => some (t.socketConnect handle addr port)
  | .close handle => some (t.socketClose handle, .ok)

/-! ## Ownership -/

/-- The socket with this key is live and bound to the port. -/
def Claims (t : UdpSocketTable) (key port : BitVec 16) : Prop :=
  port ≠ 0 ∧ (t.sockets key).map (·.localPort) = some port

/-- The table of ports has the sockets that claim them and no others. -/
def Owned (t : UdpSocketTable) : Prop :=
  ∀ port key, (t.boundPorts port).map (·.setWidth 16) = some key ↔ t.Claims key port

/-- A bound socket is bound again only to a port that is in use, which fails. -/
def bindOk (t : UdpSocketTable) : UdpCall → Bool
  | .bind handle port => (t.get handle).all fun s => s.localPort = 0 || t.portInUse port
  | _ => true

def Free (t : UdpSocketTable) (port : BitVec 16) : Prop := 49152 ≤ port ∧ t.boundPorts port = none

/-- The port a search would get to last. -/
def lastTried (t : UdpSocketTable) : BitVec 16 :=
  if t.nextEphemeral = 49152 then 65535 else t.nextEphemeral - 1

variable {t t' : UdpSocketTable} {key port : BitVec 16} {s : UdpSocketState}
  {handle : UdpSocketHandle}

/-! ## The search for a port -/

/-- The dynamic range, round and round. -/
def nth (k : Nat) : BitVec 16 := BitVec.ofNat 16 (49152 + k % 16384)

theorem toNat_nth (k : Nat) : (nth k).toNat = 49152 + k % 16384 := by
  rw [nth, toNat_ofNat]
  omega

theorem nth_succ (k : Nat) :
    (if nth k + 1 < 49152 then 49152 else nth k + 1 : BitVec 16) = nth (k + 1) := by
  apply eq_of_toNat_eq
  have h := toNat_nth k
  have h' := toNat_nth (k + 1)
  split <;> simp_all [lt_def] <;> omega

theorem exists_nth {port : BitVec 16} (h : 49152 ≤ port) (k : Nat) :
    ∃ i < 16384, port = nth (k + i) := by
  have hlow : 49152 ≤ port.toNat := h
  refine ⟨(port.toNat - 49152 + 16384 - k % 16384) % 16384, Nat.mod_lt _ (by decide), ?_⟩
  apply eq_of_toNat_eq
  rw [toNat_nth]
  omega

/-- The first free port of `n` attempts. -/
theorem allocLoop_spec (n : Nat) : ∀ {t : UdpSocketTable} {k : Nat}, t.nextEphemeral = nth k →
    (∃ k', (allocLoop n t).1 = { t with nextEphemeral := nth k' }) ∧
      ((allocLoop n t).2 = none → ∀ i < n, t.boundPorts (nth (k + i)) ≠ none) ∧
      ∀ p, (allocLoop n t).2 = some p → ∃ i < n, p = nth (k + i) ∧ t.boundPorts p = none := by
  induction n with
  | zero => exact fun {t k} hk => ⟨⟨k, by rw [← hk]; rfl⟩, fun _ _ => nofun, nofun⟩
  | succ n ih =>
    intro t k hk
    unfold allocLoop
    dsimp only
    rw [hk, nth_succ]
    split
    next huse =>
      have huse : (t.boundPorts (nth k)).isSome = true := huse
      obtain ⟨hnext, hnone, hsome⟩ := ih (t := { t with nextEphemeral := nth (k + 1) }) rfl
      refine ⟨hnext, fun h i hi => ?_, fun p hp => ?_⟩
      · cases i with
        | zero => exact isSome_iff_ne_none.mp huse
        | succ i => exact Nat.add_right_comm k 1 i ▸ hnone h i (by omega)
      · obtain ⟨i, hi, hport, hfree⟩ := hsome p hp
        exact ⟨i + 1, by omega, by rw [hport]; congr 1; omega, hfree⟩
    next huse =>
      have hfree : t.boundPorts (nth k) = none := by simpa [portInUse] using huse
      exact ⟨⟨_, rfl⟩, nofun, fun p hp => ⟨0, by omega, by cases hp; rfl, by cases hp; exact hfree⟩⟩

theorem toNat_lastTried {k : Nat} (hk : t.nextEphemeral = nth k) :
    t.lastTried.toNat = 49152 + (k + 16383) % 16384 := by
  have := toNat_nth k
  rw [lastTried, hk]
  split <;> simp_all [toNat_eq, toNat_sub] <;> omega

/-- **A port is found exactly if one is free** that is not the last to be tried. -/
theorem allocEphemeral_isSome_iff {k : Nat} (hk : t.nextEphemeral = nth k) :
    t.allocEphemeral.2.isSome = true ↔ ∃ p, t.Free p ∧ p ≠ t.lastTried := by
  obtain ⟨-, hnone, hsome⟩ := allocLoop_spec (65535 - 49152) hk
  have hlast := toNat_lastTried hk
  constructor
  · intro h
    obtain ⟨p, hp⟩ := isSome_iff_exists.mp h
    obtain ⟨i, hi, rfl, hfree⟩ := hsome p hp
    have hnth := toNat_nth (k + i)
    refine ⟨_, ⟨?_, hfree⟩, fun heq => ?_⟩
    · rw [le_def, hnth]
      exact Nat.le_add_right _ _
    rw [heq, hlast] at hnth
    omega
  rintro ⟨p, ⟨hp, hfree⟩, hne⟩
  obtain ⟨i, hi, rfl⟩ := exists_nth hp k
  have hlt : i < 16383 := by
    by_contra hge
    apply hne
    apply eq_of_toNat_eq
    rw [hlast, toNat_nth]
    omega
  exact isSome_iff_ne_none.mpr fun h => hnone h i hlt hfree

/-! ## Every call -/

namespace Owned

theorem registerPort (h : t.Owned) (hget : t.get handle = some s) (hs : s.localPort = 0)
    (hport : port ≠ 0) (hfree : t.boundPorts port = none) (remote : Option (Ipv4Addr × BitVec 16)) :
    ((t.setSocket (handle.setWidth 16)
      { s with localPort := port, remoteAddr := remote }).registerPort port handle).Owned := by
  intro p key
  have hold := h p key
  rw [get] at hget
  simp only [Claims, setSocket, UdpSocketTable.registerPort, Function.update_apply] at *
  grind

/-- The local port stays, or the socket is new and has none. -/
theorem setSocket (h : t.Owned) {s' : UdpSocketState}
    (hs : s'.localPort = (t.sockets key).elim 0 (·.localPort)) : (t.setSocket key s').Owned := by
  intro p k
  have hold := h p k
  simp only [Claims, UdpSocketTable.setSocket, Function.update_apply] at *
  cases hk : t.sockets key <;> grind

theorem close (h : t.Owned) (handle : UdpSocketHandle) : (t.socketClose handle).Owned := by
  unfold socketClose
  cases hget : t.get handle with
  | none => exact h
  | some s =>
    intro p k
    have hold := h p k
    have hself := h p (handle.setWidth 16)
    have hget' : (t.unregisterPort s.localPort).get handle = some s := hget
    simp only [remove, hget']
    rw [get] at hget
    split <;> simp only [Claims, unregisterPort, Function.update_apply] at * <;> grind

end Owned

theorem freeHandle_free (n : Nat) : ∀ {handle : BitVec 16}, t.freeHandle n handle = some key →
    t.sockets key = none := by
  induction n with
  | zero => exact nofun
  | succ n ih =>
    intro handle h
    unfold freeHandle at h
    split at h
    · cases h
      exact isNone_iff_eq_none.mp ‹_›
    · exact ih h

/-- The table is owned, and the search starts in the dynamic range. -/
structure Inv (t : UdpSocketTable) : Prop where
  owned : t.Owned
  next : ∃ k, t.nextEphemeral = nth k

namespace Inv

theorem allocEphemeral (h : t.Inv) :
    t.allocEphemeral.1.Inv ∧ t.allocEphemeral.1.sockets = t.sockets ∧
    ∀ p, t.allocEphemeral.2 = some p → p ≠ 0 ∧ t.allocEphemeral.1.boundPorts p = none := by
  obtain ⟨k, hk⟩ := h.next
  obtain ⟨⟨k', hnext⟩, -, hsome⟩ := allocLoop_spec (65535 - 49152) hk
  rw [UdpSocketTable.allocEphemeral, hnext]
  refine ⟨⟨h.owned, k', rfl⟩, rfl, fun p hp => ?_⟩
  obtain ⟨i, -, rfl, hfree⟩ := hsome p hp
  refine ⟨fun hzero : nth (k + i) = 0#16 => ?_, hfree⟩
  have := toNat_nth (k + i)
  rw [hzero, toNat_zero] at this
  omega

theorem bind (h : t.Inv) (hok : t.bindOk (.bind handle port) = true) :
    (t.socketBind handle port).1.Inv := by
  have hchoice : ∀ {t1 o}, (if port = 0 then t.allocEphemeral
      else if t.portInUse port then (t, none) else (t, some port)) = (t1, o) →
      t1.Inv ∧ t1.sockets = t.sockets ∧
        ∀ p, o = some p → p ≠ 0 ∧ t1.boundPorts p = none ∧ t.portInUse port = false := by
    intro t1 o heq
    split at heq
    next hzero =>
      obtain ⟨hinv, hsockets, hfresh⟩ := h.allocEphemeral
      rw [heq] at hinv hsockets hfresh
      have hport : t.portInUse port = false := by
        have := fun k => (h.owned port k).mp
        cases hp : t.boundPorts port <;> simp_all [portInUse, Claims]
      exact ⟨hinv, hsockets, fun p hp => ⟨(hfresh p hp).1, (hfresh p hp).2, hport⟩⟩
    · split at heq <;> cases heq
      · exact ⟨h, rfl, nofun⟩
      · exact ⟨h, rfl, fun p hp => by cases hp; simp_all [portInUse]⟩
  unfold socketBind
  split
  · exact (hchoice ‹_›).1
  obtain ⟨hinv, hsockets, hfree⟩ := hchoice ‹_›
  obtain ⟨hne, hnone, hunused⟩ := hfree _ rfl
  split
  · exact hinv
  next s hget =>
    have hold : t.get handle = some s := by rwa [get, ← hsockets]
    have hs : s.localPort = 0 := by simpa [bindOk, hold, hunused] using hok
    exact ⟨hinv.owned.registerPort hget hs hne hnone s.remoteAddr, hinv.next⟩

theorem connect (h : t.Inv) (handle : UdpSocketHandle) (addr : Ipv4Addr) (port : BitVec 16) :
    (t.socketConnect handle addr port).1.Inv := by
  unfold socketConnect
  cases hget : t.get handle with
  | none => exact h
  | some s =>
    obtain ⟨hinv, hsockets, hfresh⟩ := h.allocEphemeral
    dsimp only
    split
    next hs =>
      split
      next heq =>
        rw [heq] at hinv
        exact hinv
      next t1 p heq =>
        rw [heq] at hinv hsockets hfresh
        obtain ⟨hne, hnone⟩ := hfresh p rfl
        have hget1 : t1.get handle = some s := by rwa [get, hsockets]
        exact ⟨hinv.owned.registerPort hget1 hs hne hnone _, hinv.next⟩
    · refine ⟨h.owned.setSocket ?_, h.next⟩
      rw [get] at hget
      rw [hget]
      rfl

theorem step (h : t.Inv) {call : UdpCall} (hok : t.bindOk call = true) {r : UdpResult}
    (hstep : t.step call = some (t', r)) : t'.Inv := by
  cases call with
  | create =>
    simp only [UdpSocketTable.step, socketCreate, map_eq_some_iff, Prod.mk.injEq] at hstep
    obtain ⟨key, hkey, rfl, -⟩ := hstep
    exact ⟨h.owned.setSocket (by rw [freeHandle_free _ hkey]; rfl), h.next⟩
  | bind handle port =>
    have hinv := h.bind hok
    rwa [some.inj hstep] at hinv
  | connect handle addr port =>
    have hinv := h.connect handle addr port
    rwa [some.inj hstep] at hinv
  | close handle =>
    cases hstep
    refine ⟨h.owned.close handle, ?_⟩
    unfold socketClose remove
    repeat' split
    all_goals exact h.next

end Inv

/-- **The ports belong to the sockets that claim them** after every run in which no bound socket is
bound again: each is registered for the one socket that claims it, and what is sent to it gets
there. The search fails with a free port left exactly if that one is the last to be tried. -/
theorem run_owned (calls : List UdpCall) (results : List UdpResult) (t : UdpSocketTable)
    (hok : Guarded step (fun t call => t.bindOk call = true) new calls)
    (hrun : run step new calls = some (t, results)) :
    t.Owned ∧ (∀ port key key', t.Claims key port → t.Claims key' port → key = key') ∧
      (∀ port key, t.findByPort port = some key ↔ t.Claims key port) ∧
      ((t.allocEphemeral.2.isSome = true ↔ ∃ p, t.Free p) ↔
        ((∃ p, t.Free p) → ∃ p, t.Free p ∧ p ≠ t.lastTried)) := by
  have hinv : t.Inv := run_forall (fun _ _ _ _ h hc hs => h.step hc hs)
    ⟨fun port key => by simp [new, Claims], 0, by decide⟩ hok hrun
  obtain ⟨k, hk⟩ := hinv.next
  refine ⟨hinv.owned, fun port key key' h h' => ?_, fun port key => ?_, ?_⟩
  · exact Option.some.inj (((hinv.owned port key).mpr h).symm.trans ((hinv.owned port key').mpr h'))
  · rw [findByPort, ← hinv.owned port key]
    cases hp : t.boundPorts port with
    | none => rfl
    | some handle =>
      obtain ⟨-, hlive⟩ := (hinv.owned port _).mp (congrArg (Option.map _) hp)
      obtain ⟨s, hs, -⟩ := Option.map_eq_some_iff.mp hlive
      simp [get, hs]
  · rw [allocEphemeral_isSome_iff hk]
    exact ⟨Iff.mpr, fun h => ⟨fun ⟨p, hp⟩ => ⟨p, hp.1⟩, h⟩⟩

theorem run_owned_two_sockets : ∃ t results, run step new [.create, .bind 1 5000, .create,
    .connect 2 0 53, .bind 1 49152, .close 1] = some (t, results) ∧
      results = [.created 1, .ok, .created 2, .ok, .err, .ok] ∧ t.Owned := by
  refine exists_some_imp
    (p := fun _ results => results = [.created 1, .ok, .created 2, .ok, .err, .ok])
    (by decide +kernel) fun t results hrun hresults => ?_
  exact ⟨hresults, (run_owned _ results t (by decide +kernel) hrun).1⟩

/-- Bound to 5000 and then to 6000, a socket still gets what is sent to 5000. -/
theorem rebind_keeps_port : ∃ t results, run step new [.create, .bind 1 5000, .bind 1 6000] =
    some (t, results) ∧ t.findByPort 5000 = some 1 ∧ ¬ t.Claims 1 5000 := by
  refine exists_some_imp (p := fun t _ =>
      t.findByPort 5000 = some 1 ∧ (t.sockets 1).map (·.localPort) ≠ some 5000)
    (by decide +kernel) fun t _ _ h => ?_
  exact ⟨h.1, fun hclaim => h.2 hclaim.2⟩

end UdpSocketTable
end Moose.Net
