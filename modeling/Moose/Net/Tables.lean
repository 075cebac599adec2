import Moose.Tcp.Types

/-!
# Addresses, routes and the ARP cache

The tables of `driver/net/mod.rs` that the receive path reads and fills. A lookup and an insertion
read the clock once.
-/

set_option autoImplicit false

namespace Moose.Net

open List

open Tcp (Instant Duration satAdd64)

/-- In network order, as `u32::from` reads the octets. -/
abbrev Ipv4Addr := BitVec 32
abbrev MacAddress := BitVec 48
abbrev NetworkInterfaceId := Nat

def Ipv4Addr.unspecified : Ipv4Addr := 0
def Ipv4Addr.broadcast : Ipv4Addr := BitVec.allOnes 32

structure NetworkInterface where
  localInternetAddress : Option Ipv4Addr

/-! ## Routes -/

structure Ipv4Prefix where
  address : Ipv4Addr
  maskLen : Nat
  maskLen_le : maskLen ≤ 32
deriving DecidableEq

namespace Ipv4Prefix

def maskU32 (p : Ipv4Prefix) : BitVec 32 :=
  if p.maskLen = 0 then 0
  else if p.maskLen = 32 then BitVec.allOnes 32
  else BitVec.allOnes 32 <<< (32 - p.maskLen)

def contains (p : Ipv4Prefix) (ip : Ipv4Addr) : Bool :=
  (p.address &&& p.maskU32) == (ip &&& p.maskU32)

end Ipv4Prefix

inductive NextHop where
  | direct
  | gateway (ip : Ipv4Addr)

structure RouteEntry where
  subnet : Ipv4Prefix
  interfaceId : NetworkInterfaceId
  data : NextHop

/-- Adds a route in front of the shorter ones, in place of an earlier one with the same prefix on
the same interface. -/
def insertForInterface (routes : List RouteEntry) (subnet : Ipv4Prefix) (id : NetworkInterfaceId)
    (data : NextHop) : List RouteEntry :=
  let kept := routes.filter fun r => r.subnet ≠ subnet ∨ r.interfaceId ≠ id
  let pos := (kept.findIdx? fun r => r.subnet.maskLen < subnet.maskLen).getD kept.length
  kept.insertIdx pos ⟨subnet, id, data⟩

theorem mem_insertForInterface {routes : List RouteEntry} {subnet : Ipv4Prefix}
    {id : NetworkInterfaceId} {data : NextHop} {r : RouteEntry} :
    r ∈ insertForInterface routes subnet id data ↔
      r = ⟨subnet, id, data⟩ ∨ r ∈ routes ∧ (r.subnet ≠ subnet ∨ r.interfaceId ≠ id) := by
  unfold insertForInterface
  generalize hkept : routes.filter (fun r => r.subnet ≠ subnet ∨ r.interfaceId ≠ id) = kept
  have hpos : (kept.findIdx? fun r => r.subnet.maskLen < subnet.maskLen).getD kept.length ≤
      kept.length := by
    cases hfind : kept.findIdx? fun r => r.subnet.maskLen < subnet.maskLen with
    | none => exact Nat.le_refl _
    | some i => exact Nat.le_of_lt (findIdx?_eq_some_iff_findIdx_eq.mp hfind).1
  rw [mem_insertIdx hpos, ← hkept, mem_filter, decide_eq_true_eq]

/-- The address to resolve for a target: itself, or the gateway of its first matching route. -/
def resolveNextHop (routes : List RouteEntry) (target : Ipv4Addr) : Option Ipv4Addr :=
  (routes.find? fun r => r.subnet.contains target).map fun r =>
    match r.data with
    | .direct => target
    | .gateway ip => ip

/-! ## The cache -/

structure CacheEntry (K V : Type) where
  isOccupied : Bool
  key : K
  value : V
  expiresAt : Option Instant
  lastAccessAt : Option Instant

namespace CacheEntry

variable {K V : Type}

def empty (key : K) (value : V) : CacheEntry K V := ⟨false, key, value, none, none⟩

def isExpired (e : CacheEntry K V) (now : Instant) : Bool :=
  match e.expiresAt with
  | some expiresAt => expiresAt ≤ now
  | none => true

def holds [DecidableEq K] (e : CacheEntry K V) (key : K) : Bool := e.isOccupied && e.key == key

end CacheEntry

/-- A cache of `N` slots. `default_time_to_live` is fixed when the cache is made, so it is a
parameter here. -/
structure TtlCache (K V : Type) (N : Nat) (ttl : Duration) where
  entries : List (CacheEntry K V)
  length_entries : entries.length = N

namespace TtlCache

variable {K V : Type} {N : Nat} {ttl : Duration} [DecidableEq K]

omit [DecidableEq K] in
def new (emptyKey : K) (emptyValue : V) : TtlCache K V N ttl :=
  ⟨replicate N (.empty emptyKey emptyValue), length_replicate⟩

def put (c : TtlCache K V N ttl) (i : Nat) (e : CacheEntry K V) : TtlCache K V N ttl :=
  ⟨c.entries.set i e, by rw [length_set, c.length_entries]⟩

def lookup (c : TtlCache K V N ttl) (key : K) (now : Instant) : TtlCache K V N ttl × Option V :=
  match c.entries.findIdx? (·.holds key) with
  | none => (c, none)
  | some i =>
    match c.entries[i]? with
    | none => (c, none)
    | some e =>
      if e.isExpired now then
        (c.put i { e with isOccupied := false, expiresAt := none, lastAccessAt := none }, none)
      else (c.put i { e with lastAccessAt := some now }, some e.value)

/-- An entry that was never read is older than any other. -/
def older (a b : Option Instant) : Bool :=
  match a, b with
  | none, some _ => true
  | some a, some b => a < b
  | _, none => false

def lruIndex (entries : List (CacheEntry K V)) : Nat :=
  (range entries.length).foldl
    (fun best i =>
      if older ((entries[i]?).bind (·.lastAccessAt)) ((entries[best]?).bind (·.lastAccessAt)) then i
      else best) 0

/-- The slot an insertion uses: the one of the key, else one that is free or expired, else the
least recently used. -/
def slotFor (c : TtlCache K V N ttl) (key : K) (now : Instant) : Nat :=
  match c.entries.findIdx? (·.holds key) with
  | some i => i
  | none =>
    match c.entries.findIdx? fun e => !e.isOccupied || e.isExpired now with
    | some i => i
    | none => lruIndex c.entries

def insertWithTtl (c : TtlCache K V N ttl) (key : K) (value : V) (timeToLive : Duration)
    (now : Instant) : TtlCache K V N ttl :=
  c.put (c.slotFor key now) ⟨true, key, value, some (satAdd64 now timeToLive), some now⟩

def insert (c : TtlCache K V N ttl) (key : K) (value : V) (now : Instant) : TtlCache K V N ttl :=
  c.insertWithTtl key value ttl now

/-! ## A new entry is found -/

/-- A search for the least element of a weak order keeps it. -/
theorem foldl_least {α : Type} {r : α → α → Bool} (hasymm : ∀ a b, r a b = true → r b a = false)
    (htrans : ∀ a b c, r a b = false → r b c = false → r a c = false) (xs : List α) (best : α) :
    let least := xs.foldl (fun best x => if r x best then x else best) best
    least ∈ best :: xs ∧ ∀ x ∈ best :: xs, r x least = false := by
  induction xs generalizing best with
  | nil =>
    have hirr : r best best = false := Bool.eq_false_of_not_eq_true fun h => by
      simpa [h] using hasymm _ _ h
    simpa using hirr
  | cons x xs ih =>
    by_cases h : r x best = true
    · have hih := ih x
      simp only [foldl_cons, if_pos h, mem_cons, forall_eq_or_imp] at hih ⊢
      exact ⟨.inr hih.1, htrans _ _ _ (hasymm _ _ h) hih.2.1, hih.2⟩
    have hih := ih best
    simp only [foldl_cons, if_neg h, mem_cons, forall_eq_or_imp] at hih ⊢
    exact ⟨hih.1.imp_right .inr, hih.2.1, htrans _ _ _ (Bool.not_eq_true _ ▸ h) hih.2.1, hih.2.2⟩

omit [DecidableEq K] in
/-- The slot exists, and no entry is older than the one in it. -/
theorem lruIndex_spec {entries : List (CacheEntry K V)} (h : 0 < entries.length) :
    lruIndex entries < entries.length ∧ ∀ j < entries.length,
      older ((entries[j]?).bind (·.lastAccessAt))
        ((entries[lruIndex entries]?).bind (·.lastAccessAt)) = false := by
  have hasymm : ∀ a b, older a b = true → older b a = false := by
    intro a b
    cases a <;> cases b <;> grind [older]
  have htrans : ∀ a b c, older a b = false → older b c = false → older a c = false := by
    intro a b c
    cases a <;> cases b <;> cases c <;> grind [older]
  obtain ⟨hmem, hleast⟩ := foldl_least
    (r := fun i j =>
      older ((entries[i]?).bind (·.lastAccessAt)) ((entries[j]?).bind (·.lastAccessAt)))
    (fun _ _ => hasymm _ _) (fun _ _ _ => htrans _ _ _) (range entries.length) 0
  refine ⟨?_, fun j hj => hleast j (mem_cons_of_mem _ (mem_range.mpr hj))⟩
  rcases mem_cons.mp hmem with hzero | hmem
  · exact Nat.lt_of_le_of_lt (Nat.le_of_eq hzero) h
  · exact mem_range.mp hmem

/-- The slot exists, and no slot before it answers for the key. -/
theorem slotFor_spec (c : TtlCache K V N ttl) (hN : 0 < N) (key : K) (now : Instant) :
    c.slotFor key now < c.entries.length ∧
      ∀ j, j < c.slotFor key now → ∀ e, c.entries[j]? = some e → e.holds key = false := by
  unfold slotFor
  split
  next i hi =>
    obtain ⟨hlt, -, hbefore⟩ := List.findIdx?_eq_some_iff_getElem.mp hi
    refine ⟨hlt, fun j hj e he => ?_⟩
    obtain ⟨hjl, rfl⟩ := List.getElem?_eq_some_iff.mp he
    simpa using hbefore j hj
  next hnone =>
    have hno : ∀ (j : Nat) (e : CacheEntry K V), c.entries[j]? = some e → e.holds key = false := by
      intro j e he
      exact List.findIdx?_eq_none_iff.mp hnone e (List.mem_of_getElem? he)
    split
    next i hi =>
      obtain ⟨hlt, -⟩ := List.findIdx?_eq_some_iff_getElem.mp hi
      exact ⟨hlt, fun j _ => hno j⟩
    · exact ⟨(lruIndex_spec (by rw [c.length_entries]; exact hN)).1, fun j _ => hno j⟩

theorem findIdx?_set {α : Type} {p : α → Bool} {xs : List α} {i : Nat} {a : α}
    (hi : i < xs.length) (hbefore : ∀ j, j < i → ∀ x, xs[j]? = some x → p x = false)
    (ha : p a = true) : (xs.set i a).findIdx? p = some i := by
  rw [findIdx?_eq_some_iff_getElem]
  refine ⟨by rwa [length_set], by rwa [getElem_set_self], ?_⟩
  intro j hj
  rw [getElem_set_ne (by omega), hbefore j hj _ (getElem?_eq_getElem (by omega))]
  exact nofun

theorem lt_satAdd64 {a b : Nat} (ha : a < 2 ^ 64 - 1) (hb : 0 < b) : a < satAdd64 a b := by
  unfold satAdd64
  omega

/-- **A fresh entry is found**, as long as the clock has not reached its end. -/
theorem lookup_insert (c : TtlCache K V N ttl) (hN : 0 < N) (httl : 0 < ttl)
    (key : K) (value : V) {now : Nat} (hnow : now < 2 ^ 64 - 1) :
    ((c.insert key value now).lookup key now).2 = some value := by
  obtain ⟨hlt, hbefore⟩ := c.slotFor_spec hN key now
  generalize hslot : c.slotFor key now = i at hlt hbefore
  generalize he : (⟨true, key, value, some (satAdd64 now ttl), some now⟩ :
    CacheEntry K V) = e
  have hentries : (c.insert key value now).entries = c.entries.set i e := by
    rw [← hslot, ← he]
    rfl
  have hholds : e.holds key = true := by
    rw [← he]
    simp [CacheEntry.holds]
  have hfresh : e.isExpired now = false := by
    rw [← he]
    exact decide_eq_false (Nat.not_le.mpr (lt_satAdd64 hnow httl))
  have hfind : (c.entries.set i e).findIdx? (·.holds key) = some i :=
    findIdx?_set hlt hbefore hholds
  have hget : (c.entries.set i e)[i]? = some e := by
    rw [getElem?_set_self hlt]
  unfold lookup
  rw [hentries, hfind]
  dsimp only
  rw [hget]
  dsimp only
  rw [hfresh, if_neg (by simp), ← he]

end TtlCache

end Moose.Net
