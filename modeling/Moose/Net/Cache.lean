import Mathlib.Logic.Function.Basic
import Moose.Lib.Run
import Moose.Net.Tables

/-!
# The cache and its past

`Past` is what a cache with expiry and a bounded number of entries is for: of every key the most
recent insertion that was not evicted since. Along every run on a clock that does not go back the
slots answer as the past says, and nothing is evicted but the least recently used of `N` keys, all
of them alive.
-/

set_option autoImplicit false

namespace Moose.Net

open List Option Function Lib
open Tcp (Instant Duration satAdd64)

variable {K V : Type} [DecidableEq K] {N : Nat} {ttl : Duration}

/-- Drops every expired entry. -/
def TtlCache.purgeExpired (c : TtlCache K V N ttl) (now : Instant) : TtlCache K V N ttl :=
  ⟨c.entries.map fun e => if e.isOccupied && e.isExpired now then
      { e with isOccupied := false, expiresAt := none, lastAccessAt := none } else e,
    by rw [length_map, c.length_entries]⟩

inductive CacheCall (K V : Type) where
  | insertWithTtl (key : K) (value : V) (timeToLive : Duration)
  | lookup (key : K)
  | purgeExpired

/-- A call and the time it is made at. -/
def TtlCache.step (c : TtlCache K V N ttl) :
    Instant × CacheCall K V → Option (TtlCache K V N ttl × Option V)
  | (now, .insertWithTtl key value timeToLive) =>
    some (c.insertWithTtl key value timeToLive now, none)
  | (now, .lookup key) => some (c.lookup key now)
  | (now, .purgeExpired) => some (c.purgeExpired now, none)

/-! ## The past -/

/-- The last use is the insertion itself or a lookup that found it. -/
structure Insertion (V : Type) where
  value : V
  expiresAt : Instant
  lastUse : Instant

/-- Of every key the most recent insertion, if the key was not evicted since. -/
abbrev Past (K V : Type) := K → Option (Insertion V)

namespace Past

def Live (past : Past K V) (now : Instant) (key : K) (r : Insertion V) : Prop :=
  past key = some r ∧ now < r.expiresAt

/-- `N` keys are alive, and of those that are none was used before this one. -/
structure Evictable (past : Past K V) (N : Nat) (now : Instant) (key : K) : Prop where
  full : ∃ keys : List K, keys.length = N ∧ keys.Nodup ∧ ∀ k ∈ keys, ∃ r, past.Live now k r
  oldest : ∃ r, past.Live now key r ∧ ∀ k r', past.Live now k r' → r.lastUse ≤ r'.lastUse

def insert (past : Past K V) (key : K) (value : V) (timeToLive : Duration) (now : Instant) :
    Past K V :=
  update past key (some ⟨value, satAdd64 now timeToLive, now⟩)

def Step (N : Nat) (past : Past K V) : Instant × CacheCall K V → Option V → Past K V → Prop
  | (now, .insertWithTtl key value timeToLive), answer, past' =>
    answer = none ∧ (past' = past.insert key value timeToLive now ∨
      ∃ victim, victim ≠ key ∧ past.Evictable N now victim ∧
        past' = insert (update past victim none) key value timeToLive now)
  | (now, .lookup key), answer, past' =>
    (∀ v, answer = some v ↔ ∃ r, past.Live now key r ∧ r.value = v) ∧
      past' = if answer.isSome then
        update past key ((past key).map fun r => { r with lastUse := now }) else past
  | (_, .purgeExpired), answer, past' => answer = none ∧ past' = past

end Past

/-! ## Slots -/

def Insertion.entry (r : Insertion V) (key : K) : CacheEntry K V :=
  ⟨true, key, r.value, some r.expiresAt, some r.lastUse⟩

namespace TtlCache

variable {c : TtlCache K V N ttl} {past past' : Past K V} {clock now : Instant} {key k : K}
  {r r' : Insertion V} {e : CacheEntry K V} {i j : Nat}

/-- The slots hold what is alive, and what they hold is the past. -/
structure Represents (c : TtlCache K V N ttl) (now : Instant) (past : Past K V) : Prop where
  records : ∀ {i : Nat} {e}, c.entries[i]? = some e → e.isOccupied = true →
    ∃ r, past e.key = some r ∧ e = r.entry e.key
  once : ∀ {i j : Nat} {e e'}, c.entries[i]? = some e → c.entries[j]? = some e' →
    e.isOccupied = true → e'.isOccupied = true → e.key = e'.key → i = j
  present : ∀ {key r}, past.Live now key r → ∃ i : Nat, c.entries[i]? = some (r.entry key)

omit [DecidableEq K] in
theorem lt_of_getElem? (h : c.entries[i]? = some e) : i < N :=
  c.length_entries ▸ (List.getElem?_eq_some_iff.mp h).1

theorem holds_iff : e.holds key = true ↔ e.isOccupied = true ∧ e.key = key := by
  simp [CacheEntry.holds]

namespace Represents

omit [DecidableEq K] in
theorem later (h : c.Represents clock past) (hclock : clock ≤ now) : c.Represents now past :=
  ⟨h.records, h.once, fun hlive => h.present ⟨hlive.1, Nat.lt_of_le_of_lt hclock hlive.2⟩⟩

/-- The search for a key ends at what the past has of it. -/
theorem found (h : c.Represents now past) (hfind : c.entries.findIdx? (·.holds key) = some i) :
    ∃ r, past key = some r ∧ c.entries[i]? = some (r.entry key) := by
  obtain ⟨hlt, hholds, -⟩ := findIdx?_eq_some_iff_getElem.mp hfind
  obtain ⟨hocc, rfl⟩ := holds_iff.mp hholds
  obtain ⟨r, hr, he⟩ := h.records (getElem?_eq_getElem hlt) hocc
  exact ⟨r, hr, he ▸ getElem?_eq_getElem hlt⟩

theorem not_found (hfind : c.entries.findIdx? (·.holds key) = none) :
    c.entries[i]? = some e → e.isOccupied = true → e.key ≠ key := by
  intro hget hocc hkey
  have hno := findIdx?_eq_none_iff.mp hfind _ (mem_of_getElem? hget)
  rw [holds_iff.mpr ⟨hocc, hkey⟩] at hno
  cases hno

section

variable (h : c.Represents now past)
include h

omit [DecidableEq K] in
/-- One slot gets another entry, and what is alive stays in another slot or is in that entry. -/
theorem put (hi : i < N)
    (hnew : e.isOccupied = true → ∃ r, past' e.key = some r ∧ e = r.entry e.key)
    (hold : ∀ {j : Nat} {e'}, j ≠ i → c.entries[j]? = some e' → e'.isOccupied = true →
      past' e'.key = past e'.key ∧ (e.isOccupied = true → e.key ≠ e'.key))
    (hlive : ∀ {k r}, past'.Live now k r →
      e = r.entry k ∨ ∃ j, j ≠ i ∧ c.entries[j]? = some (r.entry k)) :
    (c.put i e).Represents now past' := by
  have hput (j : Nat) : (c.put i e).entries[j]? = if j = i then some e else c.entries[j]? := by
    grind [put]
  have hrecords := @h.records
  have honce := @h.once
  refine ⟨by grind, by grind, fun {k r} hr => ?_⟩
  rcases hlive hr with rfl | ⟨j, hne, hget⟩
  · exact ⟨i, by rw [hput, if_pos rfl]⟩
  · exact ⟨j, by rw [hput, if_neg hne, hget]⟩

/-- Slot `i` is taken for `key`, which is in no other slot. -/
theorem take (hi : i < N)
    (hkey : ∀ {j : Nat} {e}, c.entries[j]? = some e → e.isOccupied = true → e.key = key → j = i)
    (hslot : ∀ {k r}, c.entries[i]? = some (Insertion.entry r k) → past'.Live now k r → k = key)
    (hkept : ∀ {j : Nat} {e}, j ≠ i → c.entries[j]? = some e → e.isOccupied = true →
      past' e.key = past e.key) (hsub : ∀ {k r}, past' k = some r → past k = some r)
    (r : Insertion V) :
    (c.put i (r.entry key)).Represents now (update past' key (some r)) := by
  refine h.put hi (fun _ => ⟨r, update_self .., rfl⟩) (fun hne hget hocc => ?_)
    fun {k r'} hlive => ?_
  · have hk := fun heq => hne (hkey hget hocc heq)
    rw [update_of_ne hk, hkept hne hget hocc]
    exact ⟨rfl, fun _ heq => hk heq.symm⟩
  by_cases hk : k = key
  · subst hk
    cases (update_self ..).symm.trans hlive.1
    exact .inl rfl
  have hpast : past'.Live now k r' := ⟨(update_of_ne hk ..).symm.trans hlive.1, hlive.2⟩
  obtain ⟨j, hget⟩ := h.present ⟨hsub hpast.1, hpast.2⟩
  refine .inr ⟨j, ?_, hget⟩
  rintro rfl
  exact hk (hslot hget hpast)

/-- An insertion or a lookup at the slot the key already has. -/
theorem renew (hslot : c.entries[i]? = some (r.entry key)) (r' : Insertion V) :
    (c.put i (r'.entry key)).Represents now (update past key (some r')) :=
  h.take (lt_of_getElem? hslot) (fun hget hocc heq => h.once hget hslot hocc rfl heq)
    (fun hget _ => congrArg CacheEntry.key (some.inj (hget.symm.trans hslot)))
    (fun _ _ _ => rfl) (fun hr => hr) r'

theorem lookup (key : K) : ∃ past', past.Step N (now, .lookup key) (c.lookup key now).2 past' ∧
      (c.lookup key now).1.Represents now past' := by
  unfold TtlCache.lookup
  cases hfind : c.entries.findIdx? (·.holds key) with
  | none =>
    refine ⟨past, ⟨fun v => ⟨nofun, ?_⟩, rfl⟩, h⟩
    rintro ⟨r, hlive, -⟩
    obtain ⟨i, hget⟩ := h.present hlive
    exact absurd rfl (not_found hfind hget rfl)
  | some i =>
    obtain ⟨r, hr, hslot⟩ := h.found hfind
    simp only [hslot]
    by_cases hexpired : r.expiresAt ≤ now
    · rw [if_pos (by simpa [Insertion.entry, CacheEntry.isExpired] using hexpired)]
      have hdead : ∀ r', ¬ past.Live now key r' := by
        rintro r' ⟨hr', hlive⟩
        cases hr.symm.trans hr'
        exact Nat.not_le.mpr hlive hexpired
      refine ⟨past, ⟨fun v => ⟨nofun, fun ⟨r', hlive, _⟩ => absurd hlive (hdead r')⟩, rfl⟩, ?_⟩
      refine h.put (lt_of_getElem? hslot) nofun (fun _ _ _ => ⟨rfl, nofun⟩) fun hlive => ?_
      obtain ⟨j, hget⟩ := h.present hlive
      refine .inr ⟨j, ?_, hget⟩
      rintro rfl
      cases (congrArg CacheEntry.key (some.inj (hget.symm.trans hslot)) : _ = key)
      exact hdead _ hlive
    · rw [if_neg (by simpa [Insertion.entry, CacheEntry.isExpired] using hexpired)]
      refine ⟨_, ⟨fun v => ?_, rfl⟩, ?_⟩
      · simp [Past.Live, hr, Nat.not_le.mp hexpired, Insertion.entry]
      simp only [isSome_some, if_pos, hr, map_some]
      exact h.renew hslot { r with lastUse := now }

theorem insertWithTtl (hN : 0 < N) (key : K) (value : V) (d : Duration) :
    ∃ past', past.Step N (now, .insertWithTtl key value d) none past' ∧
      (c.insertWithTtl key value d now).Represents now past' := by
  unfold TtlCache.insertWithTtl slotFor
  cases hfind : c.entries.findIdx? (·.holds key) with
  | some i =>
    obtain ⟨r, -, hslot⟩ := h.found hfind
    exact ⟨_, ⟨rfl, .inl rfl⟩, h.renew hslot ⟨value, satAdd64 now d, now⟩⟩
  | none =>
    have hkey : ∀ {i j : Nat} {e}, c.entries[j]? = some e → e.isOccupied = true → e.key = key →
        j = i := fun hget hocc heq => absurd heq (not_found hfind hget hocc)
    cases hfree : c.entries.findIdx? fun e => !e.isOccupied || e.isExpired now with
    | some i =>
      obtain ⟨hlt, hdead, -⟩ := List.findIdx?_eq_some_iff_getElem.mp hfree
      have hget := List.getElem?_eq_getElem hlt
      refine ⟨_, ⟨rfl, .inl rfl⟩, h.take (lt_of_getElem? hget) hkey (fun hslot hlive => ?_)
        (fun _ _ _ => rfl) (fun hr => hr) ⟨value, satAdd64 now d, now⟩⟩
      -- what is alive is not in the slot that is free or expired
      rw [Option.some.inj (hget.symm.trans hslot)] at hdead
      have hle := hlive.2
      grind [Insertion.entry, CacheEntry.isExpired]
    | none =>
      -- every slot is in use, so the one chosen is the least recently used
      obtain ⟨hlt, holdest⟩ := lruIndex_spec (by rwa [c.length_entries] : 0 < c.entries.length)
      have hused : ∀ j (hj : j < c.entries.length), ∃ r, past.Live now c.entries[j].key r ∧
          c.entries[j]? = some (r.entry c.entries[j].key) := by
        intro j hj
        have hno := List.findIdx?_eq_none_iff.mp hfree _ (List.getElem_mem hj)
        rw [Bool.or_eq_false_iff, Bool.not_eq_false'] at hno
        obtain ⟨r, hr, he⟩ := h.records (List.getElem?_eq_getElem hj) hno.1
        rw [he] at hno
        exact ⟨r, ⟨hr, by simpa [Insertion.entry, CacheEntry.isExpired] using hno.2⟩,
          he ▸ List.getElem?_eq_getElem hj⟩
      generalize lruIndex c.entries = i at hlt holdest
      obtain ⟨r, hlive, hslot⟩ := hused i hlt
      have hne : c.entries[i].key ≠ key := not_found (e := r.entry _) hfind hslot rfl
      refine ⟨_, ⟨rfl, .inr ⟨_, hne, ⟨⟨c.entries.map (·.key), ?_, ?_, ?_⟩, r, hlive, ?_⟩, rfl⟩⟩,
        h.take (lt_of_getElem? hslot) hkey ?_ ?_ ?_ ⟨value, satAdd64 now d, now⟩⟩
      · rw [List.length_map, c.length_entries]
      · rw [List.Nodup, List.pairwise_map, List.pairwise_iff_getElem]
        intro a b ha hb hab heq
        obtain ⟨_, -, hgeta⟩ := hused a ha
        obtain ⟨_, -, hgetb⟩ := hused b hb
        exact Nat.ne_of_lt hab (h.once hgeta hgetb rfl rfl heq)
      · intro k hk
        obtain ⟨e, he, rfl⟩ := List.mem_map.mp hk
        obtain ⟨j, hj, rfl⟩ := List.getElem_of_mem he
        exact (hused j hj).imp fun _ hr => hr.1
      · intro k r' hlive'
        obtain ⟨j, hget⟩ := h.present hlive'
        have hnot := holdest j (List.getElem?_eq_some_iff.mp hget).1
        rw [hget, hslot] at hnot
        simpa [older, Insertion.entry] using hnot
      · intro k r' hget hlive'
        have hk : k = c.entries[i].key :=
          congrArg CacheEntry.key (Option.some.inj (hget.symm.trans hslot))
        rw [Past.Live, hk, Function.update_self] at hlive'
        cases hlive'.1
      · intro j e hne hget hocc
        exact Function.update_of_ne (fun heq => hne (h.once hget hslot hocc rfl heq)) ..
      · intro k r' hr
        by_cases hk : k = c.entries[i].key
        · rw [hk, Function.update_self] at hr
          cases hr
        · rwa [Function.update_of_ne hk] at hr

end

omit [DecidableEq K] in
theorem purgeExpired (h : c.Represents now past) : (c.purgeExpired now).Represents now past := by
  have hget : ∀ {i : Nat} {e}, e.isOccupied = true → ((c.purgeExpired now).entries[i]? = some e ↔
      c.entries[i]? = some e ∧ e.isExpired now = false) := by
    intro i e hocc
    rw [TtlCache.purgeExpired, getElem?_map, map_eq_some_iff]
    grind
  refine ⟨fun he hocc => h.records ((hget hocc).mp he).1 hocc,
    fun he he' hocc hocc' => h.once ((hget hocc).mp he).1 ((hget hocc').mp he').1 hocc hocc',
    fun {key r} hlive => ?_⟩
  obtain ⟨i, he⟩ := h.present hlive
  exact ⟨i, (hget rfl).mpr ⟨he, by simpa [Insertion.entry, CacheEntry.isExpired] using hlive.2⟩⟩

end Represents

theorem step_represents (hN : 0 < N) (h : c.Represents clock past) (call : Instant × CacheCall K V)
    (hclock : clock ≤ call.1) : ∃ c' answer past', step c call = some (c', answer) ∧
      past.Step N call answer past' ∧ c'.Represents call.1 past' := by
  obtain ⟨now, call⟩ := call
  have hnow := h.later hclock
  cases call with
  | insertWithTtl key value d =>
    obtain ⟨past', hpast, h'⟩ := hnow.insertWithTtl hN key value d
    exact ⟨_, _, past', rfl, hpast, h'⟩
  | lookup key =>
    obtain ⟨past', hpast, h'⟩ := hnow.lookup key
    exact ⟨_, _, past', rfl, hpast, h'⟩
  | purgeExpired => exact ⟨_, _, past, rfl, ⟨rfl, rfl⟩, hnow.purgeExpired⟩

theorem run_represents (hN : 0 < N) (calls : List (Instant × CacheCall K V))
    (hclock : (clock :: calls.map (·.1)).Pairwise (· ≤ ·)) (h : c.Represents clock past) :
    ∃ c' answers now past', run step c calls = some (c', answers) ∧
      Trace (Past.Step N) past calls answers past' ∧ c'.Represents now past' := by
  induction calls generalizing clock c past with
  | nil => exact ⟨c, [], clock, past, rfl, rfl, h⟩
  | cons call calls ih =>
    obtain ⟨hle, hclock⟩ := pairwise_cons.mp hclock
    obtain ⟨c1, answer, past1, h1, hpast, hrep⟩ :=
      step_represents hN h call (hle call.1 mem_cons_self)
    obtain ⟨c2, answers, now, past2, h2, htrace, hrep'⟩ := ih hclock hrep
    exact ⟨c2, answer :: answers, now, past2, run_cons h1 h2, ⟨past1, hpast, htrace⟩, hrep'⟩

omit [DecidableEq K] in
theorem represents_new (emptyKey : K) (emptyValue : V) :
    (new emptyKey emptyValue : TtlCache K V N ttl).Represents 0 fun _ => none := by
  have hfree : ∀ {i : Nat} {e},
    (new emptyKey emptyValue : TtlCache K V N ttl).entries[i]? = some e →
      e.isOccupied ≠ true := fun hget =>
    eq_of_mem_replicate (mem_of_getElem? hget) ▸ nofun
  exact ⟨fun hget hocc => absurd hocc (hfree hget),
    fun hget _ hocc => absurd hocc (hfree hget), nofun⟩

/-- **The cache answers from its past**, on every clock that does not go back, and each key is in
one slot at most. -/
theorem run_answers (hN : 0 < N) (emptyKey : K) (emptyValue : V)
    (calls : List (Instant × CacheCall K V)) (hclock : (calls.map (·.1)).Pairwise (· ≤ ·)) :
    ∃ (c : TtlCache K V N ttl) (answers : List (Option V)) (past : Past K V),
      run step (new emptyKey emptyValue) calls = some (c, answers) ∧
      Trace (Past.Step N) (fun _ => none) calls answers past ∧
      ∀ (i j : Nat) (e e' : CacheEntry K V), c.entries[i]? = some e → c.entries[j]? = some e' →
        e.isOccupied = true → e'.isOccupied = true → e.key = e'.key → i = j := by
  obtain ⟨c, answers, now, past, hrun, htrace, h⟩ := run_represents hN calls
    (pairwise_cons.mpr ⟨fun _ _ => Nat.zero_le _, hclock⟩) (represents_new emptyKey emptyValue)
  exact ⟨c, answers, past, hrun, htrace, fun _ _ _ _ hget hget' => h.once hget hget'⟩

-- the key read last stays, the other makes room, and the last lookup comes too late
theorem run_answers_evicting :
    ∃ past : Past Nat Nat, Trace (Past.Step 2) (fun _ => none) [(1, .insertWithTtl 1 10 9),
      (2, .insertWithTtl 2 20 9), (3, .lookup 1), (4, .insertWithTtl 3 30 9), (5, .lookup 2),
      (11, .lookup 1)] [none, none, some 10, none, none, none] past := by
  obtain ⟨c, answers, past, hrun, htrace, -⟩ := @run_answers Nat Nat _ 2 0 (by decide) 0 0
    [(1, .insertWithTtl 1 10 9), (2, .insertWithTtl 2 20 9), (3, .lookup 1),
      (4, .insertWithTtl 3 30 9), (5, .lookup 2), (11, .lookup 1)] (by decide)
  obtain rfl : answers = [none, none, some 10, none, none, none] :=
    (congrArg Prod.snd (some.inj hrun)).symm
  exact ⟨past, htrace⟩

end TtlCache
end Moose.Net
