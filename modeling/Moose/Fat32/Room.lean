import Moose.Fat32.Listing
import Moose.Lib.Runs

/-!
# Room for an entry

Two searches look for free slots in a row: the first for deleted slots, up to the end of the
directory, the second for deleted and unused ones. Both are scans that count (`Lib.Counted`), and
the count goes on from one cluster to the next. So both come to the first run of free slots of the
whole directory: the first search has only seen slots in use or deleted when it finds one.

Where the run is said to start is another matter. When it goes on from one cluster into the next,
the first search returns the second cluster with an index of the first one, and the second search
returns the first cluster, from which the entry is not continued at the start of the next. And from
whatever cluster the entry is written to, writing goes on through the clusters after it. All of this
is right if the run lies in the last cluster.
-/

set_option autoImplicit false

namespace Moose.Fat32

open List Lib

open RawFatFileEntry (isFree)

namespace Fat

variable {v : Fat} {slots before done pre run post rest : List RawFatFileEntry}
  {slot : RawFatFileEntry} {n count cluster last : Nat} {init : List Nat}

/-! ## The searches in one cluster -/

/-- The start of a run of `count` slots that ends before the index `idx`. -/
def startOf (count idx : Nat) : Option Nat := if count = 0 then none else some (idx - count)

theorem startOf_getD (count idx : Nat) : (startOf count idx).getD idx = idx - count := by
  rw [startOf]
  split
  next h => rw [h]; rfl
  · rfl

theorem startOf_succ (count idx : Nat) :
    startOf (count + 1) (idx + 1) = some ((startOf count idx).getD idx) := by
  rw [startOf_getD, startOf, if_neg (Nat.succ_ne_zero count), Nat.add_sub_add_right]

/-- What the first search says about the slots of a cluster, after those of the clusters before it.
The start it keeps is an index of this cluster if the run has begun here. -/
def SearchOk (n : Nat) (before slots : List RawFatFileEntry) : Search → Prop
  | .ended => True
  | .found i => ∃ pre run post, FirstAt isFree n (before ++ slots) pre run post ∧
      (before.length ≤ pre.length → pre.length = before.length + i)
  | .more count start => Counted isFree n (before ++ slots) count ∧ count < n ∧
      (∀ s ∈ before ++ slots, s.firstByte ≠ 0) ∧
      (count ≤ slots.length → start = startOf count slots.length)

theorem findInSlots_spec {start : Option Nat} (hcount : Counted isFree n (before ++ done) count)
    (hlt : count < n) (hused : ∀ s ∈ before ++ done, s.firstByte ≠ 0)
    (hstart : count ≤ done.length → start = startOf count done.length) :
    SearchOk n before (done ++ rest) (findInSlots n done.length rest count start) := by
  induction rest generalizing done count start with
  | nil =>
    rw [append_nil]
    exact ⟨hcount, hlt, hused, hstart⟩
  | cons slot rest ih =>
    have hassoc : done ++ slot :: rest = done ++ [slot] ++ rest := by simp
    have hlen : (done ++ [slot]).length = done.length + 1 := by simp
    rw [findInSlots]
    by_cases h0 : slot.firstByte = 0
    · rw [if_pos h0]
      trivial
    have hused' : ∀ s ∈ before ++ (done ++ [slot]), s.firstByte ≠ 0 := by
      rw [← append_assoc]
      exact forall_mem_append.mpr ⟨hused, forall_mem_singleton.mpr h0⟩
    rw [if_neg h0]
    by_cases hdel : slot.firstByte = fatFreeEntry
    · have hslot : slot.isFree = true := by simp [isFree, hdel]
      rw [if_pos hdel]
      by_cases hn : count + 1 = n
      · rw [if_pos hn]
        obtain ⟨pre, run, hfirst, hpre⟩ := hcount.full hslot hn rest
        rw [append_assoc] at hfirst
        refine ⟨pre, run, rest, hfirst, fun hle => ?_⟩
        rw [length_append] at hpre
        rw [hstart (by omega), startOf_getD]
        omega
      · rw [if_neg hn, ← hlen, hassoc]
        refine ih ?_ (by omega) hused' fun hle => ?_
        · rw [← append_assoc]
          exact hcount.hit hslot (by omega)
        · rw [hlen] at hle ⊢
          rw [hstart (by omega), startOf_succ]
    · have hslot : slot.isFree = false := by simp [isFree, h0, hdel]
      rw [if_neg hdel, ← hlen, hassoc]
      refine ih ?_ (by omega) hused' fun _ => rfl
      rw [← append_assoc]
      exact hcount.miss (by omega) hslot

theorem findInSlots_cluster {start : Option Nat} (hcount : Counted isFree n before count)
    (hlt : count < n) (hused : ∀ s ∈ before, s.firstByte ≠ 0) (hstart : count = 0 → start = none) :
    SearchOk n before slots (findInSlots n 0 slots count start) := by
  rw [← append_nil before] at hcount hused
  refine findInSlots_spec hcount hlt hused fun hle => ?_
  obtain rfl := Nat.le_zero.mp hle
  exact hstart rfl

/-- What the second search says about the slots of a cluster, after those of the clusters before. -/
def AllocationOk (n cluster : Nat) (before slots : List RawFatFileEntry) :
    (Nat × Nat) ⊕ (Option (Nat × Nat) × Nat) → Prop
  | .inl found => ∃ pre run post, FirstAt isFree n (before ++ slots) pre run post ∧
      (before.length ≤ pre.length → found = (cluster, pre.length - before.length))
  | .inr (start, size) => Counted isFree n (before ++ slots) size ∧ size < n ∧
      (size ≤ slots.length → start = (startOf size slots.length).map (cluster, ·))

theorem startOf_map_getD (cluster count idx : Nat) :
    ((startOf count idx).map (cluster, ·)).getD (cluster, idx) = (cluster, idx - count) := by
  rw [← startOf_getD]
  cases startOf count idx <;> rfl

theorem allocateInSlots_spec {start : Option (Nat × Nat)}
    (hcount : Counted isFree n (before ++ done) count) (hlt : count < n)
    (hstart : count ≤ done.length → start = (startOf count done.length).map (cluster, ·)) :
    AllocationOk n cluster before (done ++ rest)
      (allocateInSlots n cluster done.length rest start count) := by
  induction rest generalizing done count start with
  | nil =>
    rw [append_nil]
    exact ⟨hcount, hlt, hstart⟩
  | cons slot rest ih =>
    have hassoc : done ++ slot :: rest = done ++ [slot] ++ rest := by simp
    have hlen : (done ++ [slot]).length = done.length + 1 := by simp
    rw [allocateInSlots]
    by_cases hfree : slot.firstByte = 0 ∨ slot.firstByte = fatFreeEntry
    · have hslot : slot.isFree = true := by simpa [isFree] using hfree
      rw [if_pos hfree]
      by_cases hn : count + 1 = n
      · rw [if_pos hn]
        obtain ⟨pre, run, hfirst, hpre⟩ := hcount.full hslot hn rest
        rw [append_assoc] at hfirst
        refine ⟨pre, run, rest, hfirst, fun hle => ?_⟩
        rw [length_append] at hpre
        rw [hstart (by omega), startOf_map_getD]
        congr 1
        omega
      · rw [if_neg hn, ← hlen, hassoc]
        refine ih ?_ (by omega) fun hle => ?_
        · rw [← append_assoc]
          exact hcount.hit hslot (by omega)
        · rw [hlen] at hle ⊢
          rw [hstart (by omega), startOf_map_getD, startOf_succ, startOf_getD]
          rfl
    · have hslot : slot.isFree = false := by simpa [isFree] using hfree
      rw [if_neg hfree, ← hlen, hassoc]
      refine ih ?_ (by omega) fun _ => rfl
      rw [← append_assoc]
      exact hcount.miss (by omega) hslot

theorem allocateInSlots_cluster {start : Option (Nat × Nat)}
    (hcount : Counted isFree n before count) (hlt : count < n) (hstart : count = 0 → start = none) :
    AllocationOk n cluster before slots (allocateInSlots n cluster 0 slots start count) := by
  rw [← append_nil before] at hcount
  refine allocateInSlots_spec hcount hlt fun hle => ?_
  obtain rfl := Nat.le_zero.mp hle
  exact hstart rfl

/-! ## The searches in a directory -/

/-- The first `n` free slots in a row of the directory lie in its last cluster, between `pre` and
`post`. -/
def RoomInLast (v : Fat) (n : Nat) (init : List Nat) (last : Nat)
    (pre run post : List RawFatFileEntry) : Prop :=
  FirstAt isFree n (init.flatMap v.slots ++ v.slots last) (init.flatMap v.slots ++ pre) run post

theorem RoomInLast.runAt (h : RoomInLast v n init last pre run post) :
    RunAt isFree n (v.slots last) pre run post := by
  have hsplit := h.split
  rw [append_assoc, append_assoc, append_cancel_left_eq, ← append_assoc] at hsplit
  exact ⟨hsplit, h.length, h.all⟩

/-- No run is complete in the clusters in front of the first one. -/
theorem not_hasRun_of_first {xs ys zs : List RawFatFileEntry}
    (h : FirstAt isFree n xs (before ++ ys ++ zs) run post) : ¬HasRun isFree n before := by
  intro hrun
  have hlong := hrun.append (ys ++ zs ++ run.dropLast)
  exact absurd hlong (by simpa only [append_assoc] using h.first)

section

variable (hg : Geometry v) (hvol : ∀ c ∈ init ++ [last], v.OnVolume c)
  (hcount : Counted isFree n before count) (hlt : count < n)
  (h : FirstAt isFree n (before ++ init.flatMap v.slots ++ v.slots last)
    (before ++ init.flatMap v.slots ++ pre) run post)

include hg hvol hcount hlt h

/-- The first search comes to the run or ends before. -/
theorem findInClusters_spec {start : Option Nat} (hused : ∀ s ∈ before, s.firstByte ≠ 0)
    (hstart : count = 0 → start = none) :
    v.findInClusters n (init ++ [last]) count start = some none ∨
      v.findInClusters n (init ++ [last]) count start = some (some (last, pre.length)) := by
  induction init generalizing before count start with
  | nil =>
    rw [flatMap_nil, append_nil] at h
    have hlast := @findInSlots_cluster (v.slots last) _ _ _ _ hcount hlt hused hstart
    rw [nil_append, findInClusters,
      getRawFileListingFromCluster_eq hg (hvol last mem_cons_self), some_bind]
    generalize findInSlots n 0 (v.slots last) count start = result at hlast ⊢
    cases result with
    | ended => exact .inl rfl
    | found i =>
      obtain ⟨pre', run', post', hfirst, hpre⟩ := hlast
      obtain rfl := (h.unique hfirst).1
      rw [length_append] at hpre
      rw [Nat.add_left_cancel (hpre (Nat.le_add_right _ _))]
      exact .inr rfl
    | more count start => exact .inl rfl
  | cons c cs ih =>
    obtain ⟨hc, hcs⟩ := forall_mem_cons.mp hvol
    have hfirst := @findInSlots_cluster (v.slots c) _ _ _ _ hcount hlt hused hstart
    rw [flatMap_cons, ← append_assoc] at h
    rw [cons_append, findInClusters, getRawFileListingFromCluster_eq hg hc, some_bind]
    generalize findInSlots n 0 (v.slots c) count start = result at hfirst ⊢
    cases result with
    | ended => exact .inl rfl
    | found i =>
      obtain ⟨pre', run', post', hfirst, -⟩ := hfirst
      exact absurd ⟨pre', run', post', hfirst.toRunAt⟩ (not_hasRun_of_first h)
    | more count start =>
      obtain ⟨hcount, hlt, hused, hstart⟩ := hfirst
      refine ih hcs hcount hlt h hused ?_
      rintro rfl
      exact hstart (Nat.zero_le _)

/-- The second search comes to the run. -/
theorem allocateInClusters_spec {start : Option (Nat × Nat)} (hstart : count = 0 → start = none) :
    v.allocateInClusters n (init ++ [last]) start count = some (.inl (last, pre.length)) := by
  induction init generalizing before count start with
  | nil =>
    rw [flatMap_nil, append_nil] at h
    have hlast := @allocateInSlots_cluster (v.slots last) _ _ _ last _ hcount hlt hstart
    rw [nil_append, allocateInClusters,
      getRawFileListingFromCluster_eq hg (hvol last mem_cons_self), some_bind]
    generalize allocateInSlots n last 0 (v.slots last) start count = result at hlast ⊢
    rcases result with found | ⟨start, size⟩
    · obtain ⟨pre', run', post', hfirst, hfound⟩ := hlast
      obtain rfl := (h.unique hfirst).1
      rw [length_append, Nat.add_sub_cancel_left] at hfound
      rw [hfound (Nat.le_add_right _ _)]
    · exact absurd ⟨_, _, _, h.toRunAt⟩ hlast.1.1
  | cons c cs ih =>
    obtain ⟨hc, hcs⟩ := forall_mem_cons.mp hvol
    have hfirst := @allocateInSlots_cluster (v.slots c) _ _ _ c _ hcount hlt hstart
    rw [flatMap_cons, ← append_assoc] at h
    rw [cons_append, allocateInClusters, getRawFileListingFromCluster_eq hg hc, some_bind]
    generalize allocateInSlots n c 0 (v.slots c) start count = result at hfirst ⊢
    rcases result with found | ⟨start, size⟩
    · obtain ⟨pre', run', post', hfirst, -⟩ := hfirst
      exact absurd ⟨pre', run', post', hfirst.toRunAt⟩ (not_hasRun_of_first h)
    · obtain ⟨hcount, hlt, hstart⟩ := hfirst
      refine ih hcs hcount hlt h ?_
      rintro rfl
      exact hstart (Nat.zero_le _)

end

/-! ## Storing an entry -/

theorem writeInSlots_eq {sfn : RawFatFileEntry} {lfn run post : List RawFatFileEntry}
    (h : run.length = lfn.length + 1) :
    writeInSlots sfn lfn (run ++ post) = (lfn ++ sfn :: post, [], true) := by
  induction lfn generalizing run with
  | nil =>
    obtain ⟨s, rfl⟩ := length_eq_one_iff.mp h
    rfl
  | cons slot lfn ih =>
    cases run with
    | nil => cases h
    | cons s run =>
      rw [cons_append, writeInSlots, ih (Nat.succ.inj h)]
      rfl

variable [Chrono] {e : FatFileEntry} {p : RawFatFileEntry → Bool}

/-- The slots after an entry is written over a run keep their number. -/
theorem length_insert (h1 : OneSector v) (hrun : RunAt p e.slots (v.slots last) pre run post) :
    (pre ++ e.group ++ post).length = 16 := by
  have hlen : (v.slots last).length = 16 := h1.length_slots_eq
  rw [hrun.split] at hlen
  simp only [length_append, hrun.length, FatFileEntry.length_group] at hlen ⊢
  exact hlen

/-- In the last cluster of a directory an entry is written over a run. -/
theorem writeFileEntry_eq (h1 : OneSector v) (hlast : v.HasChain last [last])
    (hrun : RunAt p e.slots (v.slots last) pre run post) :
    v.writeFileEntry e last pre.length = some (v.setSlots last (pre ++ e.group ++ post)) := by
  have hc : v.OnVolume last := hlast.onVolume last mem_cons_self
  have hdrop : (v.slots last).drop pre.length = run ++ post := by
    rw [hrun.split, append_assoc, drop_left]
  have htake : (v.slots last).take pre.length = pre := by
    rw [hrun.split, append_assoc, take_left]
  have hgroup : pre ++ (e.lfn ++ e.sfn :: post) = pre ++ e.group ++ post := by
    simp [FatFileEntry.group]
  have hsave := saveListingToTheDisk_eq h1 hc (length_insert h1 hrun)
  rw [writeFileEntry, hlast.getClustersForFile_eq]
  simp only [some_bind, writeInClusters,
    getRawFileListingFromCluster_eq h1.geometry hc, hdrop, htake, writeInSlots_eq hrun.length,
    hgroup, hsave]
  rfl

/-- **An entry is stored over the first free slots of the directory**, if they are in its last
cluster. -/
theorem serializeFileEntry_none_eq (h1 : OneSector v)
    (hchain : v.HasChain cluster (init ++ [last])) (hslots : e.slots < 20)
    (hroom : RoomInLast v e.slots init last pre run post) :
    v.serializeFileEntry none e cluster =
      some (v.setSlots last (pre ++ e.group ++ post), last) := by
  have hn : 0 < e.slots := Nat.succ_pos _
  have hwrite := writeFileEntry_eq h1 hchain.suffix hroom.runAt
  have hcount : Counted isFree e.slots [] 0 := Counted.nil hn
  have halloc := allocateInClusters_spec h1.geometry hchain.onVolume hcount hn hroom fun _ => rfl
  rcases findInClusters_spec h1.geometry hchain.onVolume hcount hn hroom (forall_mem_nil _)
    fun _ => rfl with hnone | hfound
  · simp only [serializeFileEntry, if_neg (Nat.not_le.mpr hslots),
      findContiguousFileEntriesInDirectory, hchain.getClustersForFile_eq, some_bind, hnone,
      allocateFileEntriesInDirectory, halloc, hwrite]
  · simp [serializeFileEntry, if_neg (Nat.not_le.mpr hslots), findContiguousFileEntriesInDirectory,
      hchain.getClustersForFile_eq, some_bind, hfound, hwrite]

end Fat
end Moose.Fat32
