import Moose.Fat32.Create

/-!
# New entries in a directory

What creating an entry should do to the slots of a directory and to what it lists, where it does so,
and for which names. Outside the condition the code goes wrong in several ways: an entry that is not
written in the last cluster of the directory is written once more into each cluster after it, a run
of free slots that goes over the end of a cluster is not continued at the start of the next, a new
cluster is taken as it is on the disk, and with more than one sector per cluster nothing can be
stored at all.
-/

set_option autoImplicit false

namespace Moose.Fat32

open List Option Lib
open RawFatFileEntry (isFree)

namespace FatDirectory

variable {v v' : Fat} {d : FatDirectory} {name : List Char} {attributes : UInt8}
  {directory : Bool} {init : List Nat} {last cluster : Nat}

section

variable [Chrono] [Ucs2] {e : FatFileEntry} {now : NaiveDateTime} {before : List FatFileEntry}

/-- The slots of the entry stand in a row where slots were free or not in the directory, all other
slots are as before, and the directory lists one entry more. Clusters are added only if there was no
room. -/
structure Inserts (v v' : Fat) (d : FatDirectory) (e : FatFileEntry) : Prop where
  slots : ∃ clusters new pre run post,
    v.HasChain d.contentCluster clusters ∧ v'.HasChain d.contentCluster (clusters ++ new) ∧
    (new = [] ∨ ¬HasRun isFree e.slots (clusters.flatMap v.slots)) ∧
    (clusters ++ new).flatMap v.slots = pre ++ run ++ post ∧ run.length = e.slots ∧
    (∀ (i : Nat) s, run[i]? = some s →
      s.isFree = true ∨ (clusters.flatMap v.slots).length ≤ pre.length + i) ∧
    (clusters ++ new).flatMap v'.slots = pre ++ e.group ++ post
  listing : ∃ left right e', d.entries v = some (left ++ right) ∧
    d.entries v' = some (left ++ e' :: right) ∧ e'.sfn = e.sfn ∧ e'.lfn = e.lfn

/-! ## One call -/

theorem createEntry_ok
    (h : createEntry v d name attributes directory now = some (.ok (v', e, cluster))) :
    FatFileEntry.create name attributes directory now = some e ∧ cluster = d.contentCluster ∧
      ∃ c, v.serializeFileEntry none e cluster = some (v', c) := by
  rw [createEntry] at h
  split at h
  · cases h
  obtain ⟨e', he', h⟩ := bind_eq_some.mp h
  obtain ⟨clusters, hclusters, h⟩ := bind_eq_some.mp h
  obtain ⟨first, hfirst, h⟩ := bind_eq_some.mp h
  obtain ⟨⟨w, c⟩, hserialize, h⟩ := bind_eq_some.mp h
  cases h
  have hhead := (Fat.getClustersForFile_eq_some_iff.mp hclusters).head
  rw [hhead] at hfirst
  cases hfirst
  exact ⟨he', rfl, c, hserialize⟩

theorem createEntry_eq {clusters : List Nat} {c : Nat} (hlen : (utf8 name).length ≤ 255)
    (he : FatFileEntry.create name attributes directory now = some e)
    (hchain : v.HasChain d.contentCluster clusters)
    (hserialize : v.serializeFileEntry none e d.contentCluster = some (v', c)) :
    createEntry v d name attributes directory now = some (.ok (v', e, d.contentCluster)) := by
  rw [createEntry, if_neg (Nat.not_lt.mpr hlen), he, hchain.getClustersForFile_eq]
  simp [some_bind, hchain.chain.head, hserialize]

/-- What a directory lists after an entry has been stored in its last cluster. -/
theorem exists_of_room {pre run post : List RawFatFileEntry} (h1 : Fat.OneSector v)
    (hchain : v.HasChain d.contentCluster (init ++ [last]))
    (hroom : Fat.RoomInLast v e.slots init last pre run post) (hgap : Fat.Gap pre run post)
    (hbefore : d.entries v = some before) :
    ∃ left here right, Fat.listSlots post [] [] = some here ∧ before = left ++ here ++ right ∧
      d.entries (v.setSlots last (pre ++ e.group ++ post)) =
        (Fat.listSlots (e.group ++ post) [] []).map fun here => left ++ here ++ right := by
  obtain ⟨left, here, right, rfl, hhere, hentries⟩ := Fat.entries_setSlots h1 hchain hbefore
  rw [hroom.runAt.split] at hhere
  obtain ⟨es, es', rfl, hclosed, hes'⟩ := hgap.exists_lists hhere
  refine ⟨left ++ es, es', right, hes', by simp, ?_⟩
  rw [hentries _ (Fat.length_insert h1 hroom.runAt), List.append_assoc pre, hclosed, Option.map_map]
  simp [Function.comp_def]

/-- **A new entry is put into a directory as it should be** if the first free slots in a row that it
fits in are in the last cluster of the directory, no listing reaches over them, clusters have one
sector and the short name is not taken for a free slot. -/
theorem createEntry_inserts (v : Fat) (d : FatDirectory) (name : List Char) (attributes : UInt8)
    (directory : Bool) (now : NaiveDateTime) (e : FatFileEntry) (init : List Nat) (last : Nat)
    (pre run post : List RawFatFileEntry) (before : List FatFileEntry) (h1 : Fat.OneSector v)
    (hchain : v.HasChain d.contentCluster (init ++ [last]))
    (hbefore : d.entries v = some before) (hlen : (utf8 name).length ≤ 255)
    (hnow : now.Representable) (he : FatFileEntry.create name attributes directory now = some e)
    (hslots : e.slots < 20) (hroom : Fat.RoomInLast v e.slots init last pre run post)
    (hgap : Fat.Gap pre run post) (hused : e.sfn.name ≠ RawFatFileEntry.default.name)
    (hlive : e.sfn.firstByte ≠ fatFreeEntry) :
    ∃ v', createEntry v d name attributes directory now = some (.ok (v', e, d.contentCluster)) ∧
      Inserts v v' d e := by
  have hserialize := Fat.serializeFileEntry_none_eq h1 hchain hslots hroom
  have hrun := hroom.runAt
  obtain ⟨left, here, right, hhere, rfl, hentries⟩ := exists_of_room h1 hchain hroom hgap hbefore
  obtain ⟨e', -, hsfn, hlfn, -, hlists⟩ :=
    (FatFileEntry.created_of_create hnow he).lists hused hlive
  have hlastVol : 2 ≤ last := (hchain.onVolume last (by simp)).1
  have hinit : init.flatMap (v.setSlots last (pre ++ e.group ++ post)).slots =
      init.flatMap v.slots := by
    apply flatMap_congr
    intro c hc
    refine Fat.slots_setSlots_of_ne hlastVol (hchain.onVolume c (by simp [hc])).1 ?_
    rintro rfl
    exact (nodup_append.mp hchain.chain.nodup).2.2 c hc c mem_cons_self rfl
  refine ⟨_, createEntry_eq hlen he hchain hserialize, ?_, ?_⟩
  · refine ⟨init ++ [last], [], init.flatMap v.slots ++ pre, run, post, hchain, ?_, .inl rfl, ?_,
      hrun.length, fun i s hs => .inl (hrun.all s (mem_of_getElem? hs)), ?_⟩
    · rw [append_nil]
      exact ⟨hchain.chain, hchain.onVolume⟩
    · simp [hrun.split]
    rw [append_nil, flatMap_append, hinit, flatMap_singleton,
      Fat.slots_setSlots_self h1 (Fat.length_insert h1 hrun)]
    simp
  · refine ⟨left, here ++ right, e', by rw [hbefore, append_assoc], ?_, hsfn, hlfn⟩
    rw [hentries, hlists, hhere]
    simp

end

/-! ## A directory with room and one without -/

def emptyVolume : Fat := Fat.ofTable [fatLastCluster, fatLastCluster, fatEndOfFileMark]

def root : FatDirectory := ⟨2, 2⟩

def someTime : NaiveDateTime := ⟨⟨2024, 2, 29, 12, 30, 40⟩, by decide⟩

/-- A short-name slot of 1980. -/
def shortSlot (name : List Char) : RawFatFileEntry :=
  { RawFatFileEntry.default with
    name := .ofList (utf8 name ++ replicate (11 - (utf8 name).length) LongFileName.space)
    creationDate := 33
    lastAccessDate := 33
    lastWriteDate := 33 }

/-- Slots that were never used can be exchanged for an entry. -/
theorem gap_unused [Chrono] [Ucs2] {pre : List RawFatFileEntry} {entries : List FatFileEntry}
    (h : Fat.Closed pre entries) (n m : Nat) :
    Fat.Gap pre (replicate n .default) (replicate m .default) := by
  have hnil : ∀ k, Fat.listSlots (replicate k .default) [] [] = some [] := by
    intro k
    cases k <;> rfl
  exact ⟨⟨entries, h⟩, by rw [replicate_append_replicate, hnil, hnil]⟩

/-- A root directory of two clusters. The last slot of the first is deleted, and only one slot of
the second is in use. -/
def borderVolume : Fat :=
  ((Fat.ofTable [fatLastCluster, fatLastCluster, 3, fatEndOfFileMark]).setSlots 2
      (replicate 15 (shortSlot ['X']) ++ [.removed])).setSlots 3
    (shortSlot ['Y'] :: replicate 15 .default)

theorem borderVolume_slots :
    borderVolume.slots 2 = replicate 15 (shortSlot ['X']) ++ [.removed] ∧
      borderVolume.slots 3 = shortSlot ['Y'] :: replicate 15 .default :=
  ⟨(Fat.slots_setSlots_of_ne (by decide) (by decide) (by decide)).trans
    (Fat.slots_setSlots_self ⟨rfl, rfl⟩ rfl), Fat.slots_setSlots_self ⟨rfl, rfl⟩ rfl⟩

/-- The deleted slot is not enough for three slots, and the next one is in use. -/
theorem borderVolume_room {e : FatFileEntry} (h : e.slots = 3) :
    Fat.RoomInLast borderVolume e.slots [2] 3 [shortSlot ['Y']] (replicate 3 .default)
      (replicate 12 .default) := by
  rw [h, Fat.RoomInLast, flatMap_singleton, borderVolume_slots.1, borderVolume_slots.2]
  refine ⟨⟨?_, rfl, fun s hs => ?_⟩, fun hrun => ?_⟩
  · simp only [append_assoc, cons_append, nil_append, replicate_append_replicate, Nat.reduceAdd]
  · rw [eq_of_mem_replicate hs]
    rfl
  obtain ⟨i, hi, hall⟩ := hrun.exists_index
  have hnone : ∀ i < 17, ((((replicate 15 (shortSlot ['X']) ++ [RawFatFileEntry.removed] ++
      [shortSlot ['Y']] ++ (replicate 3 RawFatFileEntry.default).dropLast).drop i).take 3).all
        isFree) = false := by decide +kernel
  rw [hnone i (Nat.lt_succ_of_le (by simpa using hi))] at hall
  cases hall

theorem borderVolume_hasChain : borderVolume.HasChain root.contentCluster ([2] ++ [3]) :=
  ⟨⟨⟨rfl, rfl⟩, rfl⟩, by decide⟩

theorem borderVolume_entries : ∃ before, root.entries borderVolume = some before := by
  rw [Fat.entries_eq ⟨rfl, by decide, by decide⟩ borderVolume_hasChain, map_append, map_singleton,
    map_singleton, borderVolume_slots.1, borderVolume_slots.2]
  exact isSome_iff_exists.mp (by decide +kernel)

theorem borderVolume_gap :
    Fat.Gap [shortSlot ['Y']] (replicate 3 .default) (replicate 12 .default) := by
  obtain ⟨y, hy⟩ : ∃ y, FatFileEntry.ofRaw (shortSlot ['Y']) = some y :=
    isSome_iff_exists.mp (by decide +kernel)
  exact gap_unused (Fat.closed_nil.concat (by decide) (by decide) (by decide) hy) 3 12

/-- A name of 14 characters takes three slots. They are not put over the border of the clusters. -/
theorem createEntry_inserts_three :
    ∃ v' e, createEntry borderVolume root "Boot image.bin".toList 0 false someTime =
      some (.ok (v', e, 2)) ∧ e.slots = 3 ∧ Inserts borderVolume v' root e := by
  obtain ⟨e, he, hthree, hused, hlive⟩ : ∃ e,
      FatFileEntry.create "Boot image.bin".toList 0 false someTime = some e ∧ e.slots = 3 ∧
        e.sfn.name ≠ RawFatFileEntry.default.name ∧ e.sfn.firstByte ≠ fatFreeEntry := by
    decide +kernel
  obtain ⟨before, hbefore⟩ := borderVolume_entries
  obtain ⟨v', hcreate, hinserts⟩ := createEntry_inserts borderVolume root
    "Boot image.bin".toList 0 false someTime e [2] 3 _ _ _ before ⟨rfl, rfl⟩ borderVolume_hasChain
    hbefore (by decide) (by decide) he (by rw [hthree]; decide) (borderVolume_room hthree)
    borderVolume_gap hused hlive
  exact ⟨v', e, hcreate, hthree, hinserts⟩

/-- A root directory of two clusters. The first slot is deleted, all others of the first cluster and
two of the second are in use. -/
def crowdedVolume : Fat :=
  ((Fat.ofTable [fatLastCluster, fatLastCluster, 3, fatEndOfFileMark]).setSlots 2
      (.removed :: replicate 15 (shortSlot ['X']))).setSlots 3
    (shortSlot ['Y'] :: shortSlot ['Z'] :: replicate 14 .default)

/-- A file `A` gets the deleted slot, and the entry `Z` of the next cluster is written over as
well. With two sectors per cluster no entry can be created. -/
theorem createEntry_overwrites :
    (root.entries crowdedVolume).map (·.any (·.name = ['Z'])) = some true ∧
    (((createEntry crowdedVolume root ['A'] 0 false someTime).bind (·.toOption)).bind fun r =>
      (root.entries r.1).map (·.any (·.name = ['Z']))) = some false ∧
    createEntry { emptyVolume with bpb := ⟨512, 2, 0, 0, 0, 2⟩ } root ['A'] 0 false someTime =
      none := by
  decide +kernel

/-! ## Names -/

section

variable [Chrono] {e : FatFileEntry} {now : NaiveDateTime} {before : List FatFileEntry}

/-- One entry more is listed. It has the name, and its long-name slots have the checksum of its
short name. -/
def NameListed (before after : List FatFileEntry) (name : List Char) : Prop :=
  ∃ left right e, before = left ++ right ∧ after = left ++ e :: right ∧ e.name = name ∧
    ∀ slot ∈ e.lfn, computeLfnChecksum e.sfn.name = some slot.creationTimeMilliseconds

theorem NameListed.length_eq {after : List FatFileEntry} (h : NameListed before after name) :
    after.length = before.length + 1 := by
  obtain ⟨left, right, e, rfl, rfl, -, -⟩ := h
  simp only [length_append, length_cons]
  omega

/-- If an entry is listed in addition, it is the one with the name: there is one more of them. -/
theorem NameListed.name_eq {left right : List FatFileEntry}
    (h : NameListed (left ++ right) (left ++ e :: right) name) : e.name = name := by
  obtain ⟨left', right', e', hbefore, hafter, hname, -⟩ := h
  have hcount := congrArg (countP fun e => decide (e.name = name)) hafter
  have hcount' := congrArg (countP fun e => decide (e.name = name)) hbefore
  simp only [countP_append, countP_cons, hname, decide_true, if_true] at hcount hcount'
  by_contra hne
  simp only [hne, decide_false, Bool.false_eq_true, if_false] at hcount
  omega

theorem slots_lt_of_serialize {c : Nat} (h : v.serializeFileEntry none e cluster = some (v', c)) :
    e.slots < 20 := by
  by_contra hge
  rw [Fat.serializeFileEntry] at h
  simp only [some_bind, if_pos (Nat.le_of_not_lt hge)] at h
  cases h

variable [Ucs2]

theorem createFile_ok {f : FatFile} (h : createFile v d name attributes now = some (.ok (v', f))) :
    FatFileEntry.create name attributes false now = some f.fileEntry ∧
      ∃ c, v.serializeFileEntry none f.fileEntry d.contentCluster = some (v', c) := by
  rw [createFile] at h
  obtain ⟨result, hresult, h⟩ := bind_eq_some.mp h
  cases result with
  | error _ => cases h
  | ok created =>
    obtain ⟨w, e, cluster⟩ := created
    cases h
    obtain ⟨he, rfl, hserialize⟩ := createEntry_ok hresult
    exact ⟨he, hserialize⟩

/-- **The names that come back from a directory.** A file is created in a directory whose first free
slots for it are in the last cluster. Then the directory lists it under the name it was given
exactly if the name is short, has no white space at its ends, does not look deleted and is not all
zeros, or it is long, has no zero in it and its short name does not look deleted. -/
theorem createFile_lists_iff (v v' : Fat) (d : FatDirectory) (name : List Char) (attributes : UInt8)
    (now : NaiveDateTime) (f : FatFile) (init : List Nat) (last : Nat)
    (pre run post : List RawFatFileEntry) (before : List FatFileEntry)
    (hok : createFile v d name attributes now = some (.ok (v', f))) (hnow : now.Representable)
    (h1 : Fat.OneSector v) (hchain : v.HasChain d.contentCluster (init ++ [last]))
    (hbefore : d.entries v = some before)
    (hroom : Fat.RoomInLast v f.fileEntry.slots init last pre run post)
    (hgap : Fat.Gap pre run post) :
    (∃ after, d.entries v' = some after ∧ NameListed before after name) ↔
      FatFileEntry.NameKept name := by
  obtain ⟨he, c, hserialize⟩ := createFile_ok hok
  have hslots := slots_lt_of_serialize hserialize
  have hcreated := FatFileEntry.created_of_create hnow he
  obtain ⟨left, here, right, hhere, rfl, hentries⟩ := exists_of_room h1 hchain hroom hgap hbefore
  rw [Fat.serializeFileEntry_none_eq h1 hchain hslots hroom] at hserialize
  cases hserialize
  rw [← hcreated.kept_iff, hentries]
  by_cases hlive : f.fileEntry.sfn.name ≠ RawFatFileEntry.default.name ∧
      f.fileEntry.sfn.firstByte ≠ fatFreeEntry
  · obtain ⟨e', hname, hsfn, hlfn, -, hlists⟩ := hcreated.lists hlive.1 hlive.2
    rw [hlists, hhere]
    constructor
    · rintro ⟨after, hafter, hlisted⟩
      cases hafter
      simp only [append_assoc, cons_append] at hlisted
      exact ⟨hlive.1, hlive.2, hname.symm.trans hlisted.name_eq⟩
    rintro ⟨-, -, hkept⟩
    refine ⟨_, rfl, left, here ++ right, e', by simp, by simp, hname.trans hkept, ?_⟩
    rw [hsfn, hlfn]
    exact hcreated.checksum
  constructor
  · -- nothing is added to the listing, whose length shows it
    rintro ⟨after, hafter, hlisted⟩
    obtain ⟨es, hes, rfl⟩ := map_eq_some_iff.mp hafter
    have hfree := (not_and_or.mp hlive).imp not_not.mp not_not.mp
    have hle := hcreated.length_le hfree hes hhere
    have hlen := hlisted.length_eq
    simp only [length_append] at hlen
    omega
  · rintro ⟨h0, hdel, -⟩
    exact absurd ⟨h0, hdel⟩ hlive

end

theorem createFile_lists_iff_long :
    ∃ v' f before after, createFile borderVolume root "Boot image.bin".toList 0 someTime =
      some (.ok (v', f)) ∧ root.entries borderVolume = some before ∧
      root.entries v' = some after ∧ NameListed before after "Boot image.bin".toList := by
  obtain ⟨e, he, hthree⟩ : ∃ e, FatFileEntry.create "Boot image.bin".toList 0 false someTime =
      some e ∧ e.slots = 3 := by decide +kernel
  obtain ⟨before, hbefore⟩ := borderVolume_entries
  have hroom := borderVolume_room hthree
  have hserialize :=
    Fat.serializeFileEntry_none_eq ⟨rfl, rfl⟩ borderVolume_hasChain (by omega) hroom
  obtain ⟨v', hcreate⟩ : ∃ v', createFile borderVolume root "Boot image.bin".toList 0 someTime =
      some (.ok (v', ⟨2, 0, e, 2⟩)) := by
    rw [createFile, createEntry_eq (by decide) he borderVolume_hasChain hserialize]
    exact ⟨_, rfl⟩
  obtain ⟨after, hafter, hlisted⟩ := (createFile_lists_iff borderVolume v' root _ 0 someTime _ [2] 3
    _ _ _ before hcreate (by decide) ⟨rfl, rfl⟩ borderVolume_hasChain hbefore hroom
    borderVolume_gap).mpr (by decide +kernel)
  exact ⟨_, _, before, after, hcreate, hbefore, hafter, hlisted⟩

/-- A space in front of a short name is lost. -/
theorem createFile_loses_space :
    (((createFile emptyVolume root [' ', 'A'] 0 someTime).bind (·.toOption)).bind fun r =>
      (root.entries r.1).map (·.map (·.name))) = some [['A']] := by
  decide +kernel

end FatDirectory
end Moose.Fat32
