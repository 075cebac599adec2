import Moose.Fat32.Read

/-!
# Clusters of slots

The cluster of a directory as a list of slots. A slot that is written is read back, and storing the
slots of a cluster replaces those and no others. A listing is stored with one sector per cluster or
not at all: of larger clusters there are more than 16 slots, which the code asserts against.
-/

set_option autoImplicit false

namespace Moose.Fat32

open List Lib RawFatFileEntry

namespace RawFatFileEntry

theorem ofLe_bytes16 (x : UInt16) :
    UInt16.ofNat (ofLe [UInt8.ofNat x.toNat, UInt8.ofNat (x.toNat / 256)]) = x := by
  have hback : ofLe (toLe 2 x.toNat) = x.toNat := ofLe_toLe x.toNat_lt
  rw [toLe, toLe, toLe] at hback
  rw [hback, UInt16.ofNat_toNat]

theorem ofLe_bytes32 (x : UInt32) :
    UInt32.ofNat (ofLe [UInt8.ofNat x.toNat, UInt8.ofNat (x.toNat / 256),
      UInt8.ofNat (x.toNat / 256 / 256), UInt8.ofNat (x.toNat / 256 / 256 / 256)]) = x := by
  have hback : ofLe (toLe 4 x.toNat) = x.toNat := ofLe_toLe x.toNat_lt
  rw [toLe, toLe, toLe, toLe, toLe] at hback
  rw [hback, UInt32.ofNat_toNat]

/-- A slot is read back as it was written. -/
@[simp] theorem decode_encode (e : RawFatFileEntry) : decode (encode e) = e := by
  obtain ⟨⟨name, hname⟩, attr, res, ms, ctime, cdate, adate, high, wtime, wdate, low, size⟩ := e
  match name, hname with
  | [b0, b1, b2, b3, b4, b5, b6, b7, b8, b9, b10], _ =>
    simp only [decode, encode, toLe, cons_append, nil_append,
      drop_succ_cons, drop_zero, take_succ_cons, take_zero, ofLe_bytes16,
      ofLe_bytes32]
    rfl

@[simp] theorem length_encode (e : RawFatFileEntry) : (encode e).length = 32 := by
  simp [encode, e.name.2]

end RawFatFileEntry

theorem slotsOf_eq (bytes : List UInt8) :
    slotsOf bytes = (blocks 32 bytes).map decode := by
  rw [slotsOf, blocks, map_map]
  rfl

@[simp] theorem slotsOf_flatMap_encode (slots : List RawFatFileEntry) :
    slotsOf (slots.flatMap encode) = slots := by
  rw [slotsOf_eq, blocks_flatMap (by decide) fun e _ => length_encode e, map_map]
  have hid : decode ∘ encode = id :=
    funext decode_encode
  rw [hid, map_id]

theorem length_flatMap_encode (slots : List RawFatFileEntry) :
    (slots.flatMap encode).length = slots.length * 32 :=
  length_flatMap_pieces fun e _ => length_encode e

namespace Fat

variable {v : Fat} {cluster other : Nat} {listing : List RawFatFileEntry}

def slots (v : Fat) (cluster : Nat) : List RawFatFileEntry := slotsOf (v.clusterData cluster)

def setSlots (v : Fat) (cluster : Nat) (listing : List RawFatFileEntry) : Fat :=
  v.setCluster cluster (listing.flatMap encode)

theorem length_slots (v : Fat) (cluster : Nat) :
    (v.slots cluster).length = v.bpb.sectorsPerCluster * 16 := by
  rw [Fat.slots, slotsOf_eq, length_map, length_blocks, length_clusterData, clusterBytes]
  omega

theorem getRawFileListingFromCluster_eq (hg : Geometry v) (hc : v.OnVolume cluster) :
    v.getRawFileListingFromCluster cluster = some (v.slots cluster) := by
  have hpos := hg.pos
  have hsome : (v.disk.readSectors (v.base cluster) v.bpb.sectorsPerCluster).isEmpty = false := by
    rw [isEmpty_eq_false_iff, ← length_pos_iff]
    simpa [Disk.readSectors] using hpos
  rw [getRawFileListingFromCluster, readCluster_eq hg hc]
  simp only [some_bind, hsome]
  rfl

/-! ## Storing -/

/-- One sector per cluster: what it takes to change a directory. -/
structure OneSector (v : Fat) : Prop where
  sector : v.bpb.bytesPerSector = 512
  one : v.bpb.sectorsPerCluster = 1

theorem OneSector.geometry (h : OneSector v) : Geometry v :=
  ⟨h.sector, by rw [h.one]; decide, by rw [h.one]; decide⟩

theorem OneSector.setSlots (h : OneSector v) : OneSector (v.setSlots cluster listing) :=
  ⟨h.sector, h.one⟩

theorem OneSector.clusterBytes_eq (h : OneSector v) : v.clusterBytes = 512 := by
  rw [clusterBytes, h.one]

theorem OneSector.length_slots_eq (h : OneSector v) : (v.slots cluster).length = 16 := by
  rw [length_slots, h.one]

theorem saveListingToTheDisk_eq (h : OneSector v) (hc : v.OnVolume cluster)
    (hlen : listing.length = 16) :
    v.saveListingToTheDisk cluster listing = some (v.setSlots cluster listing) := by
  have hbytes : (listing.flatMap encode).length = v.clusterBytes := by
    rw [length_flatMap_encode, hlen, h.clusterBytes_eq]
  rw [saveListingToTheDisk, h.sector, h.one]
  simp only [hlen, Nat.lt_irrefl, if_false, writeCluster_eq h.geometry hc hbytes]
  rfl

theorem slots_setSlots_self (h : OneSector v) (hlen : listing.length = 16) :
    (v.setSlots cluster listing).slots cluster = listing := by
  have hbytes : (listing.flatMap encode).length = v.clusterBytes := by
    rw [length_flatMap_encode, hlen, h.clusterBytes_eq]
  rw [Fat.slots, Fat.setSlots, clusterData_setCluster_self hbytes, slotsOf_flatMap_encode]

/-- A listing is only stored if its sixteen slots are the whole cluster. -/
theorem length_of_saveListing {v' : Fat} (hsector : 512 ≤ v.bpb.bytesPerSector)
    (hpos : 0 < v.bpb.sectorsPerCluster) (h : v.saveListingToTheDisk cluster listing = some v') :
    OneSector v ∧ listing.length = 16 := by
  obtain ⟨bits, -, h⟩ := bind_eq_some.mp h
  split at h
  · cases h
  rename_i hlen
  rw [writeCluster] at h
  split at h
  · cases h
  rename_i hsize
  rw [not_not, clusterSize, checked, length_flatMap_encode, Nat.mod_eq_of_lt (by omega)] at hsize
  obtain ⟨-, hbytes⟩ := Option.ite_none_right_eq_some.mp hsize
  rw [Option.some.injEq, Nat.mul_comm] at hbytes
  have hsectors := Nat.mul_le_mul_left v.bpb.bytesPerSector hpos
  have hclusters := Nat.mul_le_mul_right v.bpb.sectorsPerCluster hsector
  exact ⟨⟨by omega, by omega⟩, by omega⟩

/-- **Writing and reading a listing**, for every sector and cluster size. -/
theorem saveListing_roundTrip_iff (v : Fat) (cluster : Nat) (listing : List RawFatFileEntry)
    (hsector : 512 ≤ v.bpb.bytesPerSector) (hpos : 0 < v.bpb.sectorsPerCluster)
    (hc : v.OnVolume cluster) :
    (∃ v', v.saveListingToTheDisk cluster listing = some v' ∧
        v'.getRawFileListingFromCluster cluster = some listing) ↔
      (v.bpb.bytesPerSector = 512 ∧ v.bpb.sectorsPerCluster = 1) ∧ listing.length = 16 := by
  constructor
  · rintro ⟨v', hsave, -⟩
    obtain ⟨h1, hlen⟩ := length_of_saveListing hsector hpos hsave
    exact ⟨⟨h1.sector, h1.one⟩, hlen⟩
  rintro ⟨⟨hbytes, hone⟩, hlen⟩
  have h1 : OneSector v := ⟨hbytes, hone⟩
  refine ⟨_, saveListingToTheDisk_eq h1 hc hlen, ?_⟩
  rw [getRawFileListingFromCluster_eq h1.setSlots.geometry hc, slots_setSlots_self h1 hlen]

/-- Deleted entries in front of one with a size. -/
def mixedListing : List RawFatFileEntry :=
  replicate 15 .removed ++ [{ RawFatFileEntry.default with firstClusterLow := 3, fileSize := 1200 }]

theorem saveListing_roundTrip_iff_mixed :
    ∃ v', (Fat.ofTable [0, 0, 0]).saveListingToTheDisk 2 mixedListing = some v' ∧
      v'.getRawFileListingFromCluster 2 = some mixedListing :=
  (saveListing_roundTrip_iff (.ofTable [0, 0, 0]) 2 mixedListing (by decide) (by decide)
    (by decide)).mpr ⟨⟨rfl, rfl⟩, rfl⟩

/-- A cluster of two sectors has 32 slots. -/
theorem saveListing_asserts :
    let v : Fat := .ofTable [0, 0, 0]
    Fat.saveListingToTheDisk { v with bpb := { v.bpb with sectorsPerCluster := 2 } } 2
      (replicate 32 .default) = none := by decide

theorem slots_setSlots_of_ne (h2 : 2 ≤ cluster) (h2' : 2 ≤ other) (hne : other ≠ cluster) :
    (v.setSlots cluster listing).slots other = v.slots other := by
  rw [Fat.slots, Fat.setSlots, clusterData_setCluster_of_ne h2 h2' hne, Fat.slots]

/-- Other slots in one cluster of a directory. -/
theorem map_slots_setSlots {v : Fat} {cs cs' : List Nat} {c first : Nat}
    {listing : List RawFatFileEntry} (h1 : OneSector v)
    (hchain : v.HasChain first (cs ++ c :: cs')) (hlen : listing.length = 16) :
    (cs ++ c :: cs').map (v.setSlots c listing).slots =
      cs.map v.slots ++ listing :: cs'.map v.slots := by
  have hvol := hchain.onVolume
  have hnodup := hchain.chain.nodup
  have hsame : ∀ x ∈ cs ++ c :: cs', x ≠ c → (v.setSlots c listing).slots x = v.slots x :=
    fun x hx hne => slots_setSlots_of_ne (hvol c (by simp)).1 (hvol x hx).1 hne
  rw [map_append, map_cons, slots_setSlots_self h1 hlen]
  congr 1
  · refine map_congr_left fun x hx => hsame x (by simp [hx]) fun heq => ?_
    exact (nodup_append.mp hnodup).2.2 x hx c mem_cons_self heq
  refine congrArg (listing :: ·) (map_congr_left fun x hx => ?_)
  refine hsame x (by simp [hx]) fun heq => ?_
  exact (nodup_cons.mp (nodup_append.mp hnodup).2.1).1 (heq ▸ hx)

end Fat
end Moose.Fat32
