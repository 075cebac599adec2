import Moose.Fat32.Clusters

/-!
# Saving the table and mounting again

`save_fat` writes the table to the device and `init` reads it from there. The two do not agree on
the place: reading counts sectors from the start of the partition, writing from the start of the
device. From 128 sectors on, `read_sectors` leaves out the last two.

Each of the two loops is described by what it does to the whole device or the whole table. What
comes back after mounting can then be compared entry by entry, for any geometry.
-/

set_option autoImplicit false

namespace Moose.Fat32

open List Option Lib

namespace Fat

variable {v : Fat} {buffer : List UInt8} {n k first : Nat}

/-- Reads the table. Entries are little-endian. -/
def init (v : Fat) : Option Fat := do
  let sectors ← v.readSectors v.bpb.reservedSectorCount v.bpb.sectorsPerFat32
  some { v with fileAllocationTable := (blocks 4 (flattened sectors)).map ofLe }

def fatSlice (v : Fat) : List UInt8 := v.fileAllocationTable.flatMap (toLe 4)

/-- The sector that is written in round `i`: a sum in 64 bits, cast to 32. -/
def fatSector (v : Fat) (i : Nat) : Nat := (v.bpb.reservedSectorCount + i) % 2 ^ 32

def saveFat (v : Fat) : Option Fat :=
  if v.fatSlice.length ≠ v.bpb.sectorsPerFat32 * 512 then none
  else do
    let disk ← (range v.bpb.sectorsPerFat32).foldlM
      (fun disk i => disk.writeSector (v.fatSector i) ((v.fatSlice.drop (512 * i)).take 512)) v.disk
    some { v with disk := disk }

/-- The table in memory has the size of the table on the device, as `init` leaves it. -/
structure TableFits (v : Fat) : Prop where
  pos : 0 < v.bpb.sectorsPerFat32
  reserved : v.bpb.reservedSectorCount < 2 ^ 16
  length : v.fileAllocationTable.length = v.bpb.sectorsPerFat32 * 128
  entry : ∀ e ∈ v.fileAllocationTable, e < 2 ^ 32

/-- Saving writes only sectors of the table of the partition, and mounting again finds the same
table. -/
def Persists (v : Fat) : Prop :=
  let start := v.partitionFirstSectorLba + v.bpb.reservedSectorCount
  (∀ i < v.bpb.sectorsPerFat32,
      start ≤ v.fatSector i ∧ v.fatSector i < start + v.bpb.sectorsPerFat32) ∧
    ∃ saved mounted, v.saveFat = some saved ∧ saved.init = some mounted ∧
      mounted.fileAllocationTable = v.fileAllocationTable

/-! ## What is written -/

theorem length_fatSlice (h : v.TableFits) : v.fatSlice.length = v.bpb.sectorsPerFat32 * 512 := by
  rw [fatSlice, length_flatMap_pieces fun e _ => length_toLe 4 e, h.length, Nat.mul_assoc]

/-- Consecutive sectors of a buffer, written from the sector `first` on. -/
theorem foldlM_writeSector (hlen : buffer.length = n * 512) (hfirst : first + n ≤ 2 ^ 32)
    (hk : k ≤ n)
    (disk : Disk) :
    (range k).foldlM (fun (disk : Disk) i =>
        disk.writeSector ((first + i) % 2 ^ 32) ((buffer.drop (512 * i)).take 512)) disk =
      some fun s =>
        if first ≤ s ∧ s < first + k then Sector.slice buffer (s - first) else disk s := by
  induction k with
  | zero =>
    rw [range_zero, foldlM_nil]
    congr 1
    funext s
    rw [if_neg (by omega)]
  | succ k ih =>
    have hslice := Sector.slice_val hlen hk
    have hsize : ((buffer.drop (512 * k)).take 512).length = 512 :=
      hslice ▸ (Sector.slice buffer k).2
    rw [range_succ, foldlM_append, ih (Nat.le_of_succ_le hk), some_bind, foldlM_cons,
      Nat.mod_eq_of_lt (by omega), Disk.writeSector, dif_pos hsize]
    simp only [some_bind, foldlM_nil]
    congr 1
    funext s
    by_cases hs : s = first + k
    · subst hs
      rw [Function.update_self, if_pos (by omega), Nat.add_sub_cancel_left]
      exact Subtype.ext hslice.symm
    · rw [Function.update_of_ne hs]
      exact if_congr (by omega) rfl rfl

/-- The device after saving: the sectors after the reserved ones hold the table. -/
def savedDisk (v : Fat) : Disk := fun s =>
  if v.bpb.reservedSectorCount ≤ s ∧ s < v.bpb.reservedSectorCount + v.bpb.sectorsPerFat32 then
    Sector.slice v.fatSlice (s - v.bpb.reservedSectorCount)
  else v.disk s

theorem saveFat_eq (h : v.TableFits) (hsmall : v.bpb.sectorsPerFat32 < 2 ^ 23) :
    v.saveFat = some { v with disk := v.savedDisk } := by
  have hlen := length_fatSlice h
  have hfirst : v.bpb.reservedSectorCount + v.bpb.sectorsPerFat32 ≤ 2 ^ 32 := by
    have hreserved := h.reserved
    omega
  have hwrites := foldlM_writeSector hlen hfirst (Nat.le_refl _) v.disk
  unfold saveFat fatSector
  rw [if_neg (not_not.mpr hlen), hwrites]
  rfl

/-! ## What is read -/

theorem flattened_savedDisk (h : v.TableFits) (hk : k ≤ v.bpb.sectorsPerFat32) :
    flattened (v.savedDisk.readSectors v.bpb.reservedSectorCount k) =
      (v.fileAllocationTable.take (k * 128)).flatMap (toLe 4) := by
  have hlen := length_fatSlice h
  calc flattened (v.savedDisk.readSectors v.bpb.reservedSectorCount k)
      = (range k).flatMap fun i => (v.fatSlice.drop (512 * i)).take 512 := by
        rw [flattened, Disk.readSectors, flatMap_map]
        refine flatMap_congr fun i hi => ?_
        have hlt : i < v.bpb.sectorsPerFat32 := Nat.lt_of_lt_of_le (mem_range.mp hi) hk
        rw [savedDisk, if_pos ⟨Nat.le_add_right _ _, by omega⟩, Nat.add_sub_cancel_left,
          Sector.slice_val hlen hlt]
    _ = v.fatSlice.take (k * 128 * 4) := by rw [flatMap_range_take, Nat.mul_assoc]
    _ = (v.fileAllocationTable.take (k * 128)).flatMap (toLe 4) :=
        take_flatMap_pieces (fun e _ => length_toLe 4 e) _

theorem ofLe_blocks {table : List Nat} (h : ∀ e ∈ table, e < 2 ^ 32) :
    (blocks 4 (table.flatMap (toLe 4))).map ofLe = table := by
  rw [blocks_flatMap (by decide) fun e _ => length_toLe 4 e, List.map_map]
  exact (List.map_congr_left fun e he => ofLe_toLe (h e he)).trans (List.map_id _)

def foundTable (v : Fat) : List Nat :=
  if v.bpb.sectorsPerFat32 < 128 then v.fileAllocationTable
  else v.fileAllocationTable.take ((v.bpb.sectorsPerFat32 - 2) * 128) ++ replicate 256 0

theorem init_savedDisk (h : v.TableFits) (hpartition : v.partitionFirstSectorLba = 0)
    (hsmall : v.bpb.sectorsPerFat32 < 2 ^ 23) :
    Fat.init { v with disk := v.savedDisk } =
      some { v with disk := v.savedDisk, fileAllocationTable := v.foundTable } := by
  have hreserved := h.reserved
  have hbytes : checked 32 (v.bpb.sectorsPerFat32 * 512) = some (v.bpb.sectorsPerFat32 * 512) :=
    if_pos (by omega)
  unfold init readSectors foundTable
  simp only [hpartition, Nat.zero_add, hbytes, bind_eq_bind, bind_some]
  by_cases hfew : v.bpb.sectorsPerFat32 < 128
  · have hstart : checked 32 v.bpb.reservedSectorCount = some v.bpb.reservedSectorCount :=
      if_pos (by omega)
    have hall : v.fileAllocationTable.length ≤ v.bpb.sectorsPerFat32 * 128 := Nat.le_of_eq h.length
    rw [if_neg (by omega), hstart, bind_some, bind_some, if_pos hfew,
      flattened_savedDisk h (Nat.le_refl _), take_of_length_le hall, ofLe_blocks h.entry]
  have hlast : checked 32 (v.bpb.reservedSectorCount + (v.bpb.sectorsPerFat32 - 3)) =
      some (v.bpb.reservedSectorCount + (v.bpb.sectorsPerFat32 - 3)) := if_pos (by omega)
  have hzero : flattened [Sector.zero, Sector.zero] = (replicate 256 0).flatMap (toLe 4) := by
    decide +kernel
  have hentry : ∀ e ∈ v.fileAllocationTable.take ((v.bpb.sectorsPerFat32 - 2) * 128) ++
      replicate 256 0, e < 2 ^ 32 := by
    intro e he
    rcases mem_append.mp he with he | he
    · exact h.entry e (mem_of_mem_take he)
    rw [eq_of_mem_replicate he]
    decide
  rw [if_pos (by omega), hlast, bind_some, bind_some, if_neg hfew, flattened,
    flatMap_append, ← flattened, ← flattened, flattened_savedDisk h (Nat.sub_le _ _), hzero,
    ← flatMap_append, ofLe_blocks hentry]

/-- With many sectors the table is found again when the part left out is free. -/
theorem foundTable_eq_iff (h : v.TableFits) :
    v.foundTable = v.fileAllocationTable ↔ v.bpb.sectorsPerFat32 < 128 ∨
      ∀ e ∈ v.fileAllocationTable.drop ((v.bpb.sectorsPerFat32 - 2) * 128), e = 0 := by
  unfold foundTable
  by_cases hfew : v.bpb.sectorsPerFat32 < 128
  · simp [hfew]
  have hlen : (v.fileAllocationTable.drop ((v.bpb.sectorsPerFat32 - 2) * 128)).length = 256 := by
    rw [length_drop, h.length]
    omega
  rw [if_neg hfew, or_iff_right hfew]
  nth_rewrite 2 [← take_append_drop ((v.bpb.sectorsPerFat32 - 2) * 128) v.fileAllocationTable]
  rw [append_cancel_left_eq, eq_comm, eq_replicate_iff, and_iff_right hlen]

/-! ## Persistence -/

/-- The table persists exactly on a partition at the start of the device, with fewer than 128
sectors or nothing in the last two. -/
theorem persists_iff (h : v.TableFits) :
    v.Persists ↔ v.partitionFirstSectorLba = 0 ∧ v.bpb.sectorsPerFat32 < 2 ^ 23 ∧
      (v.bpb.sectorsPerFat32 < 128 ∨
        ∀ e ∈ v.fileAllocationTable.drop ((v.bpb.sectorsPerFat32 - 2) * 128), e = 0) := by
  have hreserved := h.reserved
  have hpos := h.pos
  constructor
  · rintro ⟨hplace, saved, mounted, hsaved, hmounted, htable⟩
    have hpartition : v.partitionFirstSectorLba = 0 := by
      have hfirst := (hplace 0 hpos).1
      rw [fatSector, Nat.mod_eq_of_lt (by omega)] at hfirst
      omega
    have hsmall : v.bpb.sectorsPerFat32 < 2 ^ 23 := by
      by_contra hbig
      have hover : checked 32 (saved.bpb.sectorsPerFat32 * 512) = none := by
        have hbpb : saved.bpb = v.bpb := by
          unfold saveFat at hsaved
          split at hsaved
          · cases hsaved
          obtain ⟨disk, -, hsaved⟩ := bind_eq_some.mp hsaved
          cases hsaved
          rfl
        rw [hbpb]
        exact if_neg (by omega)
      rw [init, readSectors, hover] at hmounted
      cases hmounted
    rw [saveFat_eq h hsmall] at hsaved
    cases hsaved
    rw [init_savedDisk h hpartition hsmall] at hmounted
    cases hmounted
    exact ⟨hpartition, hsmall, (foundTable_eq_iff h).mp htable⟩
  · rintro ⟨hpartition, hsmall, hlast⟩
    refine ⟨fun i hi => ?_, _, _, saveFat_eq h hsmall, init_savedDisk h hpartition hsmall,
      (foundTable_eq_iff h).mpr hlast⟩
    rw [fatSector, Nat.mod_eq_of_lt (by omega)]
    omega

/-- A volume with one sector of table and a file of two clusters, that starts at the given sector.
-/
def withFile (start : Nat) : Fat :=
  ⟨fun _ => .zero, start, ⟨512, 1, 32, 2, 1, 2⟩,
    [fatLastCluster, fatLastCluster, 3, fatEndOfFileMark] ++ replicate 124 0⟩

theorem tableFits_withFile (start : Nat) : (withFile start).TableFits := by
  constructor <;> simp [withFile, fatLastCluster, fatEndOfFileMark]

theorem persists_withFile : (withFile 0).TableFits ∧ (withFile 0).Persists :=
  ⟨tableFits_withFile 0,
    (persists_iff (tableFits_withFile 0)).mpr ⟨rfl, by decide, .inl (by decide)⟩⟩

/-- On a partition from sector 1 on, the reserved sector 32 is written and not the table. -/
theorem not_persists_partition : (withFile 1).TableFits ∧ ¬(withFile 1).Persists := by
  refine ⟨tableFits_withFile 1, fun hpersists => ?_⟩
  have hfirst : 33 ≤ 32 := (hpersists.1 0 (by decide)).1
  exact absurd hfirst (by decide)

end Fat

end Moose.Fat32
