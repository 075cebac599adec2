import Moose.Fat32.Chain
import Moose.Fat32.File
import Moose.Lib.Blocks
import Moose.Lib.Run
import Moose.Lib.Traverse

/-!
# A volume as a map from clusters to bytes

With sectors of 512 bytes and clusters whose size fits 16 bits, reading and writing a cluster reads
and replaces the bytes of that cluster and of no other. The proofs about files and directories are
about `clusterData` and `setCluster` and do not see sectors.
-/

set_option autoImplicit false

namespace Moose.Fat32

open List Lib

/-- The sizes for which sectors and clusters are what the code takes them for. -/
structure Geometry (v : Fat) : Prop where
  sector : v.bpb.bytesPerSector = 512
  pos : 0 < v.bpb.sectorsPerCluster
  small : v.bpb.sectorsPerCluster * 512 < 2 ^ 16

def Sector.slice (buffer : List UInt8) (i : Nat) : Sector :=
  ⟨((buffer.drop (512 * i)).take 512 ++ replicate 512 0).take 512, by
    rw [length_take, length_append, length_replicate]
    omega⟩

theorem Sector.slice_val {buffer : List UInt8} {i n : Nat} (h : buffer.length = n * 512)
    (hi : i < n) : (slice buffer i).1 = (buffer.drop (512 * i)).take 512 := by
  have hlen : ((buffer.drop (512 * i)).take 512).length = 512 := by
    rw [length_take, length_drop]
    omega
  exact take_append_of_length hlen

namespace Fat

variable {v : Fat} {cluster other i : Nat} {buffer : List UInt8}

/-! ## Where the bytes are -/

def clusterBytes (v : Fat) : Nat := v.bpb.sectorsPerCluster * 512

/-- The sector of the device at which a cluster starts. -/
def base (v : Fat) (cluster : Nat) : Nat :=
  v.partitionFirstSectorLba + ((cluster - 2) * v.bpb.sectorsPerCluster +
    (v.bpb.reservedSectorCount + v.bpb.numberOfFats * v.bpb.sectorsPerFat32))

/-- The cluster has data, and its sectors have numbers of 32 bits. -/
def OnVolume (v : Fat) (cluster : Nat) : Prop :=
  2 ≤ cluster ∧ v.base cluster + v.bpb.sectorsPerCluster ≤ 2 ^ 32

instance : Decidable (v.OnVolume cluster) := inferInstanceAs (Decidable (_ ∧ _))

def clusterData (v : Fat) (cluster : Nat) : List UInt8 :=
  flattened (v.disk.readSectors (v.base cluster) v.bpb.sectorsPerCluster)

/-- The volume with other bytes in a cluster. -/
def setCluster (v : Fat) (cluster : Nat) (buffer : List UInt8) : Fat :=
  { v with
    disk := (range v.bpb.sectorsPerCluster).foldl
      (fun d i => Function.update d (v.base cluster + i) (.slice buffer i)) v.disk }

@[simp] theorem setCluster_bpb : (v.setCluster cluster buffer).bpb = v.bpb := rfl

@[simp] theorem setCluster_base (c : Nat) : (v.setCluster cluster buffer).base c = v.base c := rfl

theorem length_flattened (sectors : List Sector) :
    (flattened sectors).length = sectors.length * 512 :=
  length_flatMap_pieces fun sector _ => sector.2

@[simp] theorem length_clusterData : (v.clusterData cluster).length = v.clusterBytes := by
  simp [clusterData, length_flattened, Disk.readSectors, clusterBytes]

/-! ## What a write leaves -/

/-- The last write to a sector counts. -/
theorem foldl_update_apply (start : Nat) (buffer : List UInt8) (is : List Nat) (d : Disk)
    (sector : Nat) :
    is.foldl (fun d i => Function.update d (start + i) (Sector.slice buffer i)) d sector =
      if start ≤ sector ∧ sector - start ∈ is then Sector.slice buffer (sector - start)
      else d sector := by
  induction is generalizing d with
  | nil => simp
  | cons i is ih =>
    rw [foldl_cons, ih]
    by_cases hlater : start ≤ sector ∧ sector - start ∈ is
    · rw [if_pos hlater, if_pos ⟨hlater.1, mem_cons_of_mem i hlater.2⟩]
    rw [if_neg hlater]
    by_cases hthis : sector = start + i
    · subst hthis
      simp
    have hnot : ¬(start ≤ sector ∧ sector - start ∈ i :: is) := by
      rintro ⟨hle, hmem⟩
      rcases mem_cons.mp hmem with heq | hmem
      · exact hthis (by omega)
      · exact hlater ⟨hle, hmem⟩
    rw [if_neg hnot, Function.update_of_ne hthis]

theorem setCluster_disk_apply (sector : Nat) :
    (v.setCluster cluster buffer).disk sector =
      if v.base cluster ≤ sector ∧ sector - v.base cluster ∈ range v.bpb.sectorsPerCluster then
        Sector.slice buffer (sector - v.base cluster)
      else v.disk sector :=
  foldl_update_apply _ _ _ _ _

theorem clusterData_setCluster_self (h : buffer.length = v.clusterBytes) :
    (v.setCluster cluster buffer).clusterData cluster = buffer := by
  have hslices : ∀ i ∈ range v.bpb.sectorsPerCluster,
      ((v.setCluster cluster buffer).disk (v.base cluster + i)).1 =
        (buffer.drop (512 * i)).take 512 := by
    intro i hi
    rw [setCluster_disk_apply, if_pos ⟨by omega, by simpa using hi⟩, Nat.add_sub_cancel_left]
    exact Sector.slice_val h (mem_range.mp hi)
  have hdiv : buffer.length / 512 = v.bpb.sectorsPerCluster := by
    rw [h, clusterBytes, Nat.mul_div_cancel _ (by decide)]
  calc (v.setCluster cluster buffer).clusterData cluster
      = ((range v.bpb.sectorsPerCluster).map fun i =>
        (buffer.drop (512 * i)).take 512).flatten := by
        rw [clusterData, flattened, Disk.readSectors, flatMap_map, ← flatMap_def]
        exact flatMap_congr hslices
    _ = (blocks 512 buffer).flatten := by rw [blocks, hdiv]
    _ = buffer := flatten_blocks h

/-- Clusters do not overlap. -/
theorem base_add_ne (h2 : 2 ≤ cluster) (h2' : 2 ≤ other) (hne : other ≠ cluster) {j : Nat}
    (hi : i < v.bpb.sectorsPerCluster) (hj : j < v.bpb.sectorsPerCluster) :
    v.base other + i ≠ v.base cluster + j := by
  intro heq
  have hsame : (other - 2) * v.bpb.sectorsPerCluster + i =
      (cluster - 2) * v.bpb.sectorsPerCluster + j := by
    simp only [base] at heq
    omega
  have hdiv := congrArg (· / v.bpb.sectorsPerCluster) hsame
  have hpos : 0 < v.bpb.sectorsPerCluster := Nat.lt_of_le_of_lt (Nat.zero_le i) hi
  simp only [Nat.mul_comm _ v.bpb.sectorsPerCluster, Nat.mul_add_div hpos, Nat.div_eq_of_lt hi,
    Nat.div_eq_of_lt hj] at hdiv
  omega

theorem clusterData_setCluster_of_ne (h2 : 2 ≤ cluster) (h2' : 2 ≤ other) (hne : other ≠ cluster) :
    (v.setCluster cluster buffer).clusterData other = v.clusterData other := by
  rw [clusterData, clusterData, Disk.readSectors, Disk.readSectors, setCluster_base, setCluster_bpb]
  congr 1
  apply map_congr_left
  intro i hi
  rw [setCluster_disk_apply, if_neg]
  rintro ⟨hle, hmem⟩
  have hj : v.base other + i - v.base cluster < v.bpb.sectorsPerCluster := mem_range.mp hmem
  exact base_add_ne h2 h2' hne (mem_range.mp hi) hj (by omega)

/-! ## The operations of the code -/

section

variable (hg : Geometry v) (hc : v.OnVolume cluster)

include hg

theorem clusterSize_eq : v.clusterSize = some v.clusterBytes := by
  rw [clusterSize, hg.sector, checked, if_pos hg.small, clusterBytes]

theorem clusterBytes_pos : 0 < v.clusterBytes := Nat.mul_pos hg.pos (by decide)

include hc

theorem convertClusterNumberToSectorNumber_eq :
    v.convertClusterNumberToSectorNumber cluster =
      some ((cluster - 2) * v.bpb.sectorsPerCluster +
        (v.bpb.reservedSectorCount + v.bpb.numberOfFats * v.bpb.sectorsPerFat32)) := by
  have hpos := hg.pos
  have hend := hc.2
  rw [base] at hend
  have hroot : v.rootDirSectors = some 0 := by
    rw [rootDirSectors, hg.sector]
    rfl
  have hfirst : v.firstDataSector =
      some (v.bpb.reservedSectorCount + v.bpb.numberOfFats * v.bpb.sectorsPerFat32) := by
    rw [firstDataSector, hroot]
    exact if_pos (by omega)
  rw [convertClusterNumberToSectorNumber, if_neg (Nat.not_lt.mpr hc.1), hfirst]
  exact if_pos (by omega)

theorem sectorOf_eq (hi : i < v.bpb.sectorsPerCluster) :
    v.sectorOf cluster i = some (v.base cluster + i) := by
  have hend := hc.2
  rw [sectorOf, convertClusterNumberToSectorNumber_eq hg hc]
  exact if_pos (by rw [base] at hend; omega)

theorem readClusterTo_eq (hlen : buffer.length = v.clusterBytes) :
    v.readClusterTo cluster buffer = some (v.clusterData cluster) := by
  have hsmall := hg.small
  have hmod : buffer.length % 2 ^ 16 = v.clusterBytes := by
    rw [hlen]
    exact Nat.mod_eq_of_lt hsmall
  have hfits : ¬(buffer.length % 512 ≠ 0 ∨ buffer.length / 512 < v.bpb.sectorsPerCluster) := by
    rw [hlen, clusterBytes]
    omega
  have hsectors : (range v.bpb.sectorsPerCluster).mapM (v.sectorOf cluster) =
      some ((range v.bpb.sectorsPerCluster).map fun i => v.base cluster + i) :=
    mapM_eq_map fun i hi => sectorOf_eq hg hc (mem_range.mp hi)
  rw [readClusterTo, clusterSize_eq hg, hmod, if_neg (by simp), if_neg hfits, hsectors]
  have hrest : buffer.drop (v.bpb.sectorsPerCluster * 512) = [] :=
    drop_eq_nil_of_le (Nat.le_of_eq hlen)
  simp only [some_bind, hrest, append_nil, map_map]
  rfl

theorem readCluster_eq :
    v.readCluster cluster = some (v.disk.readSectors (v.base cluster) v.bpb.sectorsPerCluster) := by
  have hsmall := hg.small
  have hpos := hg.pos
  have hend := hc.2
  have hfew : ¬65534 ≤ v.bpb.sectorsPerCluster * 512 := by omega
  have hbytes : checked 32 (v.bpb.sectorsPerCluster * 512) = some (v.bpb.sectorsPerCluster * 512) :=
    if_pos (by omega)
  have hstart : checked 32 (v.base cluster) = some (v.base cluster) := if_pos (by omega)
  rw [base] at hstart
  rw [readCluster, convertClusterNumberToSectorNumber_eq hg hc]
  simp only [some_bind, readSectors, hbytes, if_neg hfew, hstart]
  rfl

theorem writeSectors_eq (hlen : buffer.length = v.clusterBytes) (is : List Nat)
    (his : ∀ i ∈ is, i < v.bpb.sectorsPerCluster) (d : Disk) :
    writeSectors { v with disk := d } cluster buffer is =
      some { v with
        disk := is.foldl
          (fun d i => Function.update d (v.base cluster + i) (Sector.slice buffer i)) d } := by
  induction is generalizing d with
  | nil => rfl
  | cons i is ih =>
    have hi : i < v.bpb.sectorsPerCluster := his i mem_cons_self
    have hsector : sectorOf { v with disk := d } cluster i = some (v.base cluster + i) :=
      sectorOf_eq (v := { v with disk := d }) ⟨hg.sector, hg.pos, hg.small⟩ hc hi
    have hslice : (buffer.drop (i * 512)).take 512 = (Sector.slice buffer i).1 := by
      rw [Sector.slice_val hlen hi, Nat.mul_comm]
    have hwrite : d.writeSector (v.base cluster + i) ((buffer.drop (i * 512)).take 512) =
        some (Function.update d (v.base cluster + i) (Sector.slice buffer i)) := by
      rw [Disk.writeSector, hslice, dif_pos (Sector.slice buffer i).2]
    rw [writeSectors, hsector]
    simp only [some_bind, hg.sector, hwrite]
    rw [ih (fun j hj => his j (mem_cons_of_mem i hj)), foldl_cons]

theorem writeCluster_eq (hlen : buffer.length = v.clusterBytes) :
    v.writeCluster cluster buffer = some (v.setCluster cluster buffer) := by
  have hmod : buffer.length % 2 ^ 16 = v.clusterBytes := by
    rw [hlen]
    exact Nat.mod_eq_of_lt hg.small
  rw [writeCluster, clusterSize_eq hg, hmod, if_neg (by simp)]
  exact writeSectors_eq hg hc hlen _ (fun i hi => mem_range.mp hi) v.disk

end

end Fat
end Moose.Fat32
