import Mathlib.Data.UInt
import Moose.Lib.Links

/-!
# A FAT32 volume

The part of `fs/src/fat32/fat.rs` below directories: sectors, clusters and the file allocation
table, which is kept in memory.

The block device takes and returns whole sectors, and returns what was last written; it does not
fail. A panic is `none`: an index out of range, a failed assertion, an overflow of a sum in a fixed
width. A loop that never ends is `none` too.
-/

set_option autoImplicit false

namespace Moose.Fat32

open Lib.Links (follow)

inductive FileSystemError where
  | notFound | notAFile | notADirectory | notEnoughSpace | alreadyExists | nameTooLong
  | invalidArgument | readOutOfBounds | badData
deriving DecidableEq

/-- A result in an unsigned type of `w` bits. -/
def checked (w n : Nat) : Option Nat := if n < 2 ^ w then some n else none

/-! ## Sectors -/

/-- `FAT_SECTOR_SIZE` bytes. -/
abbrev Sector := { bytes : List UInt8 // bytes.length = 512 }

def Sector.zero : Sector := ⟨List.replicate 512 0, List.length_replicate⟩

/-- The block device: what each sector holds. -/
abbrev Disk := Nat → Sector

namespace Disk

def readSectors (d : Disk) (start n : Nat) : List Sector :=
  (List.range n).map fun i => d (start + i)

def writeSector (d : Disk) (sector : Nat) (buffer : List UInt8) : Option Disk :=
  if h : buffer.length = 512 then some (Function.update d sector ⟨buffer, h⟩) else none

end Disk

/-- The bytes of sectors one after the other (`as_flattened`). -/
def flattened (sectors : List Sector) : List UInt8 := sectors.flatMap (·.1)

/-- The fields that are read. `root_entries_count` is always 0. -/
structure BiosParameterBlock where
  bytesPerSector : Nat
  sectorsPerCluster : Nat
  reservedSectorCount : Nat
  numberOfFats : Nat
  sectorsPerFat32 : Nat
  rootDirectoryFirstCluster : Nat

structure Fat where
  disk : Disk
  partitionFirstSectorLba : Nat
  bpb : BiosParameterBlock
  fileAllocationTable : List Nat

def fatFreeSector : Nat := 0
def fatEndOfFileMark : Nat := 0xFFFFFFFF
/-- Entries from here on mark the last cluster of a chain. -/
def fatLastCluster : Nat := 0x0FFFFFF8

namespace Fat

/-! ## Where the clusters are -/

/-- `bytes_per_sector * sectors_per_cluster` in 16 bits. -/
def clusterSize (v : Fat) : Option Nat :=
  checked 16 (v.bpb.sectorsPerCluster * v.bpb.bytesPerSector)

def rootDirSectors (v : Fat) : Option Nat :=
  if v.bpb.bytesPerSector = 0 then none
  else some ((v.bpb.bytesPerSector - 1) / v.bpb.bytesPerSector)

def firstDataSector (v : Fat) : Option Nat := do
  let root ← v.rootDirSectors
  checked 32 (v.bpb.reservedSectorCount + v.bpb.numberOfFats * v.bpb.sectorsPerFat32 + root)

/-- Data starts at cluster 2. -/
def convertClusterNumberToSectorNumber (v : Fat) (cluster : Nat) : Option Nat :=
  if cluster < 2 then none
  else do
    let first ← v.firstDataSector
    checked 32 ((cluster - 2) * v.bpb.sectorsPerCluster + first)

def sectorOf (v : Fat) (cluster i : Nat) : Option Nat := do
  let sector ← v.convertClusterNumberToSectorNumber cluster
  checked 32 (v.partitionFirstSectorLba + sector + i)

/-! ## Reading and writing -/

def readSectors (v : Fat) (first n : Nat) : Option (List Sector) := do
  let bytes ← checked 32 (n * 512)
  if 65534 ≤ bytes then
    -- one by one, without the last two
    let _ ← checked 32 (v.partitionFirstSectorLba + first + (n - 3))
    some (v.disk.readSectors (v.partitionFirstSectorLba + first) (n - 2) ++ [.zero, .zero])
  else
    let start ← checked 32 (v.partitionFirstSectorLba + first)
    some (v.disk.readSectors start n)

def readCluster (v : Fat) (cluster : Nat) : Option (List Sector) := do
  let sector ← v.convertClusterNumberToSectorNumber cluster
  v.readSectors sector v.bpb.sectorsPerCluster

/-- The buffer afterwards. It is filled in pieces of 512 bytes, whatever `bytes_per_sector` is. -/
def readClusterTo (v : Fat) (cluster : Nat) (buffer : List UInt8) : Option (List UInt8) :=
  if v.clusterSize ≠ some (buffer.length % 2 ^ 16) then none
  else if buffer.length % 512 ≠ 0 ∨ buffer.length / 512 < v.bpb.sectorsPerCluster then none
  else do
    let sectors ← (List.range v.bpb.sectorsPerCluster).mapM (v.sectorOf cluster)
    some (flattened (sectors.map v.disk) ++ buffer.drop (v.bpb.sectorsPerCluster * 512))

def writeSectors (v : Fat) (cluster : Nat) (buffer : List UInt8) : List Nat → Option Fat
  | [] => some v
  | i :: is => do
    let sector ← v.sectorOf cluster i
    let start := i * v.bpb.bytesPerSector
    let disk ← v.disk.writeSector sector ((buffer.drop start).take v.bpb.bytesPerSector)
    writeSectors { v with disk := disk } cluster buffer is

def writeCluster (v : Fat) (cluster : Nat) (buffer : List UInt8) : Option Fat :=
  if v.clusterSize ≠ some (buffer.length % 2 ^ 16) then none
  else v.writeSectors cluster buffer (List.range v.bpb.sectorsPerCluster)

/-! ## The file allocation table -/

/-- Where a cluster leads: nowhere if it is not in the table. -/
def link (table : List Nat) (cluster : Nat) : Option (Option Nat) :=
  table[cluster]?.map fun next => if fatLastCluster ≤ next then none else some next

/-- The loop of `get_clusters_for_file`, with a bound on its rounds. -/
def walk (table : List Nat) (fuel cluster : Nat) : Option (List Nat) :=
  follow (link table) fuel cluster

/-- A walk of more rounds than the table has entries never ends. -/
def getClustersForFile (v : Fat) (cluster : Nat) : Option (List Nat) :=
  walk v.fileAllocationTable v.fileAllocationTable.length cluster

def freeClusters (table : List Nat) : List Nat :=
  (List.range table.length).filter fun cluster => table[cluster]? = some fatFreeSector

/-- One more than it was asked for. -/
def findFreeClusters (v : Fat) (count : Nat) : Option (List Nat) := do
  let limit ← checked 64 (count + 1)
  some ((freeClusters v.fileAllocationTable).take limit)

/-- The loop of `allocate_and_link_clusters`, which looks at the cluster after the current one. -/
def linkClusters (table : List Nat) : List Nat → List Nat
  | [] => table
  | [cluster] => table.set cluster fatEndOfFileMark
  | cluster :: next :: rest => linkClusters (table.set cluster (next % 2 ^ 32)) (next :: rest)

def allocateAndLinkClusters (v : Fat) (count : Nat) :
    Option (Except FileSystemError (Fat × List Nat)) := do
  let free ← v.findFreeClusters count
  if free.length < count then some (.error .notEnoughSpace)
  else some (.ok ({ v with fileAllocationTable := linkClusters v.fileAllocationTable free }, free))

end Fat
end Moose.Fat32
