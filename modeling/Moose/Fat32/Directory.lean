import Moose.Fat32.Entry

/-!
# Directories

A directory is a chain of clusters full of slots. The part of `fat.rs` that lists, searches and
changes directories, and `directory.rs`.

Where the source stores the listing of a cluster after each slot it removes, the model stores it
once when it is done with the cluster. Whether storing panics does not depend on what the slots
hold.
-/

set_option autoImplicit false

namespace Moose.Fat32

open Lib (utf8)

variable [Chrono] [Ucs2]

def slotsOf (bytes : List UInt8) : List RawFatFileEntry :=
  (List.range (bytes.length / 32)).map fun i => .decode ((bytes.drop (32 * i)).take 32)

structure FatDirectory where
  contentCluster : Nat
  fileEntryCluster : Nat

namespace Fat

/-! ## Listing -/

def getRawFileListingFromCluster (v : Fat) (cluster : Nat) : Option (List RawFatFileEntry) := do
  let sectors ← v.readCluster cluster
  if sectors.isEmpty then none else some (slotsOf (flattened sectors))

/-- The loop over the slots, with the long-name slots since the last entry and the name they spell.
The flag `processing_lfn` says that there are some. -/
def listSlots : List RawFatFileEntry → List RawFatFileEntry → List Char → Option (List FatFileEntry)
  | [], _, _ => some []
  | slot :: rest, lfn, name =>
    if isLongNameEntry slot.attr then do
      let piece ← decodeUcs2 slot.units
      listSlots rest (lfn ++ [slot]) (piece ++ name)
    else if slot.name = RawFatFileEntry.default.name then some []
    else if slot.firstByte = fatFreeEntry then listSlots rest lfn name
    else do
      let entry ← FatFileEntry.ofRaw slot
      let entries ← listSlots rest [] []
      some ((if lfn.isEmpty then entry else { entry with name := name, lfn := lfn }) :: entries)

def getFileListingFromCluster (v : Fat) (cluster : Nat) : Option (List FatFileEntry) := do
  let slots ← v.getRawFileListingFromCluster cluster
  listSlots slots [] []

/-- Sixteen slots at most, which is one sector. -/
def saveListingToTheDisk (v : Fat) (cluster : Nat) (listing : List RawFatFileEntry) :
    Option Fat := do
  let _ ← checked 16 (v.bpb.bytesPerSector * v.bpb.sectorsPerCluster * 8)
  if 16 < listing.length then none
  else v.writeCluster cluster (listing.flatMap RawFatFileEntry.encode)

/-! ## Removing -/

/-- The slots of a cluster after the inner loop, whether the long-name slots of the entry are being
removed, and whether anything was changed. -/
structure Removal where
  slots : List RawFatFileEntry
  lfnHandling : Bool
  changed : Bool

/-- The inner loop of `remove_file_entry`. The slots come last first. -/
def removeFromSlots (name : ShortName) (isLfn : Bool) :
    Bool → List RawFatFileEntry → Option Removal
  | lfnHandling, [] => some ⟨[], lfnHandling, false⟩
  | lfnHandling, slot :: rest =>
    if slot.name = name then
      if isLfn then do
        let r ← removeFromSlots name isLfn true rest
        some ⟨.removed :: r.slots, r.lfnHandling, true⟩
      else some ⟨.removed :: rest, lfnHandling, true⟩
    else if lfnHandling then do
      let attributes ← fromBits slot.attr
      if isLongNameEntry attributes then
        let r ← removeFromSlots name isLfn true rest
        some ⟨.removed :: r.slots, r.lfnHandling, true⟩
      else some ⟨slot :: rest, true, false⟩
    else do
      let r ← removeFromSlots name isLfn false rest
      some ⟨slot :: r.slots, r.lfnHandling, r.changed⟩

/-- The outer loop, over the clusters last first. -/
def removeFromClusters (name : ShortName) (isLfn : Bool) : Bool → List Nat → Fat → Option Fat
  | _, [], v => some v
  | lfnHandling, cluster :: clusters, v => do
    let listing ← v.getRawFileListingFromCluster cluster
    let r ← removeFromSlots name isLfn lfnHandling listing.reverse
    let v ← if r.changed then v.saveListingToTheDisk cluster r.slots.reverse else some v
    removeFromClusters name isLfn r.lfnHandling clusters v

def removeFileEntry (v : Fat) (e : FatFileEntry) (directoryCluster : Nat) : Option Fat := do
  let clusters ← v.getClustersForFile directoryCluster
  removeFromClusters e.sfn.name (!e.lfn.isEmpty) false clusters.reverse v

/-! ## Room for an entry -/

/-- Where the search for deleted slots stands after a cluster: at the end of the directory, with a
run of them that starts at an index, or with the length and the start of the current run. -/
inductive Search where
  | ended
  | found (start : Nat)
  | more (count : Nat) (start : Option Nat)

def findInSlots (n : Nat) : Nat → List RawFatFileEntry → Nat → Option Nat → Search
  | _, [], count, start => .more count start
  | idx, slot :: rest, count, start =>
    if slot.firstByte = 0 then .ended
    else if slot.firstByte = fatFreeEntry then
      if count + 1 = n then .found (start.getD idx)
      else findInSlots n (idx + 1) rest (count + 1) (some (start.getD idx))
    else findInSlots n (idx + 1) rest 0 none

def findInClusters (v : Fat) (n : Nat) : List Nat → Nat → Option Nat → Option (Option (Nat × Nat))
  | [], _, _ => some none
  | cluster :: clusters, count, start => do
    let listing ← v.getRawFileListingFromCluster cluster
    match findInSlots n 0 listing count start with
    | .ended => some none
    | .found start => some (some (cluster, start))
    | .more count start => v.findInClusters n clusters count start

/-- The cluster in which the run is complete, and the index at which it starts, maybe in an earlier
cluster. -/
def findContiguousFileEntriesInDirectory (v : Fat) (directoryCluster n : Nat) :
    Option (Option (Nat × Nat)) :=
  if 20 ≤ n then none
  else do
    let clusters ← v.getClustersForFile directoryCluster
    v.findInClusters n clusters 0 none

/-- A run of slots that are deleted or past the end: either its start, or the current run. -/
def allocateInSlots (n cluster : Nat) :
    Nat → List RawFatFileEntry → Option (Nat × Nat) → Nat → (Nat × Nat) ⊕ (Option (Nat × Nat) × Nat)
  | _, [], start, size => .inr (start, size)
  | idx, slot :: rest, start, size =>
    if slot.firstByte = 0 ∨ slot.firstByte = fatFreeEntry then
      if size + 1 = n then .inl (start.getD (cluster, idx))
      else allocateInSlots n cluster (idx + 1) rest (some (start.getD (cluster, idx))) (size + 1)
    else allocateInSlots n cluster (idx + 1) rest none 0

def allocateInClusters (v : Fat) (n : Nat) : List Nat → Option (Nat × Nat) → Nat →
    Option ((Nat × Nat) ⊕ (Option (Nat × Nat) × Nat))
  | [], start, size => some (.inr (start, size))
  | cluster :: clusters, start, size => do
    let listing ← v.getRawFileListingFromCluster cluster
    match allocateInSlots n cluster 0 listing start size with
    | .inl found => some (.inl found)
    | .inr (start, size) => v.allocateInClusters n clusters start size

/-- Puts a cluster at the end of the directory if there is no room. What the cluster holds stays. -/
def allocateFileEntriesInDirectory (v : Fat) (directoryCluster n : Nat) :
    Option (Except FileSystemError (Fat × Nat × Nat)) := do
  let clusters ← v.getClustersForFile directoryCluster
  match ← v.allocateInClusters n clusters none 0 with
  | .inl found => some (.ok (v, found))
  | .inr (start, size) =>
    if size = n then some (.ok (v, start.getD (0, 0)))
    else
      let last ← clusters.getLast?
      match ← v.allocateAndLinkClusters 1 with
      | .error e => some (.error e)
      | .ok (v, new) =>
        let first ← new.head?
        let v := { v with fileAllocationTable := v.fileAllocationTable.set last (first % 2 ^ 32) }
        some (.ok (v, start.getD (first, 0)))

/-! ## Writing -/

/-- Writes over slots from the first on: the slots, the long-name slots that are left, and whether
the short-name slot, which comes last, is written. -/
def writeInSlots (sfn : RawFatFileEntry) : List RawFatFileEntry → List RawFatFileEntry →
    List RawFatFileEntry × List RawFatFileEntry × Bool
  | lfn, [] => ([], lfn, false)
  | [], _ :: rest => (sfn :: rest, [], true)
  | slot :: lfn, _ :: rest =>
    let r := writeInSlots sfn lfn rest
    (slot :: r.1, r.2.1, r.2.2)

/-- Goes through all clusters, at the same index or, after the short-name slot, at the next one. -/
def writeInClusters (sfn : RawFatFileEntry) : List Nat → List RawFatFileEntry → Nat → Fat →
    Option (Fat × List RawFatFileEntry)
  | [], lfn, _, v => some (v, lfn)
  | cluster :: clusters, lfn, index, v => do
    let listing ← v.getRawFileListingFromCluster cluster
    let r := writeInSlots sfn lfn (listing.drop index)
    let v ← v.saveListingToTheDisk cluster (listing.take index ++ r.1)
    writeInClusters sfn clusters r.2.1 (if r.2.2 then index + 1 else index) v

def writeFileEntry (v : Fat) (e : FatFileEntry) (cluster index : Nat) : Option Fat := do
  let clusters ← v.getClustersForFile cluster
  let (v, left) ← writeInClusters e.sfn clusters e.lfn index v
  if left.isEmpty then some v else none

/-- The volume, and the cluster of the entry. -/
def serializeFileEntry (v : Fat) (old : Option FatFileEntry) (new : FatFileEntry)
    (directoryCluster : Nat) : Option (Fat × Nat) := do
  let v ← match old with
    | some old => v.removeFileEntry old directoryCluster
    | none => some v
  if 20 ≤ new.slots then none
  else
    let (v, cluster, index) ←
      match ← v.findContiguousFileEntriesInDirectory directoryCluster new.slots with
      | some (cluster, index) => some (v, cluster, index)
      | none =>
        match ← v.allocateFileEntriesInDirectory directoryCluster new.slots with
        | .ok found => some found
        | .error _ => none
    let v ← v.writeFileEntry new cluster index
    some (v, cluster)

/-! ## Paths -/

/-- The search for the last segment, which stops at the first match. -/
def findEntry (v : Fat) (segment : List Char) : List Nat → Option (Option (FatFileEntry × Nat))
  | [] => some none
  | cluster :: clusters => do
    let listing ← v.getFileListingFromCluster cluster
    match listing.find? fun e => e.name = segment with
    | some e => some (some (e, cluster))
    | none => v.findEntry segment clusters

/-- The search for another segment. A match ends the search in its cluster, but not in the clusters
after it, and it need not be a directory. Without a match the cluster stays as it was. -/
def enter (v : Fat) (segment : List Char) : List Nat → Nat → Option Nat
  | [], reached => some reached
  | cluster :: clusters, reached => do
    let listing ← v.getFileListingFromCluster cluster
    match listing.find? fun e => e.name = segment with
    | some e => v.enter segment clusters e.sfn.firstCluster
    | none => v.enter segment clusters reached

def getBySegments (v : Fat) : Nat → List (List Char) →
    Option (Except FileSystemError (FatFileEntry × Nat))
  | _, [] => some (.error .notFound)
  | cluster, segment :: rest =>
    if segment = [] then v.getBySegments cluster rest
    else do
      let clusters ← v.getClustersForFile cluster
      if rest = [] then
        match ← v.findEntry segment clusters with
        | some found => some (.ok found)
        | none => some (.error .notFound)
      else
        let cluster ← v.enter segment clusters cluster
        v.getBySegments cluster rest

/-- The entry of the root directory is made up, with 16 bits of its cluster. -/
def rootEntry (v : Fat) : FatFileEntry :=
  { FatFileEntry.default with
    sfn := { RawFatFileEntry.default with
      firstClusterLow := .ofNat v.bpb.rootDirectoryFirstCluster } }.setAttr 0x10

def getByPath (v : Fat) (path : List Char) : Option (Except FileSystemError (FatFileEntry × Nat)) :=
  if path = [] then some (.ok (v.rootEntry, v.bpb.rootDirectoryFirstCluster))
  else v.getBySegments v.bpb.rootDirectoryFirstCluster (path.splitOn '/')

end Fat

/-! ## Operations on directories -/

/-- The entry that `create_entry` makes. -/
def FatFileEntry.create (name : List Char) (attributes : UInt8) (directory : Bool)
    (now : NaiveDateTime) : Option FatFileEntry := do
  let attr := fromAttributes attributes ||| if directory then 0x10 else 0
  let e ← FatFileEntry.default.setName name
  let e ← (e.setAttr attr).setCreationDateTime now
  let e ← e.setLastAccessDateTime now
  e.setLastWriteDateTime now

namespace FatDirectory

/-- The volume with the entry, and the cluster that the handle of the entry gets. -/
def createEntry (v : Fat) (d : FatDirectory) (name : List Char) (attributes : UInt8)
    (directory : Bool) (now : NaiveDateTime) :
    Option (Except FileSystemError (Fat × FatFileEntry × Nat)) :=
  if 255 < (utf8 name).length then some (.error .nameTooLong)
  else do
    let e ← FatFileEntry.create name attributes directory now
    let clusters ← v.getClustersForFile d.contentCluster
    let cluster ← clusters.head?
    let (v, _) ← v.serializeFileEntry none e cluster
    some (.ok (v, e, cluster))

def entries (v : Fat) (d : FatDirectory) : Option (List FatFileEntry) := do
  let clusters ← v.getClustersForFile d.contentCluster
  let listings ← clusters.mapM v.getFileListingFromCluster
  some listings.flatten

end FatDirectory
end Moose.Fat32
