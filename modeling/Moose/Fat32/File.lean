import Moose.Fat32.Directory

/-!
# Files

`fs/src/fat32/file.rs`. A handle of a file remembers the first cluster, the size, the directory
entry and the cluster the entry is in. An operation returns the volume and the handle after it.

The number of clusters in front of an offset is computed as a `f32`, the number of clusters to
allocate as a `f64`: both are rounded.
-/

set_option autoImplicit false

namespace Moose.Fat32

/-- The nearest number with `p` significant bits, and of two the even one. -/
def roundTo (p n : Nat) : Nat :=
  let unit := 2 ^ (n.log2 + 1 - p)
  let down := n / unit
  let rest := n % unit
  if 2 * rest < unit ∨ 2 * rest = unit ∧ down % 2 = 0 then down * unit else (down + 1) * unit

/-- The bytes with others written over them from an index on. -/
def splice (bytes : List UInt8) (i : Nat) (piece : List UInt8) : List UInt8 :=
  bytes.take i ++ piece ++ bytes.drop (i + piece.length)

variable [Chrono] [Ucs2]

structure FatFile where
  startingCluster : Nat
  fileSize : Nat
  fileEntry : FatFileEntry
  fileEntryCluster : Nat

/-- The handle starts at the first cluster of the directory, and its entry is looked for where the
entry of the directory is. -/
def FatDirectory.createFile (v : Fat) (d : FatDirectory) (name : List Char) (attributes : UInt8)
    (now : NaiveDateTime) : Option (Except FileSystemError (Fat × FatFile)) := do
  match ← createEntry v d name attributes false now with
  | .error e => some (.error e)
  | .ok (v, e, cluster) =>
    some (.ok (v,
      { startingCluster := cluster
        fileSize := 0
        fileEntry := e
        fileEntryCluster := d.fileEntryCluster }))

namespace FatFile

/-- The size of a cluster, by which the offsets are divided. -/
def divisor (v : Fat) : Option Nat := do
  let clusterSize ← v.clusterSize
  if clusterSize = 0 then none else some clusterSize

/-! ## Reading -/

/-- The loop of `read`. A whole cluster goes into the buffer, a part of one is cut out of the
temporary buffer. What is left to read, and the buffer. -/
def readLoop (v : Fat) (clusterSize : Nat) : List Nat → (offsetWithinCluster toRead : Nat) →
    (temp : List UInt8) → (readingOffset : Nat) → (buffer : List UInt8) → Option (Nat × List UInt8)
  | [], _, toRead, _, _, buffer => some (toRead, buffer)
  | cluster :: clusters, offsetWithinCluster, toRead, temp, readingOffset, buffer =>
    if toRead = 0 then some (0, buffer)
    else
      let copySize := min toRead (clusterSize - offsetWithinCluster)
      if offsetWithinCluster = 0 ∧ clusterSize ≤ copySize then do
        let piece ← v.readClusterTo cluster ((buffer.drop readingOffset).take clusterSize)
        readLoop v clusterSize clusters 0 (toRead - clusterSize) temp (readingOffset + clusterSize)
          (splice buffer readingOffset piece)
      else do
        let temp ← v.readClusterTo cluster temp
        readLoop v clusterSize clusters 0 (toRead - copySize) temp (readingOffset + copySize)
          (splice buffer readingOffset ((temp.drop offsetWithinCluster).take copySize))

def read (v : Fat) (f : FatFile) (offset : Nat) (buffer : List UInt8) :
    Option (Except FileSystemError (List UInt8)) :=
  if buffer.isEmpty then none
  else do
    let stop ← checked 64 (offset + buffer.length)
    if f.fileSize < stop then some (.error .readOutOfBounds)
    else
      let clusterSize ← divisor v
      let clusters ← v.getClustersForFile f.startingCluster
      let (left, buffer) ← readLoop v clusterSize
        (clusters.drop (roundTo 24 (offset / clusterSize)))
        (offset % clusterSize) buffer.length (List.replicate clusterSize 0) 0 buffer
      if left = 0 then some (.ok buffer) else none

/-! ## Writing -/

/-- The loop of `write` over the clusters the file has: the volume, what is left to write, and the
place in the buffer it starts at. -/
def writeLoop (clusterSize : Nat) (buffer : List UInt8) : List Nat →
    (offsetWithinCluster toWrite : Nat) → (temp : List UInt8) → (writingOffset : Nat) → Fat →
    Option (Fat × Nat × Nat)
  | [], _, toWrite, _, writingOffset, v => some (v, toWrite, writingOffset)
  | cluster :: clusters, offsetWithinCluster, toWrite, temp, writingOffset, v =>
    if toWrite = 0 then some (v, 0, writingOffset)
    else
      let copySize := min toWrite (clusterSize - offsetWithinCluster)
      if offsetWithinCluster = 0 ∧ clusterSize ≤ copySize then do
        let v ← v.writeCluster cluster ((buffer.drop writingOffset).take clusterSize)
        writeLoop clusterSize buffer clusters 0 (toWrite - clusterSize) temp
          (writingOffset + clusterSize) v
      else do
        let temp ← v.readClusterTo cluster temp
        let temp := splice temp offsetWithinCluster ((buffer.drop writingOffset).take copySize)
        let v ← v.writeCluster cluster temp
        writeLoop clusterSize buffer clusters 0 (toWrite - copySize) temp
          (writingOffset + copySize) v

/-- The loop over new clusters, each with one byte less than would fit. The temporary buffer is not
cleared in between. -/
def appendLoop (clusterSize : Nat) (buffer : List UInt8) : List Nat → (toWrite : Nat) →
    (temp : List UInt8) → (writingOffset : Nat) → Fat → Option Fat
  | [], _, _, _, v => some v
  | cluster :: clusters, toWrite, temp, writingOffset, v =>
    if min toWrite clusterSize = 0 then none
    else do
      let copySize := min toWrite clusterSize - 1
      let temp := splice temp 0 ((buffer.drop writingOffset).take copySize)
      let v ← v.writeCluster cluster temp
      appendLoop clusterSize buffer clusters (toWrite - copySize) temp (writingOffset + copySize) v

/-- Stores a larger size. The slot of the new entry still has the old size. -/
def grow (v : Fat) (f : FatFile) (stop : Nat) : Option (Fat × FatFile) :=
  if f.fileSize < stop % 2 ^ 32 then do
    let difference := (stop - f.fileSize) % 2 ^ 32
    let entrySize ← checked 32 (f.fileEntry.fileSize + difference)
    let size ← checked 32 (f.fileSize + difference)
    let new := { f.fileEntry with fileSize := entrySize }
    let (v, _) ← v.serializeFileEntry (some f.fileEntry) new f.fileEntryCluster
    some (v, { f with fileSize := size, fileEntry := new })
  else some (v, f)

/-- Writes what does not fit into new clusters. -/
def extend (v : Fat) (clusterSize last : Nat) (buffer : List UInt8) (toWrite writingOffset : Nat) :
    Option (Fat × Except FileSystemError Unit) := do
  match ← v.allocateAndLinkClusters (roundTo 53 (toWrite / clusterSize)) with
  | .error e => some (v, .error e)
  | .ok (v, new) =>
    let first ← new.head?
    let v := { v with fileAllocationTable := v.fileAllocationTable.set last (first % 2 ^ 32) }
    let v ← appendLoop clusterSize buffer new toWrite (List.replicate clusterSize 0) writingOffset v
    some (v, .ok ())

def write (v : Fat) (f : FatFile) (offset : Nat) (buffer : List UInt8) :
    Option (Fat × FatFile × Except FileSystemError Unit) :=
  if f.fileSize < offset then none
  else do
    let clusterSize ← divisor v
    let clusters ← v.getClustersForFile f.startingCluster
    let clusters := clusters.drop (roundTo 24 (offset / clusterSize))
    let last ← clusters.getLast?
    let (v, toWrite, writingOffset) ← writeLoop clusterSize buffer clusters (offset % clusterSize)
      buffer.length (List.replicate clusterSize 0) 0 v
    let stop ← checked 64 (offset + buffer.length)
    let (v, f) ← grow v f stop
    if toWrite = 0 then some (v, f, .ok ())
    else
      let (v, result) ← extend v clusterSize last buffer toWrite writingOffset
      some (v, f, result)

end FatFile
end Moose.Fat32
