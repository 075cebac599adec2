import Moose.Fat32.Clusters

/-!
# Reading a file

A file is the concatenation of the clusters of its chain. `read` copies the part it is asked for,
whatever clusters the part starts and ends in. The count of clusters to skip goes through a `f32`,
which is exact up to 24 bits.
-/

set_option autoImplicit false

namespace Moose.Fat32

open List Lib

/-! ## Copies -/

theorem roundTo_of_lt {p n : Nat} (h : n < 2 ^ p) : roundTo p n = n := by
  by_cases h0 : n = 0
  · simp [roundTo, h0]
  have hlog : n.log2 < p := (Nat.log2_lt h0).mpr h
  have hunit : n.log2 + 1 - p = 0 := by omega
  simp [roundTo, hunit, Nat.mod_one]

section

variable {bytes piece xs ys : List UInt8} {i n m : Nat}

theorem length_splice (h : i + piece.length ≤ bytes.length) :
    (splice bytes i piece).length = bytes.length := by
  simp only [splice, length_append, length_take, length_drop]
  omega

theorem take_splice (h : i ≤ bytes.length) :
    (splice bytes i piece).take (i + piece.length) = bytes.take i ++ piece := by
  apply take_append_of_length
  rw [length_append, length_take, Nat.min_eq_left h]

/-- What is taken of two lists comes from the first as far as it goes. -/
theorem take_append_min (h : xs.length = m) (n : Nat) :
    (xs ++ ys).take n = xs.take (min n m) ++ ys.take (n - min n m) := by
  rw [take_append, ← h, ← take_eq_take_min]
  congr 2
  omega

end

/-! ## Files as bytes -/

/-- The chain of a file or directory, with all clusters on the volume. -/
structure Fat.HasChain (v : Fat) (first : Nat) (clusters : List Nat) : Prop where
  chain : Chain v.fileAllocationTable first clusters
  onVolume : ∀ c ∈ clusters, v.OnVolume c

/-- The bytes of clusters, one after the other. -/
def Fat.content (v : Fat) (clusters : List Nat) : List UInt8 := clusters.flatMap v.clusterData

@[simp] theorem Fat.content_nil (v : Fat) : v.content [] = [] := rfl

@[simp] theorem Fat.content_cons (v : Fat) (c : Nat) (cs : List Nat) :
    v.content (c :: cs) = v.clusterData c ++ v.content cs := rfl

theorem Fat.content_drop (v : Fat) (clusters : List Nat) (i : Nat) :
    v.content (clusters.drop i) = (v.content clusters).drop (i * v.clusterBytes) :=
  (drop_flatMap_pieces (fun _ _ => length_clusterData) i).symm

theorem Fat.HasChain.getClustersForFile_eq {v : Fat} {first : Nat} {clusters : List Nat}
    (h : v.HasChain first clusters) : v.getClustersForFile first = some clusters :=
  getClustersForFile_eq_some_iff.mpr h.chain

theorem Fat.HasChain.suffix {v : Fat} {first c : Nat} {cs cs' : List Nat}
    (h : v.HasChain first (cs ++ c :: cs')) : v.HasChain c (c :: cs') :=
  ⟨⟨h.chain.linked.suffix, rfl⟩, fun d hd => h.onVolume d (mem_append_right cs hd)⟩

namespace FatFile

variable {v : Fat} {clusters : List Nat}

theorem divisor_eq (hg : Geometry v) : divisor v = some v.clusterBytes := by
  rw [divisor, Fat.clusterSize_eq hg]
  exact if_neg (Nat.ne_of_gt (Fat.clusterBytes_pos hg))

/-- The loop fills the buffer from the reading offset on. Each round takes what it can of the
current cluster, and only the first one starts inside a cluster. -/
theorem readLoop_eq (hg : Geometry v) (hvol : ∀ c ∈ clusters, v.OnVolume c)
    {offsetWithinCluster toRead readingOffset : Nat} {temp buffer : List UInt8}
    (hoffset : offsetWithinCluster < v.clusterBytes)
    (hfits : toRead + offsetWithinCluster ≤ clusters.length * v.clusterBytes)
    (htemp : temp.length = v.clusterBytes) (hbuffer : readingOffset + toRead = buffer.length) :
    readLoop v v.clusterBytes clusters offsetWithinCluster toRead temp readingOffset buffer =
      some (0, buffer.take readingOffset ++
        ((v.content clusters).drop offsetWithinCluster).take toRead) := by
  induction clusters generalizing offsetWithinCluster toRead readingOffset temp buffer with
  | nil =>
    have h0 : toRead = 0 := by simp at hfits; omega
    subst h0
    rw [readLoop, take_zero, append_nil, take_of_length_le (by omega)]
  | cons c cs ih =>
    rw [readLoop]
    by_cases h0 : toRead = 0
    · subst h0
      rw [if_pos rfl, take_zero, append_nil, take_of_length_le (by omega)]
    rw [if_neg h0]
    obtain ⟨hc, hcs⟩ := forall_mem_cons.mp hvol
    have hdata : (v.clusterData c).length = v.clusterBytes := Fat.length_clusterData
    have hrest : toRead - min toRead (v.clusterBytes - offsetWithinCluster) ≤
        cs.length * v.clusterBytes := by
      rw [length_cons, Nat.add_mul] at hfits
      omega
    -- what this round takes, and the rest of the loop
    have hsplit : ((v.content (c :: cs)).drop offsetWithinCluster).take toRead =
        ((v.clusterData c).drop offsetWithinCluster).take
            (min toRead (v.clusterBytes - offsetWithinCluster)) ++
          (v.content cs).take (toRead - min toRead (v.clusterBytes - offsetWithinCluster)) := by
      rw [Fat.content_cons, drop_append_of_le_length (by omega)]
      exact take_append_min (by rw [length_drop, hdata]) toRead
    have hround : ∀ {piece temp' : List UInt8} {copySize : Nat},
        copySize = min toRead (v.clusterBytes - offsetWithinCluster) →
        piece = ((v.clusterData c).drop offsetWithinCluster).take copySize →
        temp'.length = v.clusterBytes →
        readLoop v v.clusterBytes cs 0 (toRead - copySize) temp' (readingOffset + copySize)
            (splice buffer readingOffset piece) =
          some (0, buffer.take readingOffset ++
            ((v.content (c :: cs)).drop offsetWithinCluster).take toRead) := by
      intro piece temp' copySize hsize hpiece htemp'
      have hlen : piece.length = copySize := by
        rw [hpiece, length_take, length_drop, hdata, hsize]
        omega
      have hin : readingOffset + piece.length ≤ buffer.length := by omega
      rw [ih hcs (Fat.clusterBytes_pos hg) (by rw [hsize]; exact hrest) htemp'
        (by rw [length_splice hin]; omega), ← hlen, take_splice (by omega), hsplit, ← hsize, hlen,
        ← hpiece, drop_zero, append_assoc]
    by_cases hwhole : offsetWithinCluster = 0 ∧
        v.clusterBytes ≤ min toRead (v.clusterBytes - offsetWithinCluster)
    · obtain ⟨rfl, hle⟩ := hwhole
      have hslice : ((buffer.drop readingOffset).take v.clusterBytes).length = v.clusterBytes := by
        rw [length_take, length_drop]
        omega
      rw [if_pos ⟨rfl, hle⟩, Fat.readClusterTo_eq hg hc hslice]
      refine hround (by omega) ?_ htemp
      rw [drop_zero, take_of_length_le (Nat.le_of_eq hdata)]
    · rw [if_neg hwhole, Fat.readClusterTo_eq hg hc htemp]
      exact hround rfl rfl hdata

/-- **Reading returns the part of the file it is asked for.** The chain has less than `2 ^ 24`
clusters, on sectors of 512 bytes and clusters of up to 32 KiB, and the file fits the chain. The
volume is only borrowed. -/
theorem read_eq [Chrono] (v : Fat) (f : FatFile) (clusters : List Nat) (offset : Nat)
    (buffer : List UInt8)
    (hsector : v.bpb.bytesPerSector = 512) (hpos : 0 < v.bpb.sectorsPerCluster)
    (hsmall : v.clusterBytes ≤ 32 * 1024) (hchain : v.HasChain f.startingCluster clusters)
    (hshort : clusters.length < 2 ^ 24) (hfits : f.fileSize ≤ clusters.length * v.clusterBytes)
    (hbuffer : buffer ≠ []) (hin : offset + buffer.length ≤ f.fileSize) :
    read v f offset buffer =
      some (.ok (((v.content clusters).drop offset).take buffer.length)) := by
  have hg : Geometry v := ⟨hsector, hpos, Nat.lt_of_le_of_lt hsmall (by decide)⟩
  have hbytes : 0 < v.clusterBytes := Fat.clusterBytes_pos hg
  have hlen : 0 < buffer.length := length_pos_iff.mpr hbuffer
  have hskip : offset / v.clusterBytes < clusters.length :=
    Nat.div_lt_of_lt_mul (by rw [Nat.mul_comm]; omega)
  have hstop : checked 64 (offset + buffer.length) = some (offset + buffer.length) := by
    have : clusters.length * v.clusterBytes < 2 ^ 24 * (32 * 1024) := by
      exact Nat.lt_of_lt_of_le (Nat.mul_lt_mul_of_pos_right hshort hbytes)
        (Nat.mul_le_mul_left _ hsmall)
    exact if_pos (by omega)
  have hsplit : offset / v.clusterBytes * v.clusterBytes + offset % v.clusterBytes = offset :=
    Nat.div_add_mod' offset v.clusterBytes
  have hrest : buffer.length + offset % v.clusterBytes ≤
      (clusters.drop (offset / v.clusterBytes)).length * v.clusterBytes := by
    rw [length_drop, Nat.sub_mul]
    omega
  have hloop := readLoop_eq hg
    (fun c hc => hchain.onVolume c (mem_of_mem_drop hc)) (Nat.mod_lt offset hbytes) hrest
    (length_replicate (a := (0 : UInt8))) (Nat.zero_add buffer.length)
  rw [read, if_neg (by simpa using hbuffer), hstop]
  simp only [some_bind, if_neg (Nat.not_lt.mpr hin), divisor_eq hg,
    hchain.getClustersForFile_eq, roundTo_of_lt (Nat.lt_trans hskip hshort), hloop]
  rw [if_pos trivial, take_zero, nil_append, Fat.content_drop, drop_drop, hsplit]

/-- A volume whose clusters are filled with their numbers. -/
def striped (table : List Nat) : Fat :=
  { Fat.ofTable table with disk := fun s =>
    ⟨replicate 512 (UInt8.ofNat (s + 2)), length_replicate⟩ }

/-- Four bytes around the border of two clusters that are not neighbours. -/
theorem read_eq_border :
    read (striped [fatLastCluster, fatLastCluster, 4, 0, fatEndOfFileMark])
        ⟨2, 600, .default, 2⟩ 510 [0, 0, 0, 0] = some (.ok [2, 2, 4, 4]) :=
  (read_eq (striped [fatLastCluster, fatLastCluster, 4, 0, fatEndOfFileMark]) _ [2, 4] 510
    [0, 0, 0, 0] rfl (by decide) (by decide) ⟨⟨⟨rfl, rfl⟩, rfl⟩, by decide⟩ (by decide) (by decide)
    (by decide) (by decide)).trans (by decide +kernel)

end FatFile
end Moose.Fat32
