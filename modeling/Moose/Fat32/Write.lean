import Moose.Fat32.Read

/-!
# Writing inside a file

To writes that end inside it a file is an array of bytes, whatever clusters they start and end in,
and nothing else on the volume changes. `Replaced` says what a call does to the volume: the clusters
of the chain hold other bytes, and the rest of it is as before. It composes over the rounds of the
loop (`append`) and over calls (`trans`), so a run of calls is one replacement.
-/

set_option autoImplicit false

namespace Moose.Fat32

open List Lib

section

variable {xs ys p q : List UInt8} {i : Nat}

theorem splice_nil : splice xs i [] = xs := by simp [splice]

theorem splice_all (h : p.length = xs.length) : splice xs 0 p = p := by simp [splice, h]

theorem splice_append_right : splice (xs ++ ys) (xs.length + i) p = xs ++ splice ys i p := by
  simp [splice, take_length_add_append, drop_length_add_append, Nat.add_assoc]

/-- A piece that crosses a border is put in on both sides of it. -/
theorem splice_append (hp : i + p.length ≤ xs.length) (hq : q = [] ∨ i + p.length = xs.length) :
    splice (xs ++ ys) i (p ++ q) = splice xs i p ++ splice ys 0 q := by
  have htake : (xs ++ ys).take i = xs.take i := take_append_of_le_length (by omega)
  rcases hq with rfl | hq
  · simp [splice, htake, drop_append_of_le_length hp]
  · simp [splice, htake, hq, ← Nat.add_assoc, drop_length_add_append]

end

/-! ## Volumes with other bytes -/

/-- Only the disk differs, and of the clusters only these, which hold the bytes. -/
structure Fat.Replaced (v : Fat) (clusters : List Nat) (bytes : List UInt8) (v' : Fat) : Prop where
  rest : ∃ d, v' = { v with disk := d }
  content : v'.content clusters = bytes
  others : ∀ c, 2 ≤ c → c ∉ clusters → v'.clusterData c = v.clusterData c

namespace Fat.Replaced

variable {v w v' : Fat} {cs ds : List Nat} {bytes bytes' : List UInt8}

theorem refl (v : Fat) (cs : List Nat) : v.Replaced cs (v.content cs) v :=
  ⟨⟨v.disk, rfl⟩, rfl, fun _ _ _ => rfl⟩

theorem setCluster {c : Nat} (h2 : 2 ≤ c) (hlen : bytes.length = v.clusterBytes) :
    v.Replaced [c] bytes (v.setCluster c bytes) :=
  ⟨⟨_, rfl⟩, by rw [content_cons, clusterData_setCluster_self hlen, content_nil, append_nil],
    fun _ h2' hx => clusterData_setCluster_of_ne h2 h2' (ne_of_not_mem_cons hx)⟩

theorem content_eq (h : v.Replaced cs bytes v') (h2 : ∀ c ∈ ds, 2 ≤ c) (hd : ds.Disjoint cs) :
    v'.content ds = v.content ds :=
  flatMap_congr fun c hc => h.others c (h2 c hc) (hd hc)

theorem trans (h : v.Replaced cs bytes w) (h' : w.Replaced cs bytes' v') :
    v.Replaced cs bytes' v' := by
  obtain ⟨⟨d, rfl⟩, -, hothers⟩ := h
  obtain ⟨⟨d', rfl⟩, hcontent, hothers'⟩ := h'
  exact ⟨⟨d', rfl⟩, hcontent, fun c h2 hc => (hothers' c h2 hc).trans (hothers c h2 hc)⟩

theorem append (h : v.Replaced cs bytes w) (h' : w.Replaced ds bytes' v') (h2 : ∀ c ∈ cs, 2 ≤ c)
    (hd : cs.Disjoint ds) : v.Replaced (cs ++ ds) (bytes ++ bytes') v' := by
  have hkept := h'.content_eq h2 hd
  obtain ⟨⟨d, rfl⟩, hcontent, hothers⟩ := h
  obtain ⟨⟨d', rfl⟩, hcontent', hothers'⟩ := h'
  refine ⟨⟨d', rfl⟩, ?_, fun c h2 hc => ?_⟩
  · rw [← hcontent, ← hcontent', ← hkept]
    exact flatMap_append
  · obtain ⟨hc, hc'⟩ := not_or.mp (mt mem_append.mpr hc)
    exact (hothers' c h2 hc').trans (hothers c h2 hc)

end Fat.Replaced

namespace FatFile

/-! ## Writing -/

variable {v v' : Fat} {clusters : List Nat} {buffer bytes : List UInt8} {offset : Nat}

/-- The loop writes what the buffer has from the writing offset on. Each round replaces one
cluster, and only the first one starts inside a cluster. -/
theorem writeLoop_eq {temp left : List UInt8} {offsetWithinCluster writingOffset : Nat}
    (hg : Geometry v) (hvol : ∀ c ∈ clusters, v.OnVolume c) (hnodup : clusters.Nodup)
    (hoffset : offsetWithinCluster < v.clusterBytes)
    (hfits : left.length + offsetWithinCluster ≤ clusters.length * v.clusterBytes)
    (htemp : temp.length = v.clusterBytes) (hleft : buffer.drop writingOffset = left) :
    ∃ v' stop, writeLoop v.clusterBytes buffer clusters offsetWithinCluster left.length temp
        writingOffset v = some (v', 0, stop) ∧
      v.Replaced clusters (splice (v.content clusters) offsetWithinCluster left) v' := by
  induction clusters generalizing offsetWithinCluster left writingOffset temp v with
  | nil =>
    obtain rfl : left = [] := by simp at hfits; exact hfits.1
    exact ⟨v, _, rfl, by rw [splice_nil]; exact .refl v []⟩
  | cons c cs ih =>
    rw [writeLoop]
    by_cases h0 : left.length = 0
    · obtain rfl := length_eq_zero_iff.mp h0
      exact ⟨v, _, if_pos h0, by rw [splice_nil]; exact .refl v _⟩
    rw [if_neg h0, hleft]
    obtain ⟨hc, hcs⟩ := forall_mem_cons.mp hvol
    obtain ⟨hnot, hnodup⟩ := nodup_cons.mp hnodup
    have hpos := Fat.clusterBytes_pos hg
    have hdata : (v.clusterData c).length = v.clusterBytes := Fat.length_clusterData
    rw [length_cons, Nat.add_mul] at hfits
    generalize hcopy : min left.length (v.clusterBytes - offsetWithinCluster) = copySize
    have hpart : (left.take copySize).length = copySize := by
      rw [length_take]
      omega
    have hrest : (left.drop copySize).length ≤ cs.length * v.clusterBytes := by
      rw [length_drop]
      omega
    have hlen : (splice (v.clusterData c) offsetWithinCluster (left.take copySize)).length =
        v.clusterBytes := by
      rw [length_splice (by omega), hdata]
    have hround : ∀ {temp' : List UInt8}, temp'.length = v.clusterBytes →
        ∃ v' stop, writeLoop v.clusterBytes buffer cs 0 (left.length - copySize) temp'
            (writingOffset + copySize) (v.setCluster c
              (splice (v.clusterData c) offsetWithinCluster (left.take copySize))) =
          some (v', 0, stop) ∧
          v.Replaced (c :: cs) (splice (v.content (c :: cs)) offsetWithinCluster left) v' := by
      intro temp' htemp'
      have hone := Fat.Replaced.setCluster hc.1 hlen
      obtain ⟨v', stop, hloop, hreplaced⟩ :=
        ih (v := v.setCluster c _) ⟨hg.sector, hg.pos, hg.small⟩ hcs hnodup hpos hrest htemp'
          (by rw [← drop_drop, hleft])
      rw [length_drop] at hloop
      refine ⟨v', stop, hloop, ?_⟩
      rw [hone.content_eq (fun x hx => (hcs x hx).1) (disjoint_singleton.mpr hnot)] at hreplaced
      have hboth := hone.append hreplaced (by simpa using hc.1) (singleton_disjoint.mpr hnot)
      rwa [← splice_append (by omega) (by rw [drop_eq_nil_iff]; omega), take_append_drop] at hboth
    by_cases hwhole : offsetWithinCluster = 0 ∧ v.clusterBytes ≤ copySize
    · obtain ⟨rfl, hle⟩ := hwhole
      obtain rfl : copySize = v.clusterBytes := by omega
      rw [if_pos ⟨rfl, hle⟩, Fat.writeCluster_eq hg hc hpart]
      rw [splice_all (hpart.trans hdata.symm)] at hround
      exact hround htemp
    · rw [if_neg hwhole, Fat.readClusterTo_eq hg hc htemp]
      simp only [some_bind, Fat.writeCluster_eq hg hc hlen]
      exact hround hlen

section

variable [Chrono] {f : FatFile}

/-- A file that fits its chain. -/
structure Fits (v : Fat) (f : FatFile) (clusters : List Nat) : Prop where
  geometry : Geometry v
  chain : v.HasChain f.startingCluster clusters
  short : clusters.length < 2 ^ 24
  fits : f.fileSize ≤ clusters.length * v.clusterBytes
  size : f.fileSize < 2 ^ 32

theorem Fits.replaced (h : Fits v f clusters) (hr : v.Replaced clusters bytes v') :
    Fits v' f clusters := by
  obtain ⟨d, rfl⟩ := hr.rest
  exact ⟨⟨h.geometry.sector, h.geometry.pos, h.geometry.small⟩, ⟨h.chain.chain, h.chain.onVolume⟩,
    h.short, h.fits, h.size⟩

/-- A write that ends inside the file keeps its size and its chain. -/
theorem Fits.write_eq (h : Fits v f clusters) (hne : buffer ≠ [])
    (hin : offset + buffer.length ≤ f.fileSize) :
    ∃ v', write v f offset buffer = some (v', f, .ok ()) ∧
      v.Replaced clusters (splice (v.content clusters) offset buffer) v' := by
  have hfits := h.fits
  have hsize := h.size
  have hlen := length_pos_iff.mpr hne
  have hsplit := Nat.div_add_mod' offset v.clusterBytes
  have hskip : offset / v.clusterBytes < clusters.length :=
    Nat.div_lt_of_lt_mul (by rw [Nat.mul_comm]; omega)
  generalize hskipped : offset / v.clusterBytes = skipped at hskip hsplit
  have hrest : buffer.length + offset % v.clusterBytes ≤
      (clusters.drop skipped).length * v.clusterBytes := by
    rw [length_drop, Nat.sub_mul]
    omega
  have hnodup := h.chain.chain.nodup
  obtain ⟨v', stop, hloop, hreplaced⟩ := writeLoop_eq h.geometry
    (fun c hc => h.chain.onVolume c (mem_of_mem_drop hc)) (hnodup.sublist (drop_sublist skipped _))
    (Nat.mod_lt offset (Fat.clusterBytes_pos h.geometry)) hrest
    (length_replicate (a := (0 : UInt8))) (drop_zero (l := buffer))
  have hlast : (clusters.drop skipped).getLast? = some _ :=
    getLast?_eq_some_getLast (by simpa using hskip)
  have hstop : checked 64 (offset + buffer.length) = some (offset + buffer.length) :=
    if_pos (by omega)
  refine ⟨v', ?_, ?_⟩
  · rw [write, if_neg (by omega), divisor_eq h.geometry]
    simp only [some_bind, h.chain.getClustersForFile_eq, hskipped,
      roundTo_of_lt (Nat.lt_trans hskip h.short), hlast, hloop, hstop, grow,
      if_neg (by omega : ¬f.fileSize < (offset + buffer.length) % 2 ^ 32), if_pos]
  · have hbefore : (v.content (clusters.take skipped)).length = skipped * v.clusterBytes := by
      rw [Fat.content, length_flatMap_pieces fun _ _ => Fat.length_clusterData, length_take,
        Nat.min_eq_left (Nat.le_of_lt hskip)]
    have hall := (Fat.Replaced.refl v (clusters.take skipped)).append hreplaced
      (fun c hc => (h.chain.onVolume c (mem_of_mem_take hc)).1) (disjoint_take_drop hnodup le_rfl)
    rwa [take_append_drop, ← splice_append_right, hbefore, hsplit, Fat.content, Fat.content,
      ← flatMap_append, take_append_drop] at hall

/-! ## Runs -/

/-- One call of `write`, with its offset and buffer. -/
def writeStep (s : Fat × FatFile) (x : Nat × List UInt8) :
    Option ((Fat × FatFile) × Except FileSystemError Unit) := do
  let (v, f, result) ← write s.1 s.2 x.1 x.2
  some ((v, f), result)

/-- What a call does to an array. -/
def arrayStep (bytes : List UInt8) (x : Nat × List UInt8) (o : Except FileSystemError Unit)
    (bytes' : List UInt8) : Prop :=
  bytes' = splice bytes x.1 x.2 ∧ o = .ok ()

theorem writeStep_sim {w : Fat} {x : Nat × List UInt8} (h : Fits v f clusters)
    (hw : v.Replaced clusters bytes w) (hx : x.2 ≠ [] ∧ x.1 + x.2.length ≤ f.fileSize) :
    ∃ w' o bytes', writeStep (w, f) x = some ((w', f), o) ∧ arrayStep bytes x o bytes' ∧
      v.Replaced clusters bytes' w' := by
  obtain ⟨w', hwrite, hnext⟩ := (h.replaced hw).write_eq hx.1 hx.2
  rw [hw.content] at hnext
  exact ⟨w', .ok (), _, bind_of_eq_some hwrite, ⟨rfl, rfl⟩, hw.trans hnext⟩

/-- **A file is an array of bytes** for every sequence of writes inside it: no call fails, the bytes
are those of the array, and the handle, the table and every other cluster stay as they are. -/
theorem run_write_refines (v : Fat) (f : FatFile) (clusters : List Nat) (h : Fits v f clusters)
    (calls : List (Nat × List UInt8))
    (hin : ∀ x ∈ calls, x.2 ≠ [] ∧ x.1 + x.2.length ≤ f.fileSize) :
    ∃ v' os bytes, run writeStep (v, f) calls = some ((v', f), os) ∧
      Trace arrayStep (v.content clusters) calls os bytes ∧ v.Replaced clusters bytes v' := by
  obtain ⟨⟨v', _⟩, os, bytes, hrun, htrace, hreplaced, rfl⟩ := run_sim_of
    (s := (v, f)) (R := fun s bytes => v.Replaced clusters bytes s.1 ∧ s.2 = f)
    (by
      rintro ⟨w, _⟩ bytes x ⟨hw, rfl⟩ hx
      obtain ⟨w', o, bytes', hstep, harray, hw'⟩ := writeStep_sim h hw hx
      exact ⟨(w', _), o, bytes', hstep, harray, hw', rfl⟩)
    calls hin ⟨.refl v clusters, rfl⟩
  exact ⟨v', os, bytes, hrun, htrace, hreplaced⟩

end

/-- Two clusters that are not neighbours. -/
def twoClusters : Fat := striped [fatLastCluster, fatLastCluster, 4, 0, fatEndOfFileMark]

/-- Over the border of the clusters, and then over a part of that. -/
theorem run_write_refines_border :
    ∃ v' os bytes, run writeStep (twoClusters, ⟨2, 600, .default, 2⟩)
        [(510, [7, 8, 9]), (511, [1])] = some ((v', ⟨2, 600, .default, 2⟩), os) ∧
      Trace arrayStep (twoClusters.content [2, 4]) [(510, [7, 8, 9]), (511, [1])] os bytes ∧
      twoClusters.Replaced [2, 4] bytes v' :=
  run_write_refines twoClusters ⟨2, 600, .default, 2⟩ [2, 4] ⟨⟨rfl, by decide, by decide⟩,
    ⟨⟨⟨rfl, rfl⟩, rfl⟩, by decide⟩, by decide, by decide, by decide⟩ _ (by decide)

end FatFile
end Moose.Fat32
