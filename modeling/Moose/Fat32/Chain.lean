import Moose.Fat32.Volume

/-!
# Cluster chains

A chain of the file allocation table is a chain of its links (`Lib.Links`): it stays inside the
table, passes no cluster twice and ends with a mark. `get_clusters_for_file` returns the chain if
there is one. The table comes from the disk, and nothing in it is checked: a link that leads out of
the table is an index out of range, and a cycle is followed for ever.

`allocate_and_link_clusters` takes one cluster more than it was asked for, if there is one.
-/

set_option autoImplicit false

namespace Moose.Fat32

open List Lib.Links

/-- The chain that starts at a cluster. -/
structure Chain (table : List Nat) (first : Nat) (clusters : List Nat) : Prop where
  linked : Linked (Fat.link table) clusters
  head : clusters.head? = some first

namespace Fat

variable {v : Fat} {table : List Nat} {cluster : Nat} {clusters : List Nat}

theorem lt_length_of_link (h : link table cluster ≠ none) : cluster < table.length := by
  by_contra hge
  rw [link, getElem?_eq_none (Nat.le_of_not_lt hge)] at h
  exact h rfl

theorem getClustersForFile_eq_some_iff :
    v.getClustersForFile cluster = some clusters ↔
      Chain v.fileAllocationTable cluster clusters := by
  rw [getClustersForFile, walk, follow_eq_some_iff (fun _ h => mem_range.mpr (lt_length_of_link h))
    (Nat.le_of_eq length_range)]
  exact ⟨fun h => ⟨h.1, h.2⟩, fun h => ⟨h.linked, h.head⟩⟩

end Fat

namespace Chain

variable {table : List Nat} {first : Nat} {clusters : List Nat}

theorem nodup (h : Chain table first clusters) : clusters.Nodup := h.linked.nodup

end Chain

namespace Fat

variable {v : Fat} {table : List Nat} {cluster n : Nat} {clusters : List Nat}

/-- **The walk returns exactly if there is a chain**, and then it returns the chain in order. -/
theorem walk_returns_iff (v : Fat) (cluster : Nat) :
    ((∃ fuel clusters, walk v.fileAllocationTable fuel cluster = some clusters) ↔
      ∃ clusters, Chain v.fileAllocationTable cluster clusters) ∧
    ∀ clusters, Chain v.fileAllocationTable cluster clusters →
      v.getClustersForFile cluster = some clusters := by
  refine ⟨⟨?_, ?_⟩, fun clusters h => getClustersForFile_eq_some_iff.mpr h⟩
  · rintro ⟨fuel, clusters, h⟩
    obtain ⟨hlinked, hhead, -⟩ := linked_of_follow h
    exact ⟨clusters, hlinked, hhead⟩
  · rintro ⟨clusters, h⟩
    exact ⟨v.fileAllocationTable.length, clusters, getClustersForFile_eq_some_iff.mpr h⟩

/-- A volume with nothing but a table. -/
def ofTable (table : List Nat) : Fat where
  disk := fun _ => .zero
  partitionFirstSectorLba := 0
  bpb := ⟨512, 1, 0, 0, 0, 2⟩
  fileAllocationTable := table

theorem walk_returns_iff_two :
    (ofTable [fatLastCluster, fatLastCluster, 4, 0, fatEndOfFileMark]).getClustersForFile 2 =
      some [2, 4] :=
  (walk_returns_iff _ 2).2 [2, 4] ⟨⟨rfl, rfl⟩, rfl⟩

/-- Two clusters that lead to one another, and a link out of the table. -/
theorem walk_never_returns :
    (∀ fuel, walk [fatLastCluster, fatLastCluster, 3, 2] fuel 2 = none) ∧
      ∀ fuel, walk [fatLastCluster, fatLastCluster, 9] fuel 2 = none := by
  have hcycle : ∀ fuel, walk [fatLastCluster, fatLastCluster, 3, 2] fuel 2 = none ∧
      walk [fatLastCluster, fatLastCluster, 3, 2] fuel 3 = none := by
    intro fuel
    induction fuel with
    | zero => exact ⟨rfl, rfl⟩
    | succ fuel ih =>
      exact ⟨congrArg (Option.map (2 :: ·)) ih.2, congrArg (Option.map (3 :: ·)) ih.1⟩
  refine ⟨fun fuel => (hcycle fuel).1, fun fuel => ?_⟩
  rcases fuel with _ | _ | fuel <;> rfl

/-! ## Allocation -/

theorem mem_freeClusters : cluster ∈ freeClusters table ↔ table[cluster]? = some fatFreeSector := by
  rw [freeClusters, mem_filter, mem_range, decide_eq_true_iff]
  refine ⟨fun h => h.2, fun h => ⟨?_, h⟩⟩
  by_contra hge
  rw [getElem?_eq_none (Nat.le_of_not_lt hge)] at h
  cases h

theorem nodup_freeClusters : (freeClusters table).Nodup := nodup_range.filter _

/-- Only the entries of the clusters themselves are changed. -/
theorem getElem?_linkClusters (table clusters : List Nat) (hc : cluster ∉ clusters) :
    (linkClusters table clusters)[cluster]? = table[cluster]? := by
  fun_induction linkClusters table clusters with
  | case1 => rfl
  | case2 table c => exact getElem?_set_ne (Ne.symm (ne_of_not_mem_cons hc))
  | case3 table c d rest ih =>
    rw [ih (not_mem_of_not_mem_cons hc)]
    exact getElem?_set_ne (Ne.symm (ne_of_not_mem_cons hc))

theorem link_set (hlt : cluster < table.length) (next : Nat) :
    link (table.set cluster next) cluster =
      some (if fatLastCluster ≤ next then none else some next) := by
  rw [link, getElem?_set_self hlt, Option.map_some]

/-- A link is read back as it was written if it is not taken for a mark. -/
theorem link_set_eq_iff (hlt : cluster < table.length) (next : Nat) :
    link (table.set cluster (next % 2 ^ 32)) cluster = some (some next) ↔
      next < fatLastCluster := by
  rw [link_set hlt, Option.some.injEq]
  unfold fatLastCluster
  split
  · exact iff_of_false nofun (by omega)
  rw [Option.some.injEq]
  omega

theorem linked_linkClusters_iff (table clusters : List Nat) (hne : clusters ≠ [])
    (hnodup : clusters.Nodup) (hlt : ∀ c ∈ clusters, c < table.length) :
    Linked (link (linkClusters table clusters)) clusters ↔
      ∀ c ∈ clusters.tail, c < fatLastCluster := by
  fun_induction linkClusters table clusters with
  | case1 => exact absurd rfl hne
  | case2 table c =>
    refine iff_of_true ?_ (forall_mem_nil _)
    exact link_set (hlt c mem_cons_self) fatEndOfFileMark
  | case3 table c d rest ih =>
    have hnot := (nodup_cons.mp hnodup).1
    have hrest := ih (cons_ne_nil d rest) (nodup_cons.mp hnodup).2
      fun x hx => by rw [length_set]; exact hlt x (mem_cons_of_mem c hx)
    -- later rounds leave the entry of this cluster alone
    have hfirst : link (linkClusters (table.set c (d % 2 ^ 32)) (d :: rest)) c =
        link (table.set c (d % 2 ^ 32)) c :=
      by rw [link, link, getElem?_linkClusters _ _ hnot]
    rw [Linked, hrest, hfirst, link_set_eq_iff (hlt c mem_cons_self)]
    exact (forall_mem_cons (p := (· < fatLastCluster))).symm

/-- What an allocation of `n` clusters should do: they were free, they are a chain in this order,
and nothing else has changed; or there are not so many. An error leaves the table as it is. -/
def AllocatesExactly (v : Fat) (n : Nat) : Prop :=
  match v.allocateAndLinkClusters n with
  | none => False
  | some (.ok (v', clusters)) =>
    clusters.length = n ∧ (∀ c ∈ clusters, v.fileAllocationTable[c]? = some fatFreeSector) ∧
      Linked (link v'.fileAllocationTable) clusters ∧
      (∀ c, c ∉ clusters → v'.fileAllocationTable[c]? = v.fileAllocationTable[c]?) ∧
      v'.disk = v.disk
  | some (.error e) => e = .notEnoughSpace ∧ (freeClusters v.fileAllocationTable).length < n

/-- **An allocation is exact exactly if no cluster is left over**, and no number of a cluster is
taken for a mark. For the largest `usize` the number to look for overflows. -/
theorem allocatesExactly_iff (v : Fat) (n : Nat) (hn : 1 ≤ n) :
    v.AllocatesExactly n ↔ n + 1 < 2 ^ 64 ∧ ((freeClusters v.fileAllocationTable).length < n ∨
      (freeClusters v.fileAllocationTable).length = n ∧
        ∀ c ∈ (freeClusters v.fileAllocationTable).tail, c < fatLastCluster) := by
  unfold AllocatesExactly allocateAndLinkClusters findFreeClusters checked
  by_cases hlimit : n + 1 < 2 ^ 64
  case neg =>
    rw [if_neg hlimit]
    exact iff_of_false id fun h => hlimit h.1
  rw [if_pos hlimit, and_iff_right hlimit]
  simp only [Option.bind_eq_bind, Option.bind_some]
  generalize hfree : (freeClusters v.fileAllocationTable).take (n + 1) = free
  have hlen : free.length = min (n + 1) (freeClusters v.fileAllocationTable).length :=
    hfree ▸ List.length_take
  by_cases hshort : free.length < n
  · rw [if_pos hshort]
    exact iff_of_true ⟨rfl, by omega⟩ (.inl (by omega))
  rw [if_neg hshort]
  have hmem : ∀ c ∈ free, v.fileAllocationTable[c]? = some fatFreeSector :=
    fun c hc => mem_freeClusters.mp (List.mem_of_mem_take (hfree ▸ hc))
  have hne : free ≠ [] := by
    rintro rfl
    exact hshort hn
  have hnodup : free.Nodup := hfree ▸ nodup_freeClusters.sublist (List.take_sublist _ _)
  have hlinked := linked_linkClusters_iff v.fileAllocationTable free hne hnodup
    fun c hc => (List.getElem?_eq_some_iff.mp (hmem c hc)).1
  constructor
  · rintro ⟨hcount, -, hchain, -⟩
    -- the search found `n` although it looked for one more: there are no others
    have hall : freeClusters v.fileAllocationTable = free :=
      (List.take_of_length_le (by omega)).symm.trans hfree
    rw [hall]
    exact .inr ⟨hcount, hlinked.mp hchain⟩
  rintro (hfew | ⟨hcount, hsmall⟩)
  · omega
  have hall : freeClusters v.fileAllocationTable = free :=
    (List.take_of_length_le (by omega)).symm.trans hfree
  rw [hall] at hcount hsmall
  exact ⟨hcount, hmem, hlinked.mpr hsmall, fun c hc => getElem?_linkClusters _ _ hc, rfl⟩

/-- The last two free clusters. -/
theorem allocatesExactly_iff_last :
    (ofTable [fatLastCluster, fatLastCluster, 0, 0]).AllocatesExactly 2 :=
  (allocatesExactly_iff _ 2 (by decide)).mpr ⟨by decide, .inr (by decide)⟩

/-- One cluster was asked for, and two are taken. -/
theorem allocates_one_too_many :
    ((ofTable [fatLastCluster, fatLastCluster, 0, 0]).allocateAndLinkClusters 1).map
        (·.map fun r => (r.2, r.1.fileAllocationTable)) =
      some (.ok ([2, 3], [fatLastCluster, fatLastCluster, 3, fatEndOfFileMark])) ∧
    ¬(ofTable [fatLastCluster, fatLastCluster, 0, 0]).AllocatesExactly 1 :=
  ⟨rfl, fun h => absurd h.1 (by decide)⟩

end Fat
end Moose.Fat32
