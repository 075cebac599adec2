import Moose.Net.Tables

/-!
# Longest prefix match

The table has the routes that were inserted and not replaced, the longer prefixes in front and those
of one length in the order of their insertion. So the first match is the best one: no route behind
it has a longer prefix. A route is replaced by one with its prefix and interface, which goes behind
the others of that length.
-/

set_option autoImplicit false

namespace Moose.Net

open List

def lookupEntry (routes : List RouteEntry) (ip : Ipv4Addr) : Option RouteEntry :=
  routes.find? fun r => r.subnet.contains ip

def routingTable (inserted : List RouteEntry) : List RouteEntry :=
  inserted.foldl (fun routes r => insertForInterface routes r.subnet r.interfaceId r.data) []

/-- The routes that an insertion of `r` does not replace. -/
def others (r : RouteEntry) (routes : List RouteEntry) : List RouteEntry :=
  routes.filter fun r' => r'.subnet ≠ r.subnet ∨ r'.interfaceId ≠ r.interfaceId

/-- The insertions that were not replaced by a later one, in their order. -/
def inForce (inserted : List RouteEntry) : List RouteEntry :=
  inserted.foldl (fun routes r => others r routes ++ [r]) []

/-- No route for the address is longer, and of those of its length it was inserted first. -/
def BestRoute (routes : List RouteEntry) (ip : Ipv4Addr) (r : RouteEntry) : Prop :=
  (∀ r' ∈ routes, r'.subnet.contains ip = true → r'.subnet.maskLen ≤ r.subnet.maskLen) ∧
    routes.find? (fun r' => r'.subnet.maskLen = r.subnet.maskLen && r'.subnet.contains ip) = some r

def LongestFirst (routes : List RouteEntry) : Prop :=
  routes.Pairwise fun r r' => r'.subnet.maskLen ≤ r.subnet.maskLen

/-- One route for a prefix and an interface. -/
def NoDuplicates (routes : List RouteEntry) : Prop :=
  routes.Pairwise fun r r' => r.subnet ≠ r'.subnet ∨ r.interfaceId ≠ r'.interfaceId

/-- A table for these insertions. -/
structure Sorts (inserted table : List RouteEntry) : Prop where
  sorted : LongestFirst table
  distinct : NoDuplicates table
  order : ∀ n, table.filter (·.subnet.maskLen = n) = inserted.filter (·.subnet.maskLen = n)

variable {routes inserted : List RouteEntry} {r : RouteEntry} {ip : Ipv4Addr}

/-! ## Insertion -/

theorem pairwise_insert {R : RouteEntry → RouteEntry → Prop} {before after : List RouteEntry}
    (h : (before ++ after).Pairwise R) (hbefore : ∀ r' ∈ before, R r' r)
    (hafter : ∀ r' ∈ after, R r r') : (before ++ r :: after).Pairwise R := by
  rw [pairwise_append] at h
  refine pairwise_append.mpr ⟨h.1, pairwise_cons.mpr ⟨hafter, h.2.1⟩, fun a ha b hb => ?_⟩
  rcases mem_cons.mp hb with rfl | hb
  · exact hbefore a ha
  · exact h.2.2 a ha b hb

/-- The new route stands behind those that are as long and in front of the shorter ones. -/
theorem insertForInterface_eq (hsorted : LongestFirst routes) (r : RouteEntry) :
    ∃ longer shorter, others r routes = longer ++ shorter ∧
      insertForInterface routes r.subnet r.interfaceId r.data = longer ++ r :: shorter ∧
      (∀ r' ∈ longer, r.subnet.maskLen ≤ r'.subnet.maskLen) ∧
      ∀ r' ∈ shorter, r'.subnet.maskLen < r.subnet.maskLen := by
  have hkept : LongestFirst (others r routes) := hsorted.filter _
  have hle : (others r routes).findIdx (fun r' => r'.subnet.maskLen < r.subnet.maskLen) ≤
      (others r routes).length := findIdx_le_length
  obtain ⟨longer, shorter, heq, hlength, hinsert⟩ :=
    exists_of_modifyTailIdx (cons r) hle
  rw [findIdx_eq_getD_findIdx?] at hinsert
  refine ⟨longer, shorter, heq, hinsert, ?_⟩
  rw [heq, findIdx_append] at hlength
  rw [heq] at hkept
  split at hlength
  · omega
  next hall =>
    have hnone := findIdx_eq_length.mp
      (Nat.le_antisymm findIdx_le_length (Nat.not_lt.mp hall))
    refine ⟨fun r' hr' => Nat.not_lt.mp (of_decide_eq_false (hnone r' hr')), ?_⟩
    cases shorter with
    | nil => exact forall_mem_nil _
    | cons first rest =>
      -- behind the first shorter route all are shorter
      have hfirst : first.subnet.maskLen < r.subnet.maskLen := by
        by_contra hnot
        simp [findIdx_cons, hnot] at hlength
      obtain ⟨hrest, -⟩ := pairwise_cons.mp (pairwise_append.mp hkept).2.1
      intro r' hr'
      rcases mem_cons.mp hr' with rfl | hr'
      · exact hfirst
      · exact Nat.lt_of_le_of_lt (hrest r' hr') hfirst

theorem Sorts.insert (h : Sorts inserted routes) (r : RouteEntry) :
    Sorts (others r inserted ++ [r]) (insertForInterface routes r.subnet r.interfaceId r.data) := by
  obtain ⟨longer, shorter, hkept, heq, hlonger, hshorter⟩ := insertForInterface_eq h.sorted r
  have hsorted : LongestFirst (others r routes) := h.sorted.filter _
  have hdistinct : NoDuplicates (others r routes) := h.distinct.filter _
  have hother : ∀ r' ∈ others r routes, r'.subnet ≠ r.subnet ∨ r'.interfaceId ≠ r.interfaceId :=
    fun r' hr' => of_decide_eq_true (mem_filter.mp hr').2
  have horder : ∀ n, (others r routes).filter (·.subnet.maskLen = n) =
      (others r inserted).filter (·.subnet.maskLen = n) := by
    intro n
    rw [others, filter_comm, h.order, filter_comm, others]
  rw [hkept] at hsorted hdistinct hother horder
  rw [heq]
  constructor
  case sorted =>
    refine pairwise_insert hsorted hlonger fun r' hr' => Nat.le_of_lt (hshorter r' hr')
  case distinct =>
    refine pairwise_insert hdistinct (fun r' hr' => hother r' (mem_append_left _ hr')) ?_
    exact fun r' hr' => (hother r' (mem_append_right _ hr')).imp Ne.symm Ne.symm
  case order =>
    intro n
    simp only [filter_append, ← horder, filter_cons]
    by_cases hn : r.subnet.maskLen = n
    · have hnone : shorter.filter (·.subnet.maskLen = n) = [] := by
        rw [filter_eq_nil_iff]
        intro r' hr' heq
        have := hshorter r' hr'
        have := of_decide_eq_true heq
        omega
      simp [hn, hnone]
    · simp [hn]

theorem sorts_routingTable (inserted : List RouteEntry) :
    Sorts (inForce inserted) (routingTable inserted) := by
  induction inserted using reverseRecOn with
  | nil => exact ⟨.nil, .nil, fun _ => rfl⟩
  | append_singleton inserted r ih =>
    rw [inForce, routingTable, foldl_append, foldl_append]
    exact ih.insert r

/-! ## Lookup -/

/-- In a sorted table the first match is the best route. -/
theorem LongestFirst.lookupEntry_iff (h : LongestFirst routes) :
    lookupEntry routes ip = some r ↔ BestRoute routes ip r := by
  unfold lookupEntry BestRoute
  simp only [find?_eq_some_iff_append, Bool.and_eq_true, Bool.not_eq_eq_eq_not, Bool.not_true,
    Bool.and_eq_false_imp, decide_eq_true_eq, true_and]
  constructor
  · rintro ⟨hmatch, before, after, rfl, hbefore⟩
    have hafter := pairwise_cons.mp (pairwise_append.mp h).2.1
    refine ⟨fun r' hr' hmatch' => ?_, hmatch, before, after, rfl, fun r' hr' _ => hbefore r' hr'⟩
    rcases mem_append.mp hr' with hr' | hr'
    · cases (hbefore r' hr').symm.trans hmatch'
    rcases mem_cons.mp hr' with rfl | hr'
    · exact Nat.le_refl _
    · exact hafter.1 r' hr'
  rintro ⟨hbest, hmatch, before, after, rfl, hbefore⟩
  refine ⟨hmatch, before, after, rfl, fun r' hr' => ?_⟩
  -- a match in front would be as long, and so be the one that was found
  have hlonger := (pairwise_append.mp h).2.2 r' hr' r mem_cons_self
  by_contra hmatch'
  rw [Bool.not_eq_false] at hmatch'
  have hle := hbest r' (mem_append_left _ hr') hmatch'
  cases (hbefore r' hr' (Nat.le_antisymm hle hlonger)).symm.trans hmatch'

theorem Sorts.mem_iff (h : Sorts inserted routes) : r ∈ routes ↔ r ∈ inserted := by
  have hfilter : r ∈ routes.filter (·.subnet.maskLen = r.subnet.maskLen) ↔
      r ∈ inserted.filter (·.subnet.maskLen = r.subnet.maskLen) := by rw [h.order]
  simpa using hfilter

theorem Sorts.bestRoute_iff (h : Sorts inserted routes) :
    BestRoute routes ip r ↔ BestRoute inserted ip r := by
  have hfind := congrArg (find? (·.subnet.contains ip)) (h.order r.subnet.maskLen)
  simp only [find?_filter, Bool.decide_and, Bool.decide_eq_true] at hfind
  simp [BestRoute, h.mem_iff, hfind]

/-- **Longest prefix match**, after every sequence of insertions. -/
theorem routingTable_longest_match (inserted : List RouteEntry) :
    LongestFirst (routingTable inserted) ∧ NoDuplicates (routingTable inserted) ∧
      ∀ ip, (∀ r, lookupEntry (routingTable inserted) ip = some r ↔
          BestRoute (inForce inserted) ip r) ∧
        (lookupEntry (routingTable inserted) ip = none ↔
          ∀ r ∈ routingTable inserted, r.subnet.contains ip = false) := by
  have h := sorts_routingTable inserted
  refine ⟨h.sorted, h.distinct, fun ip => ⟨fun r => ?_, ?_⟩⟩
  · rw [h.sorted.lookupEntry_iff, h.bestRoute_iff]
  · simp [lookupEntry]

end Moose.Net
