import Moose.Fat32.Slots

/-!
# What a cluster of a directory lists

The listing goes through the slots of a cluster with the long name that has been read so far. It
does not start over at a deleted slot, so long-name slots without an entry give their name to the
next entry, and it stops at the first slot that was never used. An entry that is put among the slots
is listed for what it is, and leaves the other entries as they were, where neither of these reaches
over the place: in front of it no long name is left open (`Closed`), and what was there before hid
nothing that comes after (`Gap`).
-/

set_option autoImplicit false

namespace Moose.Fat32

open List Option RawFatFileEntry

namespace RawFatFileEntry

/-- The slot belongs to no entry: it is deleted or past the end. -/
def isFree (slot : RawFatFileEntry) : Bool := slot.firstByte == 0 || slot.firstByte == fatFreeEntry

/-- A slot with a first byte is not taken for the end. -/
theorem name_ne_default {slot : RawFatFileEntry} (h : slot.firstByte ≠ 0) : slot.name ≠ default.name := by
  intro heq
  apply h
  rw [firstByte, heq]
  rfl

end RawFatFileEntry

variable [Chrono]

/-- The slots of an entry in the order they have in a directory. -/
def FatFileEntry.group (e : FatFileEntry) : List RawFatFileEntry := e.lfn ++ [e.sfn]

@[simp] theorem FatFileEntry.length_group (e : FatFileEntry) : e.group.length = e.slots := by
  simp [group, slots]

namespace Fat

variable {pre run post slots rest lfn : List RawFatFileEntry} {slot : RawFatFileEntry}
  {name : List Char} {es es' : List FatFileEntry}

/-- The entry of a short-name slot, with the long name in front of it. -/
def named (e : FatFileEntry) (lfn : List RawFatFileEntry) (name : List Char) : FatFileEntry :=
  if lfn.isEmpty then e else { e with name := name, lfn := lfn }

theorem ofRaw_spec {e : FatFileEntry} (h : FatFileEntry.ofRaw slot = some e) :
    e.sfn = slot ∧ e.lfn = [] ∧ e.fileSize = slot.fileSize.toNat ∧
      fromBits slot.attr = some e.attr := by
  rw [FatFileEntry.ofRaw] at h
  obtain ⟨_, _, h⟩ := bind_eq_some_iff.mp h
  obtain ⟨_, _, h⟩ := bind_eq_some_iff.mp h
  obtain ⟨_, _, h⟩ := bind_eq_some_iff.mp h
  obtain ⟨_, hattr, h⟩ := bind_eq_some_iff.mp h
  cases h
  exact ⟨rfl, rfl, rfl, hattr⟩

/-- The slots of a listed entry are the ones it was read from. -/
theorem named_slots {e : FatFileEntry} (lfn : List RawFatFileEntry) (name : List Char)
    (h : FatFileEntry.ofRaw slot = some e) :
    (named e lfn name).sfn = slot ∧ (named e lfn name).lfn = lfn := by
  obtain ⟨hsfn, hlfn, -⟩ := ofRaw_spec h
  rw [named]
  cases lfn with
  | nil => exact ⟨hsfn, hlfn⟩
  | cons _ _ => exact ⟨hsfn, rfl⟩

@[simp] theorem named_fileSize (e : FatFileEntry) (lfn : List RawFatFileEntry) (name : List Char) :
    (named e lfn name).fileSize = e.fileSize := by
  rw [named]
  split <;> rfl

/-! ## The listing, slot by slot -/

variable [Ucs2]

theorem listSlots_long (h : isLongNameEntry slot.attr = true) :
    listSlots (slot :: rest) lfn name = (decodeUcs2 slot.units).bind fun piece =>
      listSlots rest (lfn ++ [slot]) (piece ++ name) := by
  rw [listSlots, if_pos h]
  rfl

/-- A slot that is neither deleted nor all zero makes an entry. -/
theorem listSlots_live (hattr : ¬isLongNameEntry slot.attr = true)
    (hname : slot.name ≠ default.name) (hdel : slot.firstByte ≠ fatFreeEntry) :
    listSlots (slot :: rest) lfn name = (FatFileEntry.ofRaw slot).bind fun e =>
      (listSlots rest [] []).map (named e lfn name :: ·) := by
  rw [listSlots, if_neg hattr, if_neg hname, if_neg hdel]
  cases FatFileEntry.ofRaw slot with
  | none => rfl
  | some e => cases listSlots rest [] [] <;> rfl

/-- What is pending does not change how many entries are listed. -/
theorem length_listSlots {lfn' : List RawFatFileEntry} {name' : List Char}
    (h : listSlots slots lfn name = some es) (h' : listSlots slots lfn' name' = some es') :
    es.length = es'.length := by
  induction slots generalizing lfn lfn' name name' es es' with
  | nil =>
    cases h
    cases h'
    rfl
  | cons slot rest ih =>
    by_cases hattr : isLongNameEntry slot.attr = true
    · rw [listSlots, if_pos hattr] at h h'
      obtain ⟨piece, -, h⟩ := bind_eq_some_iff.mp h
      obtain ⟨piece', -, h'⟩ := bind_eq_some_iff.mp h'
      exact ih h h'
    by_cases hname : slot.name = default.name
    · rw [listSlots, if_neg hattr, if_pos hname] at h h'
      cases h
      cases h'
      rfl
    by_cases hdel : slot.firstByte = fatFreeEntry
    · rw [listSlots, if_neg hattr, if_neg hname, if_pos hdel] at h h'
      exact ih h h'
    rw [listSlots_live hattr hname hdel] at h h'
    obtain ⟨_, -, h⟩ := bind_eq_some_iff.mp h
    obtain ⟨_, -, h'⟩ := bind_eq_some_iff.mp h'
    obtain ⟨others, hothers, rfl⟩ := map_eq_some_iff.mp h
    obtain ⟨others', hothers', rfl⟩ := map_eq_some_iff.mp h'
    rw [length_cons, length_cons, ih hothers hothers']

/-! ## Where an entry can be put -/

/-- The slots list these entries whatever comes after them, and what comes after them is listed as
if the listing started there. -/
def Closed (slots : List RawFatFileEntry) (entries : List FatFileEntry) : Prop :=
  ∀ rest, listSlots (slots ++ rest) [] [] = (listSlots rest [] []).map (entries ++ ·)

/-- The slots `run` can be exchanged for an entry without a change to what is listed before and
after it. They are skipped: no long-name slot is left among them, and if one of them was never used,
so that the listing stops there, nothing is listed after them. -/
structure Gap (pre run post : List RawFatFileEntry) : Prop where
  closed : ∃ entries, Closed pre entries
  skipped : listSlots (run ++ post) [] [] = listSlots post [] []

theorem closed_nil : Closed [] [] := fun rest => by simp

/-- A short-name slot in use makes an entry of its own. -/
theorem Closed.concat {e : FatFileEntry} (h : Closed pre es)
    (hattr : ¬isLongNameEntry slot.attr = true) (hname : slot.name ≠ default.name)
    (hdel : slot.firstByte ≠ fatFreeEntry) (he : FatFileEntry.ofRaw slot = some e) :
    Closed (pre ++ [slot]) (es ++ [e]) := by
  intro rest
  rw [append_assoc, h, singleton_append, listSlots_live hattr hname hdel, he, bind_some,
    Option.map_map]
  simp [named, Function.comp_def]

/-- What is listed before and after a gap. -/
theorem Gap.exists_lists {before : List FatFileEntry} (h : Gap pre run post)
    (hlist : listSlots (pre ++ run ++ post) [] [] = some before) :
    ∃ es es', before = es ++ es' ∧ Closed pre es ∧ listSlots post [] [] = some es' := by
  obtain ⟨es, hclosed⟩ := h.closed
  rw [append_assoc, hclosed, h.skipped] at hlist
  obtain ⟨es', hes', hbefore⟩ := map_eq_some_iff.mp hlist
  exact ⟨es, es', hbefore.symm, hclosed, hes'⟩

/-! ## Whole directories -/

/-- What the slots of clusters list. A long name does not go over the end of a cluster. -/
def listAll : List (List RawFatFileEntry) → Option (List FatFileEntry)
  | [] => some []
  | slots :: rest => (listSlots slots [] []).bind fun es => (listAll rest).map (es ++ ·)

theorem listAll_append (dir dir' : List (List RawFatFileEntry)) :
    listAll (dir ++ dir') = (listAll dir).bind fun es => (listAll dir').map (es ++ ·) := by
  induction dir with
  | nil => exact map_id'.symm
  | cons slots dir ih =>
    rw [cons_append, listAll, listAll, ih]
    cases listSlots slots [] [] with
    | none => rfl
    | some es =>
      cases listAll dir with
      | none => rfl
      | some es' => simp [Function.comp_def]

theorem flatten_mapM_listSlots (dir : List (List RawFatFileEntry)) :
    (dir.mapM fun slots => listSlots slots [] []).map flatten = listAll dir := by
  induction dir with
  | nil => rfl
  | cons slots dir ih =>
    rw [mapM_cons, listAll, ← ih]
    cases listSlots slots [] [] with
    | none => rfl
    | some es => cases dir.mapM fun slots => listSlots slots [] [] <;> rfl

/-- A directory lists what the slots of its clusters list. -/
theorem entries_eq {v : Fat} {d : FatDirectory} {clusters : List Nat} (hg : Geometry v)
    (hchain : v.HasChain d.contentCluster clusters) :
    d.entries v = listAll (clusters.map v.slots) := by
  have hlistings : clusters.mapM v.getFileListingFromCluster =
      (clusters.map v.slots).mapM fun slots => listSlots slots [] [] := by
    rw [mapM_map]
    refine Lib.mapM_congr_mem fun c hc => ?_
    rw [getFileListingFromCluster, getRawFileListingFromCluster_eq hg (hchain.onVolume c hc)]
    rfl
  rw [FatDirectory.entries, hchain.getClustersForFile_eq, ← flatten_mapM_listSlots, ← hlistings,
    map_eq_bind]
  rfl

/-- Other slots in one cluster of a directory change what that cluster lists. -/
theorem entries_setSlots {v : Fat} {d : FatDirectory} {cs cs' : List Nat} {c : Nat}
    {before : List FatFileEntry} (h1 : OneSector v)
    (hchain : v.HasChain d.contentCluster (cs ++ c :: cs')) (hbefore : d.entries v = some before) :
    ∃ left here right, before = left ++ here ++ right ∧ listSlots (v.slots c) [] [] = some here ∧
      ∀ listing : List RawFatFileEntry, listing.length = 16 →
        d.entries (v.setSlots c listing) =
          (listSlots listing [] []).map fun here => left ++ here ++ right := by
  rw [entries_eq h1.geometry hchain, map_append, map_cons, listAll_append,
    listAll] at hbefore
  obtain ⟨left, hleft, hbefore⟩ := bind_eq_some_iff.mp hbefore
  obtain ⟨rest, hrest, rfl⟩ := map_eq_some_iff.mp hbefore
  obtain ⟨here, hhere, hrest⟩ := bind_eq_some_iff.mp hrest
  obtain ⟨right, hright, rfl⟩ := map_eq_some_iff.mp hrest
  refine ⟨left, here, right, by simp, hhere, fun listing hlen => ?_⟩
  have hafter : (v.setSlots c listing).HasChain d.contentCluster (cs ++ c :: cs') :=
    ⟨hchain.chain, hchain.onVolume⟩
  rw [entries_eq h1.setSlots.geometry hafter, map_slots_setSlots h1 hchain hlen, listAll_append,
    hleft, bind_some, listAll, hright]
  cases listSlots listing [] [] with
  | none => rfl
  | some es => simp

end Fat
end Moose.Fat32
