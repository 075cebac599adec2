import Moose.Fat32.Names

/-!
# Creating entries

`create_entry` puts the slots of a new entry into a directory. When only the last cluster of the
directory has room, it writes over free slots there and nowhere else, and what the directory lists
afterwards is what it listed before and the new entry, if the entry is one that is listed.

A name comes back as it was given under conditions of its own: no white space at the ends of a short
name, no zero in a long one, and a short name that does not look deleted or unused.
-/

set_option autoImplicit false

namespace Moose.Fat32

open List Option Lib
open RawFatFileEntry (isFree)

namespace FatFileEntry

variable {name : List Char} {attributes : UInt8} {directory : Bool}

/-! ## The names that come back -/

/-- A name of up to 11 bytes that is listed as it was given. -/
def ShortNameKept (name : List Char) : Prop :=
  trim name = name ∧ (utf8 name).head? ≠ some fatFreeEntry ∧ name ≠ replicate 11 (Char.ofNat 0)

/-- A longer name that is listed as it was given. -/
def LongNameKept (name : List Char) : Prop :=
  (∀ c ∈ name, c.toNat ≠ 0) ∧
    (LongFileName.paddedSfn (utf8 name)).bind head? ≠ some fatFreeEntry

instance (name : List Char) : Decidable (ShortNameKept name) :=
  inferInstanceAs (Decidable (_ ∧ _ ∧ _))

instance (name : List Char) : Decidable (LongNameKept name) :=
  @instDecidableAnd _ _ (name.decidableBAll _) inferInstance

def NameKept (name : List Char) : Prop :=
  if (utf8 name).length ≤ 11 then ShortNameKept name else LongNameKept name

instance (name : List Char) : Decidable (NameKept name) :=
  inferInstanceAs (Decidable
    (if (utf8 name).length ≤ 11 then ShortNameKept name else LongNameKept name))

theorem firstByte_ofList {slot : RawFatFileEntry} {b : UInt8} {bytes : List UInt8}
    (h : slot.name = ShortName.ofList (b :: bytes)) : slot.firstByte = b := by
  rw [RawFatFileEntry.firstByte, h]
  rfl

/-- A short name is all zeros if the name is. -/
theorem ofList_eq_default_iff (hshort : (utf8 name).length ≤ 11) :
    ShortName.ofList (utf8 name ++ replicate (11 - (utf8 name).length) LongFileName.space) =
      RawFatFileEntry.default.name ↔ name = replicate 11 (Char.ofNat 0) := by
  constructor
  · intro h
    have hval := congrArg Subtype.val h
    rw [ShortName.ofList_val (by rw [length_append, length_replicate]; omega)] at hval
    have hfull : (utf8 name).length = 11 := by
      by_contra hlt
      have hmem : LongFileName.space ∈ RawFatFileEntry.default.name.1 := by
        rw [← hval, mem_append, mem_replicate]
        exact .inr ⟨by omega, rfl⟩
      exact absurd hmem (by decide)
    rw [hfull, Nat.sub_self, replicate_zero, append_nil] at hval
    rw [← fromUtf8Lossy_utf8 name, hval]
    decide
  · rintro rfl
    decide

theorem kept_ne_zero : LongFileName.Kept (· ≠ 0) := by
  refine ⟨?_, by decide, by decide, by decide, by decide⟩
  intro b hb
  rw [LongFileName.toAsciiUppercase]
  split
  next h =>
    intro h0
    have : b = 0x20 := by
      have := congrArg (· + 0x20) h0
      simpa using this
    rw [this] at h
    exact absurd h.1 (by decide)
  · exact hb

theorem ne_zero_of_mem_utf8 (h : ∀ c ∈ name, c.toNat ≠ 0) : ∀ b ∈ utf8 name, b ≠ 0 := by
  intro b hb
  obtain ⟨c, hc, hb⟩ := mem_flatMap.mp hb
  exact Utf8.ne_zero_of_mem_utf8EncodeChar (h c hc) hb

/-! ## The entry that is made -/

/-- No attributes make a long-name slot of an entry, and all of them are known. -/
theorem attr_spec (attributes : UInt8) (directory : Bool) :
    isLongNameEntry (fromAttributes attributes ||| if directory then 0x10 else 0) = false ∧
      fromBits (fromAttributes attributes ||| if directory then 0x10 else 0) =
        some (fromAttributes attributes ||| if directory then 0x10 else 0) := by
  rw [fromAttributes]
  generalize (attributes &&& 1 == 1) = b1
  generalize (attributes &&& 2 == 2) = b2
  generalize (attributes &&& 4 == 4) = b3
  generalize (attributes &&& 8 == 8) = b4
  generalize (attributes &&& 16 == 16) = b5
  revert b1 b2 b3 b4 b5 directory
  decide

variable [Chrono] {e raw : FatFileEntry} {now : NaiveDateTime}

theorem ofRaw_of_fields {slot : RawFatFileEntry} {creation access write : NaiveDateTime}
    {attr : FatFileAttributes}
    (hcreation : createDateTimeFromFields slot.creationDate slot.creationTime = some creation)
    (haccess : createDateTimeFromFields slot.lastAccessDate slot.lastWriteTime = some access)
    (hwrite : createDateTimeFromFields slot.lastWriteDate slot.lastWriteTime = some write)
    (hattr : fromBits slot.attr = some attr) :
    ∃ raw, ofRaw slot = some raw ∧ raw.name = trim (fromUtf8Lossy slot.name.1) := by
  rw [ofRaw, hcreation, haccess, hwrite, hattr]
  exact ⟨_, rfl, rfl⟩

variable [Ucs2]

/-- The slots of an entry that `create_entry` makes. -/
structure Created (name : List Char) (e : FatFileEntry) : Prop where
  named : ∃ e', FatFileEntry.default.setName name = some e' ∧ e.lfn = e'.lfn ∧
    e.sfn.name = e'.sfn.name
  attr : isLongNameEntry e.sfn.attr = false
  readable : ∃ raw, ofRaw e.sfn = some raw ∧ raw.name = trim (fromUtf8Lossy e.sfn.name.1)

theorem created_of_create (hnow : now.Representable)
    (h : create name attributes directory now = some e) : Created name e := by
  obtain ⟨hlong, hbits⟩ := attr_spec attributes directory
  rw [create] at h
  obtain ⟨e1, h1, h⟩ := bind_eq_some.mp h
  obtain ⟨e2, h2, h⟩ := bind_eq_some.mp h
  obtain ⟨e3, h3, h⟩ := bind_eq_some.mp h
  rw [setCreationDateTime] at h2
  rw [setLastAccessDateTime] at h3
  rw [setLastWriteDateTime] at h
  cases hfields : createFieldsFromDateTime now with
  | none => rw [hfields] at h; cases h
  | some fields =>
    obtain ⟨date, time⟩ := fields
    obtain ⟨_, _, t, hfields', ht, -⟩ := createDateTimeFromFields_fields now hnow
    cases hfields.symm.trans hfields'
    rw [hfields] at h h2 h3
    cases h2
    cases h3
    cases h
    exact ⟨⟨e1, h1, rfl, rfl⟩, hlong, ofRaw_of_fields ht ht ht hbits⟩

/-! ## What is listed of it -/

def listedName (name : List Char) : List Char :=
  if (utf8 name).length ≤ 11 then trim name else storedName name

namespace Created

variable {post : List RawFatFileEntry}

section

variable (h : Created name e)
include h

theorem short (hshort : (utf8 name).length ≤ 11) : e.lfn = [] ∧ e.sfn.name = ShortName.ofList
      (utf8 name ++ replicate (11 - (utf8 name).length) LongFileName.space) := by
  obtain ⟨e', he', hlfn, hsfn⟩ := h.named
  rw [setName, if_pos hshort] at he'
  cases he'
  exact ⟨hlfn, hsfn⟩

theorem long (hlong : ¬(utf8 name).length ≤ 11) : LongName name e := by
  obtain ⟨e', he', hlfn, hsfn⟩ := h.named
  have hname := setName_long (Nat.lt_of_not_le hlong) he'
  refine ⟨hname.units, ?_, ?_⟩
  · rw [hsfn]
    exact hname.short
  rw [hsfn, hlfn]
  exact hname.slots

theorem checksum : ∀ slot ∈ e.lfn,
    computeLfnChecksum e.sfn.name = some slot.creationTimeMilliseconds := by
  intro slot hslot
  by_cases hshort : (utf8 name).length ≤ 11
  · rw [(h.short hshort).1] at hslot
    cases hslot
  obtain ⟨checksum, hchecksum, hlfn⟩ := (h.long hshort).slots
  rw [hlfn] at hslot
  obtain ⟨k, -, rfl⟩ := mem_map.mp hslot
  exact hchecksum

/-- The long-name slots are read before the short-name slot. -/
theorem listSlots_group : ∃ spelled, (e.lfn ≠ [] → spelled = listedName name) ∧
      ∀ post, Fat.listSlots (e.group ++ post) [] [] =
        Fat.listSlots (e.sfn :: post) e.lfn spelled := by
  by_cases hshort : (utf8 name).length ≤ 11
  · obtain ⟨hlfn, -⟩ := h.short hshort
    refine ⟨[], fun hne => absurd hlfn hne, fun post => ?_⟩
    rw [group, hlfn]
    rfl
  · refine ⟨storedName name, fun _ => (if_neg hshort).symm, (h.long hshort).listSlots_group⟩

/-- An entry with a short name that is not taken for a free slot is listed. -/
theorem lists (hused : e.sfn.name ≠ RawFatFileEntry.default.name)
    (hlive : e.sfn.firstByte ≠ fatFreeEntry) :
    ∃ e', e'.name = listedName name ∧ e'.sfn = e.sfn ∧ e'.lfn = e.lfn ∧
      e'.fileSize = e.sfn.fileSize.toNat ∧ ∀ post, Fat.listSlots (e.group ++ post) [] [] =
        (Fat.listSlots post [] []).map (e' :: ·) := by
  obtain ⟨spelled, hspelled, hgroup⟩ := h.listSlots_group
  obtain ⟨raw, hraw, hname⟩ := h.readable
  obtain ⟨hsfn, hlfn⟩ := Fat.named_slots e.lfn spelled hraw
  refine ⟨Fat.named raw e.lfn spelled, ?_, hsfn, hlfn, ?_, fun post => ?_⟩
  · by_cases hshort : (utf8 name).length ≤ 11
    · obtain ⟨hnil, hshortName⟩ := h.short hshort
      rw [Fat.named, hnil, if_pos isEmpty_nil, hname, hshortName, fromUtf8Lossy_padded hshort,
        listedName, if_pos hshort]
    have hne : e.lfn ≠ [] := by
      obtain ⟨_, -, hslots⟩ := (h.long hshort).slots
      rw [hslots]
      simp
    rw [Fat.named, if_neg (by simpa using hne), hspelled hne]
  · rw [Fat.named_fileSize, (Fat.ofRaw_spec hraw).2.2.1]
  · rw [hgroup, Fat.listSlots_live (by simp [h.attr]) hused hlive, hraw]
    rfl

/-- An entry with a short name that is taken for a free slot adds nothing to the listing. -/
theorem length_le {es es' : List FatFileEntry}
    (hfree : e.sfn.name = RawFatFileEntry.default.name ∨ e.sfn.firstByte = fatFreeEntry)
    (hes : Fat.listSlots (e.group ++ post) [] [] = some es)
    (hes' : Fat.listSlots post [] [] = some es') : es.length ≤ es'.length := by
  obtain ⟨spelled, -, hgroup⟩ := h.listSlots_group
  have hattr : ¬isLongNameEntry e.sfn.attr = true := by simp [h.attr]
  rw [hgroup] at hes
  by_cases hname : e.sfn.name = RawFatFileEntry.default.name
  · rw [Fat.listSlots, if_neg hattr, if_pos hname] at hes
    cases hes
    exact Nat.zero_le _
  · rw [Fat.listSlots, if_neg hattr, if_neg hname, if_pos (hfree.resolve_left hname)] at hes
    exact Nat.le_of_eq (Fat.length_listSlots hes hes')

end

end Created

theorem Created.kept_iff (h : Created name e) :
    (e.sfn.name ≠ RawFatFileEntry.default.name ∧ e.sfn.firstByte ≠ fatFreeEntry ∧
      listedName name = name) ↔ NameKept name := by
  by_cases hshort : (utf8 name).length ≤ 11
  · have hname := (h.short hshort).2
    have hfirst : e.sfn.firstByte = fatFreeEntry ↔ (utf8 name).head? = some fatFreeEntry := by
      cases hbytes : utf8 name with
      | nil =>
        rw [hbytes] at hname
        rw [firstByte_ofList (b := LongFileName.space) hname]
        decide
      | cons b bytes =>
        rw [hbytes] at hname
        rw [firstByte_ofList hname, head?_cons, some.injEq]
    rw [NameKept, if_pos hshort, ShortNameKept, listedName, if_pos hshort, hname, ne_eq,
      ofList_eq_default_iff hshort, ne_eq, hfirst]
    exact ⟨fun ⟨h1, h2, h3⟩ => ⟨h3, h2, h1⟩, fun ⟨h1, h2, h3⟩ => ⟨h3, h2, h1⟩⟩
  obtain ⟨padded, hpadded, hname⟩ := (h.long hshort).short
  have hfirst : ∃ b rest, padded = b :: rest ∧ e.sfn.firstByte = b := by
    cases padded with
    | nil => exact absurd rfl (LongFileName.paddedSfn_ne_nil hpadded)
    | cons b rest => exact ⟨b, rest, rfl, firstByte_ofList hname⟩
  obtain ⟨b, rest, rfl, hb⟩ := hfirst
  rw [NameKept, if_neg hshort, LongNameKept, listedName, if_neg hshort, storedName_eq_iff, hpadded,
    bind_some, head?_cons, ne_eq (some b), some.injEq, hb]
  refine ⟨fun ⟨_, h2, h3⟩ => ⟨h3, h2⟩, fun ⟨h1, h2⟩ => ⟨?_, h2, h1⟩⟩
  apply RawFatFileEntry.name_ne_default
  rw [hb]
  exact LongFileName.paddedSfn_forall kept_ne_zero (ne_zero_of_mem_utf8 h1) hpadded b
    mem_cons_self

end FatFileEntry
end Moose.Fat32
