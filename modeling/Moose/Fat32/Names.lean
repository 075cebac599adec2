import Mathlib.Data.List.TakeWhile
import Moose.Fat32.Room

/-!
# Names in directory entries

A name of up to 11 bytes is stored in the short-name slot and read back without the spaces at its
ends, those it had itself included. A longer name is cut into pieces of 13 units, each of which is
read back up to the first zero. In both cases a short name that starts with the mark of deleted
entries is not listed.
-/

set_option autoImplicit false

namespace Moose.Fat32

open List Lib

/-! ## Dates -/

section

variable [Chrono]

/-- The dates that the format has fields for. -/
def NaiveDateTime.Representable (t : NaiveDateTime) : Prop := 1980 ≤ t.1.year ∧ t.1.year ≤ 2107

instance (t : NaiveDateTime) : Decidable t.Representable := inferInstanceAs (Decidable (_ ∧ _))

/-- The fields of a date are read back as a date, with the seconds in units of two. -/
theorem createDateTimeFromFields_fields (t : NaiveDateTime) (hyear : t.Representable) :
    ∃ date time t', createFieldsFromDateTime t = some (date, time) ∧
      createDateTimeFromFields date time = some t' ∧
      t'.1 = { t.1 with second := t.1.second / 2 } := by
  obtain ⟨⟨year, month, day, hour, minute, second⟩, hvalid⟩ := t
  obtain ⟨hlo, hhi⟩ := hyear
  obtain ⟨hmonth, hday⟩ := Chrono.date hvalid
  obtain ⟨hhour, hminute, hsecond⟩ := Chrono.time hvalid
  simp only at hlo hhi hmonth hday hhour hminute hsecond
  obtain ⟨y, hy, rfl⟩ : ∃ y : Nat, y ≤ 127 ∧ year = 1980 + y :=
    ⟨(year - 1980).toNat, by omega, by omega⟩
  have hfield : ((1980 + (y : Int) - 1980) % 256).toNat = y := by omega
  have hdate : (UInt16.ofNat (day + month * 32 + y * 512)).toNat = day + month * 32 + y * 512 :=
    UInt16.toNat_ofNat_of_lt' (by show _ < 2 ^ 16; omega)
  have htime : (UInt16.ofNat (second / 2 + minute * 32 + hour * 2048)).toNat =
      second / 2 + minute * 32 + hour * 2048 :=
    UInt16.toNat_ofNat_of_lt' (by show _ < 2 ^ 16; omega)
  have hfields : (⟨1980 + ((day + month * 32 + y * 512) / 512 : Nat),
      (day + month * 32 + y * 512) / 32 % 16, (day + month * 32 + y * 512) % 32,
      (second / 2 + minute * 32 + hour * 2048) / 2048,
      (second / 2 + minute * 32 + hour * 2048) / 32 % 64,
      (second / 2 + minute * 32 + hour * 2048) % 32⟩ : CivilTime) =
      ⟨1980 + y, month, day, hour, minute, second / 2⟩ := by
    rw [CivilTime.mk.injEq]
    omega
  have hhalf : Chrono.Valid ⟨1980 + y, month, day, hour, minute, second / 2⟩ :=
    Chrono.earlier hvalid (Nat.div_le_self second 2)
  refine ⟨.ofNat (day + month * 32 + y * 512), .ofNat (second / 2 + minute * 32 + hour * 2048),
    ⟨_, hhalf⟩, ?_, ?_, rfl⟩
  · simp only [createFieldsFromDateTime, hfield, if_neg (Nat.not_lt.mpr hy)]
  · simp only [createDateTimeFromFields, hdate, htime, hfields, dif_pos hhalf]

/-- A date and time from 1980 to 2107, written and read back. -/
def NaiveDateTime.stored (t : NaiveDateTime) : Option CivilTime := do
  let (date, time) ← createFieldsFromDateTime t
  let t ← createDateTimeFromFields date time
  some t.1

/-- **Timestamps**: the reader does not double the seconds again. -/
theorem stored_eq_iff (t : NaiveDateTime) (h : t.Representable) :
    t.stored = some { t.1 with second := t.1.second / 2 * 2 } ↔ t.1.second < 2 := by
  obtain ⟨date, time, t', hfields, hread, ht'⟩ := createDateTimeFromFields_fields t h
  simp only [NaiveDateTime.stored, hfields, hread, ht', some_bind,
    Option.some.injEq, CivilTime.mk.injEq, true_and]
  omega

end

theorem stored_eq_iff_leapDay :
    NaiveDateTime.stored ⟨⟨2024, 2, 29, 12, 30, 1⟩, by decide⟩ =
      some ⟨2024, 2, 29, 12, 30, 0⟩ := by
  have hstored := (stored_eq_iff ⟨⟨2024, 2, 29, 12, 30, 1⟩, by decide⟩ (by decide)).mpr (by decide)
  exact hstored

/-- 40 seconds are read back as 20. -/
theorem stored_halves_seconds :
    NaiveDateTime.stored ⟨⟨2024, 2, 29, 12, 30, 40⟩, by decide⟩ =
      some ⟨2024, 2, 29, 12, 30, 20⟩ := by decide

/-! ## Short names -/

theorem trim_append_spaces (text : List Char) (n : Nat) :
    trim (text ++ replicate n ' ') = trim text := by
  have hspaces : ∀ c ∈ replicate n ' ', isWhitespace c = true := by
    intro c hc
    rw [eq_of_mem_replicate hc]
    decide
  rw [trim, trim, dropWhile_append]
  by_cases hempty : (text.dropWhile isWhitespace).isEmpty = true
  · rw [if_pos hempty, isEmpty_iff.mp hempty]
    rw [dropWhile_replicate, if_pos (by decide)]
  rw [if_neg hempty, reverse_append, reverse_replicate,
    dropWhile_append_of_pos hspaces]

theorem ShortName.ofList_val {bytes : List UInt8} (h : bytes.length = 11) :
    (ShortName.ofList bytes).1 = bytes := take_append_of_length h

theorem utf8_replicate_space (n : Nat) :
    utf8 (replicate n ' ') = replicate n LongFileName.space := by
  induction n with
  | zero => rfl
  | succ n ih =>
    rw [replicate_succ, utf8_cons, ih]
    rfl

/-- A short name is read back without the spaces at its ends. -/
theorem fromUtf8Lossy_padded {name : List Char} (h : (utf8 name).length ≤ 11) :
    trim (fromUtf8Lossy (ShortName.ofList
      (utf8 name ++ replicate (11 - (utf8 name).length) LongFileName.space)).1) = trim name := by
  rw [ShortName.ofList_val (by rw [length_append, length_replicate]; omega),
    ← utf8_replicate_space, ← utf8_append, fromUtf8Lossy_utf8, trim_append_spaces]

/-! ## Long names -/

def upToNul (text : List Char) : List Char := text.takeWhile fun c => c.toNat != 0

theorem takeWhile_map_unit {text : List Char} (h : ∀ c ∈ text, c.toNat < 2 ^ 16) (n : Nat) :
    (text.map unit ++ replicate n 0).takeWhile (· != 0) = (upToNul text).map unit := by
  induction text with
  | nil => cases n <;> rfl
  | cons c text ih =>
    obtain ⟨hc, htext⟩ := forall_mem_cons.mp h
    have hunit : unit c = 0 ↔ c.toNat = 0 := by
      rw [← UInt16.toNat_inj, unit, UInt16.toNat_ofNat_of_lt' hc]
      rfl
    rw [map_cons, cons_append, takeWhile_cons, ih htext, upToNul, upToNul, takeWhile_cons]
    by_cases h0 : c.toNat = 0 <;> simp [h0, hunit]

/-- Units with zeros after them are read back up to the first zero. -/
theorem decodeUcs2_map_unit [Ucs2] {text : List Char} (h : ∀ c ∈ text, c.toNat < 2 ^ 16) (n : Nat) :
    decodeUcs2 (text.map unit ++ replicate n 0) = some (upToNul text) := by
  rw [decodeUcs2, takeWhile_map_unit h]
  exact Ucs2.decode_map_unit fun c hc => h c (takeWhile_subset _ hc)

theorem units_ofLongFileName {sequenceNumber checksum : UInt8} {part : List UInt16}
    (h : part.length = 13) :
    (RawFatFileEntry.ofLongFileName sequenceNumber checksum part).units = part := by
  match part, h with
  | [u0, u1, u2, u3, u4, u5, u6, u7, u8, u9, u10, u11, u12], _ =>
    have hlow := u11.toNat_lt
    have hhigh := u12.toNat_lt
    have hsize : (UInt32.ofNat (u11.toNat + u12.toNat * 2 ^ 16)).toNat =
        u11.toNat + u12.toNat * 2 ^ 16 := UInt32.toNat_ofNat_of_lt' (by show _ < 2 ^ 32; omega)
    have h11 : (u11.toNat + u12.toNat * 2 ^ 16) % 2 ^ 16 = u11.toNat := by omega
    have h12 : (u11.toNat + u12.toNat * 2 ^ 16) / 2 ^ 16 = u12.toNat := by omega
    simp only [RawFatFileEntry.units, RawFatFileEntry.ofLongFileName, ShortName.ofList,
      take_succ_cons, take_zero, flatMap_cons, flatMap_nil, toLe,
      cons_append, nil_append, drop_succ_cons, drop_zero, getD_cons_succ,
      getD_cons_zero, RawFatFileEntry.ofLe_bytes16, hsize, h11, h12, UInt16.ofNat_toNat]

/-- The pieces of a name, up to a zero in each. -/
def piece (name : List Char) (i : Nat) : List Char := upToNul ((name.drop (13 * i)).take 13)

/-- The buffer of the units, cut at a multiple of 13. -/
theorem part_eq (units : List UInt16) {i : Nat} (hi : i < units.length / 13 + 1) :
    ((units ++ replicate ((units.length / 13 + 1) * 13 - units.length) 0).drop (13 * i)).take
        13 =
      (units.drop (13 * i)).take 13 ++
        replicate (13 - ((units.drop (13 * i)).take 13).length) 0 := by
  rw [drop_append_of_le_length (by omega), take_append, take_replicate,
    length_take, length_drop]
  congr 2
  omega

theorem reverse_map_range {α : Type} (g : Nat → α) (n : Nat) :
    ((range n).map fun k => g (n - 1 - k)).reverse = (range n).map g := by
  apply ext_getElem
  · simp
  intro i hi hi'
  have hlt : i < n := by simpa using hi'
  simp only [getElem_reverse, getElem_map, getElem_range, length_map,
    length_range]
  congr 1
  omega

namespace FatFileEntry

variable {name : List Char}

/-- What is read back of a long name. -/
def storedName (name : List Char) : List Char :=
  (range (name.length / 13 + 1)).flatMap (piece name)

theorem toNat_ne_zero_of_mem_storedName {c : Char} (h : c ∈ storedName name) : c.toNat ≠ 0 := by
  obtain ⟨i, -, hc⟩ := mem_flatMap.mp h
  simpa using mem_takeWhile_imp hc

theorem storedName_eq (h : ∀ c ∈ name, c.toNat ≠ 0) : storedName name = name := by
  have hpiece : ∀ i, piece name i = (name.drop (13 * i)).take 13 := by
    intro i
    apply takeWhile_eq_self_iff.mpr
    intro c hc
    simpa using h c (mem_of_mem_drop (mem_of_mem_take hc))
  rw [storedName, funext hpiece, flatMap_range_take, take_of_length_le (by omega)]

/-- A long name is read back if it has no zero in it. -/
theorem storedName_eq_iff : storedName name = name ↔ ∀ c ∈ name, c.toNat ≠ 0 :=
  ⟨fun h _ hc => toNat_ne_zero_of_mem_storedName (h.symm ▸ hc), storedName_eq⟩

end FatFileEntry

/-! ## The short name of a long one -/

namespace LongFileName

variable {P : UInt8 → Prop} {text a b : List UInt8} {i : Nat}

theorem splitAt_subset (h : splitAt text i = some (a, b)) : a ⊆ text := by
  rw [splitAt] at h
  split at h
  · cases h
    exact take_subset i text
  · cases h

theorem rsplitDot_subset (h : rsplitDot text = some (a, b)) : a ⊆ text ∧ b ⊆ text := by
  rw [rsplitDot] at h
  split at h
  · cases h
    refine ⟨take_subset _ _, fun x hx => ?_⟩
    exact mem_reverse.mp (takeWhile_subset _ (mem_reverse.mp hx))
  · cases h

/-- Bytes that are kept by the conversion to capitals, and those the code puts in. -/
structure Kept (P : UInt8 → Prop) : Prop where
  upper : ∀ b, P b → P (toAsciiUppercase b)
  tilde : P 0x7E
  one : P 0x31
  dot : P dot
  space : P space

theorem markLossy_forall (hP : Kept P) (htext : ∀ x ∈ text, P x) (h : markLossy text = some a) :
    ∀ x ∈ a, P x := by
  have hmark : ∀ x ∈ mark, P x :=
    forall_mem_cons.mpr ⟨hP.tilde, forall_mem_singleton.mpr hP.one⟩
  rw [markLossy] at h
  intro x hx
  split at h
  · rw [replaceRange] at h
    split at h
    · cases h
      rcases mem_append.mp hx with hx | hx
      · rcases mem_append.mp hx with hx | hx
        · exact htext x (mem_of_mem_take hx)
        · exact hmark x hx
      · exact htext x (mem_of_mem_drop hx)
    · cases h
  split at h
  · obtain ⟨replaced, hreplaced, rfl⟩ := Option.map_eq_some_iff.mp h
    rw [replaceRange] at hreplaced
    split at hreplaced
    · cases hreplaced
      rcases mem_append.mp hx with hx | hx
      · rcases mem_append.mp hx with hx | hx
        · rcases mem_append.mp hx with hx | hx
          · exact htext x (mem_of_mem_take hx)
          rw [mem_singleton.mp hx]
          exact hP.tilde
        · exact htext x (mem_of_mem_drop hx)
      · rw [mem_singleton.mp hx]
        exact hP.one
    · cases hreplaced
  · cases h
    rcases mem_append.mp hx with hx | hx
    · exact htext x hx
    · exact hmark x hx

theorem splitExtension_forall (htext : ∀ x ∈ text, P x) (h : splitExtension text = some (a, b)) :
    (∀ x ∈ a, P x) ∧ ∀ x ∈ b, P x := by
  rw [splitExtension] at h
  split at h
  next f ext hdot =>
    obtain ⟨hf, hext⟩ := rsplitDot_subset hdot
    split at h
    · obtain ⟨⟨parts, _⟩, hsplit, h⟩ := Option.map_eq_some_iff.mp h
      cases h
      exact ⟨fun x hx => htext x (hf hx), fun x hx => htext x (hext (splitAt_subset hsplit hx))⟩
    · cases h
      exact ⟨fun x hx => htext x (hf hx), fun x hx => htext x (hext hx)⟩
  · cases h
    exact ⟨htext, forall_mem_nil _⟩

theorem convertFilename_forall {hidden : Bool} (hP : Kept P) (htext : ∀ x ∈ text, P x)
    (h : convertFilename text hidden = some a) : ∀ x ∈ a, P x := by
  rw [convertFilename] at h
  obtain ⟨filename, hcut, h⟩ := bind_eq_some.mp h
  have hfile : ∀ x ∈ filename.filter (· != dot), P x := by
    intro x hx
    have hx := mem_of_mem_filter hx
    split at hcut
    · obtain ⟨⟨parts, _⟩, hsplit, rfl⟩ := Option.map_eq_some_iff.mp hcut
      exact htext x (splitAt_subset hsplit hx)
    cases hcut
    exact htext x hx
  dsimp only at h
  split at h
  · exact markLossy_forall hP hfile h
  cases h
  exact hfile

/-- The bytes of a short name come from the name or are put in by the code. -/
theorem paddedSfn_forall (hP : Kept P) (htext : ∀ x ∈ text, P x) (h : paddedSfn text = some a) :
    ∀ x ∈ a, P x := by
  rw [paddedSfn, convertToSfn] at h
  have hupper : ∀ x ∈ text.map toAsciiUppercase, P x := by
    intro x hx
    obtain ⟨y, hy, rfl⟩ := mem_map.mp hx
    exact hP.upper y (htext y hy)
  obtain ⟨sfn, hsfn, h⟩ := bind_eq_some.mp h
  obtain ⟨⟨filename, extension⟩, hparts, hsfn⟩ := bind_eq_some.mp hsfn
  obtain ⟨hfile, hext⟩ := splitExtension_forall hupper hparts
  obtain ⟨converted, hconvert, hsfn⟩ := bind_eq_some.mp hsfn
  have hconverted : ∀ x ∈ converted, P x := by
    refine convertFilename_forall hP (fun x hx => ?_) hconvert
    split at hx
    · exact hupper x (mem_of_mem_drop hx)
    · exact hfile x hx
  have hkept : ∀ x ∈ (if (filename.isEmpty && !extension.isEmpty) = true then [] else extension),
      P x := by
    intro x hx
    split at hx
    · cases hx
    · exact hext x hx
  generalize (if (filename.isEmpty && !extension.isEmpty) = true then [] else extension) = kept
    at hkept hsfn
  have hall : ∀ x ∈ sfn, P x := by
    cases hsfn
    intro x hx
    split at hx
    · exact hconverted x hx
    rcases mem_append.mp hx with hx | hx
    · exact hconverted x hx
    rcases mem_cons.mp hx with rfl | hx
    · exact hP.dot
    · exact hkept x hx
  cases h
  intro x hx
  split at hx
  · rcases mem_append.mp hx with hx | hx
    · exact hall x hx
    rw [eq_of_mem_replicate hx]
    exact hP.space
  · exact hall x hx

/-- The short name of a long name is not empty. -/
theorem paddedSfn_ne_nil (h : paddedSfn text = some a) : a ≠ [] := by
  rw [paddedSfn] at h
  obtain ⟨sfn, -, h⟩ := bind_eq_some.mp h
  cases h
  rintro hnil
  split at hnil
  · next hlen =>
    rw [append_eq_nil_iff] at hnil
    rw [hnil.1] at hnil
    exact absurd hnil.2 (by decide)
  · next hlen =>
    rw [hnil] at hlen
    exact hlen (by decide)

end LongFileName

/-! ## The slots of a long name -/

variable [Chrono] [Ucs2]

namespace Fat

variable {slots rest lfn : List RawFatFileEntry} {name : List Char}

/-- Long-name slots put their pieces in front of the name. -/
theorem listSlots_pieces {pieces : List (List Char)}
    (h : List.Forall₂ (fun slot piece =>
      isLongNameEntry slot.attr = true ∧ decodeUcs2 slot.units = some piece) slots pieces) :
    listSlots (slots ++ rest) lfn name =
      listSlots rest (lfn ++ slots) (pieces.reverse.flatten ++ name) := by
  induction h generalizing lfn name with
  | nil => simp
  | cons hslot _ ih =>
    rw [cons_append, listSlots_long hslot.1, hslot.2, Option.bind_some, ih]
    simp

end Fat

namespace FatFileEntry

variable {e e' : FatFileEntry} {name : List Char}

/-- What `set_name` stores of a name that does not fit. -/
structure LongName (name : List Char) (e : FatFileEntry) : Prop where
  units : ∀ c ∈ name, c.toNat < 2 ^ 16
  short : ∃ padded, LongFileName.paddedSfn (utf8 name) = some padded ∧
    e.sfn.name = ShortName.ofList padded
  slots : ∃ checksum, computeLfnChecksum e.sfn.name = some checksum ∧
    e.lfn = (range (name.length / 13 + 1)).map fun k =>
      .ofLongFileName (UInt8.ofNat (k + 1)) checksum
        (((name.map unit ++ replicate ((name.length / 13 + 1) * 13 - name.length) 0).drop
          (13 * (name.length / 13 + 1 - 1 - k))).take 13)

theorem setName_long (hlong : 11 < (utf8 name).length) (h : e.setName name = some e') :
    LongName name e' := by
  rw [setName, if_neg (Nat.not_le.mpr hlong)] at h
  obtain ⟨padded, hpadded, h⟩ := bind_eq_some.mp h
  obtain ⟨checksum, hchecksum, h⟩ := bind_eq_some.mp h
  obtain ⟨units, hunits, h⟩ := bind_eq_some.mp h
  obtain ⟨hsmall, rfl⟩ := Ucs2.encode_eq_some hunits
  cases h
  rw [length_map]
  exact ⟨hsmall, ⟨padded, hpadded, rfl⟩, checksum, hchecksum, rfl⟩

/-- The slots of a long name are read back as its pieces. -/
theorem LongName.pieces (h : LongName name e) :
    List.Forall₂ (fun slot piece =>
      isLongNameEntry slot.attr = true ∧ decodeUcs2 slot.units = some piece) e.lfn
      ((range (name.length / 13 + 1)).map fun k =>
        piece name (name.length / 13 + 1 - 1 - k)) := by
  obtain ⟨checksum, -, hlfn⟩ := h.slots
  rw [hlfn, forall₂_map_left_iff, forall₂_map_right_iff, forall₂_same]
  intro k hk
  refine ⟨(by decide : isLongNameEntry 0x0F = true), ?_⟩
  generalize hi : name.length / 13 + 1 - 1 - k = i
  have hpart := part_eq (name.map unit) (i := i) (by rw [length_map]; omega)
  rw [length_map] at hpart
  have hlen : (((name.map unit).drop (13 * i)).take 13 ++
      replicate (13 - (((name.map unit).drop (13 * i)).take 13).length) 0).length = 13 := by
    have := length_take_le 13 ((name.map unit).drop (13 * i))
    rw [length_append, length_replicate]
    omega
  rw [hpart, units_ofLongFileName hlen, ← map_drop, ← map_take, decodeUcs2_map_unit]
  · rfl
  intro c hc
  exact h.units c (mem_of_mem_drop (mem_of_mem_take hc))

theorem LongName.listSlots_group (h : LongName name e) (post : List RawFatFileEntry) :
    Fat.listSlots (e.group ++ post) [] [] =
      Fat.listSlots (e.sfn :: post) e.lfn (storedName name) := by
  rw [group, append_assoc, singleton_append, Fat.listSlots_pieces h.pieces,
    reverse_map_range, append_nil, nil_append, storedName, flatMap_def]

end FatFileEntry
end Moose.Fat32
