import Moose.Fat32.Volume
import Moose.Lib.Bytes
import Moose.Lib.Utf8

/-!
# Directory entries

`fs/src/fat32/mod.rs` and `lfn.rs`: the slots of 32 bytes a directory consists of, and the entries
they make up. An entry is one short-name slot and, if its name does not fit, long-name slots with
the name in pieces of 13 units, which stand before it on the disk. Both kinds have the same layout.

Names are texts (`List Char`). The code cuts the short name out of the bytes of a name, where a cut
inside a character is a panic.

Two crates do part of the work and are not part of the repository: `ucs2` turns a name into units of
16 bits and back, and `chrono` knows which dates exist. Both are parameters here (`Ucs2`, `Chrono`),
with the laws that the proofs use and no others; `Ucs2.basic` and `Chrono.civil` have these laws.
-/

set_option autoImplicit false

namespace Moose.Fat32

open Lib (toLe ofLe utf8 fromUtf8Lossy)

/-! ## Dates -/

structure CivilTime where
  year : Int
  month : Nat
  day : Nat
  hour : Nat
  minute : Nat
  second : Nat
deriving DecidableEq

/-- The crate `chrono`, as far as the proofs depend on it. A setter of a date returns `None` if the
fields it would give are not `Valid`. -/
class Chrono where
  Valid : CivilTime → Prop
  decidable : DecidablePred Valid
  epoch : Valid ⟨1970, 1, 1, 0, 0, 0⟩
  date {t : CivilTime} : Valid t → t.month ≤ 12 ∧ t.day ≤ 31
  time {t : CivilTime} : Valid t → t.hour < 24 ∧ t.minute < 60 ∧ t.second < 60
  /-- Whether a date exists does not depend on the second of the minute. -/
  earlier {t : CivilTime} {s : Nat} : Valid t → s ≤ t.second → Valid { t with second := s }

section

variable [Chrono]

instance Chrono.decidableValid (t : CivilTime) : Decidable (Chrono.Valid t) := Chrono.decidable t

/-- A date and a time of day that exist. -/
abbrev NaiveDateTime := { t : CivilTime // Chrono.Valid t }

def NaiveDateTime.default : NaiveDateTime := ⟨⟨1970, 1, 1, 0, 0, 0⟩, Chrono.epoch⟩

/-- Fields that are no date are a panic. -/
def createDateTimeFromFields (date time : UInt16) : Option NaiveDateTime :=
  let t : CivilTime :=
    { year := 1980 + (date.toNat / 512 : Nat)
      month := date.toNat / 32 % 16
      day := date.toNat % 32
      hour := time.toNat / 2048
      minute := time.toNat / 32 % 64
      second := time.toNat % 32 }
  if h : Chrono.Valid t then some ⟨t, h⟩ else none

def createFieldsFromDateTime (t : NaiveDateTime) : Option (UInt16 × UInt16) :=
  let year := ((t.1.year - 1980) % 256).toNat
  -- seven bits are for the year
  if 127 < year then none
  else
    some (UInt16.ofNat (t.1.day + t.1.month * 32 + year * 512),
      UInt16.ofNat (t.1.second / 2 + t.1.minute * 32 + t.1.hour * 2048))

/-! ## Attributes -/

/-- READ_ONLY 1, HIDDEN 2, SYSTEM 4, VOLUME_ID 8, DIRECTORY 16, ARCHIVE 32. -/
abbrev FatFileAttributes := UInt8

def isLongNameEntry (attr : FatFileAttributes) : Bool := attr &&& 0x0F == 0x0F
def isDirectory (attr : FatFileAttributes) : Bool := attr &&& 0x10 == 0x10

def fromBits (attr : UInt8) : Option FatFileAttributes :=
  if attr &&& 0xC0 == 0 then some attr else none

/-- From the attributes of the interface: ARCHIVE 1, HIDDEN 2, READ_ONLY 4, SYSTEM_FILE 8,
DIRECTORY 16. -/
def fromAttributes (attributes : UInt8) : FatFileAttributes :=
  (if attributes &&& 1 == 1 then 0x20 else 0) ||| (if attributes &&& 2 == 2 then 0x02 else 0) |||
    (if attributes &&& 4 == 4 then 0x01 else 0) ||| (if attributes &&& 8 == 8 then 0x04 else 0) |||
    (if attributes &&& 16 == 16 then 0x10 else 0)

/-! ## Slots -/

abbrev ShortName := { bytes : List UInt8 // bytes.length = 11 }

def ShortName.ofList (bytes : List UInt8) : ShortName :=
  ⟨(bytes ++ List.replicate 11 0).take 11, by simp⟩

def fatFreeEntry : UInt8 := 0xE5

structure RawFatFileEntry where
  name : ShortName
  attr : UInt8
  ntRes : UInt8
  creationTimeMilliseconds : UInt8
  creationTime : UInt16
  creationDate : UInt16
  lastAccessDate : UInt16
  firstClusterHigh : UInt16
  lastWriteTime : UInt16
  lastWriteDate : UInt16
  firstClusterLow : UInt16
  fileSize : UInt32
deriving DecidableEq

namespace RawFatFileEntry

def default : RawFatFileEntry where
  name := ⟨List.replicate 11 0, rfl⟩
  attr := 0
  ntRes := 0
  creationTimeMilliseconds := 0
  creationTime := 0
  creationDate := 0
  lastAccessDate := 0
  firstClusterHigh := 0
  lastWriteTime := 0
  lastWriteDate := 0
  firstClusterLow := 0
  fileSize := 0

/-- What removing an entry leaves in each of its slots. -/
def removed : RawFatFileEntry :=
  { default with name := ⟨fatFreeEntry :: List.replicate 10 0, rfl⟩ }

def firstCluster (e : RawFatFileEntry) : Nat :=
  e.firstClusterHigh.toNat * 2 ^ 16 + e.firstClusterLow.toNat

def firstByte (e : RawFatFileEntry) : UInt8 := e.name.1.headD 0

def encode (e : RawFatFileEntry) : List UInt8 :=
  e.name.1 ++ [e.attr, e.ntRes, e.creationTimeMilliseconds] ++ toLe 2 e.creationTime.toNat ++
    toLe 2 e.creationDate.toNat ++ toLe 2 e.lastAccessDate.toNat ++
    toLe 2 e.firstClusterHigh.toNat ++ toLe 2 e.lastWriteTime.toNat ++
    toLe 2 e.lastWriteDate.toNat ++ toLe 2 e.firstClusterLow.toNat ++ toLe 4 e.fileSize.toNat

def decode (bytes : List UInt8) : RawFatFileEntry :=
  let number (offset n : Nat) : Nat := ofLe ((bytes.drop offset).take n)
  { name := .ofList bytes
    attr := bytes.getD 11 0
    ntRes := bytes.getD 12 0
    creationTimeMilliseconds := bytes.getD 13 0
    creationTime := .ofNat (number 14 2)
    creationDate := .ofNat (number 16 2)
    lastAccessDate := .ofNat (number 18 2)
    firstClusterHigh := .ofNat (number 20 2)
    lastWriteTime := .ofNat (number 22 2)
    lastWriteDate := .ofNat (number 24 2)
    firstClusterLow := .ofNat (number 26 2)
    fileSize := .ofNat (number 28 4) }

/-- A long-name slot in the layout of the short-name slots: the sequence number and five units where
the name is, the checksum after the reserved byte, six units from the creation time to the date of
the last write, and two where the size is. -/
def ofLongFileName (sequenceNumber checksum : UInt8) (units : List UInt16) : RawFatFileEntry where
  name := .ofList (sequenceNumber :: (units.take 5).flatMap fun u => toLe 2 u.toNat)
  attr := 0x0F
  ntRes := 0
  creationTimeMilliseconds := checksum
  creationTime := units.getD 5 0
  creationDate := units.getD 6 0
  lastAccessDate := units.getD 7 0
  firstClusterHigh := units.getD 8 0
  lastWriteTime := units.getD 9 0
  lastWriteDate := units.getD 10 0
  firstClusterLow := 0
  fileSize := .ofNat ((units.getD 11 0).toNat + (units.getD 12 0).toNat * 2 ^ 16)

/-- `name1`, `name2` and `name3` of a long-name slot. -/
def units (e : RawFatFileEntry) : List UInt16 :=
  [UInt16.ofNat (ofLe ((e.name.1.drop 1).take 2)), UInt16.ofNat (ofLe ((e.name.1.drop 3).take 2)),
    UInt16.ofNat (ofLe ((e.name.1.drop 5).take 2)), UInt16.ofNat (ofLe ((e.name.1.drop 7).take 2)),
    UInt16.ofNat (ofLe ((e.name.1.drop 9).take 2)), e.creationTime, e.creationDate,
    e.lastAccessDate, e.firstClusterHigh, e.lastWriteTime, e.lastWriteDate,
    UInt16.ofNat (e.fileSize.toNat % 2 ^ 16), UInt16.ofNat (e.fileSize.toNat / 2 ^ 16)]

end RawFatFileEntry

/-! ## Names -/

/-- The unit of a character that 16 bits can hold. -/
def unit (c : Char) : UInt16 := UInt16.ofNat c.toNat

/-- The crate `ucs2`, as far as the proofs depend on it. What is encoded has one unit for every
character, and such units are decoded to the text they came from. -/
class Ucs2 where
  encode : List Char → Option (List UInt16)
  decode : List UInt16 → Option (List Char)
  encode_eq_some {name : List Char} {units : List UInt16} : encode name = some units →
    (∀ c ∈ name, c.toNat < 2 ^ 16) ∧ units = name.map unit
  decode_map_unit {text : List Char} : (∀ c ∈ text, c.toNat < 2 ^ 16) →
    decode (text.map unit) = some text

variable [Ucs2]

/-- The text of a long-name slot. It ends at the first zero, and only what stands before that is
checked to be UTF-8. -/
def decodeUcs2 (units : List UInt16) : Option (List Char) :=
  Ucs2.decode (units.takeWhile (· != 0))

/-- The characters with the property White_Space. -/
def isWhitespace (c : Char) : Bool :=
  (0x09 ≤ c.toNat && c.toNat ≤ 0x0D) || c.toNat == 0x20 || c.toNat == 0x85 || c.toNat == 0xA0 ||
    c.toNat == 0x1680 || (0x2000 ≤ c.toNat && c.toNat ≤ 0x200A) || c.toNat == 0x2028 ||
    c.toNat == 0x2029 || c.toNat == 0x202F || c.toNat == 0x205F || c.toNat == 0x3000

def trim (text : List Char) : List Char :=
  (((text.dropWhile isWhitespace).reverse).dropWhile isWhitespace).reverse

/-- The sum is wrapping, but the sum of the shifted checksum and the byte is not. -/
def lfnChecksumStep (checksum : Nat) (byte : UInt8) : Option Nat := do
  let sum ← checked 8 (checksum / 2 + byte.toNat)
  some (((if checksum % 2 = 1 then 0x80 else 0) + sum) % 2 ^ 8)

def computeLfnChecksum (name : ShortName) : Option UInt8 :=
  (name.1.foldlM lfnChecksumStep 0).map UInt8.ofNat

namespace LongFileName

def dot : UInt8 := 0x2E
def space : UInt8 := 0x20
def mark : List UInt8 := [0x7E, 0x31]

def toAsciiUppercase (b : UInt8) : UInt8 := if 0x61 ≤ b ∧ b ≤ 0x7A then b - 0x20 else b

/-- A text in UTF-8 can be cut in front of any byte that does not continue a character. -/
def isCharBoundary (text : List UInt8) (i : Nat) : Bool :=
  i == text.length || (text[i]?).any fun b => b < 0x80 || 0xC0 ≤ b

def splitAt (text : List UInt8) (i : Nat) : Option (List UInt8 × List UInt8) :=
  if isCharBoundary text i then some (text.take i, text.drop i) else none

def replaceRange (text : List UInt8) (start stop : Nat) (by' : List UInt8) : Option (List UInt8) :=
  if isCharBoundary text start && isCharBoundary text stop then
    some (text.take start ++ by' ++ text.drop stop)
  else none

/-- What is before and after the last dot. -/
def rsplitDot (text : List UInt8) : Option (List UInt8 × List UInt8) :=
  if dot ∈ text then
    let extension := (text.reverse.takeWhile (· != dot)).reverse
    some (text.take (text.length - extension.length - 1), extension)
  else none

/-- The name with `~1`, if anything was lost. -/
def markLossy (filename : List UInt8) : Option (List UInt8) :=
  if 8 < filename.length then replaceRange filename 6 8 mark
  else if filename.length = 7 then (replaceRange filename 6 7 [0x7E]).map (· ++ [0x31])
  else some (filename ++ mark)

/-- The extension is cut to three bytes. -/
def splitExtension (lfn : List UInt8) : Option (List UInt8 × List UInt8) :=
  match rsplitDot lfn with
  | some (filename, extension) =>
    if 3 < extension.length then (splitAt extension 3).map fun parts => (filename, parts.1)
    else some (filename, extension)
  | none => some (lfn, [])

/-- The name is cut to seven bytes and loses its dots. -/
def convertFilename (filename : List UInt8) (hidden : Bool) : Option (List UInt8) :=
  let long := decide (8 < filename.length)
  (if long then (splitAt filename 7).map (·.1) else some filename).bind fun filename =>
    let dotted := decide (dot ∈ filename)
    let filename := filename.filter (· != dot)
    if hidden || long || dotted then markLossy filename else some filename

def convertToSfn (lfn : List UInt8) : Option (List UInt8) := do
  let lfn := lfn.map toAsciiUppercase
  let (filename, extension) ← splitExtension lfn
  -- a dot at the start is no extension
  let hidden := filename.isEmpty && !extension.isEmpty
  let extension := if hidden then [] else extension
  let filename ← convertFilename (if hidden then lfn.drop 1 else filename) hidden
  some (if extension.isEmpty then filename else filename ++ dot :: extension)

def paddedSfn (lfn : List UInt8) : Option (List UInt8) := do
  let sfn ← convertToSfn lfn
  some (if sfn.length ≠ 11 then sfn ++ List.replicate (12 - sfn.length) space else sfn)

end LongFileName

/-! ## Entries -/

/-- `raw` is the short-name slot `sfn` and the long-name slots `lfn` after it. -/
structure FatFileEntry where
  name : List Char
  attr : FatFileAttributes
  creationDateTime : NaiveDateTime
  lastAccessDateTime : NaiveDateTime
  lastWriteDateTime : NaiveDateTime
  fileSize : Nat
  sfn : RawFatFileEntry
  lfn : List RawFatFileEntry
deriving DecidableEq

namespace FatFileEntry

/-- With the slot that `create_entry` and `get_by_path` push. -/
def default : FatFileEntry where
  name := []
  attr := 0
  creationDateTime := .default
  lastAccessDateTime := .default
  lastWriteDateTime := .default
  fileSize := 0
  sfn := .default
  lfn := []

/-- The number of slots, `raw.len()`. -/
def slots (e : FatFileEntry) : Nat := e.lfn.length + 1

def setName (e : FatFileEntry) (name : List Char) : Option FatFileEntry :=
  let bytes := utf8 name
  if bytes.length ≤ 11 then
    let short := ShortName.ofList (bytes ++ List.replicate (11 - bytes.length) LongFileName.space)
    some { e with name := name, sfn := { e.sfn with name := short }, lfn := [] }
  else do
    let padded ← LongFileName.paddedSfn bytes
    let short := ShortName.ofList padded
    let checksum ← computeLfnChecksum short
    let units ← Ucs2.encode name
    let pieces := units.length / 13 + 1
    let buffer := units ++ List.replicate (pieces * 13 - units.length) 0
    -- the last piece comes first and gets the number 1
    let slot (k : Nat) : RawFatFileEntry :=
      .ofLongFileName (UInt8.ofNat (k + 1)) checksum ((buffer.drop (13 * (pieces - 1 - k))).take 13)
    some { e with
      name := name
      sfn := { e.sfn with name := short }
      lfn := (List.range pieces).map slot }

def setAttr (e : FatFileEntry) (attr : FatFileAttributes) : FatFileEntry :=
  { e with attr := attr, sfn := { e.sfn with attr := attr } }

def setCreationDateTime (e : FatFileEntry) (t : NaiveDateTime) : Option FatFileEntry := do
  let (date, time) ← createFieldsFromDateTime t
  some { e with
    creationDateTime := t
    sfn := { e.sfn with creationDate := date, creationTime := time } }

def setLastAccessDateTime (e : FatFileEntry) (t : NaiveDateTime) : Option FatFileEntry := do
  let (date, _) ← createFieldsFromDateTime t
  some { e with lastAccessDateTime := t, sfn := { e.sfn with lastAccessDate := date } }

def setLastWriteDateTime (e : FatFileEntry) (t : NaiveDateTime) : Option FatFileEntry := do
  let (date, time) ← createFieldsFromDateTime t
  some { e with
    lastWriteDateTime := t
    sfn := { e.sfn with lastWriteDate := date, lastWriteTime := time } }

/-- `From<RawFatFileEntry>`: there is no time of the last access, that of the last write is taken.
-/
def ofRaw (slot : RawFatFileEntry) : Option FatFileEntry := do
  let creation ← createDateTimeFromFields slot.creationDate slot.creationTime
  let access ← createDateTimeFromFields slot.lastAccessDate slot.lastWriteTime
  let write ← createDateTimeFromFields slot.lastWriteDate slot.lastWriteTime
  let attr ← fromBits slot.attr
  some
    { name := trim (fromUtf8Lossy slot.name.1)
      attr := attr
      creationDateTime := creation
      lastAccessDateTime := access
      lastWriteDateTime := write
      fileSize := slot.fileSize.toNat
      sfn := slot
      lfn := [] }

end FatFileEntry
end

/-! ## The parameters, to run the model with -/

def daysInMonth (year : Int) (month : Nat) : Nat :=
  if month = 2 then
    if year % 4 = 0 ∧ (year % 100 ≠ 0 ∨ year % 400 = 0) then 29 else 28
  else if month = 4 ∨ month = 6 ∨ month = 9 ∨ month = 11 then 30
  else 31

theorem daysInMonth_le (year : Int) (month : Nat) : daysInMonth year month ≤ 31 := by
  rw [daysInMonth]
  split <;> split <;> decide

/-- The Gregorian calendar, without leap seconds. -/
def CivilTime.Exists (t : CivilTime) : Prop :=
  1 ≤ t.month ∧ t.month ≤ 12 ∧ 1 ≤ t.day ∧ t.day ≤ daysInMonth t.year t.month ∧ t.hour < 24 ∧
    t.minute < 60 ∧ t.second < 60

instance Chrono.civil : Chrono where
  Valid := CivilTime.Exists
  decidable _ := inferInstanceAs (Decidable (_ ∧ _ ∧ _ ∧ _ ∧ _ ∧ _ ∧ _))
  epoch := by unfold CivilTime.Exists; decide
  date := fun ⟨_, hmonth, _, hday, _⟩ => ⟨hmonth, hday.trans (daysInMonth_le ..)⟩
  time := fun ⟨_, _, _, _, htime⟩ => htime
  earlier := fun ⟨hm1, hm, hd1, hd, hh, hmin, hs⟩ hle =>
    ⟨hm1, hm, hd1, hd, hh, hmin, hle.trans_lt hs⟩

theorem ofNat_toNat_unit {c : Char} (hc : c.toNat < 2 ^ 16) : Char.ofNat (unit c).toNat = c := by
  rw [unit, UInt16.toNat_ofNat_of_lt' hc, Char.ofNat_toNat]

theorem not_surrogate_unit {c : Char} (hc : c.toNat < 2 ^ 16) :
    ¬(0xD800 ≤ (unit c).toNat ∧ (unit c).toNat < 0xE000) := by
  rw [unit, UInt16.toNat_ofNat_of_lt' hc]
  rcases c.valid with hlt | ⟨hgt, -⟩
  · have : c.toNat < 0xD800 := hlt
    omega
  · have : 0xDFFF < c.toNat := hgt
    omega

/-- The characters of the basic plane are their own units; no character has a surrogate for one. -/
instance Ucs2.basic : Ucs2 where
  encode name := if name.all (·.toNat < 2 ^ 16) then some (name.map unit) else none
  decode units := units.mapM fun u =>
    if 0xD800 ≤ u.toNat ∧ u.toNat < 0xE000 then none else some (Char.ofNat u.toNat)
  encode_eq_some h := by
    split at h
    next hall => exact ⟨by simpa using hall, (Option.some.inj h).symm⟩
    · cases h
  decode_map_unit {text} h := by
    induction text with
    | nil => rfl
    | cons c text ih =>
      obtain ⟨hc, htext⟩ := List.forall_mem_cons.mp h
      rw [List.map_cons, List.mapM_cons, if_neg (not_surrogate_unit hc), ih htext,
        ofNat_toNat_unit hc]
      rfl

end Moose.Fat32
