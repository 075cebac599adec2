import Moose.Lib.Run
import Moose.Lib.Utf8

/-!
# Domain names on the wire

`DnsQuestion::to_bytes` writes a name as a list of labels, `parse_name` reads one that may be
compressed. The loop of `parse_name` is a step on its local variables and a number of rounds. A byte
outside the message is a panic: the outer `none`. The inner `none` is the one the code returns.

A round either moves the cursor on or uses up one of the five jumps, which bounds the rounds.
-/

set_option autoImplicit false

namespace Moose.Net

open List Lib

inductive DnsRecordType where
  | a | ns | cname | mx | aaaa

def DnsRecordType.code : DnsRecordType → Nat
  | .a => 1
  | .ns => 2
  | .cname => 5
  | .mx => 15
  | .aaaa => 28

inductive DnsClassCode where
  | inet

def DnsClassCode.code : DnsClassCode → Nat
  | .inet => 1

structure DnsQuestion where
  domainName : List Char
  recordType : DnsRecordType
  classCode : DnsClassCode

namespace Dns

def toBeBytes16 (n : Nat) : List UInt8 := [.ofNat (n / 256), .ofNat n]

def encodeLabel (label : List Char) : List UInt8 := .ofNat (utf8 label).length :: utf8 label

def encodeLabels (labels : List (List Char)) : List UInt8 := labels.flatMap encodeLabel

end Dns

open Dns

/-- The assertion fails on a label of 64 bytes or more. -/
def DnsQuestion.toBytes (q : DnsQuestion) : Option (List UInt8) :=
  let labels := q.domainName.splitOn '.'
  if labels.all fun label => (utf8 label).length < 64 then
    some (encodeLabels labels ++ 0 ::
      (toBeBytes16 q.recordType.code ++ toBeBytes16 q.classCode.code))
  else none

/-- The local variables of `parse_name`. -/
structure NameParser where
  labels : List (List Char) := []
  cursor : Nat
  jumped : Bool := false
  endCursor : Option Nat := none
  jumps : Nat := 0

inductive NameStep where
  | next (s : NameParser)
  | done (s : NameParser)
  | fail

namespace NameParser

def slice (payload : List UInt8) (lo hi : Nat) : Option (List UInt8) :=
  if lo ≤ hi ∧ hi ≤ payload.length then some ((payload.drop lo).take (hi - lo)) else none

def step (payload : List UInt8) (s : NameParser) : Option NameStep :=
  if payload.length ≤ s.cursor then some (.done s)
  else do
    let byte ← payload[s.cursor]?
    if byte = 0 then some (.done { s with cursor := s.cursor + 1 })
    else if byte &&& 0xC0 = 0xC0 then
      if payload.length ≤ s.cursor + 1 then some .fail
      else do
        let low ← payload[s.cursor + 1]?
        if 5 < s.jumps + 1 then some .fail
        else some (.next { s with
          cursor := (byte &&& 0x3F).toNat <<< 8 ||| low.toNat
          endCursor := if s.jumped then s.endCursor else some (s.cursor + 2)
          jumped := true
          jumps := s.jumps + 1 })
    else
      let start := s.cursor + 1
      if payload.length < start + byte.toNat then some .fail
      else do
        let bytes ← slice payload start (start + byte.toNat)
        match fromUtf8 bytes with
        | none => some .fail
        | some label => some (.next { s with
            labels := s.labels ++ [label], cursor := start + byte.toNat })

def loop (payload : List UInt8) : Nat → NameParser → Option (Option NameParser)
  | 0, _ => none
  | rounds + 1, s => do
    match ← s.step payload with
    | .next s => loop payload rounds s
    | .done s => some (some s)
    | .fail => some none

/-- The rounds that are left at most. -/
def measure (payload : List UInt8) (s : NameParser) : Nat :=
  (5 - s.jumps) * (payload.length + 1) + (payload.length - s.cursor)

end NameParser

def parseName (payload : List UInt8) (offset : Nat) : Option (Option (List Char × Nat)) := do
  match ← NameParser.loop payload (6 * (payload.length + 1)) { cursor := offset } with
  | none => some none
  | some s => some (some (['.'].intercalate s.labels, s.endCursor.getD s.cursor))

namespace NameParser

variable {s : NameParser}

/-! ## Every message is read -/

/-- A round returns. A jump gives up a whole pass over the message, a label moves the cursor. -/
theorem step_returns (payload : List UInt8) (s : NameParser) :
    ∃ r, s.step payload = some r ∧ ∀ s', r = .next s' → s'.measure payload < s.measure payload := by
  unfold step
  split
  · exact ⟨_, rfl, nofun⟩
  rename_i hcursor
  rw [getElem?_eq_getElem (Nat.not_le.mp hcursor), Option.bind_eq_bind, Option.bind_some]
  split
  · exact ⟨_, rfl, nofun⟩
  split
  · split
    · exact ⟨_, rfl, nofun⟩
    rename_i hnext
    rw [getElem?_eq_getElem (Nat.not_le.mp hnext), Option.bind_some]
    split
    · exact ⟨_, rfl, nofun⟩
    refine ⟨_, rfl, fun s' hs => ?_⟩
    cases hs
    have hpass : 5 - s.jumps = 5 - (s.jumps + 1) + 1 := by omega
    simp only [measure]
    rw [hpass, Nat.add_mul]
    omega
  · dsimp only
    split
    · exact ⟨_, rfl, nofun⟩
    rename_i hlen
    rw [slice, if_pos ⟨Nat.le_add_right _ _, Nat.not_lt.mp hlen⟩, some_bind]
    split
    · exact ⟨_, rfl, nofun⟩
    refine ⟨_, rfl, fun s' hs => ?_⟩
    cases hs
    simp only [measure]
    omega

theorem loop_returns (payload : List UInt8) (rounds : Nat) (s : NameParser)
    (h : s.measure payload < rounds) : ∃ r, loop payload rounds s = some r := by
  induction rounds generalizing s with
  | zero => exact absurd h (Nat.not_lt_zero _)
  | succ rounds ih =>
    obtain ⟨r, hstep, hless⟩ := step_returns payload s
    rw [loop, hstep]
    cases r with
    | next s' => exact ih s' (Nat.lt_of_lt_of_le (hless s' rfl) (Nat.le_of_lt_succ h))
    | done s' => exact ⟨_, rfl⟩
    | fail => exact ⟨_, rfl⟩

/-! ## A name that was written is read back -/

/-- A length below 64 is neither the end nor a pointer. -/
theorem length_byte : ∀ n < 64, 0 < n →
    UInt8.ofNat n ≠ 0 ∧ UInt8.ofNat n &&& 0xC0 ≠ 0xC0 ∧ (UInt8.ofNat n).toNat = n := by decide

theorem step_label (front rest : List UInt8) (label : List Char) (hne : label ≠ [])
    (hlen : (utf8 label).length < 64) (hs : s.cursor = front.length) :
    s.step (front ++ (encodeLabel label ++ rest)) = some (.next { s with
      labels := s.labels ++ [label], cursor := front.length + (encodeLabel label).length }) := by
  have hpos : 0 < (utf8 label).length := by
    obtain ⟨c, label, rfl⟩ := exists_cons_of_ne_nil hne
    rw [utf8_cons, length_append]
    exact Nat.lt_of_lt_of_le (length_pos_of_ne_nil (String.utf8EncodeChar_ne_nil (c := c)))
      (Nat.le_add_right _ _)
  obtain ⟨hzero, hpointer, hbyte⟩ := length_byte _ hlen hpos
  have htotal : (front ++ (encodeLabel label ++ rest)).length =
      front.length + ((utf8 label).length + 1 + rest.length) := by
    simp only [encodeLabel, length_append, length_cons]
  have hget : (front ++ (encodeLabel label ++ rest))[s.cursor]? =
      some (.ofNat (utf8 label).length) := by
    rw [hs, getElem?_append_right (Nat.le_refl _), Nat.sub_self]
    rfl
  have hslice : slice (front ++ (encodeLabel label ++ rest)) (s.cursor + 1)
      (s.cursor + 1 + (utf8 label).length) = some (utf8 label) := by
    rw [slice, if_pos ⟨Nat.le_add_right _ _, by omega⟩, Nat.add_sub_cancel_left, encodeLabel,
      cons_append, append_cons front, drop_left' (by simp [hs]), take_left]
  unfold step
  rw [if_neg (by omega), hget, some_bind, if_neg hzero, if_neg hpointer]
  rw [hbyte, if_neg (by omega), hslice, some_bind, fromUtf8_utf8]
  simp [encodeLabel, hs, Nat.add_assoc, Nat.add_comm 1]

/-- The labels are collected up to the zero. -/
theorem loop_labels (labels : List (List Char))
    (hlabels : ∀ label ∈ labels, label ≠ [] ∧ (utf8 label).length < 64) (front rest : List UInt8)
    (s : NameParser) (hs : s.cursor = front.length) (rounds : Nat)
    (hrounds : labels.length < rounds) :
    loop (front ++ (encodeLabels labels ++ 0 :: rest)) rounds s = some (some { s with
      labels := s.labels ++ labels
      cursor := front.length + (encodeLabels labels).length + 1 }) := by
  induction labels generalizing front s rounds with
  | nil =>
    obtain ⟨rounds, rfl⟩ := Nat.exists_eq_add_one_of_ne_zero (Nat.ne_of_gt hrounds)
    have hzero : s.step (front ++ (encodeLabels [] ++ 0 :: rest)) =
        some (.done { s with cursor := s.cursor + 1 }) := by
      have hget : (front ++ (encodeLabels [] ++ 0 :: rest))[s.cursor]? = some 0 := by
        rw [hs, getElem?_append_right (Nat.le_refl _), Nat.sub_self]
        rfl
      rw [step, if_neg (by simp [encodeLabels, hs]), hget]
      rfl
    rw [loop, hzero, hs, append_nil]
    rfl
  | cons label labels ih =>
    obtain ⟨hne, hlen⟩ := hlabels label mem_cons_self
    obtain ⟨rounds, rfl⟩ :=
      Nat.exists_eq_add_one_of_ne_zero (Nat.ne_of_gt (Nat.zero_lt_of_lt hrounds))
    have hbytes : encodeLabels (label :: labels) = encodeLabel label ++ encodeLabels labels :=
      flatMap_cons
    have hstep := step_label front (encodeLabels labels ++ 0 :: rest) label hne hlen hs
    have hrest := ih (fun l hl => hlabels l (mem_cons_of_mem _ hl)) (front ++ encodeLabel label)
      { s with labels := s.labels ++ [label], cursor := front.length + (encodeLabel label).length }
      length_append.symm rounds (Nat.lt_of_succ_lt_succ hrounds)
    rw [hbytes, append_assoc, loop, hstep]
    simp only [append_assoc, length_append, singleton_append, Nat.add_assoc,
      some_bind] at hrest ⊢
    exact hrest

end NameParser

theorem length_le_encodeLabels (labels : List (List Char)) :
    labels.length ≤ (encodeLabels labels).length := by
  induction labels with
  | nil => exact Nat.le_refl 0
  | cons label labels ih =>
    simp only [encodeLabels, flatMap_cons, encodeLabel, length_append, length_cons]
      at ih ⊢
    omega

/-- The labels that can be written: none is empty or longer than 63 bytes. -/
def DnsQuestion.Encodable (q : DnsQuestion) : Prop :=
  ∀ label ∈ q.domainName.splitOn '.', label ≠ [] ∧ (utf8 label).length < 64

instance (q : DnsQuestion) : Decidable q.Encodable :=
  inferInstanceAs (Decidable (∀ label ∈ q.domainName.splitOn '.', _ ∧ _))

/-- **The name codec.** `parse_name` returns for any bytes and any offset, without a read outside
the message; and it reads back what `to_bytes` wrote, wherever in a message that stands, up to the
zero in front of the type and the class. -/
theorem parseName_codec :
    (∀ (payload : List UInt8) (offset : Nat), ∃ r, parseName payload offset = some r) ∧
      ∀ (q : DnsQuestion) (front rest : List UInt8), q.Encodable →
        ∃ bytes last, q.toBytes = some bytes ∧ bytes[last]? = some 0 ∧ bytes.length = last + 5 ∧
          parseName (front ++ (bytes ++ rest)) front.length =
            some (some (q.domainName, front.length + last + 1)) := by
  constructor
  · intro payload offset
    have hrounds : NameParser.measure payload { cursor := offset } < 6 * (payload.length + 1) := by
      simp only [NameParser.measure]
      omega
    obtain ⟨r, hr⟩ := NameParser.loop_returns payload _ _ hrounds
    rw [parseName, hr]
    cases r with
    | none => exact ⟨_, rfl⟩
    | some s => exact ⟨_, rfl⟩
  intro q front rest hq
  generalize htail : toBeBytes16 q.recordType.code ++ toBeBytes16 q.classCode.code = tail
  have hlength : tail.length = 4 := by
    rw [← htail]
    rfl
  refine ⟨encodeLabels (q.domainName.splitOn '.') ++ 0 :: tail,
    (encodeLabels (q.domainName.splitOn '.')).length, ?_, ?_, ?_, ?_⟩
  · rw [DnsQuestion.toBytes, htail, if_pos]
    rw [all_eq_true]
    exact fun label hlabel => decide_eq_true (hq label hlabel).2
  · rw [getElem?_append_right (Nat.le_refl _), Nat.sub_self]
    rfl
  · rw [length_append, length_cons, hlength]
  have hrounds := length_le_encodeLabels (q.domainName.splitOn '.')
  have hloop := NameParser.loop_labels (q.domainName.splitOn '.') hq front (tail ++ rest)
    { cursor := front.length } rfl
  rw [parseName, append_assoc, cons_append, hloop]
  · simp [some_bind, intercalate_splitOn]
  simp only [length_append, length_cons]
  omega

/-- A question behind the twelve bytes of the message header. -/
theorem parseName_codec_question : ∃ bytes last,
    DnsQuestion.toBytes ⟨"www.moose.org".toList, .a, .inet⟩ = some bytes ∧
      parseName (replicate 12 0 ++ (bytes ++ [])) 12 =
        some (some ("www.moose.org".toList, 12 + last + 1)) := by
  obtain ⟨bytes, last, hbytes, -, -, hname⟩ :=
    parseName_codec.2 ⟨"www.moose.org".toList, .a, .inet⟩ (replicate 12 0) [] (by decide)
  exact ⟨bytes, last, hbytes, hname⟩

end Moose.Net
