import Mathlib.Data.List.Basic

/-!
# UTF-8

Text as characters and as bytes. `fromUtf8Lossy` reads any bytes: what is not the encoding of a
character is replaced, one replacement for each longest piece that could have begun one. Text that
was encoded is read back as it was.
-/

set_option autoImplicit false

namespace Moose.Lib

open List Option

def utf8 (text : List Char) : List UInt8 := text.flatMap String.utf8EncodeChar

theorem utf8_cons (c : Char) (text : List Char) :
    utf8 (c :: text) = String.utf8EncodeChar c ++ utf8 text := flatMap_cons

theorem utf8_append (s t : List Char) : utf8 (s ++ t) = utf8 s ++ utf8 t := flatMap_append

namespace Utf8

/-- What a first byte says: the number of bytes that follow, its share of the character, and the
bounds of the second byte. -/
def lead (x : Nat) : Option (Nat × Nat × Nat × Nat) :=
  if x < 0xC2 then none
  else if x < 0xE0 then some (1, x - 0xC0, 0x80, 0xC0)
  else if x < 0xF0 then
    some (2, x - 0xE0, if x = 0xE0 then 0xA0 else 0x80, if x = 0xED then 0xA0 else 0xC0)
  else if x < 0xF5 then
    some (3, x - 0xF0, if x = 0xF0 then 0x90 else 0x80, if x = 0xF4 then 0x90 else 0xC0)
  else none

/-- Reads the bytes that follow, the first of them between `lo` and `hi`. The second component
counts the bytes that fit. -/
def tails : Nat → Nat → Nat → Nat → List UInt8 → Option Nat × Nat
  | 0, acc, _, _, _ => (some acc, 0)
  | _ + 1, _, _, _, [] => (none, 0)
  | n + 1, acc, lo, hi, b :: bytes =>
    if lo ≤ b.toNat ∧ b.toNat < hi then
      let (r, k) := tails n (acc * 64 + (b.toNat - 0x80)) 0x80 0xC0 bytes
      (r, k + 1)
    else (none, 0)

/-- The character at the front, if there is one, and how many bytes go with it. -/
def chunk : List UInt8 → Option Char × Nat
  | [] => (none, 0)
  | a :: bytes =>
    if a.toNat < 0x80 then (some (Char.ofNat a.toNat), 1)
    else
      match lead a.toNat with
      | none => (none, 1)
      | some (n, acc, lo, hi) =>
        let (r, k) := tails n acc lo hi bytes
        (r.map Char.ofNat, k + 1)

/-- At most as many characters as the first argument says. -/
def chunks : Nat → List UInt8 → List Char
  | 0, _ => []
  | _, [] => []
  | n + 1, bytes =>
    (chunk bytes).1.getD (Char.ofNat 0xFFFD) :: chunks n (bytes.drop (chunk bytes).2)

/-- At most as many characters as the first argument says; `none` where `chunks` would replace. -/
def decode : Nat → List UInt8 → Option (List Char)
  | _, [] => some []
  | 0, _ => none
  | n + 1, bytes => do
    let c ← (chunk bytes).1
    let text ← decode n (bytes.drop (chunk bytes).2)
    some (c :: text)

theorem tails_cons {n acc lo hi : Nat} {b : UInt8} {bytes : List UInt8} (hlo : lo ≤ b.toNat)
    (hhi : b.toNat < hi) : tails (n + 1) acc lo hi (b :: bytes) =
      ((tails n (acc * 64 + (b.toNat - 0x80)) 0x80 0xC0 bytes).1,
        (tails n (acc * 64 + (b.toNat - 0x80)) 0x80 0xC0 bytes).2 + 1) := by
  rw [tails, if_pos ⟨hlo, hhi⟩]

theorem chunk_of_lead {a : UInt8} {bytes : List UInt8} {n acc lo hi : Nat}
    (hlead : lead a.toNat = some (n, acc, lo, hi)) (ha : ¬ a.toNat < 0x80) :
    chunk (a :: bytes) =
      ((tails n acc lo hi bytes).1.map Char.ofNat, (tails n acc lo hi bytes).2 + 1) := by
  rw [chunk, if_neg ha, hlead]

theorem lead_two : ∀ q < 30, lead (q + 2 + 192) = some (1, q + 2, 0x80, 0xC0) := by decide

theorem lead_three : ∀ q < 16, lead (q + 224) =
    some (2, q, if q = 0 then 0xA0 else 0x80, if q = 13 then 0xA0 else 0xC0) := by decide

theorem lead_four : ∀ q < 5, lead (q + 240) =
    some (3, q, if q = 0 then 0x90 else 0x80, if q = 4 then 0x90 else 0xC0) := by decide

theorem char_ranges (c : Char) :
    c.val.toNat < 0xD800 ∨ 0xDFFF < c.val.toNat ∧ c.val.toNat < 0x110000 := c.valid

/-- The encoding of a character is read back, whatever follows. -/
theorem chunk_utf8EncodeChar (c : Char) (rest : List UInt8) :
    chunk (String.utf8EncodeChar c ++ rest) = (some c, (String.utf8EncodeChar c).length) := by
  have hvalid := char_ranges c
  have hback := Char.ofNat_toNat c
  rw [Char.toNat] at hback
  unfold String.utf8EncodeChar
  generalize c.val.toNat = v at hvalid hback
  dsimp only
  have hbyte : ∀ n, n < 256 → (UInt8.ofNat n).toNat = n := fun n hn => by
    rw [UInt8.toNat_ofNat', Nat.mod_eq_of_lt hn]
  split
  · have ha := hbyte v (by omega)
    rw [singleton_append, chunk, if_pos (by omega), ha, hback]
    rfl
  split
  · have ha := hbyte (v / 64 % 32 + 192) (by omega)
    have hb := hbyte (v % 64 + 128) (by omega)
    have hlead : lead (UInt8.ofNat (v / 64 % 32 + 192)).toNat = some (1, v / 64, 0x80, 0xC0) := by
      obtain ⟨q, hq⟩ : ∃ q, v / 64 = q + 2 := ⟨v / 64 - 2, by omega⟩
      rw [ha, Nat.mod_eq_of_lt (by omega), hq]
      exact lead_two q (by omega)
    rw [cons_append, singleton_append, chunk_of_lead hlead (by omega),
      tails_cons (by omega) (by omega), tails, map_some, hb,
      show v / 64 * 64 + (v % 64 + 128 - 128) = v by omega, hback]
    rfl
  split
  · have ha := hbyte (v / 4096 % 16 + 224) (by omega)
    have hb := hbyte (v / 64 % 64 + 128) (by omega)
    have hc := hbyte (v % 64 + 128) (by omega)
    have hlead : lead (UInt8.ofNat (v / 4096 % 16 + 224)).toNat = some (2, v / 4096,
        if v / 4096 = 0 then 0xA0 else 0x80, if v / 4096 = 13 then 0xA0 else 0xC0) := by
      rw [ha, Nat.mod_eq_of_lt (by omega)]
      exact lead_three _ (by omega)
    rw [cons_append, cons_append, singleton_append, chunk_of_lead hlead (by omega),
      tails_cons (by rw [hb]; split <;> omega) (by rw [hb]; split <;> omega),
      tails_cons (by omega) (by omega), tails, map_some, hb, hc,
      show (v / 4096 * 64 + (v / 64 % 64 + 128 - 128)) * 64 + (v % 64 + 128 - 128) = v by omega,
      hback]
    rfl
  have ha := hbyte (v / 262144 % 8 + 240) (by omega)
  have hb := hbyte (v / 4096 % 64 + 128) (by omega)
  have hc := hbyte (v / 64 % 64 + 128) (by omega)
  have hd := hbyte (v % 64 + 128) (by omega)
  have hlead : lead (UInt8.ofNat (v / 262144 % 8 + 240)).toNat = some (3, v / 262144,
      if v / 262144 = 0 then 0x90 else 0x80, if v / 262144 = 4 then 0x90 else 0xC0) := by
    rw [ha, Nat.mod_eq_of_lt (by omega)]
    exact lead_four _ (by omega)
  rw [cons_append, cons_append, cons_append, singleton_append,
    chunk_of_lead hlead (by omega),
    tails_cons (by rw [hb]; split <;> omega) (by rw [hb]; split <;> omega),
    tails_cons (by omega) (by omega), tails_cons (by omega) (by omega), tails, map_some,
    hb, hc, hd,
    show ((v / 262144 * 64 + (v / 4096 % 64 + 128 - 128)) * 64 + (v / 64 % 64 + 128 - 128)) * 64 +
      (v % 64 + 128 - 128) = v by omega, hback]
  rfl

/-- Only the character 0 has a zero in its encoding. -/
theorem ne_zero_of_mem_utf8EncodeChar {c : Char} {b : UInt8} (hc : c.val.toNat ≠ 0)
    (hb : b ∈ String.utf8EncodeChar c) : b ≠ 0 := by
  have hvalid := char_ranges c
  unfold String.utf8EncodeChar at hb
  generalize c.val.toNat = v at hvalid hc hb
  dsimp only at hb
  have hbyte : ∀ n, 0 < n → n < 256 → UInt8.ofNat n ≠ 0 := by
    intro n hpos hn h0
    have := congrArg UInt8.toNat h0
    rw [UInt8.toNat_ofNat', Nat.mod_eq_of_lt hn] at this
    exact Nat.ne_of_gt hpos this
  split at hb
  · rw [mem_singleton.mp hb]
    exact hbyte v (by omega) (by omega)
  split at hb
  · simp only [mem_cons, not_mem_nil, or_false] at hb
    rcases hb with rfl | rfl <;> exact hbyte _ (by omega) (by omega)
  split at hb
  · simp only [mem_cons, not_mem_nil, or_false] at hb
    rcases hb with rfl | rfl | rfl <;> exact hbyte _ (by omega) (by omega)
  simp only [mem_cons, not_mem_nil, or_false] at hb
  rcases hb with rfl | rfl | rfl | rfl <;> exact hbyte _ (by omega) (by omega)

theorem decode_utf8 : ∀ (text : List Char) (n : Nat), (utf8 text).length ≤ n →
    decode n (utf8 text) = some text := by
  intro text
  induction text with
  | nil =>
    intro n _
    rw [utf8, flatMap_nil, decode]
  | cons c text ih =>
    intro n hn
    have hpos := length_pos_of_ne_nil (String.utf8EncodeChar_ne_nil (c := c))
    rw [utf8_cons, length_append] at hn
    obtain ⟨n, rfl⟩ := Nat.exists_eq_succ_of_ne_zero (show n ≠ 0 by omega)
    rw [utf8_cons, decode, chunk_utf8EncodeChar, bind_eq_bind, bind_some,
      drop_left, ih n (by omega)]
    · rfl
    · exact append_ne_nil_of_left_ne_nil String.utf8EncodeChar_ne_nil _

theorem chunks_of_decode {n : Nat} {bytes : List UInt8} {text : List Char}
    (h : decode n bytes = some text) : chunks n bytes = text := by
  induction n generalizing bytes text with
  | zero =>
    cases bytes with
    | nil =>
      cases h
      rfl
    | cons => cases h
  | succ n ih =>
    cases bytes with
    | nil =>
      cases h
      rfl
    | cons b bytes =>
      simp only [decode, bind_eq_bind, bind_eq_some_iff, some.injEq] at h
      obtain ⟨c, hc, text, htext, rfl⟩ := h
      rw [chunks, hc, ih htext]
      · rfl
      · exact cons_ne_nil _ _

end Utf8

def fromUtf8Lossy (bytes : List UInt8) : List Char := Utf8.chunks bytes.length bytes

theorem fromUtf8Lossy_utf8 (text : List Char) : fromUtf8Lossy (utf8 text) = text :=
  Utf8.chunks_of_decode (Utf8.decode_utf8 text _ (Nat.le_refl _))

def fromUtf8 (bytes : List UInt8) : Option (List Char) := Utf8.decode bytes.length bytes

theorem fromUtf8_utf8 (text : List Char) : fromUtf8 (utf8 text) = some text :=
  Utf8.decode_utf8 text _ (Nat.le_refl _)

end Moose.Lib
