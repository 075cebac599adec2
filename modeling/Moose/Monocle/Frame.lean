import Moose.Lib.Bytes
import Moose.Lib.Run

/-!
# Monocle frames

`monocle-protocol/src/lib.rs`, and `receive_thread` of the virtual serial port, which takes console
input out of the frames. `none` is an access out of bounds.

The format itself is sound: the frames of a stream can be read back from it, and a prefix of the
stream gives the frames that lie in it (`framing`). The thread that uses it is not: it takes what a
read of the socket returned for one frame, whatever else the read holds and wherever it starts.
-/

set_option autoImplicit false

namespace Moose.Monocle

open List Lib

inductive MonocleLogSource where
  | hypervisor
  | guest (id : UInt8)
  | stdin (id : UInt8)
deriving DecidableEq

namespace MonocleLogSource

def fromU8 (value : UInt8) : Option MonocleLogSource :=
  let kind := value &&& 3
  let id := value >>> 2
  if kind = 0 then some .hypervisor
  else if kind = 1 then some (.guest id)
  else if kind = 2 then some (.stdin id)
  else none

def toU8 : MonocleLogSource → UInt8
  | hypervisor => 0
  | guest id => (1 : UInt8) ||| id <<< 2
  | stdin id => (2 : UInt8) ||| id <<< 2

/-- Identifiers have six bits. -/
def Valid : MonocleLogSource → Prop
  | hypervisor => True
  | guest id | stdin id => id < 64

theorem Valid.fromU8_toU8 {s : MonocleLogSource} (h : s.Valid) : fromU8 s.toU8 = some s := by
  have hall : ∀ n : Fin 64, fromU8 (guest (.ofNat n)).toU8 = some (guest (.ofNat n)) ∧
      fromU8 (stdin (.ofNat n)).toU8 = some (stdin (.ofNat n)) := by decide +kernel
  cases s with
  | hypervisor => rfl
  | guest id => simpa using (hall ⟨id.toNat, h⟩).1
  | stdin id => simpa using (hall ⟨id.toNat, h⟩).2

end MonocleLogSource

structure MonocleFrame where
  kind : MonocleLogSource
  payload : List UInt8

inductive MonocleEncodeError where
  | payloadTooLarge | bufferTooSmall

inductive DecodeError where
  | incomplete | invalidKind | payloadTooLarge

def frameHeaderSize : Nat := 5

def maxPayloadLen : Nat := 64 * 1024

/-- The buffer with the frame at its start, and the number of bytes written. -/
def encodeFrame (kind : MonocleLogSource) (payload out : List UInt8) :
    Except MonocleEncodeError (List UInt8 × Nat) :=
  if maxPayloadLen < payload.length then .error .payloadTooLarge
  else
    let total := frameHeaderSize + payload.length
    if out.length < total then .error .bufferTooSmall
    else .ok (kind.toU8 :: toLe 4 payload.length ++ payload ++ out.drop total, total)

def slice (buffer : List UInt8) (i j : Nat) : Option (List UInt8) :=
  if i ≤ j ∧ j ≤ buffer.length then some ((buffer.take j).drop i) else none

/-- The frame at the start of the buffer, and the number of bytes it takes. -/
def decodeFrame (buffer : List UInt8) : Option (Except DecodeError (MonocleFrame × Nat)) := do
  if buffer.length < frameHeaderSize then some (.error .incomplete)
  else
    match MonocleLogSource.fromU8 (← buffer[0]?) with
    | none => some (.error .invalidKind)
    | some kind =>
      let len := ofLe (← slice buffer 1 5)
      if maxPayloadLen < len then some (.error .payloadTooLarge)
      else
        let total := frameHeaderSize + len
        if buffer.length < total then some (.error .incomplete)
        else
          let payload ← slice buffer frameHeaderSize total
          some (.ok (⟨kind, payload⟩, total))

/-- Decodes frame after frame until there is an error: the frames, the error and what is left. -/
def decodeFrames : Nat → List UInt8 → Option (List MonocleFrame × DecodeError × List UInt8)
  | 0, _ => none
  | fuel + 1, buffer => do
    match ← decodeFrame buffer with
    | .error e => some ([], e, buffer)
    | .ok (frame, n) =>
      let (frames, rest) ← decodeFrames fuel (buffer.drop n)
      some (frame :: frames, rest)

namespace MonocleFrame

/-- A frame that the protocol can carry. -/
structure Valid (f : MonocleFrame) : Prop where
  kind : f.kind.Valid
  payload : f.payload.length ≤ maxPayloadLen

def size (f : MonocleFrame) : Nat := frameHeaderSize + f.payload.length

def wire (f : MonocleFrame) : List UInt8 := f.kind.toU8 :: toLe 4 f.payload.length ++ f.payload

variable {f : MonocleFrame} {fs : List MonocleFrame}

theorem size_pos (f : MonocleFrame) : 0 < f.size := Nat.lt_add_right _ (by decide)

@[simp] theorem length_wire (f : MonocleFrame) : f.wire.length = f.size := by
  simp [wire, size, frameHeaderSize]
  omega

/-- A buffer with a good header. -/
theorem decodeFrame_header (h : f.Valid) (tail : List UInt8) :
    decodeFrame (f.kind.toU8 :: toLe 4 f.payload.length ++ tail) = some (
      if f.payload.length ≤ tail.length then .ok (⟨f.kind, tail.take f.payload.length⟩, f.size)
      else .error .incomplete) := by
  have hle := h.payload
  have hofLe : ofLe (toLe 4 f.payload.length) = f.payload.length :=
    ofLe_toLe (by unfold maxPayloadLen at hle; omega)
  have hfirst : (f.kind.toU8 :: toLe 4 f.payload.length ++ tail)[0]? = some f.kind.toU8 := rfl
  have hheader : slice (f.kind.toU8 :: toLe 4 f.payload.length ++ tail) 1 5 =
      some (toLe 4 f.payload.length) := if_pos ⟨by decide, by simp⟩
  have hlen : (f.kind.toU8 :: toLe 4 f.payload.length ++ tail).length = 5 + tail.length := by
    simp
    omega
  rw [decodeFrame, if_neg (by rw [hlen, frameHeaderSize]; omega), bind_of_eq_some hfirst,
    h.kind.fromU8_toU8]
  dsimp only
  rw [bind_of_eq_some hheader, hofLe, if_neg (Nat.not_lt.mpr hle), hlen]
  by_cases hfits : f.payload.length ≤ tail.length
  · have hpayload : slice (f.kind.toU8 :: toLe 4 f.payload.length ++ tail) frameHeaderSize
        (frameHeaderSize + f.payload.length) = some (tail.take f.payload.length) := by
      rw [slice, if_pos ⟨by omega, by rw [hlen, frameHeaderSize]; omega⟩, frameHeaderSize,
        drop_take, Nat.add_sub_cancel_left]
      rfl
    rw [if_pos hfits, if_neg (by rw [frameHeaderSize]; omega), bind_of_eq_some hpayload]
    rfl
  · rw [if_neg hfits, if_pos (by rw [frameHeaderSize]; omega)]

/-- What is read from the start of a stream that begins with a frame. -/
theorem decodeFrame_take (h : f.Valid) (rest : List UInt8) (k : Nat) :
    decodeFrame ((f.wire ++ rest).take k) =
      some (if f.size ≤ k then .ok (f, f.size) else .error .incomplete) := by
  obtain hk | ⟨j, rfl⟩ := Nat.lt_or_ge k 5 |>.imp_right Nat.exists_eq_add_of_le'
  · have hlen : ((f.wire ++ rest).take k).length < frameHeaderSize :=
      Nat.lt_of_le_of_lt (length_take_le _ _) hk
    rw [decodeFrame, if_pos hlen, if_neg (by unfold size frameHeaderSize; omega)]
  have hsplit : (f.wire ++ rest).take (j + 5) =
      f.kind.toU8 :: toLe 4 f.payload.length ++ (f.payload ++ rest).take j := rfl
  rw [hsplit, decodeFrame_header h, length_take, length_append, size, frameHeaderSize]
  by_cases hj : f.payload.length ≤ j
  · rw [if_pos (by omega), if_pos (by omega), take_take, Nat.min_eq_left hj, take_left]
  · rw [if_neg (by omega), if_neg (by omega)]

/-- The frames that lie in the first bytes of a stream. -/
def inside : Nat → List MonocleFrame → List MonocleFrame
  | _, [] => []
  | k, f :: fs => if f.size ≤ k then f :: inside (k - f.size) fs else []

theorem decodeFrames_take (h : ∀ f ∈ fs, f.Valid) {fuel k : Nat} (hfuel : fs.length < fuel) :
    decodeFrames fuel ((fs.flatMap wire).take k) = some (inside k fs, .incomplete,
      ((fs.flatMap wire).take k).drop ((inside k fs).flatMap wire).length) := by
  induction fs generalizing fuel k with
  | nil =>
    obtain ⟨fuel, rfl⟩ := Nat.exists_eq_add_of_lt hfuel
    simp [decodeFrames, decodeFrame, inside, frameHeaderSize]
  | cons f fs ih =>
    obtain ⟨hf, hfs⟩ := forall_mem_cons.mp h
    obtain ⟨fuel, rfl⟩ := Nat.exists_eq_add_of_lt hfuel
    have hfuel : fs.length < (f :: fs).length + fuel := by
      rw [length_cons]
      omega
    have hnext := decodeFrame_take hf (fs.flatMap wire) k
    rw [decodeFrames, flatMap_cons, bind_of_eq_some hnext, inside]
    by_cases hk : f.size ≤ k
    · have hrest : ((f.wire ++ fs.flatMap wire).take k).drop f.size =
          (fs.flatMap wire).take (k - f.size) := by
        rw [drop_take, drop_append_of_length (length_wire f)]
      simp only [if_pos hk, hrest, ih hfs hfuel, some_bind, flatMap_cons, length_append,
        length_wire, ← drop_drop]
    · simp [if_neg hk]

theorem inside_length (fs : List MonocleFrame) : inside (fs.flatMap wire).length fs = fs := by
  induction fs with
  | nil => rfl
  | cons f fs ih =>
    rw [flatMap_cons, length_append, length_wire, inside, if_pos (Nat.le_add_right _ _),
      Nat.add_sub_cancel_left, ih]

/-- No access is out of bounds, and a frame takes at least its header. -/
theorem decodeFrame_bounds (buffer : List UInt8) : ∃ r, decodeFrame buffer = some r ∧
    ∀ f n, r = .ok (f, n) → frameHeaderSize ≤ n ∧ n ≤ buffer.length := by
  unfold decodeFrame
  split
  · exact ⟨_, rfl, nofun⟩
  rename_i hlong
  have hfive : 5 ≤ buffer.length := Nat.not_lt.mp hlong
  rw [bind_of_eq_some (getElem?_eq_getElem (show 0 < buffer.length by omega))]
  split
  · exact ⟨_, rfl, nofun⟩
  rw [slice, if_pos ⟨by decide, hfive⟩, some_bind]
  dsimp only
  split
  · exact ⟨_, rfl, nofun⟩
  split
  · exact ⟨_, rfl, nofun⟩
  rename_i hwhole
  have hle := Nat.not_lt.mp hwhole
  rw [slice, if_pos ⟨Nat.le_add_right _ _, hle⟩]
  refine ⟨_, rfl, ?_⟩
  rintro f n ⟨⟩
  exact ⟨Nat.le_add_right _ _, hle⟩

/-- **The framing is uniquely decodable.** -/
theorem framing (fs : List MonocleFrame) (h : ∀ f ∈ fs, f.Valid) :
    (∀ f ∈ fs, ∀ out : List UInt8, f.size ≤ out.length →
      encodeFrame f.kind f.payload out = .ok (f.wire ++ out.drop f.size, f.size)) ∧
    (∀ fuel, fs.length < fuel →
      decodeFrames fuel (fs.flatMap wire) = some (fs, .incomplete, []) ∧
      ∀ k, decodeFrames fuel ((fs.flatMap wire).take k) = some (inside k fs, .incomplete,
        ((fs.flatMap wire).take k).drop ((inside k fs).flatMap wire).length)) ∧
    ∀ buffer, ∃ r, decodeFrame buffer = some r ∧
      ∀ f n, r = .ok (f, n) → frameHeaderSize ≤ n ∧ n ≤ buffer.length := by
  refine ⟨fun f hf out hout => ?_, fun fuel hfuel => ⟨?_, fun k => ?_⟩, decodeFrame_bounds⟩
  · rw [encodeFrame, if_neg (Nat.not_lt.mpr (h f hf).payload)]
    exact if_neg (Nat.not_lt.mpr hout)
  · have hall := decodeFrames_take h hfuel (k := (fs.flatMap wire).length)
    rwa [take_length, inside_length, drop_length] at hall
  · exact decodeFrames_take h hfuel

/-- Two frames, cut in the second. -/
theorem framing_two :
    let fs : List MonocleFrame := [⟨.guest 5, [104, 105]⟩, ⟨.hypervisor, [33]⟩]
    (∀ f ∈ fs, f.Valid) ∧ decodeFrames 3 ((fs.flatMap wire).take 12) =
      some ([⟨.guest 5, [104, 105]⟩], .incomplete, [0, 1, 0, 0, 0]) := by
  have hvalid : ∀ f ∈ [⟨.guest 5, [104, 105]⟩, ⟨.hypervisor, [33]⟩], Valid f :=
    forall_mem_cons.mpr ⟨⟨show (5 : UInt8) < 64 by decide, by decide⟩,
      forall_mem_singleton.mpr ⟨trivial, by decide⟩⟩
  exact ⟨hvalid, ((framing _ hvalid).2.1 3 (by decide)).2 12⟩

end MonocleFrame

/-! ## Console input

The socket is a byte stream: where a read ends has nothing to do with where a frame ends, and no
read returns more than the buffer of `receive_thread` holds. Reads and frames are compared by the
offsets at which they start in the stream.
-/

/-- The length of the buffer of `receive_thread`. -/
def bufferLen : Nat := 256

/-- What one read of the socket puts into the buffer. -/
abbrev Read := { bytes : List UInt8 // bytes.length ≤ bufferLen }

/-- What `receive_thread` injects into the serial port for one read of the socket: the payload of
the frame that the read starts with. A read of no bytes, like one that fails, injects nothing. -/
def receive (bytes : List UInt8) : Option (List UInt8) := do
  match ← decodeFrame bytes with
  | .ok (frame, _) => some frame.payload
  | .error _ => some []

def receiveThread : List Read → Option (List UInt8)
  | [] => some []
  | bytes :: reads => do some ((← receive bytes) ++ (← receiveThread reads))

section Place

variable {α : Type} {size : α → Nat} {start : Nat} {xs ys : List α} {p : Nat × α}

/-- The elements laid one behind the other, each with the offset at which it starts. -/
def place (size : α → Nat) : Nat → List α → List (Nat × α)
  | _, [] => []
  | start, x :: xs => (start, x) :: place size (start + size x) xs

theorem le_of_mem_place (h : p ∈ place size start xs) : start ≤ p.1 := by
  induction xs generalizing start with
  | nil => cases h
  | cons x xs ih =>
    cases h with
    | head => exact Nat.le_refl _
    | tail _ h => exact Nat.le_trans (Nat.le_add_right _ _) (ih h)

theorem mem_of_mem_place (h : p ∈ place size start xs) : p.2 ∈ xs := by
  induction xs generalizing start with
  | nil => cases h
  | cons x xs ih =>
    cases h with
    | head => exact mem_cons_self
    | tail _ h => exact mem_cons_of_mem _ (ih h)

theorem exists_mem_place {x : α} (h : x ∈ xs) : ∃ o, (o, x) ∈ place size start xs := by
  induction xs generalizing start with
  | nil => cases h
  | cons y xs ih =>
    cases h with
    | head => exact ⟨start, mem_cons_self⟩
    | tail _ h => exact (ih h).imp fun _ => mem_cons_of_mem _

theorem place_append :
    place size start (xs ++ ys) =
      place size start xs ++ place size (start + (xs.map size).sum) ys := by
  induction xs generalizing start with
  | nil => rfl
  | cons x xs ih => simp only [cons_append, place, ih, map_cons, sum_cons, Nat.add_assoc]

end Place

open MonocleFrame

variable {f : MonocleFrame} {fs : List MonocleFrame} {frames : List (Nat × MonocleFrame)}
  {reads : List (Nat × Read)}

/-- Every frame with a payload stands whole at the start of a read. -/
def Whole (frames : List (Nat × MonocleFrame)) (reads : List (Nat × Read)) : Prop :=
  ∀ p ∈ frames, p.2.payload ≠ [] → ∃ q ∈ reads, q.1 = p.1 ∧ p.2.size ≤ q.2.1.length

/-- No read that starts inside a frame injects anything. What stands there is decoded as if it were
a header, so this depends on the bytes of the payloads. -/
def Clean (frames : List (Nat × MonocleFrame)) (reads : List (Nat × Read)) : Prop :=
  ∀ q ∈ reads, q.1 ∉ frames.map Prod.fst → receive q.2.1 = some []

/-- A read that starts with a frame injects its payload if the frame is whole, and drops the rest.
-/
theorem receive_wire (h : f.Valid) {bytes rest stream : List UInt8}
    (hsplit : bytes ++ rest = f.wire ++ stream) :
    receive bytes = some (if f.size ≤ bytes.length then f.payload else []) := by
  have hbytes : bytes = (f.wire ++ stream).take bytes.length := by rw [← hsplit, take_left]
  have hdecode := decodeFrame_take h stream bytes.length
  rw [← hbytes] at hdecode
  rw [receive, bind_of_eq_some hdecode]
  by_cases hwhole : f.size ≤ bytes.length
  · rw [if_pos hwhole, if_pos hwhole]
  · rw [if_neg hwhole, if_neg hwhole]

theorem receive_isSome (bytes : List UInt8) : ∃ b, receive bytes = some b := by
  obtain ⟨r, hr, -⟩ := decodeFrame_bounds bytes
  rw [receive, bind_of_eq_some hr]
  cases r <;> exact ⟨_, rfl⟩

/-- The frames that begin in the next read of a stream that starts `tail` before a frame. -/
theorem exists_begun {bytes rest tail : List UInt8} (h : bytes ++ rest = tail ++ fs.flatMap wire)
    (o : Nat) :
    ∃ begun later left, fs = begun ++ later ∧ rest = left ++ later.flatMap wire ∧
      bytes.length + left.length = tail.length + (begun.map size).sum ∧
      ∀ p ∈ place size (o + tail.length) begun, p.1 < o + bytes.length := by
  induction fs generalizing tail with
  | nil => exact ⟨[], [], rest.drop 0, rfl, by simp, by simpa using congrArg length h, nofun⟩
  | cons f fs ih =>
    by_cases hle : bytes.length ≤ tail.length
    · have hdrop := congrArg (drop bytes.length) h
      rw [drop_left, drop_append_of_le_length hle] at hdrop
      refine ⟨[], f :: fs, tail.drop bytes.length, rfl, hdrop, ?_, nofun⟩
      rw [length_drop, map_nil, sum_nil]
      omega
    rw [flatMap_cons, ← append_assoc] at h
    obtain ⟨begun, later, left, rfl, hrest, hlen, hstart⟩ := ih h
    rw [length_append, length_wire] at hlen hstart
    rw [← Nat.add_assoc] at hstart
    refine ⟨f :: begun, later, left, rfl, hrest, ?_, forall_mem_cons.mpr ⟨by omega, hstart⟩⟩
    rw [hlen, map_cons, sum_cons, Nat.add_assoc]

/-- A frame that begins behind the start of the only read it could be whole in is lost. -/
theorem lost_iff {o start n : Nat} (h : o < start) :
    (∀ p ∈ place size start fs, p.2.payload ≠ [] → o = p.1 ∧ p.2.size ≤ n) ↔
      fs.flatMap payload = [] := by
  rw [flatMap_eq_nil_iff]
  constructor
  · intro hwhole f hf
    obtain ⟨o', hmem⟩ := @exists_mem_place _ size start _ _ hf
    by_contra hne
    have hle := le_of_mem_place hmem
    have heq := (hwhole _ hmem hne).1
    dsimp only at hle heq
    omega
  · exact fun hnil p hp hne => absurd (hnil _ (mem_of_mem_place hp)) hne

section Step

variable {m o : Nat} {r : Read} {later : List (Nat × MonocleFrame)}

theorem whole_cons (hm : o + r.1.length = m) (hframes : ∀ p ∈ frames, p.1 < m)
    (hlater : ∀ p ∈ later, m ≤ p.1) (hreads : ∀ q ∈ reads, m ≤ q.1) :
    Whole (frames ++ later) ((o, r) :: reads) ↔
      (∀ p ∈ frames, p.2.payload ≠ [] → o = p.1 ∧ p.2.size ≤ r.1.length) ∧ Whole later reads := by
  rw [Whole, forall_mem_append]
  refine and_congr (forall₃_congr fun p hp _ => ?_) (forall₃_congr fun p hp _ => ?_)
  · simp only [mem_cons, exists_eq_or_imp]
    rw [or_iff_left]
    rintro ⟨q, hq, heq, -⟩
    have := hframes p hp
    have := hreads q hq
    omega
  · simp only [mem_cons, exists_eq_or_imp]
    rw [or_iff_right]
    rintro ⟨heq, hsize⟩
    have := hlater p hp
    simp only [MonocleFrame.size, frameHeaderSize] at hsize
    omega

theorem clean_cons (hframes : ∀ p ∈ frames, p.1 < m) (hreads : ∀ q ∈ reads, m ≤ q.1) :
    Clean (frames ++ later) ((o, r) :: reads) ↔
      (o ∉ (frames ++ later).map Prod.fst → receive r.1 = some []) ∧ Clean later reads := by
  rw [Clean, forall_mem_cons]
  refine and_congr Iff.rfl (forall₂_congr fun q hq => ?_)
  rw [map_append, mem_append, or_iff_right]
  rw [mem_map]
  rintro ⟨p, hp, heq⟩
  have := hframes p hp
  have := hreads q hq
  omega

end Step

/-- One read, which starts at `o` with the rest of an earlier frame, and the frames that begin in
it: which bytes of their payloads are lost, and which are injected that are of no frame. -/
theorem receive_account {begun later : List MonocleFrame} {bytes rest tail left : List UInt8}
    (hvalid : ∀ f ∈ begun, f.Valid) (o : Nat)
    (h : bytes ++ rest = tail ++ (begun ++ later).flatMap wire)
    (hlen : bytes.length + left.length = tail.length + (begun.map size).sum) :
    ∃ b lost stray, receive bytes = some b ∧
      b.length + lost.length = (begun.flatMap payload).length + stray.length ∧
      (lost = [] ↔ ∀ p ∈ place size (o + tail.length) begun,
        p.2.payload ≠ [] → o = p.1 ∧ p.2.size ≤ bytes.length) ∧
      (stray = [] ↔ (o ∉ (place size (o + tail.length) (begun ++ later)).map Prod.fst →
        receive bytes = some [])) ∧
      (lost = ([] : List UInt8) → stray = ([] : List UInt8) → b = begun.flatMap payload) := by
  by_cases hstart : tail = [] ∧ begun ≠ []
  · obtain ⟨rfl, hne⟩ := hstart
    obtain ⟨f, gs, rfl⟩ := exists_cons_of_ne_nil hne
    rw [nil_append, cons_append, flatMap_cons] at h
    have hbytes := receive_wire (hvalid f mem_cons_self) h
    have hlost : _ ↔ gs.flatMap payload = [] :=
      lost_iff (n := bytes.length) (Nat.lt_add_of_pos_right f.size_pos : o < o + f.size)
    refine ⟨_, gs.flatMap payload ++ if f.size ≤ bytes.length then [] else f.payload, [], hbytes,
      ?_, ?_, by simp [place], ?_⟩
    · rw [flatMap_cons, length_append, length_append, length_nil]
      split
      · rw [length_nil]
        omega
      · rw [length_nil]
        omega
    · rw [length_nil, Nat.add_zero, place, forall_mem_cons, hlost, append_eq_nil_iff, and_comm]
      by_cases hfits : f.size ≤ bytes.length
      · simp [hfits]
      · simp [hfits]
    · rw [append_eq_nil_iff]
      rintro ⟨hgs, hf⟩ -
      rw [flatMap_cons, hgs, append_nil]
      split at hf
      · exact if_pos ‹_›
      · rw [hf, ite_self]
  -- the read starts inside a frame, or is empty
  obtain ⟨b, hb⟩ := receive_isSome bytes
  refine ⟨b, begun.flatMap payload, b, hb, Nat.add_comm _ _, ?_, ?_, fun h1 h2 => by rw [h1, h2]⟩
  · cases begun with
    | nil => simp [place]
    | cons f gs =>
      have hne : tail ≠ [] := fun hnil => hstart ⟨hnil, cons_ne_nil _ _⟩
      exact (lost_iff (Nat.lt_add_of_pos_right (length_pos_iff.mpr hne))).symm
  rw [hb, Option.some_inj]
  refine ⟨fun hnil _ => hnil, fun hclean => ?_⟩
  by_cases hne : tail = []
  · obtain rfl : begun = [] := not_ne_iff.mp fun h => hstart ⟨hne, h⟩
    subst hne
    obtain ⟨rfl, -⟩ : bytes = [] ∧ left = [] := by simpa using hlen
    exact (Option.some_inj.mp hb).symm
  · refine hclean fun hmem => ?_
    obtain ⟨p, hp, heq⟩ := mem_map.mp hmem
    have := le_of_mem_place hp
    have := length_pos_iff.mpr hne
    omega

/-- The reads of a stream that starts with the rest of an earlier frame. -/
theorem receiveThread_account {reads : List Read} {tail : List UInt8} (hvalid : ∀ f ∈ fs, f.Valid)
    (h : reads.flatMap Subtype.val = tail ++ fs.flatMap wire) (o : Nat) :
    ∃ b lost stray, receiveThread reads = some b ∧
      b.length + lost.length = (fs.flatMap payload).length + stray.length ∧
      (lost = [] ↔ Whole (place size (o + tail.length) fs) (place (·.1.length) o reads)) ∧
      (stray = [] ↔ Clean (place size (o + tail.length) fs) (place (·.1.length) o reads)) ∧
      (lost = ([] : List UInt8) → stray = ([] : List UInt8) → b = fs.flatMap payload) := by
  induction reads generalizing fs tail o with
  | nil =>
    obtain ⟨rfl, hnil⟩ := append_eq_nil_iff.mp h.symm
    obtain rfl : fs = [] := by
      cases fs with
      | nil => rfl
      | cons f fs => cases hnil
    exact ⟨[], [], [], rfl, rfl, by simp [Whole, place], by simp [Clean, place], fun _ _ => rfl⟩
  | cons r reads ih =>
    obtain ⟨begun, later, left, rfl, hrest, hlen, hbegun⟩ := exists_begun h o
    obtain ⟨hvalid₁, hvalid₂⟩ := forall_mem_append.mp hvalid
    obtain ⟨b₁, lost₁, stray₁, hb₁, hlen₁, hwhole₁, hclean₁, heq₁⟩ :=
      receive_account hvalid₁ o h hlen
    obtain ⟨b₂, lost₂, stray₂, hb₂, hlen₂, hwhole₂, hclean₂, heq₂⟩ :=
      ih hvalid₂ hrest (o + r.1.length)
    have hplace : place size (o + tail.length) (begun ++ later) =
        place size (o + tail.length) begun ++ place size (o + r.1.length + left.length) later := by
      rw [place_append, Nat.add_assoc, ← hlen, Nat.add_assoc]
    have hlater : ∀ p ∈ place size (o + r.1.length + left.length) later, o + r.1.length ≤ p.1 :=
      fun p hp => Nat.le_trans (Nat.le_add_right _ _) (le_of_mem_place hp)
    have hreads : ∀ q ∈ place (fun r : Read => r.1.length) (o + r.1.length) reads,
        o + r.1.length ≤ q.1 := fun q hq => le_of_mem_place hq
    rw [hplace] at hclean₁ ⊢
    refine ⟨b₁ ++ b₂, lost₁ ++ lost₂, stray₁ ++ stray₂, ?_, ?_, ?_, ?_, ?_⟩
    · rw [receiveThread, hb₁, hb₂]
      rfl
    · simp only [flatMap_append, length_append]
      omega
    · rw [place, whole_cons rfl hbegun hlater hreads, append_eq_nil_iff, hwhole₁, hwhole₂]
    · rw [place, clean_cons hbegun hreads, append_eq_nil_iff, hclean₁, hclean₂]
    · intro hlost hstray
      obtain ⟨hlost₁, hlost₂⟩ := append_eq_nil_iff.mp hlost
      obtain ⟨hstray₁, hstray₂⟩ := append_eq_nil_iff.mp hstray
      rw [heq₁ hlost₁ hstray₁, heq₂ hlost₂ hstray₂, flatMap_append]

/-- **What the guest is given of the console input**, however the stream is cut into reads. When
every frame with a payload stands whole at the start of a read, and no read that starts inside a
frame injects anything, the payloads arrive in order. They arrive in no other way than that either
both hold or both fail: what is lost of one frame can only be made up by bytes that are of none. A
payload that does not fit the buffer behind its header is always lost. -/
theorem receiveThread_exact (fs : List MonocleFrame) (reads : List Read)
    (hvalid : ∀ f ∈ fs, f.Valid) (hstream : reads.flatMap Subtype.val = fs.flatMap wire) :
    let frames := place size 0 fs
    let placed := place (·.1.length) 0 reads
    (Whole frames placed → Clean frames placed →
      receiveThread reads = some (fs.flatMap payload)) ∧
    (receiveThread reads = some (fs.flatMap payload) →
      (Whole frames placed ↔ Clean frames placed)) ∧
    ((∃ f ∈ fs, bufferLen - frameHeaderSize < f.payload.length) → ¬Whole frames placed) := by
  obtain ⟨b, lost, stray, hb, hlen, hwhole, hclean, heq⟩ :=
    @receiveThread_account fs reads [] hvalid hstream 0
  rw [length_nil] at hwhole hclean
  intro frames placed
  refine ⟨fun hw hc => ?_, fun hexact => ?_, ?_⟩
  · rw [hb, heq (hwhole.mpr hw) (hclean.mpr hc)]
  · obtain rfl := Option.some_inj.mp (hb.symm.trans hexact)
    rw [← hwhole, ← hclean, ← length_eq_zero_iff, ← length_eq_zero_iff]
    omega
  · rintro ⟨f, hf, hlong⟩ hw
    obtain ⟨o, hmem⟩ := @exists_mem_place _ size 0 _ _ hf
    obtain ⟨q, -, -, hsize⟩ := hw _ hmem (ne_nil_of_length_pos (Nat.zero_lt_of_lt hlong))
    have := q.2.2
    simp only [MonocleFrame.size, frameHeaderSize, bufferLen] at this hsize hlong
    omega

/-- Two frames, each with its read. -/
theorem receiveThread_exact_two :
    receiveThread [⟨[0, 1, 0, 0, 0, 33], by decide⟩, ⟨[5, 1, 0, 0, 0, 34], by decide⟩] =
      some [33, 34] := by
  have hvalid : ∀ f ∈ [⟨.hypervisor, [33]⟩, ⟨.guest 1, [34]⟩], Valid f :=
    forall_mem_cons.mpr ⟨⟨trivial, by decide⟩,
      forall_mem_singleton.mpr ⟨show (1 : UInt8) < 64 by decide, by decide⟩⟩
  exact (receiveThread_exact _ [⟨[0, 1, 0, 0, 0, 33], by decide⟩,
    ⟨[5, 1, 0, 0, 0, 34], by decide⟩] hvalid (by decide)).1
      (by simp [Whole, place, MonocleFrame.size, frameHeaderSize])
      (by simp [Clean, place, MonocleFrame.size, frameHeaderSize])

/-- The same two frames in one read, and the second cut in its header. -/
theorem receiveThread_loses_frame :
    receiveThread [⟨[0, 1, 0, 0, 0, 33, 5, 1, 0, 0, 0, 34], by decide⟩] = some [33] ∧
      receiveThread [⟨[0, 1, 0, 0, 0, 33], by decide⟩, ⟨[5, 1, 0], by decide⟩,
        ⟨[0, 0, 34], by decide⟩] = some [33] := by
  decide +kernel

end Moose.Monocle
