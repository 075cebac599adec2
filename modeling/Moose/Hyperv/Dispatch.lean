import Mathlib.Logic.Function.Basic
import Moose.Lib.WordSet

/-!
# Event flags

The host signals channel `id` by bit `id % 64` of word `id / 64` in the flags of the interrupt
source. `handle_siefp_irq` takes the words one after the other, the bits of each from the lowest on,
and looks the driver up under `chunk_idx * 8 + bit_idx`. The factor should be the number of bits of
a word: the numbers agree in the first word only.
-/

set_option autoImplicit false

namespace Moose.Hyperv.Events

open BitVec Moose.Lib

/-- `channel_to_driver_map`: the number of unread packets of each channel that has a driver. -/
abbrev DriverMap := Nat → Option Nat

def hasDataToProcess (drivers : DriverMap) (channel : Nat) : Bool :=
  (drivers channel).any (· != 0)

/-- Every driver reads its channel until there is no packet left. -/
def processIncomingData (drivers : DriverMap) (channel : Nat) : DriverMap :=
  Function.update drivers channel (some 0)

theorem clear_lt {value : BitVec 64} (h : value ≠ 0#64) :
    (value &&& ~~~twoPow 64 value.ctz.toNat).toNat < value.toNat := by
  have hset := getLsbD_true_ctz_of_ne_zero h
  refine lt_of_le_of_ne ?_ ?_
  · rw [toNat_and]
    exact Nat.and_le_left
  intro heq
  have hbit := congrArg (·.getLsbD value.ctz.toNat) (eq_of_toNat_eq heq)
  simp [hset] at hbit

/-- The numbers the loop over one word looks up. -/
def channelsOf (chunk : Nat) (value : BitVec 64) : List Nat :=
  if value = 0#64 then []
  else
    let bit := value.ctz.toNat
    (chunk * 8 + bit) :: channelsOf chunk (value &&& ~~~twoPow 64 bit)
termination_by value.toNat
decreasing_by exact clear_lt ‹_›

/-- The body of the inner loop, for each number looked up. Besides the drivers it returns the
channels whose `process_incoming_data` was called. -/
def serve (drivers : DriverMap) : List Nat → DriverMap × List Nat
  | [] => (drivers, [])
  | channel :: rest =>
    if hasDataToProcess drivers channel then
      let served := serve (processIncomingData drivers channel) rest
      (served.1, channel :: served.2)
    else serve drivers rest

def handleSiefpIrq (flags : WordSet 32 64) (drivers : DriverMap) :
    WordSet 32 64 × DriverMap × List Nat :=
  (fun _ => 0#64,
    serve drivers ((List.finRange 32).flatMap fun chunk => channelsOf chunk.val (flags chunk)))

/-- What the handler is for: the flags are cleared, and the drivers called are those of the
signalled channels that have something to read, once each. -/
def Dispatched (flags : WordSet 32 64) (drivers : DriverMap)
    (handled : WordSet 32 64 × DriverMap × List Nat) : Prop :=
  (∀ id, handled.1.mem id = false) ∧
    handled.2.2.Nodup ∧
    ∀ id, id ∈ handled.2.2 ↔ flags.mem id = true ∧ hasDataToProcess drivers id = true

theorem mem_channelsOf {chunk : Nat} {value : BitVec 64} {c : Nat} :
    c ∈ channelsOf chunk value ↔ ∃ bit, value.getLsbD bit = true ∧ chunk * 8 + bit = c := by
  fun_induction channelsOf chunk value with
  | case1 => simp
  | case2 value h bit ih =>
    have hset : value.getLsbD bit = true := getLsbD_true_ctz_of_ne_zero h
    rw [List.mem_cons, ih]
    constructor
    · rintro (rfl | ⟨b, hb, rfl⟩)
      · exact ⟨bit, hset, rfl⟩
      rw [getLsbD_and, Bool.and_eq_true] at hb
      exact ⟨b, hb.1, rfl⟩
    rintro ⟨b, hb, rfl⟩
    by_cases heq : b = bit
    · exact Or.inl (heq ▸ rfl)
    refine Or.inr ⟨b, ?_, rfl⟩
    simp [hb, lt_of_getLsbD hb, heq]

theorem exists_word {flags : WordSet 32 64} {P : Nat → Nat → Prop} :
    (∃ chunk : Fin 32, ∃ bit, (flags chunk).getLsbD bit = true ∧ P chunk bit) ↔
      ∃ id, flags.mem id = true ∧ P (id / 64) (id % 64) := by
  constructor
  · rintro ⟨chunk, bit, hbit, hP⟩
    have hlt : bit < 64 := lt_of_getLsbD hbit
    have hdiv : (chunk.val * 64 + bit) / 64 = chunk.val := by omega
    have hmod : (chunk.val * 64 + bit) % 64 = bit := by omega
    refine ⟨chunk.val * 64 + bit, ?_, by rwa [hdiv, hmod]⟩
    simp only [WordSet.mem, hdiv, hmod, chunk.isLt, dite_true]
    exact hbit
  · rintro ⟨id, hid, hP⟩
    unfold WordSet.mem at hid
    split at hid
    · exact ⟨_, _, hid, hP⟩
    · cases hid

theorem mem_serve {drivers : DriverMap} {channels : List Nat} {c : Nat} :
    c ∈ (serve drivers channels).2 ↔ c ∈ channels ∧ hasDataToProcess drivers c = true := by
  induction channels generalizing drivers with
  | nil => simp [serve]
  | cons channel rest ih =>
    unfold serve
    by_cases heq : c = channel
    · subst heq
      split <;> simp_all
    split
    · have hsame : hasDataToProcess (processIncomingData drivers channel) c =
          hasDataToProcess drivers c := by
        simp [hasDataToProcess, processIncomingData, heq]
      simp [ih, hsame, heq]
    · simp [ih, heq]

/-- A driver that was called has read everything: it is not called for the rest of the numbers. -/
theorem nodup_serve (drivers : DriverMap) (channels : List Nat) :
    (serve drivers channels).2.Nodup := by
  induction channels generalizing drivers with
  | nil => exact List.nodup_nil
  | cons channel rest ih =>
    unfold serve
    split
    · refine List.nodup_cons.mpr ⟨?_, ih _⟩
      rw [mem_serve]
      simp [hasDataToProcess, processIncomingData]
    · exact ih _

/-- The drivers called are those with something to read whose number is taken for some flag. -/
theorem mem_handleSiefpIrq {flags : WordSet 32 64} {drivers : DriverMap} {c : Nat} :
    c ∈ (handleSiefpIrq flags drivers).2.2 ↔
      (∃ id, flags.mem id = true ∧ id / 64 * 8 + id % 64 = c) ∧
        hasDataToProcess drivers c = true := by
  unfold handleSiefpIrq
  rw [mem_serve]
  simp only [List.mem_flatMap, List.mem_finRange, true_and, mem_channelsOf]
  rw [exists_word (P := fun chunk bit => chunk * 8 + bit = c)]

/-- **Event dispatch.** The flags are cleared in any case. The right drivers are called exactly when
no channel with something to read is mistaken: it is signalled if and only if some flag is taken for
it. -/
theorem handleSiefpIrq_dispatched_iff (flags : WordSet 32 64) (drivers : DriverMap) :
    Dispatched flags drivers (handleSiefpIrq flags drivers) ↔
      ∀ c, hasDataToProcess drivers c = true →
        (flags.mem c = true ↔ ∃ id, flags.mem id = true ∧ id / 64 * 8 + id % 64 = c) := by
  have hcleared : ∀ id, (handleSiefpIrq flags drivers).1.mem id = false := WordSet.mem_zero
  have honce : (handleSiefpIrq flags drivers).2.2.Nodup := nodup_serve _ _
  unfold Dispatched
  rw [and_iff_right hcleared, and_iff_right honce]
  refine forall_congr' fun c => ?_
  rw [mem_handleSiefpIrq, and_congr_left_iff]
  exact imp_congr_right fun _ => Iff.comm

/-- Channel 64 is signalled and has a packet: its flag is taken for channel 8. -/
theorem not_dispatched_second_word :
    ¬ Dispatched (WordSet.insert (fun _ => 0#64) 64) (fun c => if c = 64 then some 1 else none)
      (handleSiefpIrq (WordSet.insert (fun _ => 0#64) 64)
        (fun c => if c = 64 then some 1 else none)) := by
  rintro ⟨-, -, hcalls⟩
  obtain ⟨⟨id, hid, htaken⟩, -⟩ := mem_handleSiefpIrq.mp ((hcalls 64).mpr (by decide))
  rw [WordSet.mem_insert (by decide) (by decide)] at hid
  rcases hid with rfl | hid
  · cases htaken
  rw [WordSet.mem_zero] at hid
  cases hid

end Moose.Hyperv.Events
