import Moose.Lib.Run

/-!
# Sections of the send buffer

The network driver copies a frame behind an RNDIS header into a section of its send buffer and
announces the section to the host. Sections are taken in turn, whatever the host has completed: the
driver keeps no account of completions. The section size is only known to exceed the largest frame,
without the header.
-/

set_option autoImplicit false

namespace Moose.Hyperv.Sections

open Moose.Lib

def netvscSendBufferSize : Nat := 8 * 4096

def rndisPacketMessageSize : Nat := 44

/-- The driver's fields, and the packets the host has not completed: the number of the packet with
the section it was announced in. -/
structure Nic where
  txSectionSize : Nat
  txSectionCount : Nat
  currentSectionIndex : Nat
  sent : Nat
  outstanding : List (Nat × Nat)

/-- The state after the host's answer to `SendSendBuffer`, which is checked. -/
def negotiate (sectionSize : Nat) : Option Nic :=
  if sectionSize > 1518 then some ⟨sectionSize, netvscSendBufferSize / sectionSize, 0, 0, []⟩
  else none

/-- The section of the next packet and the bytes of the send buffer that are written for it. Without
a section the remainder panics. -/
def sendRndisDataPacket (s : Nic) (bufferLen : Nat) : Option (Nic × Nat × List Nat) :=
  if s.txSectionCount = 0 then none
  else
    let sectionIndex := s.currentSectionIndex
    some ({ s with
        currentSectionIndex := (s.currentSectionIndex + 1) % s.txSectionCount
        sent := s.sent + 1
        outstanding := (s.sent, sectionIndex) :: s.outstanding },
      sectionIndex,
      List.range' (sectionIndex * s.txSectionSize) (rndisPacketMessageSize + bufferLen))

inductive Action
  | send (bufferLen : Nat)
  | complete (packet : Nat)

def step (s : Nic) : Action → Option (Nic × Unit)
  | .send bufferLen => (sendRndisDataPacket s bufferLen).map fun out => (out.1, ())
  | .complete packet =>
    some ({ s with outstanding := s.outstanding.filter (·.1 != packet) }, ())

/-- The next packet stays in its section and writes nothing in the section of a packet that is not
completed. -/
def Untouched (s : Nic) (bufferLen : Nat) : Prop :=
  ∀ s' sectionIndex bytes, sendRndisDataPacket s bufferLen = some (s', sectionIndex, bytes) →
    ∀ b ∈ bytes, b / s.txSectionSize = sectionIndex ∧
      ∀ p ∈ s.outstanding, b / s.txSectionSize ≠ p.2

/-- Packet `k` is in section `k % count`. -/
structure Cyclic (size : Nat) (s : Nic) : Prop where
  size_eq : s.txSectionSize = size
  count_eq : s.txSectionCount = netvscSendBufferSize / size
  current : s.currentSectionIndex = s.sent % s.txSectionCount
  outstanding : ∀ p ∈ s.outstanding, p.2 = p.1 % s.txSectionCount ∧ s.txSectionCount ≠ 0

variable {size : Nat} {s s' : Nic}

theorem Cyclic.step {a : Action} {out : Unit} (h : Cyclic size s) (hs : step s a = some (s', out)) :
    Cyclic size s' := by
  cases a with
  | send bufferLen =>
    obtain ⟨sent, hsent, hout⟩ := Option.map_eq_some_iff.mp hs
    cases hout
    unfold sendRndisDataPacket at hsent
    split at hsent
    · cases hsent
    next hcount =>
      cases hsent
      refine ⟨h.size_eq, h.count_eq, ?_, ?_⟩
      · rw [h.current, Nat.mod_add_mod]
      · exact List.forall_mem_cons.mpr ⟨⟨h.current, hcount⟩, h.outstanding⟩
  | complete packet =>
    cases hs
    exact ⟨h.size_eq, h.count_eq, h.current, fun p hp => h.outstanding p (List.mem_filter.mp hp).1⟩

theorem Cyclic.untouched_iff {bufferLen : Nat} (h : Cyclic size s) (hsize : 1518 < size)
    (hlen : bufferLen ≤ 1518) :
    Untouched s bufferLen ↔ rndisPacketMessageSize + bufferLen ≤ size ∧
      ∀ p ∈ s.outstanding, p.1 % (netvscSendBufferSize / size) ≠
        s.sent % (netvscSendBufferSize / size) := by
  unfold Untouched sendRndisDataPacket rndisPacketMessageSize
  rw [← h.count_eq, ← h.current]
  by_cases hcount : s.txSectionCount = 0
  · have hlarge : netvscSendBufferSize < size := by
      rw [h.count_eq, Nat.div_eq_zero_iff] at hcount
      omega
    unfold netvscSendBufferSize at hlarge
    simp only [if_pos hcount]
    refine iff_of_true (fun _ _ _ hsent => nomatch hsent) ⟨by omega, ?_⟩
    exact fun p hp => absurd hcount (h.outstanding p hp).2
  simp only [if_neg hcount, h.size_eq]
  constructor
  · intro hsafe
    have hbytes := hsafe _ _ _ rfl
    refine ⟨?_, fun p hp => ?_⟩
    · -- the last byte written
      have hlast := (hbytes (s.currentSectionIndex * size + (43 + bufferLen))
        (List.mem_range'_1.mpr (by omega))).1
      rw [Nat.mul_comm, Nat.mul_add_div (by omega)] at hlast
      have := (Nat.div_eq_zero_iff_lt (by omega)).mp (Nat.add_eq_left.mp hlast)
      omega
    · have hfirst :=
        (hbytes (s.currentSectionIndex * size) (List.mem_range'_1.mpr (by omega))).2 p hp
      rw [Nat.mul_div_cancel _ (by omega), (h.outstanding p hp).1] at hfirst
      exact hfirst.symm
  · rintro ⟨hfits, hfree⟩ s' sectionIndex bytes hsent b hb
    cases hsent
    obtain ⟨hlow, hhigh⟩ := List.mem_range'_1.mp hb
    have hb : b / size = s.currentSectionIndex := by
      apply Nat.div_eq_of_lt_le hlow
      rw [Nat.succ_mul]
      omega
    refine ⟨hb, fun p hp => ?_⟩
    rw [hb, (h.outstanding p hp).1]
    exact (hfree p hp).symm

/-- **Transmit sections.** In every reachable state the next packet is safe exactly when header and
frame fit in a section and no packet is outstanding whose number is the same modulo the number of
sections. -/
theorem run_untouched_iff {s₀ : Nic} {actions : List Action} {outs : List Unit} {bufferLen : Nat}
    (h₀ : negotiate size = some s₀) (hrun : run step s₀ actions = some (s, outs))
    (hlen : bufferLen ≤ 1518) :
    Untouched s bufferLen ↔ rndisPacketMessageSize + bufferLen ≤ size ∧
      ∀ p ∈ s.outstanding, p.1 % (netvscSendBufferSize / size) ≠
        s.sent % (netvscSendBufferSize / size) := by
  unfold negotiate at h₀
  split at h₀
  next hsize =>
    cases h₀
    have hcyclic : Cyclic size s := run_forall (fun s i s' o h (_ : True) hs => h.step hs)
      ⟨rfl, rfl, (Nat.zero_mod _).symm, by simp⟩ (guarded_of_forall (by simp) _ _) hrun
    exact hcyclic.untouched_iff hsize hlen
  · cases h₀

/-- With two sections the third frame is safe once the first is completed. -/
theorem run_untouched_iff_completed :
    ∃ s₀ outs, negotiate 16384 = some s₀ ∧
      run step s₀ [.send 60, .send 60, .complete 0] =
        some (⟨16384, 2, 0, 2, [(1, 1)]⟩, outs) ∧ Untouched ⟨16384, 2, 0, 2, [(1, 1)]⟩ 60 :=
  ⟨_, _, rfl, rfl, (@run_untouched_iff 16384 _ _ [.send 60, .send 60, .complete 0] _ 60 rfl rfl
    (by decide)).mpr (by decide)⟩

/-- With two sections the third frame is written over the first, which is not completed. -/
theorem not_untouched_third :
    ∃ s₀ s outs, negotiate 16384 = some s₀ ∧
      run step s₀ [.send 60, .send 60] = some (s, outs) ∧ ¬ Untouched s 60 := by
  refine ⟨_, _, _, rfl, rfl, fun h => ?_⟩
  exact (h _ _ _ rfl 0 (by decide)).2 (0, 0) (by decide) rfl

end Moose.Hyperv.Sections
