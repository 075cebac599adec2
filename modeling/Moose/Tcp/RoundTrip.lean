import Moose.Tcp.Numbers

/-!
# The round-trip estimators

`update_rtt_estimators` of `timestamp.rs` over a sequence of samples. Every division rounds down, so
SRTT can fall behind the smallest sample: each update loses less than 14/8 of a nanosecond, and
an eighth of the distance is made up for again, so it never falls behind by more than 14.
-/

set_option autoImplicit false

namespace Moose.Tcp.TcpControlBlock

open List TcpControlBlock

def largest (samples : List Duration) : Duration := samples.max?.getD 0
def smallest (samples : List Duration) : Duration := samples.min?.getD 0

/-- The bounds of the estimators when every sample is between `lo` and `hi`, and the timeout that
was computed from them. -/
structure Estimates (lo hi firstVar : Nat) (r : RttState) : Prop where
  srtt : ∃ srtt : Nat, r.srtt = some srtt ∧ srtt ≤ hi ∧ lo ≤ srtt + 14
  rttvar : ∃ rttvar : Nat, r.rttvar = some rttvar ∧ rttvar ≤ max firstVar (hi - lo + 14)
  rto : Duration.fromSecs 1 ≤ r.rto ∧ r.rto ≤ Duration.fromSecs 60

theorem rto_clamped (n : Nat) : Duration.fromSecs 1 ≤ min (max n (Duration.fromSecs 1))
    (Duration.fromSecs 60) ∧ min (max n (Duration.fromSecs 1)) (Duration.fromSecs 60) ≤
      Duration.fromSecs 60 := by
  have hle : Duration.fromSecs 1 ≤ Duration.fromSecs 60 := by decide
  exact ⟨le_min (le_max_right _ _) hle, min_le_right _ _⟩

variable {lo hi firstVar : Nat} {t : TcpControlBlock}

/-- **One more sample** overflows nothing and keeps the bounds. -/
theorem Estimates.update (h : Estimates lo hi firstVar t.rtt) {r : Nat} (hlo : lo ≤ r)
    (hhi : r ≤ hi)
    (hmax : hi ≤ 2 ^ 60) (hfirst : firstVar ≤ 2 ^ 60) :
    ∃ t', t.updateRttEstimators r = some t' ∧ Estimates lo hi firstVar t'.rtt := by
  obtain ⟨srtt, hsrtt, hs, hs'⟩ := h.srtt
  obtain ⟨rttvar, hrttvar, hv⟩ := h.rttvar
  have hsum := RttState.estimate_of_some hsrtt hrttvar (by omega) (by omega) r
  unfold updateRttEstimators
  rw [hsum]
  refine ⟨_, rfl, ⟨_, rfl, by omega⟩, ⟨_, rfl, ?_⟩, rto_clamped _⟩
  have hdiff : max srtt r - min srtt r ≤ hi - lo + 14 := by omega
  omega

/-- The first sample sets both. -/
theorem Estimates.first (hs : t.rtt.srtt = none) {r : Nat} (hlo : lo ≤ r) (hhi : r ≤ hi) :
    ∃ t', t.updateRttEstimators r = some t' ∧ Estimates lo hi (r / 2) t'.rtt := by
  unfold updateRttEstimators RttState.estimate
  rw [hs]
  exact ⟨_, rfl, ⟨r, rfl, hhi, Nat.le_add_right_of_le hlo⟩, ⟨r / 2, rfl, le_max_left _ _⟩,
    rto_clamped _⟩

theorem Estimates.foldlM (h : Estimates lo hi firstVar t.rtt) (hmax : hi ≤ 2 ^ 60)
    (hfirst : firstVar ≤ 2 ^ 60) (samples : List Duration)
    (hbounds : ∀ r ∈ samples, lo ≤ r ∧ r ≤ hi) :
    ∃ t', samples.foldlM updateRttEstimators t = some t' ∧ Estimates lo hi firstVar t'.rtt := by
  induction samples generalizing t with
  | nil => exact ⟨t, rfl, h⟩
  | cons r samples ih =>
    obtain ⟨hlo, hhi⟩ := hbounds r mem_cons_self
    obtain ⟨t1, hstep, h1⟩ := h.update hlo hhi hmax hfirst
    obtain ⟨t2, hrun, h2⟩ := ih h1 (fun q hq => hbounds q (mem_cons_of_mem r hq))
    refine ⟨t2, ?_, h2⟩
    rw [foldlM_cons, hstep]
    exact hrun

/-- **The estimators over any sequence of samples** of up to `2 ^ 60` nanoseconds, from a block that
has none yet: nothing overflows, SRTT is between the largest sample and 14 nanoseconds below the
smallest, RTTVAR is bounded by the first sample and by the spread, and the timeout is between a
second and a minute. -/
theorem updateRttEstimators_bounds (t : TcpControlBlock) (hsrtt : t.rtt.srtt = none) (r : Duration)
    (samples : List Duration) (hmax : ∀ q ∈ r :: samples, q ≤ 2 ^ 60) :
    ∃ t', (r :: samples).foldlM updateRttEstimators t = some t' ∧
      ∃ srtt rttvar : Nat, t'.rtt.srtt = some srtt ∧ t'.rtt.rttvar = some rttvar ∧
        srtt ≤ largest (r :: samples) ∧ smallest (r :: samples) ≤ srtt + 14 ∧
        rttvar ≤ max (r / 2) (largest (r :: samples) - smallest (r :: samples) + 14) ∧
        Duration.fromSecs 1 ≤ t'.rtt.rto ∧ t'.rtt.rto ≤ Duration.fromSecs 60 := by
  have hlo : ∀ q ∈ r :: samples, smallest (r :: samples) ≤ q :=
    fun q hq => min?_getD_le_of_mem hq
  have hhi : ∀ q ∈ r :: samples, q ≤ largest (r :: samples) :=
    fun q hq => le_max?_getD_of_mem hq
  have hlargest : largest (r :: samples) ≤ 2 ^ 60 := by
    cases hm : (r :: samples).max? with
    | none => cases max?_eq_none_iff.mp hm
    | some m =>
      rw [largest, hm]
      exact hmax m (max?_mem hm)
  obtain ⟨t1, hstep, h1⟩ := Estimates.first hsrtt (hlo r mem_cons_self)
    (hhi r mem_cons_self)
  have hfirst : r / 2 ≤ 2 ^ 60 := le_trans (Nat.div_le_self r 2) (hmax r mem_cons_self)
  obtain ⟨t2, hrun, ⟨srtt, hs, hs1, hs2⟩, ⟨rttvar, hv, hv1⟩, hrto⟩ := h1.foldlM hlargest hfirst
    samples (fun q hq => ⟨hlo q (mem_cons_of_mem r hq), hhi q (mem_cons_of_mem r hq)⟩)
  refine ⟨t2, ?_, srtt, rttvar, hs, hv, hs1, hs2, hv1, hrto⟩
  rw [foldlM_cons, hstep]
  exact hrun

/-- Five samples of a new connection, between a nanosecond and three minutes. -/
theorem updateRttEstimators_bounds_five :
    ∃ t', [1, 7, 180000000000, 3, 8].foldlM updateRttEstimators
        (TcpControlBlock.new 100 (.plain 4096) 0 0) = some t' ∧
      ∃ srtt rttvar : Nat, t'.rtt.srtt = some srtt ∧ t'.rtt.rttvar = some rttvar ∧
        srtt ≤ 180000000000 ∧ 1 ≤ srtt + 14 ∧ rttvar ≤ 180000000013 ∧
        Duration.fromSecs 1 ≤ t'.rtt.rto ∧ t'.rtt.rto ≤ Duration.fromSecs 60 :=
  updateRttEstimators_bounds (new 100 (.plain 4096) 0 0) rfl 1
    [7, 180000000000, 3, 8] (by decide)

end Moose.Tcp.TcpControlBlock
