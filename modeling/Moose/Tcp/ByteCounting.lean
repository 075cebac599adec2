import Mathlib.Algebra.BigOperators.Group.Finset.Basic
import Mathlib.Algebra.Order.BigOperators.Group.Finset
import Moose.Tcp.Numbers

/-!
# Appropriate byte counting

`grow_cwnd_value` of `cc/mod.rs` for Reno, over any sequence of calls. In congestion avoidance the
acknowledged bytes are collected, and every window's worth of them is exchanged for one more
segment. The window gets larger in between, so `k` segments cost the sum of the `k` windows on the
way. Nothing is lost and nothing is counted twice, as long as no 32-bit sum saturates.
-/

set_option autoImplicit false

namespace Moose.Tcp

open Lib

/-! ## The price of `k` segments -/

/-- The windows on the way from `wnd` to `wnd + k * smss`, without the last. -/
def windowSum (wnd smss k : Nat) : Nat := ∑ i ∈ Finset.range k, (wnd + i * smss)

theorem windowSum_zero (wnd smss : Nat) : windowSum wnd smss 0 = 0 := rfl

theorem windowSum_succ (wnd smss k : Nat) :
    windowSum wnd smss (k + 1) = windowSum wnd smss k + (wnd + k * smss) :=
  Finset.sum_range_succ _ k

/-- The first segment costs `wnd`, the others start from a window that is larger by one. -/
theorem windowSum_succ' (wnd smss k : Nat) :
    windowSum wnd smss (k + 1) = wnd + windowSum (wnd + smss) smss k := by
  induction k with
  | zero => simp [windowSum]
  | succ k ih =>
    rw [windowSum_succ, ih, windowSum_succ, Nat.succ_mul]
    omega

/-- A number of bytes pays for one number of segments only, with one remainder. -/
theorem windowSum_unique {wnd smss k k' a a' : Nat}
    (h : windowSum wnd smss k + a = windowSum wnd smss k' + a') (ha : a < wnd + k * smss)
    (ha' : a' < wnd + k' * smss) : k = k' ∧ a = a' := by
  have hle : ∀ {k k' a a' : Nat}, windowSum wnd smss k + a = windowSum wnd smss k' + a' →
      a < wnd + k * smss → k' ≤ k := by
    intro k k' a a' h ha
    by_contra hlt
    have hmono : windowSum wnd smss (k + 1) ≤ windowSum wnd smss k' :=
      Finset.sum_le_sum_of_subset (Finset.range_mono (Nat.lt_of_not_le hlt))
    rw [windowSum_succ] at hmono
    omega
  have hk : k = k' := le_antisymm (hle h.symm ha') (hle h ha)
  subst hk
  exact ⟨rfl, Nat.add_left_cancel h⟩

/-- The window after `k` segments is at most one segment above what they cost. -/
theorem window_le_of_windowSum_le {wnd smss k total : Nat} (h : windowSum wnd smss k ≤ total) :
    wnd + k * smss ≤ max wnd (total + smss) := by
  cases k with
  | zero =>
    rw [Nat.zero_mul]
    exact le_max_left _ _
  | succ k =>
    rw [windowSum_succ] at h
    rw [Nat.succ_mul]
    omega

/-! ## The loop -/

/-- **The accumulator loop** stops by itself, and has exchanged windows for segments. -/
theorem renoGrowth_spec (smss fuel accum wnd : Nat) (hwnd : 0 < wnd) (hfuel : accum < fuel)
    (hbelow : ∀ k, windowSum wnd smss k ≤ accum → wnd + k * smss < 2 ^ 32) :
    ∃ k, accum = windowSum wnd smss k + (renoGrowth smss fuel accum wnd).1 ∧
      (renoGrowth smss fuel accum wnd).2 = wnd + k * smss ∧
      (renoGrowth smss fuel accum wnd).1 < (renoGrowth smss fuel accum wnd).2 := by
  induction fuel generalizing accum wnd with
  | zero => exact absurd hfuel (Nat.not_lt_zero _)
  | succ fuel ih =>
    by_cases hdone : accum < wnd
    · refine ⟨0, ?_⟩
      rw [renoGrowth, if_pos (.inr hdone), windowSum_zero, Nat.zero_add, Nat.zero_mul, Nat.add_zero]
      exact ⟨rfl, rfl, hdone⟩
    have hgo : ¬ (wnd = 0 ∨ accum < wnd) := by omega
    have hfirst : windowSum wnd smss 1 = wnd := by rw [windowSum_succ']; rfl
    have hadd : satAdd32 wnd smss = wnd + smss := by
      have := hbelow 1 (by omega)
      unfold satAdd32
      omega
    have hbelow' : ∀ k, windowSum (wnd + smss) smss k ≤ accum - wnd →
        wnd + smss + k * smss < 2 ^ 32 := by
      intro k hk
      have := hbelow (k + 1) (by rw [windowSum_succ']; omega)
      rw [Nat.succ_mul] at this
      omega
    obtain ⟨k, hsum, hres, hlt⟩ := ih (accum - wnd) (wnd + smss) (by omega) (by omega)
      hbelow'
    refine ⟨k + 1, ?_⟩
    rw [renoGrowth, if_neg hgo, hadd, windowSum_succ']
    refine ⟨by omega, ?_, hlt⟩
    rw [hres, Nat.succ_mul]
    omega

/-! ## Calls -/

/-- An argument list of `grow_cwnd_value`, with the clock. -/
structure GrowCall where
  raw : Bool
  bytesAcked : Nat
  now : Instant

/-- One call, and what it saw. -/
structure Grown where
  before : Congestion
  call : GrowCall
  after : Congestion

/-- A call on the congestion record of a connection with the segment size `smss`. -/
def growStep (M : CubicMath) (smss : Nat) (c : Congestion) (call : GrowCall) :
    Option (Congestion × Grown) :=
  let c' := growCwndValue M call.now smss c call.raw call.bytesAcked
  some (c', ⟨c, call, c'⟩)

/-- No 32-bit sum of the call saturates: in slow start the new window fits, in congestion avoidance
the accumulator does and every window that the bytes pay for. -/
def BelowSaturation (smss : Nat) (c : Congestion) (call : GrowCall) : Prop :=
  call.bytesAcked < 2 ^ 32 ∧
    if c.wnd call.raw < c.ssthresh then
      c.wnd call.raw + min call.bytesAcked (c.abc.lSmss * smss) < 2 ^ 32
    else
      c.accum call.raw + call.bytesAcked < 2 ^ 32 ∧
        ∀ k, windowSum (c.wnd call.raw) smss k ≤ c.accum call.raw + call.bytesAcked →
          c.wnd call.raw + k * smss < 2 ^ 32

/-- **What a call does**: slow start adds the bytes up to the limit, congestion avoidance adds the
segments the bytes pay for and keeps the remainder. -/
structure Grown.Conserves (smss : Nat) (g : Grown) : Prop where
  le : g.before.wnd g.call.raw ≤ g.after.wnd g.call.raw
  slowStart : g.before.wnd g.call.raw < g.before.ssthresh →
    g.after.wnd g.call.raw = g.before.wnd g.call.raw +
      min g.call.bytesAcked (g.before.abc.lSmss * smss)
  avoidance : g.before.ssthresh ≤ g.before.wnd g.call.raw → ∃ k,
    g.after.wnd g.call.raw = g.before.wnd g.call.raw + k * smss ∧
    g.before.accum g.call.raw + g.call.bytesAcked =
      windowSum (g.before.wnd g.call.raw) smss k + g.after.accum g.call.raw ∧
    g.after.accum g.call.raw < g.after.wnd g.call.raw ∧
    ∀ k' a, g.before.accum g.call.raw + g.call.bytesAcked =
      windowSum (g.before.wnd g.call.raw) smss k' + a →
        a < g.before.wnd g.call.raw + k' * smss → k' = k ∧ a = g.after.accum g.call.raw

/-- Reno, with windows that are not zero and accumulators below them. -/
structure Congestion.Counting (c : Congestion) : Prop where
  reno : ∃ recover, c.algo = .reno recover
  wnd : ∀ raw, 0 < c.wnd raw
  accum : ∀ raw, c.accum raw < c.wnd raw

section

variable {c : Congestion} {M : CubicMath} {smss : Nat} {call : GrowCall}

theorem wnd_setWnd (raw : Bool) (w : Nat) : (c.setWnd raw w).wnd raw = w := by
  cases raw <;> rfl

theorem wnd_setWnd_not (raw : Bool) (w : Nat) : (c.setWnd raw w).wnd (!raw) = c.wnd (!raw) := by
  cases raw <;> rfl

theorem accum_setWnd (raw raw' : Bool) (w : Nat) : (c.setWnd raw w).accum raw' = c.accum raw' := by
  cases raw <;> rfl

theorem growCwndValue_avoidance (hreno : ∃ recover, c.algo = .reno recover)
    (hpos : call.bytesAcked ≠ 0) (hca : ¬ c.wnd call.raw < c.ssthresh) {accum wnd : Nat}
    (hloop : renoGrowth smss (satAdd32 (c.accum call.raw) call.bytesAcked + 1)
      (satAdd32 (c.accum call.raw) call.bytesAcked) (c.wnd call.raw) = (accum, wnd)) :
    growCwndValue M call.now smss c call.raw call.bytesAcked =
      (c.setAccum call.raw accum).setWnd call.raw wnd := by
  obtain ⟨recover, halgo⟩ := hreno
  have halgo' : (c.setAccum call.raw accum).algo = .reno recover := by
    rw [← halgo]
    cases call.raw <;> rfl
  simp only [growCwndValue, if_neg hpos, if_neg hca, hloop, halgo']

theorem forall_of_self_not {p : Bool → Prop} (raw : Bool) (h : p raw) (h' : p (!raw)) :
    ∀ b, p b := by
  intro b
  cases raw <;> cases b <;> assumption

/-- The equation of the accumulator fixes both the segments and the remainder. -/
theorem conserves_of_avoidance {c' : Congestion} {k : Nat}
    (hca : ¬ c.wnd call.raw < c.ssthresh) (hwnd : c'.wnd call.raw = c.wnd call.raw + k * smss)
    (hsum : c.accum call.raw + call.bytesAcked =
      windowSum (c.wnd call.raw) smss k + c'.accum call.raw)
    (hlt : c'.accum call.raw < c'.wnd call.raw) : Grown.Conserves smss ⟨c, call, c'⟩ where
  le := by
    rw [hwnd]
    exact Nat.le_add_right _ _
  slowStart hss := absurd hss hca
  avoidance _ := by
    refine ⟨k, hwnd, hsum, hlt, ?_⟩
    intro k' a hsum' ha
    exact windowSum_unique (hsum'.symm.trans hsum) ha (hwnd ▸ hlt)

theorem Congestion.Counting.grow_slowStart (h : c.Counting) (hpos : call.bytesAcked ≠ 0)
    (hacked : call.bytesAcked < 2 ^ 32) (hss : c.wnd call.raw < c.ssthresh)
    (hbelow : c.wnd call.raw + min call.bytesAcked (c.abc.lSmss * smss) < 2 ^ 32) :
    let c' := growCwndValue M call.now smss c call.raw call.bytesAcked
    Grown.Conserves smss ⟨c, call, c'⟩ ∧ c'.Counting := by
  have hcredit : min call.bytesAcked (min (smss * c.abc.lSmss) (2 ^ 32 - 1)) =
      min call.bytesAcked (c.abc.lSmss * smss) := by
    rw [Nat.mul_comm smss]
    omega
  have hadd : satAdd32 (c.wnd call.raw) (min call.bytesAcked (c.abc.lSmss * smss)) =
      c.wnd call.raw + min call.bytesAcked (c.abc.lSmss * smss) := by
    unfold satAdd32
    omega
  intro c'
  have hc' : c' = c.setWnd call.raw
      (c.wnd call.raw + min call.bytesAcked (c.abc.lSmss * smss)) := by
    rw [← hadd, ← hcredit]
    exact (if_neg hpos).trans (if_pos hss)
  have hwnd : c'.wnd call.raw =
      c.wnd call.raw + min call.bytesAcked (c.abc.lSmss * smss) := by
    rw [hc', wnd_setWnd]
  have hle : c.wnd call.raw ≤ c'.wnd call.raw := by
    rw [hwnd]
    exact Nat.le_add_right _ _
  have haccum : ∀ raw, c'.accum raw = c.accum raw := by
    intro raw
    rw [hc', accum_setWnd]
  have hother : c'.wnd (!call.raw) = c.wnd (!call.raw) := by rw [hc', wnd_setWnd_not]
  refine ⟨⟨hle, fun _ => hwnd, fun hca => absurd hss (Nat.not_lt.mpr hca)⟩, ?_, ?_, ?_⟩
  · obtain ⟨recover, halgo⟩ := h.reno
    refine ⟨recover, ?_⟩
    rw [hc', ← halgo]
    cases call.raw <;> rfl
  · exact forall_of_self_not call.raw (lt_of_lt_of_le (h.wnd _) hle) (hother ▸ h.wnd _)
  refine forall_of_self_not call.raw ?_ ?_
  · rw [haccum]
    exact lt_of_lt_of_le (h.accum _) hle
  rw [haccum, hother]
  exact h.accum _

theorem Congestion.Counting.grow_avoidance (h : c.Counting) (hpos : call.bytesAcked ≠ 0)
    (hca : ¬ c.wnd call.raw < c.ssthresh) (hfits : c.accum call.raw + call.bytesAcked < 2 ^ 32)
    (hbelow : ∀ k, windowSum (c.wnd call.raw) smss k ≤ c.accum call.raw + call.bytesAcked →
      c.wnd call.raw + k * smss < 2 ^ 32) :
    let c' := growCwndValue M call.now smss c call.raw call.bytesAcked
    Grown.Conserves smss ⟨c, call, c'⟩ ∧ c'.Counting := by
  have hadd : satAdd32 (c.accum call.raw) call.bytesAcked = c.accum call.raw + call.bytesAcked := by
    unfold satAdd32
    omega
  obtain ⟨k, hsum, hres, hlt⟩ := renoGrowth_spec smss _ (c.accum call.raw + call.bytesAcked)
    (c.wnd call.raw) (h.wnd call.raw) (Nat.lt_succ_self _) hbelow
  generalize hloop : renoGrowth smss (c.accum call.raw + call.bytesAcked).succ
    (c.accum call.raw + call.bytesAcked) (c.wnd call.raw) = r at hsum hres hlt
  obtain ⟨accum, wnd⟩ := r
  intro c'
  have hc' : c' = (c.setAccum call.raw accum).setWnd call.raw wnd :=
    growCwndValue_avoidance h.reno hpos hca (by rw [hadd]; exact hloop)
  have hwnd : c'.wnd call.raw = wnd := by rw [hc', wnd_setWnd]
  obtain ⟨haccum, hother, hother', halgo⟩ : c'.accum call.raw = accum ∧
      c'.wnd (!call.raw) = c.wnd (!call.raw) ∧ c'.accum (!call.raw) = c.accum (!call.raw) ∧
      c'.algo = c.algo := by
    rw [hc']
    cases call.raw <;> exact ⟨rfl, rfl, rfl, rfl⟩
  have hlt' : c'.accum call.raw < c'.wnd call.raw := by
    rw [haccum, hwnd]
    exact hlt
  refine ⟨conserves_of_avoidance hca (hwnd.trans hres) (haccum ▸ hsum) hlt', ?_, ?_, ?_⟩
  · rw [halgo]
    exact h.reno
  · exact forall_of_self_not call.raw (Nat.zero_lt_of_lt hlt') (hother ▸ h.wnd _)
  · exact forall_of_self_not call.raw hlt' (by rw [hother, hother']; exact h.accum _)

/-- **One call** conserves the bytes, and the next one can be made. -/
theorem Congestion.Counting.grow (h : c.Counting) (hbelow : BelowSaturation smss c call) :
    let c' := growCwndValue M call.now smss c call.raw call.bytesAcked
    Grown.Conserves smss ⟨c, call, c'⟩ ∧ c'.Counting := by
  obtain ⟨hacked, hbelow⟩ := hbelow
  by_cases hzero : call.bytesAcked = 0
  · -- nothing was acknowledged, and nothing changes
    have hc' : growCwndValue M call.now smss c call.raw call.bytesAcked = c := if_pos hzero
    rw [hc']
    refine ⟨?_, h⟩
    by_cases hss : c.wnd call.raw < c.ssthresh
    · refine ⟨le_rfl, fun _ => ?_, fun hca => absurd hss (Nat.not_lt.mpr hca)⟩
      rw [hzero, Nat.zero_min, Nat.add_zero]
    refine conserves_of_avoidance (k := 0) hss ?_ ?_ (h.accum _)
    · rw [Nat.zero_mul, Nat.add_zero]
    · rw [hzero, windowSum_zero, Nat.add_zero, Nat.zero_add]
  by_cases hss : c.wnd call.raw < c.ssthresh
  · rw [if_pos hss] at hbelow
    exact h.grow_slowStart hzero hacked hss hbelow
  rw [if_neg hss] at hbelow
  exact h.grow_avoidance hzero hss hbelow.1 hbelow.2

/-- **Any sequence of calls** below saturation, on the window and on its shadow, in any order: every
one of them returns and conserves the bytes. -/
theorem run_grow_conserves (M : CubicMath) (smss : Nat) (c : Congestion) (h : c.Counting)
    (calls : List GrowCall) (hbelow : Guarded (growStep M smss) (BelowSaturation smss) c calls) :
    ∃ c' grown, run (growStep M smss) c calls = some (c', grown) ∧
      grown.map (·.call) = calls ∧ ∀ g ∈ grown, g.Conserves smss := by
  induction calls generalizing c with
  | nil => exact ⟨c, [], rfl, rfl, List.forall_mem_nil _⟩
  | cons call calls ih =>
    obtain ⟨hcall, hrest⟩ := hbelow
    obtain ⟨hconserves, hcounting⟩ := h.grow (M := M) hcall
    obtain ⟨c', grown, hrun, hcalls, hgrown⟩ := ih _ hcounting (hrest _ _ rfl)
    refine ⟨c', _ :: grown, run_cons rfl hrun, ?_, ?_⟩
    · rw [List.map_cons, hcalls]
    · exact List.forall_mem_cons.mpr ⟨hconserves, hgrown⟩

end

/-- Reno with a window of three segments of 1000 bytes and a threshold above it. -/
def renoStart : Congestion where
  algo := .reno 0
  cwnd := 3000
  ssthresh := 4000
  inFastRecovery := false
  duplicateAckCount := 0
  cwv := ⟨false, true, 0, 0, none, 3000⟩
  abc := ⟨2, 0, 0⟩

/-- One ACK in slow start, then 10500 bytes in congestion avoidance: two segments for the windows of
5000 and 6000 bytes are too dear, one for 5000 is not. -/
def renoCalls : List GrowCall := [⟨false, 5000, 0⟩, ⟨false, 10500, 0⟩]

theorem run_grow_conserves_two : ∃ c' grown,
    run (growStep .integer 1000) renoStart renoCalls = some (c', grown) ∧ c'.cwnd = 6000 ∧
      c'.abc.caAccum = 5500 ∧ ∀ g ∈ grown, g.Conserves 1000 := by
  have hcounting : renoStart.Counting := by
    refine ⟨⟨0, rfl⟩, ?_, ?_⟩ <;> decide
  have hbelow : Guarded (growStep .integer 1000) (BelowSaturation 1000) renoStart renoCalls := by
    refine ⟨⟨by decide, ?_⟩, ?_⟩
    · rw [if_pos (by decide)]
      decide
    rintro c o ⟨⟩
    refine ⟨⟨by decide, ?_⟩, fun _ _ _ => trivial⟩
    rw [if_neg (by decide)]
    refine ⟨by decide, fun k hk => ?_⟩
    exact lt_of_le_of_lt (window_le_of_windowSum_le hk) (by decide)
  have heval : (run (growStep .integer 1000) renoStart renoCalls).map
      (fun r => (r.1.cwnd, r.1.abc.caAccum)) = some (6000, 5500) := by decide
  obtain ⟨c', grown, hrun, -, hgrown⟩ :=
    run_grow_conserves .integer 1000 renoStart hcounting renoCalls hbelow
  rw [hrun, Option.map_some, Option.some.injEq, Prod.mk.injEq] at heval
  exact ⟨c', grown, hrun, heval.1, heval.2, hgrown⟩

/-! ## CUBIC beside Reno -/

theorem le_renoGrowth_wnd (smss fuel : Nat) :
    ∀ accum wnd, wnd < 2 ^ 32 → wnd ≤ (renoGrowth smss fuel accum wnd).2 := by
  induction fuel with
  | zero => exact fun _ _ _ => le_rfl
  | succ fuel ih =>
    intro accum wnd hwnd
    rw [renoGrowth]
    split
    · exact le_rfl
    have hstep : wnd ≤ satAdd32 wnd smss ∧ satAdd32 wnd smss < 2 ^ 32 := by
      unfold satAdd32
      omega
    exact hstep.1.trans (ih _ _ hstep.2)

/-- The bytes pay for at most one segment. -/
def PaysOnce (smss : Nat) (c : Congestion) (call : GrowCall) : Prop :=
  call.bytesAcked = 0 ∨ c.wnd call.raw = 0 ∨
    satAdd32 (c.accum call.raw) call.bytesAcked < 2 * c.wnd call.raw + smss

instance (smss : Nat) (c : Congestion) (call : GrowCall) : Decidable (PaysOnce smss c call) :=
  inferInstanceAs (Decidable (_ ∨ _ ∨ _))

theorem renoGrowth_le_one_iff {smss accum wnd : Nat} (hsmss : 0 < smss) (hwnd : wnd < 2 ^ 32)
    (haccum : accum < 2 ^ 32) : (renoGrowth smss (accum + 1) accum wnd).2 ≤ satAdd32 wnd smss ↔
      wnd = 0 ∨ accum < 2 * wnd + smss := by
  have hself : wnd ≤ satAdd32 wnd smss := by
    unfold satAdd32
    omega
  rw [renoGrowth]
  by_cases hstop : wnd = 0 ∨ accum < wnd
  · rw [if_pos hstop]
    exact iff_of_true hself (by omega)
  rw [if_neg hstop]
  -- one segment has been paid for; the bytes that are left decide about a second
  obtain ⟨fuel, rfl⟩ : ∃ fuel, accum = fuel + 1 := ⟨accum - 1, by omega⟩
  rw [renoGrowth]
  by_cases hone : fuel + 1 - wnd < satAdd32 wnd smss
  · rw [if_pos (.inr hone)]
    refine iff_of_true le_rfl (.inr ?_)
    unfold satAdd32 at hone
    omega
  have hexact : satAdd32 wnd smss = wnd + smss ∧ wnd + smss < 2 ^ 32 - 1 := by
    unfold satAdd32 at hone ⊢
    omega
  rw [if_neg (by omega)]
  have hmore := le_renoGrowth_wnd smss fuel (fuel + 1 - wnd - satAdd32 wnd smss)
    (satAdd32 (satAdd32 wnd smss) smss) (by unfold satAdd32; omega)
  refine iff_of_false (fun hle => ?_) (by omega)
  have hsecond : satAdd32 wnd smss < satAdd32 (satAdd32 wnd smss) smss := by
    rw [hexact.1]
    unfold satAdd32
    omega
  omega

/-- The cap of one segment for a call decides: the result of CUBIC is above Reno's window exactly if
that is at most one segment up, whatever the curve says. -/
theorem le_capped_iff {wnd reno curve smss : Nat} (hreno : wnd ≤ reno) (hmax : reno < 2 ^ 32) :
    reno ≤ (if wnd < max curve reno then satAdd32 wnd (min (max curve reno - wnd) smss) else reno) ↔
      reno ≤ satAdd32 wnd smss := by
  unfold satAdd32
  split <;> omega

theorem renoGrowth_lt (smss fuel : Nat) :
    ∀ accum wnd, wnd < 2 ^ 32 → (renoGrowth smss fuel accum wnd).2 < 2 ^ 32 := by
  induction fuel with
  | zero => exact fun _ _ h => h
  | succ fuel ih =>
    intro accum wnd hwnd
    rw [renoGrowth]
    split
    · exact hwnd
    · exact ih _ _ (by unfold satAdd32; omega)

/-- **CUBIC keeps up with Reno exactly if the bytes pay for at most one segment**: in congestion
avoidance, from the same window, threshold and accumulator, whatever the curve says. -/
theorem reno_le_cubic_iff (M : CubicMath) (smss : Nat) (hsmss : 0 < smss) (cubic reno : Congestion)
    (state : CubicState) (hcubic : cubic.algo = .cubic state) (recover : SeqNum)
    (hreno : reno.algo = .reno recover) (call : GrowCall)
    (hwnd : reno.wnd call.raw = cubic.wnd call.raw) (hssthresh : reno.ssthresh = cubic.ssthresh)
    (haccum : reno.accum call.raw = cubic.accum call.raw)
    (hca : cubic.ssthresh ≤ cubic.wnd call.raw) (hmax : cubic.wnd call.raw < 2 ^ 32) :
    (growCwndValue M call.now smss reno call.raw call.bytesAcked).wnd call.raw ≤
        (growCwndValue M call.now smss cubic call.raw call.bytesAcked).wnd call.raw ↔
      PaysOnce smss cubic call := by
  by_cases hzero : call.bytesAcked = 0
  · rw [growCwndValue, growCwndValue, if_pos hzero, if_pos hzero, hwnd]
    exact iff_of_true le_rfl (.inl hzero)
  have hca' : ¬ cubic.wnd call.raw < cubic.ssthresh := Nat.not_lt.mpr hca
  have hle := le_renoGrowth_wnd smss (satAdd32 (cubic.accum call.raw) call.bytesAcked + 1)
    (satAdd32 (cubic.accum call.raw) call.bytesAcked) (cubic.wnd call.raw) hmax
  have hlt := renoGrowth_lt smss (satAdd32 (cubic.accum call.raw) call.bytesAcked + 1)
    (satAdd32 (cubic.accum call.raw) call.bytesAcked) (cubic.wnd call.raw) hmax
  have hsum : satAdd32 (cubic.accum call.raw) call.bytesAcked < 2 ^ 32 := by
    unfold satAdd32
    omega
  have hpays := renoGrowth_le_one_iff hsmss hmax hsum
  rcases hloop : renoGrowth smss (satAdd32 (cubic.accum call.raw) call.bytesAcked + 1)
    (satAdd32 (cubic.accum call.raw) call.bytesAcked) (cubic.wnd call.raw) with ⟨accum, wnd⟩
  rw [hloop] at hle hlt hpays
  have hrenoWnd : (growCwndValue M call.now smss reno call.raw call.bytesAcked).wnd call.raw =
      wnd := by
    have hloop' : renoGrowth smss (satAdd32 (reno.accum call.raw) call.bytesAcked + 1)
        (satAdd32 (reno.accum call.raw) call.bytesAcked) (reno.wnd call.raw) = (accum, wnd) := by
      rw [haccum, hwnd, hloop]
    have hca'' : ¬ reno.wnd call.raw < reno.ssthresh := by rwa [hwnd, hssthresh]
    rw [growCwndValue_avoidance ⟨recover, hreno⟩ hzero hca'' hloop', wnd_setWnd]
  have hcubicWnd : (growCwndValue M call.now smss cubic call.raw call.bytesAcked).wnd call.raw =
      if cubic.wnd call.raw < max (M.window state (call.now - state.epochStart)) wnd then
        satAdd32 (cubic.wnd call.raw)
          (min (max (M.window state (call.now - state.epochStart)) wnd - cubic.wnd call.raw) smss)
      else wnd := by
    have halgo : (cubic.setAccum call.raw accum).algo = .cubic state := by
      rw [← hcubic]
      cases call.raw <;> rfl
    simp only [growCwndValue, if_neg hzero, if_neg hca', hloop, halgo]
    split <;> rw [wnd_setWnd]
  rw [hrenoWnd, hcubicWnd, le_capped_iff hle hlt, hpays, PaysOnce, or_iff_right hzero]

/-- Three segments of 1000 bytes, in congestion avoidance. -/
def cubicStart : Congestion :=
  { renoStart with algo := .cubic ⟨3000, 0, 0, 0, 717, 410, 0⟩, ssthresh := 2000 }

theorem reno_le_cubic_iff_one :
    (growCwndValue .integer 5 1000 { cubicStart with algo := .reno 0 } false 4000).wnd false ≤
      (growCwndValue .integer 5 1000 cubicStart false 4000).wnd false :=
  (reno_le_cubic_iff .integer 1000 (by decide) cubicStart { cubicStart with algo := .reno 0 }
    ⟨3000, 0, 0, 0, 717, 410, 0⟩ rfl 0 rfl ⟨false, 4000, 5⟩ rfl rfl rfl (by decide)
    (by decide)).mpr (by decide)

/-- One acknowledgement for 8000 bytes pays for two segments: Reno's window is 5000, CUBIC's stops
at 4000. -/
theorem cubic_slower_than_reno :
    (growCwndValue .integer 5 1000 { cubicStart with algo := .reno 0 } false 8000).wnd false =
      5000 ∧
      (growCwndValue .integer 5 1000 cubicStart false 8000).wnd false = 4000 := by
  decide

end Moose.Tcp
