import Moose.Lib.Run
import Moose.Memory.Manager

/-!
# Frames in a row

`FrameAllocator::new` and `MemoryManager::allocate_frames_contiguous`. The allocator hands the
frames of the usable entries out one by one, in the order of the memory map. A request for several
frames takes the next ones and answers with the first: they lie in a row only where no entry ends
among them.
-/

set_option autoImplicit false

namespace Moose.Memory

open List BitVec Lib

structure MapEntry where
  base : PhysicalAddress
  length : Nat
  usable : Bool
  aligned : base.toNat % pageSize = 0 ∧ length % pageSize = 0
  bounded : base.toNat + length < 2 ^ 64

/-- The frame after `i` others of the entry. -/
def MapEntry.frame (e : MapEntry) (i : Nat) : Frame where
  address := e.base + BitVec.ofNat 64 (i * pageSize)
  aligned := by
    have h := e.aligned.1
    rw [BitVec.toNat_add, BitVec.toNat_ofNat]
    unfold pageSize at *
    omega

/-- `(base..base + length).step_by(FRAME_SIZE)`. -/
def MapEntry.frames (e : MapEntry) : List Frame :=
  (range ((e.length + (pageSize - 1)) / pageSize)).map e.frame

namespace FrameAllocator

def new (entries : List MapEntry) : FrameAllocator :=
  { frames := (entries.filter (·.usable)).flatMap MapEntry.frames, n := 0 }

/-- The loop of `allocate_frames_contiguous`, which gives up with the first frame that is missing.
-/
def allocateRest : Nat → FrameAllocator → Bool × FrameAllocator
  | 0, a => (true, a)
  | k + 1, a =>
    match a.allocate with
    | (none, a) => (false, a)
    | (some _, a) => allocateRest k a

def allocateFramesContiguous (a : FrameAllocator) (n : Nat) : Option Frame × FrameAllocator :=
  let (firstFrame, a) := a.allocate
  match allocateRest (n - 1) a with
  | (false, a) => (none, a)
  | (true, a) => (firstFrame, a)

inductive Call where
  | allocateFrame
  | allocateFramesContiguous (n : Nat)

def Call.count : Call → Nat
  | .allocateFrame => 1
  | .allocateFramesContiguous n => max n 1

/-- What the caller may use from an answer on. -/
def granted (count : Nat) (frame : Option Frame) : List PhysicalAddress :=
  frame.toList.flatMap fun f => (List.range count).map fun i =>
    f.address + BitVec.ofNat 64 (i * pageSize)

def step (a : FrameAllocator) (c : Call) : Option (FrameAllocator × List PhysicalAddress) :=
  let (frame, a) := match c with
    | .allocateFrame => a.allocate
    | .allocateFramesContiguous n => a.allocateFramesContiguous n
  some (a, granted c.count frame)

/-- The frames that the call takes follow one another. -/
def CallOk (a : FrameAllocator) (c : Call) : Prop :=
  ((a.frames.drop a.n).take c.count).IsChain fun f g =>
    g.address = f.address + BitVec.ofNat 64 pageSize

instance (a : FrameAllocator) (c : Call) : Decidable (a.CallOk c) :=
  inferInstanceAs (Decidable (List.IsChain _ _))

def Disjoint (entries : List MapEntry) : Prop :=
  entries.Pairwise fun e e' =>
    e.base.toNat + e.length ≤ e'.base.toNat ∨ e'.base.toNat + e'.length ≤ e.base.toNat

instance (entries : List MapEntry) : Decidable (Disjoint entries) :=
  inferInstanceAs (Decidable (List.Pairwise _ _))

def Usable (entries : List MapEntry) (x : PhysicalAddress) : Prop :=
  ∃ e ∈ entries, e.usable = true ∧ e.base.toNat ≤ x.toNat ∧
    x.toNat + pageSize ≤ e.base.toNat + e.length

instance (entries : List MapEntry) (x : PhysicalAddress) : Decidable (Usable entries x) :=
  inferInstanceAs (Decidable (∃ e ∈ entries, _))

variable {a a' : FrameAllocator} {entries : List MapEntry}

/-! ## The list of frames -/

theorem toNat_frame {e : MapEntry} {i : Nat}
    (hi : i ∈ range ((e.length + (pageSize - 1)) / pageSize)) :
    (e.frame i).address.toNat = e.base.toNat + i * pageSize := by
  have haligned := e.aligned
  have hbounded := e.bounded
  rw [mem_range] at hi
  rw [MapEntry.frame, toNat_add, toNat_ofNat]
  unfold pageSize at *
  omega

theorem mem_frames {e : MapEntry} {f : Frame} (hf : f ∈ e.frames) :
    e.base.toNat ≤ f.address.toNat ∧
      f.address.toNat + pageSize ≤ e.base.toNat + e.length := by
  obtain ⟨i, hi, rfl⟩ := mem_map.mp hf
  have haligned := e.aligned
  rw [toNat_frame hi]
  rw [mem_range] at hi
  unfold pageSize at *
  omega

theorem nodup_frames (h : Disjoint entries) : ((new entries).frames.map Frame.address).Nodup := by
  rw [new, List.map_flatMap]
  refine List.nodup_flatMap.mpr ⟨fun e he => ?_, ?_⟩
  · rw [MapEntry.frames, List.map_map]
    refine List.nodup_range.map_on fun i hi j hj heq => ?_
    have hsame := congrArg BitVec.toNat heq
    rw [Function.comp_apply, Function.comp_apply, toNat_frame hi, toNat_frame hj] at hsame
    unfold pageSize at hsame
    omega
  refine (h.filter _).imp fun {e e'} hapart => ?_
  intro x hx hx'
  obtain ⟨f, hf, rfl⟩ := List.mem_map.mp hx
  obtain ⟨f', hf', heq⟩ := List.mem_map.mp hx'
  have hin := mem_frames hf
  have hin' := mem_frames hf'
  rw [heq] at hin'
  unfold pageSize at *
  omega

/-- Frames that follow one another are named by the first. -/
theorem map_address_eq {f : Frame} {fs : List Frame}
    (h : (f :: fs).IsChain fun f g => g.address = f.address + BitVec.ofNat 64 pageSize) :
    (f :: fs).map Frame.address = granted (fs.length + 1) (some f) := by
  induction fs generalizing f with
  | nil => simp [granted]
  | cons g fs ih =>
    obtain ⟨hg, hfs⟩ := List.isChain_cons_cons.mp h
    rw [List.map_cons, ih hfs]
    have hshift : ∀ i : Nat, g.address + BitVec.ofNat 64 (i * pageSize) =
        f.address + BitVec.ofNat 64 ((i + 1) * pageSize) := by
      intro i
      rw [hg, BitVec.add_assoc, ← BitVec.ofNat_add, Nat.succ_mul, Nat.add_comm pageSize]
    simp [granted, List.range_succ_eq_map (n := fs.length + 1), hshift, Function.comp_def]

/-! ## Every run -/

/-- The loop takes all the frames it asks for, or fails. -/
theorem allocateRest_spec (k : Nat) (a : FrameAllocator) :
    ∃ m, (allocateRest k a).2 = { a with n := a.n + m } ∧
      ((allocateRest k a).1 = true → m = k ∧ (k = 0 ∨ a.n + k ≤ a.frames.length)) := by
  induction k generalizing a with
  | zero => exact ⟨0, rfl, fun _ => ⟨rfl, .inl rfl⟩⟩
  | succ k ih =>
    unfold allocateRest allocate
    cases hf : a.frames[a.n]? with
    | none => exact ⟨1, rfl, nofun⟩
    | some f =>
      have hlt := (List.getElem?_eq_some_iff.mp hf).1
      obtain ⟨m, heq, hm⟩ := ih { a with n := a.n + 1 }
      refine ⟨m + 1, heq.trans (by rw [Nat.add_right_comm]; rfl), fun h => ?_⟩
      obtain ⟨rfl, hk⟩ := hm h
      exact ⟨rfl, .inr (by dsimp only at hk; omega)⟩

theorem allocateFramesContiguous_spec (a : FrameAllocator) (n : Nat) :
    ∃ m, (a.allocateFramesContiguous n).2 = { a with n := a.n + m } ∧
      ((a.allocateFramesContiguous n).1 = none ∨ m = max n 1 ∧ a.n + m ≤ a.frames.length ∧
        (a.allocateFramesContiguous n).1 = a.frames[a.n]?) := by
  obtain ⟨m, heq, hm⟩ := allocateRest_spec (n - 1) { a with n := a.n + 1 }
  refine ⟨m + 1, ?_⟩
  unfold allocateFramesContiguous allocate
  dsimp only
  generalize allocateRest (n - 1) { a with n := a.n + 1 } = rest at heq hm
  obtain ⟨all, a'⟩ := rest
  cases all with
  | false => exact ⟨by rw [heq, Nat.add_right_comm]; rfl, .inl rfl⟩
  | true =>
    obtain ⟨rfl, hk⟩ := hm rfl
    refine ⟨by rw [heq, Nat.add_right_comm]; rfl, ?_⟩
    cases hf : a.frames[a.n]? with
    | none => exact .inl rfl
    | some f =>
      have hlt := (List.getElem?_eq_some_iff.mp hf).1
      exact .inr ⟨by omega, by dsimp only at hk; omega, rfl⟩

/-- A call takes frames from the front, and grants those it took or nothing. -/
theorem step_spec {c : Call} {out : List PhysicalAddress} (hok : a.CallOk c)
    (h : a.step c = some (a', out)) : ∃ m, a' = { a with n := a.n + m } ∧
      (out = [] ∨ out = ((a.frames.drop a.n).take m).map Frame.address) := by
  -- one frame is a row of one
  obtain ⟨n, hcount, hcall⟩ : ∃ n, c.count = max n 1 ∧ a.step c =
      some ((a.allocateFramesContiguous n).2,
        granted c.count (a.allocateFramesContiguous n).1) := by
    cases c with
    | allocateFrame => exact ⟨1, rfl, rfl⟩
    | allocateFramesContiguous n => exact ⟨n, rfl, rfl⟩
  obtain ⟨m, heq, hanswer⟩ := a.allocateFramesContiguous_spec n
  rw [hcall] at h
  cases h
  refine ⟨m, heq, hanswer.imp (fun hnone => by rw [hnone]; rfl) fun ⟨hm, hle, hfirst⟩ => ?_⟩
  have hn : a.n < a.frames.length := by omega
  obtain ⟨k, hk⟩ : ∃ k, m = k + 1 := ⟨m - 1, by omega⟩
  unfold CallOk at hok
  rw [hcount, ← hm, hk, List.drop_eq_getElem_cons hn, List.take_succ_cons] at hok
  rw [hcount, ← hm, hk, hfirst, List.drop_eq_getElem_cons hn, List.take_succ_cons,
    map_address_eq hok, List.getElem?_eq_getElem hn, List.length_take, List.length_drop,
    Nat.min_eq_left (by omega)]

/-- What was granted so far are frames in front of the counter. -/
def Handed (entries : List MapEntry) (outs : List (List PhysicalAddress)) (a : FrameAllocator) :
    Prop :=
  a.frames = (new entries).frames ∧ outs.flatten.Sublist ((a.frames.take a.n).map Frame.address)

theorem step_handed (entries : List MapEntry) (past : List (List PhysicalAddress))
    (a : FrameAllocator) (c : Call) (a' : FrameAllocator) (out : List PhysicalAddress)
    (hinv : Handed entries past a) (hok : a.CallOk c) (h : a.step c = some (a', out)) :
    Handed entries (past ++ [out]) a' := by
  obtain ⟨m, rfl, hout⟩ := step_spec hok h
  refine ⟨hinv.1, ?_⟩
  rw [flatten_append, flatten_singleton, take_add, map_append]
  refine hinv.2.append ?_
  rcases hout with rfl | rfl
  · exact nil_sublist _
  · exact List.Sublist.refl _

/-- **Frames of a request lie in usable memory and belong to no one else**, in every run in which
no request reaches over a gap of the memory map. -/
theorem run_granted (entries : List MapEntry) (hmap : Disjoint entries) (calls : List Call)
    (hok : Guarded step CallOk (new entries) calls) (outs : List (List PhysicalAddress))
    (hrun : run step (new entries) calls = some (a', outs)) :
    outs.flatten.Nodup ∧ ∀ x ∈ outs.flatten, Usable entries x := by
  have hinv := run_history (step_handed entries) ⟨rfl, nil_sublist _⟩ hok hrun
  have hsub := hinv.2.trans ((take_sublist _ _).map Frame.address)
  rw [hinv.1] at hsub
  refine ⟨(nodup_frames hmap).sublist hsub, fun x hx => ?_⟩
  obtain ⟨f, hf, rfl⟩ := mem_map.mp (hsub.subset hx)
  obtain ⟨e, he, hf⟩ := mem_flatMap.mp hf
  obtain ⟨he, husable⟩ := mem_filter.mp he
  exact ⟨e, he, husable, mem_frames hf⟩

/-- Two usable regions of two pages with a page between them. -/
def twoRegions : List MapEntry :=
  [⟨0x1000#64, 0x2000, true, by decide, by decide⟩,
    ⟨0x3000#64, 0x1000, false, by decide, by decide⟩,
    ⟨0x4000#64, 0x2000, true, by decide, by decide⟩]

theorem run_granted_twoRegions : ∃ a outs,
    run step (new twoRegions) [.allocateFramesContiguous 2, .allocateFrame, .allocateFrame] =
      some (a, outs) ∧ outs.flatten.Nodup ∧ ∀ x ∈ outs.flatten, Usable twoRegions x :=
  ⟨_, _, rfl, run_granted twoRegions (by decide)
    [.allocateFramesContiguous 2, .allocateFrame, .allocateFrame] (by decide +kernel) _ rfl⟩

/-- After one frame, a request for two reaches over the gap: its second frame is not usable. -/
theorem contiguous_over_gap : Disjoint twoRegions ∧
    (run step (new twoRegions) [.allocateFrame, .allocateFramesContiguous 2]).map (·.2) =
      some [[0x1000#64], [0x2000#64, 0x3000#64]] ∧
    ¬ Usable twoRegions 0x3000#64 :=
  ⟨by decide, by decide +kernel, by decide⟩

end FrameAllocator
end Moose.Memory
