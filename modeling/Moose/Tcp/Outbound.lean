import Mathlib.Logic.Relation
import Moose.Lib.Spans
import Moose.Tcp.Frame

/-!
# The outgoing stream

What the send side of a connection may do, without timers and congestion control: it hears a window
or an acknowledgement, it sends from its buffer as far as the window allows, it takes bytes from the
application, it closes with a FIN, or it is reset. `Outbound` adds the two histories, the segments
queued so far and the bytes accepted so far.

Sequence numbers are read as positions: SND.UNA is at position `u`, SND.NXT at position `x`, and
`x` counts everything that was ever queued. The results are about any order of these moves.
-/

set_option autoImplicit false

namespace Moose.Tcp

open List SentCore SeqNum

open Relation (ReflTransGen)

def SentCore.endSeq (e : SentCore) : SeqNum := e.seq + BitVec.ofNat 32 e.seqLen

/-- The entries an acknowledgement leaves in the queue. -/
def SentCore.above (ack : SeqNum) (queue : List SentCore) : List SentCore :=
  Spans.above SentCore.seq SentCore.seqLen ack queue

def SentCore.bytes (log : List SentCore) : List UInt8 := log.flatMap (·.data)

/-- The largest window a peer can advertise. -/
def maxPeerWnd : Nat := 65535 * 2 ^ 14

namespace SndView

/-- What a segment from the peer may change. -/
inductive Hears (v : SndView) : SndView → Prop where
  | window (wnd : Nat) (h : wnd ≤ 65535 * 2 ^ v.wscale) : v.Hears { v with wnd := wnd }
  | ack (a : SeqNum) (h : (a - v.una).toNat ≤ (v.nxt - v.una).toNat) :
      v.Hears { v with una := a, queue := SentCore.above a v.queue }

/-- The buffer is cut into `n` bytes that go out now and the rest. -/
def push (v : SndView) (n : Nat) (flags : Flags) : SndView :=
  { v with
    nxt := v.nxt + BitVec.ofNat 32 n
    queue := v.queue ++ [⟨v.nxt, v.sendBuffer.take n, flags⟩]
    sendBuffer := v.sendBuffer.drop n }

/-- Segments go out one after the other while the peer's window has room. -/
inductive Sending : SndView → List SentCore → SndView → Prop where
  | done (v : SndView) : Sending v [] v
  | segment {v v' : SndView} {out : List SentCore} (n : Nat) (flags : Flags)
      (hsyn : flags.syn = false) (hfin : flags.fin = false) (hpos : 0 < n)
      (hlen : n ≤ v.sendBuffer.length) (hroom : (v.nxt - v.una).toNat + n ≤ v.wnd)
      (hrest : Sending (v.push n flags) out v') :
      Sending v (⟨v.nxt, v.sendBuffer.take n, flags⟩ :: out) v'

def fin (v : SndView) (flags : Flags) : SndView :=
  { v with nxt := v.nxt + 1, queue := v.queue ++ [⟨v.nxt, [], flags⟩] }

theorem Sending.queue {v v' : SndView} {out : List SentCore} (h : Sending v out v') :
    v'.queue = v.queue ++ out := by
  induction h with
  | done v => rw [append_nil]
  | segment n flags _ _ _ _ _ _ ih =>
    rw [ih]
    exact append_assoc _ _ _

end SndView

/-- The send side with its histories. `finished` is set once the connection can neither send nor
close any more. -/
structure Outbound where
  view : SndView
  log : List SentCore
  accepted : List UInt8
  finished : Bool

inductive Move where
  | talk | accept (data : List UInt8) | close | reset
deriving DecidableEq

namespace Outbound

inductive Moves (o : Outbound) : Move → Outbound → Prop where
  | talk {v v' : SndView} {out : List SentCore} (hin : ReflTransGen SndView.Hears o.view v)
      (hout : v.Sending out v') (finished : Bool) (h : o.finished = true → finished = true) :
      o.Moves .talk ⟨v', o.log ++ out, o.accepted, finished⟩
  | accept {v' : SndView} {out : List SentCore} (data : List UInt8) (h : o.finished = false)
      (hout : { o.view with sendBuffer := o.view.sendBuffer ++ data }.Sending out v') :
      o.Moves (.accept data) ⟨v', o.log ++ out, o.accepted ++ data, false⟩
  | close (flags : Flags) (hfin : flags.fin = true) (h : o.finished = false) :
      o.Moves .close
        ⟨o.view.fin flags, o.log ++ [⟨o.view.nxt, [], flags⟩], o.accepted, true⟩
  | reset : o.Moves .reset ⟨{ o.view with queue := [] }, o.log, o.accepted, true⟩

/-! ## Numbers -/

/-- An entry of the queue: part of it is above SND.UNA and none of it above SND.NXT. -/
def Live (iss : SeqNum) (u x : Nat) (e : SentCore) : Prop :=
  ∃ p, e.seq = SeqNum.pos iss p ∧ u < p + e.seqLen ∧ p + e.seqLen ≤ x ∧ e.seqLen ≤ maxPeerWnd

/-- The sequence variables and the histories agree. One number beyond the window is left for the
FIN. -/
structure Ok (o : Outbound) (u x : Nat) : Prop where
  wscale : o.view.wscale ≤ 14
  wnd : o.view.wnd ≤ maxPeerWnd
  una : o.view.una = SeqNum.pos o.view.iss u
  nxt : o.view.nxt = SeqNum.pos o.view.iss x
  le : u ≤ x
  flight : x ≤ u + maxPeerWnd + o.finished.toNat
  log : Spans SentCore.seq SentCore.seqLen o.view.iss x 0 o.log
  live : ∀ e ∈ o.view.queue, Live o.view.iss u x e
  queued : ∀ e ∈ o.view.queue, e ∈ o.log
  accepted : o.accepted = SentCore.bytes o.log ++ o.view.sendBuffer

/-- The queue runs without a gap up to SND.NXT, and SND.UNA is in its first entry. -/
def Covers (iss : SeqNum) (queue : List SentCore) (u x : Nat) : Prop :=
  ∃ a, a ≤ u ∧ Spans SentCore.seq SentCore.seqLen iss x a queue ∧
    ∀ e es, queue = e :: es → u < a + e.seqLen

variable {o o' : Outbound} {v v' : SndView} {u x : Nat} {out : List SentCore}

theorem maxPeerWnd_lt : 2 * maxPeerWnd + 2 < 2 ^ 31 := by
  unfold maxPeerWnd
  norm_num

theorem window_le_maxPeerWnd {wnd shift : Nat} (h : wnd ≤ 65535 * 2 ^ shift) (hs : shift ≤ 14) :
    wnd ≤ maxPeerWnd :=
  Nat.le_trans h (Nat.mul_le_mul_left _ (Nat.pow_le_pow_right (by norm_num) hs))

theorem Ok.flight_lt (h : o.Ok u x) : x < u + 2 ^ 31 := by
  have := h.flight
  have := maxPeerWnd_lt
  have := Bool.toNat_le o.finished
  omega

theorem Ok.toNat_flight (h : o.Ok u x) : (o.view.nxt - o.view.una).toNat = x - u := by
  have := h.flight_lt
  have := h.le
  rw [h.una, h.nxt]
  exact toNat_pos_sub _ h.le (by omega)

/-- SND.NXT counts everything that was queued. -/
theorem Ok.used (h : o.Ok u x) : x = (o.log.map (·.seqLen)).sum := by
  have hspans := h.log
  rw [← append_nil o.log] at hspans
  exact (hspans.append_inv.symm.trans (Nat.zero_add _))

/-- **An acceptable acknowledgement** is a position between SND.UNA and SND.NXT. -/
theorem Ok.acceptable_iff (h : o.Ok u x) {a : SeqNum} :
    (a - o.view.una).toNat ≤ (o.view.nxt - o.view.una).toNat ↔
      ∃ k, u ≤ k ∧ k ≤ x ∧ a = pos o.view.iss k := by
  have := h.flight_lt
  have := h.le
  rw [h.toNat_flight, h.una]
  constructor
  · intro ha
    exact ⟨_, Nat.le_add_right _ _, by omega, eq_pos_toNat_sub o.view.iss a u⟩
  rintro ⟨k, huk, hkx, rfl⟩
  rw [toNat_pos_sub _ huk (by omega)]
  omega

theorem Live.mono {iss : SeqNum} {u' x' : Nat} {e : SentCore} (h : Live iss u x e)
    (hu : ∀ p, e.seq = pos iss p → u < p + e.seqLen → p + e.seqLen ≤ x →
      u' < p + e.seqLen) (hx : x ≤ x') : Live iss u' x' e := by
  obtain ⟨p, hp, hup, hpx, hlen⟩ := h
  exact ⟨p, hp, hu p hp hup hpx, Nat.le_trans hpx hx, hlen⟩

/-- The numbers of a live entry lie below SND.NXT in the order modulo `2^32`. -/
theorem Ok.live_below (h : o.Ok u x) {e : SentCore} (he : Live o.view.iss u x e) {n : Nat}
    (hn : n < e.seqLen) : dist (e.seq + BitVec.ofNat 32 n) o.view.nxt < 0 := by
  obtain ⟨p, hp, hup, hpx, hlen⟩ := he
  have := h.flight
  have := maxPeerWnd_lt
  have := Bool.toNat_le o.finished
  rw [hp, pos_add, h.nxt, dist_pos _ (by omega) (by omega)]
  omega

/-! ## One move -/

theorem mem_above {a : SeqNum} {queue : List SentCore} {e : SentCore} :
    e ∈ above a queue ↔ e ∈ queue ∧ dist a e.endSeq < 0 := by
  rw [above, Spans.above, mem_filter, decide_eq_true_iff]
  rfl

/-- The first entry starts less than `2^31` below SND.NXT. -/
theorem Ok.near (h : o.Ok u x) {a : Nat}
    (hspans : Spans seq seqLen o.view.iss x a o.view.queue)
    (hhead : ∀ e es, o.view.queue = e :: es → u < a + e.seqLen) : x < a + 2 ^ 31 := by
  cases hq : o.view.queue with
  | nil =>
    rw [hq] at hspans
    rw [show a = x from hspans]
    exact Nat.lt_add_of_pos_right (by norm_num)
  | cons e es =>
    have hua := hhead e es hq
    obtain ⟨p, -, -, -, hlen⟩ := h.live e (by rw [hq]; exact mem_cons_self)
    have := h.flight
    have := maxPeerWnd_lt
    have := Bool.toNat_le o.finished
    omega

theorem Ok.covers_ack (h : o.Ok u x) (hc : Covers o.view.iss o.view.queue u x) {k : Nat}
    (huk : u ≤ k) (hkx : k ≤ x) :
    Covers o.view.iss (above (pos o.view.iss k) o.view.queue) k x := by
  obtain ⟨a, hau, hspans, hhead⟩ := hc
  obtain ⟨a', -, hak, hspans', hhead'⟩ :=
    hspans.drain (Nat.le_trans hau huk) hkx (h.near hspans hhead)
  exact ⟨a', hak, hspans', hhead'⟩

theorem Covers.append {iss : SeqNum} {queue : List SentCore} (hc : Covers iss queue u x)
    (hux : u ≤ x) {e : SentCore} (hseq : e.seq = pos iss x) (hlen : 0 < e.seqLen) :
    Covers iss (queue ++ [e]) u (x + e.seqLen) := by
  obtain ⟨a, hau, hspans, hhead⟩ := hc
  refine ⟨a, hau, hspans.append hseq hlen, ?_⟩
  cases queue with
  | nil =>
    intro d ds hq
    cases hq
    rw [show a = x from hspans]
    exact Nat.lt_of_le_of_lt hux (Nat.lt_add_of_pos_right hlen)
  | cons c cs =>
    intro d ds hq
    cases hq
    exact hhead c cs rfl

/-- What is heard moves SND.UNA forward, at most to SND.NXT. -/
theorem Ok.hears (h : o.Ok u x) (hv : o.view.Hears v) :
    ∃ u', u ≤ u' ∧ u' ≤ x ∧ Ok { o with view := v } u' x ∧
      (Covers o.view.iss o.view.queue u x → Covers v.iss v.queue u' x) := by
  cases hv with
  | window wnd hw =>
    exact ⟨u, Nat.le_refl _, h.le, { h with wnd := window_le_maxPeerWnd hw h.wscale }, id⟩
  | ack a ha =>
    obtain ⟨k, huk, hkx, rfl⟩ := h.acceptable_iff.mp ha
    have hflight := h.flight_lt
    refine ⟨k, huk, hkx, { h with una := rfl, le := hkx, flight := ?_, live := ?_, queued := ?_ },
      fun hc => h.covers_ack hc huk hkx⟩
    · exact Nat.le_trans h.flight (by dsimp only; omega)
    · intro e he
      obtain ⟨hmem, hdist⟩ := mem_above.mp he
      -- the entry was kept because it ends above the acknowledgement
      apply (h.live e hmem).mono _ (Nat.le_refl _)
      intro p hp hup hpx
      rw [endSeq, hp, pos_add, dist_pos _ (by omega) (by omega)] at hdist
      omega
    · exact fun e he => h.queued e (mem_above.mp he).1

theorem Ok.hears_run (h : o.Ok u x) (hv : ReflTransGen SndView.Hears o.view v) :
    ∃ u', u ≤ u' ∧ u' ≤ x ∧ Ok { o with view := v } u' x ∧
      (Covers o.view.iss o.view.queue u x → Covers v.iss v.queue u' x) := by
  induction hv with
  | refl => exact ⟨u, Nat.le_refl _, h.le, h, id⟩
  | tail _ hstep ih =>
    obtain ⟨u1, hu1, -, h1, hc1⟩ := ih
    obtain ⟨u2, hu2, hux, h2, hc2⟩ := h1.hears hstep
    exact ⟨u2, Nat.le_trans hu1 hu2, hux, h2, hc2 ∘ hc1⟩

theorem bytes_append (l l' : List SentCore) :
    bytes (l ++ l') = bytes l ++ bytes l' := flatMap_append

theorem bytes_cons (e : SentCore) (l : List SentCore) :
    bytes (e :: l) = e.data ++ bytes l := flatMap_cons

theorem bytes_singleton (e : SentCore) : bytes [e] = e.data := by
  rw [bytes, flatMap_singleton]

/-- An entry of `n` numbers goes to the end of the queue. -/
theorem Ok.append (h : o.Ok u x) (finished : Bool) {e : SentCore} {rest : List UInt8} {n : Nat}
    (hlen : e.seqLen = n) (hseq : e.seq = o.view.nxt) (hpos : 0 < n) (hmax : n ≤ maxPeerWnd)
    (hdata : o.view.sendBuffer = e.data ++ rest)
    (hroom : x + n ≤ u + maxPeerWnd + finished.toNat) :
    Ok ⟨{ o.view with
        nxt := o.view.nxt + BitVec.ofNat 32 n, queue := o.view.queue ++ [e], sendBuffer := rest },
      o.log ++ [e], o.accepted, finished⟩ u (x + n) ∧
      (Covers o.view.iss o.view.queue u x →
        Covers o.view.iss (o.view.queue ++ [e]) u (x + n)) := by
  subst hlen
  have hux := h.le
  have hnxt := hseq.trans h.nxt
  refine ⟨{ h with
    nxt := ?_, le := ?_, flight := hroom, log := h.log.append hnxt hpos, live := ?_, queued := ?_,
    accepted := ?_ }, fun hc => hc.append hux hnxt hpos⟩
  · exact (congrArg (· + BitVec.ofNat 32 e.seqLen) h.nxt).trans (pos_add _ _ _)
  · omega
  · intro d hd
    rcases mem_append.mp hd with hd | hd
    · exact (h.live d hd).mono (fun p _ hup _ => hup) (by omega)
    rw [mem_singleton.mp hd]
    exact ⟨x, hnxt, by omega, Nat.le_refl _, hmax⟩
  · intro d hd
    rcases mem_append.mp hd with hd | hd
    · exact mem_append_left _ (h.queued d hd)
    · exact mem_append_right _ hd
  · rw [h.accepted, hdata, bytes_append, bytes_singleton, append_assoc]

/-- A segment of `n` bytes that the window has room for. -/
theorem Ok.push (h : o.Ok u x) {n : Nat} {flags : Flags} (hsyn : flags.syn = false)
    (hfin : flags.fin = false) (hpos : 0 < n) (hlen : n ≤ o.view.sendBuffer.length)
    (hroom : (o.view.nxt - o.view.una).toNat + n ≤ o.view.wnd) :
    Ok { o with
      view := o.view.push n flags
      log := o.log ++ [⟨o.view.nxt, o.view.sendBuffer.take n, flags⟩] } u (x + n) ∧
      x + n ≤ u + maxPeerWnd ∧
      (Covers o.view.iss o.view.queue u x →
        Covers o.view.iss (o.view.push n flags).queue u (x + n)) := by
  have hux := h.le
  have hwnd := h.wnd
  have hseqLen : seqLen ⟨o.view.nxt, o.view.sendBuffer.take n, flags⟩ = n := by
    rw [seqLen, hsyn, hfin]
    exact (length_take).trans (Nat.min_eq_left hlen)
  rw [h.toNat_flight] at hroom
  obtain ⟨hok, hcovers⟩ := h.append o.finished hseqLen rfl hpos (by omega)
    (take_append_drop n _).symm (by omega)
  exact ⟨hok, by omega, hcovers⟩

/-- Sending moves SND.NXT forward, not beyond the window. -/
theorem Ok.sending (hs : v.Sending out v') :
    ∀ {o : Outbound} {x : Nat}, o.view = v → o.Ok u x →
      ∃ x', x ≤ x' ∧ x' ≤ max x (u + maxPeerWnd) ∧
        Ok { o with view := v', log := o.log ++ out } u x' ∧
        (Covers o.view.iss o.view.queue u x → Covers v'.iss v'.queue u x') := by
  induction hs with
  | done v =>
    rintro o x rfl h
    rw [append_nil]
    exact ⟨x, Nat.le_refl _, Nat.le_max_left _ _, h, id⟩
  | segment n flags hsyn hfin hpos hlen hroom _ ih =>
    rintro o x rfl h
    obtain ⟨h1, hx1, hc1⟩ := h.push hsyn hfin hpos hlen hroom
    obtain ⟨x', hx, hle, h2, hc2⟩ := ih rfl h1
    refine ⟨x', by omega, by omega, ?_, hc2 ∘ hc1⟩
    rw [append_assoc] at h2
    exact h2

/-- The FIN is sent whether or not there is room. -/
theorem Ok.fin (h : o.Ok u x) {flags : Flags} (hfin : flags.fin = true)
    (hopen : o.finished = false) :
    Ok ⟨o.view.fin flags, o.log ++ [⟨o.view.nxt, [], flags⟩], o.accepted, true⟩ u (x + 1) ∧
      (Covers o.view.iss o.view.queue u x →
        Covers o.view.iss (o.view.fin flags).queue u (x + 1)) := by
  have hflight := h.flight
  rw [hopen] at hflight
  have hseqLen : seqLen ⟨o.view.nxt, [], flags⟩ = 1 := by
    rw [seqLen, hfin, Bool.or_true, if_pos rfl]
  exact h.append true hseqLen rfl Nat.one_pos (by decide) rfl (Nat.succ_le_succ hflight)

theorem Ok.finish (h : o.Ok u x) {finished : Bool} (hf : o.finished = true → finished = true) :
    Ok { o with finished := finished } u x := by
  have hflight := h.flight
  refine { h with flight := ?_ }
  cases finished with
  | true =>
    have := Bool.toNat_le o.finished
    show x ≤ u + maxPeerWnd + 1
    omega
  | false =>
    rw [show o.finished = false by
      cases ho : o.finished with
      | false => rfl
      | true => cases hf ho] at hflight
    exact hflight

/-- **Every move keeps the agreement**, and SND.NXT does not move backwards. Only a reset takes
entries off the queue that are not acknowledged. -/
theorem Ok.moves (h : o.Ok u x) {m : Move} (hm : o.Moves m o') :
    ∃ u' x', o'.Ok u' x' ∧ u ≤ u' ∧ x ≤ x' ∧ x' ≤ x + maxPeerWnd + 1 ∧
      (m ≠ .reset → Covers o.view.iss o.view.queue u x →
        Covers o'.view.iss o'.view.queue u' x') := by
  have hux := h.le
  cases hm with
  | talk hin hout finished hf =>
    obtain ⟨u1, hu1, hux1, h1, hc1⟩ := h.hears_run hin
    obtain ⟨x', hx, hle, h2, hc2⟩ := Ok.sending hout rfl h1
    exact ⟨u1, x', h2.finish hf, hu1, hx, by omega, fun _ => hc2 ∘ hc1⟩
  | accept data hopen hout =>
    have h1 : Ok { o with
        view := { o.view with sendBuffer := o.view.sendBuffer ++ data }
        accepted := o.accepted ++ data } u x := by
      refine { h with accepted := ?_ }
      rw [← append_assoc, ← h.accepted]
    obtain ⟨x', hx, hle, h2, hc2⟩ := Ok.sending hout rfl h1
    refine ⟨u, x', h2.finish ?_, Nat.le_refl _, hx, by omega, fun _ => hc2⟩
    intro ht
    rw [hopen] at ht
    cases ht
  | close flags hfin hopen =>
    obtain ⟨h1, hc1⟩ := h.fin hfin hopen
    exact ⟨u, x + 1, h1, Nat.le_refl _, by omega, by omega, fun _ => hc1⟩
  | reset =>
    have h1 : Ok { o with view := { o.view with queue := [] } } u x :=
      { h with live := (fun e he => by cases he), queued := (fun e he => by cases he) }
    exact ⟨u, x, h1.finish fun _ => rfl, Nat.le_refl _, Nat.le_refl _, by omega,
      fun hne => absurd rfl hne⟩

theorem Moves.iss {m : Move} (hm : o.Moves m o') : o'.view.iss = o.view.iss := by
  have hhears : ∀ {v v' : SndView}, ReflTransGen SndView.Hears v v' → v'.iss = v.iss := by
    intro v v' h
    induction h with
    | refl => rfl
    | tail _ hstep ih => cases hstep <;> exact ih
  have hsending : ∀ {v v' : SndView} {out : List SentCore}, v.Sending out v' → v'.iss = v.iss := by
    intro v v' out h
    induction h with
    | done v => rfl
    | segment n flags _ _ _ _ _ _ ih => exact ih
  cases hm with
  | talk hin hout _ _ => exact (hsending hout).trans (hhears hin)
  | accept data _ hout => exact (hsending hout :)
  | close flags _ _ => rfl
  | reset => rfl

/-! ## The queue -/

section

variable (h : o.Ok u x) (hc : Covers o.view.iss o.view.queue u x)
include h hc

theorem Ok.head_covers {e : SentCore} (he : o.view.queue.head? = some e) :
    0 ≤ dist o.view.una e.seq ∧ dist o.view.una e.endSeq < 0 := by
  obtain ⟨a, hau, hspans, hhead⟩ := hc
  obtain ⟨es, hq⟩ : ∃ es, o.view.queue = e :: es := by
    cases hq : o.view.queue with
    | nil => rw [hq] at he; cases he
    | cons d es => rw [hq] at he; cases he; exact ⟨es, rfl⟩
  have hnear := h.near hspans hhead
  have hua := hhead e es hq
  rw [hq] at hspans
  have hend := hspans.2.2.le
  rw [h.una, endSeq, hspans.1, pos_add,
    dist_pos _ (by omega) (by omega), dist_pos _ (by omega) (by omega)]
  constructor <;> omega

theorem Ok.last_end {e : SentCore} (he : o.view.queue.getLast? = some e) :
    e.endSeq = o.view.nxt := by
  obtain ⟨a, -, hspans, -⟩ := hc
  rw [h.nxt]
  exact hspans.getLast? he

theorem Ok.una_eq_nxt (hq : o.view.queue = []) : o.view.una = o.view.nxt := by
  obtain ⟨a, hau, hspans, -⟩ := hc
  rw [hq] at hspans
  rw [h.una, h.nxt, Nat.le_antisymm h.le (Nat.le_trans (Nat.le_of_eq hspans.symm) hau)]

end

theorem Covers.isChain {iss : SeqNum} {queue : List SentCore} (hc : Covers iss queue u x) :
    queue.IsChain fun d e => d.endSeq = e.seq := by
  obtain ⟨a, -, hspans, -⟩ := hc
  exact hspans.isChain

/-! ## The order of data and FIN -/

/-- Data of the stream. -/
def Plain (e : SentCore) : Prop := e.flags.fin = false ∧ e.seqLen = e.data.length

/-- The SYN, then data, then at most one FIN, which is sent when nothing waits any more. -/
def Orderly (o : Outbound) : Prop :=
  ∃ syn ds fs, o.log = syn :: (ds ++ fs) ∧ syn.data = [] ∧ syn.seqLen = 1 ∧
    syn.flags.fin = false ∧ (∀ d ∈ ds, Plain d) ∧
    (fs = [] ∨ ∃ f, fs = [f] ∧ f.flags.fin = true ∧ f.data = [] ∧ o.view.sendBuffer = [] ∧
      o.finished = true)

theorem plain_of_sending (h : v.Sending out v') : ∀ d ∈ out, Plain d := by
  induction h with
  | done v => exact fun d hd => by cases hd
  | segment n flags hsyn hfin hpos hlen hroom _ ih =>
    intro d hd
    rcases mem_cons.mp hd with rfl | hd
    · refine ⟨hfin, ?_⟩
      rw [seqLen, hsyn, hfin]
      rfl
    · exact ih d hd

theorem sending_nil (h : v.Sending out v') (hbuf : v.sendBuffer = []) : out = [] ∧ v' = v := by
  cases h with
  | done v => exact ⟨rfl, rfl⟩
  | segment n flags _ _ hpos hlen _ _ =>
    rw [hbuf] at hlen
    exact absurd hlen (Nat.not_le.mpr hpos)

theorem sendBuffer_hears_run (h : ReflTransGen SndView.Hears v v') :
    v'.sendBuffer = v.sendBuffer := by
  induction h with
  | refl => rfl
  | tail _ hstep ih => cases hstep <;> exact ih

/-- Data that goes out while there is no FIN, or nothing at all. -/
theorem Orderly.sending (h : o.Orderly) (hbuf : v.sendBuffer = o.view.sendBuffer)
    (hs : v.Sending out v') (accepted : List UInt8) {finished : Bool}
    (hf : o.finished = true → finished = true) :
    Orderly ⟨v', o.log ++ out, accepted, finished⟩ := by
  obtain ⟨syn, ds, fs, hlog, hdata, hlen, hfin, hds, hfs⟩ := h
  rcases hfs with rfl | ⟨f, rfl, hff, hfd, hempty, hfinished⟩
  · refine ⟨syn, ds ++ out, [], ?_, hdata, hlen, hfin, ?_, .inl rfl⟩
    · rw [hlog, append_nil, append_nil, cons_append]
    intro d hd
    rcases mem_append.mp hd with hd | hd
    · exact hds d hd
    · exact plain_of_sending hs d hd
  · obtain ⟨rfl, rfl⟩ := sending_nil hs (hbuf.trans hempty)
    refine ⟨syn, ds, [f], ?_, hdata, hlen, hfin, hds,
      .inr ⟨f, rfl, hff, hfd, hbuf.trans hempty, hf hfinished⟩⟩
    rw [append_nil, hlog]

/-- **The order is kept** by every move, if the connection is only closed when nothing waits. -/
theorem Orderly.moves (h : o.Orderly) {m : Move} (hm : o.Moves m o')
    (hclose : m = .close → o.view.sendBuffer = []) : o'.Orderly := by
  cases hm with
  | talk hin hout finished hf =>
    exact h.sending (sendBuffer_hears_run hin) hout o.accepted hf
  | accept data hopen hout =>
    obtain ⟨syn, ds, fs, hlog, hdata, hlen, hfin, hds, hfs⟩ := h
    rcases hfs with rfl | ⟨f, -, -, -, -, hfinished⟩
    · have h1 : Orderly ⟨{ o.view with sendBuffer := o.view.sendBuffer ++ data }, o.log,
          o.accepted ++ data, false⟩ :=
        ⟨syn, ds, [], hlog, hdata, hlen, hfin, hds, .inl rfl⟩
      exact h1.sending rfl hout _ id
    · rw [hopen] at hfinished
      cases hfinished
  | close flags hff hopen =>
    obtain ⟨syn, ds, fs, hlog, hdata, hlen, hfin, hds, hfs⟩ := h
    rcases hfs with rfl | ⟨f, -, -, -, -, hfinished⟩
    · refine ⟨syn, ds, [⟨o.view.nxt, [], flags⟩], ?_, hdata, hlen, hfin, hds,
        .inr ⟨_, rfl, hff, rfl, hclose rfl, rfl⟩⟩
      rw [hlog, append_nil, cons_append]
    · rw [hopen] at hfinished
      cases hfinished
  | reset =>
    obtain ⟨syn, ds, fs, hlog, hdata, hlen, hfin, hds, hfs⟩ := h
    refine ⟨syn, ds, fs, hlog, hdata, hlen, hfin, hds, ?_⟩
    exact hfs.imp id fun ⟨f, hf, hff, hfd, hempty, _⟩ => ⟨f, hf, hff, hfd, hempty, rfl⟩

theorem sum_seqLen_plain {ds : List SentCore} (h : ∀ d ∈ ds, Plain d) :
    (ds.map (·.seqLen)).sum = (bytes ds).length := by
  induction ds with
  | nil => rfl
  | cons d ds ih =>
    rw [map_cons, sum_cons, (h d mem_cons_self).2,
      ih fun e he => h e (mem_cons_of_mem _ he), bytes_cons, length_append]

/-- What stands before an entry that is not the SYN is the SYN and data. -/
theorem Orderly.before (h : o.Orderly) {pre post : List SentCore} {e : SentCore}
    (hlog : o.log = pre ++ e :: post) (he : e.data ≠ [] ∨ e.flags.fin = true) :
    ∃ syn ds, pre = syn :: ds ∧ syn.data = [] ∧ syn.seqLen = 1 ∧ (∀ d ∈ ds, Plain d) ∧
      (e.flags.fin = true → post = [] ∧ o.view.sendBuffer = [] ∧ e.data = []) := by
  obtain ⟨syn, ds, fs, hshape, hdata, hlen, hfin, hds, hfs⟩ := h
  rw [hshape] at hlog
  cases pre with
  | nil =>
    obtain ⟨rfl, -⟩ := cons.inj hlog
    rw [hdata, hfin] at he
    rcases he with he | he
    · exact absurd rfl he
    · cases he
  | cons s pre =>
    obtain ⟨rfl, hrest⟩ := cons.inj hlog
    refine ⟨syn, pre, rfl, hdata, hlen, ?_⟩
    rcases append_eq_append_iff.mp hrest with ⟨mid, rfl, hmid⟩ | ⟨mid, rfl, hmid⟩
    · -- the entry stands at or behind the FIN
      rcases hfs with rfl | ⟨f, rfl, hff, hfd, hempty, -⟩
      · cases append_eq_nil_iff.mp hmid.symm |>.2
      cases mid with
      | nil =>
        obtain ⟨rfl, rfl⟩ := cons.inj hmid
        rw [append_nil]
        exact ⟨hds, fun _ => ⟨rfl, hempty, hfd⟩⟩
      | cons c mid =>
        have := congrArg length hmid
        simp only [length_cons, length_append, length_nil] at this
        omega
    -- the entry is among the data, or the FIN right behind it
    have hpre : ∀ d ∈ pre, Plain d := fun d hd => hds d (mem_append_left _ hd)
    refine ⟨hpre, fun hef => ?_⟩
    cases mid with
    | nil =>
      rcases hfs with rfl | ⟨f, rfl, hff, hfd, hempty, -⟩
      · cases hmid
      obtain ⟨rfl, rfl⟩ := cons.inj hmid
      exact ⟨rfl, hempty, hfd⟩
    | cons c mid =>
      obtain ⟨rfl, -⟩ := cons.inj hmid
      rw [(hds e (mem_append_right _ mem_cons_self)).1] at hef
      cases hef

/-- **Numbering of the stream**: an entry of the log with data, or the FIN, has the number of the
bytes that stand before it. -/
theorem Ok.position (h : o.Ok u x) (ho : o.Orderly) {pre post : List SentCore} {e : SentCore}
    (hlog : o.log = pre ++ e :: post) (he : e.data ≠ [] ∨ e.flags.fin = true) :
    e.seq = pos (o.view.iss + 1) (bytes pre).length := by
  obtain ⟨syn, ds, rfl, hdata, hlen, hds, -⟩ := ho.before hlog he
  have hspans := h.log
  rw [hlog] at hspans
  have hseq := hspans.append_inv.1
  rw [map_cons, sum_cons, hlen, sum_seqLen_plain hds, Nat.zero_add, ← pos_add,
    show pos o.view.iss 1 = o.view.iss + 1 from rfl] at hseq
  rw [hseq, bytes_cons, hdata]
  rfl

end Outbound
end Moose.Tcp
