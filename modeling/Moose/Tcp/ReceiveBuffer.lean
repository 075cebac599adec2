import Moose.Lib.Ring
import Moose.Lib.SeqNum

/-!
# The receive ring and its scoreboard

`receive_buffer.rs` and the receiver half of `sack.rs`. The ring only moves bytes, so its
element type is left open; the driver uses it at bytes.

Two counters describe the ring: `size` bytes from `tail` on are readable, and `occupied`
bounds how far anything was written. A write out of order goes to `head + (seq - RCV.NXT)`
and is recorded as a range of the scoreboard; when the gap in front of a range closes,
`advance_contig` moves `head` over the bytes that are already there.

Panics (an underflow in `free_space`) and copies that would leave the ring are `none`.
-/

set_option autoImplicit false

namespace Moose.Tcp

variable {α : Type}

def usizeMax : Nat := 2 ^ 64 - 1

structure TcpReceiveBuffer (α : Type) where
  data : List α
  head : Nat
  tail : Nat
  size : Nat
  occupied : Nat
deriving DecidableEq

namespace TcpReceiveBuffer

/-- The `capacity` field: the length `data` was allocated with and always keeps. -/
def capacity (b : TcpReceiveBuffer α) : Nat := b.data.length

def new [Zero α] (capacity : Nat) : TcpReceiveBuffer α :=
  ⟨List.replicate capacity 0, 0, 0, 0, 0⟩

def freeSpace (b : TcpReceiveBuffer α) : Option Nat :=
  if max b.occupied b.size ≤ b.capacity then some (b.capacity - max b.occupied b.size) else none

/-- Plain append at `head`; also returns how much was taken. -/
def write (b : TcpReceiveBuffer α) (buf : List α) : Option (TcpReceiveBuffer α × Nat) := do
  let free ← b.freeSpace
  let toWrite := min buf.length free
  if toWrite = 0 then some (b, 0) else do
    let data ← Cells.wrapStore b.data b.head (buf.take toWrite)
    some ({ b with
      data := data
      head := (b.head + toWrite) % b.capacity
      size := b.size + toWrite
      occupied := max b.occupied (b.size + toWrite) }, toWrite)

/-- The ring after `n` stored bytes at offset `off` from `head` are accounted for. -/
def stored (b : TcpReceiveBuffer α) (data : List α) (off n : Nat) (inOrder : Bool) :
    TcpReceiveBuffer α :=
  let occupied := max b.occupied (off + n)
  if inOrder then
    let size := min (b.size + n) usizeMax
    { b with
      data := data
      size := size
      head := (b.head + n) % b.capacity
      occupied := max occupied size }
  else { b with data := data, occupied := occupied }

/-- Store `buf` at sequence number `seq` of the window that starts at `rcvNxt`. The room is
`capacity - off`: bytes that are readable but not yet read do not reduce it. -/
def writeAt (b : TcpReceiveBuffer α) (rcvNxt seq : SeqNum) (buf : List α) :
    Option (TcpReceiveBuffer α × Nat) :=
  if buf.isEmpty then some (b, 0)
  else if SeqNum.dist seq rcvNxt < 0 then some (b, 0)
  else
    let off := (SeqNum.dist seq rcvNxt).toNat
    if b.capacity ≤ off then some (b, 0)
    else
      let n := min buf.length (b.capacity - off)
      (Cells.wrapStore b.data ((b.head + off) % b.capacity) (buf.take n)).map fun data =>
        (b.stored data off n (seq == rcvNxt), n)

/-- Widens the readable prefix over `n` bytes that are already in the ring. -/
def advanceContig (b : TcpReceiveBuffer α) (n : Nat) : TcpReceiveBuffer α :=
  let n := min n (b.capacity - b.size)
  if n = 0 then b
  else
    { b with
      size := b.size + n
      head := (b.head + n) % b.capacity
      occupied := max b.occupied (b.size + n) }

/-- Reads at most `len` bytes; an application's buffer is only known by its length. -/
def read (b : TcpReceiveBuffer α) (len : Nat) : Option (TcpReceiveBuffer α × List α) :=
  let toRead := min len b.size
  if toRead = 0 then some (b, [])
  else
    (Cells.wrapLoad b.data b.tail toRead).map fun out =>
      ({ b with
        tail := (b.tail + toRead) % b.capacity
        size := b.size - toRead
        -- bytes past `head` are counted from `head`, the bytes read from `tail`
        occupied := max (b.occupied - toRead) (b.size - toRead) }, out)

end TcpReceiveBuffer

/-! ## The scoreboard -/

/-- A range `[left, right)` of sequence numbers. -/
structure SackBlock where
  left : SeqNum
  right : SeqNum
deriving DecidableEq

namespace SackBlock

def len (b : SackBlock) : SeqNum := b.right - b.left

/-- The two ranges overlap or share an edge. -/
def touches (m b : SackBlock) : Bool :=
  SeqNum.dist m.left b.right ≤ 0 && SeqNum.dist b.left m.right ≤ 0

def join (m b : SackBlock) : SackBlock :=
  ⟨if SeqNum.dist b.left m.left < 0 then b.left else m.left,
   if 0 < SeqNum.dist b.right m.right then b.right else m.right⟩

end SackBlock

def sackRxRangesMax : Nat := 8

/-- The receive side of a control block: RCV.NXT, the ring, and the scoreboard, of which only
the `rx_range_len` entries in use are kept. -/
structure Receiver (α : Type) where
  rcvNxt : SeqNum
  receiveBuffer : TcpReceiveBuffer α
  rxRanges : List SackBlock
  rxRecent : Option SackBlock
deriving DecidableEq

/-- Slot `i` takes the last entry and the list gets one shorter. -/
def swapRemove (rs : List SackBlock) (i : Nat) : List SackBlock :=
  match rs.getLast? with
  | some last => (rs.set i last).dropLast
  | none => rs

/-- The merging loop of `sack_rx_insert_range`. Each round either drops an entry or moves on, so
as many rounds as there are entries past `i` are enough. -/
def mergeTouching : Nat → List SackBlock → Nat → SackBlock → List SackBlock × SackBlock
  | 0, rs, _, m => (rs, m)
  | k + 1, rs, i, m =>
    match rs[i]? with
    | none => (rs, m)
    | some b =>
      -- the entry that moved into slot `i` may touch as well
      if m.touches b then mergeTouching k (swapRemove rs i) i (m.join b)
      else mergeTouching k rs (i + 1) m

namespace Receiver

def sackRxInsertRange (r : Receiver α) (left right : SeqNum) : Receiver α :=
  match mergeTouching r.rxRanges.length r.rxRanges 0 ⟨left, right⟩ with
  | (rs, m) =>
    if sackRxRangesMax ≤ rs.length then { r with rxRanges := rs }
    else { r with rxRanges := rs ++ [m], rxRecent := some m }

def sackReceiveOutOfOrder (r : Receiver α) (seq : SeqNum) (payload : List α) :
    Option (Receiver α) := do
  let (b, n) ← r.receiveBuffer.writeAt r.rcvNxt seq payload
  let r := { r with receiveBuffer := b }
  if n = 0 then some r else some (r.sackRxInsertRange seq (seq + BitVec.ofNat 32 n))

/-- Entry `i`, which starts at RCV.NXT, becomes part of the readable prefix. -/
def fold (r : Receiver α) (i : Nat) (b : SackBlock) : Receiver α :=
  { r with
    receiveBuffer := r.receiveBuffer.advanceContig b.len.toNat
    rcvNxt := r.rcvNxt + b.len
    rxRanges := swapRemove r.rxRanges i
    rxRecent := if r.rxRecent = some b then none else r.rxRecent }

/-- The loop of `sack_rx_advance_from_scoreboard`: every round but the last drops an entry. -/
def advanceLoop : Nat → Receiver α → Receiver α
  | 0, r => r
  | k + 1, r =>
    match r.rxRanges.findIdx? (·.left == r.rcvNxt) with
    | none => r
    | some i =>
      match r.rxRanges[i]? with
      | none => r
      | some b => advanceLoop k (r.fold i b)

def sackRxAdvanceFromScoreboard (r : Receiver α) : Receiver α :=
  advanceLoop (r.rxRanges.length + 1) r

end Receiver
end Moose.Tcp
