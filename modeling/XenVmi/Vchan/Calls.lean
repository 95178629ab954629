import Mathlib.Algebra.Group.Nat.Defs
import XenVmi.Lib.Words
import XenVmi.Lib.Ring
import XenVmi.Lib.Runs
import Mathlib.Logic.Function.Basic

/-!
# The calls of a vchan, step by step

Model of `tools/libvchan/io.c`. A vchan joins two sides by two byte rings. A call is cut where it
touches what the peer can see: one read of the peer's index, one `memcpy`, one update of its own
index, one operation on a notify byte, one notification or one wait. `size_t` is a natural number
below `2 ^ 64`; the memory of the caller is a function on all addresses relative to `data`. Whether
the peer is open and whether a notification or a wait fails is up to the environment.
-/

namespace XenVmi.Vchan

open Function XenVmi.Lib

/-! ## Machine integers -/

/-- `size_t` to `int`. -/
def toInt (x : ℕ) : ℤ :=
  if x % 2 ^ 32 < 2 ^ 31 then (x % 2 ^ 32 : ℕ) else (x % 2 ^ 32 : ℕ) - 2 ^ 32

/-- `int` to `size_t`. -/
def toSize (z : ℤ) : ℕ := (z % 2 ^ 64).toNat

/-- The sum of two `size_t`. -/
def addSize (x y : ℕ) : ℕ := (x + y) % 2 ^ 64

/-- The difference of two `size_t`. -/
def subSize (x y : ℕ) : ℕ := (x + (2 ^ 64 - y)) % 2 ^ 64

/-! ## Shared state -/

/-- The two ends, `is_server` or not. -/
inductive Side where
  | server
  | client
  deriving DecidableEq, Repr

def Side.peer : Side → Side
  | .server => .client
  | .client => .server

/-- `read.order` and `write.order`, here by the side that writes the ring. -/
structure Geometry where
  order : Side → ℕ
  le_order : ∀ s, 10 ≤ order s
  order_le : ∀ s, order s ≤ 20

/-- `wr_ring_size` of the side `s`, `rd_ring_size` of its peer. -/
def Geometry.size (g : Geometry) (s : Side) : ℕ := 2 ^ g.order s

/-- `struct ring_shared` with the buffer it belongs to. -/
structure Ring where
  prod : BitVec 32
  cons : BitVec 32
  buffer : ℕ → UInt8

def rawGetDataReady (N : ℕ) (r : Ring) : ℕ :=
  let ready := (r.prod - r.cons).toNat
  if N < ready then 0 else ready

def rawGetBufferSpace (N : ℕ) (r : Ring) : ℕ :=
  let ready := (BitVec.ofNat 32 N - (r.prod - r.cons)).toNat
  if N < ready then 0 else ready

/-- `VCHAN_NOTIFY_WRITE` and `VCHAN_NOTIFY_READ` -/
inductive NotifyBit where
  | write
  | read
  deriving DecidableEq, Repr

/-! ## Calls -/

inductive Op where
  | write
  | send
  | read
  | recv
  deriving DecidableEq, Repr

def Op.writes : Op → Bool
  | .write | .send => true
  | .read | .recv => false

/-- The ring a call of the side `s` works on, by the side that writes it. -/
def Op.lane (op : Op) (s : Side) : Side := if op.writes then s else s.peer

def Op.raw (op : Op) (N : ℕ) (r : Ring) : ℕ :=
  if op.writes then rawGetBufferSpace N r else rawGetDataReady N r

/-- The bit of `request_notify` in `fast_get_buffer_space`, in `fast_get_data_ready`. -/
def Op.wants (op : Op) : NotifyBit := if op.writes then .read else .write

/-- The bit of `send_notify` in `do_send`, in `do_recv`. -/
def Op.tells (op : Op) : NotifyBit := if op.writes then .write else .read

/-- `real_idx` of `do_send`, of `do_recv`. -/
def Op.realIdx (op : Op) (N : ℕ) (r : Ring) : ℕ :=
  ((if op.writes then r.prod else r.cons) &&& (BitVec.ofNat 32 N - 1)).toNat

/-- `wr_prod(ctrl) += size`, `rd_cons(ctrl) += size` -/
def Op.advance (op : Op) (r : Ring) (n : ℕ) : Ring :=
  if op.writes then { r with prod := r.prod + BitVec.ofNat 32 n }
  else { r with cons := r.cons + BitVec.ofNat 32 n }

/-- A call with its arguments and the `blocking` of the control structure. -/
structure Call where
  op : Op
  blocking : Bool
  /-- The caller's memory from `data` on; a reading call only fills it. -/
  data : ℕ → UInt8
  size : ℕ
  /-- No object is larger than `PTRDIFF_MAX`. -/
  size_lt : size < 2 ^ 63

def Call.bytes (c : Call) (pos n : ℕ) : List UInt8 :=
  (List.range n).map fun i => c.data ((pos + i) % 2 ^ 64)

def Call.given (c : Call) : List UInt8 := c.bytes 0 c.size

/-- The loop of `libxenvchan_write` is taken. -/
def Call.streams (c : Call) : Bool := c.op = .write ∧ c.blocking

inductive Pc where
  | isOpen
  /-- The first read of the index in `fast_get_data_ready`, `fast_get_buffer_space`. -/
  | measure
  | request
  | remeasure
  /-- The first `memcpy` of `do_send`, `do_recv` for `n` bytes. -/
  | copyHead (n : ℕ)
  | copyTail (n contig : ℕ)
  | advance (n : ℕ)
  /-- The `__sync_fetch_and_and` of `send_notify`. -/
  | clear (n : ℕ)
  /-- The `xc_evtchn_notify` of `send_notify`. -/
  | signal (n : ℕ)
  | wait
  deriving DecidableEq, Repr

structure Frame where
  pc : Pc
  pos : ℕ
  /-- What `do_recv` has put into the caller's buffer. -/
  got : List UInt8
  deriving DecidableEq

inductive Next where
  | goto (f : Frame)
  | ret (r : ℤ)

/-- The end of an iteration of the loop in `libxenvchan_write`. -/
def Call.loopEnd (c : Call) (pos : ℕ) : Next :=
  if pos = c.size then .ret (toInt pos) else .goto ⟨.wait, pos, []⟩

/-- The argument of `fast_get_data_ready`, `fast_get_buffer_space`. -/
def Call.request (c : Call) (pos : ℕ) : ℕ := if c.streams then subSize c.size pos else c.size

/-- What a call does with the value of `fast_get_data_ready`, `fast_get_buffer_space`. -/
def Call.proceed (c : Call) (N pos avail : ℕ) : Next :=
  match c.op with
  | .send =>
    if c.size ≤ avail then .goto ⟨.copyHead c.size, pos, []⟩
    else if !c.blocking then .ret 0
    else if N < c.size then .ret (-1)
    else .goto ⟨.wait, pos, []⟩
  | .write =>
    if c.blocking then
      let avail : ℤ := if c.size < addSize pos avail then toInt (subSize c.size pos) else avail
      if avail ≠ 0 then .goto ⟨.copyHead (toSize avail), pos, []⟩ else c.loopEnd pos
    else
      let size := if avail < c.size then avail else c.size
      if size = 0 then .ret 0 else .goto ⟨.copyHead size, pos, []⟩
  | .recv =>
    if c.size ≤ avail then .goto ⟨.copyHead c.size, pos, []⟩ else .goto ⟨.isOpen, pos, []⟩
  | .read =>
    let size := if avail ≠ 0 ∧ avail < c.size then avail else c.size
    if avail ≠ 0 then .goto ⟨.copyHead size, pos, []⟩ else .goto ⟨.isOpen, pos, []⟩

def Call.opened (c : Call) (N pos : ℕ) : Next :=
  match c.op with
  | .send | .write => .goto ⟨.measure, pos, []⟩
  | .recv =>
    if !c.blocking then .ret 0
    else if N < c.size then .ret (-1)
    else .goto ⟨.wait, pos, []⟩
  | .read => if !c.blocking then .ret 0 else .goto ⟨.wait, pos, []⟩

/-- What a call does with the result of `do_send`, `do_recv`. -/
def Call.transferred (c : Call) (pos : ℕ) (r : ℤ) : Next :=
  if c.streams then c.loopEnd (addSize pos (toSize r)) else .ret r

def Call.enter (c : Call) (pos : ℕ) : Frame := ⟨if c.op.writes then .isOpen else .measure, pos, []⟩

/-- One `memcpy` of `len` bytes at the offset `i` of the ring and the offset `j` of `data`. -/
def Call.memcpy (c : Call) (r : Ring) (got : List UInt8) (i j len : ℕ) : Ring × List UInt8 :=
  if c.op.writes then ({ r with buffer := writeCells r.buffer i (c.bytes j len) }, got)
  else (r, got ++ readCells r.buffer i len)

/-! ## The two sides -/

inductive Proc where
  | idle
  | busy (c : Call) (f : Frame)

structure Sent where
  call : Call
  result : Option ℤ

structure Received where
  data : List UInt8
  result : ℤ
  deriving DecidableEq

/-- `struct vchan_interface` with the rings, the event channel and the calls of both sides. -/
structure Chan where
  ring : Side → Ring
  /-- `srv_notify` and `cli_notify`: the side reads its own byte, its peer sets bits in it. -/
  notify : Side → NotifyBit → Bool
  pending : Side → Bool
  proc : Side → Proc
  sent : Side → List Sent
  received : Side → List Received

namespace Chan

def setRing (c : Chan) (d : Side) (r : Ring) : Chan := { c with ring := update c.ring d r }

def setNotify (c : Chan) (s : Side) (b : NotifyBit) (v : Bool) : Chan :=
  { c with notify := update c.notify s (update (c.notify s) b v) }

def setPending (c : Chan) (s : Side) (v : Bool) : Chan := { c with pending := update c.pending s v }

def next (c : Chan) (s : Side) (call : Call) (f : Frame) : Next → Chan
  | .goto f' => { c with proc := update c.proc s (.busy call f') }
  | .ret r =>
    if call.op.writes then
      { c with
        proc := update c.proc s .idle
        sent := update c.sent s (c.sent s ++ [⟨call, some r⟩]) }
    else
      { c with
        proc := update c.proc s .idle
        received := update c.received s (c.received s ++ [⟨f.got, r⟩]) }

end Chan

inductive Stuck where
  | busy
  | idle
  | noEvent
  deriving DecidableEq

inductive Act where
  | call (s : Side) (c : Call)
  /-- The next step of the call of `s`: `ok` is the answer of `libxenvchan_is_open`,
  `xc_evtchn_notify` or `xc_evtchn_pending`. -/
  | run (s : Side) (ok : Bool)
  | event (s : Side)

def Chan.run (g : Geometry) (c : Chan) (s : Side) (call : Call) (f : Frame) (ok : Bool) :
    Except Stuck Chan :=
  let d := call.op.lane s
  let N := g.size d
  let r := c.ring d
  match f.pc with
  | .isOpen => .ok (c.next s call f (if ok then call.opened N f.pos else .ret (-1)))
  | .measure =>
    let avail := call.op.raw N r
    .ok (c.next s call f
      (if call.request f.pos ≤ avail then call.proceed N f.pos avail
       else .goto { f with pc := .request }))
  | .request =>
    .ok ((c.setNotify s.peer call.op.wants true).next s call f (.goto { f with pc := .remeasure }))
  | .remeasure => .ok (c.next s call f (call.proceed N f.pos (call.op.raw N r)))
  | .copyHead n =>
    let i := call.op.realIdx N r
    let contig := min (N - i) n
    let (r', got) := call.memcpy r f.got i f.pos contig
    .ok ((c.setRing d r').next s call f
      (.goto ⟨if contig < n then .copyTail n contig else .advance n, f.pos, got⟩))
  | .copyTail n contig =>
    let (r', got) := call.memcpy r f.got 0 (f.pos + contig) (n - contig)
    .ok ((c.setRing d r').next s call f (.goto ⟨.advance n, f.pos, got⟩))
  | .advance n =>
    .ok ((c.setRing d (call.op.advance r n)).next s call f (.goto { f with pc := .clear n }))
  | .clear n =>
    .ok ((c.setNotify s call.op.tells false).next s call f
      (if c.notify s call.op.tells then .goto { f with pc := .signal n }
       else call.transferred f.pos (toInt n)))
  | .signal n =>
    if ok then .ok ((c.setPending s.peer true).next s call f (call.transferred f.pos (toInt n)))
    else .ok (c.next s call f (call.transferred f.pos (-1)))
  | .wait =>
    if !ok then .ok (c.next s call f (.ret (-1)))
    else if c.pending s then .ok ((c.setPending s false).next s call f (.goto (call.enter f.pos)))
    else .error .noEvent

def Chan.step (g : Geometry) (c : Chan) : Act → Except Stuck Chan
  | .call s call =>
    match c.proc s with
    | .idle => .ok { c with proc := update c.proc s (.busy call (call.enter 0)) }
    | .busy _ _ => .error .busy
  | .run s ok =>
    match c.proc s with
    | .idle => .error .idle
    | .busy call f => c.run g s call f ok
  | .event s => .ok (c.setPending s true)

/-- A vchan that no call has been made on: the bits that `init.c` sets, and any other, may be
set. -/
structure Initial (c : Chan) : Prop where
  prod : ∀ s, (c.ring s).prod = 0
  cons : ∀ s, (c.ring s).cons = 0
  proc : ∀ s, c.proc s = .idle
  sent : ∀ s, c.sent s = []
  received : ∀ s, c.received s = []

end XenVmi.Vchan
