import XenVmi.Tbuf.Record
import XenVmi.Lib.Runs
import XenVmi.Lib.Ring

/-!
# The memory buffer of xentrace

Model of `tools/xentrace/xentrace.c:86-277`. `membuf_reserve_window` frees whole windows at `cons`,
then goes on skipping windows as long as their CPU number increases, and writes the header;
`membuf_write` appends the data. Neither the skipping nor the header looks at where the contents
end; `Membuf.Admits` tells whether that does no harm. `unsigned long` values are naturals with the
wrap-around written out.
-/

namespace XenVmi.Tbuf

open XenVmi.Lib

/-! ## State -/

structure MembufConfig where
  size : Nat
  size_le : size ≤ 2 ^ 47

/-- A failed check of `membuf_reserve_window`, `membuf_write` or `MEMBUF_PROD_SET`, an access
outside the buffer, or a loop without end. -/
inductive MembufFault where
  | pending
  | tooLarge
  | noCpuChange
  | noSpace
  | tooMuch
  | prodBack
  | outOfBounds
  | hang
  deriving Repr, DecidableEq

structure Membuf where
  buf : Nat → Byte
  prod : Nat
  cons : Nat
  pendingSize : Nat
  pendingProd : Nat

/-- After `membuf_alloc`: what the memory holds is arbitrary. -/
def Membuf.alloc (buf : Nat → Byte) : Membuf where
  buf := buf
  prod := 0
  cons := 0
  pendingSize := 0
  pendingProd := 0

def u64 (x : Nat) : Nat := x % 2 ^ 64

def u64Sub (x y : Nat) : Nat := (x + 2 ^ 64 - y) % 2 ^ 64

def asLong (x : Nat) : Int := (BitVec.ofNat 64 x).toInt

def asInt (x : Nat) : Int := (BitVec.ofNat 32 x).toInt

/-- `struct cpu_change_record`; `cpu` is an `int`. -/
structure CpuChange where
  header : BitVec 32
  cpu : BitVec 32
  windowSize : BitVec 32
  deriving Repr, DecidableEq

/-- `CPU_CHANGE_HEADER`: `TRC_TRACE_CPU_CHANGE` with two extra words. -/
def cpuChangeHeader : BitVec 32 := 0x2001f003#32

/-- The bytes of a `cpu_change_record`. -/
def CpuChange.bytes (r : CpuChange) : List Byte := le32 r.header ++ le32 r.cpu ++ le32 r.windowSize

def CpuChange.length (r : CpuChange) : Nat := 12 + r.windowSize.toNat

def wordAt (buf : Nat → Byte) (p : Nat) : BitVec 32 :=
  ofLe32 (buf p) (buf (p + 1)) (buf (p + 2)) (buf (p + 3))

def Membuf.recAt (cfg : MembufConfig) (mb : Membuf) (i : Nat) : CpuChange where
  header := wordAt mb.buf (i % cfg.size)
  cpu := wordAt mb.buf (i % cfg.size + 4)
  windowSize := wordAt mb.buf (i % cfg.size + 8)

/-- Read the record at `MEMBUF_POINTER(i)`. -/
def Membuf.readRec (cfg : MembufConfig) (mb : Membuf) (i : Nat) : Except MembufFault CpuChange :=
  if i % cfg.size + 12 ≤ cfg.size then .ok (mb.recAt cfg i) else .error .outOfBounds

def Membuf.consIncrement (mb : Membuf) (n : Nat) : Membuf := { mb with cons := u64 (mb.cons + n) }

def Membuf.prodSet (cfg : MembufConfig) (x : Nat) (mb : Membuf) : Except MembufFault Membuf :=
  if x < mb.prod then .error .prodBack
  else if 2 ^ 29 < x then
    let prod := x % cfg.size
    let cons := mb.cons % cfg.size
    .ok { mb with prod := if prod < cons then u64 (prod + cfg.size) else prod, cons := cons }
  else .ok { mb with prod := x }

/-! ## `membuf_reserve_window` -/

/-- The loop that frees windows until there is enough space. Returns `last_cpu`. -/
def freeLoop (cfg : MembufConfig) : Nat → Int → Int → Membuf → Except MembufFault (Int × Membuf)
  | 0, _, _, _ => .error .hang
  | fuel + 1, need, last, mb => do
    let r ← mb.readRec cfg mb.cons
    if r.header ≠ cpuChangeHeader then .error .noCpuChange
    else if 0 < need then
      let mb := mb.consIncrement r.length
      if 0 < need - r.length then freeLoop cfg fuel (need - r.length) r.cpu.toInt mb
      else return (r.cpu.toInt, mb)
    else return (last, mb)

def skipLoop (cfg : MembufConfig) : Nat → Int → Membuf → Except MembufFault Membuf
  | 0, _, _ => .error .hang
  | fuel + 1, last, mb => do
    let r ← mb.readRec cfg mb.cons
    if last < r.cpu.toInt then skipLoop cfg fuel r.cpu.toInt (mb.consIncrement r.length)
    else return mb

/-- Make room: `need_to_consume` bytes more than there are free. -/
def makeRoom (cfg : MembufConfig) (need : Int) (mb : Membuf) : Except MembufFault Membuf := do
  let r ← freeLoop cfg (need.toNat + 1) need (-1) mb
  -- `last_cpu` is an `int` that goes up
  skipLoop cfg (2 ^ 32 + 1) r.1 r.2

def Membuf.free (cfg : MembufConfig) (mb : Membuf) : Nat := u64Sub cfg.size (u64Sub mb.prod mb.cons)

/-- Up to the label `start_window`. -/
def ensureRoom (cfg : MembufConfig) (windowSize : Nat) (mb : Membuf) : Except MembufFault Membuf :=
  let needToConsume := asLong (u64 (windowSize + 12))
  let free := asLong (mb.free cfg)
  if needToConsume < free then .ok mb else makeRoom cfg (needToConsume - free) mb

/-- Write the record at `MEMBUF_POINTER(i)`. -/
def Membuf.writeRec (cfg : MembufConfig) (r : CpuChange) (i : Nat) (mb : Membuf) :
    Except MembufFault Membuf :=
  if i % cfg.size + 12 ≤ cfg.size then
    .ok { mb with buf := writeCells mb.buf (i % cfg.size) r.bytes }
  else .error .outOfBounds

def reserveWindow (cfg : MembufConfig) (cpu : BitVec 32) (windowSize : Nat) (mb : Membuf) :
    Except MembufFault Membuf := do
  if 0 < mb.pendingSize then .error .pending
  else if cfg.size < windowSize then .error .tooLarge
  else
    let mb ← ensureRoom cfg windowSize mb
    let mb ← mb.writeRec cfg
      { header := cpuChangeHeader, cpu := cpu, windowSize := BitVec.ofNat 32 windowSize } mb.prod
    return { mb with pendingProd := u64 (mb.prod + 12), pendingSize := windowSize }

/-- The copies of `membuf_write`, to `MEMBUF_POINTER(i)`: `usize` is an `int`. -/
def Membuf.copyIn (cfg : MembufConfig) (bs : List Byte) (i : Nat) (mb : Membuf) :
    Except MembufFault Membuf :=
  let p := i % cfg.size
  if cfg.size < p + bs.length then
    let usize := asInt (cfg.size - p)
    if usize < 0 ∨ cfg.size < bs.length - usize.toNat then .error .outOfBounds
    else .ok { mb with
      buf := writeCells (writeCells mb.buf p (bs.take usize.toNat)) 0 (bs.drop usize.toNat) }
  else .ok { mb with buf := writeCells mb.buf p bs }

def membufWrite (cfg : MembufConfig) (mb : Membuf) (bs : List Byte) : Except MembufFault Membuf :=
  do
  if mb.free cfg < bs.length then .error .noSpace
  else if mb.pendingSize < bs.length then .error .tooMuch
  else
    let mb ← mb.copyIn cfg bs mb.pendingProd
    let mb := { mb with
      pendingProd := u64 (mb.pendingProd + bs.length), pendingSize := mb.pendingSize - bs.length }
    if mb.pendingSize = 0 then mb.prodSet cfg mb.pendingProd else return mb

/-! ## Windows -/

structure Window where
  cpu : BitVec 32
  pieces : List (List Byte)
  /-- `write_buffer` calls `membuf_write` after `membuf_reserve_window` -/
  pieces_ne : pieces ≠ []

namespace Window

def data (w : Window) : List Byte := w.pieces.flatten

def size (w : Window) : Nat := w.data.length

def change (w : Window) : CpuChange where
  header := cpuChangeHeader
  cpu := w.cpu
  windowSize := BitVec.ofNat 32 w.size

def bytes (w : Window) : List Byte := w.change.bytes ++ w.data

end Window

/-- `membuf_reserve_window`, then `membuf_write` for each piece. -/
def writeWindow (cfg : MembufConfig) (mb : Membuf) (w : Window) : Except MembufFault Membuf := do
  let mb ← reserveWindow cfg w.cpu w.size mb
  w.pieces.foldlM (membufWrite cfg) mb

structure Recorded where
  mb : Membuf
  written : List Window

def Recorded.write (cfg : MembufConfig) (r : Recorded) (w : Window) :
    Except MembufFault Recorded := do
  let mb ← writeWindow cfg r.mb w
  return { mb := mb, written := r.written ++ [w] }

def Membuf.contents (cfg : MembufConfig) (mb : Membuf) : List Byte :=
  (List.range (mb.prod - mb.cons)).map fun i => mb.buf ((mb.cons + i) % cfg.size)

structure Whole (cfg : MembufConfig) (r : Recorded) : Prop where
  cons_le : r.mb.cons ≤ r.mb.prod
  fits : r.mb.prod - r.mb.cons ≤ cfg.size
  windows : ∃ live, live <:+ r.written ∧ r.mb.contents cfg = live.flatMap Window.bytes ∧
    ∀ w ∈ live, w.change.windowSize.toNat = w.data.length

/-! ## When a window is admitted -/

def Membuf.changesFrom (cfg : MembufConfig) (mb : Membuf) : Nat → Nat → List CpuChange
  | 0, _ => []
  | fuel + 1, pos =>
    if mb.prod ≤ pos then []
    else mb.recAt cfg pos :: mb.changesFrom cfg fuel (pos + (mb.recAt cfg pos).length)

def Membuf.changes (cfg : MembufConfig) (mb : Membuf) : List CpuChange :=
  mb.changesFrom cfg (mb.prod - mb.cons) mb.cons

/-- What is left, and the last CPU number freed, when `need` bytes have been freed. -/
def afterFreeing : Int → Int → List CpuChange → Int × List CpuChange
  | _, last, [] => (last, [])
  | need, last, r :: l =>
    if 0 < need then afterFreeing (need - r.length) r.cpu.toInt l else (last, r :: l)

/-- Skipping ends at one of the windows, or at what stands behind the last one. -/
def SkipStops (behind : Int) : Int → List CpuChange → Prop
  | last, [] => behind ≤ last
  | last, r :: l => last < r.cpu.toInt → SkipStops behind r.cpu.toInt l

instance (behind : Int) : ∀ last l, Decidable (SkipStops behind last l)
  | last, [] => inferInstanceAs (Decidable (behind ≤ last))
  | last, r :: l =>
    have := instDecidableSkipStops behind r.cpu.toInt l
    inferInstanceAs (Decidable (last < r.cpu.toInt → SkipStops behind r.cpu.toInt l))

/-- The window is shorter than 2 GiB, its header fits in before the end of the buffer, and there is
space without freeing, or the windows and the stale record behind them stop the skipping. -/
@[mk_iff]
structure Membuf.Admits (cfg : MembufConfig) (mb : Membuf) (w : Window) : Prop where
  fits : w.size + 12 ≤ cfg.size
  size_lt : w.size < 2 ^ 31
  header : mb.prod % cfg.size + 12 ≤ cfg.size
  room : w.size + 12 < cfg.size - (mb.prod - mb.cons) ∨
    (mb.changes cfg ≠ [] ∧
      let r := afterFreeing (w.size + 12 - (cfg.size - (mb.prod - mb.cons) : Nat)) (-1)
        (mb.changes cfg)
      SkipStops (mb.recAt cfg mb.prod).cpu.toInt r.1 r.2)

instance (cfg : MembufConfig) (mb : Membuf) (w : Window) : Decidable (mb.Admits cfg w) :=
  decidable_of_iff' _ (Membuf.admits_iff cfg mb w)

end XenVmi.Tbuf
