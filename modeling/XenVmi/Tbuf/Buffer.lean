import XenVmi.Tbuf.Record
import XenVmi.Lib.Runs
import XenVmi.Lib.Ring

/-!
# The per-CPU trace buffer of the hypervisor

Model of `common/trace.c:444-825` on the buffer of one CPU. `prod` and `cons` are naturals with the
wrap-around written out (`u32`, `u32Sub`); a signed `x` is its 32-bit pattern. `Tracer.dataByte` is
the memory behind `struct t_buf`, as `xentrace` maps it. `ASSERT` (debug builds) and `BUG_ON` are
faults. `stored` is for the statements. `get_cycles()` is an arbitrary sequence. The four stages of
the second half of `__trace_var` are functions of their own, so that a reader can be interleaved
with them.
-/

namespace XenVmi.Tbuf

/-! ## Sizes -/

/-- `calculate_tbuf_size` (`trace.c:110-158`): the pages for each CPU, cut down to what `struct
t_info` can take. -/
def calculateTbufSize (pages firstOffset onlineCpus : Nat) : Nat :=
  let maxSize := (2 ^ 32 - 1) / 4096
  let maxPages := if maxSize < 2 ^ 16 - 1 then maxSize else 2 ^ 16 - 1
  let maxMfnOffset := 2 ^ 16 - 1 - firstOffset
  let maxMfnOffset := if onlineCpus - 1 ≠ 0 then maxMfnOffset / (onlineCpus - 1) else maxMfnOffset
  let maxPages := if maxMfnOffset < maxPages then maxMfnOffset else maxPages
  if maxPages < pages then maxPages else pages

structure TbufConfig where
  pages : Nat
  pages_pos : 0 < pages
  pages_lt : pages < 2 ^ 16
  /-- A debug build, where `ASSERT` is compiled in. -/
  debug : Bool
  /-- The values `get_cycles()` returns, one after another. -/
  getCycles : Nat → BitVec 64
  /-- What `split_rec` holds before it is filled. -/
  stack : Nat → Nat → Byte

namespace TbufConfig

/-- `data_size`: the pages without `struct t_buf`. -/
def dataSize (cfg : TbufConfig) : Nat := cfg.pages * 4096 - 8

def highwater (cfg : TbufConfig) : Nat := cfg.dataSize / 2

end TbufConfig

def traceExtraMax : Nat := 7

/-- `LOST_REC_SIZE`: header, time stamp and `struct ed`. -/
def lostRecSize : Nat := 4 + 8 + 16

def trcLostRecords : BitVec 32 := 0x0001f001#32

def trcTraceWrapBuffer : BitVec 32 := 0x0001f002#32

def u32 (x : Nat) : Nat := x % 2 ^ 32

def u32Sub (x y : Nat) : Nat := (x + 2 ^ 32 - y) % 2 ^ 32

/-! ## State -/

/-- The failed `ASSERT` or `BUG_ON`. -/
inductive Fault where
  | extraWords
  | unconsumedNegative
  | unconsumedTooBig
  | bytesToWrapNotPositive
  | bytesToWrapTooBig
  | nextOffset
  | nextIndex
  | wrapExtra
  | recSize
  | extraAlign
  | wrapSize
  /-- an `assert` of `monitor_tbufs` -/
  | monitor
  deriving Repr, DecidableEq

inductive Warning where
  | bogus (prod cons : Nat)
  | beyondEnd (prod cons recSize remaining : Nat)
  deriving Repr, DecidableEq

inductive Kind where
  /-- the caller of `__trace_var` -/
  | event
  | wrap
  | lost
  deriving Repr, DecidableEq

/-- A record that has been stored: the arguments of `__insert_record`, the time stamp, and where it
stands. -/
structure Stored where
  kind : Kind
  event : BitVec 32
  tsc : Option (BitVec 64)
  /-- what `extra_data` points at; `none` for a null pointer -/
  data : Option (List Byte)
  offset : Nat
  size : Nat
  deriving Repr, DecidableEq

structure Tracer where
  initDone : Bool
  eventMask : BitVec 32
  cpuTraced : Bool
  cons : Nat
  prod : Nat
  page : Nat → Nat → Byte
  lost : Nat
  lostFirstTsc : BitVec 64
  /-- How many times `get_cycles()` has been called. -/
  clock : Nat
  /-- How many times `trace_notify_dom0_tasklet` has been scheduled. -/
  notified : Nat
  warnings : List Warning
  stored : List Stored

def Tracer.dataByte (s : Tracer) (i : Nat) : Byte := s.page ((i + 8) / 4096) ((i + 8) % 4096)

/-- The state `alloc_trace_bufs` leaves: an empty buffer, whatever the fresh pages hold. -/
def Tracer.fresh (page : Nat → Nat → Byte) (eventMask : BitVec 32) : Tracer where
  initDone := true
  eventMask := eventMask
  cpuTraced := true
  cons := 0
  prod := 0
  page := page
  lost := 0
  lostFirstTsc := 0
  clock := 0
  notified := 0
  warnings := []
  stored := []

def TbufConfig.assert (cfg : TbufConfig) (c : Prop) [Decidable c] (f : Fault) : Except Fault Unit :=
  if c ∨ cfg.debug = false then .ok () else .error f

def bugOn (c : Prop) [Decidable c] (f : Fault) : Except Fault Unit :=
  if c then .error f else .ok ()

/-! ## Distances in the buffer -/

/-- `calc_rec_size`; the sum does not wrap in 32 bits, as `extra` is at most 28. -/
def calcRecSize (cycles : Bool) (extra : Nat) : Nat := 4 + (if cycles then 8 else 0) + extra

/-- `bogus`: indices that are not aligned or out of range switch tracing off. -/
def bogus (cfg : TbufConfig) (prod cons : Nat) (s : Tracer) : Bool × Tracer :=
  if prod &&& 3 ≠ 0 ∨ 2 * cfg.dataSize ≤ prod ∨ cons &&& 3 ≠ 0 ∨ 2 * cfg.dataSize ≤ cons then
    (true, { s with initDone := false, warnings := s.warnings ++ [.bogus prod cons] })
  else (false, s)

def calcUnconsumedBytes (cfg : TbufConfig) (s : Tracer) : Except Fault (Nat × Tracer) := do
  let b := bogus cfg s.prod s.cons s
  if b.1 then return (cfg.dataSize, b.2)
  let x := u32Sub s.prod s.cons
  let x := if 2 ^ 31 ≤ x then u32 (x + 2 * cfg.dataSize) else x
  cfg.assert (x < 2 ^ 31) .unconsumedNegative
  cfg.assert (x ≤ cfg.dataSize) .unconsumedTooBig
  return (x, b.2)

def calcBytesToWrap (cfg : TbufConfig) (s : Tracer) : Except Fault (Nat × Tracer) := do
  let b := bogus cfg s.prod s.cons s
  if b.1 then return (0, b.2)
  let x := u32Sub cfg.dataSize s.prod
  let x := if 2 ^ 31 ≤ x ∨ x = 0 then u32 (x + cfg.dataSize) else x
  cfg.assert (0 < x ∧ x < 2 ^ 31) .bytesToWrapNotPositive
  cfg.assert (x ≤ cfg.dataSize) .bytesToWrapTooBig
  return (x, b.2)

def calcBytesAvail (cfg : TbufConfig) (s : Tracer) : Except Fault (Nat × Tracer) := do
  let u ← calcUnconsumedBytes cfg s
  return (u32Sub cfg.dataSize u.1, u.2)

/-! ## Storing a record -/

/-- The out parameters of `next_record`; `hasNext` tells whether `*next_page` is a page. -/
structure Slot where
  next : Nat
  page : Nat
  offset : Nat
  hasNext : Bool
  deriving Repr, DecidableEq

def nextRecord (cfg : TbufConfig) (s : Tracer) : Except Fault (Option Slot × Tracer) := do
  let b := if s.initDone then bogus cfg s.prod s.cons s else (true, s)
  if b.1 then return (none, b.2)
  let x := if cfg.dataSize ≤ s.prod then s.prod - cfg.dataSize else s.prod
  cfg.assert (x < cfg.dataSize) .nextOffset
  -- behind `struct t_buf`
  let x := x + 8
  return (some { next := s.prod, page := x / 4096, offset := x % 4096,
                 hasNext := decide (x / 4096 + 1 < cfg.pages) }, b.2)

def writePage (page : Nat → Nat → Byte) (nr offset : Nat) (bs : List Byte) : Nat → Nat → Byte :=
  fun p o => if p = nr ∧ offset ≤ o then bs[o - offset]?.getD (page p o) else page p o

def readBytes (p : Nat → Byte) (n : Nat) : List Byte := (List.range n).map p

def writeRecord (page : Nat → Nat → Byte) (slot : Slot) (bs : List Byte) : Nat → Nat → Byte :=
  let remaining := 4096 - slot.offset
  if remaining < bs.length then
    writePage (writePage page slot.page slot.offset (bs.take remaining)) (slot.page + 1) 0
      (bs.drop remaining)
  else writePage page slot.page slot.offset bs

/-- The extra words of a record: what `extra_data` points at, or what was there before. -/
def extraOf (cfg : TbufConfig) (s : Tracer) (slot : Slot) (recSize extra : Nat) :
    Option (Nat → Byte) → List Byte
  | some p => readBytes p extra
  | none => readBytes (fun i =>
    if 4096 - slot.offset < recSize then cfg.stack s.clock (recSize - extra + i)
    else s.page slot.page (slot.offset + (recSize - extra) + i)) extra

def insertRecord (cfg : TbufConfig) (kind : Kind) (event : BitVec 32) (extra : Nat) (cycles : Bool)
    (recSize : Nat) (data : Option (Nat → Byte)) (s : Tracer) : Except Fault Tracer := do
  bugOn (calcRecSize cycles extra ≠ recSize) .recSize
  bugOn (extra &&& 3 ≠ 0) .extraAlign
  let r ← nextRecord cfg s
  let s := r.2
  match r.1 with
  | none => return s
  | some slot =>
    let remaining := 4096 - slot.offset
    if remaining < recSize ∧ slot.hasNext = false then
      return { s with
        warnings := s.warnings ++ [.beyondEnd slot.next s.cons recSize remaining] }
    else
      let tsc := if cycles then some (cfg.getCycles s.clock) else none
      let next := u32 (slot.next + recSize)
      let next := if 2 * cfg.dataSize ≤ next then next - 2 * cfg.dataSize else next
      cfg.assert (next < 2 * cfg.dataSize) .nextIndex
      return { s with
        page := writeRecord s.page slot (recBytes event tsc (extraOf cfg s slot recSize extra data))
        prod := next
        clock := if cycles then s.clock + 1 else s.clock
        stored := s.stored ++ [{
          kind := kind, event := event, tsc := tsc, data := data.map (readBytes · extra)
          offset := 4096 * slot.page + slot.offset - 8, size := recSize }] }

/-- `insert_wrap_record`: fill the buffer up to its end. -/
def insertWrapRecord (cfg : TbufConfig) (size : Nat) (s : Tracer) : Except Fault Tracer := do
  let w ← calcBytesToWrap cfg s
  let spaceLeft := w.1
  let extraSpace := u32Sub spaceLeft 4
  bugOn (size < spaceLeft) .wrapSize
  if traceExtraMax < extraSpace / 4 then
    -- a time stamp takes up the space that seven words cannot
    let extraSpace := u32Sub extraSpace 8
    cfg.assert (extraSpace / 4 ≤ traceExtraMax) .wrapExtra
    insertRecord cfg .wrap trcTraceWrapBuffer extraSpace true spaceLeft none w.2
  else insertRecord cfg .wrap trcTraceWrapBuffer extraSpace false spaceLeft none w.2

/-- One call of `__trace_var`, with the domain and the vCPU it is made on. -/
structure Call where
  event : BitVec 32
  cycles : Bool
  extra : Nat
  /-- the memory at `extra_data`; `none` for a null pointer -/
  data : Option (Nat → Byte)
  did : BitVec 16
  vid : BitVec 16

def lostData (c : Call) (s : Tracer) : List Byte :=
  le32 (BitVec.ofNat 32 s.lost) ++ [c.did.extractLsb' 0 8, c.did.extractLsb' 8 8] ++
    [c.vid.extractLsb' 0 8, c.vid.extractLsb' 8 8] ++ le64 s.lostFirstTsc

def insertLostRecords (cfg : TbufConfig) (c : Call) (s : Tracer) : Except Fault Tracer :=
  insertRecord cfg .lost trcLostRecords 16 true lostRecSize (some fun i => (lostData c s).getD i 0)
    { s with lost := 0 }

/-! ## `__trace_var` -/

/-- The filter of `__trace_var`: event mask, class, subclass, low byte, and the CPU mask. -/
def Tracer.accepts (s : Tracer) (event : BitVec 32) : Bool :=
  if s.eventMask &&& event = 0 then false
  else if (s.eventMask >>> 16) &&& (event >>> 16) = 0 then false
  else if ((s.eventMask >>> 12) &&& 0xf) &&& ((event >>> 12) &&& 0xf) = 0 then false
  else if s.eventMask &&& 0xff ≠ event &&& 0xff then false
  else s.cpuTraced

namespace Call

/-- `extra_word`: the extra data in words, rounded up. -/
def extraWord (c : Call) : Nat := if c.extra % 4 ≠ 0 then c.extra / 4 + 1 else c.extra / 4

def extraBytes (c : Call) : Nat := min c.extraWord traceExtraMax * 4

def recSize (c : Call) : Nat := calcRecSize c.cycles c.extraBytes

end Call

/-- The dry run of `__trace_var`: the bytes that the record takes, with what has to be put before
it. -/
def dryRun (cfg : TbufConfig) (lost bytesToWrap recSize : Nat) : Nat :=
  let r :=
    if lost ≠ 0 then
      let t := if bytesToWrap < lostRecSize then (bytesToWrap, cfg.dataSize) else (0, bytesToWrap)
      let wrap := t.2 - lostRecSize
      -- the record may line up with the end of the buffer
      (t.1 + lostRecSize, if wrap = 0 then cfg.dataSize else wrap)
    else (0, bytesToWrap)
  (if r.2 < recSize then r.1 + r.2 else r.1) + recSize

def dropRecord (cfg : TbufConfig) (s : Tracer) : Tracer :=
  let lost := (s.lost + 1) % 2 ^ 64
  if lost = 1 then
    { s with lost := lost, lostFirstTsc := cfg.getCycles s.clock, clock := s.clock + 1 }
  else { s with lost := lost }

/-- What the first half of `__trace_var` has found out when there is something to write. -/
structure Started where
  below : Bool
  totalSize : Nat
  deriving Repr, DecidableEq

/-- The first half of `__trace_var`: filter the event, and see whether there is room for it. -/
def startTrace (cfg : TbufConfig) (c : Call) (s : Tracer) :
    Except Fault (Option Started × Tracer) := do
  if s.initDone = false then return (none, s)
  cfg.assert (c.extraWord ≤ traceExtraMax) .extraWords
  if s.accepts c.event = false then return (none, s)
  let unconsumed ← calcUnconsumedBytes cfg s
  let toTail ← calcBytesAvail cfg unconsumed.2
  let toWrap ← calcBytesToWrap cfg toTail.2
  let s := toWrap.2
  let totalSize := dryRun cfg s.lost toWrap.1 c.recSize
  if toTail.1 < totalSize then return (none, dropRecord cfg s)
  else return (some { below := decide (unconsumed.1 < cfg.highwater), totalSize := totalSize }, s)

/-- First stage: fill the buffer up to its end if a record of the lost ones is due and does not fit.
Returns `bytes_to_wrap`. -/
def wrapForLost (cfg : TbufConfig) (s : Tracer) : Except Fault (Nat × Tracer) := do
  let w ← calcBytesToWrap cfg s
  if w.2.lost ≠ 0 ∧ w.1 < lostRecSize then
    let s ← insertWrapRecord cfg lostRecSize w.2
    return (cfg.dataSize, s)
  else return w

def putLost (cfg : TbufConfig) (c : Call) (bytesToWrap : Nat) (s : Tracer) :
    Except Fault (Nat × Tracer) := do
  if s.lost ≠ 0 then
    let s ← insertLostRecords cfg c s
    let wrap := bytesToWrap - lostRecSize
    return (if wrap = 0 then cfg.dataSize else wrap, s)
  else return (bytesToWrap, s)

def wrapForEvent (cfg : TbufConfig) (c : Call) (bytesToWrap : Nat) (s : Tracer) :
    Except Fault Tracer :=
  if bytesToWrap < c.recSize then insertWrapRecord cfg c.recSize s else return s

def putEvent (cfg : TbufConfig) (c : Call) (below : Bool) (s : Tracer) : Except Fault Tracer := do
  let s ← insertRecord cfg .event c.event c.extraBytes c.cycles c.recSize c.data s
  if below then
    let u ← calcUnconsumedBytes cfg s
    if cfg.highwater ≤ u.1 then return { u.2 with notified := u.2.notified + 1 }
    else return u.2
  else return s

def traceVar (cfg : TbufConfig) (c : Call) (s : Tracer) : Except Fault Tracer := do
  let r ← startTrace cfg c s
  match r.1 with
  | none => return r.2
  | some started =>
    let w ← wrapForLost cfg r.2
    let w ← putLost cfg c w.1 w.2
    let s ← wrapForEvent cfg c w.1 w.2
    putEvent cfg c started.below s

end XenVmi.Tbuf
