import Mathlib.Algebra.Order.Ring.Int
import XenVmi.Lib.IndexedHeap

/-!
# Timers (`common/timer.c`)

Each CPU has a heap of active timers, a sorted list for those the heap has no room for, and a list
of inactive timers. `timer_softirq_action` drops the lock of its CPU while it runs a callback, so it
is cut into steps: one that enters it and replaces a full heap, one that samples the time, and one
for each return from a callback. Every other operation is one step. The wait at the end of
`kill_timer` is not modelled.
-/

namespace XenVmi.TimerQueue

open Function XenVmi.Lib

/-- `TIMER_STATUS_*`. -/
inductive Status where
  | invalid
  | inactive
  | killed
  | inHeap
  | inList
deriving DecidableEq, Repr

def cpuKilled : ℕ := 0xffff

def stimeMax : ℤ := 2 ^ 63 - 1

structure Timer where
  expires : ℤ
  cpu : ℕ
  status : Status

/-- `struct timers`, with the header of the heap array as fields. -/
structure Timers where
  heap : ℕ → ℕ
  size : ℕ
  limit : ℕ
  list : List ℕ
  running : Option ℕ
  inactive : List ℕ

/-- How far `timer_softirq_action` has come on a CPU. -/
inductive Phase where
  | idle
  | entered
  | inHeap (now : ℤ)
  | inList (now : ℤ)
deriving DecidableEq

structure State where
  timer : ℕ → Timer
  heapOffset : ℕ → ℕ
  timers : ℕ → Timers
  /-- `TIMER_SOFTIRQ` is pending on the CPU. -/
  softirqPending : ℕ → Bool
  timerDeadline : ℕ → ℤ
  phase : ℕ → Phase
  /-- The CPU has been prepared (`CPU_UP_PREPARE`) and not been removed since. -/
  present : ℕ → Bool

inductive Bug where
  | assertion
  | removeEntry
  | notInList
  | initTimer
  | killTimer
deriving DecidableEq, Repr

namespace State

def status (s : State) (t : ℕ) : Status := (s.timer t).status
def expires (s : State) (t : ℕ) : ℤ := (s.timer t).expires
def cpu (s : State) (t : ℕ) : ℕ := (s.timer t).cpu

def setTimer (s : State) (t : ℕ) (r : Timer) : State := { s with timer := update s.timer t r }

theorem timer_setTimer (s : State) (t : ℕ) (r : Timer) : (s.setTimer t r).timer t = r :=
  update_self _ _ _

theorem timer_setTimer_of_ne (s : State) {t x : ℕ} (r : Timer) (h : x ≠ t) :
    (s.setTimer t r).timer x = s.timer x :=
  update_of_ne h _ _

def setStatus (s : State) (t : ℕ) (st : Status) : State :=
  s.setTimer t { s.timer t with status := st }

def setTimers (s : State) (c : ℕ) (ts : Timers) : State := { s with timers := update s.timers c ts }

def raiseSoftirq (s : State) (c : ℕ) : State :=
  { s with softirqPending := update s.softirqPending c true }

def setPhase (s : State) (c : ℕ) (p : Phase) : State := { s with phase := update s.phase c p }

/-! ## Heap operations -/

def cells (s : State) (c : ℕ) : Cells ℕ := ⟨(s.timers c).heap, s.heapOffset⟩

/-- Write the heap and `SET_HEAP_SIZE`. -/
def setCells (s : State) (c : ℕ) (h : Cells ℕ) (size : ℕ) : State :=
  { s.setTimers c { s.timers c with heap := h.heap, size := size % 2 ^ 16 } with
    heapOffset := h.offset }

/-- `remove_from_heap`: the last element takes the place and is moved by `up_heap` or `down_heap`.
-/
def removeFromHeap (s : State) (c t : ℕ) : State × Bool :=
  let sz := (s.timers c).size
  let pos := s.heapOffset t
  (s.setCells c ((s.cells c).remove s.expires sz pos) (sz - 1), pos == 1)

def addToHeap (s : State) (c t : ℕ) : State × Bool :=
  let sz := (s.timers c).size
  if sz = (s.timers c).limit then (s, false)
  else
    let h := (s.cells c).insert s.expires sz t
    (s.setCells c h (sz + 1), h.offset t == 1)

/-! ## Linked list operations -/

def removeFromList (s : State) (c t : ℕ) : Except Bug (State × Bool) :=
  let l := (s.timers c).list
  if t ∈ l then .ok (s.setTimers c { s.timers c with list := l.erase t }, l.head? == some t)
  else .error .notInList

/-- The walk of `add_to_list`, behind all timers that do not expire later. -/
def insertByExpiry (s : State) (t : ℕ) : List ℕ → List ℕ
  | [] => [t]
  | x :: l => if s.expires x ≤ s.expires t then x :: s.insertByExpiry t l else t :: x :: l

def addToList (s : State) (c t : ℕ) : State × Bool :=
  let l := s.insertByExpiry t (s.timers c).list
  (s.setTimers c { s.timers c with list := l }, l.head? == some t)

/-- `list_add` to the inactive timers of a CPU. -/
def addInactive (s : State) (c t : ℕ) : State :=
  s.setTimers c { s.timers c with inactive := t :: (s.timers c).inactive }

/-- `list_del` from the inactive timers. -/
def delInactive (s : State) (t : ℕ) : State :=
  s.setTimers (s.cpu t)
    { s.timers (s.cpu t) with inactive := (s.timers (s.cpu t)).inactive.erase t }

/-! ## Timer operations -/

def removeEntry (s : State) (t : ℕ) : Except Bug (State × Bool) := do
  let r ← match s.status t with
    | .inHeap => .ok (s.removeFromHeap (s.cpu t) t)
    | .inList => s.removeFromList (s.cpu t) t
    | _ => .error .removeEntry
  return (r.1.setStatus t .invalid, r.2)

/-- `add_entry`. The offset says whether the heap had room. -/
def addEntry (s : State) (t : ℕ) : Except Bug (State × Bool) :=
  if s.status t ≠ .invalid then .error .assertion
  else
    let s := { s with heapOffset := update s.heapOffset t 0 }.setStatus t .inHeap
    let r := s.addToHeap (s.cpu t) t
    if r.1.heapOffset t ≠ 0 then .ok r
    else .ok ((r.1.setStatus t .inList).addToList (s.cpu t) t)

def notify (s : State) (c : ℕ) (head : Bool) : State := if head then s.raiseSoftirq c else s

def activateTimer (s : State) (t : ℕ) : Except Bug State :=
  if s.status t ≠ .inactive then .error .assertion
  else do
    let r ← ((s.setStatus t .invalid).delInactive t).addEntry t
    return r.1.notify (s.cpu t) r.2

def deactivateTimer (s : State) (t : ℕ) : Except Bug State := do
  let r ← s.removeEntry t
  return ((r.1.notify (s.cpu t) r.2).setStatus t .inactive).addInactive (s.cpu t) t

def activeTimer (s : State) (t : ℕ) : Bool := s.status t = .inHeap ∨ s.status t = .inList

/-- What `set_timer`, `stop_timer`, `migrate_timer` and `kill_timer` do to an active timer first. -/
def quiesce (s : State) (t : ℕ) : Except Bug State :=
  if s.activeTimer t then s.deactivateTimer t else .ok s

def initTimer (s : State) (t c : ℕ) : Except Bug State :=
  if c = cpuKilled then .error .initTimer
  else .ok ((s.setTimer t ⟨0, c, .inactive⟩).addInactive c t)

/-- `set_timer`. `timer_lock` fails for a killed timer. -/
def setTimerExpiry (s : State) (t : ℕ) (expires : ℤ) : Except Bug State :=
  if s.cpu t = cpuKilled then .ok s
  else do
    let s ← s.quiesce t
    (s.setTimer t { s.timer t with expires }).activateTimer t

def stopTimer (s : State) (t : ℕ) : Except Bug State :=
  if s.cpu t = cpuKilled then .ok s else s.quiesce t

def migrateTimer (s : State) (t new : ℕ) : Except Bug State :=
  if s.cpu t = new ∨ s.cpu t = cpuKilled then .ok s
  else do
    let active := s.activeTimer t
    let s ← s.quiesce t
    let s := s.delInactive t
    let s := (s.setTimer t { s.timer t with cpu := new }).addInactive new t
    if active then s.activateTimer t else return s

/-- `kill_timer`, called on the CPU `c`. -/
def killTimer (s : State) (c t : ℕ) : Except Bug State :=
  if (s.timers c).running = some t then .error .killTimer
  else if s.cpu t = cpuKilled then .ok s
  else do
    let s ← s.quiesce t
    let s := s.delInactive t
    return s.setTimer t { s.timer t with status := .killed, cpu := cpuKilled }

/-! ## `timer_softirq_action` -/

/-- `execute_timer`, up to the call of the callback. -/
def executeTimer (s : State) (c t : ℕ) (p : Phase) : State :=
  let s := (s.setStatus t .inactive).addInactive c t
  (s.setTimers c { s.timers c with running := some t }).setPhase c p

/-- The softirq is taken, and a heap that overflowed is replaced by a larger one, with `fresh` in
its new cells. -/
def enterSoftirq (s : State) (c : ℕ) (newheap : Option (ℕ → ℕ)) : State :=
  let s := { s with softirqPending := update s.softirqPending c false }.setPhase c .entered
  match newheap with
  | none => s
  | some fresh =>
    let ts := s.timers c
    if ts.list = [] then s
    else s.setTimers c { ts with
      heap := fun i => if i ≤ ts.limit then ts.heap i else fresh i
      limit := ((ts.limit + 1) * 16 - 1) % 2 ^ 16 }

def refile (s : State) : List ℕ → Except Bug State
  | [] => .ok s
  | t :: next => do
    let r ← (s.setStatus t .invalid).addEntry t
    r.1.refile next

def earliest (s : State) (c : ℕ) : ℤ :=
  let deadline := if (s.timers c).size ≠ 0 then s.expires ((s.timers c).heap 1) else stimeMax
  match (s.timers c).list with
  | [] => deadline
  | t :: _ => if s.expires t < deadline then s.expires t else deadline

/-- Program the deadline; `armed` is the result of `reprogram_timer`. -/
def reprogram (slop : ℕ) (s : State) (c : ℕ) (now : ℤ) (armed : Bool) : State :=
  let deadline := if s.earliest c = stimeMax then 0 else max (s.earliest c) (now + slop)
  { s with timerDeadline := update s.timerDeadline c deadline }.notify c (!armed)

def leaveSoftirq (slop : ℕ) (s : State) (c : ℕ) (now : ℤ) (armed : Bool) : Except Bug State := do
  let next := (s.timers c).list
  let s ← (s.setTimers c { s.timers c with list := [] }).refile next
  return (s.reprogram slop c now armed).setPhase c .idle

def listLoop (slop : ℕ) (s : State) (c : ℕ) (now now' : ℤ) (armed : Bool) : Except Bug State :=
  match (s.timers c).list with
  | t :: l =>
    if s.expires t < now then
      .ok ((s.setTimers c { s.timers c with list := l }).executeTimer c t (.inList now))
    else s.leaveSoftirq slop c now' armed
  | [] => s.leaveSoftirq slop c now' armed

def heapLoop (slop : ℕ) (s : State) (c : ℕ) (now now' : ℤ) (armed : Bool) : Except Bug State :=
  let t := (s.timers c).heap 1
  if (s.timers c).size ≠ 0 ∧ s.expires t < now then
    .ok ((s.removeFromHeap c t).1.executeTimer c t (.inHeap now))
  else s.listLoop slop c now now' armed

def resumeSoftirq (slop : ℕ) (s : State) (c : ℕ) (now' : ℤ) (armed : Bool) : Except Bug State :=
  let s' := s.setTimers c { s.timers c with running := none }
  match s.phase c with
  | .inHeap now => s'.heapLoop slop c now now' armed
  | .inList now => s'.listLoop slop c now now' armed
  | _ => .ok s

/-! ## CPUs that come and go -/

/-- `cpu_callback`, `CPU_UP_PREPARE`: the heap is the empty dummy heap. -/
def cpuUp (s : State) (c : ℕ) (dummy : ℕ → ℕ) : State :=
  { s.setTimers c { s.timers c with heap := dummy, size := 0, limit := 0, inactive := [] } with
    present := update s.present c true }

/-- The first loop of `migrate_timers_from_cpu`. -/
def moveActive (old new : ℕ) : ℕ → State → Bool → Except Bug (State × Bool)
  | 0, s, head => .ok (s, head)
  | rounds + 1, s, head =>
    match (if (s.timers old).size ≠
      0 then some ((s.timers old).heap 1) else (s.timers old).list.head?) with
    | none => .ok (s, head)
    | some t => do
      let r ← s.removeEntry t
      let s := r.1.setTimer t { r.1.timer t with cpu := new }
      let r ← s.addEntry t
      moveActive old new rounds r.1 (head || r.2)

def moveInactive (new : ℕ) (s : State) (l : List ℕ) : State :=
  l.foldl (fun s t =>
    let s := s.delInactive t
    (s.setTimer t { s.timer t with cpu := new }).addInactive new t) s

def migrateTimersFromCpu (s : State) (old new : ℕ) : Except Bug State := do
  let r ← moveActive old new ((s.timers old).size + (s.timers old).list.length) s false
  let s := moveInactive new r.1 (r.1.timers old).inactive
  return { s.notify new r.2 with present := update s.present old false }

end State

/-! ## Runs -/

inductive Action where
  | init (t c : ℕ)
  | set (t : ℕ) (expires : ℤ)
  | stop (t : ℕ)
  | migrate (t new : ℕ)
  /-- `kill_timer` is called on the CPU `c`. -/
  | kill (c t : ℕ)
  | softirq (c : ℕ) (newheap : Option (ℕ → ℕ))
  /-- The time is sampled as `now`; `now'` and `armed` are read at the end, if it is reached. -/
  | sample (c : ℕ) (now now' : ℤ) (armed : Bool)
  | callbackReturns (c : ℕ) (now' : ℤ) (armed : Bool)
  | cpuUp (c : ℕ) (dummy : ℕ → ℕ)
  | cpuDead (old new : ℕ)

def step (slop : ℕ) (s : State) : Action → Except Bug State
  | .init t c => s.initTimer t c
  | .set t expires => s.setTimerExpiry t expires
  | .stop t => s.stopTimer t
  | .migrate t new => s.migrateTimer t new
  | .kill c t => s.killTimer c t
  | .softirq c newheap => .ok (s.enterSoftirq c newheap)
  | .sample c now now' armed => s.heapLoop slop c now now' armed
  | .callbackReturns c now' armed => s.resumeSoftirq slop c now' armed
  | .cpuUp c dummy => .ok (s.cpuUp c dummy)
  | .cpuDead old new => s.migrateTimersFromCpu old new

/-- `init_timer` is for timers that are new or killed, the other operations for initialised ones; a
callback does not kill its own timer; timers go to CPUs that are there; a CPU is in
`timer_softirq_action` once, and not while it is removed; the clock shows a time after boot. -/
def Admits (s : State) : Action → Prop
  | .init t c => (s.status t = .invalid ∨ s.status t = .killed) ∧ s.present c = true
  | .set t _ => s.status t ≠ .invalid
  | .stop t => s.status t ≠ .invalid
  | .migrate t new => s.status t ≠ .invalid ∧ s.present new = true
  | .kill c t => s.status t ≠ .invalid ∧ (s.timers c).running ≠ some t
  | .softirq c _ => s.phase c = .idle ∧ s.present c = true
  | .sample c _ now' _ => s.phase c = .entered ∧ 0 < now'
  | .callbackReturns c now' _ => s.phase c ≠ .idle ∧ s.phase c ≠ .entered ∧ 0 < now'
  | .cpuUp c _ => s.present c = false ∧ c < cpuKilled
  | .cpuDead old new => s.present old = true ∧ s.present new = true ∧ old ≠ new ∧
      s.phase old = .idle

instance (s : State) : (a : Action) → Decidable (Admits s a)
  | .init t c =>
    inferInstanceAs (Decidable ((s.status t = .invalid ∨ s.status t = .killed) ∧
      s.present c = true))
  | .set t _ => inferInstanceAs (Decidable (s.status t ≠ .invalid))
  | .stop t => inferInstanceAs (Decidable (s.status t ≠ .invalid))
  | .migrate t new => inferInstanceAs (Decidable (s.status t ≠ .invalid ∧ s.present new = true))
  | .kill c t => inferInstanceAs (Decidable (s.status t ≠ .invalid ∧ (s.timers c).running ≠ some t))
  | .softirq c _ => inferInstanceAs (Decidable (s.phase c = .idle ∧ s.present c = true))
  | .sample c _ now' _ => inferInstanceAs (Decidable (s.phase c = .entered ∧ 0 < now'))
  | .callbackReturns c now' _ =>
    inferInstanceAs (Decidable (s.phase c ≠ .idle ∧ s.phase c ≠ .entered ∧ 0 < now'))
  | .cpuUp c _ => inferInstanceAs (Decidable (s.present c = false ∧ c < cpuKilled))
  | .cpuDead old new => inferInstanceAs (Decidable (s.present old = true ∧ s.present new = true ∧
      old ≠ new ∧ s.phase old = .idle))

def State.boot : State where
  timer := fun _ => ⟨0, 0, .invalid⟩
  heapOffset := fun _ => 0
  timers := fun _ => ⟨fun _ => 0, 0, 0, [], none, []⟩
  softirqPending := fun _ => false
  timerDeadline := fun _ => 0
  phase := fun _ => .idle
  present := fun _ => false

end XenVmi.TimerQueue
