import Mathlib.Data.BitVec
import Mathlib.Data.Fin.Basic
import Mathlib.Logic.Function.Basic

/-!
# FIFO event channels (`common/event_fifo.c`)

Events that are ready form queues, one for each vCPU and priority: the guest sees the head, the
words are chained by their LINK fields, and the hypervisor remembers the tail. Only the guest takes
events off, so a tail whose word is not LINKED stands for an empty queue.
-/

namespace XenVmi.EventFifo

open Function BitVec

/-! ## Event words -/

/-- `EVTCHN_FIFO_PENDING` … `EVTCHN_FIFO_BUSY`: bit numbers. -/
def pending : ℕ := 31
def masked : ℕ := 30
def linked : ℕ := 29
def busy : ℕ := 28

def linkBits : ℕ := 17

def linkMask : BitVec 32 := BitVec.twoPow 32 linkBits - 1

def setBit (w : BitVec 32) (i : ℕ) : BitVec 32 := w ||| BitVec.twoPow 32 i

def clearBit (w : BitVec 32) (i : ℕ) : BitVec 32 := w &&& ~~~BitVec.twoPow 32 i

def linkOf (w : BitVec 32) : ℕ := (w &&& linkMask).toNat

/-- `try_set_link` on `word`, with the value `w` read before: the memory, the value read and, but
for `-EAGAIN`, the value returned. -/
def trySetLink (word w link : BitVec 32) : BitVec 32 × BitVec 32 × Option Bool :=
  if w.getLsbD linked = false then (word, w, some false)
  else if word = w then
    (w &&& ~~~(BitVec.twoPow 32 busy ||| linkMask) ||| link, w, some true)
  else (word, word, none)

/-- The loop of `evtchn_fifo_set_link`, with `tries` tries left. -/
def retrySetLink (link : BitVec 32) : ℕ → BitVec 32 → BitVec 32 → BitVec 32 × Bool
  | 0, word, _ => (clearBit word busy, true)
  | tries + 1, word, w =>
    match trySetLink word w link with
    | (word, _, some true) => (word, true)
    | (word, _, some false) => (clearBit word busy, false)
    | (word, w, none) => retrySetLink link tries word w

def setLink (word link : BitVec 32) : BitVec 32 × Bool :=
  match trySetLink word word link with
  | (word, _, some r) => (word, r)
  | (word, _, none) => retrySetLink link 4 (setBit word busy) (setBit word busy)

section Words

variable {w w' : BitVec 32} {i j : ℕ}

theorem getLsbD_setBit (hi : i < 32) :
    (setBit w i).getLsbD j = (decide (j = i) || w.getLsbD j) := by
  rw [setBit, getLsbD_or, getLsbD_twoPow, Bool.or_comm]
  simp only [hi, decide_true, Bool.true_and]
  rw [show decide (i = j) = decide (j = i) by simp [eq_comm]]

theorem getLsbD_clearBit (hi : i < 32) :
    (clearBit w i).getLsbD j = (decide (j ≠ i) && w.getLsbD j) := by
  rw [clearBit, getLsbD_and, getLsbD_not, getLsbD_twoPow]
  by_cases hj : j < 32
  · simp [hi, hj, Bool.and_comm, eq_comm]
  · simp [getLsbD_of_ge w j (Nat.le_of_not_lt hj)]

theorem getLsbD_linkMask : linkMask.getLsbD j = decide (j < linkBits) := by
  by_cases hj : j < 32
  · revert j
    decide
  · rw [getLsbD_of_ge _ _ (Nat.le_of_not_lt hj)]
    symm
    rw [decide_eq_false_iff_not]
    exact fun h => hj (Nat.lt_trans h (by decide))

theorem linkOf_congr (h : ∀ j < linkBits, w.getLsbD j = w'.getLsbD j) : linkOf w = linkOf w' := by
  have heq : w &&& linkMask = w' &&& linkMask := by
    refine eq_of_getLsbD_eq fun j _ => ?_
    rw [getLsbD_and, getLsbD_and, getLsbD_linkMask]
    by_cases hj : j < linkBits
    · rw [h j hj]
    · simp [hj]
  rw [linkOf, linkOf, heq]

theorem linkOf_setBit (h : linkBits ≤ i) (hi : i < 32) : linkOf (setBit w i) = linkOf w := by
  refine linkOf_congr fun j hj => ?_
  rw [getLsbD_setBit hi]
  simp [show j ≠ i by omega]

theorem linkOf_clearBit (h : linkBits ≤ i) (hi : i < 32) : linkOf (clearBit w i) = linkOf w := by
  refine linkOf_congr fun j hj => ?_
  rw [getLsbD_clearBit hi]
  simp [show j ≠ i by omega]

variable {port : ℕ} {link : BitVec 32}

theorem linkOf_ofNat (h : port < 2 ^ linkBits) : linkOf (BitVec.ofNat 32 port) = port := by
  have hmask : linkMask.toNat = 2 ^ linkBits - 1 := by decide
  rw [linkOf, toNat_and, hmask, toNat_ofNat, Nat.and_two_pow_sub_one_eq_mod,
    Nat.mod_eq_of_lt (Nat.lt_trans h (by decide)), Nat.mod_eq_of_lt h]

theorem setLink_of_linked (h : w.getLsbD linked = true) :
    setLink w link = (w &&& ~~~(BitVec.twoPow 32 busy ||| linkMask) ||| link, true) := by
  rw [setLink, trySetLink, if_neg (by rw [h]; simp), if_pos rfl]

theorem setLink_of_not_linked (h : w.getLsbD linked = false) : setLink w link = (w, false) := by
  rw [setLink, trySetLink, if_pos h]

theorem getLsbD_port (hport : port < 2 ^ linkBits) (hj : linkBits ≤ j) :
    (BitVec.ofNat 32 port).getLsbD j = false := by
  rw [getLsbD_ofNat, Nat.testBit_lt_two_pow
    (Nat.lt_of_lt_of_le hport (Nat.pow_le_pow_right (by decide) hj)), Bool.and_false]

theorem getLsbD_relink (hport : port < 2 ^ linkBits) (hj : linkBits ≤ j) (hne : j ≠ busy) :
    (w &&& ~~~(BitVec.twoPow 32 busy ||| linkMask) ||| BitVec.ofNat 32 port).getLsbD j =
      w.getLsbD j := by
  rw [getLsbD_or, getLsbD_port hport hj, Bool.or_false, getLsbD_and, getLsbD_not,
    getLsbD_or, getLsbD_twoPow, getLsbD_linkMask]
  by_cases hj32 : j < 32
  · simp [hj32, hne.symm, Nat.not_lt.2 hj]
  · simp [getLsbD_of_ge w j (Nat.le_of_not_lt hj32)]

theorem linkOf_relink (hport : port < 2 ^ linkBits) :
    linkOf (w &&& ~~~(BitVec.twoPow 32 busy ||| linkMask) ||| BitVec.ofNat 32 port) = port := by
  refine Eq.trans (linkOf_congr fun j hj => ?_) (linkOf_ofNat hport)
  rw [getLsbD_or, getLsbD_and, getLsbD_not, getLsbD_or,
    getLsbD_linkMask]
  simp [hj]

end Words

/-! ## Ports and queues -/

/-- The queues of a domain with `n` vCPUs: a vCPU and one of `EVTCHN_FIFO_MAX_QUEUES` priorities. -/
abbrev Queue (n : ℕ) := Fin n × Fin 16

/-- The fields of `struct evtchn` that the FIFO operations use. -/
structure Evtchn (n : ℕ) where
  priority : Fin 16
  lastPriority : Fin 16
  notifyVcpuId : Fin n
  lastVcpuId : Fin n
  pending : Bool

structure Fifo (n : ℕ) where
  numEvtchns : ℕ
  /-- `EVTCHN_FIFO_MAX_EVENT_ARRAY_PAGES`: all ports of the array fit into a LINK field. -/
  fits : numEvtchns ≤ 2 ^ linkBits
  word : ℕ → BitVec 32
  evtchn : ℕ → Evtchn n
  controlBlock : Fin n → Bool
  head : Queue n → ℕ
  ready : Queue n → Bool
  tail : Queue n → ℕ
  /-- `vcpu_mark_events_pending` was called. -/
  eventsPending : Fin n → Bool

inductive Errno where
  | einval
  | enoent
deriving DecidableEq, Repr

namespace Fifo

variable {n : ℕ}

def setWord (s : Fifo n) (port : ℕ) (w : BitVec 32) : Fifo n :=
  { s with word := update s.word port w }

def setEvtchn (s : Fifo n) (port : ℕ) (e : Evtchn n) : Fifo n :=
  { s with evtchn := update s.evtchn port e }

def wordFromPort (s : Fifo n) (port : ℕ) : Option (BitVec 32) :=
  if s.numEvtchns ≤ port then none else some (s.word port)

def queueOf (s : Fifo n) (port : ℕ) : Queue n :=
  ((s.evtchn port).notifyVcpuId, (s.evtchn port).priority)

/-- `lock_old_queue`: the queue the event was linked to last. -/
def oldQueue (s : Fifo n) (port : ℕ) : Queue n :=
  ((s.evtchn port).lastVcpuId, (s.evtchn port).lastPriority)

def dropTail (s : Fifo n) (q : Queue n) (port : ℕ) : Fifo n :=
  if s.tail q = port then { s with tail := update s.tail q 0 } else s

def moveTo (s : Fifo n) (old q : Queue n) (port : ℕ) : Fifo n :=
  if old ≠ q then
    s.setEvtchn port { s.evtchn port with
      lastVcpuId := (s.evtchn port).notifyVcpuId, lastPriority := (s.evtchn port).priority }
  else s

def linkTail (s : Fifo n) (q : Queue n) (port : ℕ) : Fifo n × Bool :=
  if s.tail q ≠ 0 then
    let r := setLink (s.word (s.tail q)) (BitVec.ofNat 32 port)
    (s.setWord (s.tail q) r.1, r.2)
  else (s, false)

def append (s : Fifo n) (q : Queue n) (port : ℕ) (linked : Bool) : Fifo n :=
  { s with
    head := if linked then s.head else update s.head q port
    tail := update s.tail q port }

def signal (s : Fifo n) (q : Queue n) (linked : Bool) : Fifo n :=
  if linked = false ∧ s.ready q = false then
    { s with
      ready := update s.ready q true
      eventsPending := update s.eventsPending q.1 true }
  else s

/-- The part of `evtchn_fifo_set_pending` that links an event. -/
def enqueue (s : Fifo n) (v : Fin n) (port : ℕ) : Fifo n :=
  if s.controlBlock v = false then s
  else
    let q := (v, (s.evtchn port).priority)
    let old := s.oldQueue port
    let s := s.setWord port (setBit (s.word port) linked)
    let s := (s.dropTail old port).moveTo old q port
    let r := s.linkTail q port
    (r.1.append q port r.2).signal q r.2

def setPending (s : Fifo n) (v : Fin n) (port : ℕ) : Fifo n :=
  match s.wordFromPort port with
  | none => s.setEvtchn port { s.evtchn port with pending := true }
  | some w =>
    let s := s.setWord port (setBit w pending)
    if w.getLsbD masked = false ∧ w.getLsbD linked = false then s.enqueue v port else s

def clearPending (s : Fifo n) (port : ℕ) : Fifo n :=
  match s.wordFromPort port with
  | none => s
  | some w => s.setWord port (clearBit w pending)

def unmask (s : Fifo n) (port : ℕ) : Fifo n :=
  match s.wordFromPort port with
  | none => s
  | some w =>
    let s := s.setWord port (clearBit w masked)
    if w.getLsbD pending = true then s.setPending (s.evtchn port).notifyVcpuId port else s

def setPriority (s : Fifo n) (port priority : ℕ) : Except Errno (Fifo n) :=
  if h : 15 < priority then .error .einval
  else .ok (s.setEvtchn port { s.evtchn port with priority := ⟨priority, by omega⟩ })

/-- `evtchn_bind_vcpu`, for a channel that may be bound anew. -/
def bindVcpu (s : Fifo n) (port vcpu : ℕ) : Except Errno (Fifo n) :=
  if h : vcpu < n then .ok (s.setEvtchn port { s.evtchn port with notifyVcpuId := ⟨vcpu, h⟩ })
  else .error .enoent

/-! ### The guest -/

def guestMask (s : Fifo n) (port : ℕ) : Fifo n :=
  match s.wordFromPort port with
  | none => s
  | some w => s.setWord port (setBit w masked)

/-- The guest takes the head off a queue: it clears LINKED and LINK and goes on to the next
event. -/
def guestPop (s : Fifo n) (q : Queue n) : Fifo n :=
  let port := s.head q
  if port = 0 then s
  else
    { s.setWord port (clearBit (s.word port) linked &&& ~~~linkMask) with
      head := update s.head q (linkOf (s.word port)) }

end Fifo

/-! ## Runs -/

/-- A port that can be bound, so that events are raised on it: port 0 is reserved. -/
abbrev BoundPort := { port : ℕ // port ≠ 0 }

inductive Action (n : ℕ) where
  | setPending (port : BoundPort)
  | unmask (port : ℕ)
  | clearPending (port : ℕ)
  | setPriority (port priority : ℕ)
  | bindVcpu (port vcpu : ℕ)
  | guestMask (port : ℕ)
  | guestPop (q : Queue n)

/-- A run so far: the state, the events each queue was given and gave back, and those the guest took
since they were last raised or unmasked. -/
structure History (n : ℕ) where
  fifo : Fifo n
  links : Queue n → List ℕ
  pops : Queue n → List ℕ
  popped : ℕ → Bool

namespace History

variable {n : ℕ}

/-- A call for `port` that left the state `s`, and has perhaps linked the event. -/
def raised (h : History n) (port : ℕ) (s : Fifo n) : History n :=
  { h with
    fifo := s
    links :=
      if (h.fifo.word port).getLsbD linked = false ∧ (s.word port).getLsbD linked = true then
        update h.links (h.fifo.queueOf port) (h.links (h.fifo.queueOf port) ++ [port])
      else h.links
    popped := update h.popped port false }

def attempt (h : History n) (r : Except Errno (Fifo n)) : History n :=
  match r with
  | .ok s => { h with fifo := s }
  | .error _ => h

def step (h : History n) : Action n → History n
  | .setPending port =>
    h.raised port (h.fifo.setPending (h.fifo.evtchn port).notifyVcpuId port)
  | .unmask port => h.raised port (h.fifo.unmask port)
  | .clearPending port => { h with fifo := h.fifo.clearPending port }
  | .setPriority port priority => h.attempt (h.fifo.setPriority port priority)
  | .bindVcpu port vcpu => h.attempt (h.fifo.bindVcpu port vcpu)
  | .guestMask port => { h with fifo := h.fifo.guestMask port }
  | .guestPop q =>
    if h.fifo.head q = 0 then h
    else
      { h with
        fifo := h.fifo.guestPop q
        pops := update h.pops q (h.pops q ++ [h.fifo.head q])
        popped := update h.popped (h.fifo.head q) true }

/-- Event words and control blocks are zero, every control block is mapped, and nothing happened. -/
structure Initial (h : History n) : Prop where
  word : ∀ port, h.fifo.word port = 0
  controlBlock : ∀ v, h.fifo.controlBlock v = true
  head : ∀ q, h.fifo.head q = 0
  tail : ∀ q, h.fifo.tail q = 0
  links : ∀ q, h.links q = []
  pops : ∀ q, h.pops q = []

end History

end XenVmi.EventFifo
