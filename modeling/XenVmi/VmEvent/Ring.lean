import XenVmi.Lib.Words
import XenVmi.Lib.Runs

/-!
# The vm_event ring

Model of `common/vm_event.c` over the ring of `include/public/io/ring.h`; each function runs under
the ring lock and is one step. `Waiters` are the vCPUs that wait for room: on the wait queue, or
*blocked* with the ring's bit in their `pause_flags`.
-/

namespace XenVmi.VmEvent

open Function Lib

/-! ## Rings (`io/ring.h`) -/

/-- `__RD2` to `__RD32`: round a 32-bit constant down to a power of two. -/
def rd2 (x : ℕ) : ℕ := if x &&& 0x2 ≠ 0 then 2 else x &&& 1

def rd4 (x : ℕ) : ℕ := if x &&& 0xc ≠ 0 then rd2 (x >>> 2) <<< 2 else rd2 x

def rd8 (x : ℕ) : ℕ := if x &&& 0xf0 ≠ 0 then rd4 (x >>> 4) <<< 4 else rd4 x

def rd16 (x : ℕ) : ℕ := if x &&& 0xff00 ≠ 0 then rd8 (x >>> 8) <<< 8 else rd8 x

def rd32 (x : ℕ) : ℕ := if x &&& 0xffff0000 ≠ 0 then rd16 (x >>> 16) <<< 16 else rd16 x

/-- `__RING_SIZE`: the entries start behind the 64 bytes of indices and padding. -/
def ringSize (size entrySize : ℕ) : ℕ := rd32 ((size - 64) / entrySize)

structure SharedRing (ε : Type) where
  reqProd : BitVec 32
  rspProd : BitVec 32
  rspEvent : BitVec 32
  ring : ℕ → ε

structure FrontRing where
  reqProdPvt : BitVec 32
  rspCons : BitVec 32
  nrEnts : BitVec 32

structure BackRing where
  rspProdPvt : BitVec 32
  reqCons : BitVec 32
  nrEnts : BitVec 32

def FrontRing.freeRequests (r : FrontRing) : BitVec 32 := r.nrEnts - (r.reqProdPvt - r.rspCons)

def FrontRing.unconsumedResponses {ε : Type} (r : FrontRing) (s : SharedRing ε) : BitVec 32 :=
  s.rspProd - r.rspCons

/-- The index of `RING_GET_REQUEST` and `RING_GET_RESPONSE`. -/
def FrontRing.cell (r : FrontRing) (idx : BitVec 32) : ℕ := (idx &&& (r.nrEnts - 1)).toNat

def BackRing.unconsumedRequests {ε : Type} (r : BackRing) (s : SharedRing ε) : BitVec 32 :=
  let req := s.reqProd - r.reqCons
  let rsp := r.nrEnts - (r.reqCons - r.rspProdPvt)
  if req < rsp then req else rsp

def BackRing.cell (r : BackRing) (idx : BitVec 32) : ℕ := (idx &&& (r.nrEnts - 1)).toNat

/-! ## Events -/

/-- `struct vm_event_st`. The ring code writes `version` and `flags`, and passes the rest on. -/
structure Event (ρ : Type) where
  version : BitVec 32
  flags : BitVec 32
  rest : ρ

def interfaceVersion : BitVec 32 := 1

def flagForeign : BitVec 32 := 1 <<< 1

inductive Entry (ρ : Type) where
  | req (e : Event ρ)
  | rsp (e : Event ρ)

/-- `sizeof(vm_event_request_t)` on x86: 24 bytes of header, 32 of event, 256 of registers. -/
def eventSize : ℕ := 312

/-- `current`: a vCPU of the domain that is watched, or one of another domain. -/
inductive Caller where
  | target (v : ℕ)
  | foreign (id : ℕ)
deriving DecidableEq

def Caller.isTarget : Caller → Bool
  | .target _ => true
  | .foreign _ => false

/-- The domain: `max_vcpus`, and which entries of its vCPU array are not null. -/
structure Domain where
  maxVcpus : ℕ
  vcpu : ℕ → Bool

/-- The vCPUs `for_each_vcpu` visits. -/
def Domain.vcpus (d : Domain) : List ℕ := (List.range d.maxVcpus).filter d.vcpu

/-! ## The state of a ring -/

structure Slots (ρ : Type) where
  front : FrontRing
  sring : SharedRing (Entry ρ)
  targetProducers : BitVec 8
  foreignProducers : BitVec 8

structure Vcpu where
  /-- The ring's bit of `pause_flags`. -/
  pauseFlag : Bool
  pauseCount : ℤ
deriving DecidableEq

structure Waiters where
  wq : List ℕ
  blocked : ℤ
  lastVcpuWakeUp : ℕ
  vcpus : ℕ → Vcpu

structure State (ρ : Type) where
  ringPage : Bool
  slots : Slots ρ
  waiters : Waiters

/-- `BUG_ON(avail_req < 0)`, `ASSERT(free_req > 0)`, and the check in `vm_event_wake_blocked`. -/
inductive Bug where
  | availNegative
  | noFreeRequest
  | onlineMismatch
deriving DecidableEq

def Slots.ringAvailable {ρ : Type} (s : Slots ρ) : Except Bug ℕ :=
  let availReq : ℤ := s.front.freeRequests.toInt - s.targetProducers.toNat
    - s.foreignProducers.toNat
  if availReq < 0 then .error .availNegative else .ok availReq.toNat

/-! ## Waking -/

def Waiters.setVcpu (w : Waiters) (v : ℕ) (x : Vcpu) : Waiters :=
  { w with vcpus := update w.vcpus v x }

def Waiters.pause (w : Waiters) (v : ℕ) : Waiters :=
  w.setVcpu v { w.vcpus v with pauseCount := (w.vcpus v).pauseCount + 1 }

def Waiters.unpause (w : Waiters) (v : ℕ) : Waiters :=
  w.setVcpu v { w.vcpus v with pauseCount := (w.vcpus v).pauseCount - 1 }

def Waiters.setFlag (w : Waiters) (v : ℕ) (b : Bool) : Waiters :=
  w.setVcpu v { w.vcpus v with pauseFlag := b }

/-- A blocked vCPU is let go: its bit is clear, and the pause that came with it is undone. -/
def Waiters.unblock (w : Waiters) (v : ℕ) : Waiters :=
  { (w.setFlag v false).unpause v with blocked := w.blocked - 1 }

/-- The same from the loop of `vm_event_wake_blocked`, which remembers where it was. -/
def Waiters.wakeUp (w : Waiters) (v : ℕ) : Waiters := { w.unblock v with lastVcpuWakeUp := v }

def Waiters.markAndPause (w : Waiters) (v : ℕ) : Waiters :=
  if (w.vcpus v).pauseFlag then w
  else { (w.setFlag v true).pause v with blocked := w.blocked + 1 }

/-- The vCPUs without the ring's bit, as `vm_event_wake_blocked` counts them. -/
def Waiters.online (d : Domain) (w : Waiters) : ℤ :=
  d.vcpus.foldl (fun n v => if (w.vcpus v).pauseFlag then n - 1 else n) d.maxVcpus

/-- The loop of `vm_event_wake_blocked`, with `n` rounds to go. -/
def wakeLoop (d : Domain) (availReq : ℕ) : ℕ → ℕ → ℤ → Waiters → Waiters
  | 0, _, _, w => w
  | n + 1, i, online, w =>
    let k := i % d.maxVcpus
    if d.vcpu k = false then wakeLoop d availReq n (i + 1) online w
    else if w.blocked = 0 ∨ availReq ≤ online then w
    else if (w.vcpus k).pauseFlag then
      wakeLoop d availReq n (i + 1) (online + 1) (w.wakeUp k)
    else wakeLoop d availReq n (i + 1) online w

def wakeBlocked (d : Domain) {ρ : Type} (s : Slots ρ) (w : Waiters) : Except Bug Waiters := do
  let availReq ← s.ringAvailable
  if availReq = 0 ∨ w.blocked = 0 then .ok w
  else if w.online d ≠ d.maxVcpus - w.blocked then .error .onlineMismatch
  else .ok (wakeLoop d availReq d.maxVcpus (w.lastVcpuWakeUp + 1) (w.online d) w)

/-- `wake_up_nr`: the heads of the wait queue leave it and run again. -/
def wakeUpNr : ℕ → Waiters → Waiters
  | 0, w => w
  | nr + 1, w =>
    match w.wq with
    | [] => w
    | v :: rest => wakeUpNr nr ({ w with wq := rest }.unpause v)

def wakeQueued {ρ : Type} (s : Slots ρ) (w : Waiters) : Except Bug Waiters := do
  let availReq ← s.ringAvailable
  return wakeUpNr availReq w

/-- `vm_event_wake`: queued vCPUs come first. -/
def wake (d : Domain) {ρ : Type} (s : Slots ρ) (w : Waiters) : Except Bug Waiters :=
  if w.wq ≠ [] then wakeQueued s w else wakeBlocked d s w

/-! ## Operations on slots -/

section Slots

variable {ρ : Type}

/-- A reservation is made (`vm_event_grab_slot`). -/
def Slots.reserve (s : Slots ρ) (c : Caller) : Slots ρ :=
  if c.isTarget then { s with targetProducers := s.targetProducers + 1 }
  else { s with foreignProducers := s.foreignProducers + 1 }

/-- A reservation is given back (`vm_event_release_slot`). -/
def Slots.release (s : Slots ρ) (c : Caller) : Slots ρ :=
  if c.isTarget then { s with targetProducers := s.targetProducers - 1 }
  else { s with foreignProducers := s.foreignProducers - 1 }

/-- The request goes into the ring and is published (`RING_PUSH_REQUESTS`). -/
def Slots.push (s : Slots ρ) (e : Event ρ) : Slots ρ :=
  let reqProd := s.front.reqProdPvt
  { s with
    front := { s.front with reqProdPvt := reqProd + 1 }
    sring := { s.sring with
      ring := update s.sring.ring (s.front.cell reqProd) (.req e)
      reqProd := reqProd + 1 } }

def Slots.consume (s : Slots ρ) : Slots ρ :=
  let rspCons := s.front.rspCons + 1
  { s with
    front := { s.front with rspCons := rspCons }
    sring := { s.sring with rspEvent := rspCons + 1 } }

/-- The request as `vm_event_put_request` completes it. -/
def Event.complete (e : Event ρ) (c : Caller) : Event ρ :=
  { e with
    flags := if c.isTarget then e.flags else e.flags ||| flagForeign
    version := interfaceVersion }

end Slots

/-! ## Entry points -/

section EntryPoints

variable {ρ : Type} (d : Domain)

inductive Errno where
  | enosys
  | ebusy
deriving DecidableEq

def State.releaseSlot (s : State ρ) (c : Caller) : Except Bug (State ρ) := do
  let slots := s.slots.release c
  let waiters ← wake d slots s.waiters
  return { s with slots, waiters }

def State.blackEye (s : State ρ) (c : Caller) (availReq : ℕ) : State ρ :=
  match c with
  | .target v =>
    if availReq < d.maxVcpus then { s with waiters := s.waiters.markAndPause v } else s
  | .foreign _ => s

def State.putRequest (s : State ρ) (c : Caller) (req : Event ρ) : Except Bug (State ρ) :=
  if s.slots.front.freeRequests.toInt ≤ 0 then .error .noFreeRequest
  else do
    let s ← { s with slots := s.slots.push (req.complete c) }.releaseSlot d c
    let availReq ← s.slots.ringAvailable
    return s.blackEye d c availReq

/-- `vm_event_get_response`: the response, if there is one. -/
def State.getResponse (s : State ρ) : Except Bug (Option (Entry ρ) × State ρ) :=
  if s.slots.front.unconsumedResponses s.slots.sring = 0 then .ok (none, s)
  else do
    let rsp := s.slots.sring.ring (s.slots.front.cell s.slots.front.rspCons)
    let slots := s.slots.consume
    let waiters ← wake d slots s.waiters
    return (some rsp, { s with slots, waiters })

def State.cancelSlot (s : State ρ) (c : Caller) : Except Bug (State ρ) := s.releaseSlot d c

/-- `vm_event_grab_slot`: one attempt of `__vm_event_claim_slot`. -/
def State.grabSlot (s : State ρ) (c : Caller) : Except Bug (Except Errno (State ρ)) :=
  if s.ringPage = false then .ok (.error .enosys)
  else do
    let availReq ← s.slots.ringAvailable
    return if availReq = 0 then .error .ebusy else .ok { s with slots := s.slots.reserve c }

/-- `vm_event_disable`, which gives up while vCPUs sleep on the wait queue. -/
def State.disable (s : State ρ) : Except Errno (State ρ) :=
  if s.ringPage = false then .ok s
  else if s.waiters.wq ≠ [] then .error .ebusy
  else .ok { s with
    ringPage := false
    waiters := d.vcpus.foldl
      (fun w v => if (w.vcpus v).pauseFlag then w.unblock v else w) s.waiters }

def Waiters.prepareToWait (w : Waiters) (v : ℕ) : Waiters := { w with wq := w.wq ++ [v] }.pause v

/-- `finish_wait`, which finds the vCPU on the queue unless somebody has woken it. -/
def Waiters.finishWait (w : Waiters) (v : ℕ) : Waiters :=
  if v ∈ w.wq then { w with wq := w.wq.erase v }.unpause v else w

/-- A ring as `vm_event_enable` leaves it, over a page that the tools have cleared
(`SHARED_RING_INIT`). -/
def State.enable (entry : Entry ρ) (vcpus : ℕ → Vcpu) : State ρ where
  ringPage := true
  slots :=
    { front := { reqProdPvt := 0, rspCons := 0, nrEnts :=
      BitVec.ofNat 32 (ringSize 4096 eventSize) }
      sring := { reqProd := 0, rspProd := 0, rspEvent := 1, ring := fun _ => entry }
      targetProducers := 0
      foreignProducers := 0 }
  waiters := { wq := [], blocked := 0, lastVcpuWakeUp := 0, vcpus }

end EntryPoints

/-! ## The ring among its users -/

section System

variable {ρ : Type}

/-- The ring, the helper at its back end, the claims to be used, and the pauses of others on each
vCPU. -/
structure System (ρ : Type) where
  state : State ρ
  back : BackRing
  claims : List Caller
  others : ℕ → ℤ

inductive Action (ρ : Type) where
  | claim (c : Caller)
  | put (c : Caller) (req : Event ρ)
  | cancel (c : Caller)
  | getResponse
  | disable
  | prepareToWait (v : ℕ)
  | finishWait (v : ℕ)
  | take
  | answer (rsp : Event ρ)
  /-- The helper publishes its responses (`RING_PUSH_RESPONSES`). -/
  | publish
  | pause (v : ℕ)
  | unpause (v : ℕ)

def System.answer (s : System ρ) (rsp : Event ρ) : System ρ :=
  let sring := s.state.slots.sring
  let ring := update sring.ring (s.back.cell s.back.rspProdPvt) (.rsp rsp)
  { s with
    back := { s.back with rspProdPvt := s.back.rspProdPvt + 1 }
    state := { s.state with slots := { s.state.slots with sring := { sring with ring } } } }

def System.publish (s : System ρ) : System ρ :=
  let sring := { s.state.slots.sring with rspProd := s.back.rspProdPvt }
  { s with state := { s.state with slots := { s.state.slots with sring } } }

def System.withWaiters (s : System ρ) (waiters : Waiters) : System ρ :=
  { s with state := { s.state with waiters } }

def System.claim (s : System ρ) (c : Caller) : Except Bug (System ρ) := do
  let r ← s.state.grabSlot c
  match r with
  | .ok state => .ok { s with state, claims := c :: s.claims }
  | .error _ => .ok s

def step (d : Domain) (s : System ρ) : Action ρ → Except Bug (System ρ)
  | .claim c => s.claim c
  | .put c req => do
    let state ← s.state.putRequest d c req
    return { s with state, claims := s.claims.erase c }
  | .cancel c => do
    let state ← s.state.cancelSlot d c
    return { s with state, claims := s.claims.erase c }
  | .getResponse => do
    let (_, state) ← s.state.getResponse d
    return { s with state }
  | .disable =>
    match s.state.disable d with
    | .ok state => .ok { s with state }
    | .error _ => .ok s
  | .prepareToWait v => .ok (s.withWaiters (s.state.waiters.prepareToWait v))
  | .finishWait v => .ok (s.withWaiters (s.state.waiters.finishWait v))
  | .take => .ok { s with back := { s.back with reqCons := s.back.reqCons + 1 } }
  | .answer rsp => .ok (s.answer rsp)
  | .publish => .ok s.publish
  | .pause v => .ok
    { s with
      state := { s.state with waiters := s.state.waiters.pause v }
      others := update s.others v (s.others v + 1) }
  | .unpause v => .ok
    { s with
      state := { s.state with waiters := s.state.waiters.unpause v }
      others := update s.others v (s.others v - 1) }

/-- A ring that has just been enabled. No vCPU carries its bit, and every pause is somebody
else's. -/
def System.enabled (entry : Entry ρ) (others : ℕ → ℤ) : System ρ where
  state := .enable entry fun v => { pauseFlag := false, pauseCount := others v }
  back := { rspProdPvt := 0, reqCons := 0, nrEnts := BitVec.ofNat 32 (ringSize 4096 eventSize) }
  claims := []
  others

def Caller.Present (d : Domain) : Caller → Prop
  | .target v => v < d.maxVcpus ∧ d.vcpu v = true
  | .foreign _ => True

end System

end XenVmi.VmEvent
