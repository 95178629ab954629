import Mathlib.Algebra.Group.Nat.Defs
import XenVmi.Lib.Runs

/-!
# Event channels

Model of `common/event_channel.c`. The channel's `state` and its union are one type (`Binding`), and
reading a member that the state does not select is `Bug.wrongUnion`. Each operation is a whole
hypercall, and what it asks of other components is given with the call. Delivery is not part of this
model.
-/

namespace XenVmi.EventChannel

open Function Lib

/-! ## The tables -/

inductive Binding where
  | free
  | reserved
  | unbound (remoteDomid : ℕ)
  | interdomain (remoteDom remotePort : ℕ)
  | pirq (irq nextPort prevPort : ℕ)
  | virq (virq : ℕ)
  | ipi
deriving DecidableEq

structure Evtchn where
  binding : Binding
  xenConsumer : ℕ
  notifyVcpuId : ℕ
deriving DecidableEq

def Evtchn.zero : Evtchn := ⟨.free, 0, 0⟩

structure Dom where
  isDying : Bool
  isHvm : Bool
  bits : ℕ
  maxVcpus : ℕ
  vcpu : ℕ → Bool
  nrPirqs : ℕ
  maxEvtchns : ℕ
  maxEvtchnPort : ℕ
  validEvtchns : ℕ
  /-- `evtchn_fifo` is not null. -/
  fifo : Bool
  evtchn : ℕ → Evtchn
  virqToEvtchn : ℕ → ℕ → ℕ
  pirqEvtchnHead : ℕ → ℕ
  /-- The `evtchn` field of `pirq_info`, where there is one. -/
  pirqInfo : ℕ → Option ℕ

abbrev State := ℕ → Option Dom

inductive Errno where
  | esrch
  | einval
  | enoent
  | eexist
  | eperm
  | enospc
  | enomem
deriving DecidableEq

/-- The `BUG_ON`s of `evtchn_close` and `free_xen_event_channel`, a domain that is gone, and a read
of the wrong member of a union. -/
inductive Bug where
  | noDomain
  | remoteInvalid
  | remoteNotBound
  | remoteElsewhere
  | xenPortInvalid
  | wrongUnion
deriving DecidableEq

def evtchnsPerBucket : ℕ := 64

def fifoNrChannels : ℕ := 2 ^ 17

def nrVirqs : ℕ := 24

/-- `virq_is_global`: all but the timer, debug, profiling and performance interrupts. -/
def virqIsGlobal (virq : ℕ) : Bool := virq ∉ [0, 1, 7, 13]

namespace Dom

def portIsValid (D : Dom) (p : ℕ) : Prop := p < D.maxEvtchns ∧ p < D.validEvtchns

instance (D : Dom) (p : ℕ) : Decidable (D.portIsValid p) := inferInstanceAs (Decidable (_ ∧ _))

def hasVcpu (D : Dom) (v : ℕ) : Prop := v < D.maxVcpus ∧ D.vcpu v = true

instance (D : Dom) (v : ℕ) : Decidable (D.hasVcpu v) := inferInstanceAs (Decidable (_ ∧ _))

def setChan (D : Dom) (p : ℕ) (c : Evtchn) : Dom := { D with evtchn := update D.evtchn p c }

def setBinding (D : Dom) (p : ℕ) (b : Binding) : Dom := D.setChan p { D.evtchn p with binding := b }

def setVirqs (D : Dom) (t : ℕ → ℕ → ℕ) : Dom := { D with virqToEvtchn := t }

def setInfo (D : Dom) (irq : ℕ) (info : Option ℕ) : Dom :=
  { D with pirqInfo := update D.pirqInfo irq info }

/-- Where the search of `get_free_port` stops: a free port, or one that is not permitted. -/
def search (D : Dom) : Option ℕ :=
  (List.range (min D.maxEvtchns D.validEvtchns)).find? fun p =>
    decide (D.maxEvtchnPort < p ∨ (D.evtchn p).binding = .free)

def grow (D : Dom) : Dom :=
  { D with
    evtchn := fun p =>
      if D.validEvtchns ≤ p ∧ p < D.validEvtchns + evtchnsPerBucket then .zero else D.evtchn p
    validEvtchns := D.validEvtchns + evtchnsPerBucket }

/-- `get_free_port`: a valid port, or one of a new bucket, if there is memory. -/
def getFreePort (D : Dom) (memory : Bool) : Except Errno (ℕ × Dom) :=
  if D.isDying then .error .einval
  else match D.search with
    | some p => if D.maxEvtchnPort < p then .error .enospc else .ok (p, D)
    | none =>
      let port := min D.maxEvtchns D.validEvtchns
      if port = D.maxEvtchns ∨ D.maxEvtchnPort < port then .error .enospc
      else if memory then .ok (port, D.grow)
      else .error .enomem

def freeEvtchn (D : Dom) (p : ℕ) : Dom := D.setChan p .zero

/-! ## Lists of physical interrupts -/

/-- A write to `u.pirq.next_port`. -/
def setNext (D : Dom) (p next : ℕ) : Except Bug Dom :=
  match (D.evtchn p).binding with
  | .pirq irq _ prev => .ok (D.setBinding p (.pirq irq next prev))
  | _ => .error .wrongUnion

/-- A write to `u.pirq.prev_port`. -/
def setPrev (D : Dom) (p prev : ℕ) : Except Bug Dom :=
  match (D.evtchn p).binding with
  | .pirq irq next _ => .ok (D.setBinding p (.pirq irq next prev))
  | _ => .error .wrongUnion

def setHead (D : Dom) (v port : ℕ) : Dom :=
  { D with pirqEvtchnHead := update D.pirqEvtchnHead v port }

def linkHead (D : Dom) (head port : ℕ) : Except Bug Dom :=
  if head ≠ 0 then D.setPrev head port else .ok D

def linkPirqPort (D : Dom) (port v : ℕ) : Except Bug Dom := do
  let D ← D.setPrev port 0
  let D ← D.setNext port (D.pirqEvtchnHead v)
  let D ← D.linkHead (D.pirqEvtchnHead v) port
  return D.setHead v port

def unlinkNext (D : Dom) (v next prev : ℕ) : Except Bug Dom :=
  if prev ≠ 0 then D.setNext prev next else .ok (D.setHead v next)

def unlinkPrev (D : Dom) (next prev : ℕ) : Except Bug Dom :=
  if next ≠ 0 then D.setPrev next prev else .ok D

def unlinkPirqPort (D : Dom) (port v : ℕ) : Except Bug Dom :=
  match (D.evtchn port).binding with
  | .pirq _ next prev => do
    let D ← D.unlinkNext v next prev
    D.unlinkPrev next prev
  | _ => .error .wrongUnion

end Dom

/-! ## Allocating and binding -/

namespace State

def setDom (s : State) (d : ℕ) (D : Dom) : State := update s d (some D)

/-- Take a free port and bind it. A bucket that was allocated stays when the binding fails. -/
def withFreePort (s : State) (d : ℕ) (D : Dom) (memory : Bool) (bind : Dom → ℕ → Except Errno Dom) :
    Except Errno ℕ × State :=
  match D.getFreePort memory with
  | .error e => (.error e, s)
  | .ok (port, D') =>
    match bind D' port with
    | .error e => (.error e, s.setDom d D')
    | .ok D'' => (.ok port, s.setDom d D'')

def allocUnbound (s : State) (d remote : ℕ) (memory policy : Bool) : Except Errno ℕ × State :=
  match s d with
  | none => (.error .esrch, s)
  | some D => s.withFreePort d D memory fun D port =>
    if policy then .ok (D.setBinding port (.unbound remote)) else .error .eperm

/-- `alloc_unbound_xen_event_channel`, for a consumer in the hypervisor. -/
def allocUnboundXen (s : State) (d vcpu remote consumer : ℕ) (memory policy : Bool) :
    Except Errno ℕ × State :=
  match s d with
  | none => (.error .esrch, s)
  | some D => s.withFreePort d D memory fun D port =>
    if policy then .ok (D.setChan port ⟨.unbound remote, consumer + 1, vcpu⟩) else .error .eperm

/-- Both ends of `evtchn_bind_interdomain`, once the local port is there. -/
def bindRemote (s : State) (ld lport rd rport : ℕ) (policy : Bool) : Except Errno ℕ × State :=
  match s rd with
  | none => (.error .esrch, s)
  | some R =>
    if ¬ R.portIsValid rport ∨ (R.evtchn rport).binding ≠ .unbound ld then (.error .einval, s)
    else if policy = false then (.error .eperm, s)
    else
      match s ld with
      | none => (.error .esrch, s)
      | some L =>
        let s := s.setDom ld (L.setBinding lport (.interdomain rd rport))
        match s rd with
        | none => (.error .esrch, s)
        | some R => (.ok lport, s.setDom rd (R.setBinding rport (.interdomain ld lport)))

def bindInterdomain (s : State) (ld rd rport : ℕ) (memory policy : Bool) : Except Errno ℕ × State :=
  match s rd, s ld with
  | some _, some L =>
    match L.getFreePort memory with
    | .error e => (.error e, s)
    | .ok (lport, L') => (s.setDom ld L').bindRemote ld lport rd rport policy
  | _, _ => (.error .esrch, s)

def bindVirq (s : State) (d virq vcpu : ℕ) (memory : Bool) : Except Errno ℕ × State :=
  match s d with
  | none => (.error .esrch, s)
  | some D =>
    if nrVirqs ≤ virq then (.error .einval, s)
    else if virqIsGlobal virq ∧ vcpu ≠ 0 then (.error .einval, s)
    else if ¬ D.hasVcpu vcpu then (.error .enoent, s)
    else if D.virqToEvtchn vcpu virq ≠ 0 then (.error .eexist, s)
    else s.withFreePort d D memory fun D port =>
      .ok ((D.setChan port { D.evtchn port with binding := .virq virq, notifyVcpuId :=
        vcpu }).setVirqs fun v n => if v = vcpu ∧ n = virq then port else D.virqToEvtchn v n)

def bindIpi (s : State) (d vcpu : ℕ) (memory : Bool) : Except Errno ℕ × State :=
  match s d with
  | none => (.error .esrch, s)
  | some D =>
    if ¬ D.hasVcpu vcpu then (.error .enoent, s)
    else s.withFreePort d D memory fun D port =>
      .ok (D.setChan port { D.evtchn port with binding := .ipi, notifyVcpuId := vcpu })

/-- What `evtchn_bind_pirq` asks of the interrupt code. -/
structure PirqEnv where
  permitted : Bool
  info : Bool
  guestBind : Bool

/-- The second half of `evtchn_bind_pirq`, with a free port. -/
def bindPirqPort (D : Dom) (port pirq : ℕ) (env : PirqEnv) : Except Bug (Except Errno ℕ × Dom) :=
  if env.info = false then .ok (.error .enomem, D)
  else if D.isHvm = false ∧ env.guestBind = false then
    .ok (.error .einval, D.setInfo pirq (some 0))
  else do
    let D ← ((D.setInfo pirq (some port)).setBinding port (.pirq pirq 0 0)).linkPirqPort port 0
    return (.ok port, D)

/-- `evtchn_bind_pirq`. The port is notified on vCPU 0. -/
def bindPirq (s : State) (d pirq : ℕ) (env : PirqEnv) (memory : Bool) :
    Except Bug (Except Errno ℕ × State) :=
  match s d with
  | none => .ok (.error .esrch, s)
  | some D =>
    if D.nrPirqs ≤ pirq then .ok (.error .einval, s)
    else if D.isHvm = false ∧ env.permitted = false then .ok (.error .eperm, s)
    else if (D.pirqInfo pirq).getD 0 ≠ 0 then .ok (.error .eexist, s)
    else match D.getFreePort memory with
      | .error e => .ok (.error e, s)
      | .ok (port, D') => do
        let r ← bindPirqPort D' port pirq env
        return (r.1, s.setDom d r.2)

def bindVcpu (s : State) (d port vcpu : ℕ) : Except Bug (Except Errno Unit × State) :=
  match s d with
  | none => .ok (.error .esrch, s)
  | some D =>
    let notify : Dom := D.setChan port { D.evtchn port with notifyVcpuId := vcpu }
    if ¬ D.hasVcpu vcpu then .ok (.error .enoent, s)
    else if ¬ D.portIsValid port then .ok (.error .einval, s)
    else if (D.evtchn port).xenConsumer ≠ 0 then .ok (.error .einval, s)
    else match (D.evtchn port).binding with
      | .virq virq =>
        if virqIsGlobal virq then .ok (.ok (), s.setDom d notify) else .ok (.error .einval, s)
      | .unbound _ | .interdomain _ _ => .ok (.ok (), s.setDom d notify)
      | .pirq _ _ _ =>
        if (D.evtchn port).notifyVcpuId = vcpu then .ok (.ok (), s)
        else do
          let D ← D.unlinkPirqPort port (D.evtchn port).notifyVcpuId
          let D ← (D.setChan port { D.evtchn port with notifyVcpuId := vcpu }).linkPirqPort
            port vcpu
          return (.ok (), s.setDom d D)
      | .free | .reserved | .ipi => .ok (.error .einval, s)

/-! ## Closing -/

def leave (D : Dom) (port : ℕ) : Except Bug Dom :=
  match (D.evtchn port).binding with
  | .pirq irq _ _ =>
    match D.pirqInfo irq with
    | none => .ok D
    | some _ => (D.setInfo irq (some 0)).unlinkPirqPort port (D.evtchn port).notifyVcpuId
  | .virq virq => .ok (D.setVirqs fun v n =>
      if D.hasVcpu v ∧ n = virq ∧ D.virqToEvtchn v n = port then 0 else D.virqToEvtchn v n)
  | _ => .ok D

/-- The interdomain case of `evtchn_close`: the other end is left unbound. -/
def closeInterdomain (s : State) (d1 : ℕ) (D1 : Dom) (port1 d2 port2 : ℕ) : Except Bug State :=
  match s d2 with
  | none => .error .noDomain
  | some D2 =>
    if ¬ D2.portIsValid port2 then .error .remoteInvalid
    else match (D2.evtchn port2).binding with
      | .interdomain r _ =>
        if r ≠ d1 then .error .remoteElsewhere
        else
          let s := s.setDom d1 (D1.freeEvtchn port1)
          match s d2 with
          | none => .error .noDomain
          | some D2 => .ok (s.setDom d2 (D2.setBinding port2 (.unbound d1)))
      | _ => .error .remoteNotBound

def evtchnClose (s : State) (d1 port1 : ℕ) (guest : Bool) :
    Except Bug (Except Errno Unit × State) :=
  match s d1 with
  | none => .ok (.error .esrch, s)
  | some D1 =>
    if ¬ D1.portIsValid port1 then .ok (.error .einval, s)
    else if (D1.evtchn port1).xenConsumer ≠ 0 ∧ guest = true then .ok (.error .einval, s)
    else match (D1.evtchn port1).binding with
      | .free | .reserved => .ok (.error .einval, s)
      | .interdomain d2 port2 => do
        let s ← s.closeInterdomain d1 D1 port1 d2 port2
        return (.ok (), s)
      | .unbound _ | .pirq _ _ _ | .virq _ | .ipi => do
        let D ← leave D1 port1
        return (.ok (), s.setDom d1 (D.freeEvtchn port1))

def closeAll (s : State) (d : ℕ) (D : Dom) (guest : Bool) : Except Bug State :=
  (List.range (min D.maxEvtchns D.validEvtchns)).foldlM
    (fun s port => do
      let r ← s.evtchnClose d port guest
      return r.2) s

/-- `evtchn_fifo_destroy` and `evtchn_2l_init`. -/
def twoLevel (s : State) (d : ℕ) : State :=
  match s d with
  | none => s
  | some D => s.setDom d { D with fifo := false, maxEvtchns := D.bits * D.bits }

/-- `evtchn_reset`. A domain that resets itself goes back to the two-level ABI
(`evtchn_2l_init`). -/
def evtchnReset (s : State) (d : ℕ) (self policy : Bool) : Except Bug (Except Errno Unit × State) :=
  match s d with
  | none => .ok (.error .esrch, s)
  | some D =>
    if policy = false then .ok (.error .eperm, s)
    else do
      let s ← s.closeAll d D true
      return (.ok (), if self = true ∧ D.fifo = true then s.twoLevel d else s)

def freeXen (s : State) (d port : ℕ) : Except Bug (Except Errno Unit × State) :=
  match s d with
  | none => .ok (.error .esrch, s)
  | some D => if ¬ D.portIsValid port then .error .xenPortInvalid else s.evtchnClose d port false

/-- `evtchn_destroy`, on a domain that is dying from now on. -/
def evtchnDestroy (s : State) (d : ℕ) : Except Bug State :=
  match s d with
  | none => .ok s
  | some D => (s.setDom d { D with isDying := true }).closeAll d D false

/-- `evtchn_send`: the port that is signalled, if any. -/
def evtchnSend (s : State) (d port : ℕ) (policy : Bool) : Except Errno (Option (ℕ × ℕ)) :=
  match s d with
  | none => .error .esrch
  | some D =>
    if ¬ D.portIsValid port then .error .einval
    else if (D.evtchn port).xenConsumer ≠ 0 then .error .einval
    else if policy = false then .error .eperm
    else match (D.evtchn port).binding with
      | .interdomain rd rport => .ok (some (rd, rport))
      | .ipi => .ok (some (d, port))
      | .unbound _ => .ok none
      | .free | .reserved | .pirq _ _ _ | .virq _ => .error .einval

/-! ## Domains -/

/-- What `domain_create` is told. -/
structure Config where
  isHvm : Bool
  has32bitShinfo : Bool
  maxVcpus : ℕ
  vcpu : ℕ → Bool
  nrPirqs : ℕ

def Config.bits (c : Config) : ℕ := if c.has32bitShinfo then 32 else 64

/-- A domain after `evtchn_init`: one bucket, with port 0 reserved. `has_32bit_shinfo` is not set
yet, so that the limit is that of 64-bit words. -/
def newDom (c : Config) : Dom where
  isDying := false
  isHvm := c.isHvm
  bits := c.bits
  maxVcpus := c.maxVcpus
  vcpu := c.vcpu
  nrPirqs := c.nrPirqs
  maxEvtchns := 64 * 64
  maxEvtchnPort := 2 ^ 31 - 1
  validEvtchns := evtchnsPerBucket
  fifo := false
  evtchn := fun p => if p = 0 then { Evtchn.zero with binding := .reserved } else .zero
  virqToEvtchn := fun _ _ => 0
  pirqEvtchnHead := fun _ => 0
  pirqInfo := fun _ => none

/-- `evtchn_fifo_init_control`, for the first control block. -/
def initControl (s : State) (d : ℕ) : State :=
  match s d with
  | none => s
  | some D => if D.fifo then s else s.setDom d { D with fifo := true, maxEvtchns := fifoNrChannels }

end State

open State in
/-- The operations. Those of a guest come from the domain `d`. -/
inductive Action where
  | allocUnbound (d remote : ℕ) (memory policy : Bool)
  | bindInterdomain (d rd rport : ℕ) (memory policy : Bool)
  | bindVirq (d virq vcpu : ℕ) (memory : Bool)
  | bindIpi (d vcpu : ℕ) (memory : Bool)
  | bindPirq (d pirq : ℕ) (env : PirqEnv) (memory : Bool)
  | bindVcpu (d port vcpu : ℕ)
  | close (d port : ℕ)
  | reset (d : ℕ) (self policy : Bool)
  | allocUnboundXen (d vcpu remote consumer : ℕ) (memory policy : Bool)
  | freeXen (d port : ℕ)
  | destroy (d : ℕ)
  | release (d : ℕ)
  | create (d : ℕ) (c : Config)
  | initControl (d : ℕ)
  | setMaxPort (d maxPort : ℕ)

def step (s : State) : Action → Except Bug State
  | .allocUnbound d remote memory policy => .ok (s.allocUnbound d remote memory policy).2
  | .bindInterdomain d rd rport memory policy => .ok (s.bindInterdomain d rd rport memory policy).2
  | .bindVirq d virq vcpu memory => .ok (s.bindVirq d virq vcpu memory).2
  | .bindIpi d vcpu memory => .ok (s.bindIpi d vcpu memory).2
  | .bindPirq d pirq env memory => (s.bindPirq d pirq env memory).map Prod.snd
  | .bindVcpu d port vcpu => (s.bindVcpu d port vcpu).map Prod.snd
  | .close d port => (s.evtchnClose d port true).map Prod.snd
  | .reset d self policy => (s.evtchnReset d self policy).map Prod.snd
  | .allocUnboundXen d vcpu remote consumer memory policy =>
    .ok (s.allocUnboundXen d vcpu remote consumer memory policy).2
  | .freeXen d port => (s.freeXen d port).map Prod.snd
  | .destroy d => s.evtchnDestroy d
  | .release d =>
    match s d with
    | some D => .ok (if D.isDying then update s d none else s)
    | none => .ok s
  | .create d c => .ok (if (s d).isNone then s.setDom d (State.newDom c) else s)
  | .initControl d => .ok (s.initControl d)
  | .setMaxPort d maxPort =>
    match s d with
    | some D => .ok (s.setDom d { D with maxEvtchnPort := min maxPort (2 ^ 31 - 1) })
    | none => .ok s

end XenVmi.EventChannel
