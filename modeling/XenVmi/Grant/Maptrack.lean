import XenVmi.Grant.State

/-!
# Mapping and unmapping grants

Model of `common/grant_table.c:292-460` and `728-1420`. The hypercalls are taken one after another.
Unmapping has two phases: `unmapCommon` clears flags and pins, `unmapCommonComplete` frees the
entries that no flag holds any more.
-/

namespace XenVmi.Grant

/-! ## Handles -/

namespace Maptrack

/-- `__get_maptrack_handle`: the first entry of a vCPU's list, unless it is the last. -/
def vcpuGetMaptrackHandle (m : Maptrack) (v : Nat) (l : FreeList) :
    Except Fault (Option (Nat × Maptrack)) :=
  if l.head = maptrackTail then .ok none
  else do
    let e ← m.maptrackEntry l.head
    if e.ref = maptrackTail then .ok none
    else .ok (some (l.head, m.setVcpu v { l with head := e.ref }))

/-- The loop of `steal_maptrack_handle` over the victims that are left. -/
def stealFrom (m : Maptrack) (curr : Nat) : List Nat → Except Fault (Option (Nat × Maptrack))
  | [] => .ok none
  | i :: is =>
    match m.vcpu i with
    | none => m.stealFrom curr is
    | some l =>
      match m.vcpuGetMaptrackHandle i l with
      | .error f => .error f
      | .ok (some (handle, m')) =>
        .ok (some (handle, m'.setEntry handle { m'.entry handle with vcpu := curr }))
      | .ok none => m.stealFrom curr is

def stealMaptrackHandle (c : Config) (m : Maptrack) (curr random : Nat) :
    Except Fault (Option (Nat × Maptrack)) :=
  m.stealFrom curr ((List.range c.maxVcpus).map fun k => (random + k) % c.maxVcpus)

def putMaptrackHandle (m : Maptrack) (handle : Nat) : Except Fault Maptrack := do
  let e ← m.maptrackEntry handle
  let m := m.setEntry handle { e with ref := maptrackTail }
  match m.vcpu e.vcpu with
  | none => .error .noVcpu
  | some l =>
    let m := m.setVcpu e.vcpu { l with tail := handle }
    let p ← m.maptrackEntry l.tail
    .ok (m.setEntry l.tail { p with ref := handle })

/-- The entries of a new page at `limit` for `curr`, whose list starts at `head`. -/
def newPage (m : Maptrack) (curr head : Nat) (e : Nat) : GrantMapping :=
  if m.limit ≤ e ∧ e < m.limit + maptrackPerPage then
    { ref := if e + 1 = m.limit + maptrackPerPage then head else e + 1
      flags := 0
      domid := 0
      vcpu := curr }
  else m.entry e

/-- `get_maptrack_handle` with a page from the heap. -/
def growMaptrack (m : Maptrack) (curr : Nat) (l : FreeList) : Maptrack :=
  { entry := m.newPage curr l.head
    limit := m.limit + maptrackPerPage
    vcpu := Function.update m.vcpu curr <| some
      { head := m.limit + 1
        tail := if l.tail = maptrackTail then m.limit + maptrackPerPage - 1 else l.tail } }

/-- `get_maptrack_handle` without a page left: an entry of another vCPU for the end of the own list.
-/
def stealSentinel (c : Config) (m : Maptrack) (curr random : Nat) (l : FreeList) :
    Except Fault (Option Maptrack) :=
  if l.tail = maptrackTail then
    match m.stealMaptrackHandle c curr random with
    | .error f => .error f
    | .ok none => .ok none
    | .ok (some (handle, m)) => .ok (some (m.setVcpu curr ⟨handle, handle⟩))
  else .ok (some m)

/-- `get_maptrack_handle` without a page left. -/
def stealMaptrackHandles (c : Config) (m : Maptrack) (curr random random' : Nat) (l : FreeList) :
    Except Fault (Option Nat × Maptrack) :=
  match m.stealSentinel c curr random l with
  | .error f => .error f
  | .ok none => .ok (none, m)
  | .ok (some m) =>
    match m.stealMaptrackHandle c curr random' with
    | .error f => .error f
    | .ok none => .ok (none, m)
    | .ok (some (handle, m)) => .ok (some handle, m)

/-- What `get_maptrack_handle` finds: two random numbers and whether the heap has a page. -/
structure Luck where
  random : Nat
  random' : Nat
  page : Bool
  deriving DecidableEq, Repr

/-- `get_maptrack_handle` on the vCPU `curr` -/
def getMaptrackHandle (c : Config) (m : Maptrack) (curr : Nat) (luck : Luck) :
    Except Fault (Option Nat × Maptrack) :=
  match m.vcpu curr with
  | none => .error .noVcpu
  | some l =>
    match m.vcpuGetMaptrackHandle curr l with
    | .error f => .error f
    | .ok (some (handle, m)) => .ok (some handle, m)
    | .ok none =>
      if c.maxMaptrackFrames ≤ m.limit / maptrackPerPage then
        m.stealMaptrackHandles c curr luck.random luck.random' l
      else if luck.page then .ok (some m.limit, m.growMaptrack curr l)
      else .ok (none, m)

end Maptrack

/-! ## Mapping -/

/-- A `struct gnttab_map_grant_ref` with what the operation finds. -/
structure MapOp where
  flags : BitVec 32
  dom : Nat
  ref : Nat
  luck : Maptrack.Luck
  /-- `xsm_grant_mapref` allows it -/
  xsm : Bool
  setStatus : Status
  gfn : Nat
  pagedFrame : Except Status Nat
  /-- the page is pinned and mapped at `host_addr` -/
  hostMapping : Status
  iommu : Bool

def pinInc {w : Nat} (flags : BitVec w) : BitVec 32 :=
  let readonly := flags &&& gntmapReadonly ≠ 0
  (if flags &&& gntmapDeviceMap ≠ 0 then if readonly then gntpinDevrInc else gntpinDevwInc else 0)
  + if flags &&& gntmapHostMap ≠ 0 then if readonly then gntpinHstrInc else gntpinHstwInc else 0

/-- `__gnttab_map_grant_ref` for an entry that is not pinned, or not for writing. -/
def mapClaim (c : Config) (op : MapOp) (act : Active) : Except Status Active :=
  if act.pin = 0 ∨ (op.flags &&& gntmapReadonly = 0 ∧ act.pin &&& gntpinWriteMask = 0) then
    if op.setStatus ≠ .okay then .error op.setStatus
    else if act.pin = 0 then
      match op.pagedFrame with
      | .error rc => .error rc
      | .ok frame => .ok
        { act with
          gfn := op.gfn, domid := c.domid, frame := frame, start := 0, length := 4096
          isSubPage := false, transDomain := op.dom, transGref := op.ref }
    else .ok act
  else .ok act

/-- `__gnttab_map_grant_ref` under the lock of the granting table: the new pins, or the reason to
give up. -/
def mapPin (c : Config) (t : GrantTable) (op : MapOp) : Except Status Active :=
  if t.nrGrantEntries ≤ op.ref then .error .badGntref
  else
    let act := t.active op.ref
    if act.pin ≠ 0
        ∧ (act.domid ≠ c.domid ∨ act.pin &&& 0x80808080 ≠ 0 ∨ act.isSubPage = true) then
      .error .generalError
    else
      match mapClaim c op act with
      | .error rc => .error rc
      | .ok act => .ok { act with pin := act.pin + pinInc op.flags }

/-- `__gnttab_map_grant_ref` once the entry is pinned. -/
def mapOutcome (c : Config) (op : MapOp) : Status :=
  if op.hostMapping ≠ .okay then op.hostMapping
  else if c.needIommu ∧ ¬ op.iommu then .generalError
  else .okay

/-- `__gnttab_map_grant_ref` once it has a handle. -/
def mapWithHandle (c : Config) (s : State) (t : GrantTable) (op : MapOp) (handle : Nat) :
    Except Fault (State × Status) :=
  match mapPin c t op with
  | .error rc => do
    let m ← s.maptrack.putMaptrackHandle handle
    return ({ s with maptrack := m }, rc)
  | .ok act =>
    if mapOutcome c op = .okay then
      let mt := s.maptrack.entry handle
      let m := s.maptrack.setEntry handle
        { mt with domid := op.dom, ref := op.ref, flags := op.flags.setWidth 16 }
      .ok ({ s.setTable op.dom (t.setActive op.ref act) with maptrack := m }, .okay)
    else do
      -- `undo_out` takes the pins back and leaves the rest of the active entry
      let act := { act with pin := act.pin - pinInc op.flags }
      let m ← s.maptrack.putMaptrackHandle handle
      return ({ s.setTable op.dom (t.setActive op.ref act) with maptrack := m }, mapOutcome c op)

/-- `__gnttab_map_grant_ref` on the vCPU `curr` -/
def mapGrantRef (c : Config) (s : State) (curr : Nat) (op : MapOp) :
    Except Fault (State × Status) :=
  if op.flags &&& gntmapMaps = 0 then .ok (s, .badGntref)
  else if c.external ∧
      op.flags &&& (gntmapDeviceMap ||| gntmapApplicationMap ||| gntmapContainsPte) ≠ 0 then
    .ok (s, .generalError)
  else match s.tables op.dom with
  | none => .ok (s, .badDomain)
  | some t =>
    if op.xsm = false then .ok (s, .permissionDenied)
    else
      match s.maptrack.getMaptrackHandle c curr op.luck with
      | .error f => .error f
      | .ok (none, m) => .ok ({ s with maptrack := m }, .noDeviceSpace)
      | .ok (some handle, m) => mapWithHandle c { s with maptrack := m } t op handle

/-! ## Unmapping -/

/-- A `struct gnttab_unmap_common` with what the operation finds; `unmap_and_replace` has no
`dev_bus_addr`. -/
structure Unmap where
  hostAddr : Nat
  devBusAddr : Nat
  handle : Nat
  /-- `xsm_grant_unmapref` allows it -/
  xsm : Bool
  replace : Status
  iommu : Bool
  deriving DecidableEq, Repr

/-- What `struct gnttab_unmap_common` carries from the first phase to the second. -/
structure UnmapCommon where
  hostAddr : Nat
  handle : Nat
  status : Status
  flags : BitVec 16
  frame : Nat
  rd : Option Nat
  deriving DecidableEq, Repr

def dropMap (flag : BitVec 16) (flags : BitVec 16) (x : BitVec 16 × Active) : BitVec 16 × Active :=
  (x.1 &&& ~~~flag, { x.2 with pin := x.2.pin - pinInc (flags &&& (flag ||| gntmapReadonly)) })

/-- `__gnttab_unmap_common`: the device mapping goes if the operation names the frame. -/
def unmapDevice (op : Unmap) (flags : BitVec 16) (act : Active) : BitVec 16 × Active :=
  if op.devBusAddr / 4096 ≠ 0 ∧ flags &&& gntmapDeviceMap ≠ 0 then
    dropMap gntmapDeviceMap flags (flags, act)
  else (flags, act)

/-- `__gnttab_unmap_common` while it holds the active entry: flags, entry, frame and result. -/
def unmapPins (op : Unmap) (flags : BitVec 16) (act : Active) :
    (BitVec 16 × Active) × Nat × Status :=
  if op.devBusAddr / 4096 ≠ 0 ∧ op.devBusAddr / 4096 ≠ act.frame then
    ((flags, act), op.devBusAddr / 4096, .generalError)
  else if op.hostAddr ≠ 0 ∧ flags &&& gntmapHostMap ≠ 0 then
    if op.replace ≠ .okay then (unmapDevice op flags act, act.frame, op.replace)
    else (dropMap gntmapHostMap flags (unmapDevice op flags act), act.frame, .okay)
  else (unmapDevice op flags act, act.frame, .okay)

def unmapCommon (c : Config) (s : State) (op : Unmap) : Except Fault (State × UnmapCommon) :=
  let failed (status : Status) : UnmapCommon :=
    ⟨op.hostAddr, op.handle, status, 0, op.devBusAddr / 4096, none⟩
  if s.maptrack.limit ≤ op.handle then .ok (s, failed .badHandle)
  else
    let map := s.maptrack.entry op.handle
    if map.flags = 0 then .ok (s, failed .badHandle)
    else match s.tables map.domid with
    -- `domain_crash`
    | none => .ok (s, failed .generalError)
    | some t =>
      if op.xsm = false then .ok (s, failed .permissionDenied)
      else do
        let act ← t.activeEntryAcquire map.ref
        let ((flags, act), frame, rc) := unmapPins op map.flags act
        let rc := if rc = .okay ∧ c.needIommu ∧ ¬ op.iommu then .generalError else rc
        let m := s.maptrack.setEntry op.handle { map with flags := flags }
        return ({ s.setTable map.domid (t.setActive map.ref act) with maptrack := m },
          ⟨op.hostAddr, op.handle, rc, map.flags, frame, some map.domid⟩)

/-- `__gnttab_unmap_common_complete` decides to free the handle. -/
def UnmapCommon.putHandle (u : UnmapCommon) (map : GrantMapping) (act : Active) : Prop :=
  u.frame = act.frame
    ∧ ¬ (u.hostAddr ≠ 0 ∧ u.flags &&& gntmapHostMap ≠ 0 ∧ u.status ≠ .okay)
    ∧ map.flags &&& gntmapMaps = 0

instance (u : UnmapCommon) (map : GrantMapping) (act : Active) : Decidable (u.putHandle map act) :=
  inferInstanceAs (Decidable (_ ∧ _ ∧ _))

def unmapCommonComplete (s : State) (u : UnmapCommon) : Except Fault State :=
  match u.rd.bind s.tables with
  | none => .ok s
  | some t =>
    if t.version = 0 then .ok s
    else do
      let map := s.maptrack.entry u.handle
      let act ← t.activeEntryAcquire map.ref
      if u.putHandle map act then do
        let m ← (s.maptrack.setEntry u.handle { map with flags := 0 }).putMaptrackHandle u.handle
        return { s with maptrack := m }
      else return s

def unmapBatchCommon (c : Config) : State → List Unmap → Except Fault (State × List UnmapCommon)
  | s, [] => .ok (s, [])
  | s, op :: ops => do
    let (s, u) ← unmapCommon c s op
    let (s, us) ← unmapBatchCommon c s ops
    return (s, u :: us)

/-- One round of `gnttab_unmap_grant_ref` or `gnttab_unmap_and_replace`. -/
def unmapBatch (c : Config) (s : State) (ops : List Unmap) : Except Fault State := do
  let (s, us) ← unmapBatchCommon c s ops
  us.foldlM unmapCommonComplete s

/-! ## Runs -/

/-- A hypercall with more than `GNTTAB_UNMAP_BATCH_SIZE` operations is several batches. -/
inductive Action where
  /-- one operation of `gnttab_map_grant_ref` on a vCPU -/
  | map (curr : Nat) (op : MapOp)
  | unmap (ops : List Unmap)
  | initVcpu (v : Nat)
  | remote (d : Nat) (t : Option GrantTable)

/-- `grant_table_init_vcpu` for a vCPU that does not exist yet. -/
def Maptrack.initVcpu (m : Maptrack) (v : Nat) : Maptrack :=
  match m.vcpu v with
  | none => m.setVcpu v ⟨maptrackTail, maptrackTail⟩
  | some _ => m

def step (c : Config) (s : State) : Action → Except Fault State
  | .map curr op => do
    let (s, _) ← mapGrantRef c s curr op
    return s
  | .unmap ops => unmapBatch c s ops
  | .initVcpu v => .ok { s with maptrack := s.maptrack.initVcpu v }
  | .remote d t => .ok { s with tables := Function.update s.tables d t }

/-- `grant_table_create`: no maptrack page and no vCPU. -/
def Maptrack.create : Maptrack := ⟨fun _ => ⟨0, 0, 0, 0⟩, 0, fun _ => none⟩

def State.create (tables : Nat → Option GrantTable) : State := ⟨.create, tables⟩

end XenVmi.Grant
