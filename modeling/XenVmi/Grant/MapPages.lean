import Mathlib.Algebra.Ring.Int.Defs
import Mathlib.Algebra.Group.Pi.Basic
import Mathlib.Algebra.Group.Prod
import XenVmi.Grant.MapPins

/-!
# Page references and IOMMU rights of mappings

`common/grant_table.c:728-1298` once more, with page references, `mapkind` and the calls of the
IOMMU. A map operation takes its references in up to two steps, does not look at the results of the
second, and gives back `nr_gets` of them at `undo_out`. `__gnttab_unmap_common_complete` drops a
device mapping's reference whenever the flags at the start had the device bit.
-/

namespace XenVmi.Grant

/-! ## Pages -/

/-- Numbers of general references and of `PGT_writable_page` references. -/
abbrev Refs := Int × Int

inductive Rights where
  | none | read | write
  deriving DecidableEq, Repr

structure PageEnv where
  iomem : Nat → Bool
  /-- `paging_mode_external` of a granting domain -/
  external : Nat → Bool

structure PageState where
  state : State
  refs : Nat → Refs
  rights : Nat → Rights

def hostMappingGetPageType {w : Nat} (c : Config) (env : PageEnv) (flags : BitVec w) (rd : Nat) :
    Prop :=
  flags &&& gntmapReadonly = 0 ∧ (c.domid = rd ∨ env.external rd = false)

instance {w : Nat} (c : Config) (env : PageEnv) (flags : BitVec w) (rd : Nat) :
    Decidable (hostMappingGetPageType c env flags rd) := inferInstanceAs (Decidable (_ ∧ _))

/-! ## The page behind a mapping -/

inductive PageOwner where
  | granter
  | cow
  | other
  /-- `page_get_owner_and_reference` gets no reference -/
  | nobody
  deriving DecidableEq, Repr

structure PageMap where
  op : MapOp
  owner : PageOwner
  /-- `get_page_type` for the first reference -/
  getPageType : Bool
  /-- `get_page` for a device mapping beside a host mapping, if the granting domain owns the page -/
  deviceGetPage : Bool
  /-- `get_page_type` for a device mapping beside a host mapping -/
  deviceGetPageType : Bool
  iomemAccess : Bool

structure Gets where
  status : Status
  refs : Refs
  nrGets : Nat

/-- `__gnttab_map_grant_ref` from `page_get_owner` to the IOMMU. -/
def mapPages (c : Config) (env : PageEnv) (x : PageMap) (frame : Nat) : Gets :=
  if env.iomem frame then
    if c.external then ⟨.generalError, 0, 0⟩
    else if x.iomemAccess = false then ⟨.generalError, 0, 0⟩
    else ⟨x.op.hostMapping, 0, 0⟩
  else if x.owner = .granter ∨ x.owner = .cow then
    if hostMappingGetPageType c env x.op.flags x.op.dom ∧
        (x.owner = .cow ∨ x.getPageType = false) then
      -- `could_not_pin`
      ⟨.generalError, 0, 0⟩
    else
      let first : Refs := (1, if hostMappingGetPageType c env x.op.flags x.op.dom then 1 else 0)
      if x.op.flags &&& gntmapHostMap ≠ 0 then
        if x.op.hostMapping ≠ .okay then ⟨x.op.hostMapping, first, 1⟩
        else if x.op.flags &&& gntmapDeviceMap ≠ 0 then
          let second : Refs :=
            (if x.owner = .granter ∧ x.deviceGetPage then 1 else 0,
              if x.op.flags &&& gntmapReadonly = 0 ∧ x.deviceGetPageType then 1 else 0)
          ⟨.okay, first + second, 2⟩
        else ⟨.okay, first, 1⟩
      else ⟨.okay, first, 1⟩
  else ⟨.generalError, 0, 0⟩

/-- The references that `undo_out` gives back. -/
def mapPuts (c : Config) (env : PageEnv) (op : MapOp) (nrGets : Nat) : Refs :=
  (if 1 < nrGets then (1, if op.flags &&& gntmapReadonly = 0 then 1 else 0) else 0)
  + if 0 < nrGets then (1, if hostMappingGetPageType c env op.flags op.dom then 1 else 0) else 0

/-! ## The IOMMU -/

/-- `MAPKIND_READ` and `MAPKIND_WRITE` -/
structure MapKind where
  read : Bool
  write : Bool
  deriving DecidableEq, Repr

namespace Maptrack

def mapkindFrom (m : Maptrack) (t : GrantTable) (rd mfn : Nat) :
    MapKind → List Nat → Except Fault MapKind
  | kind, [] => .ok kind
  | kind, handle :: handles =>
    if kind.write then .ok kind
    else
      let map := m.entry handle
      if map.flags &&& gntmapMaps = 0 ∨ map.domid ≠ rd then m.mapkindFrom t rd mfn kind handles
      else do
        let act ← t.activeEntryAcquire map.ref
        if act.frame = mfn then
          m.mapkindFrom t rd mfn
            (if map.flags &&& gntmapReadonly ≠ 0 then { kind with read := true }
              else { kind with write := true }) handles
        else m.mapkindFrom t rd mfn kind handles

def mapkind (m : Maptrack) (t : GrantTable) (rd mfn : Nat) : Except Fault MapKind :=
  m.mapkindFrom t rd mfn ⟨false, false⟩ (List.range m.limit)

end Maptrack

/-- What `__gnttab_map_grant_ref` asks the IOMMU for. -/
def mapRequest (pin oldPin : BitVec 32) (kind : MapKind) : Option Rights :=
  if pin &&& gntpinWriteMask ≠ 0 ∧ oldPin &&& gntpinWriteMask = 0 then
    if kind.write then none else some .write
  else if pin ≠ 0 ∧ oldPin = 0 then
    if kind.read ∨ kind.write then none else some .read
  else none

/-- `__gnttab_map_grant_ref` before the call of the IOMMU, with the active entry and the old pins.
-/
def mapIommu (c : Config) (m : Maptrack) (t : GrantTable) (rd : Nat) (act : Active)
    (oldPin : BitVec 32) : Except Fault (Option Rights) :=
  if c.needIommu then (m.mapkind t rd act.frame).map (mapRequest act.pin oldPin) else .ok none

/-- What `__gnttab_unmap_common` asks the IOMMU for. -/
def unmapRequest (kind : MapKind) : Option Rights :=
  if kind.read = false ∧ kind.write = false then some .none
  else if kind.write then none
  else some .read

namespace PageState

def setState (s : PageState) (state : State) : PageState := { s with state := state }

def get (s : PageState) (frame : Nat) (r : Refs) : PageState :=
  { s with refs := s.refs + Pi.single frame r }

def enter (s : PageState) (frame : Nat) : Option Rights → PageState
  | some r => { s with rights := Function.update s.rights frame r }
  | none => s

def mapUndo (c : Config) (env : PageEnv) (s : PageState) (t : GrantTable) (op : MapOp)
    (handle : Nat) (act : Active) (nrGets : Nat) (rc : Status) :
      Except Fault (PageState × Status) := do
  let act := { act with pin := act.pin - pinInc op.flags }
  let m ← s.state.maptrack.putMaptrackHandle handle
  return ((s.get act.frame (-mapPuts c env op nrGets)).setState
    { s.state.setTable op.dom (t.setActive op.ref act) with maptrack := m }, rc)

/-- `__gnttab_map_grant_ref` once it has a handle. -/
def mapWithHandle (c : Config) (env : PageEnv) (s : PageState) (t : GrantTable) (x : PageMap)
    (handle : Nat) : Except Fault (PageState × Status) :=
  match mapPin c t x.op with
  | .error rc => do
    let m ← s.state.maptrack.putMaptrackHandle handle
    return (s.setState { s.state with maptrack := m }, rc)
  | .ok act =>
    let oldPin := (t.active x.op.ref).pin
    let t' := t.setActive x.op.ref act
    let gets := mapPages c env x act.frame
    let s := s.get act.frame gets.refs
    if gets.status ≠ .okay then mapUndo c env s t x.op handle act gets.nrGets gets.status
    else do
      let request ← mapIommu c s.state.maptrack t' x.op.dom act oldPin
      if request ≠ none ∧ x.op.iommu = false then
        mapUndo c env s t x.op handle act gets.nrGets .generalError
      else
        let mt := s.state.maptrack.entry handle
        let m := s.state.maptrack.setEntry handle
          { mt with domid := x.op.dom, ref := x.op.ref, flags := x.op.flags.setWidth 16 }
        return ((s.enter act.frame request).setState
          { s.state.setTable x.op.dom t' with maptrack := m }, .okay)

/-- `__gnttab_map_grant_ref` on the vCPU `curr` -/
def mapGrantRef (c : Config) (env : PageEnv) (s : PageState) (curr : Nat) (x : PageMap) :
    Except Fault (PageState × Status) :=
  if x.op.flags &&& gntmapMaps = 0 then .ok (s, .badGntref)
  else if c.external ∧
      x.op.flags &&& (gntmapDeviceMap ||| gntmapApplicationMap ||| gntmapContainsPte) ≠ 0 then
    .ok (s, .generalError)
  else match s.state.tables x.op.dom with
  | none => .ok (s, .badDomain)
  | some t =>
    if x.op.xsm = false then .ok (s, .permissionDenied)
    else
      match s.state.maptrack.getMaptrackHandle c curr x.op.luck with
      | .error f => .error f
      | .ok (none, m) => .ok (s.setState { s.state with maptrack := m }, .noDeviceSpace)
      | .ok (some handle, m) =>
        mapWithHandle c env (s.setState { s.state with maptrack := m }) t x handle

/-! ## Unmapping -/

/-- `__gnttab_unmap_common`: the flags and pins as in `Grant.unmapCommon`, and then the IOMMU. -/
def unmapCommon (c : Config) (s : PageState) (op : Unmap) :
    Except Fault (PageState × UnmapCommon) := do
  let (state, u) ← Grant.unmapCommon c s.state { op with iommu := true }
  match u.rd with
  | none => return (s.setState state, u)
  | some rd =>
    match state.tables rd with
    -- the domain is locked
    | none => return (s.setState state, u)
    | some t =>
      if u.status = .okay ∧ c.needIommu then do
        let kind ← state.maptrack.mapkind t rd u.frame
        if unmapRequest kind ≠ none ∧ op.iommu = false then
          return (s.setState state, { u with status := .generalError })
        else return ((s.enter u.frame (unmapRequest kind)).setState state, u)
      else return (s.setState state, u)

end PageState

/-- The reference of the device mapping that `__gnttab_unmap_common_complete` drops. -/
def UnmapCommon.devicePuts (u : UnmapCommon) : Refs :=
  if u.flags &&& gntmapDeviceMap ≠
    0 then (1, if u.flags &&& gntmapReadonly ≠ 0 then 0 else 1) else 0

/-- The reference of the host mapping that `__gnttab_unmap_common_complete` drops. -/
def UnmapCommon.hostPuts (c : Config) (env : PageEnv) (u : UnmapCommon) (rd : Nat) : Refs :=
  if u.hostAddr ≠ 0 ∧ u.flags &&& gntmapHostMap ≠ 0 ∧ u.status = .okay then
    (1, if hostMappingGetPageType c env u.flags rd then 1 else 0)
  else 0

/-- The references that `__gnttab_unmap_common_complete` drops. -/
def UnmapCommon.puts (c : Config) (env : PageEnv) (s : State) (u : UnmapCommon) : Nat → Refs :=
  match u.rd with
  | none => 0
  | some rd =>
    match s.tables rd with
    | none => 0
    | some t =>
      if t.version = 0 then 0
      else if u.frame ≠ (t.active (s.maptrack.entry u.handle).ref).frame then 0
      else if env.iomem u.frame then 0
      else Pi.single u.frame (u.devicePuts + u.hostPuts c env rd)

namespace PageState

def unmapCommonComplete (c : Config) (env : PageEnv) (s : PageState) (u : UnmapCommon) :
    Except Fault PageState := do
  let state ← Grant.unmapCommonComplete s.state u
  return { s with state := state, refs := s.refs - u.puts c env s.state }

def unmapBatchCommon (c : Config) :
    PageState → List Unmap → Except Fault (PageState × List UnmapCommon)
  | s, [] => .ok (s, [])
  | s, op :: ops => do
    let (s, u) ← s.unmapCommon c op
    let (s, us) ← unmapBatchCommon c s ops
    return (s, u :: us)

/-- One round of `gnttab_unmap_grant_ref` or `gnttab_unmap_and_replace`. -/
def unmapBatch (c : Config) (env : PageEnv) (s : PageState) (ops : List Unmap) :
    Except Fault PageState := do
  let (s, us) ← s.unmapBatchCommon c ops
  us.foldlM (unmapCommonComplete c env) s

end PageState

/-! ## Runs -/

/-- What can happen to the domain's maptrack, with what a map operation finds about the page. -/
inductive PageAction where
  | map (curr : Nat) (x : PageMap)
  | unmap (ops : List Unmap)
  | initVcpu (v : Nat)
  | remote (d : Nat) (t : Option GrantTable)

def PageAction.action : PageAction → Action
  | .map curr x => .map curr x.op
  | .unmap ops => .unmap ops
  | .initVcpu v => .initVcpu v
  | .remote d t => .remote d t

def pageStep (c : Config) (env : PageEnv) (s : PageState) : PageAction → Except Fault PageState
  | .map curr x => do
    let (s, _) ← s.mapGrantRef c env curr x
    return s
  | .unmap ops => s.unmapBatch c env ops
  | .initVcpu v => .ok (s.setState { s.state with maptrack := s.state.maptrack.initVcpu v })
  | .remote d t => .ok (s.setState { s.state with tables := Function.update s.state.tables d t })

def PageState.create (tables : Nat → Option GrantTable) : PageState :=
  ⟨.create tables, 0, fun _ => .none⟩

end XenVmi.Grant
