import XenVmi.Lib.Runs
import Mathlib.Algebra.Group.Nat.Defs
import Mathlib.Logic.Function.Basic

/-!
# Grant tables

The active entries of a granting domain (`struct active_grant_entry`), the maptrack entries of the
mapping domain (`struct grant_mapping`) and the free lists of its vCPUs, which are linked through
`ref`.
-/

namespace XenVmi.Grant

open Function

/-! ## Constants -/

def maptrackTail : Nat := 2 ^ 32 - 1

def maptrackPerPage : Nat := 256

/-- `GNTST_*` -/
inductive Status where
  | okay | generalError | badDomain | badGntref | badHandle | noDeviceSpace | permissionDenied
  | badPage | badCopyArg | eagain
  deriving DecidableEq, Repr

inductive Fault where
  /-- `maptrack_entry` of an entry in no allocated page. -/
  | maptrackIndex
  /-- `_active_entry` of an entry in no allocated page. -/
  | activeIndex
  | noVcpu
  deriving DecidableEq, Repr

section Gntmap

variable {w : Nat}

def gntmapDeviceMap : BitVec w := 0x01

def gntmapHostMap : BitVec w := 0x02

def gntmapReadonly : BitVec w := 0x04

def gntmapApplicationMap : BitVec w := 0x08

def gntmapContainsPte : BitVec w := 0x10

def gntmapMaps : BitVec w := 0x03

end Gntmap

def gntpinHstwInc : BitVec 32 := 0x00000001

def gntpinHstrInc : BitVec 32 := 0x00000100

def gntpinDevwInc : BitVec 32 := 0x00010000

def gntpinDevrInc : BitVec 32 := 0x01000000

def gntpinWriteMask : BitVec 32 := 0x00FF00FF

/-! ## The granting domain -/

/-- `struct active_grant_entry` -/
structure Active where
  pin : BitVec 32
  domid : Nat
  /-- the number of `trans_domain` -/
  transDomain : Nat
  transGref : Nat
  frame : Nat
  gfn : Nat
  isSubPage : Bool
  start : Nat
  length : Nat
  deriving DecidableEq, Repr

def Active.cleared : Active := ⟨0, 0, 0, 0, 0, 0, false, 0, 0⟩

structure GrantTable where
  version : Nat
  nrGrantFrames : Nat
  active : Nat → Active

namespace GrantTable

def nrGrantEntries (t : GrantTable) : Nat :=
  match t.version with
  | 1 => t.nrGrantFrames * 4096 / 8
  | 2 => t.nrGrantFrames * 4096 / 16
  | _ => 0

/-- The active entries that the pages of `num_act_frames_from_sha_frames` are allocated for. -/
def nrActiveEntries (t : GrantTable) : Nat := t.nrGrantFrames * (4096 / 8)

def activeEntryAcquire (t : GrantTable) (e : Nat) : Except Fault Active :=
  if e < t.nrActiveEntries then .ok (t.active e) else .error .activeIndex

def setActive (t : GrantTable) (e : Nat) (act : Active) : GrantTable :=
  { t with active := update t.active e act }

theorem version_ne_zero_of_lt {t : GrantTable} {e : Nat} (h : e < t.nrGrantEntries) :
    t.version ≠ 0 := by
  intro h0
  rw [nrGrantEntries, h0] at h
  exact absurd h (Nat.not_lt_zero e)

end GrantTable

/-! ## The mapping domain -/

/-- `struct grant_mapping` -/
structure GrantMapping where
  ref : Nat
  flags : BitVec 16
  domid : Nat
  vcpu : Nat
  deriving DecidableEq, Repr

structure FreeList where
  head : Nat
  tail : Nat
  deriving DecidableEq, Repr

structure Maptrack where
  entry : Nat → GrantMapping
  limit : Nat
  vcpu : Nat → Option FreeList

namespace Maptrack

def maptrackEntry (m : Maptrack) (e : Nat) : Except Fault GrantMapping :=
  if e < m.limit then .ok (m.entry e) else .error .maptrackIndex

def setEntry (m : Maptrack) (e : Nat) (x : GrantMapping) : Maptrack :=
  { m with entry := update m.entry e x }

def setVcpu (m : Maptrack) (v : Nat) (l : FreeList) : Maptrack :=
  { m with vcpu := update m.vcpu v (some l) }

end Maptrack

structure State where
  maptrack : Maptrack
  /-- `rcu_lock_domain_by_id(d)->grant_table`, if domain `d` exists -/
  tables : Nat → Option GrantTable

def State.setTable (s : State) (d : Nat) (t : GrantTable) : State :=
  { s with tables := update s.tables d (some t) }

structure Config where
  domid : Nat
  external : Bool
  needIommu : Bool
  maxVcpus : Nat
  maxMaptrackFrames : Nat
  /-- The numbers of all maptrack entries fit in a `grant_handle_t`. -/
  fits : maxMaptrackFrames * maptrackPerPage < maptrackTail

end XenVmi.Grant
