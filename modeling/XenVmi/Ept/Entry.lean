import Mathlib.Algebra.Group.Nat.Defs
import Mathlib.Data.Fin.Basic
import Mathlib.Logic.Function.Basic

/-!
# EPT entries: types, access rights and the permission bits

Model of `ept_entry_t` (`asm-x86/hvm/vmx/vmx.h:32-54`), `p2m_type_t` (`asm-x86/p2m.h:55-80`),
`p2m_access_t` (`xen/p2m-common.h:17-35`) and of the helpers of `mm/p2m-ept.c:40-212` that look at
one entry. `EptCaps` is what the flags depend on outside the entry.
-/

namespace XenVmi.Ept

/-- `p2m_type_t`; `p2m_ram_rw` is the value `0`. -/
inductive P2mType where
  | ramRw
  | invalid
  | ramLogdirty
  | ramRo
  | mmioDm
  | mmioDirect
  | populateOnDemand
  | grantMapRw
  | grantMapRo
  | ramPagingOut
  | ramPaged
  | ramPagingIn
  | ramShared
  | ramBroken
  | mapForeign
  | mmioWriteDm
  deriving Repr, DecidableEq

/-- `p2m_access_t`; `p2m_access_rwx` is the value `0`. -/
inductive P2mAccess where
  | rwx
  | wx
  | rx
  | x
  | rw
  | w
  | r
  | n
  | rx2rw
  | n2rwx
  deriving Repr, DecidableEq

namespace P2mType

def isChangeable : P2mType → Bool
  | ramRw | ramLogdirty => true
  | _ => false

def isGrant : P2mType → Bool
  | grantMapRw | grantMapRo => true
  | _ => false

def isShared : P2mType → Bool
  | ramShared => true
  | _ => false

def isForeign : P2mType → Bool
  | mapForeign => true
  | _ => false

def isPaged : P2mType → Bool
  | ramPaged => true
  | _ => false

def isBroken : P2mType → Bool
  | ramBroken => true
  | _ => false

end P2mType

def invalidMfn : Nat := 2 ^ 64 - 1

def invalidGfn : Nat := 2 ^ 64 - 1

/-- `MTRR_NUM_TYPES`: the EMT value that marks an entry as deliberately misconfigured. -/
def mtrrNumTypes : Nat := 7

/-- `ept_entry_t`, field by field. -/
structure EptEntry where
  r : Bool
  w : Bool
  x : Bool
  emt : Nat
  ipat : Bool
  sp : Bool
  a : Bool
  d : Bool
  recalc : Bool
  snp : Bool
  mfn : Nat
  saP2mt : P2mType
  access : P2mAccess
  suppressVe : Bool
  deriving Repr, DecidableEq

namespace EptEntry

def zero : EptEntry where
  r := false
  w := false
  x := false
  emt := 0
  ipat := false
  sp := false
  a := false
  d := false
  recalc := false
  snp := false
  mfn := 0
  saP2mt := .ramRw
  access := .rwx
  suppressVe := false

def setMfn (e : EptEntry) (mfn : Nat) : EptEntry := { e with mfn := mfn % 2 ^ 40 }

def isPresent (e : EptEntry) : Bool := e.r || e.w || e.x

def isSuperpage (e : EptEntry) : Bool := e.sp

/-- `is_epte_valid`: `suppress_ve` alone does not make an entry valid. -/
def isValid (e : EptEntry) : Bool :=
  decide ({ e with suppressVe := false } ≠ zero) && decide (e.saP2mt ≠ .invalid)

end EptEntry

structure EptCaps where
  hasAd : Bool
  pml : Bool
  snoop : Bool
  mmioRo : Nat → Bool

/-- The first switch of `ept_p2m_type_to_flags`: the permissions of the type. -/
def typeToFlags (caps : EptCaps) (e : EptEntry) : P2mType → EptEntry
  | .ramRw => { e with r := true, w := true, x := true, a := caps.hasAd, d := caps.hasAd }
  | .mmioDirect =>
    let w := !caps.mmioRo e.mfn
    { e with r := true, x := true, w := w, a := caps.hasAd, d := w && caps.hasAd }
  | .ramLogdirty =>
    { e with r := true, x := true, w := caps.pml && !e.isSuperpage, a := caps.hasAd, d := false }
  | .ramRo | .ramShared =>
    { e with r := true, x := true, w := false, a := caps.hasAd, d := false }
  | .grantMapRw | .mapForeign =>
    { e with r := true, w := true, x := false, a := caps.hasAd, d := caps.hasAd }
  | .grantMapRo | .mmioWriteDm =>
    { e with r := true, w := false, x := false, a := caps.hasAd, d := false }
  | .invalid | .mmioDm | .populateOnDemand | .ramPagingOut | .ramPaged | .ramPagingIn
  | .ramBroken =>
    { e with r := false, w := false, x := false }

/-- The second switch of `ept_p2m_type_to_flags`: the restriction of the access rights. -/
def accessToFlags (e : EptEntry) : P2mAccess → EptEntry
  | .n | .n2rwx => { e with r := false, w := false, x := false }
  | .r => { e with w := false, x := false }
  | .w => { e with r := false, x := false }
  | .x => { e with r := false, w := false }
  | .rx | .rx2rw => { e with w := false }
  | .wx => { e with r := false }
  | .rw => { e with x := false }
  | .rwx => e

def eptP2mTypeToFlags (caps : EptCaps) (e : EptEntry) (t : P2mType) (acc : P2mAccess) : EptEntry :=
  accessToFlags (typeToFlags caps e t) acc

/-! ## What the permission bits leave alone -/

structure SameMapping (e e' : EptEntry) : Prop where
  mfn : e'.mfn = e.mfn
  sp : e'.sp = e.sp
  emt : e'.emt = e.emt
  recalc : e'.recalc = e.recalc
  saP2mt : e'.saP2mt = e.saP2mt
  access : e'.access = e.access
  suppressVe : e'.suppressVe = e.suppressVe

theorem sameMapping_typeToFlags (caps : EptCaps) (e : EptEntry) (t : P2mType) :
    SameMapping e (typeToFlags caps e t) := by
  cases t <;> exact ⟨rfl, rfl, rfl, rfl, rfl, rfl, rfl⟩

theorem sameMapping_accessToFlags (e : EptEntry) (acc : P2mAccess) :
    SameMapping e (accessToFlags e acc) := by
  cases acc <;> exact ⟨rfl, rfl, rfl, rfl, rfl, rfl, rfl⟩

theorem sameMapping_flags (caps : EptCaps) (e : EptEntry) (t : P2mType) (acc : P2mAccess) :
    SameMapping e (eptP2mTypeToFlags caps e t acc) := by
  have h1 := sameMapping_typeToFlags caps e t
  have h2 := sameMapping_accessToFlags (typeToFlags caps e t) acc
  exact ⟨h2.mfn.trans h1.mfn, h2.sp.trans h1.sp, h2.emt.trans h1.emt,
    h2.recalc.trans h1.recalc, h2.saP2mt.trans h1.saP2mt, h2.access.trans h1.access,
    h2.suppressVe.trans h1.suppressVe⟩

end XenVmi.Ept
