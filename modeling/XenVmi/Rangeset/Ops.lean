import XenVmi.Lib.Ranges
import Mathlib.Algebra.Group.Nat.Defs

/-!
# Rangesets

Model of `common/rangeset.c:16-432`. A pointer to a `struct range` is an index into the list, and
`NULL` is `none`; places shift when a range is inserted or destroyed in front of them. `ulong` and
`ulongPred` are `+ 1` and `- 1` with wrap-around. Whether `xmalloc` succeeds is a parameter.
-/

namespace XenVmi

open XenVmi.Lib

abbrev Rangeset.Range := ClosedRange

structure Rangeset where
  ranges : List Rangeset.Range
  nrRanges : Int
  deriving DecidableEq, Repr

namespace Rangeset

abbrev ulongMod : Nat := 2 ^ 64

def ulong (x : Nat) : Nat := x % ulongMod

def ulongPred (x : Nat) : Nat := (x + ulongMod - 1) % ulongMod

def enomem : Int := -12

/-! ## Ranges in the list -/

/-- The loop of `find_range`, at place `i` with the last range found so far. -/
def findFrom (s : Nat) : List Range → Nat → Option Nat → Option Nat
  | [], _, x => x
  | y :: l, i, x => if s < y.s then x else findFrom s l (i + 1) (some i)

def findRange (r : Rangeset) (s : Nat) : Option Nat := findFrom s r.ranges 0 none

def range (r : Rangeset) (x : Nat) : Range := r.ranges.getD x default

def nextRange (r : Rangeset) (x : Nat) : Option Nat :=
  if x + 1 < r.ranges.length then some (x + 1) else none

def setStart (r : Rangeset) (x s : Nat) : Rangeset :=
  { r with ranges := r.ranges.modify x fun y => { y with s := s } }

def setEnd (r : Rangeset) (x e : Nat) : Rangeset :=
  { r with ranges := r.ranges.modify x fun y => { y with e := e } }

/-- Where `insert_range` puts a range that comes after `x`. -/
def placeAfter : Option Nat → Nat
  | none => 0
  | some x => x + 1

def insertRange (r : Rangeset) (x : Option Nat) (y : Range) : Rangeset :=
  { r with ranges := r.ranges.insertIdx (placeAfter x) y }

def destroyRange (r : Rangeset) (x : Nat) : Rangeset where
  ranges := r.ranges.eraseIdx x
  nrRanges := r.nrRanges + 1

/-- `alloc_range`: the set with one range less to allocate; `mem` tells whether `xmalloc`
succeeds. -/
def allocRange (r : Rangeset) (mem : Bool) : Option Rangeset :=
  if r.nrRanges = 0 then none
  else if mem then some { r with nrRanges := r.nrRanges - 1 }
  else none

/-! ## `rangeset_add_range` -/

/-- `x` is `NULL`, or ends before `s` and is not adjacent to it. -/
def endsBefore (r : Rangeset) (x : Option Nat) (s : Nat) : Bool :=
  match x with
  | none => true
  | some x => decide ((r.range x).e < s ∧ ulong ((r.range x).e + 1) ≠ s)

/-- The loop that destroys the ranges behind `x` up to its end; `fuel` is the number of ranges. -/
def swallow (x : Nat) : Nat → Rangeset → Rangeset
  | 0, r => r
  | fuel + 1, r =>
    match r.nextRange x with
    | none => r
    | some y => if (r.range x).e < (r.range y).e then r else swallow x fuel (r.destroyRange y)

/-- The range that takes in `[s, e]`, and the set with it; `none` if there is no memory. -/
def widen (r : Rangeset) (mem : Bool) (s e : Nat) : Option (Nat × Rangeset) :=
  let x := r.findRange s
  let y := r.findRange e
  if x = y then
    match x with
    | none => (r.allocRange mem).map fun r => (0, r.insertRange none { s := s, e := e })
    | some i =>
      if r.endsBefore x s then
        (r.allocRange mem).map fun r => (i + 1, r.insertRange x { s := s, e := e })
      else if (r.range i).e < e then some (i, r.setEnd i e)
      else some (i, r)
  else
    -- `y` lies behind `x`, so there is a first range, and one behind `x`
    let last := (r.range (y.getD 0)).e
    let i := if r.endsBefore x s then placeAfter x else x.getD 0
    let r := if r.endsBefore x s then r.setStart i s else r
    let r := r.setEnd i (if e < last then last else e)
    some (i, swallow i r.ranges.length r)

/-- The end of `rangeset_add_range`: join `x` with an adjacent range behind it. -/
def joinNext (r : Rangeset) (x : Nat) : Rangeset :=
  match r.nextRange x with
  | none => r
  | some y =>
    if ulong ((r.range x).e + 1) = (r.range y).s then
      (r.setEnd x (r.range y).e).destroyRange y
    else r

def addRange (r : Rangeset) (mem : Bool) (s e : Nat) : Int × Rangeset :=
  match r.widen mem s e with
  | none => (enomem, r)
  | some (x, r) => (0, r.joinNext x)

/-! ## `rangeset_remove_range` -/

/-- The loop that destroys the ranges from `x` to the one before `y`, which then has the place
`x`. -/
def destroyUpTo (x : Nat) : Nat → Rangeset → Rangeset
  | 0, r => r
  | n + 1, r => destroyUpTo x n (r.destroyRange x)

def removeWithin (r : Rangeset) (mem : Bool) (x s e : Nat) : Int × Rangeset :=
  let z := r.range x
  if z.e < s then (0, r)
  else if z.s < s ∧ e < z.e then
    match r.allocRange mem with
    | none => (enomem, r)
    | some r => (0, (r.setEnd x (ulongPred s)).insertRange (some x)
      { s := ulong (e + 1), e := z.e })
  else if z.s = s ∧ z.e ≤ e then (0, r.destroyRange x)
  else if z.s = s then (0, r.setStart x (ulong (e + 1)))
  else if z.e ≤ e then (0, r.setEnd x (ulongPred s))
  else (0, r)

def removeAcross (r : Rangeset) (x : Option Nat) (y s e : Nat) : Rangeset :=
  let i := x.getD 0
  let cut := (r.range i).s < s
  let r := if cut then r.setEnd i (ulongPred s) else r
  let i := if cut then i + 1 else i
  let r := destroyUpTo i (y - i) r
  let r := r.setStart i (ulong (e + 1))
  if (r.range i).e < (r.range i).s then r.destroyRange i else r

def removeRange (r : Rangeset) (mem : Bool) (s e : Nat) : Int × Rangeset :=
  let x := r.findRange s
  let y := r.findRange e
  if x = y then
    match x with
    | none => (0, r)
    | some x => r.removeWithin mem x s e
  else (0, r.removeAcross x (y.getD 0) s e)

/-! ## Queries -/

def containsRange (r : Rangeset) (s e : Nat) : Bool :=
  match r.findRange s with
  | none => false
  | some x => decide (e ≤ (r.range x).e)

def overlapsRange (r : Rangeset) (s e : Nat) : Bool :=
  match r.findRange e with
  | none => false
  | some x => decide (s ≤ (r.range x).e)

/-- `rangeset_new`: without a limit. -/
def new : Rangeset where
  ranges := []
  nrRanges := -1

def limit (r : Rangeset) (limit : BitVec 32) : Rangeset := { r with nrRanges := limit.toNat }

/-- `rangeset_swap`: the lists change places. -/
def swap (a b : Rangeset) : Rangeset × Rangeset :=
  ({ a with ranges := b.ranges }, { b with ranges := a.ranges })

end Rangeset

end XenVmi
