import XenVmi.Ept.Entry
import Mathlib.Data.List.FinRange

/-!
# The four-level EPT: walking, splitting and writing entries

Model of `mm/p2m-ept.c:219-409`, `496-631` and `658-967`. `EptNode.table e sub` is an entry that
points at a page-table page with that page's contents, `EptNode.leaf e` every other entry. The index
of `gfn` at level `i` is `(gfn >> 9 * i) & 511`. Page-table pages come from the paging pool
(`mm/hap/hap.c:243-271`). `epte_get_entry_emt` and the owner part of `atomic_write_ept_entry` are
parameters (`EptEnv`). TLB and IOMMU synchronisation, tracing and `ASSERT`s are left out.
-/

namespace XenVmi.Ept

open Function

/-- `EINVAL`, `ENOENT`, `ENOMEM` of `xen/errno.h`. -/
def EINVAL : Int := 22

@[inherit_doc EINVAL]
def ENOENT : Int := 2

@[inherit_doc EINVAL]
def ENOMEM : Int := 12

inductive EptNode where
  | leaf (e : EptEntry)
  | table (e : EptEntry) (sub : Fin 512 → EptNode)

abbrev EptTable := Fin 512 → EptNode

def EptNode.entry : EptNode → EptEntry
  | .leaf e => e
  | .table e _ => e

structure EptEnv where
  caps : EptCaps
  defaultAccess : P2mAccess
  mfnValid : Nat → Bool
  /-- `epte_get_entry_emt(gfn, mfn, order, direct_mmio)`; `none` is the result `-1`. -/
  entryEmt : Nat → Nat → Nat → Bool → Option Nat × Bool
  /-- `p2m_is_logdirty_range(start, end)`: `1`, `0`, or `-1` for a partly log-dirty range. -/
  logdirtyRange : Nat → Nat → Int
  /-- Taking the reference on a foreign frame: `0`, `-ESRCH` or `-EBUSY`. -/
  foreignGet : Nat → Int

structure PtPool where
  freelist : List Nat
  pages : List Nat
  deriving Repr, DecidableEq

def p2mAllocPtp (st : PtPool) : Option (Nat × PtPool) :=
  match st.freelist with
  | [] => none
  | pg :: rest => some (pg, { freelist := rest, pages := st.pages ++ [pg] })

def p2mFreePtp (st : PtPool) (pg : Nat) : PtPool :=
  { freelist := st.freelist ++ [pg], pages := st.pages.erase pg }

@[irreducible]
def tableIndices : List (Fin 512) := List.finRange 512

def eptIndex (gfn level : Nat) : Fin 512 := ⟨gfn / 512 ^ level % 512, Nat.mod_lt _ (by decide)⟩

/-- A freshly cleared page-table page: every entry only suppresses `#VE`. -/
def freshTable : EptTable := fun _ => .leaf { EptEntry.zero with suppressVe := true }

/-- The entry `ept_set_middle_entry` writes for the new page `pg`. -/
def middleEntry (env : EptEnv) (pg : Nat) : EptEntry :=
  { EptEntry.zero.setMfn pg with
    access := env.defaultAccess, r := true, w := true, x := true, a := env.caps.hasAd,
    suppressVe := true }

/-- `ept_set_middle_entry`: the new entry and its page, `none` when the pool is empty. -/
def eptSetMiddleEntry (env : EptEnv) (st : PtPool) : Option (EptEntry × EptTable × PtPool) :=
  match p2mAllocPtp st with
  | none => none
  | some (pg, st) => some (middleEntry env pg, freshTable, st)

/-- `ept_free_entry`: return the page-table pages below an entry of level `level`. -/
def eptFreeEntry : (level : Nat) → EptNode → PtPool → PtPool
  | 0, _, st => st
  | l + 1, x, st =>
    if !x.entry.isPresent || x.entry.isSuperpage then st
    else
      match x with
      | .leaf _ => st
      | .table e sub =>
        let st := if 0 < l then
            tableIndices.foldl (fun st i => eptFreeEntry l (sub i) st) st
          else st
        p2mFreePtp st e.mfn

/-- Entry `i` of the page that replaces the superpage `e` of level `l + 1`. -/
def splitEntry (env : EptEnv) (l : Nat) (e : EptEntry) (i : Fin 512) : EptEntry :=
  let epte := { (e.setMfn (e.mfn + i * 512 ^ l)) with
    sp := decide (0 < l), snp := env.caps.snoop, suppressVe := true }
  eptP2mTypeToFlags env.caps epte epte.saP2mt epte.access

/-- `ept_split_super_page`, down to level `target`. On `false` the caller frees what has been built.
-/
def eptSplitSuperPage (env : EptEnv) (target : Nat) :
    (level : Nat) → EptNode → PtPool → Bool × EptNode × PtPool
  | 0, x, st => (true, x, st)
  | l + 1, x, st =>
    if l + 1 = target then (true, x, st)
    else
      match eptSetMiddleEntry env st with
      | none => (false, x, st)
      | some (new, table, st) =>
        let fill := fun (acc : Bool × EptTable × PtPool) (i : Fin 512) =>
          if !acc.1 then acc
          else
            let epte := EptNode.leaf (splitEntry env l x.entry i)
            if l = target then (true, update acc.2.1 i epte, acc.2.2)
            else
              let r := eptSplitSuperPage env target l epte acc.2.2
              (r.1, update acc.2.1 i r.2.1, r.2.2)
        let res := tableIndices.foldl fill (true, table, st)
        (res.1, .table new res.2.1, res.2.2)

/-! ## Reading: `ept_get_entry` -/

/-- Where the read-only walk of `ept_get_entry` ends. -/
inductive WalkEnd where
  | mapFailed
  /-- `GUEST_TABLE_POD_PAGE` at this level. -/
  | pod (level : Nat)
  | found (level : Nat) (e : EptEntry) (recalc : Bool)
  deriving Repr, DecidableEq

/-- The loop of `ept_get_entry`: `ept_next_level` with `read_only` set, from level `level`. -/
def eptWalk (gfn : Nat) : (level : Nat) → EptTable → Bool → WalkEnd
  | 0, t, recalc => .found 0 (t (eptIndex gfn 0)).entry recalc
  | l + 1, t, recalc =>
    let x := t (eptIndex gfn (l + 1))
    let recalc := recalc || x.entry.recalc
    if !x.entry.isPresent then
      if x.entry.saP2mt = .populateOnDemand then .pod (l + 1) else .mapFailed
    else if x.entry.isSuperpage then .found (l + 1) x.entry recalc
    else
      match x with
      | .leaf _ => .mapFailed
      | .table _ sub => eptWalk gfn l sub recalc

/-- What `ept_get_entry` returns. `pod` is the order of a populate-on-demand entry that it met. -/
structure Lookup where
  mfn : Nat
  t : P2mType
  a : P2mAccess
  order : Nat
  sve : Bool
  pod : Option Nat
  deriving Repr, DecidableEq

/-- The out parameters `ept_get_entry` starts from. -/
def Lookup.none : Lookup :=
  { mfn := invalidMfn, t := .mmioDm, a := .n, order := 0, sve := true, pod := Option.none }

/-- The last part of `ept_get_entry`: decode the entry found at level `level`. -/
def Lookup.decode (env : EptEnv) (gfn level : Nat) (e : EptEntry) (recalc : Bool) : Lookup :=
  if e.isValid then
    { mfn := e.mfn + gfn % 512 ^ level
      t := if (recalc || e.recalc) && e.saP2mt.isChangeable then
          (if env.logdirtyRange gfn gfn ≠ 0 then .ramLogdirty else .ramRw)
        else e.saP2mt
      a := e.access
      order := 9 * level
      sve := e.suppressVe
      pod := Option.none }
  else Lookup.none

/-- `ept_get_entry` after its walk, without `P2M_ALLOC`. -/
def Lookup.ofWalk (env : EptEnv) (gfn : Nat) : WalkEnd → Lookup
  | .mapFailed => Lookup.none
  | .pod level => { Lookup.none with t := .populateOnDemand, pod := some (9 * level) }
  | .found level e recalc =>
    if e.saP2mt = .populateOnDemand then
      { Lookup.none with t := .populateOnDemand, pod := some (9 * level) }
    else Lookup.decode env gfn level e recalc

/-- `ept_get_entry` without `P2M_ALLOC`: a pure read. -/
def eptGetEntry (env : EptEnv) (maxMappedPfn : Nat) (root : EptTable) (gfn : Nat) : Lookup :=
  if maxMappedPfn < gfn then Lookup.none
  else Lookup.ofWalk env gfn (eptWalk gfn 3 root false)

/-! ## Resolving misconfigured entries -/

/-- `ept_invalidate_emt` on one entry. -/
def invalidateEmt (recalc : Bool) (e : EptEntry) : EptEntry :=
  if !e.isValid || !e.isPresent || (e.emt = mtrrNumTypes && (e.recalc || !recalc)) then e
  else { e with emt := mtrrNumTypes, recalc := e.recalc || recalc }

def EptNode.mapEntry (f : EptEntry → EptEntry) : EptNode → EptNode
  | .leaf e => .leaf (f e)
  | .table e sub => .table (f e) sub

/-- The 4K case of `resolve_misconfig` on the entry that maps `gfn`. -/
def resolve4k (env : EptEnv) (gfn : Nat) (e : EptEntry) : EptEntry :=
  let e0 := if e.emt = mtrrNumTypes then { e with emt := 0 } else e
  if !e0.isValid || !e0.isPresent then e
  else
    let em := env.entryEmt gfn e0.mfn 0 (e0.saP2mt = .mmioDirect)
    let e1 := { e0 with emt := em.1.getD mtrrNumTypes, ipat := em.2 }
    let e2 := if e1.recalc && e1.saP2mt.isChangeable then
        let t := if env.logdirtyRange gfn gfn ≠ 0 then P2mType.ramLogdirty else .ramRw
        eptP2mTypeToFlags env.caps { e1 with saP2mt := t } t e1.access
      else e1
    { e2 with recalc := false }

/-- The superpage case of `resolve_misconfig`: the entry to write back, or (`Sum.inr`) to split. -/
def resolveSuperpage (env : EptEnv) (gfn level : Nat) (e : EptEntry) : EptEntry ⊕ EptEntry :=
  let em := env.entryEmt gfn e.mfn (9 * level) (e.saP2mt = .mmioDirect)
  let first := gfn - gfn % 512 ^ level
  let range := env.logdirtyRange first (first + 512 ^ level - 1)
  let change := e.recalc && e.saP2mt.isChangeable
  let partly := change && decide (range ≠ 0 ∧ range ≠ 1)
  let e1 := if change && !partly then
      { e with saP2mt := if range = 1 then .ramLogdirty else .ramRw, recalc := false }
    else e
  match if partly then none else em.1 with
  | none => .inr e1
  | some emt =>
    let e2 := { e1 with emt := emt, ipat := em.2, recalc := false }
    .inl (if change then eptP2mTypeToFlags env.caps e2 e2.saP2mt e2.access else e2)

/-- The loop of `resolve_misconfig` from level `level`, `rc` being the C variable so far. -/
def resolveMisconfig (env : EptEnv) (gfn : Nat) :
    (level : Nat) → EptTable → PtPool → Int → Int × EptTable × PtPool
  | 0, t, st, rc =>
    if (t (eptIndex gfn 0)).entry.emt ≠ mtrrNumTypes then (rc, t, st)
    else
      (1, fun i => (t i).mapEntry (resolve4k env (gfn - gfn % 512 + i)), st)
  | l + 1, t, st, rc =>
    let i := eptIndex gfn (l + 1)
    let x := t i
    let e := x.entry
    if e.isSuperpage then
      if e.emt ≠ mtrrNumTypes then (rc, t, st)
      else
        match resolveSuperpage env gfn (l + 1) e with
        | .inl e' => (1, update t i (.leaf e'), st)
        | .inr e' =>
          let r := eptSplitSuperPage env l (l + 1) (.leaf e') st
          if !r.1 then (-ENOMEM, t, eptFreeEntry (l + 1) r.2.1 r.2.2)
          else
            match r.2.1 with
            | .leaf _ => (rc, t, r.2.2)
            | .table e' sub =>
              let s := resolveMisconfig env gfn l sub r.2.2 rc
              (s.1, update t i (.table e' s.2.1), s.2.2)
    else
      match x with
      | .leaf _ => (rc, t, st)
      | .table _ sub =>
        if e.emt = mtrrNumTypes then
          let sub := fun j => (sub j).mapEntry (invalidateEmt e.recalc)
          let s := resolveMisconfig env gfn l sub st 1
          (s.1, update t i (.table { e with emt := 0, recalc := false } s.2.1), s.2.2)
        else if e.isPresent && e.emt = 0 then
          let s := resolveMisconfig env gfn l sub st rc
          (s.1, update t i (.table e s.2.1), s.2.2)
        else (rc, t, st)

/-! ## Writing: `ept_set_entry` -/

/-- The arguments of one `ept_set_entry` call. -/
structure SetArgs where
  gfn : Nat
  mfn : Nat
  order : Nat
  t : P2mType
  a : P2mAccess
  sve : Int
  deriving Repr, DecidableEq

/-- `new_entry` of `ept_set_entry` at level `i`, over the old entry `old`. -/
def newEntry (env : EptEnv) (q : SetArgs) (i : Nat) (old : EptEntry) : EptEntry :=
  let direct := decide (q.t = .mmioDirect)
  let e := if env.mfnValid q.mfn || direct || q.t.isPaged || decide (q.t = .ramPagingIn) then
      let em := env.entryEmt q.gfn q.mfn (9 * i) direct
      eptP2mTypeToFlags env.caps
        { EptEntry.zero.setMfn q.mfn with
          emt := em.1.getD mtrrNumTypes, ipat := em.2, sp := decide (0 < i), saP2mt := q.t,
          access := q.a, snp := env.caps.snoop } q.t q.a
    else EptEntry.zero
  { e with suppressVe :=
      if q.sve ≠ -1 then decide (q.sve ≠ 0) else if old.isValid then old.suppressVe else true }

/-- `atomic_write_ept_entry`'s verdict on writing `e` over `old` at level `level`. -/
def atomicWriteRc (env : EptEnv) (level : Nat) (old e : EptEntry) : Int :=
  if 0 < level then 0
  else if e.saP2mt.isForeign then
    if !e.isPresent then -EINVAL
    else if decide (e.mfn ≠ old.mfn) || decide (e.saP2mt ≠ old.saP2mt) then
      (if !env.mfnValid e.mfn then -EINVAL else env.foreignGet e.mfn)
    else 0
  else 0

/-- Write the entry at the target level. `old` is `old_entry`: the entry replaced, or zero after a
split. -/
def writeTarget (env : EptEnv) (q : SetArgs) (level : Nat) (t : EptTable) (st : PtPool)
    (split : Bool) : Int × EptTable × PtPool :=
  let i := eptIndex q.gfn level
  let x := t i
  let e := newEntry env q level (if split then EptEntry.zero else x.entry)
  let rc := atomicWriteRc env level x.entry e
  if rc ≠ 0 then (rc, t, st)
  else (0, update t i (.leaf e), if split then st else eptFreeEntry level x st)

/-- The loops of `ept_set_entry` down to `target`. `split`: below a superpage this call has broken
up. -/
def setWalk (env : EptEnv) (q : SetArgs) (target : Nat) :
    (level : Nat) → EptTable → PtPool → Bool → Int × EptTable × PtPool
  | 0, t, st, split => writeTarget env q 0 t st split
  | l + 1, t, st, split =>
    if l + 1 ≤ target then writeTarget env q (l + 1) t st split
    else
      let i := eptIndex q.gfn (l + 1)
      let x := t i
      let descend := fun (e : EptEntry) (sub : EptTable) (st : PtPool) (split : Bool) =>
        let s := setWalk env q target l sub st split
        (s.1, update t i (.table e s.2.1), s.2.2)
      if (!x.entry.isPresent && decide (x.entry.saP2mt = .populateOnDemand)) ||
          (x.entry.isPresent && x.entry.isSuperpage) then
        -- a superpage or a PoD place-holder in the way: break it up first
        let r := eptSplitSuperPage env target (l + 1) x st
        if !r.1 then (-ENOMEM, t, eptFreeEntry (l + 1) r.2.1 r.2.2)
        else
          match r.2.1 with
          | .leaf _ => (-ENOMEM, t, r.2.2)
          | .table e sub => descend e sub r.2.2 true
      else if !x.entry.isPresent then
        match eptSetMiddleEntry env st with
        | none => (-ENOENT, t, st)
        | some (e, sub, st) => descend e sub st split
      else
        match x with
        | .leaf _ => (-ENOENT, t, st)
        | .table e sub => descend e sub st split

/-- The part of a p2m that `ept_set_entry` changes. -/
structure EptState where
  root : EptTable
  maxMappedPfn : Nat
  pool : PtPool

/-- `ept_set_entry` on one table. `asr` is `ept_get_asr(ept)`, which `resolve_misconfig` tests for
zero. -/
def eptSetEntry (env : EptEnv) (asr : Nat) (s : EptState) (q : SetArgs) : Int × EptState :=
  if ((q.gfn ||| q.mfn) % 2 ^ q.order ≠ 0) ∨ 2 ^ 36 ≤ q.gfn ∨ q.order % 9 ≠ 0 then (-EINVAL, s)
  else
    let m := if asr = 0 then (0, s.root, s.pool) else resolveMisconfig env q.gfn 3 s.root s.pool 0
    if m.1 < 0 then (m.1, { s with root := m.2.1, pool := m.2.2 })
    else
      let r := setWalk env q (q.order / 9) 3 m.2.1 m.2.2 false
      let top := q.gfn + 2 ^ q.order - 1
      (r.1, { root := r.2.1
              maxMappedPfn := if r.1 = 0 ∧ q.t ≠ .invalid ∧ s.maxMappedPfn < top then top
                else s.maxMappedPfn
              pool := r.2.2 })

end XenVmi.Ept
