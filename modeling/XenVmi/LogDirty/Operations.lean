import XenVmi.Lib.RadixTrie
import Mathlib.Data.Nat.Bitwise

/-!
# The log-dirty bitmap of a domain

Model of `paging_mark_gfn_dirty` and `paging_log_dirty_op` in `arch/x86/mm/paging.c`. The bitmap is
a trie of four levels whose pages are allocated when a mark first needs them. `paging_log_dirty_op`
copies and, for `XEN_DOMCTL_SHADOW_OP_CLEAN`, clears it, in three nested loops; it may be preempted,
and then saves its place in `preempt`, whose fields `done`, `i4` and `i3` have 40, 9 and 9 bits.
Which allocations and copies succeed and when it is preempted is given with each action.
-/

namespace XenVmi.LogDirty

open XenVmi.Lib

/-! ## The trie -/

def nodeEntries : ℕ := 512

/-- `PAGE_SIZE`, the bytes of a leaf. -/
def pageSize : ℕ := 4096

abbrev Leaf := ℕ → Bool

def l1Idx (pfn : ℕ) : ℕ := pfn &&& (2 ^ 15 - 1)

def l2Idx (pfn : ℕ) : ℕ := (pfn >>> 15) &&& (2 ^ 9 - 1)

def l3Idx (pfn : ℕ) : ℕ := (pfn >>> 24) &&& (2 ^ 9 - 1)

def l4Idx (pfn : ℕ) : ℕ := (pfn >>> 33) &&& (2 ^ 9 - 1)

def leafPath (pfn : ℕ) : List ℕ := [l4Idx pfn, l3Idx pfn, l2Idx pfn]

/-- `XEN_DOMCTL_SHADOW_OP_CLEAN` and `XEN_DOMCTL_SHADOW_OP_PEEK` -/
inductive ShadowOp where
  | clean
  | peek
  deriving DecidableEq, Repr

/-- `arch.paging.log_dirty` and `arch.paging.preempt` of a domain. -/
structure Paging where
  logDirty : Bool
  top : Option (Trie Leaf 3)
  failedAllocs : BitVec 32
  faultCount : BitVec 32
  dirtyCount : BitVec 32
  preemptDom : Option ℕ
  preemptOp : ShadowOp
  done : ℕ
  i4 : ℕ
  i3 : ℕ

/-- The bit of a frame, as `paging_mfn_is_dirty` reads it. -/
def isDirty (top : Option (Trie Leaf 3)) (pfn : ℕ) : Bool :=
  match top.bind fun t => t.find 3 (leafPath pfn) with
  | none => false
  | some l1 => l1 (l1Idx pfn)

/-- Whether `paging_new_log_dirty_page` succeeds for the top, the two nodes and the leaf. -/
structure Allocs where
  top : Bool
  l3 : Bool
  l2 : Bool
  l1 : Bool

/-- `BUG_ON(SHARED_M2P(pfn))` -/
inductive Bug where
  | sharedM2p
  deriving DecidableEq

def validM2p (pfn : ℕ) : Bool := pfn < 2 ^ 63

def Paging.markGfnDirty (p : Paging) (pfn : ℕ) (a : Allocs) : Except Bug Paging :=
  if !p.logDirty then .ok p
  else if pfn = 2 ^ 64 - 2 then .error .sharedM2p
  else if !validM2p pfn then .ok p
  else
    match if p.top.isNone && a.top then some (Trie.fresh (fun _ => false) 3) else p.top with
    | none => .ok { p with failedAllocs := p.failedAllocs + 1 }
    | some t =>
      let path := [(l4Idx pfn, a.l3), (l3Idx pfn, a.l2), (l2Idx pfn, a.l1)]
      match t.grow (fun _ => false) 3 path with
      | (t, false) => .ok { p with top := some t, failedAllocs := p.failedAllocs + 1 }
      | (t, true) =>
        let changed := !isDirty (some t) pfn
        .ok { p with
          -- `__test_and_set_bit`
          top := some (t.modify (fun l1 => Function.update l1 (l1Idx pfn) true) 3 (leafPath pfn))
          dirtyCount := if changed then p.dirtyCount + 1 else p.dirtyCount }

/-! ## The operation -/

/-- `struct xen_domctl_shadow_op`, and who asks. -/
structure Request where
  caller : ℕ
  op : ShadowOp
  pages : ℕ
  pages_lt : pages < 2 ^ 64
  /-- `dirty_bitmap` is not a null handle. -/
  peek : Bool

def Request.clean (r : Request) : Bool := r.op = .clean

structure Env where
  /-- `hypercall_preempt_check` after the entry `i3` of the node `i4`. -/
  inner : ℕ → ℕ → Bool
  /-- `hypercall_preempt_check` after the node `i4`. -/
  outer : ℕ → Bool
  /-- The copy of the leaf `i4`, `i3`, `i2` to the guest fails. -/
  faults : ℕ → ℕ → ℕ → Bool

structure Scan where
  top : Option (Trie Leaf 3)
  /-- The bits of the guest's `dirty_bitmap`. -/
  bitmap : ℕ → Bool
  pages : ℕ

inductive Stop where
  | restart (i4 i3 : ℕ)
  | fault
  deriving DecidableEq

/-- `copy_to_guest_offset`, or `clear_guest_offset` where there is no leaf, of `bytes` bytes at the
byte `offset`. -/
def copyLeaf (bitmap : ℕ → Bool) (offset bytes : ℕ) (l1 : Option Leaf) : ℕ → Bool := fun p =>
  if offset * 8 ≤ p ∧ p < (offset + bytes) * 8 then l1.elim false fun l1 => l1 (p - offset * 8)
  else bitmap p

section Loops

variable (r : Request) (e : Env)

def scanLeaf (i4 i3 i2 : ℕ) (s : Scan) : Scan × Option Stop :=
  let l1 := s.top.bind fun t => t.find 3 [i4, i3, i2]
  let rest := ((r.pages - s.pages + 7) % 2 ^ 64) >>> 3
  let bytes := if rest < pageSize then rest else pageSize
  if r.peek && e.faults i4 i3 i2 then (s, some .fault)
  else
    ({ top := if r.clean then s.top.map fun t => t.modify (fun _ _ => false) 3 [i4, i3, i2]
        else s.top
       bitmap := if r.peek then copyLeaf s.bitmap (s.pages >>> 3) bytes l1 else s.bitmap
       pages := s.pages + bytes <<< 3 }, none)

def scanNode (i4 i3 : ℕ) : ℕ → ℕ → Scan → Scan × Option Stop
  | 0, _, s => (s, none)
  | n + 1, i2, s =>
    if s.pages < r.pages then
      match scanLeaf r e i4 i3 i2 s with
      | (s, some stop) => (s, some stop)
      | (s, none) => scanNode i4 i3 n (i2 + 1) s
    else (s, none)

def scanTable (i4 : ℕ) : ℕ → ℕ → Scan → Scan × Option Stop
  | 0, _, s => (s, none)
  | n + 1, i3, s =>
    if s.pages < r.pages then
      match scanNode r e i4 i3 nodeEntries 0 s with
      | (s, some stop) => (s, some stop)
      | (s, none) =>
        if i3 < nodeEntries - 1 && e.inner i4 i3 then (s, some (.restart i4 (i3 + 1)))
        else scanTable i4 n (i3 + 1) s
    else (s, none)

def scanTop : ℕ → ℕ → ℕ → Scan → Scan × Option Stop
  | 0, _, _, s => (s, none)
  | n + 1, i4, i3, s =>
    if s.pages < r.pages then
      match scanTable r e i4 (nodeEntries - i3) i3 s with
      | (s, some stop) => (s, some stop)
      | (s, none) =>
        if i4 < nodeEntries - 1 && e.outer i4 then (s, some (.restart (i4 + 1) 0))
        else scanTop n (i4 + 1) 0 s
    else (s, none)

end Loops

/-- How a call of `paging_log_dirty_op` ends. -/
inductive Outcome where
  | done (pages : ℕ)
  | restart
  | busy
  | noMem
  | fault
  deriving DecidableEq

/-- The memset of `preempt.log_dirty` where no operation is under way. -/
def Paging.position (p : Paging) : Paging :=
  if p.preemptDom.isNone then { p with done := 0, i4 := 0, i3 := 0 } else p

def Paging.logDirtyOp (p : Paging) (r : Request) (e : Env) (bitmap : ℕ → Bool) :
    Paging × (ℕ → Bool) × Outcome :=
  if p.preemptDom.isSome && !(p.preemptDom = some r.caller && p.preemptOp = r.op) then
    (p, bitmap, .busy)
  else
    let p := p.position
    if p.failedAllocs ≠ 0 then ({ p with preemptDom := none }, bitmap, .noMem)
    else
      match scanTop r e (nodeEntries - p.i4) p.i4 p.i3 ⟨p.top, bitmap, p.done⟩ with
      | (s, none) =>
        ({ p with
            top := s.top
            preemptDom := none
            faultCount := if r.clean then 0 else p.faultCount
            dirtyCount := if r.clean then 0 else p.dirtyCount },
          s.bitmap, .done (if s.pages < r.pages then s.pages else r.pages))
      | (s, some (.restart i4 i3)) =>
        ({ p with
            top := s.top
            preemptDom := some r.caller
            preemptOp := r.op
            done := s.pages % 2 ^ 40
            i4 := i4 % 2 ^ 9
            i3 := i3 % 2 ^ 9 },
          s.bitmap, .restart)
      | (s, some .fault) => ({ p with top := s.top, preemptDom := none }, s.bitmap, .fault)

def Paging.complete (r : Request) (e : Env) :
    ℕ → Paging → (ℕ → Bool) → Option (Paging × (ℕ → Bool) × Outcome)
  | 0, _, _ => none
  | n + 1, p, bitmap =>
    match p.logDirtyOp r e bitmap with
    | (p, bitmap, .restart) => Paging.complete r e n p bitmap
    | x => some x

/-! ## Histories -/

structure Report where
  pages : ℕ
  bitmap : ℕ → Bool
  marked : ℕ → Bool

structure History where
  paging : Paging
  marked : ℕ → Bool
  reports : List Report

inductive Act where
  | mark (pfn : ℕ) (a : Allocs)
  | op (r : Request) (e : Env) (bitmap : ℕ → Bool)

inductive Failure where
  | bug (b : Bug)
  | incomplete

def History.step (h : History) : Act → Except Failure History
  | .mark pfn a =>
    match h.paging.markGfnDirty pfn a with
    | .error b => .error (.bug b)
    | .ok p =>
      .ok { h with
        paging := p
        marked := if h.paging.logDirty && validM2p pfn then Function.update h.marked pfn true
          else h.marked }
  | .op r e bitmap =>
    match Paging.complete r e (nodeEntries * nodeEntries + 1) h.paging bitmap with
    | some (p, bitmap, .done _) =>
      .ok {
        paging := p
        marked := fun pfn => h.marked pfn && !(r.clean && decide (pfn < r.pages))
        reports := if r.peek then h.reports ++ [⟨r.pages, bitmap, h.marked⟩] else h.reports }
    | _ => .error .incomplete

structure Initial (h : History) : Prop where
  logDirty : h.paging.logDirty = true
  top : h.paging.top = none
  failedAllocs : h.paging.failedAllocs = 0
  dirtyCount : h.paging.dirtyCount = 0
  preemptDom : h.paging.preemptDom = none
  marked : ∀ pfn, h.marked pfn = false
  reports : h.reports = []

end XenVmi.LogDirty
