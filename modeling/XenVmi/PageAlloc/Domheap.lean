import XenVmi.Ept.Table
import XenVmi.PageAlloc.Buddy

/-!
# Memory of domains

Model of `common/page_alloc.c:296-397` and `1637-1796`. `tot_pages` and `outstanding_pages` are
taken modulo `2 ^ 32`. Left out: `tmem`, reference counts, page lists of domains, scrubbing and Xen
heap pages.
-/

namespace XenVmi.PageAlloc

open XenVmi.Lib
open XenVmi.Ept (EINVAL ENOMEM)

/-- What others write and the allocator reads of `struct domain`. -/
structure DomainSettings where
  maxPages : Nat
  isDying : Bool
  nodeAffinity : Nat → Bool
  /-- `arch.physaddr_bitsize`; 0 stands for no limit. -/
  physaddrBitsize : Nat

structure Domain extends DomainSettings where
  totPages : Nat
  outstandingPages : Nat
  lastAllocNode : Nat

structure DomHeap (ι : Type) where
  heap : Heap
  dom : ι → Domain
  owner : Nat → Option ι

structure MemFlags where
  bits : Nat
  /-- `MEMF_get_node`, unless it is `NUMA_NO_NODE`. -/
  node : Option Nat
  exactNode : Bool
  noOwner : Bool
  noRefcount : Bool
  noDma : Bool

def MemFlags.zero : MemFlags := ⟨0, none, false, false, false, false⟩

def pageShift : Nat := 12

/-- `NR_ZONES`, with `PADDR_BITS` 52. -/
def nrZones : Nat := 52 - pageShift + 1

def bitsToZone (b : Nat) : Nat := if b < pageShift + 1 then 1 else b - pageShift

def toUnsigned (x : Int) : Nat := (x % 2 ^ 32).toNat

section Ops

variable {ι : Type} [DecidableEq ι]

def DomHeap.setDom (s : DomHeap ι) (d : ι) (x : Domain) : DomHeap ι :=
  { s with dom := Function.update s.dom d x }

/-- `page_set_owner` for the pages of a block. -/
def DomHeap.setOwner (s : DomHeap ι) (pg order : Nat) (o : Option ι) : DomHeap ι :=
  { s with owner := fun f => if pg ≤ f ∧ f < pg + 2 ^ order then o else s.owner f }

/-- `domain_adjust_tot_pages`: the new `tot_pages`. -/
def domainAdjustTotPages (s : DomHeap ι) (d : ι) (pages : Int) :
    Except HeapFault (Nat × DomHeap ι) :=
  let tot := toUnsigned ((s.dom d).totPages + pages)
  if (s.dom d).outstandingPages = 0 then
    .ok (tot, s.setDom d { s.dom d with totPages := tot })
  else
    let domBefore : Int := (s.dom d).outstandingPages
    let domAfter := domBefore - pages
    let domClaimed := if domAfter < 0 then 0 else domAfter
    let sysAfter := s.heap.claims - (domBefore - domClaimed)
    if domBefore < 0 then .error .bug
    else if sysAfter < 0 then .error .bug
    else
      let s := { s with heap := { s.heap with claims := sysAfter } }
      .ok (tot, s.setDom d
        { s.dom d with totPages := tot, outstandingPages := toUnsigned domClaimed })

def domainSetOutstandingPages (s : DomHeap ι) (d : ι) (pages : Nat) : Int × DomHeap ι :=
  let dom := s.dom d
  if pages = 0 then
    let heap := { s.heap with claims := s.heap.claims - dom.outstandingPages }
    (0, { s with heap := heap }.setDom d { dom with outstandingPages := 0 })
  else if dom.outstandingPages ≠ 0 then (-EINVAL, s)
  else if pages ≤ dom.totPages ∨ dom.maxPages < pages then (-EINVAL, s)
  else
    -- both are `unsigned long`
    let avail := ((s.heap.total - s.heap.claims) % 2 ^ 64).toNat
    let claim := pages - dom.totPages
    if avail < claim then (-ENOMEM, s)
    else
      let outstanding := toUnsigned claim
      let heap := { s.heap with claims := s.heap.claims + outstanding }
      (0, { s with heap := heap }.setDom d { dom with outstandingPages := outstanding })

def assignPages (s : DomHeap ι) (d : ι) (pg order : Nat) (noRefcount : Bool) :
    Except HeapFault (Int × DomHeap ι) :=
  if (s.dom d).isDying then .ok (-1, s)
  else if noRefcount then .ok (0, s.setOwner pg order (some d))
  else if (s.dom d).maxPages < toUnsigned ((s.dom d).totPages + (2 ^ order : Nat)) then .ok (-1, s)
  else
    match domainAdjustTotPages s d (2 ^ order : Nat) with
    | .error e => .error e
    | .ok r => .ok (0, r.2.setOwner pg order (some d))

/-- The arguments of `alloc_heap_pages`. -/
def DomHeap.request (s : DomHeap ι) (d : Option ι) (order : Nat) (flags : MemFlags)
    (cpuNode zoneLo zoneHi : Nat) : Request where
  zoneLo := zoneLo
  zoneHi := zoneHi
  order := order
  node := flags.node
  exactNode := flags.exactNode
  noRefcount := flags.noRefcount
  dom := d.map fun d =>
    ⟨(s.dom d).outstandingPages, (s.dom d).nodeAffinity, (s.dom d).lastAllocNode⟩
  cpuNode := cpuNode

/-- `alloc_heap_pages` for a domain: the block, which has no owner. -/
def DomHeap.allocHeap (m : Machine) (s : DomHeap ι) (d : Option ι) (order : Nat) (flags : MemFlags)
    (cpuNode zoneLo zoneHi : Nat) : Except HeapFault (Option Nat × DomHeap ι) :=
  match allocHeapPages m s.heap (s.request d order flags cpuNode zoneLo zoneHi) with
  | .error e => .error e
  | .ok (none, h) => .ok (none, { s with heap := h })
  | .ok (some (pg, node), h) =>
    let s := { s with heap := h }.setOwner pg order none
    match d with
    | none => .ok (some pg, s)
    | some d => .ok (some pg, s.setDom d { s.dom d with lastAllocNode := node })

def DomHeap.clampAllocBitsize (s : DomHeap ι) (d : Option ι) (bits : Nat) : Nat :=
  match d with
  | none => bits
  | some d =>
    if (s.dom d).physaddrBitsize = 0 then bits else min (s.dom d).physaddrBitsize bits

/-- `zone_hi` of `alloc_domheap_pages`. `BITS_PER_LONG + PAGE_SHIFT` stands for no limit. -/
def DomHeap.zoneHi (s : DomHeap ι) (d : Option ι) (flags : MemFlags) : Nat :=
  let bits := s.clampAllocBitsize (if flags.noOwner then none else d)
    (if flags.bits = 0 then 64 + pageShift else flags.bits)
  min (bitsToZone bits) (nrZones - 1)

/-- The two calls of `alloc_heap_pages`: memory for DMA comes last. -/
def DomHeap.allocZones (m : Machine) (dmaBitsize : Nat) (s : DomHeap ι) (d : Option ι) (order : Nat)
    (flags : MemFlags) (cpuNode zoneHi : Nat) : Except HeapFault (Option Nat × DomHeap ι) :=
  let first :=
    if dmaBitsize ≠ 0 ∧ bitsToZone dmaBitsize < zoneHi then
      s.allocHeap m d order flags cpuNode (bitsToZone dmaBitsize + 1) zoneHi
    else .ok (none, s)
  match first with
  | .error e => .error e
  | .ok (some pg, s) => .ok (some pg, s)
  | .ok (none, s) =>
    if flags.noDma then .ok (none, s) else s.allocHeap m d order flags cpuNode 1 zoneHi

def allocDomheapPages (m : Machine) (dmaBitsize : Nat) (s : DomHeap ι) (d : Option ι) (order : Nat)
    (flags : MemFlags) (cpuNode : Nat) : Except HeapFault (Option Nat × DomHeap ι) :=
  let zoneHi := s.zoneHi d flags
  if zoneHi = 0 then .ok (none, s)
  else
    let flags := { flags with noRefcount := flags.noRefcount || flags.noOwner }
    match s.allocZones m dmaBitsize d order flags cpuNode zoneHi with
    | .error e => .error e
    | .ok (none, s) => .ok (none, s)
    | .ok (some pg, s) =>
      match d with
      | none => .ok (some pg, s)
      | some d =>
        if flags.noOwner then .ok (some pg, s)
        else
          match assignPages s d pg order flags.noRefcount with
          | .error e => .error e
          | .ok (rc, s) =>
            if rc = 0 then .ok (some pg, s)
            else
              match freeHeapPages m s.heap pg order with
              | .error e => .error e
              | .ok h => .ok (none, { s with heap := h })

def DomHeap.disown (s : DomHeap ι) (pg order : Nat) : Except HeapFault (DomHeap ι) :=
  match s.owner pg with
  | none => .ok s
  | some d => (domainAdjustTotPages s d (-(2 ^ order : Nat))).map Prod.snd

def freeDomheapPages (m : Machine) (s : DomHeap ι) (pg order : Nat) :
    Except HeapFault (DomHeap ι) :=
  match s.disown pg order with
  | .error e => .error e
  | .ok s =>
    match freeHeapPages m s.heap pg order with
    | .error e => .error e
    | .ok h => .ok ({ s with heap := h }.setOwner pg order none)

/-- The operations on the memory of domains. `configure` stands for the code that changes what the
allocator only reads. -/
inductive DomOp (ι : Type) where
  | setOutstanding (d : ι) (pages : Nat)
  | alloc (d : Option ι) (order : Nat) (flags : MemFlags) (cpuNode : Nat)
  | free (pg order : Nat)
  | configure (d : ι) (settings : DomainSettings)

def domStep (m : Machine) (dmaBitsize : Nat) (s : DomHeap ι) :
    DomOp ι → Except HeapFault (DomHeap ι)
  | .setOutstanding d pages => .ok (domainSetOutstandingPages s d pages).2
  | .alloc d order flags cpuNode =>
    (allocDomheapPages m dmaBitsize s d order flags cpuNode).map Prod.snd
  | .free pg order => freeDomheapPages m s pg order
  | .configure d settings => .ok (s.setDom d { s.dom d with toDomainSettings := settings })

/-- What is freed is a block of one owner that is in use. It may be part of what was allocated. -/
def DomOp.Proper (m : Machine) (F : Set Nat) (s : DomHeap ι) : DomOp ι → Prop
  | .free pg order => Freeable m s.heap.freeFrames pg order ∧ Aligned (pg, order) ∧
      cells (pg, order) ⊆ F ∧ ∀ x ∈ cells (pg, order), s.owner x = s.owner pg
  | .setOutstanding _ _ | .alloc _ _ _ _ | .configure _ _ => True

end Ops

end XenVmi.PageAlloc
