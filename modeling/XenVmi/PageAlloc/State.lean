import Mathlib.Algebra.Group.Nat.Defs
import Mathlib.Logic.Function.Basic

/-!
# The page heap

Model of the buddy allocator of `common/page_alloc.c:275-930`. `Heap.free node zone order` is
`heap(node, zone, order)`; `Page.order` is `PFN_ORDER`. `page_list_del` of a page that is not on the
list and a failed `BUG_ON` are faults. Pages that are being offlined leave the heap when they are
freed (`reserveOfflinedPage`); the calls that mark them, flushing of TLBs, `tmem` and the low-memory
interrupt are left out.
-/

namespace XenVmi.PageAlloc

/-- `PGC_state`. -/
inductive PageState where
  | inuse
  | offlining
  | offlined
  | free
  deriving Repr, DecidableEq

/-- What the heap keeps in `struct page_info`. -/
structure Page where
  state : PageState
  broken : Bool
  order : Nat
  deriving Repr, DecidableEq

structure Machine where
  /-- `phys_to_nid`, by frame. -/
  nid : Nat → Nat
  mfnValid : Nat → Bool
  maxOrder : Nat
  maxNodes : Nat
  online : Nat → Bool

structure Heap where
  page : Nat → Page
  free : Nat → Nat → Nat → List Nat
  avail : Nat → Nat → Int
  total : Int
  claims : Int
  offlinedList : List Nat
  brokenList : List Nat

inductive HeapFault where
  | bug
  | unlisted
  | spin
  deriving Repr, DecidableEq

/-- `page_to_zone`: `flsl` of the frame number, or 1. -/
def pageToZone (mfn : Nat) : Nat := Nat.log2 mfn + 1

/-! ## Lists -/

def Heap.setList (h : Heap) (node zone order : Nat) (l : List Nat) : Heap :=
  { h with free := fun n z k => if n = node ∧ z = zone ∧ k = order then l else h.free n z k }

/-- `PFN_ORDER(pg) = order; page_list_add_tail(pg, &heap(node, zone, order))`. -/
def Heap.push (h : Heap) (node zone order pg : Nat) : Heap :=
  { h.setList node zone order (h.free node zone order ++ [pg]) with
    page := Function.update h.page pg { h.page pg with order := order } }

def Heap.unlink (h : Heap) (node zone order pg : Nat) : Except HeapFault Heap :=
  if pg ∈ h.free node zone order then
    .ok (h.setList node zone order ((h.free node zone order).erase pg))
  else .error .unlisted

def Heap.adjust (h : Heap) (node zone : Nat) (d : Int) : Heap :=
  { h with
    avail := fun n z => if n = node ∧ z = zone then h.avail n z + d else h.avail n z
    total := h.total + d }

/-! ## `alloc_heap_pages` -/

/-- What `alloc_heap_pages` reads of the domain. -/
structure Requester where
  outstanding : Nat
  affinity : Nat → Bool
  lastAllocNode : Nat

/-- The arguments of `alloc_heap_pages`. -/
structure Request where
  zoneLo : Nat
  zoneHi : Nat
  order : Nat
  /-- `MEMF_get_node`, unless it is `NUMA_NO_NODE`. -/
  node : Option Nat
  exactNode : Bool
  noRefcount : Bool
  dom : Option Requester
  cpuNode : Nat

/-- `first_node`: `MAX_NUMNODES` if the mask is empty. -/
def Machine.firstNode (m : Machine) (mask : Nat → Bool) : Nat :=
  ((List.range m.maxNodes).find? mask).getD m.maxNodes

def Machine.nextNode (m : Machine) (node : Nat) (mask : Nat → Bool) : Nat :=
  ((List.range m.maxNodes).find? fun n => decide (node < n) && mask n).getD m.maxNodes

/-- Where the search is: `node`, `first_node`, `nodemask`, `nodemask_retry`. -/
structure NodeWalk where
  node : Nat
  first : Nat
  mask : Nat → Bool
  retry : Bool

def startWalk (m : Machine) (req : Request) : NodeWalk :=
  let mask := match req.dom with
    | some d => d.affinity
    | none => m.online
  let node := match req.node with
    | some n => n
    | none =>
      let n := match req.dom with
        | some d =>
          let n := m.nextNode d.lastAllocNode mask
          if m.maxNodes ≤ n then m.firstNode mask else n
        | none => m.maxNodes
      if m.maxNodes ≤ n then req.cpuNode else n
  ⟨node, node, mask, false⟩

/-- The next node, if there is one: first those of the mask, then the other nodes that are
online. -/
def NodeWalk.next (m : Machine) (req : Request) (w : NodeWalk) : Option NodeWalk :=
  let outside := !w.mask w.node
  let first := if outside then m.firstNode w.mask else w.first
  let node :=
    if outside then m.firstNode w.mask
    else if m.maxNodes ≤ m.nextNode w.node w.mask then m.firstNode w.mask
    else m.nextNode w.node w.mask
  if req.exactNode && req.node.isSome then none
  else if outside && decide (node < m.maxNodes) then some ⟨node, first, w.mask, w.retry⟩
  else if node = first then
    if req.exactNode || w.retry then none
    else
      let mask := fun n => m.online n && !w.mask n
      let node := m.firstNode mask
      if node < m.maxNodes then some ⟨node, node, mask, true⟩ else none
  else some ⟨node, first, w.mask, w.retry⟩

def Request.zones (req : Request) : List Nat :=
  (List.range (req.zoneHi - req.zoneLo + 1)).map (req.zoneHi - ·)

def Request.orders (m : Machine) (req : Request) : List Nat :=
  List.range' req.order (m.maxOrder + 1 - req.order)

def Heap.searchNode (m : Machine) (h : Heap) (req : Request) (node : Nat) : Option (Nat × Nat) :=
  req.zones.findSome? fun zone =>
    if h.avail node zone < (2 ^ req.order : Nat) then none
    else ((req.orders m).find? fun j => !(h.free node zone j).isEmpty).map (zone, ·)

/-- The search for a block, with `fuel` nodes to try: node, zone and order. -/
def Heap.search (m : Machine) (h : Heap) (req : Request) :
    (fuel : Nat) → NodeWalk → Option (Nat × Nat × Nat)
  | 0, _ => none
  | fuel + 1, w =>
    match h.searchNode m req w.node with
    | some (zone, j) => some (w.node, zone, j)
    | none =>
      match w.next m req with
      | none => none
      | some w => h.search m req fuel w

/-- The halving of a chunk whose order is `d` too large: the lower halves go back. -/
def Heap.halve (node zone order : Nat) : (d : Nat) → (pg : Nat) → Heap → Nat × Heap
  | 0, pg, h => (pg, h)
  | d + 1, pg, h =>
    Heap.halve node zone order d (pg + 2 ^ (order + d)) (h.push node zone (order + d) pg)

def Heap.refuses (h : Heap) (req : Request) : Bool :=
  decide (h.total < h.claims + (2 ^ req.order : Nat)) &&
    (req.noRefcount ||
      match req.dom with
      | none => true
      | some d => decide (d.outstanding < 2 ^ req.order))

def frames (pg order : Nat) : List Nat := (List.range (2 ^ order)).map (pg + ·)

def Page.isFree (p : Page) : Bool := decide (p.state = .free) && !p.broken

/-- `found`: the chunk is cut down to the order and its pages are in use. -/
def Heap.take (h : Heap) (node zone j order pg : Nat) : Except HeapFault (Nat × Heap) :=
  let r := Heap.halve node zone order (j - order) pg
    (h.setList node zone j (h.free node zone j).tail)
  let h := r.2.adjust node zone (-(2 ^ order : Nat))
  if (frames r.1 order).all fun f => (h.page f).isFree then
    .ok (r.1, { h with page := fun f =>
      if r.1 ≤ f ∧ f < r.1 + 2 ^ order then ⟨.inuse, false, 0⟩ else h.page f })
  else .error .bug

/-- `alloc_heap_pages`: the block and its node. -/
def allocHeapPages (m : Machine) (h : Heap) (req : Request) :
    Except HeapFault (Option (Nat × Nat) × Heap) :=
  if m.maxOrder < req.order then .ok (none, h)
  else if h.refuses req then .ok (none, h)
  else
    match h.search m req (2 * m.maxNodes + 2) (startWalk m req) with
    | none => .ok (none, h)
    | some (node, zone, j) =>
      match h.free node zone j with
      | [] => .ok (none, h)
      | pg :: _ =>
        match h.take node zone j req.order pg with
        | .error e => .error e
        | .ok (pg, h) => .ok (some (pg, node), h)

/-! ## `free_heap_pages` -/

/-- The largest order of a piece from `cur` without offlined pages that ends before `stop`. -/
def growOrder (off : Nat → Bool) (cur stop : Nat) : (fuel : Nat) → (order : Nat) → Nat
  | 0, k => k
  | fuel + 1, k =>
    if stop ≤ cur + 2 ^ (k + 1) then k
    else if (frames (cur + 2 ^ k) k).any off then k
    else growOrder off cur stop fuel (k + 1)

/-- The first loop of `reserve_offlined_page`: the pages that are not offlined go back in pieces. -/
def Heap.refile (node zone headOrder stop : Nat) (off : Nat → Bool) :
    (fuel : Nat) → (cur : Nat) → Heap → Except HeapFault Heap
  | 0, _, h => .ok h
  | fuel + 1, cur, h =>
    if stop ≤ cur then .ok h
    else if off cur then Heap.refile node zone headOrder stop off fuel (cur + 1) h
    else if headOrder = 0 then .error .spin
    else
      let k := growOrder off cur stop headOrder 0
      Heap.refile node zone headOrder stop off fuel (cur + 2 ^ k) (h.push node zone k cur)

def Heap.setAside (node zone : Nat) (h : Heap) (pg : Nat) : Heap :=
  let h := h.adjust node zone (-1)
  if (h.page pg).broken then { h with brokenList := h.brokenList ++ [pg] }
  else { h with offlinedList := h.offlinedList ++ [pg] }

/-- `reserve_offlined_page`: the number of pages taken out. -/
def reserveOfflinedPage (m : Machine) (h : Heap) (head : Nat) : Except HeapFault (Nat × Heap) :=
  let node := m.nid head
  let zone := pageToZone head
  let headOrder := (h.page head).order
  let off := fun f => decide ((h.page f).state = .offlined)
  match h.unlink node zone headOrder head with
  | .error e => .error e
  | .ok h =>
    match h.refile node zone headOrder (head + 2 ^ headOrder) off (2 ^ headOrder) head with
    | .error e => .error e
    | .ok h =>
      let gone := (frames head headOrder).filter off
      .ok (gone.length, gone.foldl (Heap.setAside node zone) h)

def buddyOf (pg order : Nat) : Nat := if pg.testBit order then pg - 2 ^ order else pg + 2 ^ order

def Heap.mergeable (m : Machine) (h : Heap) (node pg order : Nat) : Bool :=
  let b := buddyOf pg order
  m.mfnValid b && decide ((h.page b).state = .free) && decide ((h.page b).order = order) &&
    decide (m.nid b = node)

/-- The merging of `free_heap_pages`, for as many orders as there are to `MAX_ORDER`. -/
def Heap.mergeUp (m : Machine) (node zone : Nat) :
    (fuel : Nat) → (pg order : Nat) → Heap → Except HeapFault (Nat × Nat × Heap)
  | 0, pg, order, h => .ok (pg, order, h)
  | fuel + 1, pg, order, h =>
    if h.mergeable m node pg order then
      match h.unlink node zone order (buddyOf pg order) with
      | .error e => .error e
      | .ok h => Heap.mergeUp m node zone fuel (min pg (buddyOf pg order)) (order + 1) h
    else .ok (pg, order, h)

def Page.freed (p : Page) : Page := ⟨if p.state = .offlining then .offlined else .free, p.broken, 0⟩

def Heap.markFreed (h : Heap) (pg order : Nat) : Heap :=
  { h with page := fun f => if pg ≤ f ∧ f < pg + 2 ^ order then (h.page f).freed else h.page f }

def freeHeapPages (m : Machine) (h : Heap) (pg order : Nat) : Except HeapFault Heap :=
  let node := m.nid pg
  let zone := pageToZone pg
  let h := (h.markFreed pg order).adjust node zone (2 ^ order : Nat)
  let tainted := (frames pg order).any fun f => decide ((h.page f).state = .offlined)
  match h.mergeUp m node zone (m.maxOrder - order) pg order with
  | .error e => .error e
  | .ok (pg, order, h) =>
    let h := h.push node zone order pg
    if tainted then
      match reserveOfflinedPage m h pg with
      | .error e => .error e
      | .ok r => .ok r.2
    else .ok h

/-- The heap before pages have been freed to it: the state of a zeroed `struct page_info` is
`PGC_state_inuse`. -/
def noPages : Heap where
  page _ := ⟨.inuse, false, 0⟩
  free _ _ _ := []
  avail _ _ := 0
  total := 0
  claims := 0
  offlinedList := []
  brokenList := []

/-- `init_heap_pages`, for the frames that are not needed for the heap itself. -/
def initHeapPages (m : Machine) (frames : List Nat) : Except HeapFault Heap :=
  frames.foldlM (fun h f => freeHeapPages m h f 0) noPages

end XenVmi.PageAlloc
