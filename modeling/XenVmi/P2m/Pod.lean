import XenVmi.P2m.Physmap

/-!
# Populate on demand

Model of `mm/p2m-pod.c`. A gfn of type `p2m_populate_on_demand` is a page the guest was promised,
counted in `pod.entry_count`; the cache holds the pages to keep the promise with. What is found out
about pages, and the result of each `p2m_set_entry`, are parameters (`PodOutcomes`).
-/

namespace XenVmi.P2m

open Function XenVmi.Ept

/-- `EBUSY` for a range in use, `ERESTART` for a preempted call. -/
def podBusy : Int := -16

@[inherit_doc podBusy]
def podRestart : Int := -85

def superpagePages : Nat := 512

inductive PodFault where
  | bug
  | spin
  deriving Repr, DecidableEq

/-- What `count_info` of a page says. -/
structure PageInfo where
  allocated : Bool
  pageTable : Bool
  xenHeap : Bool
  count : Nat

structure PodOutcomes where
  /-- `count_info`, by frame. -/
  page : Nat → PageInfo
  countAfter : Nat → Nat
  quickZero : Nat → Bool
  zero : Nat → Bool
  /-- `set_entry` for a superpage that becomes populate-on-demand, and back. -/
  superRc : Nat → Int
  superBackRc : Nat → Int
  markRc : Nat → Int
  markBackRc : Nat → Int
  /-- `set_entry` in `p2m_pod_decrease_reservation`: all of the range, one populate-on-demand page,
  one page of RAM. -/
  dropRc : Nat → Int
  clearRc : Nat → Int
  stealRc : Nat → Int
  /-- `set_entry` for a populated page and for a range that is split. -/
  populateRc : Nat → Int
  splitRc : Nat → Int
  getPage : Nat → Bool
  /-- `hypercall_preempt_check()`, by the size of the cache or the page freed last. -/
  preemptGrow : Int → Bool
  preemptShrink : Nat → Bool
  /-- `alloc_domheap_pages`, by the size of the cache and the order. -/
  alloc : Int → Nat → Option Nat

/-! ## The cache -/

/-- `p2m_pod_cache_add` of a superpage or a single page. -/
def State.cacheAdd (s : State) (page order : Nat) : State :=
  { s with pod :=
      if order = 9 then
        { s.pod with super := s.pod.super ++ [page], count := s.pod.count + superpagePages }
      else { s.pod with single := s.pod.single ++ [page], count := s.pod.count + 1 } }

def superFrames (page : Nat) : List Nat := (List.range superpagePages).map (page + ·)

def State.breakSuper (s : State) : Except PodFault State :=
  match s.pod.single, s.pod.super with
  | _ :: _, _ => .ok s
  | [], [] => .error .bug
  | [], p :: rest =>
    .ok { s with pod := { s.pod with super := rest, single := superFrames p } }

/-- The pages leave the cache: `BUG_ON(page_get_owner(p + i) != p2m->domain)`. -/
def State.takePages (s : State) (page order : Nat) (pod : Pod) :
    Except PodFault (Option Nat × State) :=
  if ((List.range (2 ^ order)).all fun i => decide (s.owner (page + i) = .self)) = true then
    .ok (some page, { s with pod := pod })
  else .error .bug

def State.cacheGet (s : State) (order : Nat) : Except PodFault (Option Nat × State) :=
  if order = 9 then
    match s.pod.super with
    | [] => .ok (none, s)
    | p :: rest =>
      s.takePages p 9 { s.pod with super := rest, count := s.pod.count - superpagePages }
  else if order = 0 then
    match s.breakSuper with
    | .error e => .error e
    | .ok s =>
      match s.pod.single with
      | [] => .error .bug
      | p :: rest => s.takePages p 0 { s.pod with single := rest, count := s.pod.count - 1 }
  else .error .bug

def State.release (s : State) (mfn : Nat) : State :=
  { s with
    owner := update s.owner mfn .free
    m2p := update s.m2p mfn .invalid
    freed := mfn :: s.freed }

def State.allocate (s : State) (page order : Nat) : State :=
  { s with
    owner := fun f => if page ≤ f ∧ f < page + 2 ^ order then .self else s.owner f
    freed := s.freed.filter fun f => !(decide (page ≤ f) && decide (f < page + 2 ^ order)) }

/-- The first loop of `p2m_pod_set_cache_target`, with `fuel` rounds. -/
def growCache (o : PodOutcomes) (target : Nat) (preemptible : Bool) :
    (fuel : Nat) → State → Int × State
  | 0, s => (0, s)
  | fuel + 1, s =>
    if s.pod.count < target then
      let order := if superpagePages ≤ target - s.pod.count then 9 else 0
      let got (order : Nat) : Option (Nat × Nat) := (o.alloc s.pod.count order).map (·, order)
      match (got order).or (if order = 9 then got 0 else none) with
      | none => (-ENOMEM, s)
      | some (page, order) =>
        let s := (s.allocate page order).cacheAdd page order
        if preemptible && decide ((target : Int) ≠ s.pod.count) && o.preemptGrow s.pod.count then
          (podRestart, s)
        else growCache o target preemptible fuel s
    else (0, s)

/-- The inner loop of the second one: the pages that left the cache are freed. -/
def freePages (o : PodOutcomes) (target : Nat) (preemptible : Bool) : List Nat → State → Int × State
  | [], s => (0, s)
  | f :: fs, s =>
    if !o.getPage f then (-EINVAL, s)
    else
      let s := s.release f
      if preemptible && decide ((target : Int) ≠ s.pod.count) &&
        o.preemptShrink f then (podRestart, s)
      else freePages o target preemptible fs s

/-- The second loop of `p2m_pod_set_cache_target`. -/
def shrinkCache (o : PodOutcomes) (target : Nat) (preemptible : Bool) :
    (fuel : Nat) → State → Except PodFault (Int × State)
  | 0, s => .ok (0, s)
  | fuel + 1, s =>
    if (target : Int) < s.pod.count then
      let order := if (superpagePages : Int) < s.pod.count - target ∧ s.pod.super ≠ [] then 9 else 0
      match s.cacheGet order with
      | .error e => .error e
      | .ok (none, _) => .error .bug
      | .ok (some page, s) =>
        let r := freePages o target preemptible ((List.range (2 ^ order)).map (page + ·)) s
        if r.1 ≠ 0 then .ok r else shrinkCache o target preemptible fuel r.2
    else .ok (0, s)

/-- `p2m_pod_set_cache_target`: every round moves the size of the cache towards the target. -/
def setCacheTarget (o : PodOutcomes) (s : State) (target : Nat) (preemptible : Bool) :
    Except PodFault (Int × State) :=
  let r := growCache o target preemptible (target - s.pod.count).toNat s
  if r.1 ≠ 0 then .ok r
  else shrinkCache o target preemptible (r.2.pod.count - target).toNat r.2

/-- `p2m_pod_set_mem_target`; `totPages` is `d->tot_pages`. -/
def setMemTarget (o : PodOutcomes) (s : State) (dying : Bool) (totPages target : Nat) :
    Except PodFault (Int × State) :=
  let populated := (totPages - s.pod.count).toNat
  if populated > 0 ∧ s.pod.entryCount = 0 then .ok (0, s)
  else if dying then .ok (0, s)
  else if target < totPages then .ok (0, s)
  else
    let podTarget := target - populated
    setCacheTarget o s
      (if populated > 0 ∧ s.pod.entryCount < podTarget then s.pod.entryCount.toNat else podTarget)
        true

/-! ## Zeroed pages -/

def podMapping (env : Env) (gfn : Nat) : Mapping := ⟨gfn, 0, .populateOnDemand, env.defaultAccess⟩

def noMapping (env : Env) (gfn : Nat) : Mapping := ⟨gfn, invalidMfn, .invalid, env.defaultAccess⟩

/-- The first checks of a gfn. Nothing asks whether the frame is valid: for a RAM type without a
frame (`p2m_ram_paged`) the frame table is read out of range, and `o.page` is arbitrary there. -/
def reclaimable (env : Env) (o : PodOutcomes) (e : Translation) : Bool :=
  e.t.isRam && (o.page e.mfn).allocated && !(o.page e.mfn).pageTable &&
    !(o.page e.mfn).xenHeap && decide ((o.page e.mfn).count ≤ if env.hap then 1 else 2)

/-- The 2M page from `gfn` is RAM of one type in consecutive frames from an aligned one. -/
def reclaimableSuper (env : Env) (o : PodOutcomes) (s : State) (gfn : Nat) : Bool :=
  decide ((s.table gfn).mfn % superpagePages = 0) &&
    (List.range superpagePages).all fun i =>
      reclaimable env o (s.table (gfn + i)) && decide ((s.table (gfn + i)).t = (s.table gfn).t) &&
        decide ((s.table (gfn + i)).mfn = (s.table gfn).mfn + i)

/-- `p2m_pod_zero_check_superpage`: the number of pages reclaimed. -/
def zeroCheckSuperpage (env : Env) (o : PodOutcomes) (s : State) (gfn : Nat) : Nat × State :=
  let e := s.table gfn
  let frames := superFrames e.mfn
  if gfn % superpagePages ≠ 0 then (0, s)
  else if !reclaimableSuper env o s gfn then (0, s)
  else if !frames.all o.quickZero then (0, s)
  else
    let s := (s.setRange env o.superRc (podMapping env gfn) 9).2
    if (frames.any fun f => decide (1 < o.countAfter f)) || !frames.all o.zero then
      (0, (s.setRange env o.superBackRc ⟨gfn, e.mfn, e.t, env.defaultAccess⟩ 9).2)
    else
      let s := s.cacheAdd e.mfn 9
      (superpagePages,
        { s with pod := { s.pod with entryCount := s.pod.entryCount + superpagePages } })

/-- The second loop of `p2m_pod_zero_check` at one gfn: the page is taken out, and put back if
somebody else has it. -/
def markZero (env : Env) (o : PodOutcomes) (s : State) (gfn : Nat) (e : Translation) :
    Bool × State :=
  if !reclaimable env o e || !o.quickZero e.mfn then (false, s)
  else
    let s := (s.setRange env o.markRc (podMapping env gfn) 0).2
    if 1 < o.countAfter e.mfn then
      (false, (s.setRange env o.markBackRc ⟨gfn, e.mfn, e.t, env.defaultAccess⟩ 0).2)
    else (true, s)

def takeZero (env : Env) (o : PodOutcomes) (s : State) (gfn : Nat) (e : Translation) : State :=
  if !o.zero e.mfn then (s.setRange env o.markBackRc ⟨gfn, e.mfn, e.t, env.defaultAccess⟩ 0).2
  else
    let s := s.cacheAdd e.mfn 0
    { s with pod := { s.pod with entryCount := s.pod.entryCount + 1 } }

/-- The second loop of `p2m_pod_zero_check`: what is left to look at. -/
def markZeros (env : Env) (o : PodOutcomes) :
    List (Nat × Translation) → State → List (Nat × Translation) × State
  | [], s => ([], s)
  | (gfn, e) :: rest, s =>
    let r := markZero env o s gfn e
    let next := markZeros env o rest r.2
    (if r.1 then (gfn, e) :: next.1 else next.1, next.2)

def zeroCheck (env : Env) (o : PodOutcomes) (s : State) (gfns : List Nat) : State :=
  let r := markZeros env o (gfns.map fun x => (x, s.table x)) s
  r.1.foldl (fun s p => takeZero env o s p.1 p.2) r.2

/-- `p2m_pod_check_last_super`; the ring has `POD_HISTORY_MAX` places. -/
def checkLastSuper (env : Env) (o : PodOutcomes) (s : State) (gfnAligned : Nat) : State :=
  let checkGfn := s.pod.lastPopulated s.pod.lastPopulatedIndex
  let s := { s with pod := { s.pod with
    lastPopulated := update s.pod.lastPopulated s.pod.lastPopulatedIndex gfnAligned
    lastPopulatedIndex := (s.pod.lastPopulatedIndex + 1) % 128 } }
  (zeroCheckSuperpage env o s checkGfn).2

/-- The loop of `p2m_pod_emergency_sweep` from gfn `i` downwards: where it stopped, what is left of
the last batch, state. -/
def sweepLoop (env : Env) (o : PodOutcomes) (limit : Nat) :
    (i : Nat) → List Nat → State → Nat × List Nat × State
  | 0, batch, s => (0, batch, s)
  | i + 1, batch, s =>
    let batch := if (s.table (i + 1)).t.isRam then batch ++ [i + 1] else batch
    let full := decide (batch.length = 16)
    let s := if full then zeroCheck env o s batch else s
    let batch := if full then [] else batch
    if 0 < s.pod.count ∧ i + 1 < limit then (i + 1, batch, s) else sweepLoop env o limit i batch s

/-- `p2m_pod_emergency_sweep`; `POD_SWEEP_LIMIT` is 1024. -/
def emergencySweep (env : Env) (o : PodOutcomes) (s : State) : State :=
  let start := if s.pod.reclaimSingle = 0 then s.pod.maxGuest else s.pod.reclaimSingle
  let r := sweepLoop env o (start - 1024) start [] s
  let s := if r.2.1 ≠ [] then zeroCheck env o r.2.2 r.2.1 else r.2.2
  { s with pod := { s.pod with reclaimSingle := r.1 - 1 } }

/-! ## Populating and giving back -/

/-- The end of `p2m_pod_demand_populate` once the pages are there. -/
def populate (env : Env) (o : PodOutcomes) (s : State) (gfn order page : Nat) (allocate : Bool) :
    Except PodFault (Int × State) :=
  let gfnAligned := gfn / 2 ^ order * 2 ^ order
  if page % 2 ^ order ≠ 0 then .error .bug
  else
    let s := (s.setRange env o.populateRc ⟨gfnAligned, page, .ramRw, env.defaultAccess⟩ order).2
    let s := s.setM2p gfnAligned page (2 ^ order)
    let s := { s with pod := { s.pod with entryCount := s.pod.entryCount - 2 ^ order } }
    if s.pod.entryCount < 0 then .error .bug
    else if s.pod.count < s.pod.entryCount ∧ order = 9 ∧ allocate = true then
      .ok (0, checkLastSuper env o s gfnAligned)
    else .ok (0, s)

/-- `remap_and_retry`: the 2M range becomes single populate-on-demand pages. -/
def remapSingles (env : Env) (o : PodOutcomes) (s : State) (gfnAligned order : Nat) : State :=
  (List.range (2 ^ order)).foldl
    (fun s i => (s.setRange env o.splitRc (podMapping env (gfnAligned + i)) 0).2) s

/-- `p2m_pod_demand_populate`; `allocate` is `q & P2M_ALLOC`. -/
def demandPopulate (env : Env) (o : PodOutcomes) (s : State) (dying : Bool) (gfn order : Nat)
    (allocate : Bool) : Except PodFault (Int × State) :=
  let gfnAligned := gfn / 2 ^ order * 2 ^ order
  if dying then .ok (-1, s)
  else if order = 18 then .ok (0, (s.setRange env o.splitRc (podMapping env gfnAligned) 9).2)
  else
    let s := if s.pod.count = 0 then emergencySweep env o s else s
    if s.pod.count = 0 then .ok (-1, s)
    else
      let s := { s with pod := { s.pod with maxGuest := max s.pod.maxGuest gfn } }
      match s.cacheGet order with
      | .error e => .error e
      | .ok (some page, s) => populate env o s gfn order page allocate
      | .ok (none, s) =>
        if order ≠ 9 then .error .bug else .ok (0, remapSingles env o s gfnAligned order)

/-- `guest_physmap_mark_populate_on_demand` of a translated domain. -/
def markPopulateOnDemand (env : Env) (o : PodOutcomes) (s : State) (gfn order : Nat) :
    Except PodFault (Int × State) :=
  if (gfns gfn order).any fun x => (s.table x).t.isRam then .ok (podBusy, s)
  else
    let podCount := (gfns gfn order).countP fun x => (s.table x).t = .populateOnDemand
    let r := s.setRange env o.markRc (podMapping env gfn) order
    if r.1 = 0 then
      let count := r.2.pod.entryCount + 2 ^ order - podCount
      if count < 0 then .error .bug
      else .ok (0, { r.2 with pod := { r.2.pod with entryCount := count } })
    else .ok r

/-- The counters of the loop of `p2m_pod_decrease_reservation`. -/
structure Counts where
  pod : Nat
  nonpod : Int
  ram : Nat

def countRange (s : State) (gpfn order : Nat) : Counts where
  pod := (gfns gpfn order).countP fun x => (s.table x).t = .populateOnDemand
  nonpod := (gfns gpfn order).countP fun x => (s.table x).t ≠ .populateOnDemand
  ram := (gfns gpfn order).countP fun x => (s.table x).t.isRam

/-- The loop of `p2m_pod_decrease_reservation`. -/
def stealLoop (env : Env) (o : PodOutcomes) :
    List Nat → Counts → (steal : Bool) → State → Except PodFault (Counts × State)
  | [], c, _, s => .ok (c, s)
  | x :: xs, c, steal, s =>
    if c.pod = 0 ∧ ¬ (steal = true ∧ 0 < c.ram) then .ok (c, s)
    else
      let e := s.table x
      if e.t = .populateOnDemand then
        let s := (s.setRange env o.clearRc (noMapping env x) 0).2
        let s := { s with pod := { s.pod with entryCount := s.pod.entryCount - 1 } }
        if s.pod.entryCount < 0 then .error .bug
        else stealLoop env o xs { c with pod := c.pod - 1 } steal s
      else if steal && e.t.isRam then
        if !env.mfnValid e.mfn then .error .bug
        else
          let s := (s.setRange env o.stealRc (noMapping env x) 0).2
          let s := (s.setGpfnFromMfn e.mfn .invalid).cacheAdd e.mfn 0
          stealLoop env o xs { c with nonpod := c.nonpod - 1, ram := c.ram - 1 }
            (decide (s.pod.count < s.pod.entryCount)) s
      else stealLoop env o xs c steal s

/-- `out_entry_check`: the cache is not larger than the debt. -/
def trimCache (o : PodOutcomes) (ret : Int) (s : State) : Except PodFault (Int × State) :=
  if s.pod.entryCount < s.pod.count then
    match setCacheTarget o s s.pod.entryCount.toNat false with
    | .error e => .error e
    | .ok r => .ok (ret, r.2)
  else .ok (ret, s)

/-- `p2m_pod_decrease_reservation` from the label `recount`, with the outcomes of each round. -/
def decreaseLoop (env : Env) (gpfn order : Nat) :
    List PodOutcomes → State → Except PodFault (Int × State)
  | [], _ => .error .spin
  | o :: os, s =>
    let c := countRange s gpfn order
    let steal := decide (s.pod.count < s.pod.entryCount)
    if c.pod = 0 ∧ steal = false then .ok (0, s)
    else if c.nonpod = 0 then
      let s := (s.setRange env o.dropRc (noMapping env gpfn) order).2
      let s := { s with pod := { s.pod with entryCount := s.pod.entryCount - 2 ^ order } }
      if s.pod.entryCount < 0 then .error .bug else trimCache o 1 s
    else
      let r := if steal then
          zeroCheckSuperpage env o s (gpfn / superpagePages * superpagePages) else (0, s)
      if r.1 ≠ 0 then decreaseLoop env gpfn order os r.2
      else
        match stealLoop env o (gfns gpfn order) c steal r.2 with
        | .error e => .error e
        | .ok (c, s) => trimCache o (if c.nonpod = 0 then 1 else 0) s

def decreaseReservation (env : Env) (os : List PodOutcomes) (s : State) (dying : Bool)
    (gpfn order : Nat) : Except PodFault (Int × State) :=
  if s.pod.entryCount = 0 ∨ dying = true then .ok (0, s) else decreaseLoop env gpfn order os s

end XenVmi.P2m
