import XenVmi.Grant.State

/-!
# Grant copies

Model of `common/grant_table.c:1972-2570`. A batch keeps the domains it locked and the pages it
claimed from one operation to the next (`CopyState`). What an operation finds in guest memory is
part of the operation (`CopyEnv`).
-/

namespace XenVmi.Grant

def domidSelf : Nat := 0x7FF0

/-! ## What an operation finds -/

inductive SharedV2 where
  | fullPage (frame : Nat)
  | subPage (frame pageOff length : Nat)
  | transitive (transDomid gref : Nat)
  deriving DecidableEq, Repr

/-- What one side of an operation finds. `physmap d gfn f`: domain `d` has the frame `f` at `gfn`.
-/
structure CopyEnv (physmap : Nat → Nat → Nat → Prop) where
  domainExists : Nat → Bool
  /-- `_set_status` for a domain's grant reference and `readonly` -/
  setStatus : Nat → Nat → Bool → Status
  sharedV1 : Nat → Nat → Nat
  sharedV2 : Nat → Nat → SharedV2
  /-- `__get_paged_frame` for a domain's frame number and `readonly` -/
  pagedFrame : Nat → Nat → Bool → Except Status Nat
  writable : Nat → Bool
  paged : ∀ d gfn ro f, pagedFrame d gfn ro = .ok f → physmap d gfn f

/-- `struct gnttab_copy_ptr`; `u` is the union of `gmfn` and, in its lower half, `ref`. -/
structure CopyPtr where
  u : Nat
  domid : Nat
  offset : Nat
  deriving DecidableEq, Repr

def refOf (u : Nat) : Nat := u % 2 ^ 32

def setRef (u ref : Nat) : Nat := u / 2 ^ 32 * 2 ^ 32 + ref

/-- `struct gnttab_copy` with what the operation finds. -/
structure CopyOp (physmap : Nat → Nat → Nat → Prop) where
  source : CopyPtr
  dest : CopyPtr
  len : Nat
  sourceGref : Bool
  destGref : Bool
  /-- `xsm_grant_copy` allows it -/
  xsm : Bool
  sourceEnv : CopyEnv physmap
  destEnv : CopyEnv physmap

variable {physmap : Nat → Nat → Nat → Prop}

/-! ## Grants -/

abbrev Tables := Nat → GrantTable

namespace Tables

def active (tables : Tables) (d e : Nat) : Active := (tables d).active e

def setActive (tables : Tables) (d e : Nat) (act : Active) : Tables :=
  Function.update tables d ((tables d).setActive e act)

end Tables

/-- `GNTPIN_hstr_inc` or `GNTPIN_hstw_inc` -/
def pinHst (readonly : Bool) : BitVec 32 := if readonly then gntpinHstrInc else gntpinHstwInc

/-- How a function ends: `GNTST_okay` or an error. -/
abbrev Rc := Except Status Unit

inductive CopyFault where
  | depth | noDomain
  deriving DecidableEq, Repr

/-- `__release_grant_for_copy`, with the depth of the stack -/
def releaseGrantForCopy :
    Nat → Tables → (rd gref : Nat) → (readonly : Bool) → Except CopyFault Tables
  | 0, _, _, _, _ => .error .depth
  | n + 1, tables, rd, gref, readonly =>
    let act := tables.active rd gref
    let td := if (tables rd).version = 1 then rd else act.transDomain
    let transGref := if (tables rd).version = 1 then gref else act.transGref
    let pin := act.pin - pinHst readonly
    let tables := tables.setActive rd gref { act with pin := pin }
    if td = rd then .ok tables
    else if readonly = false ∧ pin &&& gntpinWriteMask = 0 then
      releaseGrantForCopy n tables td transGref false
    else if pin = 0 then releaseGrantForCopy n tables td transGref true
    else .ok tables

/-- What `__acquire_grant_for_copy` reads from a shared entry. -/
structure Granted where
  frame : Nat
  gfn : Nat
  isSubPage : Bool
  pageOff : Nat
  length : Nat
  td : Nat
  transGref : Nat
  deriving DecidableEq, Repr

/-- The result of `__acquire_grant_for_copy`. -/
structure Acquired where
  frame : Nat
  page : Nat
  pageOff : Nat
  length : Nat
  deriving DecidableEq, Repr

def ownGrant (env : CopyEnv physmap) (rd gref : Nat) (readonly : Bool) (gfn : Nat)
    (isSubPage : Bool) (pageOff length : Nat) : Except Status Granted :=
  match env.pagedFrame rd gfn readonly with
  | .error rc => .error rc
  | .ok frame => .ok ⟨frame, gfn, isSubPage, pageOff, length, rd, gref⟩

/-- `__acquire_grant_for_copy` reads the shared entry; `nested` acquires the grant behind a
transitive one. -/
def readShared (env : CopyEnv physmap)
    (nested : (transDomid transGref : Nat) → Except Status (Tables × Acquired))
    (tables : Tables) (rd gref : Nat) (readonly : Bool) : Except Status (Tables × Granted) :=
  if (tables rd).version = 1 then
    (ownGrant env rd gref readonly (env.sharedV1 rd gref) false 0 4096).map (tables, ·)
  else
    match env.sharedV2 rd gref with
    | .fullPage frame => (ownGrant env rd gref readonly frame false 0 4096).map (tables, ·)
    | .subPage frame pageOff length =>
      (ownGrant env rd gref readonly frame true pageOff length).map (tables, ·)
    | .transitive transDomid transGref =>
      match nested transDomid transGref with
      | .error rc => .error rc
      | .ok (tables, g) =>
        -- always a sub-page, which blocks mappings of transitive grants
        .ok (tables, ⟨g.frame, 2 ^ 64 - 1, true, g.pageOff, g.length, transDomid, transGref⟩)

/-- Only an entry that is not pinned takes on what the shared entry says; `start` has 15 bits and
`length` has 16. -/
def Active.record (act : Active) (ldom : Nat) (g : Granted) : Active :=
  if act.pin = 0 then
    { act with
      gfn := g.gfn, domid := ldom, isSubPage := g.isSubPage, start := g.pageOff % 2 ^ 15
      length := g.length % 2 ^ 16, transDomain := g.td, transGref := g.transGref, frame := g.frame }
  else { act with gfn := g.gfn }

/-- `__acquire_grant_for_copy` up to the new pin: the active entry and the page. -/
def acquireActive (env : CopyEnv physmap)
    (nested : (transDomid transGref : Nat) → Except Status (Tables × Acquired))
    (tables : Tables) (rd gref ldom : Nat) (readonly : Bool) :
    Except Status (Tables × Active × Nat) :=
  let act := tables.active rd gref
  if act.pin = 0 ∨ (readonly = false ∧ act.pin &&& gntpinWriteMask = 0) then
    if env.setStatus rd gref readonly ≠ .okay then .error (env.setStatus rd gref readonly)
    else
      match readShared env nested tables rd gref readonly with
      | .error rc => .error rc
      | .ok (tables, g) => .ok (tables, act.record ldom g, g.frame)
  else .ok (tables, act, act.frame)

def acquireWith (env : CopyEnv physmap)
    (nested : (transDomid transGref : Nat) → Except Status (Tables × Acquired))
    (tables : Tables) (rd gref ldom : Nat) (readonly : Bool) : Except Status (Tables × Acquired) :=
  let act := tables.active rd gref
  if (tables rd).nrGrantEntries ≤ gref then .error .badGntref
  else if act.pin ≠ 0 ∧ (act.domid ≠ ldom ∨ act.pin &&& 0x80808080 ≠ 0) then .error .generalError
  else
    match acquireActive env nested tables rd gref ldom readonly with
    | .error rc => .error rc
    | .ok (tables, act, page) =>
      .ok (tables.setActive rd gref { act with pin := act.pin + pinHst readonly },
        ⟨act.frame, page, act.start, act.length⟩)

/-- `__acquire_grant_for_copy` where transitive grants are not allowed -/
def acquireDirect (env : CopyEnv physmap) :
    Tables → (rd gref ldom : Nat) → (readonly : Bool) → Except Status (Tables × Acquired) :=
  acquireWith env fun _ _ => .error .generalError

/-- `__acquire_grant_for_copy` for the grant behind a transitive grant of `rd`. -/
def acquireNested (env : CopyEnv physmap) (tables : Tables) (rd : Nat) (readonly : Bool)
    (transDomid transGref : Nat) : Except Status (Tables × Acquired) :=
  if transDomid = rd ∨ env.domainExists transDomid = false then .error .generalError
  else acquireDirect env tables transDomid transGref rd readonly

/-- `__acquire_grant_for_copy` where transitive grants are allowed -/
def acquireGrantForCopy (env : CopyEnv physmap) (tables : Tables) (rd gref ldom : Nat)
    (readonly : Bool) : Except Status (Tables × Acquired) :=
  acquireWith env (acquireNested env tables rd readonly) tables rd gref ldom readonly

/-! ## Buffers -/

/-- `struct gnttab_copy_buf`; `virt` says that `frame` is mapped. -/
structure CopyBuf where
  u : Nat
  domid : Nat
  offset : Nat
  len : Nat
  domain : Option Nat
  frame : Nat
  page : Option Nat
  virt : Bool
  readOnly : Bool
  haveGrant : Bool
  haveType : Bool
  deriving DecidableEq, Repr

namespace CopyBuf

def empty : CopyBuf := ⟨0, 0, 0, 0, none, 0, none, false, false, false, false⟩

def lockDomain (caller : Nat) (env : CopyEnv physmap) (domid : Nat) (gref : Bool) (buf : CopyBuf) :
    CopyBuf × Rc :=
  if domid ≠ domidSelf ∧ gref = false then (buf, .error .permissionDenied)
  else if domid = domidSelf then ({ buf with domain := some caller, domid := domid }, .ok ())
  else if env.domainExists domid then ({ buf with domain := some domid, domid := domid }, .ok ())
  else ({ buf with domain := none }, .error .badDomain)

def released (buf : CopyBuf) : CopyBuf :=
  { buf with virt := false, haveType := false, page := none, haveGrant := false }

def release (n : Nat) (tables : Tables) (buf : CopyBuf) : Except CopyFault (Tables × CopyBuf) :=
  if buf.haveGrant then
    match buf.domain with
    | none => .error .noDomain
    | some d => (releaseGrantForCopy n tables d (refOf buf.u) buf.readOnly).map (·, buf.released)
  else .ok (tables, buf.released)

/-- The end of `gnttab_copy_claim_buf`: the type of the page and the mapping. -/
def map (env : CopyEnv physmap) (tables : Tables) (buf : CopyBuf) : (Tables × CopyBuf) × Rc :=
  if buf.readOnly then ((tables, { buf with virt := true }), .ok ())
  else if buf.page.any env.writable then
    ((tables, { buf with haveType := true, virt := true }), .ok ())
  else ((tables, buf), .error .generalError)

/-- `gnttab_copy_claim_buf` for a buffer that was released -/
def claim (caller : Nat) (env : CopyEnv physmap) (readOnly : Bool) (ptr : CopyPtr) (gref : Bool)
    (tables : Tables) (buf : CopyBuf) (d : Nat) : (Tables × CopyBuf) × Rc :=
  if gref then
    match acquireGrantForCopy env tables d (refOf ptr.u) caller readOnly with
    | .error rc => ((tables, { buf with readOnly := readOnly }), .error rc)
    | .ok (tables, g) =>
      map env tables
        { buf with
          readOnly := readOnly, frame := g.frame, page := some g.page, offset := g.pageOff
          len := g.length, u := setRef buf.u (refOf ptr.u), haveGrant := true }
  else
    match env.pagedFrame d ptr.u readOnly with
    | .error rc => ((tables, { buf with readOnly := readOnly }), .error rc)
    | .ok frame =>
      map env tables
        { buf with
          readOnly := readOnly, frame := frame, page := some frame, u := ptr.u, offset := 0
          len := 4096 }

def valid (ptr : CopyPtr) (gref : Bool) (buf : CopyBuf) : Bool :=
  buf.virt && if gref then buf.haveGrant && decide (refOf ptr.u = refOf buf.u)
    else decide (ptr.u = buf.u)

/-- `gnttab_copy_one` releases a buffer that does not hold what the operation names. -/
def drop (n : Nat) (ptr : CopyPtr) (gref : Bool) (tables : Tables) (buf : CopyBuf) :
    Except CopyFault (Tables × CopyBuf) :=
  if valid ptr gref buf then .ok (tables, buf) else buf.release n tables

/-- `gnttab_copy_one` claims a buffer that does not hold what the operation names. -/
def take (caller : Nat) (env : CopyEnv physmap) (readOnly : Bool) (ptr : CopyPtr) (gref : Bool)
    (tables : Tables) (buf : CopyBuf) : Except CopyFault ((Tables × CopyBuf) × Rc) :=
  if valid ptr gref buf then .ok ((tables, buf), .ok ())
  else
    match buf.domain with
    | none => .error .noDomain
    | some d => .ok (buf.claim caller env readOnly ptr gref tables d)

end CopyBuf

/-- `gnttab_copy_buf`: the frames that are read and written. -/
def copyBuf (op : CopyOp physmap) (dest src : CopyBuf) : Except Status (Nat × Nat) :=
  if 4096 < op.source.offset + op.len ∨ 4096 < op.dest.offset + op.len then .error .badCopyArg
  else if op.source.offset < src.offset ∨ src.offset + src.len < op.source.offset + op.len then
    .error .generalError
  else if op.dest.offset < dest.offset ∨ dest.offset + dest.len < op.dest.offset + op.len then
    .error .generalError
  else .ok (src.frame, dest.frame)

/-! ## Batches -/

structure CopyState where
  tables : Tables
  src : CopyBuf
  dest : CopyBuf

namespace CopyState

def start (tables : Tables) : CopyState := ⟨tables, .empty, .empty⟩

def locked (s : CopyState) (op : CopyOp physmap) : Bool :=
  s.src.domain.isSome && s.dest.domain.isSome &&
    decide (op.source.domid = s.src.domid) && decide (op.dest.domid = s.dest.domid)

def releaseBufs (n : Nat) (s : CopyState) : Except CopyFault CopyState := do
  let (tables, src) ← s.src.release n s.tables
  let (tables, dest) ← s.dest.release n tables
  return ⟨tables, src, dest⟩

def unlockDomains (s : CopyState) : CopyState :=
  { s with src := { s.src with domain := none }, dest := { s.dest with domain := none } }

def lockDomains (caller : Nat) (op : CopyOp physmap) (s : CopyState) : CopyState × Rc :=
  match s.src.lockDomain caller op.sourceEnv op.source.domid op.sourceGref with
  | (src, .error rc) => (unlockDomains { s with src := src }, .error rc)
  | (src, .ok ()) =>
    match s.dest.lockDomain caller op.destEnv op.dest.domid op.destGref with
    | (dest, .error rc) => (unlockDomains { s with src := src, dest := dest }, .error rc)
    | (dest, .ok ()) =>
      if op.xsm then ({ s with src := src, dest := dest }, .ok ())
      else (unlockDomains { s with src := src, dest := dest }, .error .permissionDenied)

def andThen (r : Except CopyFault (CopyState × Rc))
    (next : CopyState → Except CopyFault (CopyState × Rc)) : Except CopyFault (CopyState × Rc) :=
  match r with
  | .ok (s, .ok ()) => next s
  | r => r

/-- `gnttab_copy_one`: lock other domains. -/
def relock (n caller : Nat) (op : CopyOp physmap) (s : CopyState) :
    Except CopyFault (CopyState × Rc) :=
  if s.locked op then .ok (s, .ok ())
  else do
    let s ← s.releaseBufs n
    return s.unlockDomains.lockDomains caller op

/-- `gnttab_copy_one`: claim another source. -/
def claimSource (n caller : Nat) (op : CopyOp physmap) (s : CopyState) :
    Except CopyFault (CopyState × Rc) := do
  let (tables, src) ← s.src.drop n op.source op.sourceGref s.tables
  let ((tables, src), rc) ← src.take caller op.sourceEnv true op.source op.sourceGref tables
  return ({ s with tables := tables, src := src }, rc)

/-- `gnttab_copy_one`: release another destination. -/
def dropDest (n : Nat) (op : CopyOp physmap) (s : CopyState) :
    Except CopyFault (CopyState × Rc) := do
  let (tables, dest) ← s.dest.drop n op.dest op.destGref s.tables
  return ({ s with tables := tables, dest := dest }, .ok ())

/-- `gnttab_copy_one`: claim another destination. -/
def claimDest (caller : Nat) (op : CopyOp physmap) (s : CopyState) :
    Except CopyFault (CopyState × Rc) := do
  let ((tables, dest), rc) ← s.dest.take caller op.destEnv false op.dest op.destGref s.tables
  return ({ s with tables := tables, dest := dest }, rc)

/-- `gnttab_copy_one` up to the claim of the destination -/
def prepare (n caller : Nat) (op : CopyOp physmap) (s : CopyState) :
    Except CopyFault (CopyState × Rc) :=
  andThen (andThen (s.relock n caller op) (claimSource n caller op)) (dropDest n op)

/-- `gnttab_copy_one` after both buffers are claimed -/
def finish (op : CopyOp physmap) (s : CopyState) : Rc → Except Status (Nat × Nat)
  | .ok () => copyBuf op s.dest s.src
  | .error rc => .error rc

/-- `gnttab_copy_one`: the frames that are read and written, or the reason to give up. -/
def copyOne (n caller : Nat) (op : CopyOp physmap) (s : CopyState) :
    Except CopyFault (CopyState × Except Status (Nat × Nat)) := do
  let (s, rc) ← andThen (s.prepare n caller op) (claimDest caller op)
  return (s, s.finish op rc)

/-- After an error `gnttab_copy` releases both buffers. -/
def settle (n : Nat) (s : CopyState) (r : Except Status (Nat × Nat)) :
    Except CopyFault (CopyState × Except Status (Nat × Nat)) :=
  match r with
  | .ok frames => .ok (s, .ok frames)
  | .error rc => (s.releaseBufs n).map (·, .error rc)

/-- One round of `gnttab_copy`. -/
def copyRound (n caller : Nat) (op : CopyOp physmap) (s : CopyState) :
    Except CopyFault (CopyState × Except Status (Nat × Nat)) := do
  let (s, r) ← s.copyOne n caller op
  s.settle n r

/-- `gnttab_copy` from one operation to the next -/
def step (n caller : Nat) (s : CopyState) (op : CopyOp physmap) : Except CopyFault CopyState := do
  let (s, _) ← s.copyRound n caller op
  return s

end CopyState

end XenVmi.Grant
