import XenVmi.Perception.Exiting

/-!
# The VMFUNC perception module

Model of the detector in `hvm_rdtsc_intercept` (`hvm/hvm.c:4675-4698`) over its globals `eptp_idx`
and `eptp_idx_last`. A `Run` is the state with what has happened (`Past`), which only the statements
read. `lastView` is the view of a vCPU at its own previous exit, `shown` the view the trace showed
last: the detector has one memory for all vCPUs of all domains.
-/

namespace XenVmi.Perception

open XenVmi.Altp2m XenVmi.Lib

/-- A trace record: `TRC_HVM_VMFUNC` or `TRC_HVM_RDTSC`, with its two words. -/
inductive TraceRecord where
  | vmfunc (domainId : Nat) (eptpIdx : Int)
  | rdtsc (eax edx : Nat)
  deriving Repr, DecidableEq

def switchesViews (d : Domain) (v : Nat) : Bool := d.altp2mActive && (d.vcpu v).vmFunctions

/-- `hvm_rdtsc_intercept` by vCPU `v` of `d`, `tsc` being the guest's TSC: the records and the new
globals. -/
def hvmRdtscIntercept (h : Host) (d : Domain) (v tsc : Nat) : List TraceRecord × Host :=
  let eptpIdx : Int := if switchesViews d v then (d.vcpu v).p2midx else h.eptpIdx
  let rdtsc := TraceRecord.rdtsc (tsc % 2 ^ 32) (tsc / 2 ^ 32 % 2 ^ 32)
  if eptpIdx ≠ h.eptpIdxLast then
    ([.vmfunc d.domainId eptpIdx, rdtsc], { h with eptpIdx := eptpIdx, eptpIdxLast := eptpIdx })
  else ([rdtsc], { h with eptpIdx := eptpIdx })

/-! ## Runs -/

inductive Past where
  /-- An RDTSC exit of vCPU `v` of domain `k`, which was in `view`. -/
  | exit (k v : Nat) (switching : Bool) (view : Nat)
  | disabled
  deriving Repr, DecidableEq

def lastView (k v : Nat) : List Past → Option Nat
  | [] => none
  | .exit k' v' _ view :: past => if k' = k ∧ v' = v then some view else lastView k v past
  | .disabled :: past => lastView k v past

/-- `do_disable_intercept_rdtsc` was called after the latest exit. -/
def disabledSince : List Past → Bool
  | .disabled :: _ => true
  | _ => false

/-- The view the trace showed last. The first exit after a `do_disable_intercept_rdtsc` of a vCPU
that cannot switch shows view 0. -/
def shown : List Past → Nat
  | [] => 0
  | .exit _ _ true view :: _ => view
  | .exit _ _ false _ :: past => if disabledSince past then 0 else shown past
  | .disabled :: past => shown past

inductive Event where
  | rdtsc (k v tsc : Nat)
  | domainOp (k : Nat) (op : Op)
  | interceptRdtsc (scale : Int)
  | disableInterceptRdtsc

structure Run where
  host : Host
  past : List Past

def Run.start (domains : List Domain) (m2p : Nat → Nat) : Run :=
  { host := { domains := domains, m2p := m2p, eptpIdx := 0, eptpIdxLast := 0 }, past := [] }

/-- The domain at position `k` is `d`, and has a vCPU `v`. -/
def HasVcpu (h : Host) (k v : Nat) (d : Domain) : Prop :=
  h.domains[k]? = some d ∧ v < d.vcpus.length

def Event.run (cfg : Config) (s : Run) : Event → Run
  | .rdtsc k v tsc =>
    match s.host.domains[k]? with
    | none => s
    | some d =>
      if v < d.vcpus.length then
        { host := (hvmRdtscIntercept s.host d v tsc).2
          past := .exit k v (switchesViews d v) (d.vcpu v).p2midx :: s.past }
      else s
  | .domainOp k op =>
    match s.host.domains[k]? with
    | none => s
    | some d =>
      match step cfg ⟨d, s.host.m2p⟩ op with
      | .error _ => s
      | .ok m =>
        { s with host := { s.host with domains := s.host.domains.set k m.dom, m2p := m.m2p } }
  | .interceptRdtsc scale => { s with host := (doInterceptRdtsc s.host scale).2 }
  | .disableInterceptRdtsc =>
    { host := (doDisableInterceptRdtsc s.host).2, past := .disabled :: s.past }

/-! ## What the globals remember -/

def Remembers (s : Run) : Prop :=
  s.host.eptpIdxLast = shown s.past ∧
    s.host.eptpIdx = if disabledSince s.past then 0 else (shown s.past : Int)

variable {s : Run}

theorem hvmRdtscIntercept_globals (h : Remembers s) (d : Domain) (k v tsc : Nat) :
    Remembers
      { host := (hvmRdtscIntercept s.host d v tsc).2
        past := .exit k v (switchesViews d v) (d.vcpu v).p2midx :: s.past } := by
  obtain ⟨hl, he⟩ := h
  unfold Remembers hvmRdtscIntercept
  cases hs : switchesViews d v with
  | true =>
    simp only [if_true, shown, disabledSince]
    split
    · exact ⟨rfl, rfl⟩
    · rename_i heq
      exact ⟨(not_not.1 heq).symm, rfl⟩
  | false =>
    have hshown : s.host.eptpIdx
        = ((if disabledSince s.past then 0 else shown s.past : Nat) : Int) := by
      rw [he]
      split <;> rfl
    simp only [Bool.false_eq_true, if_false, shown, disabledSince]
    split
    · exact ⟨hshown, hshown⟩
    · rename_i heq
      exact ⟨(not_not.1 heq).symm.trans hshown, hshown⟩

theorem Event.run_globals (cfg : Config) (h : Remembers s) (e : Event) :
    Remembers (e.run cfg s) := by
  cases e with
  | rdtsc k v tsc =>
    simp only [Event.run]
    split
    · exact h
    · split
      · exact hvmRdtscIntercept_globals h _ k v tsc
      · exact h
  | domainOp k op =>
    simp only [Event.run]
    split
    · exact h
    · split <;> exact h
  | interceptRdtsc scale => exact h
  | disableInterceptRdtsc => exact ⟨h.1, rfl⟩

theorem run_globals (cfg : Config) (domains : List Domain) (m2p : Nat → Nat) (es : List Event) :
    Remembers (es.foldl (Event.run cfg) (Run.start domains m2p)) :=
  foldl_invariant Remembers (fun _ e _ h => Event.run_globals cfg h e) ⟨rfl, rfl⟩

theorem mem_hvmRdtscIntercept {h : Host} {d : Domain} {v tsc a : Nat} {i : Int} :
    TraceRecord.vmfunc a i ∈ (hvmRdtscIntercept h d v tsc).1 ↔
      a = d.domainId ∧ i = (if switchesViews d v then ((d.vcpu v).p2midx : Int) else h.eptpIdx) ∧
        i ≠ h.eptpIdxLast := by
  unfold hvmRdtscIntercept
  generalize (if switchesViews d v = true then ((d.vcpu v).p2midx : Int) else h.eptpIdx) = e
  by_cases hne : e ≠ h.eptpIdxLast
  · rw [if_pos hne]
    simp only [List.mem_cons, TraceRecord.vmfunc.injEq, reduceCtorEq, List.not_mem_nil, or_false]
    constructor
    · rintro ⟨rfl, rfl⟩
      exact ⟨rfl, rfl, hne⟩
    · rintro ⟨rfl, rfl, -⟩
      exact ⟨rfl, rfl⟩
  · rw [if_neg hne]
    simp only [List.mem_cons, reduceCtorEq, List.not_mem_nil, or_false, false_iff]
    rintro ⟨-, rfl, hne'⟩
    exact hne hne'

/-! ## No switch is lost -/

/-- If the vCPU can switch views and is in another view than at its previous exit, its next exit
writes the record. -/
def LosesNoSwitch (s : Run) (k v tsc : Nat) : Prop :=
  ∀ d, HasVcpu s.host k v d → switchesViews d v = true →
    ∀ w, lastView k v s.past = some w → (d.vcpu v).p2midx ≠ w →
      .vmfunc d.domainId (d.vcpu v).p2midx ∈ (hvmRdtscIntercept s.host d v tsc).1

theorem losesNoSwitch_iff (hs : Remembers s) (k v tsc : Nat) :
    LosesNoSwitch s k v tsc ↔
      ∀ d, HasVcpu s.host k v d → switchesViews d v = true →
        ∀ w, lastView k v s.past = some w → (d.vcpu v).p2midx ≠ w →
          shown s.past ≠ (d.vcpu v).p2midx := by
  refine forall₃_congr fun d _ hv => forall₃_congr fun w _ _ => ?_
  rw [mem_hvmRdtscIntercept, hs.1, if_pos hv]
  simp only [true_and, ne_eq, Int.natCast_inj]
  exact not_congr eq_comm

/-- **When a switch is recorded**: no switch is lost if and only if the view the trace showed last,
of whichever vCPU, is not the one the vCPU has switched to. -/
theorem switch_recorded_iff (cfg : Config) (domains : List Domain) (m2p : Nat → Nat)
    (es : List Event) (k v tsc : Nat) :
    let s := es.foldl (Event.run cfg) (Run.start domains m2p)
    LosesNoSwitch s k v tsc ↔
      ∀ d, HasVcpu s.host k v d → switchesViews d v = true →
        ∀ w, lastView k v s.past = some w → (d.vcpu v).p2midx ≠ w →
          shown s.past ≠ (d.vcpu v).p2midx :=
  losesNoSwitch_iff (run_globals cfg domains m2p es) k v tsc

/-- View 1 is created and given to vCPU 1, vCPU 0 stays in view 0, and every RDTSC exits. -/
def twoViews : List Event :=
  [.domainOp 0 (plainHypercall { plainOp with state := 1 } .setDomainState),
    .domainOp 0 (plainHypercall plainOp .createP2m), .domainOp 0 (.vmEventResponse 1 1),
    .interceptRdtsc 1]

def switchAfterOther : List Event :=
  twoViews ++ [.rdtsc 0 0 0, .rdtsc 0 1 0, .domainOp 0 (.vmEventResponse 0 1)]

/-- The next exit of a vCPU: whether it can switch views, its view now and at its previous exit, the
records. -/
def Run.nextExit (s : Run) (k v : Nat) : Option (Bool × Nat × Option Nat × List TraceRecord) :=
  match s.host.domains[k]? with
  | none => none
  | some d =>
    if v < d.vcpus.length then
      some (switchesViews d v, (d.vcpu v).p2midx, lastView k v s.past,
        (hvmRdtscIntercept s.host d v 0).1)
    else none

theorem Run.exists_of_nextExit {k v x : Nat} {b : Bool} {w : Option Nat}
    {rs : List TraceRecord} (h : s.nextExit k v = some (b, x, w, rs)) :
    ∃ d, HasVcpu s.host k v d ∧ switchesViews d v = b ∧ (d.vcpu v).p2midx = x ∧
      lastView k v s.past = w ∧ (hvmRdtscIntercept s.host d v 0).1 = rs := by
  unfold Run.nextExit at h
  split at h
  · cases h
  rename_i d hd
  split at h
  · rename_i hv
    cases h
    exact ⟨d, ⟨hd, hv⟩, rfl, rfl, rfl, rfl⟩
  · cases h

/-- vCPU 0 has switched to view 1, and its exit writes no record, because vCPU 1 was seen in view 1
last. -/
theorem switch_of_second_vcpu_lost :
    let s := switchAfterOther.foldl (Event.run vmfuncConfig)
      (Run.start [vmfuncMachine.dom] vmfuncMachine.m2p)
    s.nextExit 0 0 = some (true, 1, some 0, [.rdtsc 0 0]) ∧ ¬ LosesNoSwitch s 0 0 0 := by
  intro s
  have hs : s.nextExit 0 0 = some (true, 1, some 0, [.rdtsc 0 0]) := by decide +kernel
  refine ⟨hs, fun h => ?_⟩
  obtain ⟨d, hd, hv, hx, hw, hr⟩ := Run.exists_of_nextExit hs
  have hmem := h d hd hv 0 hw (by rw [hx]; decide)
  rw [hr] at hmem
  simp at hmem

/-! ## No record is out of place -/

/-- A record is written only for a vCPU that can switch views and whose view differs from the one at
its previous exit, with the id of its domain and its view. -/
def NoPhantom (s : Run) (k v tsc : Nat) : Prop :=
  ∀ d, HasVcpu s.host k v d →
    ∀ (a : Nat) (i : Int), .vmfunc a i ∈ (hvmRdtscIntercept s.host d v tsc).1 →
      switchesViews d v = true ∧ (d.vcpu v).p2midx ≠ (lastView k v s.past).getD 0 ∧
        a = d.domainId ∧ i = (d.vcpu v).p2midx

theorem noPhantom_iff (hs : Remembers s) (k v tsc : Nat) :
    NoPhantom s k v tsc ↔
      ∀ d, HasVcpu s.host k v d →
        (switchesViews d v = true → (d.vcpu v).p2midx = (lastView k v s.past).getD 0 →
          shown s.past = (d.vcpu v).p2midx) ∧
        (switchesViews d v = false → disabledSince s.past = true → shown s.past = 0) := by
  refine forall₂_congr fun d _ => ?_
  simp only [mem_hvmRdtscIntercept, hs.1, hs.2]
  cases hv : switchesViews d v with
  | true =>
    simp only [if_true, true_and, true_imp_iff, reduceCtorEq, false_imp_iff, and_true]
    constructor
    · intro h heq
      by_contra hne
      exact (h d.domainId _ ⟨rfl, rfl, by exact_mod_cast Ne.symm hne⟩).1 heq
    · rintro h a i ⟨rfl, rfl, hne⟩
      refine ⟨fun heq => hne ?_, rfl, rfl⟩
      rw [h heq]
  | false =>
    simp only [Bool.false_eq_true, if_false, false_and, imp_false, false_imp_iff, true_and,
      true_imp_iff, not_and, not_not]
    constructor
    · intro h hd
      have := h d.domainId _ rfl rfl
      rw [if_pos hd] at this
      exact_mod_cast this.symm
    · rintro h a i rfl rfl
      cases hd : disabledSince s.past with
      | true => simp [h hd]
      | false => simp

/-- **When no record is out of place**: a vCPU that can switch views and has not must find its own
view shown last, and one that cannot must not be the first to exit after a
`do_disable_intercept_rdtsc`, unless view 0 was shown last. -/
theorem no_phantom_iff (cfg : Config) (domains : List Domain) (m2p : Nat → Nat) (es : List Event)
    (k v tsc : Nat) :
    let s := es.foldl (Event.run cfg) (Run.start domains m2p)
    NoPhantom s k v tsc ↔
      ∀ d, HasVcpu s.host k v d →
        (switchesViews d v = true → (d.vcpu v).p2midx = (lastView k v s.past).getD 0 →
          shown s.past = (d.vcpu v).p2midx) ∧
        (switchesViews d v = false → disabledSince s.past = true → shown s.past = 0) :=
  noPhantom_iff (run_globals cfg domains m2p es) k v tsc

/-- vCPU 1 exits in view 1, the perception is switched off and on again, and altp2m is switched
off. -/
def disabledAndBack : List Event :=
  twoViews ++ [.rdtsc 0 1 0, .disableInterceptRdtsc, .interceptRdtsc 1,
    .domainOp 0 (plainHypercall { plainOp with state := 0 } .setDomainState)]

/-- A phantom record: the domain has altp2m off, and the exit of its vCPU reports view 0. -/
theorem phantom_after_disable :
    let s := disabledAndBack.foldl (Event.run vmfuncConfig)
      (Run.start [vmfuncMachine.dom] vmfuncMachine.m2p)
    s.nextExit 0 0 = some (false, invalidAltp2m, none, [.vmfunc 1 0, .rdtsc 0 0]) ∧
      ¬ NoPhantom s 0 0 0 := by
  intro s
  have hs : s.nextExit 0 0 = some (false, invalidAltp2m, none, [.vmfunc 1 0, .rdtsc 0 0]) := by
    decide +kernel
  refine ⟨hs, fun h => ?_⟩
  obtain ⟨d, hd, hv, -, -, hr⟩ := Run.exists_of_nextExit hs
  have hsw := (h d hd 1 0 (by rw [hr]; simp)).1
  rw [hv] at hsw
  exact absurd hsw (by simp)

theorem shown_of_one_vcpu {k v : Nat} {past : List Past}
    (h : ∀ p ∈ past, ∃ view, p = .exit k v true view) :
    shown past = (lastView k v past).getD 0 ∧ disabledSince past = false := by
  cases past with
  | nil => exact ⟨rfl, rfl⟩
  | cons p past =>
    obtain ⟨view, rfl⟩ := h p List.mem_cons_self
    simp [shown, lastView, disabledSince]

/-- **The detector is exact for one vCPU**, if all exits so far were its own, each with altp2m and
its VM functions on, and the perception was never off. -/
theorem one_vcpu_exact (cfg : Config) (domains : List Domain) (m2p : Nat → Nat) (es : List Event)
    (k v tsc : Nat)
    (h : ∀ p ∈ (es.foldl (Event.run cfg) (Run.start domains m2p)).past,
      ∃ view, p = .exit k v true view) :
    let s := es.foldl (Event.run cfg) (Run.start domains m2p)
    LosesNoSwitch s k v tsc ∧ NoPhantom s k v tsc := by
  intro s
  have hs : Remembers s := run_globals cfg domains m2p es
  obtain ⟨hshown, hdis⟩ := shown_of_one_vcpu h
  refine ⟨(losesNoSwitch_iff hs k v tsc).2 fun d _ _ w hw hne => ?_,
    (noPhantom_iff hs k v tsc).2 fun d _ => ⟨fun _ heq => ?_, fun _ hd => ?_⟩⟩
  · rw [hshown, hw]
    exact Ne.symm hne
  · rw [hshown, heq]
  · rw [hdis] at hd
    cases hd

/-- vCPU 1 goes from view 1, in which it exited, to view 0. -/
theorem one_vcpu_exact_switched :
    let s := (twoViews ++ [Event.rdtsc 0 1 0, .domainOp 0 (.vmEventResponse 1 0)]).foldl
      (Event.run vmfuncConfig) (Run.start [vmfuncMachine.dom] vmfuncMachine.m2p)
    LosesNoSwitch s 0 1 0 ∧ NoPhantom s 0 1 0 := by
  refine one_vcpu_exact _ _ _ _ 0 1 0 fun p hp => ⟨1, List.mem_singleton.1 ?_⟩
  rwa [show Run.past _ = [.exit 0 1 true 1] by decide +kernel] at hp

end XenVmi.Perception
