import XenVmi.Altp2m.System
import XenVmi.Lib.Words

/-!
# RDTSC exiting: who turns it on and who turns it off

Model of the writers of `CPU_BASED_RDTSC_EXITING`: `tsc_set_info` (`time.c:1908-2003`) follows
`d->arch.vtsc`; `do_intercept_rdtsc` and `do_disable_intercept_rdtsc` (`hvm/hvm.c:6975-7008`) turn
it on and off. Their guard is `is_hvm_domain(d) && ~(d->arch.vtsc)`, with the bitwise operator, so
it spares no domain.
-/

namespace XenVmi.Perception

open XenVmi.Altp2m XenVmi.Lib

/-! ## The control -/

def cpuBasedRdtscExiting : BitVec 32 := 0x00001000#32

def rdtscExiting (x : Vcpu) : Bool := maskSet x.execControl cpuBasedRdtscExiting

def vmxSetRdtscExiting (enable : Bool) (x : Vcpu) : Vcpu :=
  let c := x.execControl &&& ~~~cpuBasedRdtscExiting
  let c := if enable then c ||| cpuBasedRdtscExiting else c
  { x with execControl := c, vmcsExecControl := c }

def hvmSetRdtscExiting (d : Domain) (enable : Bool) : Domain :=
  { d with vcpus := d.vcpus.map (vmxSetRdtscExiting enable) }

theorem rdtscExiting_eq (x : Vcpu) : rdtscExiting x = x.execControl.getLsbD 12 :=
  maskSet_eq (i := 12) x.execControl (by decide)

@[simp] theorem rdtscExiting_set (enable : Bool) (x : Vcpu) :
    rdtscExiting (vmxSetRdtscExiting enable x) = enable := by
  have hbit : cpuBasedRdtscExiting = BitVec.twoPow 32 12 := by decide
  rw [rdtscExiting_eq]
  unfold vmxSetRdtscExiting
  rw [hbit]
  cases enable <;> simp

/-! ## The two writers -/

/-- `~(d->arch.vtsc)`, an `int`. -/
def notVtsc (vtsc : Bool) : Int := -1 - vtsc.toInt

theorem notVtsc_ne_zero (vtsc : Bool) : notVtsc vtsc ≠ 0 := by
  cases vtsc <;> decide

def setExitingUnlessVtsc (enable : Bool) (d : Domain) : Domain :=
  if d.guestType = .hvm ∧ notVtsc d.vtsc ≠ 0 then hvmSetRdtscExiting d enable else d

/-- `do_intercept_rdtsc`; the argument `scale` is not read. -/
def doInterceptRdtsc (h : Host) (_scale : Int) : Int × Host :=
  (0, { h with domains := h.domains.map (setExitingUnlessVtsc true) })

def doDisableInterceptRdtsc (h : Host) : Int × Host :=
  (0, { h with eptpIdx := 0, domains := h.domains.map (setExitingUnlessVtsc false) })

/-- What `tsc_set_info` reads of the machine. -/
structure TscHost where
  cpuKhz : Nat
  tscIsSafe : Bool
  tscRatio : Bool
  rdtscp : Bool
  deriving Repr, DecidableEq

/-- `TSC_MODE_DEFAULT`, `TSC_MODE_ALWAYS_EMULATE`, `TSC_MODE_NEVER_EMULATE`,
`TSC_MODE_PVRDTSCP`. -/
def tscModeDefault : Nat := 0

@[inherit_doc tscModeDefault]
def tscModeAlwaysEmulate : Nat := 1

@[inherit_doc tscModeDefault]
def tscModeNeverEmulate : Nat := 2

@[inherit_doc tscModeDefault]
def tscModePvrdtscp : Nat := 3

/-- The switch of `tsc_set_info`: the new `vtsc` and `tsc_khz`. -/
def tscSwitch (th : TscHost) (d : Domain) (tscMode gtscKhz incarnation : Nat) : Bool × Nat :=
  if tscMode = tscModeDefault ∨ tscMode = tscModeAlwaysEmulate then
    let khz := if gtscKhz ≠ 0 then gtscKhz else th.cpuKhz
    let native := if d.guestType ≠ .pv then decide (khz = th.cpuKhz) || th.tscRatio
      else decide (incarnation = 0)
    (!(decide (tscMode = tscModeDefault) && th.tscIsSafe && native), khz)
  else if tscMode = tscModeNeverEmulate then (false, d.tscKhz)
  else if tscMode = tscModePvrdtscp then (!th.rdtscp || !th.tscIsSafe, th.cpuKhz)
  else (d.vtsc, d.tscKhz)

def tscSetInfo (th : TscHost) (d : Domain) (tscMode gtscKhz incarnation : Nat) : Domain :=
  if d.isIdle || d.isHardware then { d with vtsc := false }
  else
    let tscMode := if d.guestType = .pvh then tscModeNeverEmulate else tscMode
    let r := tscSwitch th d tscMode gtscKhz incarnation
    let d := { d with
      tscMode := tscMode, vtsc := r.1, tscKhz := r.2, incarnation := (incarnation + 1) % 2 ^ 32 }
    if d.guestType = .hvm then hvmSetRdtscExiting d d.vtsc else d

/-! ## Sequences of calls -/

inductive TscCall where
  | tscSetInfo (k tscMode gtscKhz incarnation : Nat)
  | interceptRdtsc (scale : Int)
  | disableInterceptRdtsc
  deriving Repr, DecidableEq

def TscCall.run (th : TscHost) (h : Host) : TscCall → Host
  | .tscSetInfo k mode khz inc =>
    { h with domains := h.domains.modify k fun d => Perception.tscSetInfo th d mode khz inc }
  | .interceptRdtsc scale => (doInterceptRdtsc h scale).2
  | .disableInterceptRdtsc => (doDisableInterceptRdtsc h).2

/-- Every vCPU of every HVM domain exits on RDTSC exactly when the TSC of its domain is emulated. -/
def ExitingAgrees (h : Host) : Prop :=
  ∀ d ∈ h.domains, d.guestType = .hvm → ∀ x ∈ d.vcpus, rdtscExiting x = d.vtsc

instance (h : Host) : Decidable (ExitingAgrees h) :=
  inferInstanceAs (Decidable (∀ d ∈ h.domains, d.guestType = .hvm → ∀ x ∈ d.vcpus,
    rdtscExiting x = d.vtsc))

theorem setExitingUnlessVtsc_hvm {d : Domain} (enable : Bool) (h : d.guestType = .hvm) :
    setExitingUnlessVtsc enable d = hvmSetRdtscExiting d enable :=
  if_pos ⟨h, notVtsc_ne_zero d.vtsc⟩

/-- **When interception is undone exactly**: after calls that end with `do_disable_intercept_rdtsc`,
exiting agrees with `vtsc` if and only if no HVM domain with a vCPU has its TSC emulated at the last
call. -/
theorem undone_iff_no_vtsc (th : TscHost) (h : Host) (calls : List TscCall) :
    ExitingAgrees ((calls ++ [TscCall.disableInterceptRdtsc]).foldl (TscCall.run th) h) ↔
      ∀ d ∈ (calls.foldl (TscCall.run th) h).domains,
        d.guestType = .hvm → d.vcpus ≠ [] → d.vtsc = false := by
  rw [List.foldl_append]
  generalize calls.foldl (TscCall.run th) h = h'
  show (∀ d ∈ h'.domains.map (setExitingUnlessVtsc false), d.guestType = .hvm →
    ∀ x ∈ d.vcpus, rdtscExiting x = d.vtsc) ↔ _
  simp only [List.forall_mem_map]
  refine forall₂_congr fun d _ => ?_
  by_cases ht : d.guestType = .hvm
  · rw [setExitingUnlessVtsc_hvm false ht]
    simp only [hvmSetRdtscExiting, ht, List.forall_mem_map, rdtscExiting_set, true_imp_iff]
    constructor
    · intro h hne
      obtain ⟨x, hx⟩ := List.exists_mem_of_ne_nil _ hne
      exact (h x hx).symm
    · intro h x hx
      exact (h (List.ne_nil_of_mem hx)).symm
  · simp [setExitingUnlessVtsc, ht]

def oneDomainHost : Host :=
  { domains := [plainDomain vmfuncConfig [plainVcpu 0#32]], m2p := fun _ => 0, eptpIdx := 0,
    eptpIdxLast := 0 }

def safeTscHost : TscHost :=
  { cpuKhz := 2000000, tscIsSafe := true, tscRatio := false, rdtscp := true }

/-- `do_disable_intercept_rdtsc` makes a domain with an emulated TSC read the TSC of the host. -/
theorem vtsc_domain_stops_exiting :
    ExitingAgrees ([TscCall.tscSetInfo 0 tscModeAlwaysEmulate 0 0].foldl
        (TscCall.run safeTscHost) oneDomainHost) ∧
      ¬ ExitingAgrees (([TscCall.tscSetInfo 0 tscModeAlwaysEmulate 0 0] ++
        [TscCall.disableInterceptRdtsc]).foldl (TscCall.run safeTscHost) oneDomainHost) := by
  decide +kernel

end XenVmi.Perception
