import Mathlib.Data.List.Basic

/-!
# The guest time of a vCPU

Model of `hvm_get_guest_time` and of what rewrites it (`arch/x86/hvm/vpt.c:42-80`, `160-218`,
`317-374`).

Times are integers: the wrap-around of 64 bits is left out. The value of `get_s_time()` is an
argument of each call and may go back. Timers, pending ticks and locks do not bear on the guest
time.
-/

namespace XenVmi.GuestTime

open Function

/-- `HVMPTM_*` -/
inductive TimerMode where
  | delayForMissedTicks
  | noDelayForMissedTicks
  | noMissedTicksPending
  | oneMissedTickPending
  deriving Repr, DecidableEq

structure VcpuTime where
  stimeOffset : Int
  /-- the time at which it was frozen, or 0 -/
  guestTime : Int

structure PeriodicTime where
  oneShot : Bool
  period : Int
  lastPltGtime : Int

structure Domain where
  mode : TimerMode
  /-- `pl_time.stime_offset` -/
  stimeOffset : Int
  /-- `pl_time.last_guest_time` -/
  lastGuestTime : Int
  vcpu : Nat → VcpuTime
  pt : Nat → PeriodicTime

namespace Domain

variable (d : Domain) (v : Nat) (stime : Int)

def setVcpu (t : VcpuTime) : Domain := { d with vcpu := update d.vcpu v t }

/-- `hvm_get_guest_time_fixed` -/
def hvmGetGuestTimeFixed (atTsc : Bool) : Int × Domain :=
  let now := stime + d.stimeOffset
  if atTsc then (now + (d.vcpu v).stimeOffset, d)
  else
    let last := if d.lastGuestTime < now then now else d.lastGuestTime + 1
    (last + (d.vcpu v).stimeOffset, { d with lastGuestTime := last })

def hvmGetGuestTime : Int × Domain := d.hvmGetGuestTimeFixed v stime false

def hvmSetGuestTime (guestTime : Int) : Domain :=
  let r := d.hvmGetGuestTime v stime
  let t := r.2.vcpu v
  r.2.setVcpu v { t with stimeOffset := t.stimeOffset + (guestTime - r.1) }

def ptFreezeTime : Domain :=
  if d.mode ≠ .delayForMissedTicks then d
  else
    let r := d.hvmGetGuestTime v stime
    r.2.setVcpu v { r.2.vcpu v with guestTime := r.1 }

def ptThawTime : Domain :=
  if d.mode ≠ .delayForMissedTicks then d
  else if (d.vcpu v).guestTime = 0 then d
  else
    let d := d.hvmSetGuestTime v stime (d.vcpu v).guestTime
    d.setVcpu v { d.vcpu v with guestTime := 0 }

def ptSaveTimer (blocked : Bool) : Domain := if blocked then d else d.ptFreezeTime v stime

def ptRestoreTimer : Domain := d.ptThawTime v stime

/-- The ticks of `pt_intr_post`: where the platform timer stands now. -/
def ptTicks (k : Nat) : Domain :=
  let p := d.pt k
  if p.oneShot then d
  else if d.mode = .oneMissedTickPending ∨ d.mode = .noMissedTicksPending then
    let r := d.hvmGetGuestTime v stime
    { r.2 with pt := update r.2.pt k { p with lastPltGtime := r.1 } }
  else { d with pt := update d.pt k { p with lastPltGtime := p.lastPltGtime + p.period } }

/-- `pt_intr_post`, with what `is_pt_irq` finds and the values of three calls of `get_s_time()`. -/
def ptIntrPost (found : Option Nat) (stimes : Int × Int × Int) : Domain :=
  match found with
  | none => d
  | some k =>
    let d := d.ptTicks v stimes.1 k
    if d.mode = .delayForMissedTicks then
      let r := d.hvmGetGuestTime v stimes.2.1
      if r.1 < (r.2.pt k).lastPltGtime then r.2.hvmSetGuestTime v stimes.2.2 (r.2.pt k).lastPltGtime
      else r.2
    else d

end Domain

/-! ## Runs -/

inductive Action where
  /-- `hvm_get_guest_time(v)`, called for `v` itself or for a platform timer of another vCPU -/
  | read (v : Nat) (stime : Int)
  | save (v : Nat) (stime : Int) (blocked : Bool)
  | restore (v : Nat) (stime : Int)
  | intrPost (v : Nat) (found : Option Nat) (stimes : Int × Int × Int)

/-- A domain, and the reads so far, in order. -/
structure Run where
  dom : Domain
  reads : List (Nat × Int)

def Run.step (r : Run) : Action → Run
  | .read v stime =>
    let x := r.dom.hvmGetGuestTime v stime
    ⟨x.2, r.reads ++ [(v, x.1)]⟩
  | .save v stime blocked => { r with dom := r.dom.ptSaveTimer v stime blocked }
  | .restore v stime => { r with dom := r.dom.ptRestoreTimer v stime }
  | .intrPost v found stimes => { r with dom := r.dom.ptIntrPost v found stimes }

/-- The time of the vCPU is frozen: `pt_thaw_time` will go back to it. -/
def Domain.Frozen (d : Domain) (v : Nat) : Prop :=
  d.mode = .delayForMissedTicks ∧ (d.vcpu v).guestTime ≠ 0

/-- Each action is admitted by the state it finds: nobody reads a time that is frozen. -/
def Run.Admits (r : Run) : List Action → Prop
  | [] => True
  | a :: as => (∀ v stime, a = .read v stime → ¬ r.dom.Frozen v) ∧ (r.step a).Admits as

/-- Reads of one vCPU, each later than those before. -/
def Ascending (reads : List (Nat × Int)) : Prop := reads.Pairwise fun a b => a.1 = b.1 → a.2 < b.2

/-! ## What has been read lies behind -/

/-- `x` is not ahead of the time of `v`, nor of the time to which `v` will be set back. -/
structure Domain.Past (d : Domain) (v : Nat) (x : Int) : Prop where
  now : x ≤ d.lastGuestTime + (d.vcpu v).stimeOffset
  frozen : d.Frozen v → x ≤ (d.vcpu v).guestTime

section Past

variable {d : Domain} {v : Nat} {x : Int} (w : Nat) (stime : Int)

theorem lt_hvmGetGuestTime (h : d.Past v x) : x < (d.hvmGetGuestTime v stime).1 := by
  have := h.now
  simp only [Domain.hvmGetGuestTime, Domain.hvmGetGuestTimeFixed, Bool.false_eq_true, if_false]
  split <;> omega

theorem Domain.Past.get (h : d.Past v x) : (d.hvmGetGuestTime w stime).2.Past v x := by
  have := h.now
  refine ⟨?_, h.frozen⟩
  simp only [Domain.hvmGetGuestTime, Domain.hvmGetGuestTimeFixed, Bool.false_eq_true, if_false]
  split <;> omega

theorem Domain.Past.setVcpu {w : Nat} (h : d.Past v x) {t : VcpuTime}
    (hnow : v = w → x ≤ d.lastGuestTime + t.stimeOffset)
    (hfrozen : v = w → d.mode = .delayForMissedTicks → t.guestTime ≠ 0 → x ≤ t.guestTime) :
    (d.setVcpu w t).Past v x := by
  by_cases hv : v = w
  · subst hv
    refine ⟨?_, fun hf => ?_⟩
    · simpa [Domain.setVcpu] using hnow rfl
    · simp only [Domain.Frozen, Domain.setVcpu, update_self] at hf ⊢
      exact hfrozen rfl hf.1 hf.2
  · refine ⟨?_, fun hf => ?_⟩
    · simpa [Domain.setVcpu, hv] using h.now
    · simp only [Domain.Frozen, Domain.setVcpu, update_of_ne hv] at hf ⊢
      exact h.frozen hf

theorem get_fst : (d.hvmGetGuestTime w stime).1 =
    (d.hvmGetGuestTime w stime).2.lastGuestTime +
    ((d.hvmGetGuestTime w stime).2.vcpu w).stimeOffset := by
  simp [Domain.hvmGetGuestTime, Domain.hvmGetGuestTimeFixed]

variable (h : d.Past v x)

include h

theorem Domain.Past.set {g : Int} (hg : v = w → x ≤ g) :
    (d.hvmSetGuestTime w stime g).Past v x := by
  refine (h.get w stime).setVcpu (fun hv => ?_) fun hv hm hz => ?_
  · have := get_fst (d := d) w stime
    dsimp only
    omega
  · subst hv
    exact (h.get v stime).frozen ⟨hm, hz⟩

theorem Domain.Past.freeze : (d.ptFreezeTime w stime).Past v x := by
  unfold Domain.ptFreezeTime
  split
  · exact h
  · refine (h.get w stime).setVcpu (fun hv => ?_) fun hv _ _ => ?_
    · subst hv
      exact (h.get v stime).now
    · subst hv
      exact Int.le_of_lt (lt_hvmGetGuestTime stime h)

theorem Domain.Past.thaw : (d.ptThawTime w stime).Past v x := by
  unfold Domain.ptThawTime
  split
  case isTrue => exact h
  case isFalse hm =>
    split
    case isTrue => exact h
    case isFalse hz =>
      have hset : (d.hvmSetGuestTime w stime (d.vcpu w).guestTime).Past v x :=
        h.set w stime fun hv => by
        subst hv
        exact h.frozen ⟨not_not.1 hm, hz⟩
      refine hset.setVcpu (fun hv => ?_) fun _ _ h0 => absurd rfl h0
      subst hv
      exact hset.now

theorem Domain.Past.setPt (pt : Nat → PeriodicTime) :
    ({ d with pt := pt } : Domain).Past v x := ⟨h.now, h.frozen⟩

theorem Domain.Past.ticks (k : Nat) : (d.ptTicks w stime k).Past v x := by
  unfold Domain.ptTicks
  dsimp only
  split
  · exact h
  split
  · exact (h.get w stime).setPt _
  · exact h.setPt _

theorem Domain.Past.intrPost (found : Option Nat) (stimes : Int × Int × Int) :
    (d.ptIntrPost w found stimes).Past v x := by
  unfold Domain.ptIntrPost
  cases found with
  | none => exact h
  | some k =>
    have ht := h.ticks w stimes.1 k
    dsimp only
    split
    · split
      case isTrue hlt =>
        -- the time is set to one that is ahead of a time read just now
        refine (ht.get w stimes.2.1).set w stimes.2.2 fun hv => ?_
        subst hv
        exact Int.le_of_lt (Int.lt_trans (lt_hvmGetGuestTime stimes.2.1 ht) hlt)
      case isFalse => exact ht.get w stimes.2.1
    · exact ht

end Past

/-- What the reads so far say about the state. -/
structure Run.Inv (r : Run) : Prop where
  ascending : Ascending r.reads
  past : ∀ p ∈ r.reads, r.dom.Past p.1 p.2

theorem Run.Inv.step {r : Run} (inv : r.Inv) {a : Action}
    (ha : ∀ v stime, a = .read v stime → ¬ r.dom.Frozen v) : (r.step a).Inv := by
  cases a with
  | read v stime =>
    refine ⟨List.pairwise_append.2 ⟨inv.ascending, List.pairwise_singleton _ _, ?_⟩, ?_⟩
    · intro p hp q hq hv
      obtain rfl := List.mem_singleton.1 hq
      have hpast := inv.past p hp
      rw [hv] at hpast
      exact lt_hvmGetGuestTime stime hpast
    · intro p hp
      rcases List.mem_append.1 hp with hp | hp
      · exact (inv.past p hp).get v stime
      · obtain rfl := List.mem_singleton.1 hp
        exact ⟨Int.le_of_eq (get_fst v stime), fun hf => absurd hf (ha v stime rfl)⟩
  | save v stime blocked =>
    refine ⟨inv.ascending, fun p hp => ?_⟩
    cases blocked
    · exact (inv.past p hp).freeze v stime
    · exact inv.past p hp
  | restore v stime => exact ⟨inv.ascending, fun p hp => (inv.past p hp).thaw v stime⟩
  | intrPost v found stimes =>
    exact ⟨inv.ascending, fun p hp => (inv.past p hp).intrPost v found stimes⟩

theorem Run.Inv.run {r : Run} (inv : r.Inv) {as : List Action} (h : r.Admits as) :
    (as.foldl Run.step r).Inv := by
  induction as generalizing r with
  | nil => exact inv
  | cons a as ih => exact ih (inv.step h.1) h.2

/-- **Guest time never runs backwards** in a run in which no frozen time is read. -/
theorem guest_time_ascends (d : Domain) (as : List Action) (h : (Run.mk d []).Admits as) :
    Ascending (as.foldl Run.step ⟨d, []⟩).reads :=
  have inv : (Run.mk d []).Inv := ⟨List.Pairwise.nil, nofun⟩
  (inv.run h).ascending

/-- A domain in the mode `delay_for_missed_ticks`. -/
def delaying : Domain where
  mode := .delayForMissedTicks
  stimeOffset := 0
  lastGuestTime := 0
  vcpu := fun _ => ⟨0, 0⟩
  pt := fun _ => ⟨false, 10, 0⟩

theorem guest_time_ascends_restored :
    let as := [.read 0 50, .save 0 100 false, .read 1 200, .restore 0 300, .read 0 301]
    (as.foldl Run.step ⟨delaying, []⟩).reads = [(0, 50), (1, 200), (0, 101)] ∧
      Ascending (as.foldl Run.step ⟨delaying, []⟩).reads :=
  ⟨by decide, guest_time_ascends delaying _ (by
    simp [Run.Admits, Run.step, Domain.Frozen, Domain.ptSaveTimer, Domain.ptFreezeTime,
      Domain.ptRestoreTimer, Domain.ptThawTime, Domain.hvmSetGuestTime, Domain.hvmGetGuestTime,
      Domain.hvmGetGuestTimeFixed, Domain.setVcpu, delaying])⟩

/-- vCPU 1 reads the platform timer of vCPU 0 while that one is descheduled. -/
theorem frozen_time_read :
    ([Action.save 0 100 false, .read 0 200, .restore 0 300, .read 0 301].foldl Run.step
      ⟨delaying, []⟩).reads = [(0, 200), (0, 101)] := by
  decide

end XenVmi.GuestTime
