import Mathlib.Data.List.Nodup
import XenVmi.Lib.Census
import XenVmi.VmEvent.Ring

/-!
# Blocked vCPUs

`ved->blocked` is the number of vCPUs that carry the ring's bit, and each of them holds one pause
for it (`Waiters.Inv`). `vm_event_wake_blocked` goes once around the vCPUs, and stops when as many
vCPUs run as there are slots left.
-/

namespace XenVmi.VmEvent

open Function Lib List

variable {ρ : Type} {d : Domain} {w w' : Waiters} {others : ℕ → ℤ} {v : ℕ}

/-! ## Counting -/

def Waiters.flagged (d : Domain) (w : Waiters) : ℕ := d.vcpus.countP fun v => (w.vcpus v).pauseFlag

theorem Domain.mem_vcpus : v ∈ d.vcpus ↔ v < d.maxVcpus ∧ d.vcpu v = true := by
  rw [Domain.vcpus, mem_filter, mem_range]

theorem Domain.nodup_vcpus : d.vcpus.Nodup := List.Nodup.filter _ nodup_range

theorem Waiters.online_eq : w.online d = d.maxVcpus - w.flagged d := by
  have h : ∀ (l : List ℕ) (n : ℤ),
      l.foldl (fun n v => if (w.vcpus v).pauseFlag then n - 1 else n) n =
        n - (l.countP fun v => (w.vcpus v).pauseFlag : ℕ) := by
    intro l
    induction l with
    | nil => simp
    | cons v l ih =>
      intro n
      rw [foldl_cons, ih, countP_cons]
      split <;> omega
  exact h _ _

theorem Waiters.flagged_setVcpu (hv : v ∈ d.vcpus) (x : Vcpu) :
    (w.setVcpu v x).flagged d + (if (w.vcpus v).pauseFlag then 1 else 0) =
      w.flagged d + if x.pauseFlag then 1 else 0 :=
  countP_update Vcpu.pauseFlag Domain.nodup_vcpus hv x

variable {x : Vcpu} {others' : ℕ → ℤ} {availReq : ℕ}

theorem Waiters.flagged_setVcpu_same (hx : x.pauseFlag = (w.vcpus v).pauseFlag) :
    (w.setVcpu v x).flagged d = w.flagged d := by
  refine countP_congr fun u _ => ?_
  show (update w.vcpus v x u).pauseFlag = true ↔ _
  by_cases hu : u = v
  · rw [hu, update_self, hx]
  · rw [update_of_ne hu]

/-! ## The invariant -/

/-- A vCPU is paused by others, once if it sleeps on the wait queue, and once if it is blocked. -/
structure Waiters.Inv (d : Domain) (others : ℕ → ℤ) (w : Waiters) : Prop where
  blocked : w.blocked = w.flagged d
  present : ∀ v, (w.vcpus v).pauseFlag = true → v ∈ d.vcpus
  pauses : ∀ v, (w.vcpus v).pauseCount =
    others v + w.wq.count v + if (w.vcpus v).pauseFlag then 1 else 0

variable (inv : w.Inv d others)

include inv

theorem Waiters.Inv.set (hvcpus : w'.vcpus = update w.vcpus v x)
    (hblocked : w'.blocked = w.blocked + (if x.pauseFlag then 1 else 0) -
      if (w.vcpus v).pauseFlag then 1 else 0) (hpresent : x.pauseFlag = true → v ∈ d.vcpus)
    (helse : ∀ u ≠ v, others' u + (w'.wq.count u : ℤ) = others u + w.wq.count u)
    (hpauses : x.pauseCount = others' v + w'.wq.count v + if x.pauseFlag then 1 else 0) :
    w'.Inv d others' := by
  have hflagged : (w'.flagged d : ℤ) = w.flagged d + (if x.pauseFlag then 1 else 0) -
      if (w.vcpus v).pauseFlag then 1 else 0 := by
    have hsame : w'.flagged d = (w.setVcpu v x).flagged d := by
      rw [Waiters.flagged, hvcpus]
      rfl
    by_cases hv : v ∈ d.vcpus
    · have := Waiters.flagged_setVcpu (w := w) hv x
      grind
    · -- neither the old nor the new value carries the bit
      have hold : (w.vcpus v).pauseFlag = false := Bool.eq_false_iff.2 fun h => hv (inv.present v h)
      have hnew : x.pauseFlag = false := Bool.eq_false_iff.2 fun h => hv (hpresent h)
      rw [hsame, Waiters.flagged_setVcpu_same (hnew.trans hold.symm), hold, hnew]
      simp
  refine ⟨by rw [hblocked, hflagged, inv.blocked], fun u hu => ?_, fun u => ?_⟩
  · rw [hvcpus] at hu
    by_cases huv : u = v
    · subst huv
      rw [update_self] at hu
      exact hpresent hu
    · rw [update_of_ne huv] at hu
      exact inv.present u hu
  · rw [hvcpus]
    by_cases huv : u = v
    · subst huv
      rw [update_self]
      exact hpauses
    · rw [update_of_ne huv, inv.pauses u, helse u huv]

theorem Waiters.Inv.unblock (hv : (w.vcpus v).pauseFlag = true) : (w.unblock v).Inv d others := by
  have hpauses := inv.pauses v
  rw [hv, if_pos rfl] at hpauses
  refine inv.set (v := v) (x := ⟨false, (w.vcpus v).pauseCount - 1⟩) ?_ ?_
    nofun (fun u _ => rfl) ?_
  · simp [Waiters.unblock, Waiters.setFlag, Waiters.unpause, Waiters.setVcpu]
  · rw [hv]
    simp [Waiters.unblock]
  · simp only [Waiters.unblock, Waiters.setFlag, Waiters.unpause, Waiters.setVcpu]
    simp [hpauses]

theorem Waiters.Inv.markAndPause (hv : v ∈ d.vcpus) : (w.markAndPause v).Inv d others := by
  unfold Waiters.markAndPause
  split
  · exact inv
  rename_i hflag
  have hpauses := inv.pauses v
  rw [if_neg hflag] at hpauses
  refine inv.set (v := v) (x := ⟨true, (w.vcpus v).pauseCount + 1⟩) ?_ ?_ (fun _ => hv)
    (fun u _ => rfl) ?_
  · simp [Waiters.setFlag, Waiters.pause, Waiters.setVcpu]
  · simp [hflag]
  · simp only [Waiters.setFlag, Waiters.pause, Waiters.setVcpu]
    simp [hpauses]

theorem Waiters.Inv.pauseBy {n : ℤ}
    (hvcpus : w'.vcpus = update w.vcpus v
      { w.vcpus v with pauseCount := (w.vcpus v).pauseCount + n })
    (hblocked : w'.blocked = w.blocked)
    (helse : ∀ u ≠ v, others' u + (w'.wq.count u : ℤ) = others u + w.wq.count u)
    (hv : others' v + (w'.wq.count v : ℤ) = others v + w.wq.count v + n) : w'.Inv d others' := by
  refine inv.set hvcpus (by rw [hblocked]; exact (add_sub_cancel_right _ _).symm) (inv.present v)
    helse ?_
  show (w.vcpus v).pauseCount + n =
    others' v + w'.wq.count v + if (w.vcpus v).pauseFlag then 1 else 0
  rw [inv.pauses v, hv]
  omega

theorem Waiters.Inv.pause : (w.pause v).Inv d (update others v (others v + 1)) := by
  refine inv.pauseBy (v := v) (n := 1) rfl rfl (fun u hu => ?_) ?_
  · rw [update_of_ne hu]
    rfl
  · rw [update_self]
    exact Int.add_right_comm _ _ _

theorem Waiters.Inv.unpause : (w.unpause v).Inv d (update others v (others v - 1)) := by
  refine inv.pauseBy (v := v) (n := -1) rfl rfl (fun u hu => ?_) ?_
  · rw [update_of_ne hu]
    rfl
  · rw [update_self]
    exact Int.add_right_comm _ _ _

theorem Waiters.Inv.prepareToWait : (w.prepareToWait v).Inv d others := by
  refine inv.pauseBy (v := v) (n := 1) rfl rfl (fun u hu => ?_) ?_
  · simp [Waiters.prepareToWait, Waiters.pause, Waiters.setVcpu, hu.symm]
  · simp [Waiters.prepareToWait, Waiters.pause, Waiters.setVcpu, ← Int.add_assoc]

theorem Waiters.Inv.finishWait : (w.finishWait v).Inv d others := by
  unfold Waiters.finishWait
  split
  · rename_i hmem
    have hpos : 0 < w.wq.count v := count_pos_iff.2 hmem
    refine inv.pauseBy (v := v) (n := -1) rfl rfl (fun u hu => ?_) ?_
    · simp [Waiters.unpause, Waiters.setVcpu, count_erase_of_ne hu]
    · simp only [Waiters.unpause, Waiters.setVcpu, count_erase_self]
      omega
  · exact inv

theorem Waiters.Inv.wakeUpNr {nr : ℕ} : (wakeUpNr nr w).Inv d others := by
  induction nr generalizing w with
  | zero => exact inv
  | succ nr ih =>
    rw [VmEvent.wakeUpNr]
    split
    · exact inv
    · rename_i u rest hwq
      refine ih (inv.pauseBy (v := u) (n := -1) rfl rfl (fun x hx => ?_) ?_)
      · simp [Waiters.unpause, Waiters.setVcpu, hwq, hx.symm]
      · simp only [Waiters.unpause, Waiters.setVcpu, hwq, count_cons_self]
        omega

omit inv

/-! ## The loop of `vm_event_wake_blocked` -/

/-- A call only lets vCPUs go, and only while fewer of them run than there are slots left. -/
structure Woken (d : Domain) (others : ℕ → ℤ) (availReq : ℕ) (w w' : Waiters) : Prop where
  inv : w'.Inv d others
  le : w'.blocked ≤ w.blocked
  bound : w'.blocked ≠ w.blocked → d.maxVcpus - w'.blocked ≤ availReq
  flags : ∀ v, (w'.vcpus v).pauseFlag = true → (w.vcpus v).pauseFlag = true

theorem Woken.refl (inv : w.Inv d others) : Woken d others availReq w w :=
  ⟨inv, le_refl _, fun h => absurd rfl h, fun _ hv => hv⟩

theorem Waiters.wakeUp_blocked : (w.wakeUp v).blocked = w.blocked - 1 := rfl

theorem Waiters.wakeUp_online :
    (d.maxVcpus : ℤ) - w.blocked + 1 = d.maxVcpus - (w.wakeUp v).blocked := by
  rw [Waiters.wakeUp_blocked]
  omega

theorem Waiters.wakeUp_flag {u : ℕ} :
    ((w.wakeUp v).vcpus u).pauseFlag = if u = v then false else (w.vcpus u).pauseFlag := by
  by_cases hu : u = v <;>
    simp [Waiters.wakeUp, Waiters.unblock, Waiters.unpause, Waiters.setFlag, Waiters.setVcpu, hu]

theorem Waiters.Inv.wakeUp (inv : w.Inv d others) (hv : (w.vcpus v).pauseFlag = true) :
    (w.wakeUp v).Inv d others :=
  have hinv := inv.unblock hv
  ⟨hinv.blocked, hinv.present, hinv.pauses⟩

theorem Woken.wakeUp (hflag : (w.vcpus v).pauseFlag = true)
    (hroom : d.maxVcpus - w.blocked < availReq) (h : Woken d others availReq (w.wakeUp v) w') :
    Woken d others availReq w w' := by
  have hle := h.le
  rw [Waiters.wakeUp_blocked] at hle
  refine ⟨h.inv, by omega, fun _ => ?_, fun u hu => ?_⟩
  · by_cases hsame : w'.blocked = w.blocked - 1
    · omega
    · exact h.bound hsame
  · have := h.flags u hu
    rw [Waiters.wakeUp_flag] at this
    split at this
    · rename_i huv
      rw [huv]
      exact hflag
    · exact this

theorem wakeLoop_spec (availReq n i : ℕ) (inv : w.Inv d others) :
    Woken d others availReq w (wakeLoop d availReq n i (d.maxVcpus - w.blocked) w) := by
  induction n generalizing w i with
  | zero => exact .refl inv
  | succ n ih =>
    rw [wakeLoop]
    split
    · exact ih _ inv
    split
    · exact .refl inv
    rename_i hgo
    split
    · rename_i hflag
      rw [not_or, not_le] at hgo
      refine Woken.wakeUp hflag hgo.2 ?_
      rw [Waiters.wakeUp_online]
      exact ih _ (inv.wakeUp hflag)
    · exact ih _ inv

theorem wakeLoop_progress {availReq n i : ℕ} (inv : w.Inv d others)
    (hroom : d.maxVcpus - w.blocked < availReq)
    (hmeets : ∃ j < n, (w.vcpus ((i + j) % d.maxVcpus)).pauseFlag = true) :
    (wakeLoop d availReq n i (d.maxVcpus - w.blocked) w).blocked < w.blocked := by
  induction n generalizing i with
  | zero =>
    obtain ⟨j, hj, -⟩ := hmeets
    omega
  | succ n ih =>
    obtain ⟨j, hj, hflag⟩ := hmeets
    have hpos : 0 < w.blocked := by
      rw [inv.blocked]
      exact_mod_cast countP_pos_iff.2 ⟨_, inv.present _ hflag, hflag⟩
    -- unless this is the round that meets it, it is still ahead
    have hrest : (w.vcpus (i % d.maxVcpus)).pauseFlag = false →
        ∃ j < n, (w.vcpus ((i + 1 + j) % d.maxVcpus)).pauseFlag = true := by
      intro hnot
      cases j with
      | zero =>
        rw [Nat.add_zero, hnot] at hflag
        cases hflag
      | succ j => exact ⟨j, by omega, by rwa [Nat.add_assoc, Nat.add_comm 1 j]⟩
    rw [wakeLoop]
    split
    · rename_i habsent
      refine ih (hrest (Bool.eq_false_iff.2 fun h => ?_))
      rw [(Domain.mem_vcpus.1 (inv.present _ h)).2] at habsent
      cases habsent
    rw [if_neg (by omega)]
    split
    · rename_i hnow
      have hle := (wakeLoop_spec availReq n (i + 1) (inv.wakeUp hnow)).le
      rw [Waiters.wakeUp_blocked] at hle
      rw [Waiters.wakeUp_online (v := i % d.maxVcpus), Waiters.wakeUp_blocked]
      omega
    · rename_i hnot
      exact ih (hrest (Bool.eq_false_iff.2 hnot))

theorem exists_add_mod {m : ℕ} (i : ℕ) (hv : v < m) : ∃ j < m, (i + j) % m = v := by
  have hi := Nat.mod_lt i (Nat.zero_lt_of_lt hv)
  rcases Nat.lt_or_ge v (i % m) with hlt | hge
  · refine ⟨m + v - i % m, by omega, ?_⟩
    rw [Nat.add_mod, Nat.mod_eq_of_lt (a := m + v - i % m) (by omega),
      show i % m + (m + v - i % m) = v + m by omega, Nat.add_mod_right, Nat.mod_eq_of_lt hv]
  · refine ⟨v - i % m, by omega, ?_⟩
    rw [Nat.add_mod, Nat.mod_eq_of_lt (a := v - i % m) (by omega),
      show i % m + (v - i % m) = v by omega, Nat.mod_eq_of_lt hv]

/-! ## `vm_event_wake_blocked` and its callers -/

variable {slots : Slots ρ} (inv : w.Inv d others)

include inv

theorem Waiters.Inv.online : w.online d = d.maxVcpus - w.blocked := by
  rw [Waiters.online_eq, inv.blocked]

theorem wakeBlocked_eq (havail : slots.ringAvailable = .ok availReq) :
    wakeBlocked d slots w = .ok (if availReq = 0 ∨ w.blocked = 0 then w
      else wakeLoop d availReq d.maxVcpus (w.lastVcpuWakeUp + 1) (d.maxVcpus - w.blocked) w) := by
  rw [wakeBlocked, havail, ok_bind, inv.online, if_neg (not_not.2 rfl)]
  split <;> rfl

theorem wakeBlocked_spec
    (havail : slots.ringAvailable = .ok availReq) (h : wakeBlocked d slots w = .ok w') :
    Woken d others availReq w w' := by
  rw [wakeBlocked_eq inv havail, Except.ok.injEq] at h
  subst h
  split
  · exact .refl inv
  · exact wakeLoop_spec _ _ _ inv

theorem wakeBlocked_progress (havail : slots.ringAvailable = .ok availReq) (hpos : 0 < w.blocked)
    (hroom : d.maxVcpus - w.blocked < availReq) (h : wakeBlocked d slots w = .ok w') :
    w'.blocked < w.blocked := by
  have hle : w.blocked ≤ d.maxVcpus := by
    rw [inv.blocked]
    exact_mod_cast countP_le_length.trans
      ((length_filter_le _ _).trans_eq length_range)
  rw [wakeBlocked_eq inv havail, if_neg (by omega), Except.ok.injEq] at h
  subst h
  refine wakeLoop_progress inv hroom ?_
  rw [inv.blocked, Int.natCast_pos, Waiters.flagged, countP_pos_iff] at hpos
  obtain ⟨v, hv, hflag⟩ := hpos
  obtain ⟨j, hj, heq⟩ := exists_add_mod (w.lastVcpuWakeUp + 1) (Domain.mem_vcpus.1 hv).1
  exact ⟨j, hj, by rwa [heq]⟩

omit inv

/-- The check of `vm_event_wake_blocked` is not what failed. -/
def CountsRight (b : Bug) : Prop := b ≠ .onlineMismatch

theorem ringAvailable_ensures (slots : Slots ρ) :
    Ensures CountsRight slots.ringAvailable fun _ => True := by
  unfold Slots.ringAvailable
  dsimp only
  split
  · exact nofun
  · trivial

theorem wake_ensures (inv : w.Inv d others) :
    Ensures CountsRight (wake d slots w) fun w' => w'.Inv d others := by
  have havail := ringAvailable_ensures slots
  unfold wake
  split
  · exact havail.bind fun _ _ => .pure inv.wakeUpNr
  cases h : slots.ringAvailable with
  | error e =>
    rw [h] at havail
    rw [wakeBlocked, h]
    exact havail
  | ok availReq =>
    rw [wakeBlocked_eq inv h]
    split
    · exact inv
    · exact (wakeLoop_spec _ _ _ inv).inv

/-! ## Steps and runs -/

variable {s s' : System ρ} {st st' : State ρ} {c : Caller}

theorem releaseSlot_ensures (st : State ρ) (inv : st.waiters.Inv d others) :
    Ensures CountsRight (st.releaseSlot d c) fun st' => st'.waiters.Inv d others :=
  (wake_ensures inv).bind fun _ h => .pure h

theorem putRequest_ensures {req : Event ρ} (inv : st.waiters.Inv d others) (hc : c.Present d) :
    Ensures CountsRight (st.putRequest d c req) fun st' => st'.waiters.Inv d others := by
  unfold State.putRequest
  split
  · exact nofun
  refine (releaseSlot_ensures { st with slots := st.slots.push (req.complete c) } inv).bind
    fun st' inv' => ?_
  refine (ringAvailable_ensures st'.slots).bind fun availReq _ => .pure ?_
  unfold State.blackEye
  split
  · split
    · exact inv'.markAndPause (Domain.mem_vcpus.2 hc)
    · exact inv'
  · exact inv'

theorem getResponse_ensures (inv : st.waiters.Inv d others) :
    Ensures CountsRight (st.getResponse d) fun r => r.2.waiters.Inv d others := by
  unfold State.getResponse
  split
  · exact inv
  · exact (wake_ensures inv).bind fun _ h => .pure h

theorem claim_ensures (inv : s.state.waiters.Inv d s.others) :
    Ensures CountsRight (s.claim c) fun s' => s'.state.waiters.Inv d s'.others := by
  have hgrab : Ensures CountsRight (s.state.grabSlot c) fun r =>
      ∀ st, r = .ok st → st.waiters = s.state.waiters := by
    unfold State.grabSlot
    split
    · exact .ok nofun
    refine (ringAvailable_ensures _).bind fun availReq _ => .pure fun st h => ?_
    split at h <;> cases h
    rfl
  refine hgrab.bind fun r hr => ?_
  cases r with
  | error e => exact inv
  | ok st =>
    show st.waiters.Inv d s.others
    rwa [hr st rfl]

theorem disable_inv (inv : st.waiters.Inv d others) (h : st.disable d = .ok st') :
    st'.waiters.Inv d others := by
  unfold State.disable at h
  split at h
  · cases h
    exact inv
  split at h
  · cases h
  cases h
  refine foldl_invariant (fun w : Waiters => w.Inv d others) (fun w v _ hw => ?_) inv
  split
  · rename_i hflag
    exact hw.unblock hflag
  · exact hw

def Users (d : Domain) (_ : System ρ) : Action ρ → Prop
  | .claim c | .put c _ | .cancel c => c.Present d
  | _ => True

theorem step_ensures {a : Action ρ} (ha : Users d s a) (inv : s.state.waiters.Inv d s.others) :
    Ensures CountsRight (step d s a) fun s' => s'.state.waiters.Inv d s'.others := by
  cases a with
  | claim c => exact claim_ensures inv
  | put c req => exact (putRequest_ensures inv ha).bind fun _ h => .pure h
  | cancel c => exact (releaseSlot_ensures s.state inv).bind fun _ h => .pure h
  | getResponse => exact (getResponse_ensures inv).bind fun _ h => .pure h
  | disable =>
    rw [step]
    split
    · rename_i st h
      exact disable_inv inv h
    · exact inv
  | prepareToWait v => exact inv.prepareToWait
  | finishWait v => exact inv.finishWait
  | take | answer | publish => exact inv
  | pause v => exact inv.pause
  | unpause v => exact inv.unpause

theorem enabled_inv (entry : Entry ρ) (others : ℕ → ℤ) :
    (System.enabled entry others).state.waiters.Inv d others where
  blocked := by
    show (0 : ℤ) = _
    rw [Waiters.flagged, countP_eq_zero.2 fun v _ h => by cases h]
    rfl
  present v h := by cases h
  pauses v := by
    show others v = others v + 0 + 0
    omega

theorem run_inv {entry : Entry ρ} (run : Reaches (step d) (Users d) (.enabled entry others) s) :
    s.state.waiters.Inv d s.others :=
  run.invariant (P := fun s => s.state.waiters.Inv d s.others)
    (fun _ _ _ ha hs inv => (step_ensures ha inv).of_ok hs) (enabled_inv entry others)

theorem getResponse_progress {rsp : Entry ρ} (inv : st.waiters.Inv d others)
    (hwq : st.waiters.wq = []) (hpos : 0 < st.waiters.blocked)
    (h : st.getResponse d = .ok (some rsp, st')) (havail : st'.slots.ringAvailable = .ok availReq)
    (hroom : d.maxVcpus - st.waiters.blocked < availReq) :
    ∃ v, (st.waiters.vcpus v).pauseFlag = true ∧ (st'.waiters.vcpus v).pauseFlag = false := by
  unfold State.getResponse at h
  split at h
  · cases h
  obtain ⟨w', hw, h⟩ := exists_ok_of_bind h
  cases h
  rw [wake, if_neg (not_not.2 hwq)] at hw
  have hless := wakeBlocked_progress inv havail hpos hroom hw
  have inv' := (wakeBlocked_spec inv havail hw).inv
  by_contra hnone
  push Not at hnone
  -- if all bits were still set, the count would be what it was
  have hle : st.waiters.flagged d ≤ w'.flagged d :=
    countP_mono_left fun v _ hv => Bool.not_eq_false _ ▸ hnone v hv
  rw [inv.blocked, inv'.blocked] at hless
  omega

/-- **No vCPU is forgotten.** `blocked` is the number of vCPUs that carry the ring's bit, each
paused once for it; `vm_event_wake_blocked` lets vCPUs go only while fewer run than there are slots
left, and if there is room, one goes. -/
theorem vcpus_not_forgotten {entry : Entry ρ}
    (run : Reaches (step d) (Users d) (.enabled entry others) s) :
    s.state.waiters.blocked = s.state.waiters.flagged d ∧
      (∀ v, (s.state.waiters.vcpus v).pauseFlag = true → v ∈ d.vcpus) ∧
      (∀ v, (s.state.waiters.vcpus v).pauseCount = s.others v + s.state.waiters.wq.count v +
        if (s.state.waiters.vcpus v).pauseFlag then 1 else 0) ∧
      (∀ a, Users d s a → step d s a ≠ .error .onlineMismatch) ∧
      (∀ (slots : Slots ρ) w', wakeBlocked d slots s.state.waiters = .ok w' →
        (∀ v, (w'.vcpus v).pauseFlag = true → (s.state.waiters.vcpus v).pauseFlag = true) ∧
        (w'.blocked ≠ s.state.waiters.blocked →
          ∃ availReq, slots.ringAvailable = .ok availReq ∧ d.maxVcpus - w'.blocked ≤ availReq)) ∧
      ∀ rsp st' availReq, s.state.waiters.wq = [] → 0 < s.state.waiters.blocked →
        s.state.getResponse d = .ok (some rsp, st') → st'.slots.ringAvailable = .ok availReq →
        d.maxVcpus - s.state.waiters.blocked < availReq →
        ∃ v, (s.state.waiters.vcpus v).pauseFlag = true ∧
          (st'.waiters.vcpus v).pauseFlag = false := by
  have inv := run_inv run
  refine ⟨inv.blocked, inv.present, inv.pauses, fun a ha h => ?_, fun slots w' h => ?_,
    fun rsp st' availReq hwq hpos h havail hroom =>
      getResponse_progress inv hwq hpos h havail hroom⟩
  · exact (step_ensures ha inv).of_error h rfl
  · obtain ⟨availReq, havail, -⟩ := exists_ok_of_bind h
    have hw := wakeBlocked_spec inv havail h
    exact ⟨hw.flags, fun hne => ⟨availReq, havail, hw.bound hne⟩⟩

def eightVcpus : Domain := ⟨8, fun _ => true⟩

def emptyEvent : Event Unit := ⟨0, 0, ()⟩

def answered : List (Action Unit) :=
  [.claim (.target 0), .put (.target 0) emptyEvent, .take, .answer emptyEvent, .publish]

theorem vcpus_not_forgotten_answered :
    ∃ s : System Unit, Reaches (step eightVcpus) (Users eightVcpus)
        (.enabled (.req emptyEvent) fun _ => 0) s ∧
      s.state.waiters.blocked = 1 ∧ s.state.waiters.flagged eightVcpus = 1 ∧
      ∃ rsp st', s.state.getResponse eightVcpus = .ok (some rsp, st') ∧
        ∃ v, (s.state.waiters.vcpus v).pauseFlag = true ∧
          (st'.waiters.vcpus v).pauseFlag = false := by
  obtain ⟨s, run, hblocked, hwq, ⟨o, st'⟩, hget, hsome, _, havail, rfl⟩ :
      ∃ s : System Unit, Reaches (step eightVcpus) (Users eightVcpus)
          (.enabled (.req emptyEvent) fun _ => 0) s ∧
        s.state.waiters.blocked = 1 ∧ s.state.waiters.wq = [] ∧
        ∃ r, s.state.getResponse eightVcpus = .ok r ∧ r.1.isSome = true ∧
          ∃ n, r.2.slots.ringAvailable = .ok n ∧ n = 8 :=
    Reaches.exists_of_foldlM (l := answered)
      (by simp [answered, Users, Caller.Present, eightVcpus]) (by decide)
  obtain ⟨rsp, rfl⟩ := Option.isSome_iff_exists.1 hsome
  obtain ⟨hcount, -, -, -, -, hprogress⟩ := vcpus_not_forgotten run
  refine ⟨s, run, hblocked, ?_, rsp, st', hget, ?_⟩
  · rw [hblocked] at hcount
    exact_mod_cast hcount.symm
  · refine hprogress rsp st' 8 hwq (by rw [hblocked]; decide) hget havail ?_
    rw [hblocked]
    decide

end XenVmi.VmEvent
