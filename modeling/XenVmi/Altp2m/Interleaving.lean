import XenVmi.Altp2m.Synced

/-!
# Turning altp2m on and off while the vCPUs run

`HVMOP_altp2m_set_domain_state` (`hvm/hvm.c:6361-6395`) pauses one vCPU at a time, so it is cut into
steps: `startSetState`, and `proceed` at the place that the `Pc` says. Between two steps other vCPUs
exit for an EPT violation or a `vcpu_enable_notify`.

The flag is up long before a vCPU is initialised: one that exits in between finds the index of the
last disable, `INVALID_ALTP2M`, and so no view.
-/

namespace XenVmi.Altp2m

open XenVmi.Ept XenVmi.Lib List

/-! ## The hypercall in steps -/

/-- What `HVMOP_altp2m_set_domain_state` does next. -/
inductive Pc where
  | initView
  /-- The loop test for vCPU `v`, and `altp2m_vcpu_initialise`. -/
  | initialise (v : Nat)
  | destroy (v : Nat)
  deriving Repr, DecidableEq

/-- The tests of `HVMOP_altp2m_set_domain_state`, and the write of `altp2m_active`. -/
def startSetState (d : Domain) (c : Call) (a : Altp2mOp) : Domain × Option Pc :=
  if d.guestType ≠ .hvm ∨ c.xsm ≠ 0 ∨ d.hvmParamAltp2m = 0 ∨ d.nestedhvm = true then (d, none)
  else
    let ostate := d.altp2mActive
    let d := { d with altp2mActive := decide (a.state ≠ 0) }
    if d.altp2mActive = ostate then (d, none)
    else if ostate then (d, some (.destroy 0))
    else (d, some .initView)

def proceed (cfg : Config) (d : Domain) : Pc → Except Fault (Domain × Option Pc)
  | .initView =>
    let r := p2mInitAltp2mById d 0
    .ok (r.2, if r.1 ≠ 0 then none else some (.initialise 0))
  | .initialise v =>
    if v < d.vcpus.length then do
      let d ← altp2mVcpuInitialise d v
      pure (d, some (.initialise (v + 1)))
    else .ok (d, none)
  | .destroy v =>
    if v < d.vcpus.length then do
      let d ← altp2mVcpuDestroy cfg d v
      pure (d, some (.destroy (v + 1)))
    else .ok (p2mFlushAltp2m cfg d, none)

/-- A machine, and the `set_domain_state` that runs on it: the vCPU of this domain that called it,
if any, and where it stands. -/
structure Interleaved where
  m : Machine
  call : Option (Option Nat × Pc)

def Interleaved.runs (s : Interleaved) (v : Nat) : Bool :=
  decide (v < s.m.dom.vcpus.length) && decide (s.call.map Prod.fst ≠ some (some v))

def onExit (m : Machine) (v : Nat) (f : Machine → Except Fault Machine) : Except Fault Machine := do
  let d ← vmexitResync m.dom v
  f { m with dom := d }

theorem onExit_eq {m : Machine} {v : Nat} {f : Machine → Except Fault Machine}
    (h : vmexitResync m.dom v = .ok m.dom) : onExit m v f = f m := by
  unfold onExit
  rw [h]
  rfl

def callExit (d : Domain) (c : Call) (remote : Bool) : Except Fault Domain :=
  if remote then .ok d else vmexitResync d c.currVcpu

inductive Act where
  /-- `set_domain_state` is called, by a vCPU of the domain or (`remote`) by another domain. -/
  | setDomainState (c : Call) (remote : Bool) (a : Altp2mOp)
  | proceed
  | eptViolation (v gfn : Nat) (write : Bool)
  /-- `vcpu_enable_notify` by vCPU `c.currVcpu`. -/
  | enableNotify (c : Call) (a : Altp2mOp)

def act (cfg : Config) (s : Interleaved) : Act → Except Fault Interleaved
  | .setDomainState c remote a =>
    if s.call = none ∧ (remote || s.runs c.currVcpu) = true then do
      let d ← callExit s.m.dom c remote
      let r := startSetState d c a
      pure { m := { s.m with dom := r.1 },
             call := r.2.map fun pc => (if remote then none else some c.currVcpu, pc) }
    else .ok s
  | .proceed =>
    match s.call with
    | none => .ok s
    | some (who, pc) => do
      let r ← proceed cfg s.m.dom pc
      pure { m := { s.m with dom := r.1 }, call := r.2.map fun pc => (who, pc) }
  | .eptViolation v gfn write =>
    if s.runs v then do
      let m ← onExit s.m v fun m => hvmHapNestedPageFault cfg m v gfn write
      pure { s with m := m }
    else .ok s
  | .enableNotify c a =>
    if s.runs c.currVcpu then do
      let m ← onExit s.m c.currVcpu fun m => do
        let r ← altp2mOpLocked cfg m c false a .vcpuEnableNotify
        pure r.2
      pure { s with m := m }
    else .ok s

/-! ## Without interruptions -/

section Uninterrupted

variable {cfg : Config} {d : Domain} {t : Nat → Nat} {who : Option Nat}

theorem moves_length (cfg : Config) (n : Nat) : Moves cfg fun d => d.vcpus.length = n where
  vcpu d v f h := by simpa using h
  view _ _ _ _ h := h
  host _ h := h
  flag _ _ h := h
  slot _ _ _ h := h
  flush _ _ h := h

theorem proceed_idle (s : Interleaved) (h : s.call = none) (n : Nat) :
    (List.replicate n Act.proceed).foldlM (act cfg) s = .ok s := by
  induction n with
  | zero => rfl
  | succ n ih =>
    rw [replicate_succ, foldlM_cons]
    simp only [act, h, ok_bind]
    exact ih

theorem proceed_loop (pc : Nat → Pc) (f : Domain → Nat → Except Fault Domain)
    (done : Domain → Domain)
    (hlen : ∀ n d v, d.vcpus.length = n → Ensures (fun _ => True) (f d v) fun d =>
      d.vcpus.length = n)
    (hpc : ∀ d v, proceed cfg d (pc v) =
      if v < d.vcpus.length then (do let d ← f d v; pure (d, some (pc (v + 1))))
      else .ok (done d, none)) (e k j : Nat) (hd : d.vcpus.length = k + j) :
    (List.replicate (j + 1 + e) Act.proceed).foldlM (act cfg) ⟨⟨d, t⟩, some (who, pc k)⟩
      = ((List.range' k j).foldlM f d).map fun d => ⟨⟨done d, t⟩, none⟩ := by
  induction j generalizing k d with
  | zero =>
    have hk : ¬ k < d.vcpus.length := by omega
    rw [show 0 + 1 + e = e + 1 by omega, replicate_succ, foldlM_cons]
    simp only [act, hpc, if_neg hk, ok_bind]
    exact proceed_idle _ rfl e
  | succ j ih =>
    have hk : k < d.vcpus.length := by omega
    rw [show j + 1 + 1 + e = (j + 1 + e) + 1 by omega, replicate_succ, foldlM_cons,
      List.range'_succ, foldlM_cons]
    simp only [act, hpc, if_pos hk]
    cases hf : f d k with
    | error e => rfl
    | ok d' =>
      have hd' : d'.vcpus.length = (k + 1) + j := by
        rw [(hlen _ d k hd).of_ok hf]
        omega
      exact ih (k + 1) hd'

theorem setStateVcpus_true (d : Domain) :
    setStateVcpus cfg true d = (List.range' 0 d.vcpus.length).foldlM (altp2mVcpuDestroy cfg) d := by
  unfold setStateVcpus
  rw [range_eq_range']
  rfl

theorem setStateVcpus_false (d : Domain) :
    setStateVcpus cfg false d = (List.range' 0 d.vcpus.length).foldlM altp2mVcpuInitialise d := by
  unfold setStateVcpus
  rw [range_eq_range']
  rfl

theorem proceed_off :
    (List.replicate (d.vcpus.length + 2) Act.proceed).foldlM (act cfg)
        ⟨⟨d, t⟩, some (who, .destroy 0)⟩
      = (setStateVcpus cfg true d).map fun d => ⟨⟨p2mFlushAltp2m cfg d, t⟩, none⟩ := by
  rw [setStateVcpus_true]
  exact proceed_loop Pc.destroy (altp2mVcpuDestroy cfg) (p2mFlushAltp2m cfg)
    (fun n d v hd => (moves_length cfg n).vcpuDestroy hd v) (fun _ _ => rfl) 1 0 d.vcpus.length
    (Nat.zero_add _).symm

theorem proceed_on :
    (List.replicate (d.vcpus.length + 2) Act.proceed).foldlM (act cfg)
        ⟨⟨d, t⟩, some (who, .initView)⟩
      = if (p2mInitAltp2mById d 0).1 ≠ 0 then .ok ⟨⟨(p2mInitAltp2mById d 0).2, t⟩, none⟩
        else (setStateVcpus cfg false (p2mInitAltp2mById d 0).2).map fun d => ⟨⟨d, t⟩, none⟩ := by
  have hlen : (p2mInitAltp2mById d 0).2.vcpus.length = 0 + d.vcpus.length := by
    rw [Nat.zero_add]
    exact (moves_length cfg d.vcpus.length).initById rfl 0
  rw [replicate_succ, foldlM_cons]
  simp only [act, proceed, ok_bind]
  split
  · exact proceed_idle _ rfl _
  · rw [setStateVcpus_false, hlen, Nat.zero_add]
    exact proceed_loop Pc.initialise altp2mVcpuInitialise id
      (fun n d v hd => (moves_length cfg n).vcpuInitialise hd v) (fun _ _ => rfl) 0 0
      d.vcpus.length hlen

theorem proceed_setDomainState {c : Call} {a : Altp2mOp}
    (h : ¬ (d.guestType ≠ .hvm ∨ c.xsm ≠ 0 ∨ d.hvmParamAltp2m = 0 ∨ d.nestedhvm = true)) :
    (List.replicate (d.vcpus.length + 2) Act.proceed).foldlM (act cfg)
        ⟨⟨(startSetState d c a).1, t⟩, (startSetState d c a).2.map fun pc => (who, pc)⟩
      = (setDomainState cfg d a.state).map fun r => ⟨⟨r.2, t⟩, none⟩ := by
  have hp : ¬ (d.hvmParamAltp2m = 0 ∨ d.nestedhvm = true) := fun hp => h (.inr (.inr hp))
  unfold startSetState setDomainState
  rw [if_neg h, if_neg hp]
  by_cases hsame : decide (a.state ≠ 0) = d.altp2mActive
  · simp only [if_pos hsame]
    exact proceed_idle _ rfl _
  by_cases hon : d.altp2mActive = true
  · simp only [if_neg hsame, if_pos hon]
    refine Eq.trans proceed_off ?_
    generalize setStateVcpus cfg true _ = x
    cases x <;> rfl
  simp only [if_neg hsame, if_neg hon]
  refine Eq.trans proceed_on ?_
  by_cases hrc : (p2mInitAltp2mById { d with altp2mActive := decide (a.state ≠ 0) } 0).1 ≠ 0
  · rw [if_pos hrc, if_pos hrc]
    rfl
  · rw [if_neg hrc, if_neg hrc]
    generalize setStateVcpus cfg false _ = x
    cases x <;> rfl

theorem proceed_locked (c : Call) (remote : Bool) (a : Altp2mOp) :
    (List.replicate (d.vcpus.length + 2) Act.proceed).foldlM (act cfg)
        ⟨⟨(startSetState d c a).1, t⟩, (startSetState d c a).2.map fun pc => (who, pc)⟩
      = (altp2mOpLocked cfg ⟨d, t⟩ c remote a .setDomainState).map fun r => ⟨r.2, none⟩ := by
  by_cases h : d.guestType ≠ .hvm ∨ c.xsm ≠ 0 ∨ d.hvmParamAltp2m = 0 ∨ d.nestedhvm = true
  · have hstart : startSetState d c a = (d, none) := if_pos h
    have hrefused : ∃ rc, altp2mOpLocked cfg ⟨d, t⟩ c remote a .setDomainState =
        .ok (rc, ⟨d, t⟩) := by
      unfold altp2mOpLocked
      by_cases hg : d.guestType ≠ .hvm
      · exact ⟨_, if_pos hg⟩
      rw [if_neg hg]
      by_cases hx : c.xsm ≠ 0
      · exact ⟨_, if_pos hx⟩
      · have hp : d.hvmParamAltp2m = 0 ∨ d.nestedhvm = true := by tauto
        rw [if_neg hx]
        unfold altp2mCmd setDomainState
        rw [if_pos hp]
        exact ⟨_, rfl⟩
    obtain ⟨rc, hrc⟩ := hrefused
    rw [hrc, hstart]
    exact proceed_idle _ rfl _
  · have hadmitted : altp2mOpLocked cfg ⟨d, t⟩ c remote a .setDomainState
        = altp2mCmd cfg ⟨d, t⟩ c remote a .setDomainState := by
      obtain ⟨hg, hx, -⟩ := not_or.1 h |>.imp_right not_or.1
      unfold altp2mOpLocked
      rw [if_neg hg, if_neg (fun hc => hc.2.1 rfl), if_neg hx]
    rw [hadmitted]
    refine (proceed_setDomainState h).trans ?_
    unfold altp2mCmd
    cases setDomainState cfg d a.state <;> rfl

/-- The steps in one go do what the hypercall does: those of a vCPU of the domain begin with its
exit. -/
theorem setDomainState_uninterrupted (cfg : Config) (m : Machine) (c : Call) (remote : Bool)
    (a : Altp2mOp) (hcaller : remote = true ∨ c.currVcpu < m.dom.vcpus.length) :
    (.setDomainState c remote a :: List.replicate (m.dom.vcpus.length + 2) Act.proceed).foldlM
        (act cfg) ⟨m, none⟩
      = (do
        let d ← callExit m.dom c remote
        let r ← altp2mOpLocked cfg { m with dom := d } c remote a .setDomainState
        pure ⟨r.2, none⟩) := by
  have hgoes : (remote || Interleaved.runs ⟨m, none⟩ c.currVcpu) = true := by
    rcases hcaller with rfl | hv
    · rfl
    · simp [Interleaved.runs, hv]
  have hlen : Ensures (fun _ => True) (callExit m.dom c remote)
      fun d => d.vcpus.length = m.dom.vcpus.length := by
    unfold callExit
    split
    · rfl
    · exact (moves_length cfg _).vmexitResync rfl _
  rw [foldlM_cons]
  simp only [act, hgoes, and_self, if_true]
  cases hexit : callExit m.dom c remote with
  | error e => rfl
  | ok d =>
    rw [← hlen.of_ok hexit]
    refine (proceed_locked c remote a).trans ?_
    simp only [ok_bind]
    cases altp2mOpLocked cfg { m with dom := d } c remote a .setDomainState <;> rfl

/-- The argument of a `set_domain_state` that turns altp2m on. -/
def enableOp : Altp2mOp := { plainOp with state := 1 }

/-- vCPU 0 of a domain of two calls it. -/
theorem setDomainState_uninterrupted_local :
    0 < vmfuncMachine.dom.vcpus.length ∧
    (.setDomainState (plainCall enableOp) false enableOp :: List.replicate 4 Act.proceed).foldlM
        (act vmfuncConfig) ⟨vmfuncMachine, none⟩
      = (do
        let d ← callExit vmfuncMachine.dom (plainCall enableOp) false
        let r ← altp2mOpLocked vmfuncConfig { vmfuncMachine with dom := d }
          (plainCall enableOp) false enableOp .setDomainState
        pure ⟨r.2, none⟩) :=
  ⟨by decide, setDomainState_uninterrupted vmfuncConfig vmfuncMachine (plainCall enableOp)
    false enableOp (.inr (by decide))⟩

end Uninterrupted

/-! ## The stages -/

/-- The vCPUs from `k` on have the view index that a disable left them, or that of the start. -/
def Left (ix : Nat → Nat) (d : Domain) (k : Nat) : Prop :=
  ∀ v, k ≤ v → v < d.vcpus.length → (d.vcpu v).p2midx = invalidAltp2m ∨ (d.vcpu v).p2midx = ix v

def Stage (ix : Nat → Nat) (d : Domain) : Option Pc → Prop
  | none => Off d ∧ Left ix d 0 ∨ Placed d d.vcpus.length
  | some .initView =>
    (d.altp2mActive = true ∧ Off { d with altp2mActive := false }) ∧ Left ix d 0
  | some (.initialise k) => (Placed d k ∧ k ≤ d.vcpus.length) ∧ Left ix d k
  | some (.destroy k) => Clearing d k ∧ k ≤ d.vcpus.length

/-- `altp2m_vcpu_initialise` of the current enable has reached vCPU `v`. -/
def InitialisedAt (v : Nat) : Option Pc → Prop
  | none => True
  | some (.initialise k) => v < k
  | some _ => False

structure Phase (cfg : Config) (ix : Nat → Nat) (d : Domain) (pc : Option Pc) : Prop where
  ready : Ready cfg d
  tables : TablesWf cfg d
  stage : Stage ix d pc

section Stages

variable {cfg : Config} {ix : Nat → Nat} {d d' : Domain} {pc : Option Pc} {v k : Nat}

theorem Stage.congr (hind : d'.indices = d.indices) (hact : d'.altp2mActive = d.altp2mActive)
    (heptp : d'.altp2mEptp = d.altp2mEptp)
    (hcount : ∀ i, (d'.altp2mP2m i).activeVcpus = (d.altp2mP2m i).activeVcpus)
    (hsync : ∀ w, Synced d w → Synced d' w) (S : Stage ix d pc) : Stage ix d' pc := by
  have hlen : d'.vcpus.length = d.vcpus.length := by
    rw [← length_indices, hind, length_indices]
  have hleft : ∀ k, Left ix d k → Left ix d' k := by
    intro k L v hk hv
    have hidx : (d'.vcpu v).p2midx = (d.vcpu v).p2midx := by
      have h := getElem_indices hv
      rw [hind, getElem_indices (hlen ▸ hv)] at h
      exact (Option.some.inj h).symm
    rw [hidx]
    exact L v hk (hlen ▸ hv)
  have hplaced : ∀ k, Placed d k → Placed d' k := by
    intro k P
    refine ⟨⟨hact.trans P.placing.active, ?_, ?_, ?_⟩, fun v hv => hsync v (P.synced v hv)⟩
    · rw [heptp]; exact P.placing.slot
    · rw [hind]; exact P.placing.place
    · intro i hi
      rw [hcount]
      exact P.placing.count i hi
  rcases pc with _ | _ | k | k
  · rcases S with ⟨O, L⟩ | P
    · refine .inl ⟨⟨hact.trans O.inactive, ?_, fun i hi => (hcount i).trans (O.count i hi)⟩,
        hleft 0 L⟩
      rw [heptp]
      exact O.slot
    · rw [← hlen] at P
      exact .inr (hplaced _ P)
  · obtain ⟨⟨ha, O⟩, L⟩ := S
    refine ⟨⟨hact.trans ha, rfl, ?_, fun i hi => (hcount i).trans (O.count i hi)⟩, hleft 0 L⟩
    show ∀ i < maxAltp2m, d'.altp2mEptp i = invalidMfn
    rw [heptp]
    exact O.slot
  · obtain ⟨⟨P, hk⟩, L⟩ := S
    exact ⟨⟨hplaced k P, hlen ▸ hk⟩, hleft k L⟩
  · obtain ⟨C, hk⟩ := S
    refine ⟨⟨hact.trans C.inactive, ?_, ?_, fun i hi => ?_⟩, hlen ▸ hk⟩
    · rw [hind]; exact C.gone
    · rw [hind]; exact C.here
    · rw [hcount, hind]
      exact C.count i hi

theorem Phase.synced (P : Phase cfg ix d pc) (ha : d.altp2mActive = true) (hv : v < d.vcpus.length)
    (hinit : InitialisedAt v pc) : Synced d v ∧ DistinctSlots d := by
  have placed : ∃ k, Placed d k ∧ v < k := by
    have S := P.stage
    rcases pc with _ | _ | k | k
    · rcases S with ⟨O, -⟩ | S
      · rw [O.inactive] at ha
        exact absurd ha (by simp)
      · exact ⟨_, S, hv⟩
    · exact hinit.elim
    · exact ⟨k, S.1.1, hinit⟩
    · exact hinit.elim
  obtain ⟨k, S, hk⟩ := placed
  refine ⟨S.synced v hk, fun i hi j hj hs he => ?_⟩
  have hi0 := (S.placing.slot i hi).1 hs
  have hj0 := (S.placing.slot j hj).1 (he ▸ hs)
  rw [hi0, hj0]

theorem Phase.exit (P : Phase cfg ix d pc) (hv : v < d.vcpus.length)
    (hinit : d.altp2mActive = true → InitialisedAt v pc) : vmexitResync d v = .ok d := by
  by_cases ha : d.altp2mActive = true
  · obtain ⟨S, U⟩ := P.synced ha hv (hinit ha)
    exact vmexitResync_synced P.ready U S
  · exact vmexitResync_inactive ha

theorem Phase.start (P : Phase cfg ix d none) (c : Call) (a : Altp2mOp) :
    Phase cfg ix (startSetState d c a).1 (startSetState d c a).2 := by
  obtain ⟨R, T, S⟩ := P
  have R' : ∀ b, Ready cfg { d with altp2mActive := b } :=
    fun _ => ⟨R.init, R.np2m, R.slot, R.upper⟩
  have T' : ∀ b, TablesWf cfg { d with altp2mActive := b } :=
    fun b => (moves_tablesWf cfg).flag d b T
  unfold startSetState
  by_cases h : d.guestType ≠ .hvm ∨ c.xsm ≠ 0 ∨ d.hvmParamAltp2m = 0 ∨ d.nestedhvm = true
  · rw [if_pos h]
    exact ⟨R, T, S⟩
  rw [if_neg h]
  by_cases hsame : decide (a.state ≠ 0) = d.altp2mActive
  · simp only [hsame]
    exact ⟨R, T, S⟩
  rcases S with ⟨O, L⟩ | Pl
  · have hon : decide (a.state ≠ 0) = true := by
      rw [O.inactive] at hsame
      simpa using hsame
    rw [if_neg hsame, if_neg (by simp [O.inactive])]
    exact ⟨R' _, T' _, ⟨hon, rfl, O.slot, O.count⟩, L⟩
  · have hoff : decide (a.state ≠ 0) = false := by
      rw [Pl.placing.active] at hsame
      simpa using hsame
    rw [if_neg hsame, if_pos Pl.placing.active, hoff]
    exact ⟨R' _, T' _, Pl.placing.rep.clearing, Nat.zero_le _⟩

theorem initialise_phase (P : Phase cfg ix d (some (.initialise k))) (hk : k < d.vcpus.length) :
    Ensures (fun _ => False) (altp2mVcpuInitialise d k)
      fun d' => Phase cfg ix d' (some (.initialise (k + 1))) := by
  obtain ⟨R, T, ⟨Pl, -⟩, L⟩ := P
  have h0 : d.altp2mEptp 0 ≠ invalidMfn := (Pl.placing.slot 0 (by decide)).2 rfl
  have hplace := altp2mVcpuInitialise_placed R Pl hk
  have hother := altp2mVcpuInitialise_other R Pl.placing.active h0 hk
  have htables := (moves_tablesWf cfg).vcpuInitialise T k
  refine ((hplace.and hother.weaken).and htables).mono ?_
  rintro d' ⟨⟨⟨⟨R', Pl'⟩, hlen⟩, hoth⟩, T'⟩
  refine ⟨R', T', ⟨Pl', hlen ▸ hk⟩, fun v hv hvn => ?_⟩
  rw [hoth v (by omega)]
  exact L v (by omega) (hlen ▸ hvn)

theorem Phase.proceed {pc : Pc} (P : Phase cfg ix d (some pc)) :
    Ensures (fun _ => False) (proceed cfg d pc) fun r => Phase cfg ix r.1 r.2 := by
  cases pc with
  | initView =>
    obtain ⟨R, T, ⟨ha, O⟩, L⟩ := P
    obtain ⟨hinit, R', Pl⟩ := p2mInitAltp2mById_placing R ha O.slot O.count
    simp only [Altp2m.proceed, hinit]
    refine ⟨R', (moves_tablesWf cfg).initHelper T 0, ⟨⟨Pl, fun v hv => ?_⟩, Nat.zero_le _⟩, L⟩
    exact absurd hv (Nat.not_lt_zero v)
  | initialise k =>
    simp only [Altp2m.proceed]
    split
    · rename_i hk
      exact (initialise_phase P hk).bind fun d' P' => Ensures.pure P'
    · rename_i hk
      obtain ⟨R, T, ⟨Pl, hle⟩, -⟩ := P
      have hkn : k = d.vcpus.length := by omega
      exact ⟨R, T, .inr (hkn ▸ Pl)⟩
  | destroy k =>
    obtain ⟨R, T, C, hle⟩ := P
    simp only [Altp2m.proceed]
    split
    · rename_i hk
      have htables := (moves_tablesWf cfg).vcpuDestroy T k
      refine ((altp2mVcpuDestroy_clearing R C hk).and htables).bind fun d' h => Ensures.pure ?_
      obtain ⟨⟨⟨R', C'⟩, hlen⟩, T'⟩ := h
      exact ⟨R', T', C', hlen ▸ hk⟩
    rename_i hk
    have hkn : k = d.vcpus.length := by omega
    subst hkn
    have htables : TablesWf cfg (p2mFlushAltp2m cfg d) :=
      foldl_invariant (TablesWf cfg) (fun d i _ T => (moves_tablesWf cfg).flushSlot T i) T
    refine ⟨R.flushAltp2m, htables, .inl ⟨C.off R, fun v _ hv => .inl ?_⟩⟩
    rw [p2mFlushAltp2m_eq R] at hv ⊢
    exact C.gone v hv _ (getElem_indices hv)

/-! ## The steps of the vCPUs -/

theorem Phase.of_shell (P : Phase cfg ix d pc) (h : d'.shell = d.shell) (T : TablesWf cfg d') :
    Phase cfg ix d' pc := by
  have heptp := altp2mEptp_of_shell h
  refine ⟨P.ready.of_shell h, T, P.stage.congr ?_ (altp2mActive_of_shell h) heptp (fun i => ?_) ?_⟩
  · unfold Domain.indices
    rw [vcpus_of_shell h]
  · show (d'.shell.altp2mP2m i).activeVcpus = (d.shell.altp2mP2m i).activeVcpus
    rw [h]
  · intro w S
    exact S.congr (vcpu_of_shell h w) (by rw [heptp])

theorem Phase.updateVmfuncVe (P : Phase cfg ix d pc) (v : Nat) :
    Phase cfg ix (vmxVcpuUpdateVmfuncVe cfg d v) pc := by
  obtain ⟨hact, heptp, hp2m⟩ := shape_updateVmfuncVe cfg d v
  refine ⟨P.ready.updateVmfuncVe v, (moves_tablesWf cfg).updateVmfuncVe P.tables v,
    P.stage.congr (indices_updateVmfuncVe d v) hact heptp (fun i => by rw [hp2m]) ?_⟩
  exact fun w S => S.updateVmfuncVe P.tables v

theorem nestedPageFault_phase {m : Machine} (P : Phase cfg ix m.dom pc)
    (hv : v < m.dom.vcpus.length) (hinit : m.dom.altp2mActive = true → InitialisedAt v pc)
    (gfn : Nat) (write : Bool) :
    Ensures (· = .spin) (hvmHapNestedPageFault cfg m v gfn write)
      fun m' => Phase cfg ix m'.dom pc := by
  have W := (writes_shell P.ready).and (writes_tablesWf cfg)
  refine (W.nestedPageFault (fun ha m' hm' => .inr ?_) gfn write ⟨rfl, P.tables⟩).mono ?_
  · rw [vcpu_of_shell hm'.1]
    exact (P.synced ha hv (hinit ha)).1.index
  · rintro m' ⟨hs, T⟩
    exact P.of_shell hs T

theorem enableNotify_cases (cfg : Config) (m : Machine) (c : Call) (a : Altp2mOp) :
    ∃ rc d', altp2mOpLocked cfg m c false a .vcpuEnableNotify = .ok (rc, { m with dom := d' }) ∧
      (d' = m.dom ∨ d' = vmxVcpuUpdateVmfuncVe cfg m.dom c.currVcpu) := by
  unfold altp2mOpLocked
  split
  · exact ⟨_, _, rfl, .inl rfl⟩
  · split
    · exact ⟨_, _, rfl, .inl rfl⟩
    · split
      · exact ⟨_, _, rfl, .inl rfl⟩
      · exact ⟨_, _, rfl, .inr rfl⟩

end Stages

def Interleaved.Inv (cfg : Config) (ix : Nat → Nat) (s : Interleaved) : Prop :=
  Phase cfg ix s.m.dom (s.call.map Prod.snd)

/-- vCPU `v` has been initialised, or no `set_domain_state` is running. -/
def Interleaved.Initialised (s : Interleaved) (v : Nat) : Prop :=
  InitialisedAt v (s.call.map Prod.snd)

def Act.Initialised (s : Interleaved) : Act → Prop
  | .eptViolation v _ _ => s.m.dom.altp2mActive = true → s.Initialised v
  | .enableNotify c _ => s.m.dom.altp2mActive = true → s.Initialised c.currVcpu
  | _ => True

section Steps

variable {cfg : Config} {ix : Nat → Nat} {s s' : Interleaved}

theorem map_snd_map (o : Option Pc) (who : Option Nat) :
    (o.map fun pc => (who, pc)).map Prod.snd = o := by
  cases o <;> rfl

theorem lt_of_runs {v : Nat} (h : s.runs v = true) : v < s.m.dom.vcpus.length := by
  exact of_decide_eq_true (Bool.and_eq_true_iff.1 h).1

/-- **The step lemma**: a step keeps the invariant, and stops at most in a lookup that retries for
ever. -/
theorem act_inv (I : s.Inv cfg ix) {op : Act} (hop : op.Initialised s) :
    Ensures (· = .spin) (act cfg s op) (Interleaved.Inv cfg ix) := by
  cases op with
  | setDomainState c remote a =>
    simp only [act]
    split
    · rename_i h
      obtain ⟨hcall, hruns⟩ := h
      have P : Phase cfg ix s.m.dom none := by
        unfold Interleaved.Inv at I
        rwa [hcall] at I
      -- the exit of the caller changes nothing, so the call starts from the same domain
      have hexit : callExit s.m.dom c remote = .ok s.m.dom := by
        unfold callExit
        split
        · rfl
        · rename_i hr
          have hruns : s.runs c.currVcpu = true := by simpa [hr] using hruns
          exact P.exit (lt_of_runs hruns) fun _ => trivial
      rw [hexit]
      have P' := P.start c a
      show Phase cfg ix _ _
      rw [map_snd_map]
      exact P'
    · exact I
  | proceed =>
    simp only [act]
    split
    · exact I
    rename_i who pc hcall
    have P : Phase cfg ix s.m.dom (some pc) := by
      unfold Interleaved.Inv at I
      rwa [hcall] at I
    refine P.proceed.weaken.bind fun r P' => ?_
    show Phase cfg ix _ _
    rw [map_snd_map]
    exact P'
  | eptViolation v gfn write =>
    simp only [act]
    split
    · rename_i hruns
      have hv := lt_of_runs hruns
      rw [onExit_eq (Phase.exit I hv hop)]
      exact (nestedPageFault_phase I hv hop gfn write).bind fun m' P' => Ensures.pure P'
    · exact I
  | enableNotify c a =>
    simp only [act]
    split
    · rename_i hruns
      obtain ⟨rc, d', hr, hd'⟩ := enableNotify_cases cfg s.m c a
      rw [onExit_eq (Phase.exit I (lt_of_runs hruns) hop), hr]
      rcases hd' with rfl | rfl
      · exact I
      · exact Phase.updateVmfuncVe I _
    · exact I

theorem fresh_inv (fresh : Fresh cfg s.m.dom) (idle : s.call = none) :
    s.Inv cfg fun v => (s.m.dom.vcpu v).p2midx := by
  obtain ⟨⟨R, S⟩, T⟩ := fresh_tables fresh
  have hoff := fresh.start.1
  unfold Interleaved.Inv
  rw [idle]
  rcases S with O | ⟨b, B⟩
  · exact ⟨R, T, .inl ⟨O, fun v _ _ => .inr rfl⟩⟩
  · rw [B.active] at hoff
    exact absurd hoff (by simp)

theorem act_run (I : s.Inv cfg ix) (run : Reaches (act cfg) Act.Initialised s s') : s'.Inv cfg ix :=
  run.invariant (fun _ _ _ hop hs I => (act_inv I hop).of_ok hs) I

end Steps

/-! ## Safety -/

def InEptpList (d : Domain) (v : Nat) : Prop :=
  ∃ i < maxEptp, d.altp2mEptp i ≠ invalidMfn ∧ (d.vcpu v).eptPointer = d.altp2mEptp i

theorem Synced.inEptpList {d : Domain} {v : Nat} (S : Synced d v) : InEptpList d v :=
  ⟨_, S.index.trans (by decide), S.slot, S.pointer⟩

theorem Phase.uninitialised {cfg : Config} {ix : Nat → Nat} {d : Domain} {pc : Option Pc} {v : Nat}
    (P : Phase cfg ix d pc) (ha : d.altp2mActive = true) (hv : v < d.vcpus.length)
    (hinit : ¬ InitialisedAt v pc) : (d.vcpu v).p2midx = invalidAltp2m ∨
      (d.vcpu v).p2midx = ix v := by
  have S := P.stage
  rcases pc with _ | _ | k | k
  · exact absurd trivial hinit
  · exact S.2 v (Nat.zero_le v) hv
  · exact S.2 v (Nat.le_of_not_lt hinit) hv
  · rw [S.1.inactive] at ha
    exact absurd ha (by simp)

/-- **Enabling is safe for the vCPUs it has reached**, as long as no vCPU exits before its own
`altp2m_vcpu_initialise` while altp2m is on. A vCPU that has not been reached has no view at all,
unless its index is still the one of the start. -/
theorem enabling_safe_when_initialised (cfg : Config) (s₀ s : Interleaved)
    (fresh : Fresh cfg s₀.m.dom) (idle : s₀.call = none)
    (run : Reaches (act cfg) Act.Initialised s₀ s) :
    (s.m.dom.altp2mActive = true → ∀ v < s.m.dom.vcpus.length,
      (s.Initialised v →
        (vmexitResync s.m.dom v = .ok s.m.dom ∧ ∃ i, p2mGetAltp2m s.m.dom v = .ok (some i)) ∧
        ∀ c a, c.currVcpu = v →
          ∃ s', act cfg s (.enableNotify c a) = .ok s' ∧ InEptpList s'.m.dom v) ∧
      (¬ s.Initialised v → p2mGetAltp2m s.m.dom v = .ok none ∨
        (s.m.dom.vcpu v).p2midx = (s₀.m.dom.vcpu v).p2midx)) ∧
    ∀ op : Act, op.Initialised s → ∀ f, act cfg s op = .error f → f = .spin := by
  have I := act_run (fresh_inv fresh idle) run
  refine ⟨fun ha v hv => ⟨fun hinit => ⟨⟨?_, ?_⟩, ?_⟩, fun hno => ?_⟩, fun op hop f hf => ?_⟩
  · exact Phase.exit I hv fun _ => hinit
  · exact ⟨_, p2mGetAltp2m_of_lt (Phase.synced I ha hv hinit).1.index⟩
  · rintro c a rfl
    have S := (Phase.synced I ha hv hinit).1
    simp only [act]
    split
    · obtain ⟨rc, d', hr, hd'⟩ := enableNotify_cases cfg s.m c a
      rw [onExit_eq (Phase.exit I hv fun _ => hinit), hr]
      refine ⟨_, rfl, ?_⟩
      rcases hd' with rfl | rfl
      · exact S.inEptpList
      · exact (S.updateVmfuncVe (Phase.tables I) _).inEptpList
    · exact ⟨s, rfl, S.inEptpList⟩
  · rcases Phase.uninitialised I ha hv hno with h | h
    · refine .inl ?_
      unfold p2mGetAltp2m
      simp [h]
    · exact .inr h
  · exact (act_inv I hop).of_error hf

def enableTwoVcpus : List Act :=
  .setDomainState (plainCall enableOp) false enableOp ::
    List.replicate 4 .proceed

theorem enabling_safe_when_initialised_idle :
    ∃ s, enableTwoVcpus.foldlM (act vmfuncConfig) ⟨vmfuncMachine, none⟩ = .ok s ∧
      s.m.dom.altp2mActive = true ∧ ∃ i, p2mGetAltp2m s.m.dom 1 = .ok (some i) := by
  obtain ⟨s, hs, hon, hlen, hidle⟩ :
      ∃ s, enableTwoVcpus.foldlM (act vmfuncConfig) ⟨vmfuncMachine, none⟩ = .ok s ∧
        s.m.dom.altp2mActive = true ∧ 1 < s.m.dom.vcpus.length ∧ s.call = none := by decide +kernel
  have run : Reaches (act vmfuncConfig) Act.Initialised ⟨vmfuncMachine, none⟩ s :=
    .of_foldlM (by simp [enableTwoVcpus, Act.Initialised]) hs
  have hsafe := (enabling_safe_when_initialised vmfuncConfig _ s vmfuncMachine_fresh rfl run).1 hon
    1 hlen
  have hinit : s.Initialised 1 := by
    unfold Interleaved.Initialised
    rw [hidle]
    trivial
  exact ⟨s, hs, hon, (hsafe.1 hinit).1.2⟩

/-! ## A vCPU that exits too early -/

/-- vCPU 0 turns altp2m on and off, calls to turn it on again, and has just written the flag. -/
def flagUpAgain : List Act :=
  enableTwoVcpus ++
    .setDomainState (plainCall plainOp) false plainOp :: List.replicate 3 .proceed ++
    [.setDomainState (plainCall enableOp) false enableOp]

/-- `vcpu_enable_notify` of vCPU 1. -/
def notifyOne : Altp2mOp := { plainOp with cmd := 3, notifyVcpuId := 1 }

@[inherit_doc notifyOne]
def notifyOneCall : Call := { plainCall notifyOne with currVcpu := 1 }

/-- vCPU 1 runs and altp2m is on, but it has no view; its `vcpu_enable_notify` turns VM functions on
with an EPT pointer that is not in the list. -/
theorem uninitialised_vcpu_unsafe :
    ∃ s s', Reaches (act vmfuncConfig) Act.Initialised ⟨vmfuncMachine, none⟩ s ∧
      s.m.dom.altp2mActive = true ∧ s.runs 1 = true ∧ p2mGetAltp2m s.m.dom 1 = .ok none ∧
      act vmfuncConfig s (.enableNotify notifyOneCall notifyOne) = .ok s' ∧
      (s.m.dom.vcpu 1).vmFunctions = false ∧ (s'.m.dom.vcpu 1).vmFunctions = true ∧
      ¬ InEptpList s'.m.dom 1 := by
  obtain ⟨s, hs, hon, hruns, hidx, hoff, s', hs', hvmf, hlist⟩ :
      ∃ s, flagUpAgain.foldlM (act vmfuncConfig) ⟨vmfuncMachine, none⟩ = .ok s ∧
        s.m.dom.altp2mActive = true ∧ s.runs 1 = true ∧
        (s.m.dom.vcpu 1).p2midx = invalidAltp2m ∧ (s.m.dom.vcpu 1).vmFunctions = false ∧
        ∃ s', act vmfuncConfig s (.enableNotify notifyOneCall notifyOne) = .ok s' ∧
          (s'.m.dom.vcpu 1).vmFunctions = true ∧
          ∀ i < maxEptp, s'.m.dom.altp2mEptp i = invalidMfn := by decide +kernel
  refine ⟨s, s', .of_foldlM ?_ hs, hon, hruns, ?_, hs', hoff, hvmf, ?_⟩
  · simp [flagUpAgain, enableTwoVcpus, Act.Initialised]
  · unfold p2mGetAltp2m
    simp [hidx]
  · rintro ⟨i, hi, hne, -⟩
    exact hne (hlist i hi)

end XenVmi.Altp2m
