import XenVmi.EventChannel.Closing

/-!
# Runs

Every operation keeps the tables of all domains and the pairs between them. But a domain that resets
itself goes back to the two-level ABI, which has fewer ports. A port beyond its limit that the reset
left open is no longer valid, and `evtchn_close` of its other end stops the hypervisor. `Admits`
excludes this.
-/

namespace XenVmi.EventChannel

open Function Lib List

variable {s s' : State} {D D' : Dom} {d p port v : ℕ} {c : Evtchn}

/-! ## Domains that come and go -/

theorem newDom_inv (c : State.Config) : (State.newDom c).Inv := by
  have hchan : ∀ p, (State.newDom c).evtchn p =
      if p = 0 then { Evtchn.zero with binding := .reserved } else .zero := fun _ => rfl
  have hirq : ∀ p, (State.newDom c).irqOf p = none := by
    intro p
    rw [Dom.irqOf, hchan]
    split <;> rfl
  have hbits : 0 < c.bits ∧ c.bits * c.bits ≤ fifoNrChannels := by
    unfold State.Config.bits fifoNrChannels
    split <;> omega
  have hmax : 64 * 64 ≤ fifoNrChannels := by decide
  refine ⟨⟨rfl, fun p hp => ?_, ⟨hbits.1, hbits.2, hmax⟩, fun p hp => ?_, fun p hp => ?_,
    fun v n h => absurd rfl h, fun v n v' n' h => absurd rfl h⟩, fun p i hp => ?_, hirq 0,
    fun v => ⟨[], nodup_nil, fun p => ?_, ⟨trivial, trivial⟩, rfl⟩⟩
  · by_contra hne
    rw [hchan, if_neg hne] at hp
    cases hp
  · rw [hchan] at hp
    split at hp
    · rename_i hzero
      rw [hzero]
      exact ⟨show 0 < 64 * 64 by decide, show 0 < evtchnsPerBucket by decide⟩
    · exact absurd rfl hp
  · rw [hchan] at hp ⊢
    split at hp
    · cases hp
    · rename_i hne
      rw [if_neg hne]
  · rw [hirq] at hp
    cases hp
  · constructor
    · intro h
      cases h
    · rintro ⟨h, -⟩
      rw [hirq] at h
      cases h

theorem create_inv {c : State.Config} (inv : s.Inv) (hd : s d = none) :
    (s.setDom d (State.newDom c)).Inv := by
  refine ⟨⟨forall_setDom (newDom_inv c) inv.doms, inv.peers.update fun p r q => ?_⟩,
    forall_setDom (fun h => by cases h) inv.dying⟩
  rw [State.binding, hd]
  have hnot : ((State.newDom c).evtchn p).binding ≠ .interdomain r q := by
    show (if p = 0 then _ else Evtchn.zero).binding ≠ _
    split <;> intro h <;> cases h
  simp [hnot]

theorem release_inv (inv : s.Inv) (hd : s d = some D) (hdying : D.isDying = true) :
    State.Inv (update s d none) := by
  have hget : ∀ e E, update s d none e = some E → s e = some E := by
    intro e E hE
    rw [update_apply] at hE
    split at hE
    · cases hE
    · exact hE
  refine ⟨⟨fun e E hE => inv.doms e E (hget e E hE), inv.peers.update fun p r q => ?_⟩,
    fun e E hE => inv.dying e E (hget e E hE)⟩
  have hnot : (D.evtchn p).binding ≠ .interdomain r q := by
    intro h
    rcases inv.dying d D hd hdying p with hcl | hcl <;> rw [h] at hcl <;> cases hcl
  simp [binding_eq hd, hnot]

theorem initControl_inv (inv : s.Inv) : (s.initControl d).Inv := by
  unfold State.initControl
  split
  · exact inv
  rename_i D hd
  split
  · exact inv
  have hD := inv.doms d D hd
  have hmore := hD.moreValid le_rfl hD.limits.2.2 le_rfl
  exact inv.setDom hd hmore.setFlags (fun _ _ _ => Iff.rfl) (inv.dying d D hd)

theorem setMaxPort_inv {n : ℕ} (inv : s.Inv) (hd : s d = some D) :
    (s.setDom d { D with maxEvtchnPort := n }).Inv :=
  inv.setDom hd (inv.doms d D hd).setFlags (fun _ _ _ => Iff.rfl) (inv.dying d D hd)

/-! ## Steps and runs -/

/-- Xen frees only ports that are valid, and a domain that goes back to the two-level ABI has none
attached to the hypervisor beyond its limit. -/
def Admits (s : State) : Action → Prop
  | .freeXen d port => ∀ D, s d = some D → D.portIsValid port
  | .reset d self policy => ∀ D, s d = some D → self = true → D.fifo = true → policy = true →
    ResetFits D
  | _ => True

theorem evtchnClose_keeps {guest : Bool} : Keeps s (s.evtchnClose d port guest) := by
  intro inv
  cases hd : s d with
  | none => exact ⟨.error .esrch, s, by rw [State.evtchnClose, hd], inv⟩
  | some D =>
    obtain ⟨r, s', hclose, hcore, hshr, -⟩ := evtchnClose_spec port guest
      inv.toCore hd
    exact ⟨r, s', hclose, hcore, hshr.dying inv.dying⟩

theorem freeXen_keeps (h : ∀ D, s d = some D → D.portIsValid port) :
    Keeps s (s.freeXen d port) := by
  intro inv
  cases hd : s d with
  | none => exact ⟨.error .esrch, s, by rw [State.freeXen, hd], inv⟩
  | some D =>
    rw [State.freeXen, hd]
    dsimp only
    rw [if_neg (not_not.2 (h D hd))]
    exact evtchnClose_keeps inv

theorem Keeps.map {α : Type} {x : Except Bug (α × State)} (h : Keeps s x) (inv : s.Inv) :
    ∃ s', x.map Prod.snd = .ok s' ∧ s'.Inv := by
  obtain ⟨r, s', hx, hinv⟩ := h inv
  exact ⟨s', by rw [hx]; rfl, hinv⟩

theorem step_spec {a : Action} (ha : Admits s a) (inv : s.Inv) :
    ∃ s', step s a = .ok s' ∧ s'.Inv := by
  cases a with
  | allocUnbound d remote memory policy => exact ⟨_, rfl, allocUnbound_inv inv⟩
  | bindInterdomain d rd rport memory policy => exact ⟨_, rfl, bindInterdomain_inv inv⟩
  | bindVirq d virq vcpu memory => exact ⟨_, rfl, bindVirq_inv inv⟩
  | bindIpi d vcpu memory => exact ⟨_, rfl, bindIpi_inv inv⟩
  | bindPirq d pirq env memory => exact bindPirq_keeps.map inv
  | bindVcpu d port vcpu => exact bindVcpu_keeps.map inv
  | close d port => exact evtchnClose_keeps.map inv
  | reset d self policy => exact (evtchnReset_keeps ha).map inv
  | allocUnboundXen d vcpu remote consumer memory policy => exact ⟨_, rfl, allocUnboundXen_inv inv⟩
  | freeXen d port => exact (freeXen_keeps ha).map inv
  | destroy d => exact evtchnDestroy_spec inv
  | release d =>
    rw [step]
    split
    · rename_i D hd
      refine ⟨_, rfl, ?_⟩
      split
      · rename_i hdying
        exact release_inv inv hd hdying
      · exact inv
    · exact ⟨s, rfl, inv⟩
  | create d c =>
    refine ⟨_, rfl, ?_⟩
    split
    · rename_i hd
      exact create_inv inv (Option.isNone_iff_eq_none.1 hd)
    · exact inv
  | initControl d => exact ⟨_, rfl, initControl_inv inv⟩
  | setMaxPort d n =>
    rw [step]
    split
    · rename_i D hd
      exact ⟨_, rfl, setMaxPort_inv inv hd⟩
    · exact ⟨s, rfl, inv⟩

def State.none : State := fun _ => Option.none

theorem none_inv : State.none.Inv :=
  ⟨⟨nofun, nofun⟩, nofun⟩

theorem run_inv (run : Reaches step Admits .none s) : s.Inv :=
  run.invariant_of_total (fun _ _ => step_spec) none_inv

/-- **Peers agree.** In every run the other end of a port is bound to it, so `evtchn_close` never
stops the hypervisor; `virq_to_evtchn` and the lists of physical interrupts name the right ports,
once each. -/
theorem peers_agree (run : Reaches step Admits .none s) :
    (∀ d D p r q, s d = some D → (D.evtchn p).binding = .interdomain r q →
        (∃ R, s r = some R ∧ (R.evtchn q).binding = .interdomain d p) ∧
        ((D.evtchn p).xenConsumer = 0 → s.evtchnSend d p true = .ok (some (r, q)))) ∧
      (∀ a, Admits s a → ∃ s', step s a = .ok s') ∧
      ∀ d D, s d = some D →
        (∀ v n, D.virqToEvtchn v n ≠ 0 → (D.evtchn (D.virqToEvtchn v n)).binding = .virq n) ∧
        (∀ v n v' n', D.virqToEvtchn v n ≠ 0 → D.virqToEvtchn v n = D.virqToEvtchn v' n' →
          v = v' ∧ n = n') ∧
        ∀ v, ∃ l : List ℕ, l.Nodup ∧ DLinked D.next D.prev 0 l ∧ D.pirqEvtchnHead v = l.headD 0 ∧
          ∀ p, p ∈ l ↔ (∃ i n q, (D.evtchn p).binding = .pirq i n q) ∧
            (D.evtchn p).notifyVcpuId = v := by
  have inv := run_inv run
  refine ⟨fun d D p r q hd hb => ⟨?_, fun hx => ?_⟩, fun a ha => ?_, fun d D hd =>
    ⟨fun v n h => ?_, ?_, fun v => ?_⟩⟩
  · obtain ⟨hpeer, -⟩ := inv.peers d p r q (by rw [binding_eq hd, hb])
    cases hr : s r with
    | none =>
      rw [State.binding, hr] at hpeer
      cases hpeer
    | some R =>
      rw [binding_eq hr] at hpeer
      exact ⟨R, rfl, Option.some.inj hpeer⟩
  · have hvalid := (inv.doms d D hd).valid p (by rw [hb]; simp)
    rw [State.evtchnSend, hd]
    dsimp only
    rw [if_neg (not_not.2 hvalid), if_neg (not_not.2 hx), if_neg (by simp), hb]
  · obtain ⟨s', hs, -⟩ := step_spec ha inv
    exact ⟨s', hs⟩
  · exact ((inv.doms d D hd).virqs v n h).2
  · exact (inv.doms d D hd).virqs_inj
  · obtain ⟨l, hl⟩ := (inv.doms d D hd).lists.list v
    refine ⟨l, hl.nodup, hl.linked, hl.head, fun p => ?_⟩
    rw [hl.mem, Dom.Listed]
    have hirq : (D.irqOf p).isSome = true ↔ ∃ i n q, (D.evtchn p).binding = .pirq i n q := by
      rw [Dom.irqOf]
      cases (D.evtchn p).binding <;> simp [Binding.irq]
    rw [hirq]
    simp

def pvConfig : State.Config := ⟨false, false, 1, fun v => v = 0, 16⟩

/-- Domain 0 binds to a port that domain 1 offers. -/
theorem peers_agree_two : ∃ s, Reaches step Admits .none s ∧ ∃ D R, s 0 = some D ∧
    (D.evtchn 1).binding = .interdomain 1 1 ∧ s 1 = some R ∧
    (R.evtchn 1).binding = .interdomain 0 1 := by
  obtain ⟨s, run, hb⟩ : ∃ s, Reaches step Admits .none s ∧
      s.binding 0 1 = some (.interdomain 1 1) :=
    Reaches.exists_of_foldlM (l := [.create 0 pvConfig, .create 1 pvConfig,
      .allocUnbound 1 0 true true, .bindInterdomain 0 1 1 true true]) (by simp [Admits]) (by decide)
  obtain ⟨D, hD, hbind⟩ := Option.map_eq_some_iff.1 hb
  obtain ⟨⟨R, hR, hpeer⟩, -⟩ := (peers_agree run).1 0 D 1 1 1 hD hbind
  exact ⟨s, run, D, R, hD, hbind, hR, hpeer⟩

/-- **A dying domain is cut off.** In every run its ports are closed, no port of any domain is bound
to one of them, and nothing that is sent arrives at it. -/
theorem dying_domain_cut_off (run : Reaches step Admits .none s) (hd : s d = some D)
    (hdying : D.isDying = true) :
    (∀ p, D.Closed p) ∧ (∀ e E q p, s e = some E → (E.evtchn q).binding ≠ .interdomain d p) ∧
      ∀ e q policy p, s.evtchnSend e q policy ≠ .ok (some (d, p)) := by
  have inv := run_inv run
  have hclosed := inv.dying d D hd hdying
  have hpeer : ∀ e E q p, s e = some E → (E.evtchn q).binding ≠ .interdomain d p := by
    intro e E q p hE hb
    obtain ⟨hback, -⟩ := inv.peers e q d p (by rw [binding_eq hE, hb])
    rw [binding_eq hd, Option.some_inj] at hback
    simpa [Dom.Closed, hback] using hclosed p
  refine ⟨hclosed, hpeer, fun e q policy p hsend => ?_⟩
  unfold State.evtchnSend at hsend
  split at hsend
  · cases hsend
  rename_i E hE
  split_ifs at hsend
  split at hsend <;> cases hsend
  · rename_i hb
    exact hpeer e E q p hE hb
  · -- an IPI goes to the sender, whose ports are closed
    rename_i hb
    cases hd.symm.trans hE
    simpa [Dom.Closed, hb] using hclosed q

/-- Domain 1 is destroyed while domain 0 is bound to it. -/
theorem dying_domain_cut_off_peer : ∃ s, Reaches step Admits .none s ∧
    ∀ q p, s.evtchnSend 0 q true ≠ .ok (some (1, p)) := by
  obtain ⟨s, run, hs⟩ : ∃ s, Reaches step Admits .none s ∧ (s 1).map Dom.isDying = some true :=
    Reaches.exists_of_foldlM (l := [.create 0 pvConfig, .create 1 pvConfig,
      .allocUnbound 1 0 true true, .bindInterdomain 0 1 1 true true, .destroy 1]) (by simp [Admits])
      (by decide)
  obtain ⟨D, hD, hdying⟩ := Option.map_eq_some_iff.1 hs
  exact ⟨s, run, fun q => (dying_domain_cut_off run hD hdying).2.2 0 q true⟩

/-! ## A reset that leaves a port beyond the limit -/

def hvmConfig : State.Config := ⟨true, true, 1, fun v => v = 0, 16⟩

def fifoDom (evtchn : ℕ → Evtchn) (validEvtchns : ℕ) : Dom :=
  { State.newDom hvmConfig with fifo := true, maxEvtchns := fifoNrChannels, validEvtchns, evtchn }

def filledPorts (n p : ℕ) : Evtchn :=
  if p = 0 then { Evtchn.zero with binding := .reserved }
  else if p ≤ n then ⟨.unbound 0, 0, 0⟩ else .zero

def filled (n : ℕ) : Dom := fifoDom (filledPorts n) (64 * (n / 64 + 1))

theorem getFreePort_filled {n : ℕ} (hn : n < 2000) :
    (filled n).getFreePort true =
      .ok (n + 1, fifoDom (filledPorts n) (64 * ((n + 1) / 64 + 1))) := by
  have hfree : ∀ p, (filledPorts n p).binding = .free ↔ n < p := by
    intro p
    unfold filledPorts
    split
    · simp_all
    · split
      · simp_all
      · simp [Evtchn.zero]
        omega
  have hstop : ∀ p, decide (2147483647 < p ∨ (filledPorts n p).binding = .free) = true ↔
      2147483647 < p ∨ n < p := by
    intro p
    rw [decide_eq_true_iff, hfree]
  have hmin : min fifoNrChannels (64 * (n / 64 + 1)) = 64 * (n / 64 + 1) := by
    unfold fifoNrChannels
    omega
  have hsearch : (filled n).search = (List.range (64 * (n / 64 + 1))).find? fun p =>
      decide (2147483647 < p ∨ (filledPorts n p).binding = .free) := by
    rw [← hmin]
    rfl
  unfold Dom.getFreePort
  rw [show (filled n).isDying = false from rfl, hsearch, if_neg (by simp)]
  by_cases hbucket : n + 1 < 64 * (n / 64 + 1)
  · rw [List.find?_range_eq_some.2 ⟨(hstop _).2 (.inr (Nat.lt_succ_self n)),
      mem_range.2 hbucket, fun j hj => ?_⟩]
    · dsimp only
      rw [show (filled n).maxEvtchnPort = 2147483647 from rfl, if_neg (by omega), filled,
        show 64 * ((n + 1) / 64 + 1) = 64 * (n / 64 + 1) by omega]
    · rw [Bool.not_eq_true', ← Bool.not_eq_true, hstop]
      omega
  have hport : 64 * (n / 64 + 1) = n + 1 := by omega
  have hgrow : (filled n).grow = fifoDom (filledPorts n) (64 * ((n + 1) / 64 + 1)) := by
    rw [show 64 * ((n + 1) / 64 + 1) = 64 * (n / 64 + 1) + 64 by omega]
    refine congrArg (fun f => fifoDom f (64 * (n / 64 + 1) + 64)) (funext fun p => ?_)
    show (if 64 * (n / 64 + 1) ≤ p ∧ p < 64 * (n / 64 + 1) + 64 then Evtchn.zero
      else filledPorts n p) = _
    by_cases hp : 64 * (n / 64 + 1) ≤ p ∧ p < 64 * (n / 64 + 1) + 64
    · rw [if_pos hp, filledPorts, if_neg (by omega), if_neg (by omega)]
    · rw [if_neg hp]
  rw [List.find?_eq_none.2 fun j hj => ?_]
  · have hmin' : min (filled n).maxEvtchns (filled n).validEvtchns = n + 1 := by
      rw [← hport, ← hmin]
      rfl
    rw [hmin', hgrow, if_neg, if_pos rfl]
    show ¬ (n + 1 = 2 ^ 17 ∨ 2147483647 < n + 1)
    omega
  · rw [hstop]
    have := mem_range.1 hj
    omega

theorem allocUnbound_filled {n : ℕ} (hn : n < 2000) (h : s 1 = some (filled n)) :
    step s (.allocUnbound 1 0 true true) = .ok (s.setDom 1 (filled (n + 1))) := by
  have hD : (fifoDom (filledPorts n) (64 * ((n + 1) / 64 + 1))).setBinding (n + 1) (.unbound 0) =
      filled (n + 1) := by
    refine congrArg (fun f => fifoDom f (64 * ((n + 1) / 64 + 1))) (funext fun p => ?_)
    show update (filledPorts n) (n + 1)
      { filledPorts n (n + 1) with binding := .unbound 0 } p = filledPorts (n + 1) p
    unfold filledPorts
    by_cases hp : p = n + 1
    · subst hp
      simp [Evtchn.zero, show ¬ n + 1 ≤ n by omega]
    · have hle : p ≤ n ↔ p ≤ n + 1 := by omega
      simp [hp, hle]
  rw [step, State.allocUnbound, h]
  dsimp only
  rw [State.withFreePort, getFreePort_filled hn]
  dsimp only
  rw [if_pos rfl, hD]

theorem fill_ports {n : ℕ} (hn : n ≤ 2000) (h : s 1 = some (filled 0)) :
    ∃ s', (List.replicate n (.allocUnbound 1 0 true true)).foldlM step s = .ok s' ∧
      s' 1 = some (filled n) ∧ s' 0 = s 0 := by
  induction n with
  | zero => exact ⟨s, rfl, h, rfl⟩
  | succ n ih =>
    obtain ⟨s', hs', h1, h0⟩ := ih (by omega)
    refine ⟨s'.setDom 1 (filled (n + 1)), ?_, setDom_self _ _ _,
      by rw [setDom_apply, if_neg (by decide), h0]⟩
    rw [replicate_succ', foldlM_append, hs', ok_bind, foldlM_cons,
      allocUnbound_filled (by omega) h1]
    rfl

def attachedPorts (b : Binding) : ℕ → Evtchn := update (filledPorts 1023) 1024 ⟨b, 1, 0⟩

theorem allocUnboundXen_filled (h : s 1 = some (filled 1023)) :
    step s (.allocUnboundXen 1 0 0 0 true true) =
      .ok (s.setDom 1 (fifoDom (attachedPorts (.unbound 0)) 1088)) := by
  rw [step, State.allocUnboundXen, h]
  dsimp only
  rw [State.withFreePort, getFreePort_filled (by decide)]
  rfl

theorem bindInterdomain_attached (h0 : s 0 = some (State.newDom pvConfig))
    (h1 : s 1 = some (fifoDom (attachedPorts (.unbound 0)) 1088)) :
    ∃ s', step s (.bindInterdomain 0 1 1024 true true) = .ok s' ∧
      s' 1 = some (fifoDom (attachedPorts (.interdomain 0 1)) 1088) ∧
      ∃ D, s' 0 = some D ∧ D.portIsValid 1 ∧ D.evtchn 1 = ⟨.interdomain 1 1024, 0, 0⟩ := by
  have hport : (State.newDom pvConfig).getFreePort true =
      .ok (1, State.newDom pvConfig) := by
    have hsearch : (State.newDom pvConfig).search = some 1 := by decide
    unfold Dom.getFreePort
    rfl
  have hremote : s.setDom 0 (State.newDom pvConfig) 1 =
      some (fifoDom (attachedPorts (.unbound 0)) 1088) := by
    rw [setDom_apply, if_neg (by decide), h1]
  have hvalid : (fifoDom (attachedPorts (.unbound 0)) 1088).portIsValid 1024 := by
    show 1024 < 2 ^ 17 ∧ 1024 < 1088
    decide
  have hbinding : ((fifoDom (attachedPorts (.unbound 0)) 1088).evtchn 1024).binding =
      .unbound 0 := by
    show (attachedPorts (.unbound 0) 1024).binding = _
    rw [attachedPorts, update_self]
  have hbound : (fifoDom (attachedPorts (.unbound 0)) 1088).setBinding 1024 (.interdomain 0 1) =
      fifoDom (attachedPorts (.interdomain 0 1)) 1088 := by
    refine congrArg (fun f => fifoDom f 1088) ?_
    show update (attachedPorts _) 1024 { attachedPorts (.unbound 0) 1024 with
      binding := .interdomain 0 1 } = attachedPorts _
    unfold attachedPorts
    rw [update_self, update_idem]
  rw [step, State.bindInterdomain, h0, h1]
  dsimp only
  rw [hport]
  dsimp only
  rw [State.bindRemote, hremote]
  dsimp only
  rw [if_neg (by rw [hbinding]; simp [hvalid]), if_neg (by decide), setDom_apply, if_pos rfl]
  dsimp only
  rw [setDom_apply, if_neg (by decide), hremote]
  dsimp only
  rw [hbound]
  refine ⟨_, rfl, setDom_self _ _ _, _, by rw [setDom_apply, if_neg (by decide),
    setDom_apply, if_pos rfl], ?_, rfl⟩
  show 1 < 64 * 64 ∧ 1 < 64
  decide

/-- During the reset of domain 1: the attached port is still bound, and what else is open is
unbound. -/
def Resetting (D : Dom) (s : State) : Prop :=
  s 0 = some D ∧ ∃ ports : ℕ → Evtchn, s 1 = some (fifoDom ports 1088) ∧
    ports 1024 = ⟨.interdomain 0 1, 1, 0⟩ ∧
    ∀ p ≠ 1024, (ports p).binding = .free ∨ (ports p).binding = .reserved ∨
      (ports p).binding = .unbound 0

theorem Resetting.evtchnClose {D : Dom} {k : ℕ} (h : Resetting D s) :
    ∃ r s', s.evtchnClose 1 k true = .ok (r, s') ∧ Resetting D s' := by
  have same := h
  obtain ⟨h0, ports, h1, hport, hrest⟩ := h
  rw [State.evtchnClose, h1]
  dsimp only
  split
  · exact ⟨_, s, rfl, same⟩
  split
  · exact ⟨_, s, rfl, same⟩
  rename_i hguest
  have hk : k ≠ 1024 := by
    rintro rfl
    refine hguest ⟨?_, rfl⟩
    show (ports 1024).xenConsumer ≠ 0
    rw [hport]
    decide
  cases hb : ((fifoDom ports 1088).evtchn k).binding with
  | free | reserved => exact ⟨_, s, rfl, same⟩
  | unbound r =>
    refine ⟨.ok (), s.setDom 1 ((fifoDom ports 1088).freeEvtchn k), ?_, ?_,
      update ports k .zero, ?_, ?_, fun p hp => ?_⟩
    · rw [State.leave, hb]
      rfl
    · rw [setDom_apply, if_neg (by decide), h0]
    · rfl
    · rw [update_of_ne hk.symm, hport]
    · rw [update_apply]
      split
      · exact .inl rfl
      · exact hrest p hp
  | _ =>
    have hopen := hrest k hk
    rw [show (ports k).binding = _ from hb] at hopen
    rcases hopen with h | h | h <;> cases h

theorem Resetting.closeAll {D E : Dom} (h : Resetting D s) :
    ∃ s', s.closeAll 1 E true = .ok s' ∧ Resetting D s' := by
  refine Ensures.exists_ok (Ensures.foldlM_range (fun _ => Resetting D) (fun k s' _ hs => ?_) h)
  obtain ⟨r, s'', hclose, hs''⟩ := hs.evtchnClose
  rw [hclose]
  exact hs''

theorem reset_attached {D : Dom} (h0 : s 0 = some D)
    (h1 : s 1 = some (fifoDom (attachedPorts (.interdomain 0 1)) 1088)) :
    ∃ s' E, step s (.reset 1 true true) = .ok s' ∧ s' 0 = some D ∧ s' 1 = some E ∧
      E.maxEvtchns = 32 * 32 := by
  have hinit : Resetting D s := by
    refine ⟨h0, _, h1, update_self _ _ _, fun p hp => ?_⟩
    rw [attachedPorts, update_of_ne hp, filledPorts]
    split
    · exact .inr (.inl rfl)
    · split
      · exact .inr (.inr rfl)
      · exact .inl rfl
  obtain ⟨s', hall, hs0, ports, hs1, -⟩ := hinit.closeAll
    (E := fifoDom (attachedPorts (.interdomain 0 1)) 1088)
  have htwo : s'.twoLevel 1 =
      s'.setDom 1 { fifoDom ports 1088 with fifo := false, maxEvtchns := 32 * 32 } := by
    rw [State.twoLevel, hs1]
    rfl
  refine ⟨s'.twoLevel 1, _, ?_, ?_, by rw [htwo, setDom_apply, if_pos rfl], rfl⟩
  · rw [step, State.evtchnReset, h1]
    dsimp only
    rw [hall]
    rfl
  · rw [htwo, setDom_apply, if_neg (by decide), hs0]

/-- Domain 1 uses its first 1023 ports, the hypervisor attaches itself to port 1024, to which domain
0 binds, and domain 1 resets itself. -/
def resetRun : List Action :=
  [.create 0 pvConfig, .create 1 hvmConfig, .initControl 1] ++
    List.replicate 1023 (.allocUnbound 1 0 true true) ++
    [.allocUnboundXen 1 0 0 0 true true, .bindInterdomain 0 1 1024 true true, .reset 1 true true]

/-- When domain 0 closes its end, the other end is not a valid port any more. -/
theorem reset_leaves_invalid_port : ∃ s, resetRun.foldlM step .none = .ok s ∧
    step s (.close 0 1) = .error .remoteInvalid := by
  have hstart : ∃ s, [.create 0 pvConfig, .create 1 hvmConfig, .initControl 1].foldlM step
      State.none = .ok s ∧ s 0 = some (State.newDom pvConfig) ∧ s 1 = some (filled 0) := by
    refine ⟨_, rfl, rfl, ?_⟩
    refine congrArg some (congrArg (fun f => fifoDom f 64) (funext fun p => ?_))
    show (if p = 0 then _ else Evtchn.zero) = filledPorts 0 p
    unfold filledPorts
    split
    · rfl
    · rw [if_neg (by omega)]
  obtain ⟨s₀, hs₀, h00, h01⟩ := hstart
  obtain ⟨s₁, hs₁, h11, h10⟩ := fill_ports (n := 1023) (by decide) h01
  have hs₂ := allocUnboundXen_filled h11
  obtain ⟨s₃, hs₃, h31, D, h30, hvalid, hchan⟩ := bindInterdomain_attached
    (s := s₁.setDom 1 (fifoDom (attachedPorts (.unbound 0)) 1088))
    (by rw [setDom_apply, if_neg (by decide), h10, h00]) (setDom_self _ _ _)
  obtain ⟨s₄, E, hs₄, h40, h41, hmax⟩ := reset_attached h30 h31
  refine ⟨s₄, ?_, ?_⟩
  · rw [resetRun, foldlM_append, foldlM_append, hs₀, ok_bind, hs₁, ok_bind,
      foldlM_cons, hs₂, ok_bind, foldlM_cons, hs₃, ok_bind, foldlM_cons, hs₄]
    rfl
  · rw [step, State.evtchnClose, h40]
    dsimp only
    rw [if_neg (not_not.2 hvalid), hchan]
    dsimp only
    rw [State.closeInterdomain, h41]
    dsimp only
    rw [if_pos fun h => by have := h.1; omega]
    rfl

end XenVmi.EventChannel
