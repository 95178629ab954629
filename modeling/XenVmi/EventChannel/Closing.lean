import XenVmi.EventChannel.Peers

/-!
# Closing ports

`evtchn_close` frees a port and, for one end of a pair, leaves the other end unbound. It never runs
into one of its checks, and it opens nothing (`Shrinks`).
-/

namespace XenVmi.EventChannel

open Function Lib

variable {s s' : State} {D D' : Dom} {d p port v : ℕ} {c : Evtchn}

/-! ## Notification -/

theorem SameInter.setNotify : SameInter D (D.setChan p { D.evtchn p with notifyVcpuId := v }) :=
  (forall_update_iff D.evtchn fun u c => ∀ r q, c.binding = .interdomain r q ↔
    (D.evtchn u).binding = .interdomain r q).2 ⟨fun _ _ => Iff.rfl, fun _ _ _ _ => Iff.rfl⟩

theorem ne_zero_of_binding (inv : D.Base) (h : (D.evtchn p).binding ≠ .reserved) : p ≠ 0 := by
  rintro rfl
  exact h inv.zero

theorem State.Inv.setDom_open (inv : s.Inv) (hd : s d = some D) (hD : D'.Inv)
    (hsame : SameInter D D') (hdying : D'.isDying = D.isDying) (hopen : ¬ D.Closed p) :
    (s.setDom d D').Inv :=
  inv.setDom hd hD hsame fun h => absurd (inv.dying d D hd (hdying ▸ h) p) hopen

theorem notify_inv (inv : s.Inv) (hd : s d = some D) (hirq : (D.evtchn p).binding.irq = none)
    (hopen : ¬ D.Closed p) :
    (s.setDom d (D.setChan p { D.evtchn p with notifyVcpuId := v })).Inv := by
  have hD := inv.doms d D hd
  rw [Dom.Closed, not_or] at hopen
  have hp := ne_zero_of_binding hD.toBase hopen.2
  refine inv.setDom_open hd ?_ .setNotify rfl (not_or.2 hopen)
  refine hD.setChan hp (.inl hirq) (.inl hirq) (fun _ _ => Iff.rfl) (fun _ => hD.valid p hopen.1)
    (fun h => absurd h hopen.1) hopen.2 fun u n hu => ?_
  rw [← hu] at hp ⊢
  exact (hD.virqs u n hp).2

theorem move_spec (hD : D.Inv) (hirq : (D.irqOf port).isSome = true) :
    ∃ D₁ D₂, D.unlinkPirqPort port (D.evtchn port).notifyVcpuId = .ok D₁ ∧
      (D₁.setChan port { D₁.evtchn port with notifyVcpuId := v }).linkPirqPort port v = .ok D₂ ∧
      D₂.Inv ∧ SameInter D D₂ ∧ D₂.isDying = D.isDying := by
  obtain ⟨i, hi⟩ := Option.isSome_iff_exists.1 hirq
  have hp : port ≠ 0 := by
    rintro rfl
    rw [hD.lists.zero] at hi
    cases hi
  obtain ⟨D₁, hunlink, hrel₁, hlists₁⟩ := unlinkPirqPort_spec hD.lists ⟨hirq, rfl, by simp⟩
  have inv₁ := hD.relink hrel₁ hlists₁ fun q j hq _ => hD.infos q j hq (by simp)
  have hi₁ : (D₁.evtchn port).binding.irq = some i := (hrel₁.irqOf port).trans hi
  have hfree : (D₁.evtchn port).binding ≠ .free := by
    intro h
    rw [h] at hi₁
    cases hi₁
  have hres : (D₁.evtchn port).binding ≠ .reserved := fun h => hp (inv₁.reserved port h)
  have inv₂ : (D₁.setChan port { D₁.evtchn port with notifyVcpuId := v }).InvX (some port) := by
    refine inv₁.setChan hp (.inr rfl) (.inr rfl) (fun _ _ => Iff.rfl)
      (fun _ => inv₁.valid port hfree) (fun h => absurd h hfree) hres fun u n hu => ?_
    rw [← hu] at hp ⊢
    exact (inv₁.virqs u n hp).2
  obtain ⟨D₂, hlink, hrel₂, hlists₂⟩ := linkPirqPort_spec inv₂.lists
    (by rw [setChan_irqOf, if_pos rfl, hi₁]; rfl) (by rw [setChan_evtchn, if_pos rfl])
  refine ⟨D₁, D₂, hunlink, hlink, inv₂.relink hrel₂ hlists₂ fun q j hq _ => ?_,
    (hrel₁.sameInter.trans .setNotify).trans hrel₂.sameInter, ?_⟩
  · -- the interrupt of the port itself has not changed
    have hq₁ : D₁.irqOf q = some j := by
      rw [setChan_irqOf] at hq
      split at hq
      · rename_i hqp
        rw [hqp]
        exact hq
      · exact hq
    have hinfo := hD.infos q j ((hrel₁.irqOf q).symm.trans hq₁) (by simp)
    rw [hrel₁.rest]
    exact hinfo
  · rw [hrel₂.rest]
    show D₁.isDying = _
    rw [hrel₁.rest]

theorem bindVcpu_keeps {vcpu : ℕ} : Keeps s (s.bindVcpu d port vcpu) := by
  intro inv
  unfold State.bindVcpu
  split
  · exact ⟨_, s, rfl, inv⟩
  rename_i D hd
  split
  · exact ⟨_, s, rfl, inv⟩
  split
  · exact ⟨_, s, rfl, inv⟩
  split
  · exact ⟨_, s, rfl, inv⟩
  have hclosed : ∀ {b}, (D.evtchn port).binding = b → b ≠ .free → b ≠ .reserved →
      ¬ D.Closed port := by
    rintro b hb h1 h2 (h | h)
    · exact h1 (hb.symm.trans h)
    · exact h2 (hb.symm.trans h)
  split
  · rename_i n hb
    split
    · exact ⟨_, _, rfl, notify_inv inv hd (by rw [hb]; rfl)
        (hclosed hb (fun h => by cases h) fun h => by cases h)⟩
    · exact ⟨_, s, rfl, inv⟩
  · rename_i r hb
    exact ⟨_, _, rfl, notify_inv inv hd (by rw [hb]; rfl)
      (hclosed hb (fun h => by cases h) fun h => by cases h)⟩
  · rename_i r q hb
    exact ⟨_, _, rfl, notify_inv inv hd (by rw [hb]; rfl)
      (hclosed hb (fun h => by cases h) fun h => by cases h)⟩
  · rename_i i n q hb
    split
    · exact ⟨_, s, rfl, inv⟩
    have hirq : (D.irqOf port).isSome = true := by rw [Dom.irqOf, hb]; rfl
    obtain ⟨D₁, D₂, hunlink, hlink, hinv, hsame, hdying⟩ := move_spec
      (inv.doms d D hd) hirq
    refine ⟨.ok (), s.setDom d D₂, by rw [hunlink, ok_bind, hlink]; rfl, ?_⟩
    exact inv.setDom_open hd hinv hsame hdying
      (hclosed hb (fun h => by cases h) fun h => by cases h)
  all_goals exact ⟨_, s, rfl, inv⟩

/-! ## `evtchn_close` -/

structure Shrinks (D D' : Dom) : Prop where
  maxEvtchns : D'.maxEvtchns = D.maxEvtchns
  validEvtchns : D'.validEvtchns = D.validEvtchns
  fifo : D'.fifo = D.fifo
  bits : D'.bits = D.bits
  isDying : D'.isDying = D.isDying
  closed : ∀ p, D.Closed p → D'.Closed p
  attached : ∀ p, (D'.evtchn p).xenConsumer ≠ 0 → (D.evtchn p).xenConsumer ≠ 0

theorem Shrinks.refl : Shrinks D D := ⟨rfl, rfl, rfl, rfl, rfl, fun _ h => h, fun _ h => h⟩

theorem Shrinks.trans {D'' : Dom} (h : Shrinks D D') (h' : Shrinks D' D'') : Shrinks D D'' :=
  ⟨h'.maxEvtchns.trans h.maxEvtchns, h'.validEvtchns.trans h.validEvtchns, h'.fifo.trans h.fifo,
    h'.bits.trans h.bits, h'.isDying.trans h.isDying, fun p hp => h'.closed p (h.closed p hp),
    fun p hp => h.attached p (h'.attached p hp)⟩

theorem Shrinks.portIsValid (h : Shrinks D D') : D'.portIsValid p ↔ D.portIsValid p := by
  rw [Dom.portIsValid, h.maxEvtchns, h.validEvtchns]
  rfl

theorem Shrinks.setChan (hc : D.Closed p → c.binding = .free ∨ c.binding = .reserved)
    (hx : c.xenConsumer ≠ 0 → (D.evtchn p).xenConsumer ≠ 0) : Shrinks D (D.setChan p c) :=
  ⟨rfl, rfl, rfl, rfl, rfl,
    (forall_update_iff D.evtchn fun q c => D.Closed q → c.binding = .free ∨ c.binding = .reserved).2
      ⟨hc, fun _ _ => id⟩,
    (forall_update_iff D.evtchn fun q c => c.xenConsumer ≠ 0 → (D.evtchn q).xenConsumer ≠ 0).2
      ⟨hx, fun _ _ => id⟩⟩

theorem Shrinks.free : Shrinks D (D.freeEvtchn p) :=
  .setChan (fun _ => .inl rfl) fun h => absurd rfl h

theorem Relinked.shrinks (h : Relinked D D') : Shrinks D D' := by
  refine ⟨by rw [h.rest], by rw [h.rest], by rw [h.rest], by rw [h.rest], by rw [h.rest],
    fun p hp => hp.imp (h.binding_eq rfl).2 (h.binding_eq rfl).2, fun p hp => ?_⟩
  rwa [h.xenConsumer] at hp

theorem leave_spec (inv : D.Inv) (hopen : ¬ D.Closed port)
    (hinter : ∀ r q, (D.evtchn port).binding ≠ .interdomain r q) :
    ∃ D', State.leave D port = .ok D' ∧ (D'.freeEvtchn port).Inv ∧
      SameInter D (D'.freeEvtchn port) ∧ Shrinks D (D'.freeEvtchn port) := by
  rw [Dom.Closed, not_or] at hopen
  have hp := ne_zero_of_binding inv.toBase hopen.2
  have hfree : ∀ {E : Dom} {x : Option ℕ}, E.InvX x → (E.irqOf port = none ∨ x = some port) →
      (∀ q ≠ port, some q = x ↔ some q = none) → (∀ v n, E.virqToEvtchn v n ≠ port) →
      (E.freeEvtchn port).Inv := fun inv hold hx hvirq =>
    inv.setChan hp hold (.inl rfl) hx (fun h => absurd rfl h) (fun _ => rfl) nofun
      fun v n h => absurd h (hvirq v n)
  have hsame : ∀ {E : Dom}, SameInter D E → SameInter D (E.freeEvtchn port) := fun h =>
    h.trans (.setChan (fun r q hb => hinter r q ((h port r q).1 hb)) nofun)
  cases hb : (D.evtchn port).binding with
  | free => exact absurd hb hopen.1
  | reserved => exact absurd hb hopen.2
  | interdomain r q => exact absurd hb (hinter r q)
  | unbound | ipi =>
    refine ⟨D, by rw [State.leave, hb], hfree inv (.inl (by rw [Dom.irqOf, hb]; rfl))
      (fun _ _ => Iff.rfl) fun v n => inv.not_virq hp (by rw [hb]; simp), hsame .refl, .free⟩
  | virq n =>
    let t : ℕ → ℕ → ℕ := fun v m =>
      if D.hasVcpu v ∧ m = n ∧ D.virqToEvtchn v m = port then 0 else D.virqToEvtchn v m
    have ht : ∀ v m, t v m ≠ 0 → t v m = D.virqToEvtchn v m := by
      intro v m h
      simp only [t] at h ⊢
      split at h
      · exact absurd rfl h
      · rename_i hcond
        rw [if_neg hcond]
    have hnot : ∀ v m, t v m ≠ port := by
      intro v m h
      have hentry : D.virqToEvtchn v m = port := (ht v m (h ▸ hp)).symm.trans h
      obtain ⟨hvcpu, hbind⟩ := inv.virqs v m (hentry ▸ hp)
      rw [hentry, hb] at hbind
      cases hbind
      have hzero : t v n = 0 := if_pos ⟨hvcpu, rfl, hentry⟩
      exact hp (h.symm.trans hzero)
    refine ⟨D.setVirqs t, by rw [State.leave, hb], hfree (inv.clearVirqs ht)
      (.inl (by show (D.evtchn port).binding.irq = none; rw [hb]; rfl)) (fun _ _ => Iff.rfl) hnot,
      hsame fun _ _ _ => Iff.rfl, ?_⟩
    have hvirqs : Shrinks D (D.setVirqs t) := ⟨rfl, rfl, rfl, rfl, rfl, fun _ h => h, fun _ h => h⟩
    exact hvirqs.trans .free
  | pirq i n q =>
    have hirq : D.irqOf port = some i := by rw [Dom.irqOf, hb]; rfl
    have hinfo := inv.infos port i hirq (by simp)
    have hlists : (D.setInfo i (some 0)).PirqLists none := inv.lists.of_eq rfl rfl
    obtain ⟨D', hunlink, hrel, hlists'⟩ := unlinkPirqPort_spec
      hlists ⟨by show (D.irqOf port).isSome = true; rw [hirq]; rfl, rfl, by simp⟩
    have inv' : D'.InvX (some port) := by
      refine inv.toBase.setInfo.relink hrel hlists' fun r j hr hx => ?_
      have hrj := inv.infos r j hr (by simp)
      have hji : j ≠ i := by
        rintro rfl
        rw [hinfo] at hrj
        exact hx hrj.symm
      show Function.update D.pirqInfo i (some 0) j = some r
      rw [Function.update_of_ne hji, hrj]
    refine ⟨D', ?_, hfree inv' (.inr rfl) (fun r hr => by simp [hr]) (fun v m => ?_),
      hsame (fun r o => hrel.sameInter r o), Shrinks.trans ?_ (hrel.shrinks.trans .free)⟩
    · rw [State.leave, hb]
      dsimp only
      rw [hinfo]
      exact hunlink
    · refine inv'.not_virq hp ?_
      intro hv
      have hirq' : D'.irqOf port = some i := (hrel.irqOf port).trans hirq
      rw [Dom.irqOf, hv] at hirq'
      cases hirq'
    · exact ⟨rfl, rfl, rfl, rfl, rfl, fun _ h => h, fun _ h => h⟩

structure State.Shrinks (s s' : State) : Prop where
  get : ∀ {d D}, s d = some D → ∃ D', s' d = some D' ∧ EventChannel.Shrinks D D'
  of_some : ∀ d D', s' d = some D' → ∃ D, s d = some D ∧ EventChannel.Shrinks D D'

theorem State.Shrinks.refl : s.Shrinks s :=
  ⟨fun h => ⟨_, h, .refl⟩, fun _ _ h => ⟨_, h, .refl⟩⟩

theorem State.Shrinks.trans {s'' : State} (h : s.Shrinks s') (h' : s'.Shrinks s'') :
    s.Shrinks s'' := by
  constructor
  · intro d D hd
    obtain ⟨D', hd', hD⟩ := h.get hd
    obtain ⟨D'', hd'', hD'⟩ := h'.get hd'
    exact ⟨D'', hd'', hD.trans hD'⟩
  · intro d D'' hd''
    obtain ⟨D', hd', hD'⟩ := h'.of_some d D'' hd''
    obtain ⟨D, hd, hD⟩ := h.of_some d D' hd'
    exact ⟨D, hd, hD.trans hD'⟩

theorem State.Shrinks.setDom (hd : s d = some D) (h : EventChannel.Shrinks D D') :
    s.Shrinks (s.setDom d D') := by
  refine ⟨fun {e E} hE => ?_, forall_setDom ⟨D, hd, h⟩ fun e E hE => ⟨E, hE, .refl⟩⟩
  rw [setDom_apply]
  split
  · rename_i he
    rw [he, hd] at hE
    cases hE
    exact ⟨D', rfl, h⟩
  · exact ⟨E, hE, .refl⟩

theorem closeInterdomain_spec {e q : ℕ} (core : s.Core) (hd : s d = some D)
    (hb : (D.evtchn p).binding = .interdomain e q) :
    ∃ s', s.closeInterdomain d D p e q = .ok s' ∧ s'.Core ∧ s.Shrinks s' ∧
      ∃ D', s' d = some D' ∧ D'.Closed p := by
  have hD := core.doms d D hd
  have hp : p ≠ 0 := ne_zero_of_binding hD.toBase (by rw [hb]; simp)
  obtain ⟨hpeer, hne⟩ := core.peers d p e q (by rw [binding_eq hd, hb])
  cases he : s e with
  | none =>
    rw [State.binding, he] at hpeer
    cases hpeer
  | some E =>
  rw [binding_eq he, Option.some.injEq] at hpeer
  have hE := core.doms e E he
  have hq : q ≠ 0 := ne_zero_of_binding hE.toBase (by rw [hpeer]; simp)
  have hvalid := hE.valid q (by rw [hpeer]; simp)
  obtain ⟨E', hE', hchan, hvalid', -⟩ := other_port hd he hne
  rw [← Dom.freeEvtchn] at hE'
  have hdoms : ∀ r R, s.setDom d (D.freeEvtchn p) r = some R → R.Inv := by
    refine forall_setDom ?_ core.doms
    exact hD.setChan hp (.inl (by rw [hb]; rfl)) (.inl rfl) (fun _ _ => Iff.rfl)
      (fun h => absurd rfl h) (fun _ => rfl) (fun h => by cases h)
      fun v n hv => absurd hv (hD.not_virq hp (by rw [hb]; simp))
  have hdoms' := setBinding_doms (b := .unbound d) hdoms hE' hq (by rw [hchan, hpeer]; rfl) rfl
    (fun h => by cases h) (fun h => by cases h) ((hvalid' q).2 hvalid) (by rw [hchan, hpeer]; simp)
  have hbind : ∀ r o, (s.setDom d (D.freeEvtchn p)).binding r o =
      if r = d ∧ o = p then some .free else s.binding r o := binding_setChan hd .zero
  refine ⟨(s.setDom d (D.freeEvtchn p)).setDom e (E'.setBinding q (.unbound d)), ?_,
    ⟨hdoms', ?_⟩, ?_, ?_⟩
  · rw [State.closeInterdomain, he]
    dsimp only
    rw [if_neg (not_not.2 hvalid), hpeer]
    dsimp only
    rw [if_neg (not_not.2 rfl), hE']
  · refine core.peers.part (by rw [binding_eq hd, hb]) ?_ ?_ ?_
    · intro r o h
      rw [binding_setDom hE', hbind] at h
      split at h
      · cases h
      · rw [if_pos ⟨rfl, rfl⟩] at h
        cases h
    · intro r o h
      rw [binding_setDom hE', if_pos ⟨rfl, rfl⟩] at h
      cases h
    · intro r o h1 h2
      rw [binding_setDom hE', if_neg, hbind, if_neg]
      · rintro ⟨rfl, rfl⟩
        exact h1 rfl
      · rintro ⟨rfl, rfl⟩
        exact h2 rfl
  · refine (State.Shrinks.setDom hd .free).trans (.setDom hE' (.setChan (fun hcl => ?_) fun h => h))
    rcases hcl with h | h <;> rw [hchan, hpeer] at h <;> cases h
  · rw [setDom_apply]
    by_cases hde : d = e
    · rw [if_pos hde]
      refine ⟨_, rfl, .inl ?_⟩
      have hEd : E' = D.freeEvtchn p := by
        rw [setDom_apply, if_pos hde.symm] at hE'
        exact (Option.some.inj hE').symm
      rw [hEd, Dom.setBinding, setChan_evtchn, if_neg, Dom.freeEvtchn, setChan_evtchn, if_pos rfl]
      · rfl
      · rintro rfl
        exact hne (by rw [hde])
    · rw [if_neg hde, setDom_apply, if_pos rfl]
      refine ⟨_, rfl, .inl ?_⟩
      rw [Dom.freeEvtchn, setChan_evtchn, if_pos rfl]
      rfl

theorem evtchnClose_spec (port : ℕ) (guest : Bool) (core : s.Core) (hd : s d = some D) :
    ∃ r s', s.evtchnClose d port guest = .ok (r, s') ∧ s'.Core ∧ s.Shrinks s' ∧
      (D.portIsValid port → (D.evtchn port).xenConsumer ≠ 0 ∧ guest = true ∨
        ∃ D', s' d = some D' ∧ D'.Closed port) := by
  rw [State.evtchnClose, hd]
  dsimp only
  split
  · rename_i hinvalid
    exact ⟨_, s, rfl, core, .refl, fun h => absurd h hinvalid⟩
  split
  · rename_i hxen
    exact ⟨_, s, rfl, core, .refl, fun _ => .inl hxen⟩
  have hD := core.doms d D hd
  cases hb : (D.evtchn port).binding with
  | free => exact ⟨_, s, rfl, core, .refl, fun _ => .inr ⟨D, hd, .inl hb⟩⟩
  | reserved => exact ⟨_, s, rfl, core, .refl, fun _ => .inr ⟨D, hd, .inr hb⟩⟩
  | interdomain e q =>
    obtain ⟨s', hclose, hcore, hshrinks, hclosed⟩ := closeInterdomain_spec core hd hb
    exact ⟨.ok (), s', by dsimp only; rw [hclose]; rfl, hcore, hshrinks, fun _ => .inr hclosed⟩
  | _ =>
    have hopen : ¬ D.Closed port := by
      rintro (h | h) <;> rw [hb] at h <;> cases h
    obtain ⟨D', hleave, hinv, hsame, hshrinks⟩ := leave_spec hD hopen (by rw [hb]; simp)
    refine ⟨.ok (), s.setDom d (D'.freeEvtchn port), by rw [hleave]; rfl,
      core.setDom hd hinv hsame,
      .setDom hd hshrinks, fun _ => .inr ⟨_, setDom_self _ _ _, .inl ?_⟩⟩
    rw [Dom.freeEvtchn, setChan_evtchn, if_pos rfl]
    rfl

/-! ## Closing all ports -/

theorem closeAll_spec (guest : Bool) {n : ℕ} (core : s.Core) (hd : s d = some D)
    (hn : ∀ p < n, D.portIsValid p) :
    ∃ s', (List.range n).foldlM (fun s port => do
        let r ← s.evtchnClose d port guest
        return r.2) s = .ok s' ∧ s'.Core ∧ s.Shrinks s' ∧
      ∃ D', s' d = some D' ∧ ∀ p < n, (D.evtchn p).xenConsumer ≠ 0 ∧ guest = true ∨
        D'.Closed p := by
  refine Ensures.exists_ok (Ensures.foldlM_range (fun k s' => s'.Core ∧ s.Shrinks s' ∧
    ∃ D', s' d = some D' ∧ ∀ p < k, (D.evtchn p).xenConsumer ≠ 0 ∧ guest = true ∨ D'.Closed p)
    (fun k s' hk hs => ?_) ⟨core, .refl, D, hd, fun p hp => absurd hp (Nat.not_lt_zero p)⟩)
  obtain ⟨hcore, hshr, E, hE, hclosed⟩ := hs
  obtain ⟨E', hE', hDE⟩ := hshr.get hd
  rw [hE] at hE'
  cases hE'
  obtain ⟨r, s'', hclose, hcore', hshr', hport⟩ := evtchnClose_spec k guest hcore hE
  obtain ⟨E'', hE'', hEE⟩ := hshr'.get hE
  rw [hclose]
  refine ⟨hcore', hshr.trans hshr', E'', hE'', fun p hp => ?_⟩
  rcases Nat.lt_succ_iff_lt_or_eq.1 hp with hp | rfl
  · exact (hclosed p hp).imp_right (hEE.closed p)
  · rcases hport (hDE.portIsValid.2 (hn p hk)) with ⟨hx, hg⟩ | ⟨F, hF, hcl⟩
    · exact .inl ⟨hDE.attached p hx, hg⟩
    · rw [hE''] at hF
      cases hF
      exact .inr hcl

theorem valid_of_lt_min {n : ℕ} (h : n < min D.maxEvtchns D.validEvtchns) : D.portIsValid n := by
  constructor <;> omega

theorem State.Shrinks.dying (h : s.Shrinks s')
    (hs : ∀ d D, s d = some D → D.isDying = true → ∀ p, D.Closed p) :
    ∀ d D, s' d = some D → D.isDying = true → ∀ p, D.Closed p := by
  intro e E hE hdying p
  obtain ⟨F, hF, hFE⟩ := h.of_some e E hE
  exact hFE.closed p (hs e F hF (hFE.isDying.symm.trans hdying) p)

def ResetFits (D : Dom) : Prop := ∀ p, (D.evtchn p).xenConsumer ≠ 0 → p < D.bits * D.bits

theorem evtchnReset_keeps {self policy : Bool}
    (h : ∀ D, s d = some D → self = true → D.fifo = true → policy = true → ResetFits D) :
    Keeps s (s.evtchnReset d self policy) := by
  intro inv
  unfold State.evtchnReset
  split
  · exact ⟨_, s, rfl, inv⟩
  rename_i D hd
  split
  · exact ⟨_, s, rfl, inv⟩
  rename_i hpolicy
  rw [Bool.not_eq_false] at hpolicy
  obtain ⟨s', hclose, hcore, hshr, D', hD', hclosed⟩ := closeAll_spec true inv.toCore hd
    fun p => valid_of_lt_min
  have hdying := hshr.dying inv.dying
  rw [State.closeAll, hclose]
  refine ⟨.ok (), _, rfl, ?_⟩
  split
  · rename_i hself
    obtain ⟨E, hE, hDE⟩ := hshr.get hd
    rw [hD'] at hE
    cases hE
    have inv' := hcore.doms d D' hD'
    have hfits := h D hd hself.1 hself.2 hpolicy
    rw [State.twoLevel, hD']
    refine State.Inv.setDom ⟨hcore, hdying⟩ hD' ⟨⟨inv'.zero, inv'.reserved,
      ⟨inv'.limits.1, inv'.limits.2.1, inv'.limits.2.1⟩, fun p hp => ?_, inv'.clean, inv'.virqs,
        inv'.virqs_inj⟩, inv'.infos,
      inv'.lists.of_eq rfl rfl⟩ (fun _ _ _ => Iff.rfl) (hdying d D' hD')
    -- what is still open is attached to the hypervisor, or port 0
    have hvalid := hDE.portIsValid.1 (inv'.valid p hp)
    refine ⟨?_, (inv'.valid p hp).2⟩
    show p < D'.bits * D'.bits
    rw [hDE.bits]
    rcases hclosed p (by have := hvalid.1; have := hvalid.2; omega) with ⟨hx, -⟩ | hcl | hcl
    · exact hfits p hx
    · exact absurd hcl hp
    · rw [inv'.reserved p hcl]
      have := (inv.doms d D hd).limits.1
      exact Nat.mul_pos this this
  · exact ⟨hcore, hdying⟩

theorem evtchnDestroy_spec (inv : s.Inv) : ∃ s', s.evtchnDestroy d = .ok s' ∧ s'.Inv := by
  unfold State.evtchnDestroy
  split
  · exact ⟨s, rfl, inv⟩
  rename_i D hd
  have hD := inv.doms d D hd
  have hdying : Dom.Inv { D with isDying := true } := hD.setFlags
  have hcore := inv.toCore.setDom hd hdying fun _ _ _ => Iff.rfl
  obtain ⟨s', hclose, hcore', hshr, D', hD', hclosed⟩ := closeAll_spec false hcore
    (setDom_self _ _ _)
    fun p hp => valid_of_lt_min hp
  refine ⟨s', hclose, hcore', fun e E hE hdead p => ?_⟩
  by_cases he : e = d
  · -- every valid port has been closed, and the others are free
    subst he
    rw [hD'] at hE
    cases hE
    obtain ⟨F, hF, hDF⟩ := hshr.get (setDom_self _ _ _)
    rw [hD'] at hF
    cases hF
    by_cases hp : p < min D.maxEvtchns D.validEvtchns
    · exact (hclosed p hp).resolve_left fun h => by cases h.2
    · refine .inl (by_contra fun hfree => hp ?_)
      obtain ⟨h1, h2⟩ := hDF.portIsValid.1 ((hcore'.doms _ _ hD').valid p hfree)
      exact Nat.lt_min.2 ⟨h1, h2⟩
  · obtain ⟨F, hF, hFE⟩ := hshr.of_some e E hE
    rw [setDom_apply, if_neg he] at hF
    exact hFE.closed p (inv.dying e F hF (hFE.isDying.symm.trans hdead) p)

end XenVmi.EventChannel
