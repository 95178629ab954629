import XenVmi.EventChannel.Tables

/-!
# Peers agree

Two ports that are bound to one another name one another (`Paired`). `evtchn_bind_interdomain` makes
such a pair, `evtchn_close` undoes one; everything else binds nothing to a port of a domain
(`SameInter`). `State.Core` does not say what a dying domain looks like.
-/

namespace XenVmi.EventChannel

open Function Lib

variable {s s' : State} {D D' : Dom} {d p port : ℕ} {c : Evtchn}

/-! ## Pairs -/

def State.binding (s : State) (d p : ℕ) : Option Binding := (s d).map fun D => (D.evtchn p).binding

theorem binding_eq (h : s d = some D) : s.binding d p = some (D.evtchn p).binding := by
  rw [State.binding, h]
  rfl

def Paired (b : ℕ → ℕ → Option Binding) : Prop :=
  ∀ d p r q, b d p = some (.interdomain r q) → b r q = some (.interdomain d p) ∧ (r, q) ≠ (d, p)

section Paired

variable {b b' : ℕ → ℕ → Option Binding} {e q : ℕ}

theorem Paired.congr (h : Paired b)
    (same : ∀ d p r q, b' d p = some (.interdomain r q) ↔ b d p = some (.interdomain r q)) :
    Paired b' := by
  intro d p r q hb
  obtain ⟨hpeer, hne⟩ := h d p r q ((same d p r q).1 hb)
  exact ⟨(same r q d p).2 hpeer, hne⟩

theorem Paired.join (h : Paired b) (hd : ∀ r o, b d p ≠ some (.interdomain r o))
    (he : ∀ r o, b e q ≠ some (.interdomain r o)) (hne : (e, q) ≠ (d, p))
    (hd' : b' d p = some (.interdomain e q)) (he' : b' e q = some (.interdomain d p))
    (helse : ∀ r o, (r, o) ≠ (d, p) → (r, o) ≠ (e, q) → b' r o = b r o) : Paired b' := by
  intro r o r' o' hb
  by_cases h1 : (r, o) = (d, p)
  · cases h1
    rw [hd'] at hb
    cases hb
    exact ⟨he', hne⟩
  by_cases h2 : (r, o) = (e, q)
  · cases h2
    rw [he'] at hb
    cases hb
    exact ⟨hd', hne.symm⟩
  rw [helse r o h1 h2] at hb
  obtain ⟨hpeer, hself⟩ := h r o r' o' hb
  -- the other end was bound to a port, so it is neither of the two
  have h3 : (r', o') ≠ (d, p) := by
    intro heq
    cases heq
    exact hd r o hpeer
  have h4 : (r', o') ≠ (e, q) := by
    intro heq
    cases heq
    exact he r o hpeer
  exact ⟨(helse r' o' h3 h4).trans hpeer, hself⟩

theorem Paired.part (h : Paired b) (hd : b d p = some (.interdomain e q))
    (hd' : ∀ r o, b' d p ≠ some (.interdomain r o)) (he' : ∀ r o, b' e q ≠ some (.interdomain r o))
    (helse : ∀ r o, (r, o) ≠ (d, p) → (r, o) ≠ (e, q) → b' r o = b r o) : Paired b' := by
  intro r o r' o' hb
  by_cases h1 : (r, o) = (d, p)
  · cases h1
    exact absurd hb (hd' r' o')
  by_cases h2 : (r, o) = (e, q)
  · cases h2
    exact absurd hb (he' r' o')
  rw [helse r o h1 h2] at hb
  obtain ⟨hpeer, hself⟩ := h r o r' o' hb
  have h3 : (r', o') ≠ (d, p) := by
    intro heq
    cases heq
    rw [hd] at hpeer
    cases hpeer
    exact h2 rfl
  have h4 : (r', o') ≠ (e, q) := by
    intro heq
    cases heq
    rw [(h d p _ _ hd).1] at hpeer
    cases hpeer
    exact h1 rfl
  exact ⟨(helse r' o' h3 h4).trans hpeer, hself⟩

end Paired

/-! ## The invariant -/

structure State.Core (s : State) : Prop where
  doms : ∀ d D, s d = some D → D.Inv
  peers : Paired s.binding

structure State.Inv (s : State) : Prop extends s.Core where
  dying : ∀ d D, s d = some D → D.isDying = true → ∀ p, D.Closed p

theorem setDom_apply (s : State) (d : ℕ) (D : Dom) (e : ℕ) :
    s.setDom d D e = if e = d then some D else s e := update_apply _ _ _ _

@[simp] theorem setDom_self (s : State) (d : ℕ) (D : Dom) : s.setDom d D d = some D :=
  update_self _ _ _

theorem forall_setDom {P : ℕ → Dom → Prop} (hnew : P d D) (hold : ∀ e E, s e = some E → P e E) :
    ∀ e E, s.setDom d D e = some E → P e E := by
  intro e E hE
  rw [setDom_apply] at hE
  split at hE
  · rename_i he
    cases hE
    exact he ▸ hnew
  · exact hold e E hE

theorem Paired.update {x : Option Dom} (h : Paired s.binding)
    (hx : ∀ p r q, x.map (fun D => (D.evtchn p).binding) = some (.interdomain r q) ↔
      s.binding d p = some (.interdomain r q)) : Paired (State.binding (update s d x)) := by
  refine h.congr fun e p r q => ?_
  rw [State.binding, update_apply]
  split
  · rename_i he
    rw [he]
    exact hx p r q
  · rfl

theorem State.Core.setDom (core : s.Core) (hd : s d = some D) (hD : D'.Inv)
    (hsame : SameInter D D') :
    (s.setDom d D').Core := by
  refine ⟨forall_setDom hD core.doms, core.peers.update fun p r q => ?_⟩
  rw [binding_eq hd, Option.map_some, Option.some.injEq, Option.some.injEq]
  exact hsame p r q

theorem State.Inv.setDom (inv : s.Inv) (hd : s d = some D) (hD : D'.Inv) (hsame : SameInter D D')
    (hdying : D'.isDying = true → ∀ p, D'.Closed p) : (s.setDom d D').Inv :=
  ⟨inv.toCore.setDom hd hD hsame, forall_setDom hdying inv.dying⟩

/-! ## Allocating -/

theorem FreePort.alive' (h : FreePort D D' port) : D'.isDying = false := by
  rw [h.rest]
  exact h.alive

theorem State.Inv.grown (inv : s.Inv) (hd : s d = some D) (h : FreePort D D' port) :
    (s.setDom d D').Inv :=
  inv.setDom hd h.inv h.sameInter fun hdying => by
    rw [h.alive'] at hdying
    cases hdying

variable {memory policy : Bool} {irq : ℕ}

theorem withFreePort_inv {bind : Dom → ℕ → Except Errno Dom} (inv : s.Inv) (hd : s d = some D)
    (hbind : ∀ D' port D'', FreePort D D' port → bind D' port = .ok D'' →
      D''.Inv ∧ SameInter D' D'' ∧ D''.isDying = D'.isDying) :
    (s.withFreePort d D memory bind).2.Inv := by
  unfold State.withFreePort
  split
  · exact inv
  rename_i port D' hport
  have hfree := getFreePort_spec (inv.doms d D hd) hport
  split
  · exact inv.grown hd hfree
  · rename_i D'' hD''
    obtain ⟨hinv, hsame, hdying⟩ := hbind D' port D'' hfree hD''
    refine inv.setDom hd hinv (hfree.sameInter.trans hsame) fun h => ?_
    rw [hdying, hfree.alive'] at h
    cases h

theorem FreePort.bindPlain (h : FreePort D D' port) (hirq : c.binding.irq = none)
    (hfree : c.binding ≠ .free) (hres : c.binding ≠ .reserved)
    (hinter : ∀ r q, c.binding ≠ .interdomain r q) :
    (D'.setChan port c).Inv ∧ SameInter D' (D'.setChan port c) ∧
      (D'.setChan port c).isDying = D'.isDying :=
  ⟨h.bind hirq hfree hres, .setChan (by rw [h.chan]; intro r q hb; cases hb) hinter, rfl⟩

theorem allocUnbound_inv {remote : ℕ} (inv : s.Inv) :
    (s.allocUnbound d remote memory policy).2.Inv := by
  unfold State.allocUnbound
  split
  · exact inv
  · rename_i D hd
    refine withFreePort_inv inv hd fun D' port D'' hfree h => ?_
    split at h <;> cases h
    exact hfree.bindPlain rfl nofun nofun nofun

theorem allocUnboundXen_inv {vcpu remote consumer : ℕ} (inv : s.Inv) :
    (s.allocUnboundXen d vcpu remote consumer memory policy).2.Inv := by
  unfold State.allocUnboundXen
  split
  · exact inv
  · rename_i D hd
    refine withFreePort_inv inv hd fun D' port D'' hfree h => ?_
    split at h <;> cases h
    exact hfree.bindPlain rfl nofun nofun nofun

theorem bindIpi_inv {vcpu : ℕ} (inv : s.Inv) : (s.bindIpi d vcpu memory).2.Inv := by
  unfold State.bindIpi
  split
  · exact inv
  rename_i D hd
  split
  · exact inv
  refine withFreePort_inv inv hd fun D' port D'' hfree h => ?_
  cases h
  exact hfree.bindPlain rfl nofun nofun nofun

theorem bindVirq_inv {virq vcpu : ℕ} (inv : s.Inv) : (s.bindVirq d virq vcpu memory).2.Inv := by
  unfold State.bindVirq
  split
  · exact inv
  rename_i D hd
  split
  · exact inv
  split
  · exact inv
  split
  · exact inv
  split
  · exact inv
  rename_i hvcpu _
  refine withFreePort_inv inv hd fun D' port D'' hfree h => ?_
  cases h
  have hbound := hfree.bindPlain
    (c := { D'.evtchn port with binding := .virq virq, notifyVcpuId := vcpu }) rfl
    nofun nofun nofun
  refine ⟨?_, hbound.2.1, hbound.2.2⟩
  refine Dom.InvX.addVirq hbound.1 ?_ ?_ fun u m => ?_
  · have : D'.hasVcpu vcpu := by
      rw [hfree.rest]
      exact not_not.1 hvcpu
    exact this
  · rw [setChan_evtchn, if_pos rfl]
  · exact hfree.inv.not_virq hfree.ne_zero (by rw [hfree.chan]; intro h; cases h)

/-! ## Binding to a port of a domain -/

theorem binding_setChan (hd : s d = some D) (c : Evtchn) (e q : ℕ) :
    (s.setDom d (D.setChan p c)).binding e q =
      if e = d ∧ q = p then some c.binding else s.binding e q := by
  unfold State.binding
  rw [setDom_apply]
  by_cases he : e = d
  · rw [if_pos he, he, hd, Option.map_some, setChan_evtchn]
    by_cases hq : q = p <;> simp [hq]
  · simp [he]

theorem binding_setDom (hd : s d = some D) (b : Binding) (e q : ℕ) :
    (s.setDom d (D.setBinding p b)).binding e q =
      if e = d ∧ q = p then some b else s.binding e q := binding_setChan hd _ e q

theorem setBinding_doms {b : Binding} (hdoms : ∀ d D, s d = some D → D.Inv) (hd : s d = some D)
    (hp : p ≠ 0) (hirq : (D.evtchn p).binding.irq = none) (hb : b.irq = none) (hfree : b ≠ .free)
    (hres : b ≠ .reserved) (hvalid : D.portIsValid p)
    (hvirq : ∀ n, (D.evtchn p).binding ≠ .virq n) :
    ∀ e E, s.setDom d (D.setBinding p b) e = some E → E.Inv := by
  have inv := hdoms d D hd
  refine forall_setDom ?_ hdoms
  exact inv.setChan hp (.inl hirq) (.inl hb) (fun _ _ => Iff.rfl) (fun _ => hvalid)
    (fun h => absurd h hfree) hres fun v n hv => absurd hv (inv.not_virq hp (hvirq n))

theorem other_port {e q : ℕ} {E : Dom} (hd : s d = some D) (he : s e = some E)
    (hne : (e, q) ≠ (d, p)) :
    ∃ E', s.setDom d (D.setChan p c) e = some E' ∧ E'.evtchn q = E.evtchn q ∧
      (∀ o, E'.portIsValid o ↔ E.portIsValid o) ∧ E'.isDying = E.isDying := by
  by_cases hsame : e = d
  · subst hsame
    rw [hd] at he
    cases he
    refine ⟨D.setChan p c, setDom_self _ _ _, ?_, fun _ => Iff.rfl, rfl⟩
    rw [setChan_evtchn, if_neg]
    rintro rfl
    exact hne rfl
  · exact ⟨E, by rw [setDom_apply, if_neg hsame, he], rfl, fun _ => Iff.rfl, rfl⟩

theorem bindRemote_inv {ld lport rd rport : ℕ} {L : Dom} (inv : s.Inv)
    (hld : s ld = some L) (hchan : L.evtchn lport = .zero) (hlport : lport ≠ 0)
    (hvalid : L.portIsValid lport) (halive : L.isDying = false) :
    (s.bindRemote ld lport rd rport policy).2.Inv := by
  unfold State.bindRemote
  split
  · exact inv
  rename_i R hrd
  split
  · exact inv
  rename_i hremote
  rw [not_or, not_not, not_not] at hremote
  obtain ⟨hrvalid, hunbound⟩ := hremote
  split
  · exact inv
  rw [hld]
  dsimp only
  have hlbinding : (L.evtchn lport).binding = .free := by rw [hchan]; rfl
  have hne : (rd, rport) ≠ (ld, lport) := by
    rintro heq
    cases heq
    rw [hld] at hrd
    cases hrd
    rw [hlbinding] at hunbound
    cases hunbound
  have hrport : rport ≠ 0 := by
    rintro rfl
    rw [(inv.doms rd R hrd).zero] at hunbound
    cases hunbound
  obtain ⟨R', hR', hrchan, hrvalid', hrdying⟩ := other_port
    hld hrd hne
  rw [← Dom.setBinding] at hR'
  rw [hR']
  have hdoms := setBinding_doms (b := .interdomain rd rport) inv.doms hld hlport
    (by rw [hlbinding]; rfl) rfl nofun nofun hvalid (by rw [hlbinding]; intro n h; cases h)
  have hdoms' := setBinding_doms (b := .interdomain ld lport) hdoms hR' hrport
    (by rw [hrchan, hunbound]; rfl) rfl nofun nofun
    ((hrvalid' rport).2 hrvalid)
    (by rw [hrchan, hunbound]; intro n h; cases h)
  refine ⟨⟨hdoms', ?_⟩, ?_⟩
  · refine inv.peers.join ?_ ?_ hne ?_ ?_ ?_
    · rw [binding_eq hld, hlbinding]
      intro r o h
      cases h
    · rw [binding_eq hrd, hunbound]
      intro r o h
      cases h
    · rw [binding_setDom hR', if_neg, binding_setDom hld, if_pos ⟨rfl, rfl⟩]
      rintro ⟨rfl, rfl⟩
      exact hne rfl
    · rw [binding_setDom hR', if_pos ⟨rfl, rfl⟩]
    · intro r o h1 h2
      rw [binding_setDom hR', if_neg, binding_setDom hld, if_neg]
      · rintro ⟨rfl, rfl⟩
        exact h1 rfl
      · rintro ⟨rfl, rfl⟩
        exact h2 rfl
  · refine forall_setDom (fun hdying => ?_) (forall_setDom (fun hdying => ?_) inv.dying)
    · -- a dying domain has no unbound port
      have hRdying : R.isDying = true := hrdying ▸ hdying
      rcases inv.dying rd R hrd hRdying rport with h | h <;> rw [hunbound] at h <;> cases h
    · rw [show (L.setBinding lport (.interdomain rd rport)).isDying = L.isDying from rfl,
        halive] at hdying
      cases hdying

theorem bindInterdomain_inv {ld rd rport : ℕ} (inv : s.Inv) :
    (s.bindInterdomain ld rd rport memory policy).2.Inv := by
  unfold State.bindInterdomain
  split
  · rename_i _ L _ hld
    split
    · exact inv
    · rename_i lport L' hport
      have hfree := getFreePort_spec (inv.doms ld L hld) hport
      exact bindRemote_inv (inv.grown hld hfree) (setDom_self _ _ _) hfree.chan hfree.ne_zero
        hfree.valid hfree.alive'
  · exact inv

/-! ## Physical interrupts -/

theorem Dom.Base.setInfo {info : Option ℕ} (inv : D.Base) : (D.setInfo irq info).Base :=
  ⟨inv.zero, inv.reserved, inv.limits, inv.valid, inv.clean, inv.virqs, inv.virqs_inj⟩

theorem Dom.InvX.setInfo {x info : Option ℕ} (inv : D.InvX x)
    (h : ∀ p, D.irqOf p = some irq → some p ≠ x → info = some p) : (D.setInfo irq info).InvX x := by
  refine ⟨inv.toBase.setInfo, fun p i hp hx => ?_, inv.lists.of_eq rfl rfl⟩
  show update D.pirqInfo irq info i = some p
  by_cases hi : i = irq
  · subst hi
    rw [update_self]
    exact h p hp hx
  · rw [update_of_ne hi]
    exact inv.infos p i hp hx

theorem bindPirqPort_spec (pirq : ℕ) (env : State.PirqEnv) (h : FreePort D D' port)
    (hinfo : (D'.pirqInfo pirq).getD 0 = 0) :
    ∃ r D'', State.bindPirqPort D' port pirq env = .ok (r, D'') ∧ D''.Inv ∧ SameInter D' D'' ∧
      D''.isDying = D'.isDying := by
  -- an interrupt whose `evtchn` field is zero has no port
  have hnone : ∀ q, D'.irqOf q ≠ some pirq := by
    intro q hq
    have hsome := h.inv.infos q pirq hq (by simp)
    rw [hsome] at hinfo
    have hzero : q = 0 := hinfo
    rw [hzero, h.inv.lists.zero] at hq
    cases hq
  have hset : ∀ info, (D'.setInfo pirq info).InvX none := fun info =>
    Dom.InvX.setInfo h.inv fun q hq => absurd hq (hnone q)
  unfold State.bindPirqPort
  split
  · exact ⟨_, _, rfl, h.inv, .refl, rfl⟩
  split
  · exact ⟨_, _, rfl, hset _, fun _ _ _ => Iff.rfl, rfl⟩
  have hbound : ((D'.setInfo pirq (some port)).setBinding port (.pirq pirq 0 0)).InvX (some port) :=
    (hset (some port)).setChan h.ne_zero
    (.inl (by show (D'.evtchn port).binding.irq = _; rw [h.chan]; rfl))
      (.inr rfl) (fun q hq => by simp [hq]) (fun _ => h.valid) nofun nofun
      fun v n hv => absurd hv (h.inv.not_virq h.ne_zero (by rw [h.chan]; intro hb; cases hb))
  have hchan : ((D'.setInfo pirq (some port)).setBinding port (.pirq pirq 0 0)).evtchn port =
      ⟨.pirq pirq 0 0, 0, 0⟩ := by
    rw [Dom.setBinding, setChan_evtchn, if_pos rfl]
    show ({ D'.evtchn port with binding := .pirq pirq 0 0 } : Evtchn) = _
    rw [h.chan]
    rfl
  obtain ⟨D'', hlink, hrel, hlists⟩ := linkPirqPort_spec hbound.lists
    (by rw [Dom.irqOf, hchan]; rfl) (by rw [hchan])
  refine ⟨.ok port, D'', by rw [hlink]; rfl, hbound.relink hrel hlists fun q i hq _ => ?_, ?_, ?_⟩
  · by_cases hqp : q = port
    · subst hqp
      rw [Dom.irqOf, hchan] at hq
      cases hq
      exact update_self _ _ _
    · exact hbound.infos q i hq fun heq => hqp (Option.some.inj heq)
  · refine SameInter.trans (SameInter.setChan ?_ ?_) hrel.sameInter
    · show ∀ r q, (D'.evtchn port).binding ≠ _
      rw [h.chan]
      intro r q hb
      cases hb
    · intro r q hb
      cases hb
  · rw [hrel.rest]
    rfl

def Keeps (s : State) {α : Type} (x : Except Bug (α × State)) : Prop :=
  s.Inv → ∃ r s', x = .ok (r, s') ∧ s'.Inv

theorem bindPirq_keeps {pirq : ℕ} {env : State.PirqEnv} :
    Keeps s (s.bindPirq d pirq env memory) := by
  intro inv
  unfold State.bindPirq
  split
  · exact ⟨_, s, rfl, inv⟩
  rename_i D hd
  split
  · exact ⟨_, s, rfl, inv⟩
  split
  · exact ⟨_, s, rfl, inv⟩
  split
  · exact ⟨_, s, rfl, inv⟩
  rename_i hinfo
  split
  · exact ⟨_, s, rfl, inv⟩
  rename_i port D' hport
  have hfree := getFreePort_spec (inv.doms d D hd) hport
  obtain ⟨r, D'', hbind, hinv, hsame, hdying⟩ := bindPirqPort_spec pirq env hfree
    (by rw [hfree.rest]; exact not_not.1 hinfo)
  refine ⟨r, s.setDom d D'', by rw [hbind]; rfl,
    inv.setDom hd hinv (hfree.sameInter.trans hsame) ?_⟩
  intro h
  rw [hdying, hfree.alive'] at h
  cases h

end XenVmi.EventChannel
