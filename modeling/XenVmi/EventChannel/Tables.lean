import XenVmi.EventChannel.Pirqs

/-!
# The tables of a domain

`Dom.InvX D x`: what holds of the tables of one domain, where the port `x` may be bound to a
physical interrupt without being on a list, and how it survives the writes the operations are made
of.
-/

namespace XenVmi.EventChannel

open Function Lib

variable {D D' : Dom} {x x' : Option ℕ} {p port v i : ℕ} {c : Evtchn}

def Dom.Closed (D : Dom) (p : ℕ) : Prop :=
  (D.evtchn p).binding = .free ∨ (D.evtchn p).binding = .reserved

structure Dom.Base (D : Dom) : Prop where
  zero : (D.evtchn 0).binding = .reserved
  reserved : ∀ p, (D.evtchn p).binding = .reserved → p = 0
  limits : 0 < D.bits ∧ D.bits * D.bits ≤ fifoNrChannels ∧ D.maxEvtchns ≤ fifoNrChannels
  valid : ∀ p, (D.evtchn p).binding ≠ .free → D.portIsValid p
  clean : ∀ p, (D.evtchn p).binding = .free → D.evtchn p = .zero
  virqs : ∀ v n, D.virqToEvtchn v n ≠ 0 →
    D.hasVcpu v ∧ (D.evtchn (D.virqToEvtchn v n)).binding = .virq n
  virqs_inj : ∀ v n v' n', D.virqToEvtchn v n ≠ 0 → D.virqToEvtchn v n = D.virqToEvtchn v' n' →
    v = v' ∧ n = n'

structure Dom.InvX (D : Dom) (x : Option ℕ) : Prop extends D.Base where
  infos : ∀ p i, D.irqOf p = some i → some p ≠ x → D.pirqInfo i = some p
  lists : D.PirqLists x

def Dom.Inv (D : Dom) : Prop := D.InvX none

def SameInter (D D' : Dom) : Prop :=
  ∀ p r q, (D'.evtchn p).binding = .interdomain r q ↔ (D.evtchn p).binding = .interdomain r q

theorem SameInter.refl : SameInter D D := fun _ _ _ => Iff.rfl

theorem SameInter.trans {D'' : Dom} (h : SameInter D D') (h' : SameInter D' D'') :
    SameInter D D'' :=
  fun p r q => (h' p r q).trans (h p r q)

theorem SameInter.setChan (hold : ∀ r q, (D.evtchn p).binding ≠ .interdomain r q)
    (hnew : ∀ r q, c.binding ≠ .interdomain r q) : SameInter D (D.setChan p c) :=
  (forall_update_iff D.evtchn fun u c => ∀ r q, c.binding = .interdomain r q ↔
    (D.evtchn u).binding = .interdomain r q).2
    ⟨fun r q => iff_of_false (hnew r q) (hold r q), fun _ _ _ _ => Iff.rfl⟩

/-! ## Writes -/

theorem setChan_irqOf (D : Dom) (p : ℕ) (c : Evtchn) (q : ℕ) :
    (D.setChan p c).irqOf q = if q = p then c.binding.irq else D.irqOf q := by
  unfold Dom.irqOf
  rw [setChan_evtchn]
  split <;> rfl

theorem Dom.PirqLists.setChan (h : D.PirqLists x) (hp : p ≠ 0)
    (hold : (D.evtchn p).binding.irq = none ∨ x = some p)
    (hnew : c.binding.irq = none ∨ x' = some p)
    (hx : ∀ q ≠ p, (some q = x ↔ some q = x')) : (D.setChan p c).PirqLists x' := by
  have hne : ∀ q u, D.Listed x u q → q ≠ p := by
    rintro q u ⟨h1, -, h3⟩ rfl
    rcases hold with hold | rfl
    · rw [Dom.irqOf, hold] at h1
      cases h1
    · exact h3 rfl
  have hne' : ∀ q u, (D.setChan p c).Listed x' u q → q ≠ p := by
    rintro q u ⟨h1, -, h3⟩ rfl
    rcases hnew with hnew | rfl
    · rw [setChan_irqOf, if_pos rfl, hnew] at h1
      cases h1
    · exact h3 rfl
  refine h.congr rfl ?_ (fun q u hq => ?_) fun q u hq => ?_
  · rw [setChan_irqOf, if_neg hp.symm, h.zero]
  · have hqp := hne q u hq
    have hchan : (D.setChan p c).evtchn q = D.evtchn q := by rw [setChan_evtchn, if_neg hqp]
    refine ⟨hchan, ?_, ?_, ?_⟩
    · rw [setChan_irqOf, if_neg hqp]
      exact hq.1
    · rw [hchan]
      exact hq.2.1
    · exact fun heq => hq.2.2 ((hx q hqp).2 heq)
  · have hqp := hne' q u hq
    obtain ⟨h1, h2, h3⟩ := hq
    rw [setChan_irqOf, if_neg hqp] at h1
    rw [setChan_evtchn, if_neg hqp] at h2
    exact ⟨h1, h2, fun heq => h3 ((hx q hqp).1 heq)⟩

theorem Dom.InvX.setChan (inv : D.InvX x) (hp : p ≠ 0)
    (hold : (D.evtchn p).binding.irq = none ∨ x = some p)
    (hnew : c.binding.irq = none ∨ x' = some p)
    (hx : ∀ q ≠ p, (some q = x ↔ some q = x')) (hvalid : c.binding ≠ .free → D.portIsValid p)
    (hclean : c.binding = .free → c = .zero) (hres : c.binding ≠ .reserved)
    (hvirq : ∀ v n, D.virqToEvtchn v n = p → c.binding = .virq n) : (D.setChan p c).InvX x' where
  zero := by
    rw [setChan_evtchn, if_neg hp.symm]
    exact inv.zero
  reserved := (forall_update_iff D.evtchn fun q c => c.binding = .reserved → q = 0).2
    ⟨fun h => absurd h hres, fun q _ => inv.reserved q⟩
  limits := inv.limits
  valid := (forall_update_iff D.evtchn fun q c => c.binding ≠ .free → D.portIsValid q).2
    ⟨hvalid, fun q _ => inv.valid q⟩
  clean := (forall_update_iff D.evtchn fun _ c => c.binding = .free → c = .zero).2
    ⟨hclean, fun q _ => inv.clean q⟩
  virqs v n h := by
    refine ⟨(inv.virqs v n h).1, ?_⟩
    rw [setChan_evtchn]
    split
    · rename_i heq
      exact hvirq v n heq
    · exact (inv.virqs v n h).2
  virqs_inj := inv.virqs_inj
  infos q i hq hqx := by
    rw [setChan_irqOf] at hq
    split at hq
    · rename_i hqp
      rcases hnew with hnew | rfl
      · rw [hnew] at hq
        cases hq
      · exact absurd (congrArg some hqp) hqx
    · rename_i hqp
      exact inv.infos q i hq fun heq => hqx ((hx q hqp).1 heq)
  lists := inv.lists.setChan hp hold hnew hx

theorem Relinked.binding_eq (h : Relinked D D') {b : Binding} (hb : b.irq = none) :
    (D'.evtchn p).binding = b ↔ (D.evtchn p).binding = b := by
  cases hirq : D.irqOf p with
  | none => rw [h.plain p hirq]
  | some i =>
    have hirq' := (h.irqOf p).trans hirq
    constructor <;> rintro rfl
    · rw [Dom.irqOf, hb] at hirq'
      cases hirq'
    · rw [Dom.irqOf, hb] at hirq
      cases hirq

theorem Relinked.sameInter (h : Relinked D D') : SameInter D D' := fun _ _ _ => h.binding_eq rfl

theorem Relinked.portIsValid (h : Relinked D D') : D'.portIsValid p ↔ D.portIsValid p := by
  rw [h.rest]
  rfl

theorem Dom.Base.relink (inv : D.Base) (h : Relinked D D') (hlists : D'.PirqLists x')
    (hinfos : ∀ p i, D.irqOf p = some i → some p ≠ x' → D.pirqInfo i = some p) : D'.InvX x' := by
  have hvirq : D'.virqToEvtchn = D.virqToEvtchn := by rw [h.rest]
  have hvcpu : ∀ v, D'.hasVcpu v ↔ D.hasVcpu v := fun v => by rw [h.rest]; rfl
  refine ⟨⟨(h.binding_eq rfl).2 inv.zero,
    fun p hp => inv.reserved p ((h.binding_eq rfl).1 hp), ?_, fun p hp => ?_, fun p hp => ?_,
      fun v n hne => ?_,
    fun v n v' n' hne heq => ?_⟩, fun p i hp hx => ?_, hlists⟩
  · rw [h.rest]
    exact inv.limits
  · exact h.portIsValid.2 (inv.valid p fun hfree => hp ((h.binding_eq rfl).2 hfree))
  · have hfree := (h.binding_eq rfl).1 hp
    rw [h.plain p (by rw [Dom.irqOf, hfree]; rfl), inv.clean p hfree]
  · rw [hvirq] at hne ⊢
    exact ⟨(hvcpu v).2 (inv.virqs v n hne).1, (h.binding_eq rfl).2 (inv.virqs v n hne).2⟩
  · rw [hvirq] at hne heq
    exact inv.virqs_inj v n v' n' hne heq
  · rw [h.rest]
    exact hinfos p i ((h.irqOf p).symm.trans hp) hx

theorem Dom.InvX.not_virq (inv : D.InvX x) (hp : p ≠ 0) {n : ℕ}
    (hb : (D.evtchn p).binding ≠ .virq n) : D.virqToEvtchn v n ≠ p := by
  rintro rfl
  exact hb (inv.virqs v n hp).2

theorem Dom.InvX.setVirqs (inv : D.InvX x) {t : ℕ → ℕ → ℕ}
    (hvirqs : ∀ v n, t v n ≠ 0 → D.hasVcpu v ∧ (D.evtchn (t v n)).binding = .virq n)
    (hinj : ∀ v n v' n', t v n ≠ 0 → t v n = t v' n' → v = v' ∧ n = n') : (D.setVirqs t).InvX x :=
  ⟨⟨inv.zero, inv.reserved, inv.limits, inv.valid, inv.clean, hvirqs, hinj⟩, inv.infos,
    inv.lists.of_eq rfl rfl⟩

theorem Dom.InvX.setFlags {dying fifo : Bool} {n : ℕ} (inv : D.InvX x) :
    { D with isDying := dying, fifo := fifo, maxEvtchnPort := n }.InvX x :=
  ⟨⟨inv.zero, inv.reserved, inv.limits, inv.valid, inv.clean, inv.virqs, inv.virqs_inj⟩, inv.infos,
    inv.lists.of_eq rfl rfl⟩

theorem Dom.InvX.clearVirqs (inv : D.InvX x) {t : ℕ → ℕ → ℕ}
    (ht : ∀ v n, t v n ≠ 0 → t v n = D.virqToEvtchn v n) : (D.setVirqs t).InvX x := by
  refine inv.setVirqs (fun v n h => ?_) fun v n v' n' h heq => ?_
  · have hsame := ht v n h
    rw [hsame] at h ⊢
    exact inv.virqs v n h
  · have h' : t v' n' ≠ 0 := fun h0 => h (heq.trans h0)
    have hsame := ht v n h
    rw [hsame] at h heq
    rw [ht v' n' h'] at heq
    exact inv.virqs_inj v n v' n' h heq

theorem Dom.InvX.addVirq {n : ℕ} (inv : D.InvX x) (hv : D.hasVcpu v)
    (hport : (D.evtchn port).binding = .virq n) (hfresh : ∀ u m, D.virqToEvtchn u m ≠ port) :
    (D.setVirqs fun u m => if u = v ∧ m = n then port else D.virqToEvtchn u m).InvX x := by
  refine inv.setVirqs (fun u m h => ?_) fun u m u' m' h heq => ?_
  · split at h
    · rename_i hum
      rw [if_pos hum, hum.1, hum.2]
      exact ⟨hv, hport⟩
    · rename_i hum
      rw [if_neg hum]
      exact inv.virqs u m h
  · split at heq <;> split at heq
    · rename_i h1 h2
      exact ⟨h1.1.trans h2.1.symm, h1.2.trans h2.2.symm⟩
    · exact absurd heq.symm (hfresh u' m')
    · exact absurd heq (hfresh u m)
    · rename_i h1 _
      rw [if_neg h1] at h
      exact inv.virqs_inj u m u' m' h heq

/-! ## `get_free_port` -/

/-- What `get_free_port` hands out. -/
structure FreePort (D D' : Dom) (port : ℕ) : Prop where
  inv : D'.Inv
  rest : D' = { D with validEvtchns := D'.validEvtchns }
  chan : D'.evtchn port = .zero
  ne_zero : port ≠ 0
  valid : D'.portIsValid port
  alive : D.isDying = false

theorem grow_eq (inv : D.Inv) :
    D.grow = { D with validEvtchns := D.validEvtchns + evtchnsPerBucket } := by
  have h : (fun p => if D.validEvtchns ≤ p ∧ p < D.validEvtchns + evtchnsPerBucket then Evtchn.zero
      else D.evtchn p) = D.evtchn := by
    funext p
    split
    · -- behind the valid ports there is nothing yet
      refine (inv.clean p ?_).symm
      by_contra hne
      exact absurd (inv.valid p hne).2 (by omega)
    · rfl
  rw [Dom.grow, h]

theorem Dom.InvX.moreValid (inv : D.InvX x) {n m : ℕ} (hn : D.validEvtchns ≤ n)
    (hm : D.maxEvtchns ≤ m) (hlimit : m ≤ fifoNrChannels) :
    { D with validEvtchns := n, maxEvtchns := m }.InvX x :=
  ⟨⟨inv.zero, inv.reserved, ⟨inv.limits.1, inv.limits.2.1, hlimit⟩, fun p hp =>
    ⟨Nat.lt_of_lt_of_le (inv.valid p hp).1 hm,
    Nat.lt_of_lt_of_le (inv.valid p hp).2 hn⟩, inv.clean, inv.virqs, inv.virqs_inj⟩, inv.infos,
    inv.lists.of_eq rfl rfl⟩

theorem getFreePort_spec {memory : Bool} (inv : D.Inv) (h : D.getFreePort memory = .ok (port, D')) :
    FreePort D D' port := by
  have hzero : ∀ D₁ : Dom, D₁.InvX none → D₁.evtchn port = .zero → port ≠ 0 := by
    rintro D₁ inv₁ hchan rfl
    have := inv₁.zero
    rw [hchan] at this
    cases this
  unfold Dom.getFreePort at h
  split at h
  · cases h
  rename_i hdying
  rw [Bool.not_eq_true] at hdying
  split at h
  · rename_i q hq
    split at h
    · cases h
    rename_i hmax
    cases h
    have hfound := List.find?_some hq
    have hmem := List.mem_range.1 (List.mem_of_find?_eq_some hq)
    have hfree : (D.evtchn port).binding = .free := (of_decide_eq_true hfound).resolve_left hmax
    have hchan := inv.clean port hfree
    exact ⟨inv, rfl, hchan, hzero D inv hchan, ⟨by omega, by omega⟩, hdying⟩
  · dsimp only at h
    split at h
    · cases h
    rename_i hlimit
    split at h
    · rw [Except.ok.injEq, grow_eq inv] at h
      obtain ⟨rfl, rfl⟩ := h
      have hport : min D.maxEvtchns D.validEvtchns = D.validEvtchns := by omega
      rw [hport] at hzero ⊢
      have hchan : D.evtchn D.validEvtchns = .zero := by
        refine inv.clean _ ?_
        by_contra hne
        exact absurd (inv.valid _ hne).2 (by omega)
      have hinv := inv.moreValid (n := D.validEvtchns + evtchnsPerBucket)
        (by omega) le_rfl inv.limits.2.2
      refine ⟨hinv, rfl, hchan, hzero D inv hchan, ⟨?_, ?_⟩, hdying⟩
      · show D.validEvtchns < D.maxEvtchns
        omega
      · show D.validEvtchns < D.validEvtchns + evtchnsPerBucket
        unfold evtchnsPerBucket
        omega
    · cases h

theorem FreePort.sameInter (h : FreePort D D' port) : SameInter D D' := by
  intro p r q
  rw [h.rest]

theorem FreePort.bind (h : FreePort D D' port) (hc : c.binding.irq = none)
    (hfree : c.binding ≠ .free) (hres : c.binding ≠ .reserved) : (D'.setChan port c).Inv :=
  h.inv.setChan h.ne_zero (.inl (by rw [h.chan]; rfl)) (.inl hc) (fun _ _ => Iff.rfl)
    (fun _ => h.valid) (fun hf => absurd hf hfree) hres
    fun v n hv => absurd hv (h.inv.not_virq h.ne_zero (by rw [h.chan]; simp [Evtchn.zero]))

end XenVmi.EventChannel
