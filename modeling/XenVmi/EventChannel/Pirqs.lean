import XenVmi.Lib.Linked
import XenVmi.EventChannel.Ports

/-!
# The lists of physical interrupts

Each vCPU has a list of the ports that are bound to a physical interrupt and notified on it, linked
through the channels' unions. `PirqList D x v l`: `l` is this list, where the port `x` is bound, but
on no list.
-/

namespace XenVmi.EventChannel

open Function Lib List

variable {D D' : Dom} {x x' : Option ℕ} {p port v i n : ℕ} {l : List ℕ}

/-! ## Links -/

def Binding.irq : Binding → Option ℕ
  | .pirq irq _ _ => some irq
  | _ => none

def Binding.next : Binding → ℕ
  | .pirq _ next _ => next
  | _ => 0

def Binding.prev : Binding → ℕ
  | .pirq _ _ prev => prev
  | _ => 0

def Dom.irqOf (D : Dom) (p : ℕ) : Option ℕ := (D.evtchn p).binding.irq

def Dom.next (D : Dom) (p : ℕ) : ℕ := (D.evtchn p).binding.next

def Dom.prev (D : Dom) (p : ℕ) : ℕ := (D.evtchn p).binding.prev

theorem binding_of_irqOf (h : D.irqOf p = some i) :
    (D.evtchn p).binding = .pirq i (D.next p) (D.prev p) := by
  unfold Dom.irqOf at h
  unfold Dom.next Dom.prev
  cases hb : (D.evtchn p).binding <;> rw [hb] at h <;> cases h
  rfl

/-- Only links of ports that are bound to interrupts have changed, and heads of lists. -/
structure Relinked (D D' : Dom) : Prop where
  rest : D' = { D with evtchn := D'.evtchn, pirqEvtchnHead := D'.pirqEvtchnHead }
  irqOf : ∀ p, D'.irqOf p = D.irqOf p
  plain : ∀ p, D.irqOf p = none → D'.evtchn p = D.evtchn p
  xenConsumer : ∀ p, (D'.evtchn p).xenConsumer = (D.evtchn p).xenConsumer
  notify : ∀ p, (D'.evtchn p).notifyVcpuId = (D.evtchn p).notifyVcpuId

theorem Relinked.refl : Relinked D D :=
  ⟨rfl, fun _ => rfl, fun _ _ => rfl, fun _ => rfl, fun _ => rfl⟩

theorem Relinked.trans {D'' : Dom} (h : Relinked D D') (h' : Relinked D' D'') : Relinked D D'' where
  rest := by rw [h'.rest, h.rest]
  irqOf p := (h'.irqOf p).trans (h.irqOf p)
  plain p hp := (h'.plain p ((h.irqOf p).trans hp)).trans (h.plain p hp)
  xenConsumer p := (h'.xenConsumer p).trans (h.xenConsumer p)
  notify p := (h'.notify p).trans (h.notify p)

theorem setChan_evtchn (D : Dom) (p : ℕ) (c : Evtchn) (q : ℕ) :
    (D.setChan p c).evtchn q = if q = p then c else D.evtchn q := update_apply _ _ _ _

theorem setLinks_spec (h : D.irqOf p = some i) (n q : ℕ) :
    Relinked D (D.setBinding p (.pirq i n q)) ∧
      (D.setBinding p (.pirq i n q)).next = update D.next p n ∧
      (D.setBinding p (.pirq i n q)).prev = update D.prev p q := by
  have hchan : ∀ r, (D.setBinding p (.pirq i n q)).evtchn r =
      if r = p then { D.evtchn p with binding := .pirq i n q } else D.evtchn r :=
    setChan_evtchn D p _
  refine ⟨⟨rfl, (forall_update_iff D.evtchn fun r c => c.binding.irq = D.irqOf r).2
      ⟨h.symm, fun _ _ => rfl⟩, fun r hr => ?_,
    (forall_update_iff D.evtchn fun r c => c.xenConsumer = (D.evtchn r).xenConsumer).2
      ⟨rfl, fun _ _ => rfl⟩,
    (forall_update_iff D.evtchn fun r c => c.notifyVcpuId = (D.evtchn r).notifyVcpuId).2
      ⟨rfl, fun _ _ => rfl⟩⟩, funext fun r => ?_, funext fun r => ?_⟩
  · rw [hchan, if_neg]
    rintro rfl
    rw [h] at hr
    cases hr
  · rw [update_apply]
    unfold Dom.next
    rw [hchan]
    split <;> rfl
  · rw [update_apply]
    unfold Dom.prev
    rw [hchan]
    split <;> rfl

theorem setNext_spec (h : D.irqOf p = some i) (n : ℕ) :
    ∃ D', D.setNext p n = .ok D' ∧ Relinked D D' ∧ D'.next = update D.next p n ∧
      D'.prev = D.prev ∧ D'.pirqEvtchnHead = D.pirqEvtchnHead := by
  obtain ⟨hrel, hnext, hprev⟩ := setLinks_spec h n (D.prev p)
  refine ⟨_, ?_, hrel, hnext, hprev.trans (update_eq_self _ _), rfl⟩
  rw [Dom.setNext, binding_of_irqOf h]

theorem setPrev_spec (h : D.irqOf p = some i) (q : ℕ) :
    ∃ D', D.setPrev p q = .ok D' ∧ Relinked D D' ∧ D'.next = D.next ∧
      D'.prev = update D.prev p q ∧ D'.pirqEvtchnHead = D.pirqEvtchnHead := by
  obtain ⟨hrel, hnext, hprev⟩ := setLinks_spec h (D.next p) q
  refine ⟨_, ?_, hrel, hnext.trans (update_eq_self _ _), hprev, rfl⟩
  rw [Dom.setPrev, binding_of_irqOf h]

theorem setHead_relinked (D : Dom) (v n : ℕ) : Relinked D (D.setHead v n) :=
  ⟨rfl, fun _ => rfl, fun _ _ => rfl, fun _ => rfl, fun _ => rfl⟩

/-! ## Lists -/

/-- The port `p` belongs on the list of vCPU `v`, unless it is the one on its way. -/
def Dom.Listed (D : Dom) (x : Option ℕ) (v p : ℕ) : Prop :=
  (D.irqOf p).isSome = true ∧ (D.evtchn p).notifyVcpuId = v ∧ some p ≠ x

structure Dom.PirqList (D : Dom) (x : Option ℕ) (v : ℕ) (l : List ℕ) : Prop where
  nodup : l.Nodup
  mem : ∀ p, p ∈ l ↔ D.Listed x v p
  linked : DLinked D.next D.prev 0 l
  head : D.pirqEvtchnHead v = l.headD 0

structure Dom.PirqLists (D : Dom) (x : Option ℕ) : Prop where
  zero : D.irqOf 0 = none
  list : ∀ v, ∃ l, D.PirqList x v l

theorem Relinked.listed (h : Relinked D D') : D'.Listed x v p ↔ D.Listed x v p := by
  unfold Dom.Listed
  rw [h.irqOf, h.notify]

theorem Dom.PirqLists.congr (h : D.PirqLists x) (hhead : D'.pirqEvtchnHead = D.pirqEvtchnHead)
    (hzero : D'.irqOf 0 = none)
    (hout : ∀ p v, D.Listed x v p → D'.evtchn p = D.evtchn p ∧ D'.Listed x' v p)
    (hin : ∀ p v, D'.Listed x' v p → D.Listed x v p) : D'.PirqLists x' := by
  refine ⟨hzero, fun v => ?_⟩
  obtain ⟨l, hl⟩ := h.list v
  have hsame : ∀ p ∈ l, D'.evtchn p = D.evtchn p := fun p hp => (hout p v ((hl.mem p).1 hp)).1
  refine ⟨l, hl.nodup, fun p => ?_, hl.linked.congr (fun p hp => ?_) (fun p hp => ?_), ?_⟩
  · rw [hl.mem]
    exact ⟨fun hp => (hout p v hp).2, hin p v⟩
  · rw [Dom.next, Dom.next, hsame p hp]
  · rw [Dom.prev, Dom.prev, hsame p hp]
  · rw [hhead, hl.head]

theorem Dom.PirqLists.of_eq (h : D.PirqLists x) (hchan : D'.evtchn = D.evtchn)
    (hhead : D'.pirqEvtchnHead = D.pirqEvtchnHead) : D'.PirqLists x := by
  have hirq : ∀ p, D'.irqOf p = D.irqOf p := fun p => by rw [Dom.irqOf, hchan]; rfl
  have hlisted : ∀ p v, D'.Listed x v p ↔ D.Listed x v p := fun p v => by
    rw [Dom.Listed, hirq, hchan]
    rfl
  exact h.congr hhead ((hirq 0).trans h.zero)
    (fun p v hp => ⟨congrFun hchan p, (hlisted p v).2 hp⟩) fun p v => (hlisted p v).1

theorem Dom.PirqLists.ne_zero (h : D.PirqLists x) (hp : D.Listed x v p) : p ≠ 0 := by
  rintro rfl
  have := hp.1
  rw [h.zero] at this
  cases this

theorem Dom.Listed.exists_irq (h : D.Listed x v p) : ∃ i, D.irqOf p = some i :=
  Option.isSome_iff_exists.1 h.1

/-! ## `unlink_pirq_port` -/

theorem Dom.PirqLists.change (h : D.PirqLists x) (hrel : Relinked D D')
    (hlisted : ∀ u p, u ≠ v → (D.Listed x' u p ↔ D.Listed x u p))
    (hhead : ∀ u ≠ v, D'.pirqEvtchnHead u = D.pirqEvtchnHead u)
    (hnext : ∀ u p, u ≠ v → D.Listed x u p → D'.next p = D.next p)
    (hprev : ∀ u p, u ≠ v → D.Listed x u p → D'.prev p = D.prev p)
    (hlist : ∃ l, D'.PirqList x' v l) : D'.PirqLists x' := by
  refine ⟨(hrel.irqOf 0).trans h.zero, fun u => ?_⟩
  by_cases hu : u = v
  · rw [hu]
    exact hlist
  obtain ⟨l, hl⟩ := h.list u
  refine ⟨l, hl.nodup, fun p => ?_, hl.linked.congr (fun p hp => ?_) (fun p hp => ?_), ?_⟩
  · rw [hl.mem, hrel.listed, hlisted u p hu]
  · exact hnext u p hu ((hl.mem p).1 hp)
  · exact hprev u p hu ((hl.mem p).1 hp)
  · rw [hhead u hu, hl.head]

theorem unlinkNext_spec {prev : ℕ} (h : prev ≠ 0 → (D.irqOf prev).isSome = true) :
    ∃ D', D.unlinkNext v n prev = .ok D' ∧ Relinked D D' ∧ D'.prev = D.prev ∧
      (∀ p, D'.next p = if prev ≠ 0 ∧ p = prev then n else D.next p) ∧
      ∀ u, D'.pirqEvtchnHead u = if prev = 0 ∧ u = v then n else D.pirqEvtchnHead u := by
  unfold Dom.unlinkNext
  by_cases hprev : prev = 0
  · rw [if_neg (not_not.2 hprev)]
    refine ⟨_, rfl, setHead_relinked D v n, rfl, fun p => ?_, fun u => ?_⟩
    · rw [if_neg fun h => h.1 hprev]
      rfl
    · show update D.pirqEvtchnHead v n u = _
      rw [update_apply]
      simp [hprev]
  obtain ⟨irq, hirq⟩ := Option.isSome_iff_exists.1 (h hprev)
  obtain ⟨D', hok, hrel, hnext, hback, hhead⟩ := setNext_spec hirq n
  rw [if_pos hprev]
  refine ⟨D', hok, hrel, hback, fun p => ?_, fun u => ?_⟩
  · rw [hnext, update_apply]
    simp [hprev]
  · rw [hhead, if_neg fun h => hprev h.1]

theorem unlinkPrev_spec {next : ℕ} (h : next ≠ 0 → (D.irqOf next).isSome = true) (q : ℕ) :
    ∃ D', D.unlinkPrev next q = .ok D' ∧ Relinked D D' ∧ D'.next = D.next ∧
      (∀ p, D'.prev p = if next ≠ 0 ∧ p = next then q else D.prev p) ∧
      D'.pirqEvtchnHead = D.pirqEvtchnHead := by
  unfold Dom.unlinkPrev
  by_cases hnext : next = 0
  · rw [if_neg (not_not.2 hnext)]
    exact ⟨D, rfl, .refl, rfl, fun p => by rw [if_neg fun h => h.1 hnext], rfl⟩
  obtain ⟨irq, hirq⟩ := Option.isSome_iff_exists.1 (h hnext)
  obtain ⟨D', hok, hrel, hsame, hback, hhead⟩ := setPrev_spec hirq q
  rw [if_pos hnext]
  refine ⟨D', hok, hrel, hsame, fun p => ?_, hhead⟩
  rw [hback, update_apply]
  simp [hnext]

theorem unlinkPirqPort_spec (h : D.PirqLists none) (hport : D.Listed none v port) :
    ∃ D', D.unlinkPirqPort port v = .ok D' ∧ Relinked D D' ∧ D'.PirqLists (some port) := by
  obtain ⟨l, hl⟩ := h.list v
  obtain ⟨i, hi⟩ := hport.exists_irq
  obtain ⟨l₁, l₂, rfl⟩ := append_of_mem ((hl.mem port).2 hport)
  have hnil : 0 ∉ l₁ ++ port :: l₂ := fun hmem => h.ne_zero ((hl.mem 0).1 hmem) rfl
  -- a neighbour that is not zero is on the list
  have hprev : D.prev port ≠ 0 → D.Listed none v (D.prev port) := fun hne =>
    (hl.mem _).1 (mem_append_left _ (mem_of_getLast? (hl.linked.prev_mem hne)))
  have hnext : D.next port ≠ 0 → D.Listed none v (D.next port) := fun hne =>
    (hl.mem _).1 (mem_append_right _
      (mem_cons_of_mem _ (mem_of_head? (hl.linked.next_mem hne))))
  obtain ⟨D₁, hok₁, hrel₁, hback₁, hfwd₁, hhead₁⟩ := unlinkNext_spec
    fun hne => (hprev hne).1
  obtain ⟨D₂, hok₂, hrel₂, hfwd₂, hback₂, hhead₂⟩ := unlinkPrev_spec
    (fun hne => (hrel₁.irqOf _).symm ▸ (hnext hne).1) (D.prev port)
  have hrel := hrel₁.trans hrel₂
  have hfwd : ∀ q, D₂.next q =
      if D.prev port ≠ 0 ∧ q = D.prev port then D.next port else D.next q :=
    fun q => by rw [hfwd₂, hfwd₁]
  have hback : ∀ q, D₂.prev q =
      if D.next port ≠ 0 ∧ q = D.next port then D.prev port else D.prev q :=
    fun q => by rw [hback₂, hback₁]
  refine ⟨D₂, ?_, hrel, h.change hrel (v := v) ?_ ?_ ?_ ?_ ⟨l₁ ++ l₂, ?_, fun q => ?_,
    hl.linked.unlink hl.nodup hnil hfwd hback, ?_⟩⟩
  · rw [Dom.unlinkPirqPort, binding_of_irqOf hi]
    dsimp only
    rw [hok₁, ok_bind, hok₂]
  · intro u q hu
    refine and_congr_right fun _ => and_congr_right fun hq => ?_
    simp only [ne_eq, reduceCtorEq, not_false_eq_true, iff_true, Option.some.injEq]
    rintro rfl
    exact hu (hq.symm.trans hport.2.1)
  · intro u hu
    rw [hhead₂, hhead₁, if_neg fun h => hu h.2]
  · intro u q hu hq
    rw [hfwd, if_neg]
    rintro ⟨hne, rfl⟩
    exact hu (hq.2.1.symm.trans (hprev hne).2.1)
  · intro u q hu hq
    rw [hback, if_neg]
    rintro ⟨hne, rfl⟩
    exact hu (hq.2.1.symm.trans (hnext hne).2.1)
  · exact hl.nodup.sublist ((sublist_cons_self port l₂).append_left l₁)
  · have hmem : q ∈ l₁ ++ l₂ ↔ q ∈ l₁ ++ port :: l₂ ∧ q ≠ port := by
      have hnd := hl.nodup
      rw [nodup_middle, nodup_cons] at hnd
      rw [mem_append, mem_append, mem_cons]
      constructor
      · intro hq
        refine ⟨by tauto, ?_⟩
        rintro rfl
        exact hnd.1 (mem_append.2 hq)
      · tauto
    rw [hmem, hl.mem, hrel.listed, Dom.Listed, Dom.Listed]
    simp [and_assoc]
  · rw [hl.linked.unlink_head hnil, hhead₂, hhead₁, hl.head]
    simp

theorem linkPirqPort_spec (h : D.PirqLists (some port)) (hirq : (D.irqOf port).isSome = true)
    (hnotify : (D.evtchn port).notifyVcpuId = v) :
    ∃ D', D.linkPirqPort port v = .ok D' ∧ Relinked D D' ∧ D'.PirqLists none := by
  obtain ⟨l, hl⟩ := h.list v
  obtain ⟨i, hi⟩ := Option.isSome_iff_exists.1 hirq
  have hport : port ∉ l := fun hmem => ((hl.mem port).1 hmem).2.2 rfl
  have hlisted : D.pirqEvtchnHead v ≠ 0 → D.Listed (some port) v (D.pirqEvtchnHead v) := by
    intro hne
    rw [hl.head, headD_eq_head?_getD] at hne ⊢
    cases hhead : l.head? with
    | none => rw [hhead] at hne; exact absurd rfl hne
    | some a => exact (hl.mem a).1 (mem_of_head? hhead)
  obtain ⟨D₁, hok₁, hrel₁, hfwd₁, hback₁, hhead₁⟩ := setPrev_spec hi 0
  obtain ⟨D₂, hok₂, hrel₂, hfwd₂, hback₂, hhead₂⟩ :=
    setNext_spec ((hrel₁.irqOf port).trans hi) (D₁.pirqEvtchnHead v)
  have hrel₁₂ := hrel₁.trans hrel₂
  have hheadIrq : D₂.pirqEvtchnHead v ≠ 0 → (D₂.irqOf (D₂.pirqEvtchnHead v)).isSome = true := by
    rw [hrel₁₂.irqOf, hhead₂, hhead₁]
    exact fun hne => (hlisted hne).1
  -- the old head is linked back as `unlinkPrev` does it
  obtain ⟨D₃, hok₃, hrel₃, hfwd₃, hback₃, hhead₃⟩ := unlinkPrev_spec hheadIrq port
  change D₂.linkHead _ port = _ at hok₃
  rw [hhead₁] at hok₂ hfwd₂
  rw [hhead₂, hhead₁] at hok₃ hback₃
  have hrel := (hrel₁₂.trans hrel₃).trans (setHead_relinked D₃ v port)
  have hfwd : (D₃.setHead v port).next = update D.next port (D.pirqEvtchnHead v) := by
    show D₃.next = _
    rw [hfwd₃, hfwd₂, hfwd₁]
  have hback : ∀ q, (D₃.setHead v port).prev q =
      if D.pirqEvtchnHead v ≠ 0 ∧ q = D.pirqEvtchnHead v then port
      else update D.prev port 0 q := fun q => by
    show D₃.prev q = _
    rw [hback₃, hback₂, hback₁]
  have hhead : ∀ u, (D₃.setHead v port).pirqEvtchnHead u =
      if u = v then port else D.pirqEvtchnHead u := fun u => by
    show update D₃.pirqEvtchnHead v port u = _
    rw [update_apply, hhead₃, hhead₂, hhead₁]
  refine ⟨D₃.setHead v port, ?_, hrel,
    h.change hrel (v := v) ?_ ?_ ?_ ?_ ⟨port :: l, ?_, fun q => ?_, ?_, ?_⟩⟩
  · rw [Dom.linkPirqPort, hok₁, ok_bind, hhead₁, hok₂, ok_bind, hhead₂, hhead₁, hok₃]
    rfl
  · intro u q hu
    refine and_congr_right fun _ => and_congr_right fun hq => ?_
    simp only [ne_eq, reduceCtorEq, not_false_eq_true, true_iff, Option.some.injEq]
    rintro rfl
    exact hu (hq.symm.trans hnotify)
  · intro u hu
    rw [hhead, if_neg hu]
  · intro u q hu hq
    rw [hfwd, update_of_ne]
    exact fun heq => hq.2.2 (congrArg some heq)
  · intro u q hu hq
    rw [hback, if_neg, update_of_ne fun heq => hq.2.2 (congrArg some heq)]
    rintro ⟨hne, rfl⟩
    exact hu (hq.2.1.symm.trans (hlisted hne).2.1)
  · exact nodup_cons.2 ⟨hport, hl.nodup⟩
  · rw [hrel.listed, mem_cons, hl.mem]
    constructor
    · rintro (rfl | ⟨h1, h2, -⟩)
      · exact ⟨hirq, hnotify, by simp⟩
      · exact ⟨h1, h2, by simp⟩
    · rintro ⟨h1, h2, -⟩
      by_cases hq : q = port
      · exact .inl hq
      · exact .inr ⟨h1, h2, fun heq => hq (Option.some.inj heq)⟩
  · have hne : ∀ a ∈ l, a ≠ port := fun a ha heq => hport (heq ▸ ha)
    refine hl.linked.cons ?_ (fun a ha => ?_) ?_ (fun a ha => ?_) fun a ha => ?_
    · rw [hfwd, update_self, hl.head]
    · rw [hfwd, update_of_ne (hne a ha)]
    · rw [hback, if_neg, update_self]
      rintro ⟨hne, heq⟩
      exact (hlisted hne).2.2 (congrArg some heq.symm)
    · have hmem := mem_of_head? ha
      have heq : D.pirqEvtchnHead v = a := by rw [hl.head, headD_eq_head?_getD, ha]; rfl
      rw [hback, if_pos ⟨heq ▸ h.ne_zero ((hl.mem a).1 hmem), heq.symm⟩]
    · have hmem := mem_of_mem_tail ha
      rw [hback, if_neg, update_of_ne (hne a hmem)]
      rintro ⟨-, rfl⟩
      have hnd := hl.nodup
      rw [hl.head] at ha
      cases l with
      | nil => cases ha
      | cons b l => exact (nodup_cons.1 hnd).1 ha
  · rw [hhead, if_pos rfl]
    rfl

end XenVmi.EventChannel
