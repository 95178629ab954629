import Mathlib.Order.Bounds.Basic
import XenVmi.TimerQueue.Consistent

/-!
# No timer is slept through

`History` adds the time of the last reprogramming of each CPU, the time its last softirq sampled,
and the timers that were in its queues when that softirq began and that nobody has touched since.
`Armed`: outside of its softirq, a CPU has the softirq pending or a deadline that is early enough.
-/

namespace XenVmi.TimerQueue

open Function XenVmi.Lib State

variable {s s' : State} {t x c slop : ℕ} {now now' : ℤ} {p : Phase}

instance (s : State) (c t : ℕ) : Decidable (s.Queued c t) :=
  inferInstanceAs (Decidable ((_ ∨ _) ∧ _))

structure History where
  state : State
  entry : ℕ → ℕ → Option ℤ
  sampled : ℕ → ℤ
  reprogrammed : ℕ → ℤ

def touches (s : State) (a : Action) (s' : State) (x : ℕ) : Prop :=
  match a with
  | .init t _ => x = t
  | .set t _ => x = t
  | .stop t => x = t
  | .migrate t new => x = t ∧ s.cpu t ≠ new
  | .kill _ t => x = t
  | .sample c _ _ _ => s'.phase c ≠ .idle ∧ (s'.timers c).running = some x
  | .callbackReturns c _ _ => s'.phase c ≠ .idle ∧ (s'.timers c).running = some x
  | .cpuDead old _ => s.cpu x = old
  | _ => False

instance (s s' : State) (x : ℕ) : (a : Action) → Decidable (touches s a s' x)
  | .init t _ => inferInstanceAs (Decidable (x = t))
  | .set t _ => inferInstanceAs (Decidable (x = t))
  | .stop t => inferInstanceAs (Decidable (x = t))
  | .migrate t new => inferInstanceAs (Decidable (x = t ∧ s.cpu t ≠ new))
  | .kill _ t => inferInstanceAs (Decidable (x = t))
  | .sample c _ _ _ =>
    inferInstanceAs (Decidable (s'.phase c ≠ .idle ∧ (s'.timers c).running = some x))
  | .callbackReturns c _ _ =>
    inferInstanceAs (Decidable (s'.phase c ≠ .idle ∧ (s'.timers c).running = some x))
  | .cpuDead old _ => inferInstanceAs (Decidable (s.cpu x = old))
  | .softirq _ _ => inferInstanceAs (Decidable False)
  | .cpuUp _ _ => inferInstanceAs (Decidable False)

namespace History

def newEntry (s : State) (c x : ℕ) : Option ℤ := if s.Queued c x then some (s.expires x) else none

def nextEntry (h : History) (a : Action) (s' : State) : ℕ → ℕ → Option ℤ :=
  match a with
  | .softirq c _ => update h.entry c (newEntry h.state c)
  | a => fun c x => if touches h.state a s' x then none else h.entry c x

def nextSampled (h : History) (a : Action) : ℕ → ℤ :=
  match a with
  | .sample c now _ _ => update h.sampled c now
  | _ => h.sampled

def nextReprogrammed (h : History) (a : Action) (s' : State) : ℕ → ℤ :=
  match a with
  | .sample c _ now' _ =>
    if s'.phase c = .idle then update h.reprogrammed c now' else h.reprogrammed
  | .callbackReturns c now' _ =>
    if s'.phase c = .idle then update h.reprogrammed c now' else h.reprogrammed
  | _ => h.reprogrammed

def step (slop : ℕ) (h : History) (a : Action) : Except Bug History := do
  let s' ← TimerQueue.step slop h.state a
  return ⟨s', h.nextEntry a s', h.nextSampled a, h.nextReprogrammed a s'⟩

def boot : History := ⟨.boot, fun _ _ => none, fun _ => 0, fun _ => 0⟩

end History

/-! ## Deadlines -/

/-- The CPU's deadline is early enough for a timer that expires at `e`. -/
def DueBy (slop : ℕ) (s : State) (p : ℕ → ℤ) (c : ℕ) (e : ℤ) : Prop :=
  s.timerDeadline c ≠ 0 ∧ s.timerDeadline c ≤ max e (p c + slop)

/-- Every CPU that is not in its softirq has it pending, or a deadline for each of its timers. -/
def Armed (slop : ℕ) (s : State) (p : ℕ → ℤ) : Prop :=
  ∀ c, s.phase c = .idle → s.softirqPending c = true ∨
    ∀ x, s.Queued c x → s.expires x < stimeMax → DueBy slop s p c (s.expires x)

theorem DueBy.mono {p : ℕ → ℤ} {e e' : ℤ} (h : DueBy slop s p c e) (hle : e ≤ e') :
    DueBy slop s p c e' :=
  ⟨h.1, h.2.trans (max_le_max_right _ hle)⟩

theorem Armed.of_covered {p : ℕ → ℤ} (armed : Armed slop s p) (hphase : s.phase c = .idle)
    (hpending : s.softirqPending c = true → s'.softirqPending c = true)
    (hdeadline : s'.timerDeadline c = s.timerDeadline c)
    (hcov : ∀ x, s'.Queued c x → s'.softirqPending c = true ∨
      ∃ y, s.Queued c y ∧ s.expires y ≤ s'.expires x) :
    s'.softirqPending c = true ∨
      ∀ x, s'.Queued c x → s'.expires x < stimeMax → DueBy slop s' p c (s'.expires x) := by
  rcases armed c hphase with hp | hdue
  · exact .inl (hpending hp)
  by_cases hp : s'.softirqPending c = true
  · exact .inl hp
  refine .inr fun x hx hlt => ?_
  obtain ⟨y, hy, hle⟩ := (hcov x hx).resolve_left hp
  have := (hdue y hy (lt_of_le_of_lt hle hlt)).mono hle
  unfold DueBy at this ⊢
  rw [hdeadline]
  exact this

theorem Worked.armed {p : ℕ → ℤ} (h : Worked s s' t) (armed : Armed slop s p) :
    Armed slop s' p := by
  intro c hc
  rw [h.phase] at hc
  refine armed.of_covered hc (h.pending c) (congrFun h.deadline c) fun x hx => ?_
  have hcov : ∀ y ≠ t, s'.Queued c y → s'.expires y ≤ s'.expires x →
      ∃ y, s.Queued c y ∧ s.expires y ≤ s'.expires x := fun y hyt hy hle =>
    ⟨y, (queued_of_timer_eq (h.others y hyt)).1 hy, expires_of_timer_eq (h.others y hyt) ▸ hle⟩
  by_cases hxt : x = t
  · subst x
    refine (h.due c hx).imp_right fun ⟨y, hyt, hy, hle⟩ => hcov y hyt hy hle
  · exact .inr (hcov x hxt hx le_rfl)

variable {e : ℤ} {ph : Phase} {c' : ℕ}

theorem Executes.armed {p : ℕ → ℤ} (h : Executes s s' c t ph) (hph : ph ≠ .idle)
    (armed : Armed slop s p) : Armed slop s' p := by
  intro c' hc
  rw [h.phase, update_apply] at hc
  split at hc
  · exact absurd hc hph
  refine armed.of_covered hc (fun hp => h.pending ▸ hp) (congrFun h.deadline c') fun x hx => ?_
  have hxt : x ≠ t := by
    rintro rfl
    unfold State.Queued State.status at hx
    rw [h.timer, update_self] at hx
    rcases hx.1 with h | h <;> cases h
  have hrec : s'.timer x = s.timer x := by rw [h.timer, update_of_ne hxt]
  exact .inr ⟨x, (queued_of_timer_eq hrec).1 hx, (expires_of_timer_eq hrec).ge⟩

theorem Leaves.armed {p : ℕ → ℤ} (h : Leaves slop s s' c now') (armed : Armed slop s p) :
    Armed slop s' (update p c now') := by
  intro c' hc
  by_cases hcc : c' = c
  · subst c'
    refine .inr fun x hx hlt => ?_
    have := h.due x hx hlt
    unfold DueBy
    rw [update_self]
    exact this
  rw [h.phase, update_of_ne hcc] at hc
  have hold := armed.of_covered hc (h.pending c') (h.deadline c' hcc) fun x hx => by
    rcases h.timer x with hrec | ⟨hq, st, -, hrec⟩
    · exact .inr ⟨x, (queued_of_timer_eq hrec).1 hx, (expires_of_timer_eq hrec).ge⟩
    · have hcpu : s'.cpu x = s.cpu x := by rw [State.cpu, hrec, State.cpu]
      exact absurd (hx.2.symm.trans (hcpu.trans hq.2)) hcc
  unfold DueBy at hold ⊢
  rw [update_of_ne hcc]
  exact hold

theorem Removes.armed {p : ℕ → ℤ} {old new : ℕ} (h : Removes s s' old new)
    (armed : Armed slop s p) :
    Armed slop s' p := by
  intro c hc
  rw [h.phase] at hc
  refine armed.of_covered hc (h.pending c) (congrFun h.deadline c) fun x hx => ?_
  by_cases hcn : c = new
  · subst c
    exact h.due x hx
  · obtain ⟨hq, he⟩ := h.others c x hcn hx
    exact .inr ⟨x, hq, he.ge⟩

theorem Armed.of_same {p : ℕ → ℤ} (armed : Armed slop s p) (htimer : s'.timer = s.timer)
    (hdeadline : s'.timerDeadline = s.timerDeadline)
    (hphase : ∀ c, s'.phase c = .idle → s.phase c = .idle ∧
      s'.softirqPending c = s.softirqPending c) : Armed slop s' p := by
  intro c hc
  obtain ⟨hc', hp⟩ := hphase c hc
  refine armed.of_covered hc' (fun h => hp ▸ h) (congrFun hdeadline c) fun x hx => ?_
  have hrec := congrFun htimer x
  exact .inr ⟨x, (queued_of_timer_eq hrec).1 hx, (expires_of_timer_eq hrec).ge⟩

/-! ## The timers a softirq found -/

/-- The timer `x` was in the queues of `c` at the start of its softirq, with the expiry time `e`,
and is not touched yet. -/
def Kept (s : State) (sampled : ℕ → ℤ) (c x : ℕ) (e : ℤ) : Prop :=
  match s.phase c with
  | .idle => sampled c ≤ e
  | .entered => s.Queued c x ∧ s.expires x = e
  | .inHeap now => s.Queued c x ∧ s.expires x = e ∧ sampled c = now
  | .inList now => s.Queued c x ∧ s.expires x = e ∧ sampled c = now ∧
      (s.status x = .inHeap → now ≤ e)

theorem Kept.congr {sampled : ℕ → ℤ} (h : Kept s sampled c x e)
    (hphase : s'.phase c = s.phase c) (hrec : s.phase c ≠ .idle → s'.timer x = s.timer x) :
    Kept s' sampled c x e := by
  unfold Kept at h ⊢
  rw [hphase]
  cases hp : s.phase c with
  | idle =>
    rw [hp] at h
    exact h
  | entered =>
    rw [hp] at h
    have hrec := hrec (by rw [hp]; simp)
    exact ⟨(queued_of_timer_eq hrec).2 h.1, (expires_of_timer_eq hrec).trans h.2⟩
  | inHeap now =>
    rw [hp] at h
    have hrec := hrec (by rw [hp]; simp)
    exact ⟨(queued_of_timer_eq hrec).2 h.1, (expires_of_timer_eq hrec).trans h.2.1, h.2.2⟩
  | inList now =>
    rw [hp] at h
    have hrec := hrec (by rw [hp]; simp)
    refine ⟨(queued_of_timer_eq hrec).2 h.1, (expires_of_timer_eq hrec).trans h.2.1, h.2.2.1, ?_⟩
    rw [State.status, hrec]
    exact h.2.2.2

theorem Kept.of_sampled {sampled sampled' : ℕ → ℤ} (h : Kept s sampled c x e)
    (heq : sampled' c = sampled c) : Kept s sampled' c x e := by
  unfold Kept at h ⊢
  rw [heq]
  exact h

theorem Kept.queued {sampled : ℕ → ℤ} (h : Kept s sampled c x e) (hp : s.phase c ≠ .idle) :
    s.Queued c x ∧ s.expires x = e := by
  unfold Kept at h
  cases hph : s.phase c with
  | idle => exact absurd hph hp
  | entered => rw [hph] at h; exact h
  | inHeap | inList => rw [hph] at h; exact ⟨h.1, h.2.1⟩

theorem Executes.kept {sampled : ℕ → ℤ} (h : Executes s s' c t ph)
    (hx : x ≠ t) (hk : c' ≠ c → Kept s sampled c' x e)
    (hph : c' = c → s.Queued c x ∧ s.expires x = e ∧
      (ph = .inHeap (sampled c) ∨ ph = .inList (sampled c) ∧
        (s.status x = .inHeap → sampled c ≤ e))) :
    Kept s' sampled c' x e := by
  have hrec : s'.timer x = s.timer x := by rw [h.timer, update_of_ne hx]
  by_cases hc : c' = c
  · subst c'
    obtain ⟨hq, he, hph⟩ := hph rfl
    have hq' := (queued_of_timer_eq (c := c) hrec).2 hq
    have he' := (expires_of_timer_eq hrec).trans he
    have hst : s'.status x = s.status x := by rw [State.status, hrec, State.status]
    unfold Kept
    rw [h.phase, update_self]
    rcases hph with rfl | ⟨rfl, hle⟩
    · exact ⟨hq', he', rfl⟩
    · exact ⟨hq', he', rfl, fun h => hle (hst ▸ h)⟩
  · exact (hk hc).congr (by rw [h.phase, update_of_ne hc]) fun _ => hrec

theorem Leaves.kept {sampled : ℕ → ℤ} (h : Leaves slop s s' c now')
    (hk : c' ≠ c → Kept s sampled c' x e) (hdone : c' = c → sampled c ≤ e) :
    Kept s' sampled c' x e := by
  by_cases hc : c' = c
  · subst c'
    unfold Kept
    rw [h.phase, update_self]
    exact hdone rfl
  · refine (hk hc).congr (by rw [h.phase, update_of_ne hc]) fun hp => ?_
    refine (h.timer x).resolve_right fun hq => hc ?_
    rw [← ((hk hc).queued hp).1.2, hq.1.2]

/-! ## Steps and runs -/

structure History.Inv (slop : ℕ) (h : History) : Prop where
  good : Good h.state
  armed : Armed slop h.state h.reprogrammed
  kept : ∀ c x e, h.entry c x = some e → Kept h.state h.sampled c x e

variable {h h' : History} {sampled : ℕ → ℤ}

theorem History.Inv.worked {entry : ℕ → ℕ → Option ℤ} (inv : h.Inv slop) (hw : Worked h.state s' t)
    (hentry : ∀ c x e, entry c x = some e → x ≠ t ∧ h.entry c x = some e) :
    History.Inv slop ⟨s', entry, h.sampled, h.reprogrammed⟩ := by
  refine ⟨hw.good, hw.armed inv.armed, fun c x e he => ?_⟩
  obtain ⟨hxt, he⟩ := hentry c x e he
  exact (inv.kept c x e he).congr (congrFun hw.phase c) fun _ => hw.others x hxt

/-- The history after the softirq on `c` has gone on to its next callback or its end. -/
def History.resumed (h : History) (c : ℕ) (s' : State) (sampled : ℕ → ℤ) (now' : ℤ) : History where
  state := s'
  entry := fun c' x =>
    if s'.phase c ≠ .idle ∧ (s'.timers c).running = some x then none else h.entry c' x
  sampled := sampled
  reprogrammed :=
    if s'.phase c = .idle then update h.reprogrammed c now' else h.reprogrammed

variable (inv : h.Inv slop)

include inv

theorem History.Inv.executes (hp : h.state.phase c ≠ .idle)
    (hsampled : ∀ c' ≠ c, sampled c' = h.sampled c') (hx : Executes h.state s' c t ph)
    (hph : ph ≠ .idle)
    (hkept : ∀ x e, h.entry c x = some e → ph = .inHeap (sampled c) ∨
      ph = .inList (sampled c) ∧ (h.state.status x = .inHeap → sampled c ≤ e)) :
    (h.resumed c s' sampled now').Inv slop := by
  have hphase : s'.phase c = ph := by rw [hx.phase, update_self]
  refine ⟨hx.good inv.good, ?_, fun c' x e he => ?_⟩
  · show Armed slop s' (if s'.phase c = .idle then _ else h.reprogrammed)
    rw [if_neg (by rw [hphase]; exact hph)]
    exact hx.armed hph inv.armed
  · have he : (if s'.phase c ≠ .idle ∧ (s'.timers c).running = some x then none else h.entry c' x) =
      some e := he
    split at he
    · cases he
    rename_i htouch
    have hxt : x ≠ t := by
      rintro rfl
      exact htouch ⟨by rw [hphase]; exact hph, hx.running⟩
    refine hx.kept hxt (fun hc => (inv.kept c' x e he).of_sampled (hsampled c' hc)) fun hc => ?_
    · subst c'
      have hq := (inv.kept c x e he).queued hp
      exact ⟨hq.1, hq.2, hkept x e he⟩

theorem History.Inv.leaves (hsampled : ∀ c' ≠ c, sampled c' = h.sampled c')
    (hl : Leaves slop h.state s' c now') (hdone : ∀ x e, h.entry c x = some e → sampled c ≤ e) :
    (h.resumed c s' sampled now').Inv slop := by
  have hphase : s'.phase c = .idle := by rw [hl.phase, update_self]
  refine ⟨hl.good inv.good, ?_, fun c' x e he => ?_⟩
  · show Armed slop s' (if s'.phase c = .idle then _ else h.reprogrammed)
    rw [if_pos hphase]
    exact hl.armed inv.armed
  · have he : (if s'.phase c ≠ .idle ∧ (s'.timers c).running = some x then none else h.entry c' x) =
      some e := he
    rw [if_neg (fun h => h.1 hphase)] at he
    refine hl.kept (fun hc => (inv.kept c' x e he).of_sampled (hsampled c' hc)) fun hc => ?_
    subst c'
    exact hdone x e he

theorem History.Inv.listOutcome (hp : h.state.phase c ≠ .idle)
    (hsampled : ∀ c' ≠ c, sampled c' = h.sampled c')
    (hnow : ∀ x e, h.entry c x = some e → sampled c = now)
    (hheap : ∀ x e, h.entry c x = some e → h.state.status x = .inHeap → now ≤ e)
    (hout : ListOutcome slop h.state s' c now now') : (h.resumed c s' sampled now').Inv slop := by
  rcases hout with ⟨t, hx⟩ | ⟨hl, hlist⟩
  · refine inv.executes hp hsampled hx (by simp) fun x e he => .inr ⟨?_, fun hst => ?_⟩
    · rw [hnow x e he]
    · rw [hnow x e he]
      exact hheap x e he hst
  refine inv.leaves hsampled hl fun x e he => ?_
  obtain ⟨hq, hexp⟩ := (inv.kept c x e he).queued hp
  rw [hnow x e he]
  rcases hq.1 with hst | hst
  · exact hheap x e he hst
  · rw [← hexp]
    exact hlist x hst hq.2

theorem History.Inv.heapOutcome (hp : h.state.phase c ≠ .idle)
    (hsampled : ∀ c' ≠ c, sampled c' = h.sampled c')
    (hnow : ∀ x e, h.entry c x = some e → sampled c = now)
    (hout : (∃ t, Executes h.state s' c t (.inHeap now)) ∨
      (∀ x, h.state.status x = .inHeap → h.state.cpu x = c → now ≤ h.state.expires x) ∧
        ListOutcome slop h.state s' c now now') : (h.resumed c s' sampled now').Inv slop := by
  rcases hout with ⟨t, hx⟩ | ⟨hheap, hlist⟩
  · refine inv.executes hp hsampled hx (by simp) fun x e he => .inl ?_
    rw [hnow x e he]
  · refine inv.listOutcome hp hsampled hnow (fun x e he hst => ?_) hlist
    obtain ⟨hq, hexp⟩ := (inv.kept c x e he).queued hp
    rw [← hexp]
    exact hheap x hst hq.2

theorem History.Inv.returned (c : ℕ) :
    History.Inv slop { h with
      state := h.state.setTimers c { h.state.timers c with running := none } } :=
  ⟨inv.good.returned c, inv.armed.of_same rfl rfl fun _ hc => ⟨hc, rfl⟩,
    fun c' x e he => (inv.kept c' x e he).congr rfl fun _ => rfl⟩

omit inv

theorem enterSoftirq_frame (newheap : Option (ℕ → ℕ)) :
    (s.enterSoftirq c newheap).timer = s.timer ∧
      (s.enterSoftirq c newheap).timerDeadline = s.timerDeadline ∧
      (s.enterSoftirq c newheap).phase = update s.phase c .entered ∧
      (s.enterSoftirq c newheap).softirqPending = update s.softirqPending c false := by
  unfold State.enterSoftirq
  cases newheap with
  | none => exact ⟨rfl, rfl, rfl, rfl⟩
  | some fresh =>
    dsimp only
    split <;> exact ⟨rfl, rfl, rfl, rfl⟩

theorem History.Inv.entered (inv : h.Inv slop) (newheap : Option (ℕ → ℕ)) :
    History.Inv slop ⟨h.state.enterSoftirq c newheap,
      update h.entry c (newEntry h.state c), h.sampled, h.reprogrammed⟩ := by
  obtain ⟨htimer, hdeadline, hphase, hpending⟩ := enterSoftirq_frame (s := h.state) (c := c) newheap
  refine ⟨enterSoftirq_good inv.good newheap, inv.armed.of_same htimer hdeadline fun c' hc => ?_,
    fun c' x e he => ?_⟩
  · rw [hphase, update_apply] at hc
    rw [hpending]
    split at hc
    · cases hc
    · rename_i hcc
      exact ⟨hc, update_of_ne hcc _ _⟩
  · by_cases hcc : c' = c
    · subst c'
      have he : update h.entry c (newEntry h.state c) c x = some e := he
      rw [update_self, newEntry] at he
      split at he
      · rename_i hq
        cases he
        show Kept (h.state.enterSoftirq c newheap) _ c x _
        unfold Kept
        rw [hphase, update_self]
        exact ⟨(queued_of_timer_eq (congrFun htimer x)).2 hq,
          expires_of_timer_eq (congrFun htimer x)⟩
      · cases he
    · have he : update h.entry c (newEntry h.state c) c' x = some e := he
      rw [update_of_ne hcc] at he
      refine (inv.kept c' x e he).congr ?_ fun _ => congrFun htimer x
      rw [hphase, update_of_ne hcc]

theorem History.step_inv {a : Action} (ha : Admits h.state a) (inv : h.Inv slop) :
    ∃ h', h.step slop a = .ok h' ∧ h'.Inv slop := by
  have hnot : ∀ {P : Prop} [Decidable P] {c x : ℕ} {e : ℤ},
      (if P then none else h.entry c x) = some e → ¬ P ∧ h.entry c x = some e := by
    intro P _ c x e he
    split at he
    · cases he
    · exact ⟨‹_›, he⟩
  unfold History.step
  cases a with
  | init t c =>
    obtain ⟨s', hs, hw⟩ := initTimer_worked inv.good ha.1 ha.2
    rw [TimerQueue.step, hs, ok_bind]
    exact ⟨_, rfl, inv.worked hw fun c x e he => hnot he⟩
  | set t expires =>
    obtain ⟨s', hs, hw⟩ := setTimerExpiry_worked inv.good ha expires
    rw [TimerQueue.step, hs, ok_bind]
    exact ⟨_, rfl, inv.worked hw fun c x e he => hnot he⟩
  | stop t =>
    obtain ⟨s', hs, hw⟩ := stopTimer_worked inv.good ha
    rw [TimerQueue.step, hs, ok_bind]
    exact ⟨_, rfl, inv.worked hw fun c x e he => hnot he⟩
  | migrate t new =>
    obtain ⟨s', hs, ⟨rfl, -⟩ | ⟨hne, hw⟩⟩ := migrateTimer_worked inv.good ha.1 ha.2
    · rw [TimerQueue.step, hs, ok_bind]
      exact ⟨_, rfl, inv.good, inv.armed, fun c x e he => inv.kept c x e (hnot he).2⟩
    · rw [TimerQueue.step, hs, ok_bind]
      exact ⟨_, rfl, inv.worked hw fun c x e he => ⟨fun h => (hnot he).1 ⟨h, hne⟩, (hnot he).2⟩⟩
  | kill c t =>
    obtain ⟨s', hs, hw⟩ := killTimer_worked inv.good ha.1 ha.2
    rw [TimerQueue.step, hs, ok_bind]
    exact ⟨_, rfl, inv.worked hw fun c x e he => hnot he⟩
  | softirq c newheap => exact ⟨_, rfl, inv.entered newheap⟩
  | sample c now now' armed =>
    obtain ⟨s', hs, hout⟩ := heapLoop_spec slop c now armed inv.good.inv ha.2
    rw [TimerQueue.step, hs, ok_bind]
    refine ⟨h.resumed c s' (update h.sampled c now) now', rfl, ?_⟩
    exact inv.heapOutcome (by rw [ha.1]; simp) (fun c' hc => update_of_ne hc _ _)
      (fun _ _ _ => update_self _ _ _) hout
  | callbackReturns c now' armed =>
    have inv₀ := inv.returned c
    rw [TimerQueue.step, State.resumeSoftirq]
    cases hp : h.state.phase c with
    | idle => exact absurd hp ha.1
    | entered => exact absurd hp ha.2.1
    | inHeap now =>
      obtain ⟨s', hs, hout⟩ := heapLoop_spec slop c now armed inv₀.good.inv ha.2.2
      dsimp only at hs ⊢
      rw [hs, ok_bind]
      refine ⟨h.resumed c s' h.sampled now', rfl, ?_⟩
      refine inv₀.heapOutcome (by show h.state.phase c ≠ _; rw [hp]; simp) (fun _ _ => rfl)
        (fun x e he => ?_) hout
      have := inv.kept c x e he
      unfold Kept at this
      rw [hp] at this
      exact this.2.2
    | inList now =>
      obtain ⟨s', hs, hout⟩ := listLoop_spec slop c now armed inv₀.good.inv ha.2.2
      dsimp only at hs ⊢
      rw [hs, ok_bind]
      refine ⟨h.resumed c s' h.sampled now', rfl, ?_⟩
      have hkept : ∀ x e, h.entry c x = some e → h.sampled c = now ∧
          (h.state.status x = .inHeap → now ≤ e) := fun x e he => by
        have := inv.kept c x e he
        unfold Kept at this
        rw [hp] at this
        exact this.2.2
      exact inv₀.listOutcome (by show h.state.phase c ≠ _; rw [hp]; simp) (fun _ _ => rfl)
        (fun x e he => (hkept x e he).1) (fun x e he => (hkept x e he).2) hout
  | cpuUp c dummy =>
    refine ⟨_, rfl, cpuUp_good inv.good dummy ha.1 ha.2,
      inv.armed.of_same rfl rfl fun _ hc => ⟨hc, rfl⟩, fun c' x e he => ?_⟩
    have he : (if touches h.state (.cpuUp c dummy) (h.state.cpuUp c dummy) x then none
      else h.entry c' x) = some e := he
    exact (inv.kept c' x e (hnot he).2).congr rfl fun _ => rfl
  | cpuDead old new =>
    obtain ⟨s', hs, hr⟩ := migrateTimersFromCpu_spec inv.good ha.2.2.1 ha.2.1
    rw [TimerQueue.step, hs, ok_bind]
    refine ⟨_, rfl, hr.good, hr.armed inv.armed, fun c' x e he => ?_⟩
    obtain ⟨hx, he⟩ := hnot he
    exact (inv.kept c' x e he).congr (congrFun hr.phase c') fun _ => hr.timer x hx

theorem History.run_inv (run : Reaches (History.step slop) (fun h a => Admits h.state a) .boot h) :
    h.Inv slop := by
  refine run.invariant_of_total (fun _ _ => History.step_inv)
    ⟨boot_good, fun c _ => .inr fun x hx => ?_, fun c x e he => ?_⟩
  · rcases hx.1 with h | h <;> cases h
  · cases he

/-- **No timer is slept through.** Outside of its softirq, a CPU has the softirq pending or a
deadline that is early enough for its earliest timer, and its last softirq has seen to all timers
that expired before the time it sampled. -/
theorem no_timer_slept_through
    (run : Reaches (History.step slop) (fun h a => Admits h.state a) .boot h)
    (hc : h.state.phase c = .idle) :
    (∀ e, IsLeast {e | ∃ t, h.state.Queued c t ∧ h.state.expires t = e} e → e < stimeMax →
        h.state.softirqPending c = true ∨ h.state.timerDeadline c ≠ 0 ∧
          h.state.timerDeadline c ≤ max e (h.reprogrammed c + slop)) ∧
      ∀ t e, h.entry c t = some e → h.sampled c ≤ e := by
  have inv := History.run_inv run
  refine ⟨fun e he hlt => ?_, fun t e he => ?_⟩
  · obtain ⟨⟨t, ht, rfl⟩, -⟩ := he
    exact (inv.armed c hc).imp_right fun hdue => hdue t ht hlt
  · have := inv.kept c t e he
    unfold Kept at this
    rw [hc] at this
    exact this

/-- The run of two timers: the second is run and set again, for earlier than the first. -/
theorem no_timer_slept_through_reset :
    ∃ h, Reaches (History.step 5) (fun h a => Admits h.state a) .boot h ∧
      (h.state.softirqPending 0 = true ∨ h.state.timerDeadline 0 ≠ 0 ∧
        h.state.timerDeadline 0 ≤ max 80 (h.reprogrammed 0 + 5)) ∧
      h.entry 0 1 = some 100 ∧ h.sampled 0 ≤ 100 := by
  obtain ⟨h, run, ⟨hphase, hentry⟩, ⟨hsize, hheap, hheap', hlist⟩, hqueued, hexp, hexp'⟩ : ∃ h,
      Reaches (History.step 5) (fun h a => Admits h.state a) .boot h ∧
        (h.state.phase 0 = .idle ∧ h.entry 0 1 = some 100) ∧
        ((h.state.timers 0).size = 2 ∧ (h.state.timers 0).heap 1 = 2 ∧
          (h.state.timers 0).heap 2 = 1 ∧
          (h.state.timers 0).list = []) ∧
        h.state.Queued 0 2 ∧ h.state.expires 2 = 80 ∧ h.state.expires 1 = 100 :=
    Reaches.exists_of_checked (l := resetRun) (e := .assertion) (by decide +kernel)
  have inv := (History.run_inv run).good.inv
  have hleast : IsLeast {e | ∃ t, h.state.Queued 0 t ∧ h.state.expires t = e} 80 := by
    refine ⟨⟨2, hqueued, hexp⟩, ?_⟩
    rintro _ ⟨t, ⟨hin | hin, hcpu⟩, rfl⟩
    · obtain ⟨i, hlow, hhigh, rfl⟩ := (inv.heap_mem 0 t).2 ⟨hin, hcpu, Set.notMem_empty t⟩
      have hi : i = 1 ∨ i = 2 := by omega
      rcases hi with rfl | rfl
      · exact (congrArg h.state.expires hheap).trans hexp |>.ge
      · have hlater : h.state.expires ((h.state.cells 0).heap 2) = 100 :=
          (congrArg h.state.expires hheap').trans hexp'
        rw [hlater]
        decide
    · have hmem := (inv.list_mem 0 t).2 ⟨hin, hcpu, Set.notMem_empty t⟩
      rw [hlist] at hmem
      cases hmem
  have hsafe := no_timer_slept_through run hphase
  exact ⟨h, run, hsafe.1 80 hleast (by decide), hentry, hsafe.2 1 100 hentry⟩

end XenVmi.TimerQueue
