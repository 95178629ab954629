import XenVmi.Altp2m.Entries
import XenVmi.Ept.Translate
import XenVmi.Lib.Runs

/-!
# What a change of translations leaves alone

Everything the operations of `XenVmi.Altp2m.Entries` do is a sequence of six writes. `Writes cfg P`:
`P` survives each of them, and so each operation. `Domain.shell` is a domain without its
translations.
-/

namespace XenVmi.Altp2m

open Function XenVmi.Ept XenVmi.Lib

/-! ## The six writes -/

/-- `ept_set_entry` on the host p2m, before it propagates. -/
def hostWriteEntry (cfg : Config) (d : Domain) (q : SetArgs) : Domain :=
  let r := P2m.setEntry cfg d.freelist d.hostp2m q
  { d with freelist := r.2.1, hostp2m := r.2.2 }

structure Writes (cfg : Config) (P : Machine → Prop) : Prop where
  view : ∀ m i q, q.order ≤ 27 → P m → P { m with dom := (altSetEntry cfg i m.dom q).2 }
  host : ∀ m q, q.order ≤ 18 → P m → P { m with dom := hostWriteEntry cfg m.dom q }
  reset : ∀ m i, i < maxAltp2m → P m → P { m with dom := p2mResetAltp2m cfg m.dom i }
  access : ∀ m i a, P m → P { m with dom := m.dom.modP2m i fun p => { p with defaultAccess := a } }
  remapped : ∀ m i gfn, P m → P { m with dom := m.dom.modP2m i (noteRemapped gfn) }
  m2p : ∀ m t, P m → P { m with m2p := t }

theorem Writes.and {cfg : Config} {P Q : Machine → Prop} (W : Writes cfg P) (V : Writes cfg Q) :
    Writes cfg fun m => P m ∧ Q m where
  view m i q hq h := ⟨W.view m i q hq h.1, V.view m i q hq h.2⟩
  host m q hq h := ⟨W.host m q hq h.1, V.host m q hq h.2⟩
  reset m i hi h := ⟨W.reset m i hi h.1, V.reset m i hi h.2⟩
  access m i a h := ⟨W.access m i a h.1, V.access m i a h.2⟩
  remapped m i gfn h := ⟨W.remapped m i gfn h.1, V.remapped m i gfn h.2⟩
  m2p m t h := ⟨W.m2p m t h.1, V.m2p m t h.2⟩

section SetEntry

variable {cfg : Config} {σ : Type} {set : σ → SetArgs → Int × σ} {P : σ → Prop}

theorem nextOrder_le (cfg : Config) (gfn mfn todo : Nat) : nextOrder cfg gfn mfn todo ≤ 18 := by
  unfold nextOrder
  split
  · exact le_rfl
  · split <;> omega

theorem setEntryLoop_keeps (keeps : ∀ s q, q.order ≤ 18 → P s → P (set s q).2) (t : P2mType)
    (a : P2mAccess) (fuel : Nat) (s : σ) (gfn mfn todo : Nat) (rc : Int) (h : P s) :
    P (setEntryLoop cfg set t a fuel s gfn mfn todo rc).2 := by
  induction fuel generalizing s gfn mfn todo rc with
  | zero => exact h
  | succ fuel ih =>
    unfold setEntryLoop
    split
    · exact h
    · exact ih _ _ _ _ _ (keeps _ _ (nextOrder_le ..) h)

theorem setEntryLoop_done (set : σ → SetArgs → Int × σ) (t : P2mType) (a : P2mAccess)
    (fuel : Nat) (s : σ) (gfn mfn : Nat) (rc : Int) :
    setEntryLoop cfg set t a fuel s gfn mfn 0 rc = (rc, s) := by
  cases fuel <;> rfl

theorem p2mSetEntry_whole (set : σ → SetArgs → Int × σ) (s : σ) {gfn mfn order : Nat} (t : P2mType)
    (a : P2mAccess) (h : nextOrder cfg gfn mfn (2 ^ order) = order) :
    (p2mSetEntry cfg set s gfn mfn order t a).2 =
      (set s { gfn := gfn, mfn := mfn, order := order, t := t, a := a, sve := -1 }).2 := by
  obtain ⟨n, hn⟩ := Nat.exists_eq_succ_of_ne_zero (Nat.two_pow_pos order).ne'
  unfold p2mSetEntry
  rw [hn, setEntryLoop, if_neg n.succ_ne_zero, ← hn]
  simp only [h, Nat.sub_self, setEntryLoop_done]

theorem p2mSetEntry_keeps (keeps : ∀ s q, q.order ≤ 18 → P s → P (set s q).2) (s : σ)
    (gfn mfn pageOrder : Nat) (t : P2mType) (a : P2mAccess) (h : P s) :
    P (p2mSetEntry cfg set s gfn mfn pageOrder t a).2 :=
  setEntryLoop_keeps keeps _ _ _ _ _ _ _ _ h

end SetEntry

theorem hostGetEntryAlloc_order (cfg : Config) (gfn fuel : Nat) (m : Machine) :
    Ensures (fun _ => True) (hostGetEntryAlloc cfg gfn fuel m) fun r => r.1.order ≤ 27 := by
  induction fuel generalizing m with
  | zero => trivial
  | succ fuel ih =>
    unfold hostGetEntryAlloc
    simp only
    split
    · exact eptGetEntry_order_le _
    split
    · exact Nat.zero_le 27
    split
    · exact ih _
    · split
      · rename_i hw
        exact decode_order_le hw
      · exact ofWalk_order_le false

/-- The view index of vCPU `v` is one that `p2m_get_altp2m` accepts. -/
def IndexOk (d : Domain) (v : Nat) : Prop :=
  (d.vcpu v).p2midx = invalidAltp2m ∨ (d.vcpu v).p2midx < maxAltp2m

theorem IndexOk.exists_view {d : Domain} {v : Nat} (h : IndexOk d v) :
    ∃ view, p2mGetAltp2m d v = .ok view := by
  unfold p2mGetAltp2m
  rcases h with h | h
  · exact ⟨none, by simp [h]⟩
  · have : (d.vcpu v).p2midx ≠ invalidAltp2m := by
      unfold maxAltp2m at h
      unfold invalidAltp2m
      omega
    exact ⟨some (d.vcpu v).p2midx, by simp [this, Nat.not_le.2 h]⟩

namespace Writes

variable {cfg : Config} {P : Machine → Prop}

/-! ## Host changes -/

variable {t : Nat → Nat} {m : Machine} {v : Nat} (W : Writes cfg P)

include W

theorem viewSetEntry {d : Domain} (i gfn mfn order : Nat)
    (ty : P2mType) (a : P2mAccess) (h : P ⟨d, t⟩) :
    P ⟨(p2mSetEntry cfg (altSetEntry cfg i) d gfn mfn order ty a).2, t⟩ :=
  p2mSetEntry_keeps
    (fun d q hq h => W.view ⟨d, t⟩ i q (hq.trans (by decide)) h) _ _ _ _ _ _ h

theorem resetAll {d : Domain} (last : Nat) (h : P ⟨d, t⟩) : P ⟨resetAll cfg last d, t⟩ := by
  refine foldl_invariant (fun d => P ⟨d, t⟩) (fun d i hi h => ?_) h
  split
  · exact h
  · exact W.reset ⟨d, t⟩ i (List.mem_range.1 hi) h

theorem propagateLoop (q : SetArgs) :
    ∀ (is : List Nat), (∀ i ∈ is, i < maxAltp2m) → ∀ (d : Domain) (last : Option Nat),
      P ⟨d, t⟩ → P ⟨propagateLoop cfg q is d last, t⟩ := by
  intro is
  induction is with
  | nil => exact fun _ d last h => h
  | cons i is ih =>
    intro hi d last h
    have hlt := hi i List.mem_cons_self
    have ih := ih fun j hj => hi j (List.mem_cons_of_mem _ hj)
    unfold Altp2m.propagateLoop
    split
    · exact ih d last h
    split
    · cases last with
      | none => exact ih _ _ (W.reset ⟨d, t⟩ i hlt h)
      | some j => exact W.resetAll j h
    · split
      · exact ih _ _ (W.viewSetEntry i _ _ _ _ _ h)
      · exact ih d last h

theorem propagateChange {d : Domain} (q : SetArgs)
    (h : P ⟨d, t⟩) : P ⟨p2mAltp2mPropagateChange cfg d q, t⟩ := by
  unfold p2mAltp2mPropagateChange
  split
  · exact W.propagateLoop q _ (fun i hi => List.mem_range.1 hi) d none h
  · exact h

theorem hostSetEntry {d : Domain} {q : SetArgs}
    (hq : q.order ≤ 18) (h : P ⟨d, t⟩) : P ⟨(hostSetEntry cfg d q).2, t⟩ := by
  unfold Altp2m.hostSetEntry
  have hw := W.host ⟨d, t⟩ q hq h
  simp only
  split
  · exact W.propagateChange q hw
  · exact hw

theorem apply (w : HostWrite) (h : P m) : P (w.apply cfg m) := by
  cases w with
  | entry gfn mfn order t a =>
    exact p2mSetEntry_keeps (P := fun d => P ⟨d, m.m2p⟩) (fun d q hq h => W.hostSetEntry hq h)
      _ _ _ _ _ _ h
  | m2p mfn gpfn => exact W.m2p m _ h

theorem applyAll (ws : List HostWrite) (h : P m) : P (ws.foldl (HostWrite.apply cfg) m) :=
  foldl_invariant P (fun _ w _ h => W.apply w h) h

/-! ## Host lookups -/

theorem hostGetEntryAlloc (gfn fuel : Nat) (h : P m) :
    Ensures (· = .spin) (hostGetEntryAlloc cfg gfn fuel m) fun r => P r.2 := by
  induction fuel generalizing m with
  | zero => exact rfl
  | succ fuel ih =>
    unfold Altp2m.hostGetEntryAlloc
    simp only
    split
    · exact h
    rename_i order _
    have hw := W.applyAll (cfg.podDemandPopulate m.dom gfn order).1 h
    split
    · exact hw
    · split
      · exact ih hw
      · split
        · exact hw
        · exact hw

theorem hostGetEntry (gfn : Nat) (h : P m) :
    Ensures (· = .spin) (hostGetEntry cfg m gfn) fun r => P r.2 :=
  W.hostGetEntryAlloc gfn _ h

theorem unshareAndRetry (gfn : Nat) (unshare : Bool) {s : Lookup × Machine}
    (h : P s.2) : Ensures (· = .spin) (unshareAndRetry cfg gfn unshare s) fun r => P r.2 := by
  unfold Altp2m.unshareAndRetry
  split
  · exact W.hostGetEntry gfn (W.applyAll _ h)
  · exact h

theorem hostGetGfnTypeAccess (gfn : Nat) (unshare : Bool)
    (h : P m) : Ensures (· = .spin) (hostGetGfnTypeAccess cfg m gfn unshare) fun r => P r.2 := by
  unfold Altp2m.hostGetGfnTypeAccess
  refine (W.hostGetEntry gfn h).bind fun s hs => ?_
  refine (W.unshareAndRetry gfn unshare hs).bind fun s hs => ?_
  exact Ensures.pure hs

/-! ## Filling a view -/

theorem lazyCopy (idx : ∀ m, P m → IndexOk m.dom v) (gfn : Nat) (h : P m) :
    Ensures (· = .spin) (p2mAltp2mLazyCopy cfg m v gfn) fun r => P r.2.2 := by
  unfold p2mAltp2mLazyCopy
  obtain ⟨view, hview⟩ := (idx m h).exists_view
  rw [hview, ok_bind]
  cases view with
  | none => exact h
  | some i =>
    simp only
    split
    · exact h
    · refine (W.hostGetGfnTypeAccess gfn true h).bind fun r hr => ?_
      split
      · exact hr
      · exact W.viewSetEntry i _ _ _ _ _ hr

theorem nestedPageFault (idx : m.dom.altp2mActive = true → ∀ m, P m → IndexOk m.dom v) (gfn : Nat)
    (write : Bool) (h : P m) : Ensures (· = .spin) (hvmHapNestedPageFault cfg m v gfn write) P := by
  refine (W.hostGetGfnTypeAccess gfn write h).bind fun r hr => ?_
  split
  · rename_i ha
    exact (W.lazyCopy (idx ha) gfn hr).bind fun r hr => Ensures.pure hr
  · exact hr

theorem lookupOrCopy (i gfn : Nat) (h : P m) :
    Ensures (· = .spin) (lookupOrCopy cfg m i gfn) fun r => P r.2 := by
  unfold Altp2m.lookupOrCopy
  simp only
  split
  · exact h
  have hget := (W.hostGetEntry gfn h).and (hostGetEntryAlloc_order cfg gfn _ m)
  refine hget.bind fun r hr => ?_
  split
  · exact hr.1
  · split
    · exact W.view r.2 i _ hr.2 hr.1
    · exact hr.1

theorem setMemAccess (remote : Bool) (idx gfn access : Nat) (h : P m) :
    Ensures (· = .spin) (p2mSetAltp2mMemAccess cfg m remote idx gfn access) fun r => P r.2 := by
  unfold p2mSetAltp2mMemAccess
  split
  · exact h
  split
  · exact h
  split
  · exact W.access m idx _ h
  · refine (W.lookupOrCopy idx gfn h).bind fun r hr => ?_
    obtain ⟨_ | l, m'⟩ := r
    · exact hr
    · exact W.view m' idx _ (Nat.zero_le 27) hr

theorem altRemovePage (i gfn mfn pageOrder : Nat) (h : P m) :
    P (altRemovePage cfg m i gfn mfn pageOrder).2 := by
  unfold Altp2m.altRemovePage
  refine W.viewSetEntry i _ _ _ _ _ ?_
  split
  · refine foldl_invariant P (fun m k _ hm => ?_) h
    split
    · exact W.m2p m _ hm
    · exact hm
  · exact h

theorem changeGfn (remote : Bool) (idx oldGfn newGfn : Nat) (h : P m) :
    Ensures (· = .spin) (p2mChangeAltp2mGfn cfg m remote idx oldGfn newGfn) fun r => P r.2 := by
  unfold p2mChangeAltp2mGfn
  split
  · exact h
  split
  · simp only
    split
    · exact W.altRemovePage idx _ _ _ h
    · exact h
  refine (W.lookupOrCopy idx oldGfn h).bind fun r hr => ?_
  obtain ⟨_ | l, m'⟩ := r
  · exact hr
  have hv := fun q hq => W.view m' idx q hq hr
  simp only
  generalize (if cfg.mfnValid ((m'.dom.altp2mP2m idx).getEntry cfg newGfn).mfn = true then _
    else m'.dom.hostp2m.getEntry cfg newGfn) = l'
  split
  · exact hr
  · split
    · exact W.remapped _ idx newGfn (hv _ (Nat.zero_le 27))
    · exact hv _ (Nat.zero_le 27)

end Writes

/-! ## The rest of a domain -/

def P2m.shell (p : P2m) : P2m :=
  { p with
    root := fun _ => .leaf EptEntry.zero, pages := [], defaultAccess := .n, maxMappedPfn := 0,
    minRemappedGfn := 0, maxRemappedGfn := 0 }

def Domain.shell (d : Domain) : Domain :=
  { d with
    altp2mP2m := fun i => (d.altp2mP2m i).shell, hostp2m := d.hostp2m.shell, freelist := [] }

structure Ready (cfg : Config) (d : Domain) : Prop where
  /-- `ept_p2m_init` has run on every view. -/
  init : ∀ i < maxAltp2m, (d.altp2mP2m i).ept.init cfg = (d.altp2mP2m i).ept
  np2m : ∀ i < maxAltp2m, (d.altp2mP2m i).np2mBase = p2mBaseEaddr
  slot : ∀ i < maxAltp2m, d.altp2mEptp i ≠ invalidMfn →
    d.altp2mEptp i = (d.altp2mP2m i).ept.eptp ∧ (d.altp2mP2m i).ept.asr = (d.altp2mP2m i).physTable
  upper : ∀ i, maxAltp2m ≤ i → i < maxEptp → d.altp2mEptp i = invalidMfn

section Shell

variable {cfg : Config} {d d' : Domain} {i : Nat} (h : d'.shell = d.shell)

include h

theorem vcpus_of_shell : d'.vcpus = d.vcpus := by
  show d'.shell.vcpus = d.shell.vcpus
  rw [h]

theorem vcpu_of_shell (v : Nat) : d'.vcpu v = d.vcpu v := by
  unfold Domain.vcpu
  rw [vcpus_of_shell h]

theorem altp2mActive_of_shell : d'.altp2mActive = d.altp2mActive := by
  show d'.shell.altp2mActive = d.shell.altp2mActive
  rw [h]

theorem altp2mEptp_of_shell : d'.altp2mEptp = d.altp2mEptp := by
  show d'.shell.altp2mEptp = d.shell.altp2mEptp
  rw [h]

theorem Ready.of_shell (R : Ready cfg d) : Ready cfg d' := by
  have R' : Ready cfg d.shell := ⟨R.init, R.np2m, R.slot, R.upper⟩
  rw [← h] at R'
  exact ⟨R'.init, R'.np2m, R'.slot, R'.upper⟩

omit h

theorem Ready.eptP2mInit_eq (R : Ready cfg d) (hi : i < maxAltp2m) :
    eptP2mInit cfg (d.altp2mP2m i) = d.altp2mP2m i := by
  unfold eptP2mInit
  rw [R.init i hi]

theorem flushView_eq (R : Ready cfg d) (hi : i < maxAltp2m) : flushView cfg d i = d := by
  unfold flushView p2mFlushTable
  simp only [R.np2m i hi, if_true, R.eptP2mInit_eq hi, update_eq_self]

theorem p2mResetAltp2m_eq (R : Ready cfg d) (hi : i < maxAltp2m) :
    p2mResetAltp2m cfg d i =
      d.modP2m i fun p => { p with minRemappedGfn := invalidGfn, maxRemappedGfn := 0 } := by
  unfold p2mResetAltp2m
  rw [flushView_eq R hi]

theorem view_update_eq {α : Type} {views : Nat → P2m} {p : P2m} (g : P2m → α)
    (h : g p = g (views i)) (j : Nat) : g (update views i p j) = g (views j) := by
  by_cases hj : j = i
  · subst hj; rw [update_self, h]
  · rw [update_of_ne hj]

theorem shell_update {s : Domain} (h : d.shell = s) (fl : List Nat) {p : P2m}
    (hp : p.shell = (d.altp2mP2m i).shell) :
    Domain.shell { d with freelist := fl, altp2mP2m := update d.altp2mP2m i p } = s := by
  have hv : (fun j => (update d.altp2mP2m i p j).shell)
      = fun j => (d.altp2mP2m j).shell := funext (view_update_eq P2m.shell hp)
  subst h
  unfold Domain.shell
  simp only [hv]

theorem shell_modP2m {s : Domain} (h : d.shell = s) {f : P2m → P2m}
    (hf : ∀ p, (f p).shell = p.shell) : (d.modP2m i f).shell = s :=
  shell_update h d.freelist (hf _)

theorem writes_shell (R : Ready cfg d) : Writes cfg fun m => m.dom.shell = d.shell where
  view m i q _ h := by
    exact shell_update h _ rfl
  host m q _ h := h
  reset m i hi h := by
    rw [p2mResetAltp2m_eq (R.of_shell h) hi]
    exact shell_modP2m h fun _ => rfl
  access m i a h := by exact shell_modP2m h fun _ => rfl
  remapped m i gfn h := by exact shell_modP2m h fun _ => rfl
  m2p m t h := h

theorem Writes.and_shell {B A : Domain → Prop} (W : Writes cfg fun m => B m.dom)
    (ready : ∀ d, B d → Ready cfg d) (keep : ∀ d d' : Domain, d'.shell = d.shell → A d → A d') :
    Writes cfg fun m => B m.dom ∧ A m.dom where
  view m i q hq h := ⟨W.view m i q hq h.1,
    keep _ _ ((writes_shell (ready _ h.1)).view m i q hq rfl) h.2⟩
  host m q hq h := ⟨W.host m q hq h.1, keep _ _ ((writes_shell (ready _ h.1)).host m q hq rfl) h.2⟩
  reset m i hi h := ⟨W.reset m i hi h.1,
    keep _ _ ((writes_shell (ready _ h.1)).reset m i hi rfl) h.2⟩
  access m i a h := ⟨W.access m i a h.1,
    keep _ _ ((writes_shell (ready _ h.1)).access m i a rfl) h.2⟩
  remapped m i gfn h :=
    ⟨W.remapped m i gfn h.1, keep _ _ ((writes_shell (ready _ h.1)).remapped m i gfn rfl) h.2⟩
  m2p _ _ h := h

end Shell

end XenVmi.Altp2m
