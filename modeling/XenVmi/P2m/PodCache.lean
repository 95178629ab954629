import Mathlib.Data.List.Perm.Subperm
import XenVmi.P2m.PodCount

/-!
# Pages of the populate-on-demand cache are out of reach

`Hides env s out`: no p2m entry has a frame of the cache, one freed from it, or one in `out`, the
frames on their way. It also says that RAM has frames and no frame is mapped twice, which sharing
and paging break: the cache takes a shared frame from one of its gfns, and an invalid one from a
paged-out gfn. `PodOp.TakesOut` is about the updates that take RAM out of the p2m before it is
cached: the source does not look at their result, and when they fail the guest keeps the page.

`cached_pages_hidden` is the result; `guest_physmap_add_entry` and `guest_physmap_remove_page` are
not steps of its runs.
-/

namespace XenVmi.P2m

open Function XenVmi.Ept XenVmi.Lib List

/-- The frames of the cache, and those freed from it. -/
def State.held (s : State) : List Nat := s.pod.frames ++ s.freed

/-- A populate-on-demand entry or none. -/
structure Frameless (e : Translation) : Prop where
  mfn : e.mfn = invalidMfn
  ram : e.t.isRam = false

/-- The frames of the cache, those freed from it and those of `out` are out of the guest's reach. -/
structure Hides (env : Env) (s : State) (out : List Nat) : Prop where
  count : s.pod.count = s.pod.frames.length
  valid : ∀ f ∈ out ++ s.held, env.mfnValid f = true
  nodup : (out ++ s.held).Nodup
  hidden : ∀ f ∈ out ++ s.held, ∀ x, (s.table x).mfn ≠ f
  backed : ∀ x, (s.table x).t.isRam = true → env.mfnValid (s.table x).mfn = true
  unaliased : ∀ x y, (s.table x).t.isRam = true → (s.table y).mfn = (s.table x).mfn → y = x

/-! ## The rules -/

section Rules

variable {env : Env} {s s' : State} {out out' b : List Nat}

theorem ne_of_valid {f : Nat} (h : env.mfnValid f = true) : f ≠ invalidMfn := by
  rintro rfl
  rw [env.mfnValid_invalidMfn] at h
  cases h

theorem Hides.moved (h : Hides env s out) (ht : s'.table = s.table)
    (hc : s'.pod.count = s'.pod.frames.length)
    (hp : (out' ++ s'.held).Subperm (out ++ s.held)) : Hides env s' out' := by
  obtain ⟨l, hl, hsub⟩ := hp
  have hmem : ∀ f ∈ out' ++ s'.held, f ∈ out ++ s.held := fun f hf =>
    hsub.subset (hl.mem_iff.2 hf)
  refine ⟨hc, fun f hf => h.valid f (hmem f hf), hl.nodup_iff.1 (hsub.nodup h.nodup),
    fun f hf x => ?_, ?_, ?_⟩
  · rw [ht]
    exact h.hidden f (hmem f hf) x
  · rw [ht]
    exact h.backed
  · rw [ht]
    exact h.unaliased

theorem Hides.frame (h : Hides env s out) (ht : s'.table = s.table)
    (hc : s'.pod.count = s.pod.count) (hp : s'.pod.frames = s.pod.frames)
    (hf : s'.freed = s.freed) : Hides env s' out :=
  h.moved ht (by rw [hc, hp]; exact h.count) (by rw [State.held, hp, hf]; exact .refl _)

theorem Hides.forget (h : Hides env s (b ++ out)) : Hides env s out :=
  h.moved rfl h.count ((sublist_append_right b out).append (List.Sublist.refl _)).subperm

theorem Hides.cleared (h : Hides env s out) (hp : s'.pod = s.pod) (hf : s'.freed = s.freed)
    (ht : ∀ x, (∃ a, s'.table x = ⟨(s.table x).mfn, (s.table x).t, a⟩) ∨ Frameless (s'.table x)) :
    Hides env s' out := by
  have hkept : ∀ x, env.mfnValid (s'.table x).mfn = true →
      ∃ a, s'.table x = ⟨(s.table x).mfn, (s.table x).t, a⟩ := fun x hv =>
    (ht x).resolve_right fun he => ne_of_valid hv he.mfn
  have hback : ∀ x, (s'.table x).t.isRam = true → env.mfnValid (s'.table x).mfn = true :=
    fun x hr => by
    rcases ht x with ⟨a, hx⟩ | he
    · rw [hx] at hr ⊢
      exact h.backed x hr
    · rw [he.ram] at hr
      cases hr
  have hh : s'.held = s.held := by rw [State.held, hp, hf, State.held]
  refine ⟨hp ▸ h.count, fun f hf => h.valid f (hh ▸ hf), hh ▸ h.nodup, fun f hf x hx => ?_, hback,
    fun x y hr hy => ?_⟩
  · rw [hh] at hf
    have hv := h.valid f hf
    rw [← hx] at hv
    obtain ⟨a, hxt⟩ := hkept x hv
    rw [hxt] at hx
    exact h.hidden f hf x hx
  · obtain ⟨a, hxt⟩ := hkept x (hback x hr)
    obtain ⟨a', hyt⟩ := hkept y (by rw [hy]; exact hback x hr)
    rw [hxt] at hr
    rw [hxt, hyt] at hy
    exact h.unaliased x y hr hy

theorem Hides.fetched (h : Hides env s out) (hb : b.Nodup)
    (hvalid : ∀ f ∈ b, env.mfnValid f = true) (hun : ∀ f ∈ b, ∀ x, (s.table x).mfn ≠ f)
    (hnew : ∀ f ∈ b, f ∉ out ++ s.held) : Hides env s (b ++ out) := by
  refine ⟨h.count, fun f hf => ?_, ?_, fun f hf => ?_, h.backed, h.unaliased⟩
  · rw [append_assoc] at hf
    exact (mem_append.1 hf).elim (hvalid f) (h.valid f)
  · rw [append_assoc]
    refine nodup_append.2 ⟨hb, h.nodup, fun f hf g hg hfg => ?_⟩
    subst hfg
    exact hnew f hf hg
  · rw [append_assoc] at hf
    exact (mem_append.1 hf).elim (hun f) (h.hidden f)

theorem Hides.taken (h : Hides env s out) {xs : List Nat} (hxs : xs.Nodup)
    (hram : ∀ x ∈ xs, (s.table x).t.isRam = true) (hp : s'.pod = s.pod) (hf : s'.freed = s.freed)
    (hin : ∀ x ∈ xs, Frameless (s'.table x)) (hout : ∀ x ∉ xs, s'.table x = s.table x) :
    Hides env s' (xs.map (fun x => (s.table x).mfn) ++ out) := by
  have hh : s'.held = s.held := by rw [State.held, hp, hf, State.held]
  have h' : Hides env s' out := h.cleared hp hf fun x => by
    by_cases hx : x ∈ xs
    · exact .inr (hin x hx)
    · exact .inl ⟨_, hout x hx⟩
  have hnd : (xs.map fun x => (s.table x).mfn).Nodup := by
    refine hxs.map_on fun x hx y hy hxy => ?_
    exact h.unaliased y x (hram y hy) hxy
  have hvalid : ∀ f ∈ xs.map (fun x => (s.table x).mfn), env.mfnValid f = true := by
    intro f hf
    obtain ⟨x, hx, rfl⟩ := mem_map.1 hf
    exact h.backed x (hram x hx)
  have hhidden : ∀ f ∈ xs.map (fun x => (s.table x).mfn), ∀ y, (s'.table y).mfn ≠ f := by
    intro f hf y hy
    have hv := hvalid f hf
    obtain ⟨x, hx, rfl⟩ := mem_map.1 hf
    by_cases hys : y ∈ xs
    · exact ne_of_valid hv (hy.symm.trans (hin y hys).mfn)
    · rw [hout y hys] at hy
      exact hys (h.unaliased x y (hram x hx) hy ▸ hx)
  refine h'.fetched hnd hvalid hhidden fun f hf hmem => ?_
  obtain ⟨x, hx, rfl⟩ := mem_map.1 hf
  exact h.hidden _ (hh ▸ hmem) x rfl

theorem Hides.mapped (h : Hides env s (b ++ out)) (hp : s'.pod = s.pod) (hf : s'.freed = s.freed)
    (ht : ∀ x, s'.table x = s.table x ∨ (s'.table x).mfn ∈ b)
    (hinj : ∀ x y, (s'.table x).mfn ∈ b → (s'.table y).mfn = (s'.table x).mfn → y = x) :
    Hides env s' out := by
  have hh : s'.held = s.held := by rw [State.held, hp, hf, State.held]
  have hrest : ∀ f ∈ out ++ s'.held, f ∈ (b ++ out) ++ s.held ∧ f ∉ b := by
    intro f hf
    rw [hh] at hf
    have hnd := h.nodup
    rw [append_assoc] at hnd ⊢
    exact ⟨mem_append_right b hf, fun hfb => (nodup_append.1 hnd).2.2 f hfb f hf rfl⟩
  refine ⟨hp ▸ h.count, fun f hf => h.valid f (hrest f hf).1, ?_, fun f hf x hx => ?_,
    fun x hr => ?_, fun x y hr hy => ?_⟩
  · have hnd := h.nodup
    rw [append_assoc] at hnd
    rw [hh]
    exact (nodup_append.1 hnd).2.1
  · rcases ht x with hxt | hxb
    · exact h.hidden f (hrest f hf).1 x (hxt ▸ hx)
    · exact (hrest f hf).2 (hx ▸ hxb)
  · rcases ht x with hxt | hxb
    · rw [hxt] at hr ⊢
      exact h.backed x hr
    · exact h.valid _ (mem_append_left _ (mem_append_left _ hxb))
  · by_cases hxb : (s'.table x).mfn ∈ b
    · exact hinj x y hxb hy
    · have hxt := (ht x).resolve_right hxb
      have hyt := (ht y).resolve_right (by rw [hy]; exact hxb)
      rw [hxt] at hr
      rw [hxt, hyt] at hy
      exact h.unaliased x y hr hy

end Rules

/-! ## Writing ranges -/

section Ranges

variable {env : Env} {s : State} {out : List Nat} {setRc : Nat → Int} {gfn mfn k : Nat}

theorem superFrames_eq (page : Nat) : superFrames page = gfns page 9 := rfl

theorem Hides.setRange_cleared (h : Hides env s out) (q : Mapping) (k : Nat)
    (hq : ∀ x, Frameless (q.at x)) (hfits : q.Fits (2 ^ k)) :
    Hides env (s.setRange env setRc q k).2 out := by
  refine h.cleared rfl rfl fun x => ?_
  have hx : (s.setRange env setRc q k).2.table x = _ := p2mSetEntry_table hfits x
  rw [hx]
  split
  · exact .inr (hq x)
  · exact .inl ⟨_, rfl⟩

theorem Hides.setRange_taken (h : Hides env s out) (q : Mapping) (hq : Frameless (q.at q.gfn))
    (hrc : setRc q.gfn = 0) (hram : (s.table q.gfn).t.isRam = true) :
    Hides env (s.setRange env setRc q 0).2 (gfns (s.table q.gfn).mfn 0 ++ out) := by
  rw [setRange_zero _ hrc]
  refine h.taken (nodup_singleton q.gfn) (fun x hx => ?_) rfl rfl (fun x hx => ?_)
    fun x hx => update_of_ne (mt mem_singleton.2 hx) _ _
  · rw [mem_singleton.1 hx]
    exact hram
  · rw [mem_singleton.1 hx]
    show Frameless (update s.table q.gfn (q.at q.gfn) q.gfn)
    rw [update_self]
    exact hq

theorem Hides.setRange_mapped (h : Hides env s (gfns mfn k ++ out)) (gfn : Nat) {t : P2mType}
    (a : P2mAccess) (ht : t.isRam = true) :
    Hides env (s.setRange env setRc ⟨gfn, mfn, t, a⟩ k).2 out := by
  have hpos := Nat.two_pow_pos k
  have hlast := env.mfnValid_lt _ (h.valid (mfn + (2 ^ k - 1))
    (mem_append_left _ (mem_append_left _ (mem_gfns.2 (by omega)))))
  have htab : ∀ x, (s.setRange env setRc ⟨gfn, mfn, t, a⟩ k).2.table x = s.table x ∨
      (gfn ≤ x ∧ x < gfn + 2 ^ k) ∧
        (s.setRange env setRc ⟨gfn, mfn, t, a⟩ k).2.table x = ⟨mfn + (x - gfn), t, a⟩ := by
    intro x
    have hx : (s.setRange env setRc ⟨gfn, mfn, t, a⟩ k).2.table x = _ :=
      p2mSetEntry_table (.inr (.inr (.inr (.inl (by show mfn + 2 ^ k ≤ _; omega))))) x
    rw [hx]
    split
    · rename_i hc
      exact .inr ⟨hc.1, at_of_isRam ht (by omega)⟩
    · exact .inl rfl
  have hfresh : ∀ x, ((s.setRange env setRc ⟨gfn, mfn, t, a⟩ k).2.table x).mfn ∈ gfns mfn k →
      (gfn ≤ x ∧ x < gfn + 2 ^ k) ∧
        ((s.setRange env setRc ⟨gfn, mfn, t, a⟩ k).2.table x).mfn = mfn + (x - gfn) := by
    intro x hx
    rcases htab x with he | ⟨hc, he⟩
    · rw [he] at hx
      exact absurd rfl (h.hidden _ (mem_append_left _ (mem_append_left _ hx)) x)
    · exact ⟨hc, by rw [he]⟩
  refine h.mapped rfl rfl (fun x => ?_) fun x y hx hy => ?_
  · refine (htab x).imp_right fun hx => ?_
    rw [hx.2]
    exact mem_gfns.2 (by simp only; omega)
  · have hxe := hfresh x hx
    have hye := hfresh y (hy ▸ hx)
    omega

end Ranges

/-! ## Zeroed pages -/

section Zeroed

variable {env : Env} {o : PodOutcomes} {s : State} {out : List Nat} {gfn : Nat} {e : Translation}

theorem podMapping_frameless (env : Env) (gfn x : Nat) : Frameless ((podMapping env gfn).at x) :=
  ⟨rfl, rfl⟩

theorem noMapping_frameless (env : Env) (gfn x : Nat) : Frameless ((noMapping env gfn).at x) :=
  ⟨rfl, rfl⟩

theorem cacheAdd_frames {k : Nat} (hk : k = 9 ∨ k = 0) (s : State) (page : Nat) :
    (s.cacheAdd page k).pod.frames.Perm (gfns page k ++ s.pod.frames) ∧
      (s.cacheAdd page k).pod.count = s.pod.count + (2 ^ k : Nat) ∧
      (s.cacheAdd page k).freed = s.freed := by
  rcases hk with rfl | rfl <;> refine ⟨perm_iff_count.2 fun f => ?_, rfl, rfl⟩
  · show List.count f ((s.pod.super ++ [page]).flatMap superFrames ++ s.pod.single) = _
    rw [flatMap_append, flatMap_singleton, superFrames_eq]
    simp only [Pod.frames, count_append]
    omega
  · show List.count f (s.pod.super.flatMap superFrames ++ (s.pod.single ++ [page])) = _
    simp only [Pod.frames, gfns_zero, count_append]
    omega

theorem Hides.keep {b : List Nat} {s' : State} (h : Hides env s (b ++ out))
    (ht : s'.table = s.table) (hc : s'.pod.count = s'.pod.frames.length)
    (hh : s'.held.Perm (b ++ s.held)) :
    Hides env s' out := by
  refine h.moved ht hc (List.Perm.subperm ?_)
  refine perm_iff_count.2 fun f => ?_
  have hc := perm_iff_count.1 hh f
  simp only [count_append] at hc ⊢
  omega

variable {page : Nat} {l : List (Nat × Translation)}

theorem Hides.cached {b : List Nat} {s' : State} (h : Hides env s (b ++ out))
    (ht : s'.table = s.table) (hf : s'.freed = s.freed)
    (hp : s'.pod.frames.Perm (b ++ s.pod.frames))
    (hc : s'.pod.count = s.pod.count + b.length) : Hides env s' out := by
  refine h.keep ht ?_ ?_
  · rw [hc, hp.length_eq, length_append, h.count]
    omega
  · rw [State.held, State.held, hf, ← append_assoc]
    exact hp.append_right _

theorem Hides.cacheAdd {k : Nat} (hk : k = 9 ∨ k = 0) (h : Hides env s (gfns page k ++ out)) :
    Hides env (s.cacheAdd page k) out := by
  obtain ⟨hp, hc, hf⟩ := cacheAdd_frames hk s page
  exact h.cached (cacheAdd_cacheOnly s page k).table hf hp (by rw [hc, length_gfns])

theorem Hides.cacheSingles {l : List Nat} (h : Hides env s (l ++ out)) :
    Hides env (s.cacheSingles s.table l) out := by
  refine h.cached rfl rfl (perm_iff_count.2 fun f => ?_) rfl
  show List.count f (s.pod.super.flatMap superFrames ++ (s.pod.single ++ l)) = _
  simp only [Pod.frames, count_append]
  omega

theorem zeroCheckSuperpage_hides (ho : ∀ x, o.superRc x = 0) (h : Hides env s out) (gfn : Nat) :
    Hides env (zeroCheckSuperpage env o s gfn).2 out := by
  unfold zeroCheckSuperpage
  simp only
  split
  · exact h
  split
  · exact h
  rename_i hr
  rw [Bool.not_eq_true', Bool.not_eq_false] at hr
  have hspec := fun {x} => reclaimableSuper_spec (x := x) hr
  have hself := hspec (mem_gfns.2 ⟨le_rfl, by omega⟩)
  split
  · exact h
  -- the frames of the range are those of the superpage
  have hframes : (gfns gfn 9).map (fun x => (s.table x).mfn) = gfns (s.table gfn).mfn 9 := by
    rw [gfns, map_map]
    refine map_congr_left fun i hi => ?_
    have hx := (hspec (mem_map_of_mem hi)).2.2.1
    rw [Nat.add_sub_cancel_left] at hx
    exact hx
  have htaken : Hides env (s.setRange env o.superRc (podMapping env gfn) 9).2
      (gfns (s.table gfn).mfn 9 ++ out) := by
    rw [← hframes, setRange_ok (.inl rfl) ho]
    refine h.taken (nodup_gfns gfn 9) (fun x hx => (hspec hx).1) rfl rfl
      (fun x hx => ?_) fun x hx => setBlock_of_not_mem hx
    show Frameless (s.table.setBlock (podMapping env gfn) (2 ^ 9) x)
    rw [setBlock_of_mem (q := podMapping env gfn) hx]
    exact podMapping_frameless env gfn x
  split
  · exact htaken.setRange_mapped gfn env.defaultAccess hself.1
  · exact (htaken.cacheAdd (.inl rfl)).frame rfl rfl rfl rfl

theorem zeroCheck_hides (ho : ∀ x, o.markRc x = 0) (h : Hides env s out) {xs : List Nat}
    (hxs : xs.Nodup) : Hides env (zeroCheck env o s xs) out := by
  rw [zeroCheck_eq ho]
  set l := xs.filter fun x => reclaimed env o (s.table x)
  have hmem : ∀ x, x ∈ l ↔ x ∈ xs ∧ reclaimed env o (s.table x) = true := fun x => mem_filter
  have hram : ∀ x ∈ l, (s.table x).t.isRam = true := fun x hx => by
    have hx := ((hmem x).1 hx).2
    rw [reclaimed, Bool.and_eq_true, Bool.and_eq_true] at hx
    exact isRam_of_tried hx.1.1
  have htaken : Hides env { s with table := fun x => if x ∈ l then .pod else s.table x } _ :=
    h.taken (hxs.filter _) hram rfl rfl (fun x hx => by
      show Frameless (if x ∈ l then Translation.pod else s.table x)
      rw [if_pos hx]
      exact ⟨rfl, rfl⟩) fun x hx => if_neg hx
  refine Hides.cacheSingles (s := { s with table := fun x => if x ∈ xs then _ else _ })
    (htaken.cleared rfl rfl fun x => ?_)
  by_cases hx : x ∈ xs
  · simp only [hmem, hx, true_and, if_true, checked, putBack]
    split
    · exact .inr ⟨rfl, rfl⟩
    split
    · split
      · exact .inl ⟨_, rfl⟩
      · exact .inr ⟨rfl, rfl⟩
    · exact .inl ⟨_, rfl⟩
  · simp only [hmem, hx, false_and, if_false]
    exact .inl ⟨_, rfl⟩

theorem emergencySweep_hides (ho : ∀ x, o.markRc x = 0) (h : Hides env s out) :
    Hides env (emergencySweep env o s) out :=
  emergencySweep_invariant (fun s => Hides env s out) (fun _ _ hxs h => zeroCheck_hides ho h hxs)
    (fun _ _ h => h.frame rfl rfl rfl rfl) h

theorem checkLastSuper_hides (ho : ∀ x, o.superRc x = 0) (h : Hides env s out) (gfn : Nat) :
    Hides env (checkLastSuper env o s gfn) out := by
  refine zeroCheckSuperpage_hides ho ?_ _
  exact h.frame rfl rfl rfl rfl

end Zeroed

/-! ## The cache -/

section Cache

variable {env : Env} {o : PodOutcomes} {s s' : State} {out : List Nat} {order : Nat}

variable {page target : Nat} {preemptible : Bool}

theorem Hides.cacheGet (h : Hides env s out)
    (hg : s.cacheGet order = .ok (some page, s')) : Hides env s' (gfns page order ++ out) := by
  obtain h' | ⟨p, pod, h', hperm, hcount, -⟩ := cacheGet_ok hg <;> cases h'
  refine h.moved rfl ?_ (List.Perm.subperm ?_)
  · have hlen := hperm.length_eq
    rw [length_append, length_gfns] at hlen
    have hc := h.count
    simp only
    omega
  · refine perm_iff_count.2 fun f => ?_
    have hc := perm_iff_count.1 hperm f
    simp only [State.held, count_append] at hc ⊢
    omega

theorem cacheGet_none (hg : s.cacheGet order = .ok (none, s')) : s' = s := by
  obtain h' | ⟨p, pod, h', -⟩ := cacheGet_ok hg <;> cases h'
  rfl

theorem freePages_hides (target : Nat) (preemptible : Bool) {fs : List Nat}
    (h : Hides env s (fs ++ out)) : Hides env (freePages o target preemptible fs s).2 out := by
  induction fs generalizing s with
  | nil => exact h
  | cons f fs ih =>
    have hrel : Hides env (s.release f) (fs ++ out) := by
      refine Hides.keep (b := [f]) h rfl h.count (perm_iff_count.2 fun g => ?_)
      simp only [State.held, State.release, count_append, count_cons, count_nil]
      omega
    unfold freePages
    simp only
    split
    · exact h.forget
    · split
      · exact hrel.forget
      · exact ih hrel

theorem shrinkCache_hides {fuel : Nat} {r : Int × State}
    (hs : Hides env s out) (h : shrinkCache o target preemptible fuel s = .ok r) :
    Hides env r.2 out :=
  shrinkCache_invariant (Hides env · out)
    (fun _ _ _ _ hg hs' => freePages_hides _ _ (hs'.cacheGet hg)) hs h

/-- The allocator gives frames that are not in the p2m, not in the cache, and not given before. -/
structure PodOutcomes.AllocFresh (o : PodOutcomes) (env : Env) (s : State) : Prop where
  valid : ∀ c k page, o.alloc c k = some page → ∀ f ∈ gfns page k, env.mfnValid f = true
  unmapped : ∀ c k page, o.alloc c k = some page → ∀ f ∈ gfns page k, ∀ x, (s.table x).mfn ≠ f
  uncached : ∀ c k page, s.pod.count ≤ c → o.alloc c k = some page →
    ∀ f ∈ gfns page k, f ∉ s.pod.frames
  disjoint : ∀ c c' k k' page page', c < c' → o.alloc c k = some page →
    o.alloc c' k' = some page' → ∀ f ∈ gfns page k, f ∉ gfns page' k'

theorem Hides.allocated (h : Hides env s []) {page k : Nat}
    (hvalid : ∀ f ∈ gfns page k, env.mfnValid f = true)
    (hun : ∀ f ∈ gfns page k, ∀ x, (s.table x).mfn ≠ f)
    (hnew : ∀ f ∈ gfns page k, f ∉ s.pod.frames) :
    Hides env (s.allocate page k) (gfns page k ++ []) := by
  have hfree : Hides env (s.allocate page k) [] :=
    h.moved rfl h.count ((List.Sublist.refl s.pod.frames).append filter_sublist).subperm
  refine hfree.fetched (nodup_gfns page k) hvalid hun fun f hf hmem => ?_
  rw [nil_append] at hmem
  rcases mem_append.1 hmem with hc | hc
  · exact hnew f hf hc
  · have hrange := mem_gfns.1 hf
    have hout := (mem_filter.1 hc).2
    simp only [hrange.1, hrange.2, decide_true, Bool.and_self, Bool.not_true] at hout
    cases hout

theorem growStep_hides {page k : Nat} (hk : k = 9 ∨ k = 0) (h : Hides env s [])
    (fresh : o.AllocFresh env s) (ha : o.alloc s.pod.count k = some page) :
    Hides env ((s.allocate page k).cacheAdd page k) [] ∧
    o.AllocFresh env ((s.allocate page k).cacheAdd page k) := by
  have hout := h.allocated (fresh.valid _ k page ha) (fresh.unmapped _ k page ha)
    (fresh.uncached _ k page le_rfl ha)
  obtain ⟨hperm, hcount, -⟩ := cacheAdd_frames hk (s.allocate page k) page
  have hgrown : s.pod.count < ((s.allocate page k).cacheAdd page k).pod.count := by
    have := Nat.two_pow_pos k
    rw [hcount]
    show s.pod.count < s.pod.count + _
    omega
  have htable : ((s.allocate page k).cacheAdd page k).table = s.table :=
    (cacheAdd_cacheOnly (s.allocate page k) page k).table
  refine ⟨hout.cacheAdd hk,
    ⟨fresh.valid, ?_, fun c k' page' hc ha' f hf hmem => ?_, fresh.disjoint⟩⟩
  · exact fresh.unmapped
  · rcases mem_append.1 (hperm.mem_iff.1 hmem) with hnew | hold
    · exact fresh.disjoint _ c k k' page page' (hgrown.trans_le hc) ha ha' f hnew hf
    · exact fresh.uncached c k' page' (hgrown.le.trans hc) ha' f hf hold

theorem growCache_hides (target : Nat) (preemptible : Bool) (fuel : Nat) (h : Hides env s [])
    (fresh : o.AllocFresh env s) : Hides env (growCache o target preemptible fuel s).2 [] := by
  have hgrow : Hides env (growCache o target preemptible fuel s).2 [] ∧
      o.AllocFresh env (growCache o target preemptible fuel s).2 :=
    growCache_invariant (fun s => Hides env s [] ∧ o.AllocFresh env s)
      (fun s _ _ hk ha hs => growStep_hides hk hs.1 hs.2 ha) ⟨h, fresh⟩
  exact hgrow.1

theorem setCacheTarget_hides {r : Int × State}
    (hs : Hides env s []) (hfresh : s.pod.count < target → o.AllocFresh env s)
    (h : setCacheTarget o s target preemptible = .ok r) : Hides env r.2 [] := by
  have hgrow : Hides env
      (growCache o target preemptible (target - s.pod.count).toNat s).2 [] := by
    by_cases hlt : s.pod.count < target
    · exact growCache_hides _ _ _ hs (hfresh hlt)
    · rw [Int.toNat_of_nonpos (by omega)]
      exact hs
  unfold setCacheTarget at h
  simp only at h
  split at h
  · cases h
    exact hgrow
  · exact shrinkCache_hides hgrow h

theorem trimCache_hides {ret : Int} {r : Int × State} (hs : Hides env s [])
    (h : trimCache o ret s = .ok r) : Hides env r.2 [] := by
  rcases trimCache_cases h with hr | ⟨hlt, r', hset, hr⟩
  · rw [hr]
    exact hs
  · -- the cache does not grow
    have hc := hs.count
    rw [hr]
    exact setCacheTarget_hides hs (fun hgrow => by omega) hset

end Cache

/-! ## The operations -/

section Ops

variable {env : Env} {o : PodOutcomes} {s : State} {gfn order : Nat} {r : Int × State}

variable {dying allocate : Bool}

theorem setMemTarget_hides {totPages target : Nat} (hs : Hides env s [])
    (fresh : o.AllocFresh env s) (h : setMemTarget o s dying totPages target = .ok r) :
    Hides env r.2 [] := by
  rcases setMemTarget_cases h with hr | ⟨target, hset⟩
  · rw [hr]
    exact hs
  · exact setCacheTarget_hides hs (fun _ => fresh) hset

theorem markPopulateOnDemand_hides (hs : Hides env s [])
    (h : markPopulateOnDemand env o s gfn order = .ok r) : Hides env r.2 [] := by
  have hset : Hides env (s.setRange env o.markRc (podMapping env gfn) order).2 [] :=
    hs.setRange_cleared _ _ (podMapping_frameless env gfn) (.inl rfl)
  unfold markPopulateOnDemand at h
  split at h
  · cases h
    exact hs
  simp only at h
  split at h
  · split at h
    · cases h
    · cases h
      exact hset.frame rfl rfl rfl rfl
  · cases h
    exact hset

theorem populate_hides (ho : ∀ x, o.superRc x = 0) {page : Nat}
    (hs : Hides env s (gfns page order ++ []))
      (h : populate env o s gfn order page allocate = .ok r) :
    Hides env r.2 [] := by
  unfold populate at h
  simp only [setM2p_eq] at h
  split at h
  · cases h
  have hset : Hides env (s.setRange env o.populateRc
      ⟨gfn / 2 ^ order * 2 ^ order, page, .ramRw, env.defaultAccess⟩ order).2 [] :=
    hs.setRange_mapped _ _ rfl
  split at h
  · cases h
  split at h
  · cases h
    refine checkLastSuper_hides ho ?_ _
    exact hset.frame rfl rfl rfl rfl
  · cases h
    exact hset.frame rfl rfl rfl rfl

theorem remapSingles_hides (hs : Hides env s []) : Hides env (remapSingles env o s gfn order) [] :=
  foldl_invariant (fun s => Hides env s [])
    (fun _ _ _ h => h.setRange_cleared _ _ (podMapping_frameless env _) (.inl rfl)) hs

theorem demandPopulate_hides (hsuper : ∀ x, o.superRc x = 0) (hmark : ∀ x, o.markRc x = 0)
    (hs : Hides env s []) (h : demandPopulate env o s dying gfn order allocate = .ok r) :
      Hides env r.2 [] := by
  unfold demandPopulate at h
  simp only at h
  split at h
  · cases h
    exact hs
  split at h
  · cases h
    exact hs.setRange_cleared _ _ (podMapping_frameless env _) (.inl rfl)
  have hsweep : Hides env (if s.pod.count = 0 then emergencySweep env o s else s) [] := by
    split
    · exact emergencySweep_hides hmark hs
    · exact hs
  generalize (if s.pod.count = 0 then emergencySweep env o s else s) = s₁ at h hsweep
  split at h
  · cases h
    exact hsweep
  have hmax : Hides env
      { s₁ with pod := { s₁.pod with maxGuest := max s₁.pod.maxGuest gfn } } [] :=
    hsweep.frame rfl rfl rfl rfl
  split at h
  · cases h
  · rename_i page s₂ hg
    exact populate_hides hsuper (hmax.cacheGet hg) h
  rename_i s₂ hg
  obtain rfl := cacheGet_none hg
  split at h
  · cases h
  · cases h
    exact remapSingles_hides hmax

theorem decreaseRule_hides (hsuper : ∀ x, o.superRc x = 0) (hsteal : ∀ x, o.stealRc x = 0) :
    DecreaseRule env o fun s => Hides env s [] where
  drop s gfn order _ hs :=
    have hset : Hides env (s.setRange env o.dropRc (noMapping env gfn) order).2 [] :=
      hs.setRange_cleared _ _ (noMapping_frameless env gfn) (.inr (.inl rfl))
    hset.frame rfl rfl rfl rfl
  super s gfn hs := zeroCheckSuperpage_hides hsuper hs gfn
  clear s x _ hs :=
    have hset : Hides env (s.setRange env o.clearRc (noMapping env x) 0).2 [] :=
      hs.setRange_cleared _ _ (noMapping_frameless env x) (.inr (.inl rfl))
    hset.frame rfl rfl rfl rfl
  steal s x hram hs := by
    have htaken : Hides env (s.setRange env o.stealRc (noMapping env x) 0).2
        (gfns (s.table x).mfn 0 ++ []) :=
      hs.setRange_taken (noMapping env x) ⟨rfl, rfl⟩ (hsteal x) hram
    have hm2p : Hides env ((s.setRange env o.stealRc (noMapping env x) 0).2.setGpfnFromMfn
        (s.table x).mfn .invalid) (gfns (s.table x).mfn 0 ++ []) :=
      htaken.frame rfl rfl rfl rfl
    exact hm2p.cacheAdd (.inr rfl)
  trim s ret r h hs := trimCache_hides hs h

end Ops

/-! ## Runs -/

/-- The updates that take RAM out of the p2m succeed, and the allocator gives out pages that are not
in use. -/
def PodOp.TakesOut (env : Env) (s : State) : PodOp → Prop
  | .mark _ _ _ => True
  | .demandPopulate o _ _ _ _ => (∀ x, o.superRc x = 0) ∧ ∀ x, o.markRc x = 0
  | .decreaseReservation os _ _ _ => ∀ o ∈ os, (∀ x, o.superRc x = 0) ∧ ∀ x, o.stealRc x = 0
  | .zeroCheckSuperpage o _ => ∀ x, o.superRc x = 0
  | .zeroCheck o gfns => (∀ x, o.markRc x = 0) ∧ gfns.Nodup
  | .emergencySweep o => ∀ x, o.markRc x = 0
  | .setMemTarget o _ _ _ => o.AllocFresh env s
  | .addEntry _ _ _ _ _ | .removePage _ _ _ _ => False

section Runs

variable {env : Env} {s : State}

theorem podStep_hides {op : PodOp} {s' : State} (hop : op.TakesOut env s) (hs : Hides env s [])
    (h : podStep env s op = .ok s') : Hides env s' [] := by
  cases op with
  | mark o gfn order =>
    obtain ⟨r, hr, rfl⟩ := exists_ok_of_except_map h
    exact markPopulateOnDemand_hides hs hr
  | demandPopulate o dying gfn order allocate =>
    obtain ⟨r, hr, rfl⟩ := exists_ok_of_except_map h
    exact demandPopulate_hides hop.1 hop.2 hs hr
  | decreaseReservation os dying gpfn order =>
    obtain ⟨r, hr, rfl⟩ := exists_ok_of_except_map h
    exact decreaseReservation_invariant (fun o ho => decreaseRule_hides (hop o ho).1 (hop o ho).2)
      hs hr
  | zeroCheckSuperpage o gfn =>
    cases h
    exact zeroCheckSuperpage_hides hop hs gfn
  | zeroCheck o gfns =>
    cases h
    exact zeroCheck_hides hop.1 hs hop.2
  | emergencySweep o =>
    cases h
    exact emergencySweep_hides hop hs
  | setMemTarget o dying totPages target =>
    obtain ⟨r, hr, rfl⟩ := exists_ok_of_except_map h
    exact setMemTarget_hides hs hop hr
  | addEntry | removePage => exact hop.elim

/-- **Cached pages are out of reach** along every run in which RAM that is to be cached leaves the
p2m. -/
theorem cached_pages_hidden {s₀ : State} (h₀ : Hides env s₀ [])
    (run : Reaches (podStep env) (fun s op => op.TakesOut env s) s₀ s) :
    ∀ f ∈ s.held, ∀ x, (s.table x).mfn ≠ f := by
  have inv : Hides env s [] :=
    run.invariant (P := fun s => Hides env s []) (fun _ _ _ hg hs h => podStep_hides hg h hs) h₀
  exact inv.hidden

def onePageOwed : State :=
  { noMemory with
    table := update (update (fun _ => .none) 3 ⟨2, .ramRw, .rwx⟩) 4 .pod
    pod := { noMemory.pod with entryCount := 1 } }

theorem onePageOwed_frameless {x : Nat} (hx : x ≠ 3) : Frameless (onePageOwed.table x) := by
  show Frameless (update (update (fun _ => Translation.none) 3 ⟨2, .ramRw, .rwx⟩) 4
    Translation.pod x)
  by_cases hx4 : x = 4
  · rw [hx4]
    exact ⟨rfl, rfl⟩
  · rw [update_of_ne hx4, update_of_ne hx]
    exact ⟨rfl, rfl⟩

theorem onePageOwed_ram {x : Nat} (h : (onePageOwed.table x).t.isRam = true) : x = 3 := by
  by_contra hx
  rw [(onePageOwed_frameless hx).ram] at h
  cases h

theorem onePageOwed_hides : Hides smallMachine onePageOwed [] where
  count := rfl
  valid f hf := absurd hf not_mem_nil
  nodup := nodup_nil
  hidden f hf := absurd hf not_mem_nil
  backed x hr := by
    rw [onePageOwed_ram hr]
    rfl
  unaliased x y hr hy := by
    obtain rfl := onePageOwed_ram hr
    by_contra hne
    rw [(onePageOwed_frameless hne).mfn] at hy
    exact absurd hy (by decide)

theorem cached_pages_hidden_stolen :
    ∃ s, podStep smallMachine onePageOwed (.decreaseReservation [podGood] false 3 0) = .ok s ∧
      s.held = [2] ∧ ∀ f ∈ s.held, ∀ x, (s.table x).mfn ≠ f := by
  obtain ⟨s, hs, hheld⟩ : ∃ s, podStep smallMachine onePageOwed
      (.decreaseReservation [podGood] false 3 0) = .ok s ∧ s.held = [2] := by decide
  have hop : PodOp.TakesOut smallMachine onePageOwed
      (.decreaseReservation [podGood] false 3 0) := by
    intro o ho
    rw [mem_singleton.1 ho]
    exact ⟨fun _ => rfl, fun _ => rfl⟩
  exact ⟨s, hs, hheld, cached_pages_hidden onePageOwed_hides (.single ⟨_, hop, hs⟩)⟩

/-- There is no memory for the p2m when the frame of gfn 3 is cached, and the guest still has it. -/
theorem stolen_page_stays_mapped :
    Hides smallMachine onePageOwed [] ∧
    ∃ s, podStep smallMachine onePageOwed
        (.decreaseReservation [{ podGood with stealRc := fun _ => -ENOMEM }] false 3 0) = .ok s ∧
      2 ∈ s.held ∧ (s.table 3).mfn = 2 :=
  ⟨onePageOwed_hides, by decide⟩

end Runs

end XenVmi.P2m
