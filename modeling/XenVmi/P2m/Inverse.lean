import XenVmi.P2m.Physmap

/-!
# `guest_physmap_add_entry` and the M2P table

The tables are inverse when each frame of the domain with an M2P entry is mapped there and each
plain RAM gfn maps a frame whose M2P entry is that gfn. The passes of a call that fails are not
rolled back (`FailsClean`). A successful one does not look at the result of removing an alias, and
does not clear the M2P entry of a gfn that maps a frame of the domain by another type than RAM
(`SucceedsClean`).
-/

namespace XenVmi.P2m

open XenVmi.Ept

/-! ## Statement -/

/-- Read-write, log-dirty and read-only RAM: the types that stand for a frame and nothing else. -/
def plainRam : P2mType → Bool
  | .ramRw | .ramLogdirty | .ramRo => true
  | _ => false

def State.FramesMapped (s : State) : Prop :=
  ∀ f g, s.owner f = .self → s.m2p f = .gfn g → (s.table g).mfn = f

def State.RamPointsBack (s : State) : Prop :=
  ∀ x, plainRam (s.table x).t = true → s.m2p (s.table x).mfn = .gfn x

/-- The two tables are inverse after a call, and an error has changed no translation. -/
structure StaysInverse (s : State) (r : Int × State) : Prop where
  frames : r.2.FramesMapped
  ram : r.2.RamPointsBack
  unchanged : r.1 ≠ 0 → r.2.table = s.table

section Conditions

variable (env : Env) (o : Outcomes) (s : State) (gfn mfn pageOrder : Nat)

/-- One of the new frames is mapped at `x` so far, outside the range, and the second pass sees
it. -/
def IsAlias (x : Nat) : Prop :=
  x ∉ gfns gfn pageOrder ∧ ∃ i < 2 ^ pageOrder, s.aliasOf (gfn + i) (mfn + i) = some x ∧
    ¬ Clears o s (gfns gfn pageOrder) (mfn + i)

/-- Nothing stops the first pass, and every page of the range is written. -/
structure Writes : Prop where
  passes : ∀ x ∈ gfns gfn pageOrder, o.passes s x = true
  written : ∀ x ∈ gfns gfn pageOrder,
    (⟨gfn, mfn, .ramRw, env.defaultAccess⟩ : Mapping).rcAt env o.mapRc pageOrder x = 0

/-- Every alias is removed, the other plain RAM gfns point back, and every frame of the domain that
pointed into the range has lost its M2P entry. -/
structure SucceedsClean : Prop where
  ram : ∀ x, x ∉ gfns gfn pageOrder → plainRam (s.table x).t = true →
    (IsAlias o s gfn mfn pageOrder x ∧ o.removeRc x = 0) ∨
    (¬ (mfn ≤ (s.table x).mfn ∧ (s.table x).mfn < mfn + 2 ^ pageOrder) ∧
      s.m2p (s.table x).mfn = .gfn x ∧ ¬ Clears o s (gfns gfn pageOrder) (s.table x).mfn)
  frames : ∀ f g, ¬ (mfn ≤ f ∧ f < mfn + 2 ^ pageOrder) → s.owner f = .self → s.m2p f = .gfn g →
    g ∈ gfns gfn pageOrder → Clears o s (gfns gfn pageOrder) f

end Conditions

/-! ## The first two passes together -/

section Passes

variable {env : Env} {o : Outcomes} {s s₁ s₂ : State} {gfn mfn pageOrder x f g : Nat}
  {xs : List Nat}

theorem IsAlias.spec (h : IsAlias o s gfn mfn pageOrder x) :
    x ∉ gfns gfn pageOrder ∧ mapsRam (s.table x).t = true ∧ s.m2p (s.table x).mfn = .gfn x ∧
      ∃ i < 2 ^ pageOrder, (s.table x).mfn = mfn + i := by
  obtain ⟨hx, i, hi, ha, -⟩ := h
  obtain ⟨hm, -, hr, hf⟩ := aliasOf_eq_some.1 ha
  exact ⟨hx, hr, hf ▸ hm, i, hi, hf⟩

theorem Cleared.owner_of_gfn (hc : Cleared env o s xs s₁) (ho : s₁.owner f = .self)
    (h : s₁.m2p f = .gfn g) : s.owner f = .self := by
  rcases hc.owner f with h' | ⟨-, y, hy, -, hf⟩
  · exact h'.symm.trans ho
  · exact absurd ⟨y, hy, hf⟩ (hc.of_gfn h).1

theorem Unaliased.of_gfn {is : List Nat} (hu : Unaliased env o gfn mfn s is s₁)
    (h : s₁.m2p f = .gfn g) : s.m2p f = .gfn g := by
  by_cases hk : ∀ x, ∀ i ∈ is, f = mfn + i → s.ownerOf env f = .self →
      s.aliasOf (gfn + i) f = some x → (s.table x).t.isShared = true
  · exact (hu.m2p_kept f hk).symm.trans h
  · push Not at hk
    obtain ⟨x, i, hi, rfl, ho, ha, hs⟩ := hk
    rw [hu.m2p_cleared x i hi ho ha (Bool.eq_false_iff.2 hs)] at h
    cases h

/-- What the passes over `xs` leave when those in `A` are the aliases. -/
structure Passed (o : Outcomes) (s : State) (xs : List Nat) (A : Nat → Prop) (s' : State) :
    Prop where
  removed : ∀ x, A x → o.removeRc x = 0 → s'.table x = .none
  kept : ∀ x, (x ∈ xs → (s.table x).t.isShared = false) → (A x → o.removeRc x ≠ 0) →
    s'.table x = s.table x
  unshared : ∀ x ∈ xs, (s.table x).t.isShared = true → (s'.table x).t = .ramRw
  of_gfn : ∀ f g, s'.m2p f = .gfn g → s.m2p f = .gfn g ∧ ¬ Clears o s xs f
  m2p_alias : ∀ x, A x → (s.table x).t.isShared = false → s'.m2p (s.table x).mfn = .invalid
  m2p_kept : ∀ f, ¬ Clears o s xs f →
    (∀ x, A x → (s.table x).mfn = f → (s.table x).t.isShared = true) → s'.m2p f = s.m2p f
  owner_self : ∀ f, s.owner f = .self → s'.owner f = .self
  owner_of_gfn : ∀ f g, s'.owner f = .self → s'.m2p f = .gfn g → s.owner f = .self

end Passes

/-! ## When a call is harmless -/

section Harmless

variable {env : Env} {o : Outcomes} {s s₁ s₂ : State} {gfn mfn pageOrder : Nat} {rc : Int}

theorem mapped_iff {a : P2mAccess} (hs : s.FramesMapped)
    (hp : Passed o s (gfns gfn pageOrder) (IsAlias o s gfn mfn pageOrder) s₂)
    (hown : ∀ i < 2 ^ pageOrder, s.owner (mfn + i) = .self) {tab : Table}
    (hin : ∀ x ∈ gfns gfn pageOrder, tab x = ⟨mfn + (x - gfn), .ramRw, a⟩)
    (hout : ∀ x, x ∉ gfns gfn pageOrder → tab x = s₂.table x) :
    StaysInverse s
        (0, { s₂ with table := tab, m2p := s₂.m2pAfter gfn mfn (2 ^ pageOrder) }) ↔
      SucceedsClean o s gfn mfn pageOrder := by
  have hnew : ∀ f, mfn ≤ f ∧ f < mfn + 2 ^ pageOrder →
      s₂.m2pAfter gfn mfn (2 ^ pageOrder) f = .gfn (gfn + (f - mfn)) := by
    intro f hf
    have hself : s₂.owner f = .self := hp.owner_self f <| by
      have h := hown (f - mfn) (by omega)
      rwa [Nat.add_sub_cancel' hf.1] at h
    rw [State.m2pAfter, if_pos hf, hself]
    rfl
  have hold : ∀ f, ¬ (mfn ≤ f ∧ f < mfn + 2 ^ pageOrder) →
      s₂.m2pAfter gfn mfn (2 ^ pageOrder) f = s₂.m2p f := fun f hf => if_neg hf
  constructor
  · intro h
    refine ⟨fun x hx hpl => ?_, fun f g hf hself hm hg => ?_⟩
    · by_cases hal : IsAlias o s gfn mfn pageOrder x ∧ o.removeRc x = 0
      · exact .inl hal
      · have hsame : tab x = s.table x :=
          (hout x hx).trans (hp.kept x (fun h => absurd h hx) fun ha h0 => hal ⟨ha, h0⟩)
        have hback : s₂.m2pAfter gfn mfn (2 ^ pageOrder) (tab x).mfn = .gfn x :=
          h.ram x (show plainRam (tab x).t = true by rw [hsame]; exact hpl)
        rw [hsame] at hback
        refine .inr ?_
        by_cases hf : mfn ≤ (s.table x).mfn ∧ (s.table x).mfn < mfn + 2 ^ pageOrder
        · rw [hnew _ hf] at hback
          have hxe := M2p.gfn.inj hback
          exact absurd (mem_gfns.2 (by omega)) hx
        · rw [hold _ hf] at hback
          exact ⟨hf, hp.of_gfn _ _ hback⟩
    · by_contra hn
      have hkept : s₂.m2p f = s.m2p f := hp.m2p_kept f hn fun y hy hfy => by
        obtain ⟨i, hi, hmy⟩ := hy.spec.2.2.2
        exact absurd (by omega) hf
      have hmap : (tab g).mfn = f := h.frames f g (hp.owner_self f hself) <| by
        show s₂.m2pAfter gfn mfn (2 ^ pageOrder) f = _
        rw [hold f hf, hkept, hm]
      rw [hin g hg] at hmap
      have hgr := mem_gfns.1 hg
      exact hf (by have : mfn + (g - gfn) = f := hmap; omega)
  · rintro ⟨hram, hframes⟩
    refine ⟨fun f g hf hg => ?_, fun x hx => ?_, fun h => absurd rfl h⟩
    · have hg : s₂.m2pAfter gfn mfn (2 ^ pageOrder) f = .gfn g := hg
      show (tab g).mfn = f
      by_cases hfm : mfn ≤ f ∧ f < mfn + 2 ^ pageOrder
      · rw [hnew f hfm] at hg
        obtain rfl := M2p.gfn.inj hg
        rw [hin _ (mem_gfns.2 (by omega))]
        show mfn + (gfn + (f - mfn) - gfn) = f
        omega
      rw [hold f hfm] at hg
      obtain ⟨hm, hn⟩ := hp.of_gfn f g hg
      have hself := hp.owner_of_gfn f g hf hg
      have hgr : g ∉ gfns gfn pageOrder := fun hgr => hn (hframes f g hfm hself hm hgr)
      have hmap := hs f g hself hm
      rw [hout g hgr, hp.kept g (fun h => absurd h hgr), hmap]
      intro hal _
      obtain ⟨i, hi, hmi⟩ := hal.spec.2.2.2
      exact hfm (by omega)
    · have hx : plainRam (tab x).t = true := hx
      show s₂.m2pAfter gfn mfn (2 ^ pageOrder) (tab x).mfn = .gfn x
      by_cases hxr : x ∈ gfns gfn pageOrder
      · have hxr' := mem_gfns.1 hxr
        rw [hin x hxr, hnew]
        · show M2p.gfn (gfn + (mfn + (x - gfn) - mfn)) = .gfn x
          congr 1
          omega
        · show mfn ≤ mfn + (x - gfn) ∧ mfn + (x - gfn) < mfn + 2 ^ pageOrder
          omega
      rw [hout x hxr] at hx ⊢
      have hal : IsAlias o s gfn mfn pageOrder x → o.removeRc x ≠ 0 := by
        intro hal h0
        rw [hp.removed x hal h0] at hx
        cases hx
      have hsame := hp.kept x (fun h => absurd h hxr) hal
      rw [hsame] at hx ⊢
      rcases hram x hxr hx with ⟨ha, h0⟩ | ⟨hf, hm, hn⟩
      · exact absurd h0 (hal ha)
      · rw [hold _ hf, hp.m2p_kept _ hn, hm]
        intro y hy hfy
        obtain ⟨i, hi, hmy⟩ := hy.spec.2.2.2
        exact absurd (by omega) hf

end Harmless

end XenVmi.P2m
