import XenVmi.P2m.Table

/-!
# The calls of `p2m_set_entry`

The loop of `p2m_set_entry` on `unsigned long`s, with the calls of `p2m->set_entry` it makes. They
tile the range, unless it goes beyond 64 bits: an mfn that reaches `INVALID_MFN` on its way stays
there.
-/

namespace XenVmi.P2m

open XenVmi.Ept List BitVec

structure Call where
  gfn : BitVec 64
  mfn : BitVec 64
  order : Nat
  deriving DecidableEq

def setEntryCalls (env : Env) : (fuel : Nat) → (gfn mfn todo : BitVec 64) → Option (List Call)
  | 0, _, _, _ => none
  | fuel + 1, gfn, mfn, todo =>
    if todo = 0 then some []
    else
      let order := chunkOrder env gfn.toNat mfn.toNat todo.toNat
      let n := 1#64 <<< order
      (setEntryCalls env fuel (gfn + n) (if mfn = -1 then mfn else mfn + n) (todo - n)).map
        (⟨gfn, mfn, order⟩ :: ·)

def Call.Aligned (c : Call) : Prop :=
  c.order ∈ [0, 9, 18] ∧ 2 ^ c.order ∣ c.gfn.toNat ∧ 2 ^ c.order ∣ c.mfn.toNat

/-- Each of the `n` gfns from `gfn` is in one of the calls, and they map them to the frames from
`mfn`. -/
structure Tiled (gfn mfn n : Nat) (calls : List Call) : Prop where
  aligned : ∀ c ∈ calls, c.Aligned
  once : ∀ x, calls.countP (fun c => c.gfn.toNat ≤ x ∧ x < c.gfn.toNat + 2 ^ c.order) =
    if gfn ≤ x ∧ x < gfn + n then 1 else 0
  frames : ∀ c ∈ calls, c.mfn.toNat = frameAt mfn (c.gfn.toNat - gfn)

variable {env : Env} {fuel gfn mfn todo n : Nat} {c : Call} {calls : List Call}

theorem Tiled.inside (h : Tiled gfn mfn n calls) (hc : c ∈ calls) :
    gfn ≤ c.gfn.toNat ∧ c.gfn.toNat < gfn + n := by
  have hself := h.once c.gfn.toNat
  split_ifs at hself with hin
  · exact hin
  · exact absurd hself (Nat.ne_of_gt (countP_pos_iff.2 ⟨c, hc, by simp⟩))

theorem Tiled.cons (h :
    Tiled (gfn + 2 ^ c.order) (frameAt mfn (2 ^ c.order)) (n - 2 ^ c.order) calls)
    (hgfn : c.gfn.toNat = gfn) (hmfn : c.mfn.toNat = mfn) (hle : 2 ^ c.order ≤ n)
    (hm : mfn = invalidMfn ∨ mfn + n ≤ 2 ^ 64) (hc : c.Aligned) : Tiled gfn mfn n (c :: calls) := by
  have hpos := Nat.two_pow_pos c.order
  refine ⟨forall_mem_cons.2 ⟨hc, h.aligned⟩, fun x => ?_, forall_mem_cons.2 ⟨?_, fun d hd => ?_⟩⟩
  · rw [countP_cons, h.once]
    simp only [decide_eq_true_eq]
    split_ifs <;> omega
  · rw [hgfn, hmfn, Nat.sub_self, frameAt]
    split <;> rfl
  · have hin := h.inside hd
    have hframe := h.frames d hd
    unfold frameAt at hframe ⊢
    unfold invalidMfn at hframe hm ⊢
    split_ifs at hframe ⊢ <;> omega

theorem chunkOrder_aligned {gfn mfn : BitVec 64} (h : chunkOrder env gfn.toNat mfn.toNat todo = n) :
    Call.Aligned ⟨gfn, mfn, n⟩ := by
  have hpage : ∀ {k b}, (pageAligned k gfn.toNat mfn.toNat todo && b) = true →
      2 ^ k ∣ gfn.toNat ∧ 2 ^ k ∣ mfn.toNat := by
    intro k b h
    simp only [pageAligned, Bool.and_eq_true, decide_eq_true_eq] at h
    exact ⟨Nat.dvd_of_mod_eq_zero h.1.1.1, Nat.dvd_of_mod_eq_zero h.1.1.2⟩
  unfold chunkOrder at h
  split_ifs at h with hhap h1gb h2mb <;> subst h
  · exact ⟨by simp, Nat.one_dvd _, Nat.one_dvd _⟩
  · exact ⟨by simp, hpage h1gb⟩
  · exact ⟨by simp, hpage h2mb⟩
  · exact ⟨by simp, Nat.one_dvd _, Nat.one_dvd _⟩

theorem setEntryCalls_tiled {t : BitVec 64} (hfuel : t.toNat < fuel) (hg : gfn + t.toNat ≤ 2 ^ 64)
    (hm : mfn = invalidMfn ∨ mfn + t.toNat ≤ 2 ^ 64) :
    ∃ calls, setEntryCalls env fuel (.ofNat 64 gfn) (.ofNat 64 mfn) t = some calls ∧
      Tiled gfn mfn t.toNat calls := by
  induction fuel generalizing gfn mfn t with
  | zero => exact absurd hfuel (Nat.not_lt_zero _)
  | succ fuel ih =>
    rw [setEntryCalls]
    by_cases ht : t = 0
    · subst ht
      refine ⟨[], rfl, nofun, fun x => ?_, nofun⟩
      exact (if_neg fun h => absurd (h.1.trans_lt h.2) (Nat.lt_irrefl gfn)).symm
    have hpos : 0 < t.toNat := Nat.pos_of_ne_zero fun h => ht (eq_of_toNat_eq h)
    have hgfn : (BitVec.ofNat 64 gfn).toNat = gfn := Nat.mod_eq_of_lt (by omega)
    have hmfn : (BitVec.ofNat 64 mfn).toNat = mfn :=
      Nat.mod_eq_of_lt (by unfold invalidMfn at hm; omega)
    rw [if_neg ht]
    have hle := chunk_le env gfn mfn hpos
    obtain ⟨k, hk⟩ : ∃ k, chunkOrder env gfn mfn t.toNat = k := ⟨_, rfl⟩
    have horder : chunkOrder env (BitVec.ofNat 64 gfn).toNat (BitVec.ofNat 64 mfn).toNat t.toNat =
        k := by
      rw [hgfn, hmfn, hk]
    rw [hk] at hle
    have hn : 1#64 <<< k = .ofNat 64 (2 ^ k) := eq_of_toNat_eq (by simp [Nat.shiftLeft_eq])
    have htodo : (t - .ofNat 64 (2 ^ k)).toNat = t.toNat - 2 ^ k := by
      rw [toNat_sub_of_le, toNat_ofNat, Nat.mod_eq_of_lt (hle.trans_lt t.isLt)]
      exact (Nat.mod_le _ _).trans hle
    have hinvalid : BitVec.ofNat 64 mfn = -1 ↔ mfn = invalidMfn := by
      rw [← toNat_inj, hmfn]
      rfl
    have hpow := Nat.two_pow_pos k
    obtain ⟨calls, hcalls, htiled⟩ :=
      @ih (gfn + 2 ^ k) (frameAt mfn (2 ^ k)) (t - .ofNat 64 (2 ^ k))
      (by omega) (by omega) (by unfold frameAt; split <;> omega)
    rw [htodo] at htiled
    refine ⟨_, ?_, htiled.cons hgfn hmfn hle hm (chunkOrder_aligned horder)⟩
    rw [frameAt, apply_ite (BitVec.ofNat 64), BitVec.ofNat_add, BitVec.ofNat_add] at hcalls
    simp only [horder, hn, hinvalid, hcalls, Option.map_some]

theorem end_le {b k : Nat} (hk : k ∈ [0, 9, 18]) (h : 2 ^ k ∣ b) (hb : b < 2 ^ 64) :
    b + 2 ^ k ≤ 2 ^ 64 := by
  simp only [mem_cons, not_mem_nil, or_false] at hk
  rcases hk with rfl | rfl | rfl <;> omega

/-- **`p2m_set_entry` tiles its range** exactly when that range is one of 64-bit numbers, and so are
the frames it is mapped to. -/
theorem setEntryCalls_tiled_iff (env : Env) (gfn mfn : BitVec 64) (pageOrder : Nat) :
    (∃ fuel calls, setEntryCalls env fuel gfn mfn (1#64 <<< pageOrder) = some calls ∧
        Tiled gfn.toNat mfn.toNat (2 ^ pageOrder) calls) ↔
      pageOrder < 64 ∧ gfn.toNat + 2 ^ pageOrder ≤ 2 ^ 64 ∧
        (mfn.toNat = invalidMfn ∨ mfn.toNat + 2 ^ pageOrder ≤ 2 ^ 64) := by
  have hpos := Nat.two_pow_pos pageOrder
  have htodo : (1#64 <<< pageOrder).toNat = 2 ^ pageOrder % 2 ^ 64 := by simp [Nat.shiftLeft_eq]
  constructor
  · rintro ⟨fuel, calls, hcalls, h⟩
    -- the call for the last gfn
    have hlast := h.once (gfn.toNat + (2 ^ pageOrder - 1))
    rw [if_pos (by omega)] at hlast
    obtain ⟨c, hc, hx⟩ := countP_pos_iff.1 (hlast ▸ Nat.one_pos)
    obtain ⟨horder, hgfn, hmfn⟩ := h.aligned c hc
    have hg := end_le horder hgfn c.gfn.isLt
    have hm := end_le horder hmfn c.mfn.isLt
    have hx := of_decide_eq_true hx
    refine ⟨Nat.lt_of_not_le fun hle => ?_, by omega, ?_⟩
    · have hzero : 1#64 <<< pageOrder = 0 :=
        eq_of_toNat_eq (htodo.trans (Nat.mod_eq_zero_of_dvd (Nat.pow_dvd_pow 2 hle)))
      cases fuel with
      | zero => cases hcalls
      | succ fuel =>
        rw [setEntryCalls, if_pos hzero] at hcalls
        cases hcalls
        cases hc
    · have hframe := h.frames c hc
      unfold frameAt at hframe
      split_ifs at hframe with hinvalid
      · exact .inl hinvalid
      · exact .inr (by omega)
  · rintro ⟨horder, hg, hm⟩
    rw [Nat.mod_eq_of_lt (Nat.pow_lt_pow_right Nat.one_lt_two horder)] at htodo
    obtain ⟨calls, hcalls, h⟩ := @setEntryCalls_tiled env _ gfn.toNat mfn.toNat (1#64 <<< pageOrder)
      (Nat.lt_succ_self _) (by rwa [htodo]) (by rwa [htodo])
    rw [htodo] at h
    rw [ofNat_toNat, ofNat_toNat] at hcalls
    exact ⟨_, calls, hcalls, h⟩

/-- Of four frames from `2 ^ 64 - 3` the last is not there; its gfn is mapped to `INVALID_MFN`
too. -/
theorem setEntryCalls_stuck :
    setEntryCalls smallMachine 5 8 (-3) (1#64 <<< 2) =
        some [⟨8, -3, 0⟩, ⟨9, -2, 0⟩, ⟨10, -1, 0⟩, ⟨11, -1, 0⟩] ∧
      ¬ Tiled 8 (2 ^ 64 - 3) 4 [⟨8, -3, 0⟩, ⟨9, -2, 0⟩, ⟨10, -1, 0⟩, ⟨11, -1, 0⟩] :=
  ⟨by decide, fun h => absurd (h.frames ⟨11, -1, 0⟩ (by simp)) (by decide)⟩

end XenVmi.P2m
