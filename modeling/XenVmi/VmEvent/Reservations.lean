import XenVmi.Lib.Ring
import XenVmi.VmEvent.Blocked

/-!
# Reservations

The indices run freely through 32 bits, so the invariant speaks of the positions they stand for:
`rspCons ≤ rspProd ≤ rspPvt ≤ reqCons ≤ reqProd ≤ rspCons + nr_ents - claims`. A put moves `reqProd`
on and gives its claim back; in between, when `vm_event_release_slot` looks at the ring, the last is
exact.
-/

namespace XenVmi.VmEvent

open Lib List

variable {ρ : Type} {d : Domain} {slots : Slots ρ} {claims : List Caller} {c : Caller}
  {k C R : ℕ} {others : ℕ → ℤ} {s s' : System ρ}

/-! ## The front end's half -/

/-- The indices stand for the positions `C` and `R`, and all of it fits into a ring of `2 ^ k`
entries. -/
structure Slots.Fits (slots : Slots ρ) (claims : List Caller) (k C R : ℕ) : Prop where
  nrEnts : slots.front.nrEnts = BitVec.ofNat 32 (2 ^ k)
  small : k ≤ 7
  rspCons : slots.front.rspCons = BitVec.ofNat 32 C
  reqProdPvt : slots.front.reqProdPvt = BitVec.ofNat 32 R
  reqProd : slots.sring.reqProd = BitVec.ofNat 32 R
  le : C ≤ R
  room : R + claims.length ≤ C + 2 ^ k
  target : slots.targetProducers.toNat = claims.countP Caller.isTarget
  foreign : slots.foreignProducers.toNat = claims.countP fun c => !c.isTarget

theorem Slots.Fits.size_le (h : slots.Fits claims k C R) : 2 ^ k ≤ 128 :=
  Nat.pow_le_pow_right (n := 2) (by decide) h.small

theorem length_eq_target_add_foreign (claims : List Caller) :
    claims.length = claims.countP Caller.isTarget + claims.countP fun c => !c.isTarget := by
  rw [length_eq_countP_add_countP Caller.isTarget]
  simp

variable (h : slots.Fits claims k C R)

include h

theorem Slots.Fits.freeRequests : slots.front.freeRequests.toNat = 2 ^ k - (R - C) := by
  have hsize := h.size_le
  have hroom := h.room
  have hused : (slots.front.reqProdPvt - slots.front.rspCons).toNat = R - C := by
    rw [h.reqProdPvt, h.rspCons]
    exact counter_sub h.le (by omega)
  have hents : slots.front.nrEnts.toNat = 2 ^ k := by
    rw [h.nrEnts, BitVec.toNat_ofNat, Nat.mod_eq_of_lt (by omega)]
  rw [FrontRing.freeRequests, BitVec.toNat_sub_of_le (by rw [BitVec.le_def]; omega), hused, hents]

theorem Slots.Fits.ringAvailable : slots.ringAvailable = .ok (2 ^ k - (R - C) - claims.length) := by
  have hsize := h.size_le
  have hroom := h.room
  have hle := h.le
  have hlen := length_eq_target_add_foreign claims
  rw [Slots.ringAvailable, BitVec.toInt_eq_toNat_of_lt (by rw [h.freeRequests]; omega),
    h.freeRequests, h.target, h.foreign]
  rw [if_neg (by omega)]
  congr 1
  omega

theorem Slots.Fits.reserve (hroom : R + claims.length < C + 2 ^ k) :
    (slots.reserve c).Fits (c :: claims) k C R := by
  have hsize := h.size_le
  have hle := h.le
  have hlen := length_eq_target_add_foreign claims
  have ht := h.target
  have hf := h.foreign
  unfold Slots.reserve
  cases hc : c.isTarget with
  | true =>
    refine ⟨h.nrEnts, h.small, h.rspCons, h.reqProdPvt, h.reqProd, h.le, ?_, ?_, ?_⟩
    · rw [length_cons]
      omega
    · simp only [if_true, countP_cons, hc]
      rw [BitVec.toNat_add_of_lt (by simp; omega), ht]
      rfl
    · simp [hc, hf]
  | false =>
    refine ⟨h.nrEnts, h.small, h.rspCons, h.reqProdPvt, h.reqProd, h.le, ?_, ?_, ?_⟩
    · rw [length_cons]
      omega
    · simp [hc, ht]
    · simp only [Bool.false_eq_true, if_false, countP_cons, hc]
      rw [BitVec.toNat_add_of_lt (by simp; omega), hf]
      rfl

theorem Slots.Fits.release (hc : c ∈ claims) : (slots.release c).Fits (claims.erase c) k C R := by
  have hperm := perm_cons_erase hc
  have hroom := h.room
  have ht := h.target
  have hf := h.foreign
  rw [hperm.length_eq, length_cons] at hroom
  rw [hperm.countP_eq, countP_cons] at ht hf
  unfold Slots.release
  cases hc : c.isTarget with
  | true =>
    simp only [hc, if_true, Bool.not_true, Bool.false_eq_true, if_false] at ht hf
    refine ⟨h.nrEnts, h.small, h.rspCons, h.reqProdPvt, h.reqProd, h.le, by omega, ?_, hf⟩
    show (slots.targetProducers - 1).toNat = _
    rw [BitVec.toNat_sub_of_le (by rw [BitVec.le_def, ht]; simp), ht]
    rfl
  | false =>
    simp only [hc, if_true, Bool.not_false, Bool.false_eq_true, if_false] at ht hf
    refine ⟨h.nrEnts, h.small, h.rspCons, h.reqProdPvt, h.reqProd, h.le, by omega, ht, ?_⟩
    show (slots.foreignProducers - 1).toNat = _
    rw [BitVec.toNat_sub_of_le (by rw [BitVec.le_def, hf]; simp), hf]
    rfl

omit h

variable {e : Event ρ} {a : Action ρ} {p : Positions} (h : slots.Fits claims k C R)

include h

theorem Slots.Fits.push
    (hroom : R + claims.length < C + 2 ^ k) : (slots.push e).Fits claims k C (R + 1) where
  nrEnts := h.nrEnts
  small := h.small
  rspCons := h.rspCons
  reqProdPvt := by
    show slots.front.reqProdPvt + 1 = _
    rw [h.reqProdPvt, counter_succ]
  reqProd := by
    show slots.front.reqProdPvt + 1 = _
    rw [h.reqProdPvt, counter_succ]
  le := Nat.le_succ_of_le h.le
  room := by omega
  target := h.target
  foreign := h.foreign

theorem Slots.Fits.consume (hlt : C < R) : slots.consume.Fits claims k (C + 1) R where
  nrEnts := h.nrEnts
  small := h.small
  rspCons := by
    show slots.front.rspCons + 1 = _
    rw [h.rspCons, counter_succ]
  reqProdPvt := h.reqProdPvt
  reqProd := h.reqProd
  le := hlt
  room := by
    have := h.room
    omega
  target := h.target
  foreign := h.foreign

theorem Slots.Fits.pushRelease (hc : c ∈ claims) :
    ((slots.push e).release c).Fits (claims.erase c) k C (R + 1) := by
  have hroom := h.room
  rw [(perm_cons_erase hc).length_eq, length_cons] at hroom
  have hcomm : (slots.push e).release c = (slots.release c).push e := by
    unfold Slots.release
    split <;> rfl
  rw [hcomm]
  exact (h.release hc).push (by omega)

theorem Slots.Fits.push_frame {i : ℕ} (hroom : R < C + 2 ^ k) (hi : i < R - C) :
    (slots.push e).sring.ring (slots.front.cell (slots.front.rspCons + BitVec.ofNat 32 i)) =
      slots.sring.ring (slots.front.cell (slots.front.rspCons + BitVec.ofNat 32 i)) := by
  refine Function.update_of_ne ?_ _ _
  have hsmall := h.small
  rw [FrontRing.cell, FrontRing.cell, h.nrEnts, h.rspCons, h.reqProdPvt, ← BitVec.ofNat_add,
    counter_cell (by omega), counter_cell (by omega)]
  have hR : R = C + (R - C) := by omega
  rw [hR]
  exact mod_ne_of_lt hi (by omega)

omit h

theorem wake_ok {w : Waiters} {availReq : ℕ} (inv : w.Inv d others)
    (havail : slots.ringAvailable = .ok availReq) : ∃ w', wake d slots w = .ok w' := by
  unfold wake
  split
  · exact ⟨_, by rw [wakeQueued, havail]; rfl⟩
  · exact ⟨_, wakeBlocked_eq inv havail⟩

/-! ## The ring with its helper -/

structure Positions where
  rspCons : ℕ
  rspProd : ℕ
  rspPvt : ℕ
  reqCons : ℕ
  reqProd : ℕ

structure System.Ordered (s : System ρ) (k : ℕ) (p : Positions) : Prop where
  fits : s.state.slots.Fits s.claims k p.rspCons p.reqProd
  rspProd : s.state.slots.sring.rspProd = BitVec.ofNat 32 p.rspProd
  rspPvt : s.back.rspProdPvt = BitVec.ofNat 32 p.rspPvt
  reqCons : s.back.reqCons = BitVec.ofNat 32 p.reqCons
  rsp_le : p.rspCons ≤ p.rspProd ∧ p.rspProd ≤ p.rspPvt
  req_le : p.rspPvt ≤ p.reqCons ∧ p.reqCons ≤ p.reqProd

structure System.Inv (d : Domain) (s : System ρ) : Prop where
  waiters : s.state.waiters.Inv d s.others
  ordered : ∃ k p, s.Ordered k p

/-- Every put and every cancel is preceded by a claim of its own, and each request is answered at
most once. -/
def Claimed (d : Domain) (s : System ρ) : Action ρ → Prop
  | .claim c => c.Present d
  | .put c _ | .cancel c => c.Present d ∧ c ∈ s.claims
  | .take => s.back.unconsumedRequests s.state.slots.sring ≠ 0
  | .answer _ => s.back.rspProdPvt ≠ s.back.reqCons
  | _ => True

theorem Claimed.users (h : Claimed d s a) : Users d s a := by
  cases a with
  | claim c => exact h
  | put c req => exact h.1
  | cancel c => exact h.1
  | _ => trivial

theorem System.Ordered.withFits {C R : ℕ} (h : s.Ordered k p) (s' : System ρ)
    (fits : s'.state.slots.Fits s'.claims k C R) (hC : C ≤ p.rspProd) (hR : p.reqCons ≤ R)
    (hrsp : s'.state.slots.sring.rspProd = s.state.slots.sring.rspProd) (hback : s'.back = s.back) :
    s'.Ordered k { p with rspCons := C, reqProd := R } where
  fits := fits
  rspProd := by rw [hrsp, h.rspProd]
  rspPvt := by rw [hback, h.rspPvt]
  reqCons := by rw [hback, h.reqCons]
  rsp_le := ⟨hC, h.rsp_le.2⟩
  req_le := ⟨h.req_le.1, hR⟩

theorem System.Ordered.congr (h : s.Ordered k p) (hslots : s'.state.slots = s.state.slots)
    (hclaims : s'.claims = s.claims) (hback : s'.back = s.back) : s'.Ordered k p :=
  h.withFits s' (by rw [hslots, hclaims]; exact h.fits) h.rsp_le.1 h.req_le.2 (by rw [hslots]) hback

theorem claim_ok (inv : s.Inv d) (c : Caller) :
    ∃ s', s.claim c = .ok s' ∧ ∃ k p, s'.Ordered k p := by
  obtain ⟨k, p, hord⟩ := inv.ordered
  unfold System.claim State.grabSlot
  split
  · exact ⟨s, rfl, k, p, hord⟩
  rw [hord.fits.ringAvailable, ok_bind]
  split
  · exact ⟨s, rfl, k, p, hord⟩
  refine ⟨_, rfl, k, _, hord.withFits _ (hord.fits.reserve (by omega)) hord.rsp_le.1
    hord.req_le.2 ?_ rfl⟩
  show (s.state.slots.reserve c).sring.rspProd = _
  unfold Slots.reserve
  split <;> rfl

theorem release_rspProd (slots : Slots ρ) (c : Caller) :
    (slots.release c).sring.rspProd = slots.sring.rspProd := by
  unfold Slots.release
  split <;> rfl

theorem releaseSlot_ok (st : State ρ) (inv : st.waiters.Inv d others)
    (fits : (st.slots.release c).Fits claims k C R) :
    ∃ w', st.releaseSlot d c = .ok { st with slots := st.slots.release c, waiters := w' } := by
  obtain ⟨w', hw⟩ := wake_ok inv fits.ringAvailable
  exact ⟨w', by rw [State.releaseSlot, hw]; rfl⟩

theorem blackEye_slots (st : State ρ) (c : Caller) (availReq : ℕ) :
    (st.blackEye d c availReq).slots = st.slots := by
  unfold State.blackEye
  split
  · split <;> rfl
  · rfl

theorem putRequest_ok {st : State ρ} (req : Event ρ) (inv : st.waiters.Inv d others)
    (fits : st.slots.Fits claims k C R) (hc : c ∈ claims) :
    ∃ st', st.putRequest d c req = .ok st' ∧
      st'.slots = (st.slots.push (req.complete c)).release c := by
  have hroom := fits.room
  have hle := fits.le
  have hsize := fits.size_le
  have hpos : 0 < claims.length := length_pos_of_mem hc
  have hfits := fits.pushRelease (e := req.complete c) hc
  obtain ⟨w', hw⟩ := releaseSlot_ok { st with slots := st.slots.push (req.complete c) } inv hfits
  refine ⟨State.blackEye d ⟨st.ringPage, (st.slots.push (req.complete c)).release c, w'⟩ c
    (2 ^ k - (R + 1 - C) - (claims.erase c).length), ?_, blackEye_slots _ _ _⟩
  rw [State.putRequest, BitVec.toInt_eq_toNat_of_lt (by rw [fits.freeRequests]; omega),
    fits.freeRequests, if_neg (by omega), hw, ok_bind, hfits.ringAvailable]
  rfl

theorem put_ok (inv : s.Inv d) (hc : c ∈ s.claims) (req : Event ρ) :
    ∃ s', step d s (.put c req) = .ok s' ∧ ∃ k p, s'.Ordered k p := by
  obtain ⟨k, p, hord⟩ := inv.ordered
  obtain ⟨st', hst, hslots⟩ := putRequest_ok req inv.waiters hord.fits hc
  have hs : step d s (.put c req) =
      .ok { s with state := st', claims := s.claims.erase c } := by rw [step, hst]; rfl
  refine ⟨_, hs, k, _, hord.withFits _ ?_ hord.rsp_le.1 (Nat.le_succ_of_le hord.req_le.2) ?_ rfl⟩
  · show st'.slots.Fits (s.claims.erase c) k p.rspCons (p.reqProd + 1)
    rw [hslots]
    exact hord.fits.pushRelease hc
  · show st'.slots.sring.rspProd = _
    rw [hslots, release_rspProd]
    rfl

theorem cancel_ok (inv : s.Inv d) (hc : c ∈ s.claims) :
    ∃ s', step d s (.cancel c) = .ok s' ∧ ∃ k p, s'.Ordered k p := by
  obtain ⟨k, p, hord⟩ := inv.ordered
  have hfits := hord.fits.release hc
  obtain ⟨w', hw⟩ := releaseSlot_ok s.state inv.waiters hfits
  have hs : step d s (.cancel c) =
      .ok { s with
        state := { s.state with slots := s.state.slots.release c, waiters := w' }
        claims := s.claims.erase c } := by rw [step, State.cancelSlot, hw]; rfl
  exact ⟨_, hs, k, _, hord.withFits _ hfits hord.rsp_le.1 hord.req_le.2 (release_rspProd _ _) rfl⟩

theorem getResponse_ok (inv : s.Inv d) :
    ∃ s', step d s .getResponse = .ok s' ∧ ∃ k p, s'.Ordered k p := by
  obtain ⟨k, p, hord⟩ := inv.ordered
  by_cases hsome : s.state.slots.front.unconsumedResponses s.state.slots.sring = 0
  · have hs : step d s .getResponse = .ok s := by
      rw [step, State.getResponse, if_pos hsome]
      rfl
    exact ⟨s, hs, k, p, hord⟩
  -- an index that is not the consumer's is ahead of it
  have hne : p.rspProd ≠ p.rspCons := by
    intro heq
    rw [FrontRing.unconsumedResponses, hord.rspProd, hord.fits.rspCons, heq] at hsome
    exact hsome (BitVec.sub_self _)
  obtain ⟨hle, hpvt⟩ := hord.rsp_le
  obtain ⟨hcons, hreq⟩ := hord.req_le
  have hfits := hord.fits.consume (by omega)
  obtain ⟨w', hw⟩ := wake_ok inv.waiters hfits.ringAvailable
  have hs : step d s .getResponse =
      .ok { s with state := { s.state with slots := s.state.slots.consume, waiters := w' } } := by
    rw [step, State.getResponse, if_neg hsome]
    dsimp only
    rw [hw]
    rfl
  exact ⟨_, hs, k, _, hord.withFits _ hfits (by omega) hreq rfl rfl⟩

theorem take_ok (hord : s.Ordered k p) (hsome : s.back.unconsumedRequests s.state.slots.sring ≠ 0) :
    System.Ordered { s with back := { s.back with reqCons := s.back.reqCons + 1 } } k
      { p with reqCons := p.reqCons + 1 } := by
  have hne : p.reqCons ≠ p.reqProd := by
    intro heq
    have hzero : s.state.slots.sring.reqProd - s.back.reqCons = 0 := by
      rw [hord.fits.reqProd, hord.reqCons, heq]
      exact BitVec.sub_self _
    refine hsome ?_
    unfold BackRing.unconsumedRequests
    dsimp only
    rw [hzero]
    split
    · rfl
    · rename_i h
      exact BitVec.not_lt.1 h |> BitVec.le_zero_iff.1
  obtain ⟨hle, hreq⟩ := hord.req_le
  refine ⟨hord.fits, hord.rspProd, hord.rspPvt, ?_, hord.rsp_le, Nat.le_succ_of_le hle,
    Nat.lt_of_le_of_ne hreq hne⟩
  show s.back.reqCons + 1 = _
  rw [hord.reqCons, counter_succ]

theorem answer_ok (hord : s.Ordered k p) (hsome : s.back.rspProdPvt ≠ s.back.reqCons)
    (rsp : Event ρ) : (s.answer rsp).Ordered k { p with rspPvt := p.rspPvt + 1 } := by
  have hne : p.rspPvt ≠ p.reqCons := by
    intro heq
    rw [hord.rspPvt, hord.reqCons, heq] at hsome
    exact hsome rfl
  obtain ⟨hle, hpvt⟩ := hord.rsp_le
  obtain ⟨hcons, hreq⟩ := hord.req_le
  have hfits := hord.fits
  refine ⟨⟨hfits.nrEnts, hfits.small, hfits.rspCons, hfits.reqProdPvt, hfits.reqProd, hfits.le,
    hfits.room, hfits.target, hfits.foreign⟩, hord.rspProd, ?_, hord.reqCons,
    ⟨hle, Nat.le_succ_of_le hpvt⟩, Nat.lt_of_le_of_ne hcons hne, hreq⟩
  show s.back.rspProdPvt + 1 = _
  rw [hord.rspPvt, counter_succ]

theorem publish_ok (hord : s.Ordered k p) : s.publish.Ordered k { p with rspProd := p.rspPvt } := by
  obtain ⟨hle, hpvt⟩ := hord.rsp_le
  have hfits := hord.fits
  exact ⟨⟨hfits.nrEnts, hfits.small, hfits.rspCons, hfits.reqProdPvt, hfits.reqProd, hfits.le,
    hfits.room, hfits.target, hfits.foreign⟩, hord.rspPvt, hord.rspPvt, hord.reqCons,
    ⟨Nat.le_trans hle hpvt, Nat.le_refl _⟩, hord.req_le⟩

theorem disable_slots {st st' : State ρ} (h : st.disable d = .ok st') : st'.slots = st.slots := by
  unfold State.disable at h
  split at h
  · cases h
    rfl
  split at h <;> cases h
  rfl

theorem step_ok (ha : Claimed d s a) (inv : s.Inv d) :
    ∃ s', step d s a = .ok s' ∧ ∃ k p, s'.Ordered k p := by
  obtain ⟨k, p, hord⟩ := inv.ordered
  cases a with
  | claim c => exact claim_ok inv c
  | put c req => exact put_ok inv ha.2 req
  | cancel c => exact cancel_ok inv ha.2
  | getResponse => exact getResponse_ok inv
  | disable =>
    rw [step]
    split
    · rename_i st' h
      exact ⟨_, rfl, k, p, hord.congr (disable_slots h) rfl rfl⟩
    · exact ⟨s, rfl, k, p, hord⟩
  | prepareToWait | finishWait | pause | unpause => exact ⟨_, rfl, k, p, hord.congr rfl rfl rfl⟩
  | take => exact ⟨_, rfl, k, _, take_ok hord ha⟩
  | answer rsp => exact ⟨_, rfl, k, _, answer_ok hord ha rsp⟩
  | publish => exact ⟨_, rfl, k, _, publish_ok hord⟩

theorem step_inv (ha : Claimed d s a) (hs : step d s a = .ok s') (inv : s.Inv d) : s'.Inv d := by
  obtain ⟨t, ht, hord⟩ := step_ok ha inv
  rw [hs] at ht
  cases ht
  exact ⟨(step_ensures ha.users inv.waiters).of_ok hs, hord⟩

theorem enabled_ordered (entry : Entry ρ) (others : ℕ → ℤ) :
    (System.enabled entry others).Ordered 3 ⟨0, 0, 0, 0, 0⟩ where
  fits := by
    refine ⟨?_, by decide, rfl, rfl, rfl, le_refl _, Nat.zero_le _, rfl, rfl⟩
    show BitVec.ofNat 32 (ringSize 4096 eventSize) = BitVec.ofNat 32 (2 ^ 3)
    decide
  rspProd := rfl
  rspPvt := rfl
  reqCons := rfl
  rsp_le := ⟨le_refl _, le_refl _⟩
  req_le := ⟨le_refl _, le_refl _⟩

theorem claimed_run_inv {entry : Entry ρ}
    (run : Reaches (step d) (Claimed d) (.enabled entry others) s) : s.Inv d :=
  run.invariant (P := fun s => s.Inv d) (fun _ _ _ ha hs inv => step_inv ha hs inv)
    ⟨enabled_inv entry others, 3, _, enabled_ordered entry others⟩

/-- **Reservations never over-commit the ring**: there are at least as many free slots as claims, no
check fails, and a put leaves the slots alone whose responses have not been taken. -/
theorem reservations_never_overcommit {entry : Entry ρ}
    (run : Reaches (step d) (Claimed d) (.enabled entry others) s) :
    s.state.slots.targetProducers.toNat + s.state.slots.foreignProducers.toNat ≤
        s.state.slots.front.freeRequests.toNat ∧
      (∀ a, Claimed d s a → ∃ s', step d s a = .ok s') ∧
      ∀ c req s', Claimed d s (.put c req) → step d s (.put c req) = .ok s' →
        ∀ i < (s.state.slots.front.reqProdPvt - s.state.slots.front.rspCons).toNat,
          let slot := s.state.slots.front.cell (s.state.slots.front.rspCons + BitVec.ofNat 32 i)
          s'.state.slots.sring.ring slot = s.state.slots.sring.ring slot := by
  have inv := claimed_run_inv run
  obtain ⟨k, p, hord⟩ := inv.ordered
  have hfits := hord.fits
  have hroom := hfits.room
  have hle := hfits.le
  have hsize := hfits.size_le
  refine ⟨?_, fun a ha => ?_, fun c req s' ha hs i hi => ?_⟩
  · rw [hfits.freeRequests, hfits.target, hfits.foreign, ← length_eq_target_add_foreign]
    omega
  · obtain ⟨s', hs, -⟩ := step_ok ha inv
    exact ⟨s', hs⟩
  · obtain ⟨st', hst, hslots⟩ := putRequest_ok req inv.waiters hfits ha.2
    rw [step, hst] at hs
    cases hs
    rw [hfits.reqProdPvt, hfits.rspCons, counter_sub hle (by omega)] at hi
    have hpos : 0 < s.claims.length := length_pos_of_mem ha.2
    have hring : st'.slots.sring.ring = (s.state.slots.push (req.complete c)).sring.ring := by
      rw [hslots]
      unfold Slots.release
      split <;> rfl
    show st'.slots.sring.ring _ = _
    rw [hring]
    exact hfits.push_frame (by omega) hi

instance (c : Caller) : Decidable (c.Present d) :=
  match c with
  | .target v => inferInstanceAs (Decidable (v < d.maxVcpus ∧ d.vcpu v = true))
  | .foreign _ => instDecidableTrue

instance (s : System ρ) (a : Action ρ) : Decidable (Claimed d s a) :=
  match a with
  | .claim c => inferInstanceAs (Decidable (c.Present d))
  | .put c _ | .cancel c => inferInstanceAs (Decidable (c.Present d ∧ c ∈ s.claims))
  | .take => inferInstanceAs (Decidable (s.back.unconsumedRequests s.state.slots.sring ≠ 0))
  | .answer _ => inferInstanceAs (Decidable (s.back.rspProdPvt ≠ s.back.reqCons))
  | .getResponse | .disable | .prepareToWait _ | .finishWait _ | .publish | .pause _ | .unpause _ =>
    instDecidableTrue

/-- Two claims, of which one has been used. -/
theorem reservations_never_overcommit_two :
    ∃ s : System Unit, Reaches (step eightVcpus) (Claimed eightVcpus)
        (.enabled (.req emptyEvent) fun _ => 0) s ∧
      s.claims = [.foreign 0] ∧
      s.state.slots.targetProducers.toNat + s.state.slots.foreignProducers.toNat ≤
        s.state.slots.front.freeRequests.toNat := by
  obtain ⟨s, run, hclaims⟩ : ∃ s : System Unit, Reaches (step eightVcpus) (Claimed eightVcpus)
      (.enabled (.req emptyEvent) fun _ => 0) s ∧ s.claims = [.foreign 0] :=
    Reaches.exists_of_checked (e := .noFreeRequest)
      (l := [.claim (.target 0), .claim (.foreign 0), .put (.target 0) emptyEvent]) (by decide)
  exact ⟨s, run, hclaims, (reservations_never_overcommit run).1⟩

end XenVmi.VmEvent
