import XenVmi.Ept.Leaves

/-!
# Well-formed tables

`TableWf caps level t`: a leaf maps an aligned run of frames below `2 ^ 40`, with permission bits
that go with its type and access; an entry that points at a page is present and neither a superpage
nor misconfigured. `ept_set_entry` keeps this of a table it alone has written.
-/

namespace XenVmi.Ept

open XenVmi.Lib

section Flags

variable {caps : EptCaps} {e e' : EptEntry} {t : P2mType} {a : P2mAccess}

def EptEntry.permissions (e : EptEntry) : Bool × Bool × Bool := (e.r, e.w, e.x)

theorem isPresent_congr (h : e'.permissions = e.permissions) : e'.isPresent = e.isPresent :=
  congrArg (fun p : Bool × Bool × Bool => p.1 || p.2.1 || p.2.2) h

theorem permissions_flags (hs : e'.sp = e.sp) (hm : e'.mfn = e.mfn) :
    (eptP2mTypeToFlags caps e' t a).permissions = (eptP2mTypeToFlags caps e t a).permissions := by
  unfold eptP2mTypeToFlags
  cases t <;> cases a <;>
    simp only [typeToFlags, accessToFlags, EptEntry.permissions, EptEntry.isSuperpage, hs, hm]

theorem isPresent_flags_of_ne (ht : t ≠ .mmioDirect) (hs : e'.sp = e.sp) :
    (eptP2mTypeToFlags caps e' t a).isPresent = (eptP2mTypeToFlags caps e t a).isPresent := by
  unfold eptP2mTypeToFlags
  cases t <;> first
    | exact absurd rfl ht
    | (cases a <;> simp only [typeToFlags, accessToFlags, EptEntry.isPresent,
        EptEntry.isSuperpage, hs])

/-- The type and access rights leave a superpage from frame `mfn` on a permission bit. -/
def LeavesPermission (caps : EptCaps) (mfn : Nat) (t : P2mType) : P2mAccess → Prop
  | .n | .n2rwx => False
  | .r | .rw | .rx | .rx2rw | .rwx => t ∈ [.ramRw, .ramLogdirty, .ramRo, .ramShared, .mmioDirect,
      .grantMapRw, .mapForeign, .grantMapRo, .mmioWriteDm]
  | .wx => t ∈ [.ramRw, .ramLogdirty, .ramRo, .ramShared, .mmioDirect, .grantMapRw, .mapForeign]
  | .x => t ∈ [.ramRw, .ramLogdirty, .ramRo, .ramShared, .mmioDirect]
  | .w => t ∈ [.ramRw, .grantMapRw, .mapForeign] ∨ t = .mmioDirect ∧ caps.mmioRo mfn = false

theorem isPresent_flags_iff (hs : e.sp = true) :
    (eptP2mTypeToFlags caps e t a).isPresent = true ↔ LeavesPermission caps e.mfn t a := by
  unfold eptP2mTypeToFlags LeavesPermission
  cases a <;> cases t <;>
    simp [typeToFlags, accessToFlags, EptEntry.isPresent, EptEntry.isSuperpage, hs]

theorem flags_ne_zero (ht : e.saP2mt = t) (ha : e.access = a) :
    { eptP2mTypeToFlags caps e t a with suppressVe := false } ≠ EptEntry.zero := by
  have hm := sameMapping_flags caps e t a
  intro h
  have h₁ : (eptP2mTypeToFlags caps e t a).saP2mt = .ramRw := congrArg EptEntry.saP2mt h
  have h₂ : (eptP2mTypeToFlags caps e t a).access = .rwx := congrArg EptEntry.access h
  have h₃ : (eptP2mTypeToFlags caps e t a).r = false := congrArg EptEntry.r h
  rw [hm.saP2mt, ht] at h₁
  rw [hm.access, ha] at h₂
  subst h₁ h₂
  exact absurd h₃ (by simp [eptP2mTypeToFlags, typeToFlags, accessToFlags])

end Flags

/-! ## Well-formed entries -/

/-- A leaf maps an aligned run of frames; one with a permission bit has those of its type and
access. -/
structure LeafWf (caps : EptCaps) (level : Nat) (e : EptEntry) : Prop where
  lt : e.mfn < 2 ^ 40
  aligned : 512 ^ level ∣ e.mfn
  recalc : e.recalc = false
  permissions : e.isPresent = true →
    e.permissions = (eptP2mTypeToFlags caps e e.saP2mt e.access).permissions

def EptEntry.Walked (e : EptEntry) : Prop := e.isPresent = true ∧ e.isSuperpage = false ∧ e.emt = 0

abbrev TableWf (caps : EptCaps) (level : Nat) (t : EptTable) : Prop :=
  TableAll EptEntry.Walked (LeafWf caps) level t

section Wf

variable {caps : EptCaps} {env : EptEnv} {level l : Nat} {e : EptEntry} {t : EptTable}
  {q : SetArgs} {st : PtPool}

theorem leafWf_empty (sve : Bool) : LeafWf caps level { EptEntry.zero with suppressVe := sve } :=
  ⟨Nat.two_pow_pos 40, dvd_zero _, rfl, fun h => Bool.noConfusion h⟩

theorem LeafWf.setEmt (h : LeafWf caps level e) (emt : Nat) (ipat : Bool) :
    LeafWf caps level { e with emt := emt, ipat := ipat, recalc := false } where
  lt := h.lt
  aligned := h.aligned
  recalc := rfl
  permissions hp := (h.permissions hp).trans (permissions_flags (by rfl) (by rfl))

theorem LeafWf.flags (h : LeafWf caps level e) (hp : e.isPresent = true) :
    (eptP2mTypeToFlags caps e e.saP2mt e.access).isPresent = true := by
  rw [← isPresent_congr (h.permissions hp)]
  exact hp

theorem dvd_mod_frames {n : Nat} (hl : level ≤ 4) (h : 512 ^ level ∣ n) :
    512 ^ level ∣ n % 2 ^ 40 := by
  have h40 : 512 ^ level ∣ 2 ^ 40 := by
    rw [show 512 = 2 ^ 9 from rfl, ← pow_mul]
    exact pow_dvd_pow 2 (by omega)
  exact (Nat.dvd_mod_iff h40).2 h

/-- `ept_set_entry` fills in the new entry, or leaves it empty. -/
def SetArgs.fills (env : EptEnv) (q : SetArgs) : Bool :=
  env.mfnValid q.mfn || decide (q.t = .mmioDirect) || q.t.isPaged || decide (q.t = .ramPagingIn)

/-- `e` maps the frames from `n` on, with the permission bits of `t` and `a`. -/
structure BuiltFor (caps : EptCaps) (level n : Nat) (t : P2mType) (a : P2mAccess) (recalc : Bool)
    (e : EptEntry) : Prop where
  mfn : e.mfn = n % 2 ^ 40
  sp : e.sp = decide (0 < level)
  recalc : e.recalc = recalc
  saP2mt : e.saP2mt = t
  access : e.access = a
  nonzero : { e with suppressVe := false } ≠ EptEntry.zero
  permissions : ∀ b : EptEntry, b.sp = decide (0 < level) → b.mfn = n % 2 ^ 40 →
    e.permissions = (eptP2mTypeToFlags caps b t a).permissions

theorem BuiltFor.wf {mfn : Nat} {t : P2mType} {a : P2mAccess}
    (h : BuiltFor caps level mfn t a false e)
    (hl : level ≤ 4) (hm : 512 ^ level ∣ mfn) : LeafWf caps level e := by
  refine ⟨?_, ?_, h.recalc, fun _ => ?_⟩
  · rw [h.mfn]
    exact Nat.mod_lt _ (by decide)
  · rw [h.mfn]
    exact dvd_mod_frames hl hm
  · rw [h.saP2mt, h.access]
    exact h.permissions e h.sp h.mfn

theorem newEntry_filled (h : q.fills env = true) (level : Nat) (old : EptEntry) :
    BuiltFor env.caps level q.mfn q.t q.a false (newEntry env q level old) := by
  have hm := fun b => sameMapping_flags env.caps b q.t q.a
  unfold SetArgs.fills at h
  unfold newEntry
  simp only [h, if_true]
  exact ⟨(hm _).mfn, (hm _).sp, (hm _).recalc, (hm _).saP2mt, (hm _).access, flags_ne_zero rfl rfl,
    fun b hs hmfn => permissions_flags hs.symm hmfn.symm⟩

theorem newEntry_empty (h : q.fills env = false) (level : Nat) (old : EptEntry) :
    ∃ sve, newEntry env q level old = { EptEntry.zero with suppressVe := sve } := by
  unfold SetArgs.fills at h
  unfold newEntry
  simp only [h, Bool.false_eq_true, if_false]
  exact ⟨_, rfl⟩

theorem newEntry_wf (hl : level ≤ 4) (h : 512 ^ level ∣ q.mfn) (old : EptEntry) :
    LeafWf env.caps level (newEntry env q level old) := by
  cases hf : q.fills env with
  | true => exact (newEntry_filled hf level old).wf hl h
  | false =>
    obtain ⟨sve, hz⟩ := newEntry_empty hf level old
    rw [hz]
    exact leafWf_empty sve

theorem splitEntry_splitOf (env : EptEnv) (l : Nat) (e : EptEntry) (i : Fin 512) :
    BuiltFor env.caps l (e.mfn + i * 512 ^ l) e.saP2mt e.access e.recalc
      (splitEntry env l e i) := by
  have hm := fun b => sameMapping_flags env.caps b e.saP2mt e.access
  exact ⟨(hm _).mfn, (hm _).sp, (hm _).recalc, (hm _).saP2mt, (hm _).access, flags_ne_zero rfl rfl,
    fun b hs hmfn => permissions_flags hs.symm hmfn.symm⟩

theorem splitEntry_wf (hl : l ≤ 3) (h : LeafWf env.caps (l + 1) e) (i : Fin 512) :
    LeafWf env.caps l (splitEntry env l e i) := by
  have hs := splitEntry_splitOf env l e i
  rw [h.recalc] at hs
  refine hs.wf (by omega) (Nat.dvd_add ?_ (dvd_mul_left _ _))
  exact (pow_dvd_pow 512 (Nat.le_succ l)).trans h.aligned

/-! ## Well-formed tables -/

theorem leafWf_rule (env : EptEnv) : LeafRule env EptEntry.Walked (LeafWf env.caps) where
  middle _ := ⟨rfl, rfl, rfl⟩
  walked h := h
  fresh _ := leafWf_empty true
  recalc w := w.recalc
  setEmt w _ := w.setEmt
  split hl w _ i := splitEntry_wf (by omega) w i

theorem eptSetEntry_wf {s : EptState} (asr : Nat) (w : TableWf env.caps 3 s.root) :
    TableWf env.caps 3 (eptSetEntry env asr s q).2.root :=
  (leafWf_rule env).eptSetEntry_all asr (fun _ _ hk h old => newEntry_wf (by omega) h old) w

theorem eptSetEntry_maxMappedPfn {s : EptState} (asr : Nat) (ho : q.order ≤ 36)
    (h : s.maxMappedPfn < 2 ^ 36) : (eptSetEntry env asr s q).2.maxMappedPfn < 2 ^ 36 := by
  unfold eptSetEntry
  split
  · exact h
  rename_i hq
  rw [not_or, not_or, not_le] at hq
  -- both ends of the range are multiples of its length
  have htop : q.gfn + 2 ^ q.order ≤ 2 ^ 36 := by
    have hdvd := (dvd_of_or_mod (not_not.1 hq.1)).1
    exact Nat.le_of_lt_add_of_dvd (Nat.add_lt_add_right hq.2.1 _) (Nat.dvd_add hdvd dvd_rfl)
      (pow_dvd_pow 2 ho)
  simp only
  generalize (if asr = 0 then _ else resolveMisconfig env q.gfn 3 s.root s.pool 0) = m
  split
  · exact h
  · show (if _ ∧ _ ∧ s.maxMappedPfn < q.gfn + 2 ^ q.order - 1 then q.gfn + 2 ^ q.order - 1
      else s.maxMappedPfn) < 2 ^ 36
    split
    · omega
    · exact h

end Wf

end XenVmi.Ept
