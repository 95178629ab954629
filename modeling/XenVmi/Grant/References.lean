import XenVmi.Grant.PageSteps

/-!
# References of mappings

`RefInv`: the references to a frame that the mappings stand for are held. Between the phases of a
batch, what the second phase is going to drop makes up the difference. `Careful` excludes: an unmap
operation that does not name a device mapping it finds, whose reference is dropped all the same; a
`get_page` for the second half of a mapping that fails; a writable device mapping alone of another
domain with external paging, whose type is not taken, but dropped.
-/

namespace XenVmi.Grant

open XenVmi.Lib

variable {c : Config} {env : PageEnv}

/-! ## What mappings stand for -/

def Typed (c : Config) (env : PageEnv) (rd : Nat) : Prop := c.domid = rd ∨ env.external rd = false

instance (rd : Nat) : Decidable (Typed c env rd) := inferInstanceAs (Decidable (_ ∨ _))

def hostRefs (c : Config) (env : PageEnv) (rd : Nat) (readonly : Bool) : Refs :=
  (1, if readonly = false ∧ Typed c env rd then 1 else 0)

def deviceRefs (readonly : Bool) : Refs := (1, if readonly = false then 1 else 0)

/-- The references that a mapping of a page of the domain `rd` stands for. -/
def MapBits.refs (c : Config) (env : PageEnv) (rd : Nat) (b : MapBits) : Refs :=
  (if b.host then hostRefs c env rd b.readonly else 0)
  + if b.device then deviceRefs b.readonly else 0

/-- The references to `f` that a mapping stands for, with the frames that grants have. -/
def refsTo (c : Config) (env : PageEnv) (frame : Nat → Nat → Nat) (f : Nat) (x : Mapped) : Refs :=
  if frame x.domid x.ref = f then x.bits.refs c env x.domid else 0

def State.impliedRefs (c : Config) (env : PageEnv) (s : State) (f : Nat) : Refs :=
  s.total (refsTo c env s.frame f)

theorem impliedRefs_congr {s s' : State} (hlive : s'.live = s.live)
    (hframe : ∀ e x, s.live e = some x → s'.frame x.domid x.ref = s.frame x.domid x.ref) (f : Nat) :
    s'.impliedRefs c env f = s.impliedRefs c env f := by
  refine total_congr hlive fun e x hx => ?_
  rw [refsTo, hframe e x hx, refsTo]

/-! ## Mapping -/

/-- What `gnttab_map_grant_ref` does not look at is well. -/
def PageMap.Careful (c : Config) (env : PageEnv) (x : PageMap) : Prop :=
  ((mapBits x.op.flags).host = true → (mapBits x.op.flags).device = true →
    x.owner = .granter ∧ x.deviceGetPage = true ∧
      ((mapBits x.op.flags).readonly = false → x.deviceGetPageType = true)) ∧
  ((mapBits x.op.flags).host = false → (mapBits x.op.flags).readonly = false → Typed c env x.op.dom)

instance (x : PageMap) : Decidable (x.Careful c env) := inferInstanceAs (Decidable (_ ∧ _))

theorem host_mapBits {w : Nat} (flags : BitVec w) :
    flags &&& gntmapHostMap ≠ 0 ↔ (mapBits flags).host = true := decide_eq_true_iff.symm

theorem device_mapBits {w : Nat} (flags : BitVec w) :
    flags &&& gntmapDeviceMap ≠ 0 ↔ (mapBits flags).device = true := decide_eq_true_iff.symm

theorem readonly_mapBits {w : Nat} (flags : BitVec w) :
    flags &&& gntmapReadonly = 0 ↔ (mapBits flags).readonly = false := by
  simp [mapBits]

theorem getPageType_iff {w : Nat} {flags : BitVec w} {rd : Nat} :
    hostMappingGetPageType c env flags rd ↔ (mapBits flags).readonly = false ∧ Typed c env rd := by
  unfold hostMappingGetPageType Typed
  rw [readonly_mapBits]

theorem hostRefs_eq {w : Nat} (flags : BitVec w) (rd : Nat) :
    (1, if hostMappingGetPageType c env flags rd then 1 else 0) =
      hostRefs c env rd (mapBits flags).readonly := by
  unfold hostRefs
  simp only [getPageType_iff]

theorem mapPuts_one (op : MapOp) :
    mapPuts c env op 1 = hostRefs c env op.dom (mapBits op.flags).readonly := by
  rw [← hostRefs_eq, mapPuts, if_neg (by decide), if_pos (by decide), zero_add]

theorem mapPuts_two (op : MapOp) : mapPuts c env op 2 =
    deviceRefs (mapBits op.flags).readonly + hostRefs c env op.dom (mapBits op.flags).readonly := by
  unfold mapPuts deviceRefs
  simp only [hostRefs_eq, readonly_mapBits]
  rfl

theorem mapPages_refs {x : PageMap} (hcareful : x.Careful c env)
    (hmaps : (mapBits x.op.flags).any = true) (f : Nat) :
    (mapPages c env x f).refs = mapPuts c env x.op (mapPages c env x f).nrGets ∧
      (env.iomem f = false → (mapPages c env x f).status = .okay →
        (mapPages c env x f).refs = (mapBits x.op.flags).refs c env x.op.dom) := by
  unfold mapPages
  simp only [hostRefs_eq, host_mapBits, device_mapBits, readonly_mapBits]
  split
  · rename_i hio
    refine ⟨?_, fun h => absurd hio (by rw [h]; decide)⟩
    split
    · rfl
    · split <;> rfl
  split
  · split
    · exact ⟨rfl, fun _ h => absurd h (by decide)⟩
    · split
      · rename_i hh
        split
        · rename_i hbad
          exact ⟨(mapPuts_one x.op).symm, fun _ h => absurd h hbad⟩
        split
        · rename_i hd
          obtain ⟨howner, hget, htype⟩ := hcareful.1 hh hd
          rw [if_pos ⟨howner, hget⟩, if_congr (and_iff_left_of_imp htype) rfl rfl, ← deviceRefs]
          refine ⟨?_, fun _ _ => ?_⟩
          · rw [mapPuts_two, add_comm]
          · rw [MapBits.refs, if_pos hh, if_pos hd]
        · rename_i hd
          refine ⟨(mapPuts_one x.op).symm, fun _ _ => ?_⟩
          rw [MapBits.refs, if_pos hh, if_neg hd, add_zero]
      · rename_i hh
        refine ⟨(mapPuts_one x.op).symm, fun _ _ => ?_⟩
        have hd : (mapBits x.op.flags).device = true := by
          simpa [MapBits.any, hh] using hmaps
        have htyped := hcareful.2 (Bool.eq_false_iff.2 hh)
        rw [MapBits.refs, if_neg hh, if_pos hd, zero_add, hostRefs, deviceRefs,
          if_congr (and_iff_left_of_imp htyped) rfl rfl]
  · exact ⟨rfl, fun _ h => absurd h (by decide)⟩

/-! ## Unmapping -/

/-- An operation that finds a device mapping, which no operation before it has ended, names its
frame. -/
def State.NamesDevice (s : State) (ops : List Unmap) : Prop :=
  ∀ n < ops.length, ∀ op ∈ ops[n]?, s.Accepts op → s.Leaves (ops.take n) op.handle 0 →
    op.devBusAddr / 4096 ≠ 0

instance (s : State) (ops : List Unmap) : Decidable (s.NamesDevice ops) :=
  inferInstanceAs (Decidable (∀ n < ops.length, ∀ op ∈ ops[n]?, _ → _ → _))

theorem refs_of_not_any {rd : Nat} {b : MapBits} (h : b.any = false) : b.refs c env rd = 0 := by
  obtain ⟨hh, hd⟩ := Bool.or_eq_false_iff.1 h
  rw [MapBits.refs, hh, hd]
  rfl

theorem share_refsTo (x : GrantMapping) (frame : Nat → Nat → Nat) (f : Nat) :
    share (refsTo c env frame f) x.mapped =
      if frame x.domid x.ref = f then (mapBits x.flags).refs c env x.domid else 0 := by
  unfold GrantMapping.mapped
  split
  · rfl
  · rename_i h
    rw [refs_of_not_any (Bool.eq_false_iff.2 h), ite_self]
    rfl

section Unmap

variable {s s' : State} {op : Unmap} {u : UnmapCommon}

theorem refs_left (c : Config) (env : PageEnv) (op : Unmap) (rd : Nat) {b : MapBits}
    (hdevice : b.device = true → op.devBusAddr / 4096 ≠ 0) :
    b.refs c env rd = (op.left b).refs c env rd
      + ((if b.device then deviceRefs b.readonly else 0)
        + if op.hostAddr ≠ 0 ∧ b.host = true ∧ op.replace = .okay then hostRefs c env rd b.readonly
          else 0) := by
  have hd : (op.left b).device = false := by
    unfold Unmap.left
    cases hb : b.device with
    | false => rfl
    | true => simp [hdevice hb]
  have hr : (op.left b).readonly = b.readonly := rfl
  unfold MapBits.refs
  rw [hd, if_neg Bool.false_ne_true, add_comm, add_left_comm]
  by_cases hgone : op.hostAddr ≠ 0 ∧ op.replace = .okay
  · cases hh : b.host <;> simp [Unmap.left, hh, hgone]
  · have : ¬ (op.hostAddr ≠ 0 ∧ b.host = true ∧ op.replace = .okay) := fun h => hgone ⟨h.1, h.2.2⟩
    rw [if_neg this]
    cases hh : b.host <;> simp_all [Unmap.left]

theorem devicePuts_eq (u : UnmapCommon) :
    u.devicePuts = if (mapBits u.flags).device = true then deviceRefs (mapBits u.flags).readonly
      else 0 := by
  unfold UnmapCommon.devicePuts deviceRefs
  simp only [ne_eq, ite_not, readonly_mapBits, ← device_mapBits]

theorem hostPuts_eq (u : UnmapCommon) (rd : Nat) :
    u.hostPuts c env rd =
      if u.hostAddr ≠ 0 ∧ (mapBits u.flags).host = true ∧ u.status = .okay then
        hostRefs c env rd (mapBits u.flags).readonly else 0 := by
  unfold UnmapCommon.hostPuts
  simp only [host_mapBits, hostRefs_eq]

namespace Unmapping

variable {t : GrantTable} {map : GrantMapping} {x : (BitVec 16 × Active) × Nat × Status}
  (un : Unmapping c s op t map x s' u)

include un

theorem puts_eq (hback : s.Backed) : u.puts c env s' =
    if x.2.1 ≠ s.frame map.domid map.ref then 0
    else if env.iomem x.2.1 then 0
    else Pi.single x.2.1 (u.devicePuts + u.hostPuts c env map.domid) := by
  have hback' : t.Backs map.ref := by
    have h := hback op.handle un.lt
    rw [un.entry] at h
    exact h un.flags t un.table
  have htable : s'.tables map.domid = some (t.setActive map.ref x.1.2) := by
    rw [un.tables]
    exact Function.update_self _ _ _
  have hrd : u.rd = some map.domid := by rw [un.noted]
  have hhandle : u.handle = op.handle := by rw [un.noted]
  have huframe : u.frame = x.2.1 := by rw [un.noted]
  have hframe : ((t.setActive map.ref x.1.2).active (s'.maptrack.entry op.handle).ref).frame =
      s.frame map.domid map.ref := by
    have href : (s'.maptrack.entry op.handle).ref = map.ref := by
      rw [un.maptrack, Maptrack.entry_setEntry, if_pos rfl]
    rw [href, ← frame_eq htable, un.frame]
  have hversion : (t.setActive map.ref x.1.2).version ≠ 0 := hback'.1
  unfold UnmapCommon.puts
  simp only [hrd, htable, hhandle, huframe, hframe, if_neg hversion]

theorem refs (hback : s.Backed) (hiommu : c.needIommu → op.iommu = true)
    (hdevice : (mapBits map.flags).device = true → op.devBusAddr / 4096 ≠ 0) {f : Nat}
    (hf : env.iomem f = false) :
    s'.impliedRefs c env f + u.puts c env s' f = s.impliedRefs c env f := by
  have hframes : s'.frame = s.frame := funext fun d => funext fun ref => un.frame d ref
  have hupdate := total_update (w := refsTo c env s.frame f) un.live
  have huflags : u.flags = map.flags := by rw [un.noted]
  rw [un.live_handle, share_refsTo, share_refsTo] at hupdate
  unfold State.impliedRefs
  rw [hframes, un.puts_eq hback]
  rcases un.bits with ⟨hne, hx⟩ | ⟨heq, hbits, hstatus⟩
  · rw [if_pos hne]
    rw [hx] at hupdate
    exact (add_zero _).trans (add_right_cancel hupdate)
  rw [if_neg (not_not.2 heq), heq]
  by_cases hframe : s.frame map.domid map.ref = f
  · rw [if_pos hframe, if_pos hframe, hbits] at hupdate
    rw [hframe, if_neg (by rw [hf]; decide), Pi.single_eq_same, devicePuts_eq, hostPuts_eq, huflags]
    have huhost : u.hostAddr = op.hostAddr := by rw [un.noted]
    have hustatus : u.status = x.2.2 := by
      rw [un.noted]
      exact if_neg fun h => h.2.2 (hiommu h.2.1)
    have hputs : (u.hostAddr ≠ 0 ∧ (mapBits map.flags).host = true ∧ u.status = .okay) =
        (op.hostAddr ≠ 0 ∧ (mapBits map.flags).host = true ∧ op.replace = .okay) := by
      rw [huhost, hustatus, hstatus]
      refine propext (and_congr_right fun h₁ => and_congr_right fun h₂ => ?_)
      rw [if_pos ⟨h₁, h₂⟩]
    simp only [hputs]
    rw [refs_left c env op map.domid hdevice, add_comm (MapBits.refs c env _ _), ← add_assoc]
      at hupdate
    exact add_right_cancel hupdate
  · rw [if_neg hframe, if_neg hframe, add_zero, add_zero] at hupdate
    rw [hupdate]
    split
    · exact add_zero _
    · rw [Pi.single_eq_of_ne (Ne.symm hframe), add_zero]

end Unmapping

theorem Dropped.puts (drop : Dropped s s') (u : UnmapCommon) :
    u.puts c env s' = u.puts c env s := by
  unfold UnmapCommon.puts
  cases u.rd with
  | none => rfl
  | some rd =>
    have htables := congrFun drop.unpinned rd
    unfold State.unpinned at htables
    cases ht : s.tables rd with
    | none =>
      rw [ht] at htables
      simp only [Option.map_eq_none_iff.1 htables, ht]
    | some t =>
      rw [ht] at htables
      obtain ⟨t', ht', hunpinned⟩ := Option.map_eq_some_iff.1 htables
      have hversion : t'.unpinned.version = t.unpinned.version := by rw [hunpinned]
      have hframe : ∀ ref, (t'.unpinned.active ref).frame = (t.unpinned.active ref).frame :=
        fun ref => by rw [hunpinned]
      simp only [GrantTable.unpinned, Active.unpinned] at hversion hframe
      have href : (s'.maptrack.entry u.handle).ref = (s.maptrack.entry u.handle).ref := by
        rw [drop.entry u.handle]
      simp only [ht, ht', hversion, hframe, href]

theorem puts_of_not_started (h : u.rd = none) : u.puts c env s = 0 := by
  unfold UnmapCommon.puts
  rw [h]

theorem unmapBatchCommon_refs (env : PageEnv) {ops : List Unmap} {us : List UnmapCommon}
    (hback : s.Backed) (hiommu : ∀ op ∈ ops, c.needIommu → op.iommu = true)
    (h : Grant.unmapBatchCommon c s ops = .ok (s', us)) (hnames : s.NamesDevice ops)
    {f : Nat} (hf : env.iomem f = false) :
    s'.impliedRefs c env f + (us.map fun u => u.puts c env s').sum f = s.impliedRefs c env f := by
  induction ops generalizing s us with
  | nil =>
    cases h
    exact add_zero _
  | cons op ops ih =>
    obtain ⟨⟨s₁, u⟩, h₁, h⟩ := exists_ok_of_bind h
    obtain ⟨⟨s₂, us'⟩, h₂, h⟩ := exists_ok_of_bind h
    cases h
    obtain ⟨drop, hleaves, hfirst⟩ := unmapCommon_leaves hback h₁
    have hlater : s₁.NamesDevice ops := fun n hn op' hop' ha hleft =>
      hnames (n + 1) (Nat.succ_lt_succ hn) op' hop' ((drop.accepts op').1 ha)
        ((hleaves _ _ _).1 hleft)
    have hback₁ := drop.backed hback
    have hiommu' : ∀ op ∈ ops, c.needIommu → op.iommu = true :=
      fun op hop => hiommu op (List.mem_cons_of_mem _ hop)
    obtain ⟨st', us', hst', drop', -⟩ := unmapBatchCommon_spec hback₁ hiommu'
    rw [h₂] at hst'
    cases hst'
    have hrest := ih hback₁ hiommu' h₂ hlater
    have hhead : s₁.impliedRefs c env f + u.puts c env s₁ f = s.impliedRefs c env f := by
      rcases unmapCommon_cases h₁ with ⟨hnone, rfl⟩ | ⟨t, map, x, un⟩
      · rw [puts_of_not_started hnone]
        exact add_zero _
      · refine un.refs hback (hiommu op List.mem_cons_self) (fun hd => ?_) hf
        have haccepts := (hfirst (by rw [un.noted]; exact Option.some_ne_none _)).2.1
        rw [← un.entry, mapBits_eq (by decide)] at hd
        exact hnames 0 (Nat.succ_pos _) op rfl haccepts ⟨hd, by simp⟩
    rw [List.map_cons, List.sum_cons, Pi.add_apply, drop'.puts u, add_comm (u.puts c env s₁ f),
      ← add_assoc, hrest, hhead]

end Unmap

/-! ## Runs -/

structure RefInv (c : Config) (env : PageEnv) (s : PageState) : Prop where
  state : s.state.Inv
  pins : s.state.PinInv c.domid
  refs : ∀ f, env.iomem f = false → s.refs f = s.state.impliedRefs c env f

def Careful (c : Config) (env : PageEnv) (s : PageState) (a : PageAction) : Prop :=
  Admits c s.state a.action ∧
    match a with
    | .map _ x => x.Careful c env
    | .unmap ops => s.state.NamesDevice ops
    | .initVcpu _ => True
    -- other domains leave the grants alone that are pinned for this one
    | .remote d t => SameGrants c.domid s.state
        { s.state with tables := Function.update s.state.tables d t }

noncomputable instance (s : PageState) (a : PageAction) : Decidable (Careful c env s a) :=
  match a with
  | .map _ x => inferInstanceAs (Decidable (_ ∧ x.Careful c env))
  | .unmap ops => inferInstanceAs (Decidable (_ ∧ s.state.NamesDevice ops))
  | .initVcpu _ => inferInstanceAs (Decidable (_ ∧ True))
  | .remote _ _ => Classical.propDecidable _

section Steps

variable {s s' : PageState} (inv : RefInv c env s)

include inv

theorem RefInv.same (hinv : s'.state.Inv) (hlive : s'.state.live = s.state.live)
    (same : SameGrants c.domid s.state s'.state) (hrefs : s'.refs = s.refs) : RefInv c env s' := by
  refine ⟨hinv, inv.pins.congr hlive same, fun f hf => ?_⟩
  rw [hrefs, inv.refs f hf]
  exact (impliedRefs_congr hlive (fun _ _ hx => inv.pins.frame_of_live same hx) f).symm

theorem RefInv.map {x : PageMap} {e : Nat} {t : GrantTable} {act : Active}
    (hinv : s'.state.Inv) (hcareful : x.Careful c env) (hmaps : (mapBits x.op.flags).any = true)
    (done : MapDone c env x s s' e t act) : RefInv c env s' := by
  refine ⟨hinv, inv.pins.map done.table done.new done.free done.live done.tables, fun f hf => ?_⟩
  have hold : s.state.total (refsTo c env s'.state.frame f) = s.state.impliedRefs c env f := by
    refine total_congr rfl fun e x hx => ?_
    rw [refsTo, done.frame_live inv.pins hx, refsTo]
  have hupdate := total_update (w := refsTo c env s'.state.frame f) done.live
  rw [done.free, hold] at hupdate
  have himplied : s'.state.impliedRefs c env f = s.state.impliedRefs c env f +
      if act.frame = f then (mapBits x.op.flags).refs c env x.op.dom else 0 := by
    refine ((add_zero _).symm.trans hupdate).trans ?_
    rw [← done.frame_new]
    rfl
  rw [himplied, done.refs, Pi.add_apply, inv.refs f hf]
  by_cases hact : act.frame = f
  · subst hact
    rw [if_pos rfl, Pi.single_eq_same, (mapPages_refs hcareful hmaps act.frame).2 hf done.got]
  · rw [if_neg hact, Pi.single_eq_of_ne (Ne.symm hact)]

theorem RefInv.mapGrantRef {curr : Nat} {x : PageMap} (ha : Careful c env s (.map curr x)) :
    ∃ r, s.mapGrantRef c env curr x = .ok r ∧ RefInv c env r.1 := by
  by_cases hmaps : x.op.flags &&& gntmapMaps = 0
  · exact ⟨(s, .badGntref), by rw [PageState.mapGrantRef, if_pos hmaps], inv⟩
  obtain ⟨⟨hcurr, hsteal⟩, hcareful⟩ := ha
  have hany : (mapBits x.op.flags).any = true := by
    rw [any_mapBits (by decide)]
    exact decide_eq_true hmaps
  obtain ⟨r, hr, hinv, undone | ⟨e, t, act, done⟩⟩ := mapGrantRef_spec env inv.state hcurr
    hsteal
  · refine ⟨r, hr, inv.same hinv undone.live undone.same ?_⟩
    rcases undone.refs with hrefs | ⟨f, hrefs⟩
    · exact hrefs
    · rw [hrefs, (mapPages_refs hcareful hany f).1, add_assoc, ← Pi.single_add, add_neg_cancel,
        Pi.single_zero, add_zero]
  · exact ⟨r, hr, inv.map hinv hcareful hany done⟩

theorem RefInv.unmapBatch {ops : List Unmap} (ha : Careful c env s (.unmap ops)) :
    ∃ s', s.unmapBatch c env ops = .ok s' ∧ RefInv c env s' := by
  obtain ⟨hadmits, hnames⟩ := ha
  obtain ⟨s₁, us, s', hs', batch, hpins⟩ := unmapBatch_page env
    (P := fun s => s.state.PinInv c.domid) inv.state hadmits (fun s op s' u _ h _ hpins => by
      rcases unmapCommon_cases h with ⟨-, heq⟩ | ⟨t, map, x, un⟩
      · rw [heq]
        exact hpins
      · exact un.pinInv hpins) inv.pins
  have hsame : SameGrants c.domid s₁.state s'.state := .of_tables batch.tables
  refine ⟨s', hs', batch.state, hpins.congr batch.live hsame, fun f hf => ?_⟩
  have hsum := unmapBatchCommon_refs env inv.state.backed hadmits.1 batch.common hnames hf
  rw [batch.refs, Pi.sub_apply, inv.refs f hf, ← hsum, add_sub_cancel_right]
  exact (impliedRefs_congr batch.live (fun _ _ hx => hpins.frame_of_live hsame hx) f).symm

theorem pageStep_refInv {a : PageAction} (ha : Careful c env s a) :
    ∃ s', pageStep c env s a = .ok s' ∧ RefInv c env s' := by
  cases a with
  | map curr x =>
    obtain ⟨r, hr, hinv⟩ := inv.mapGrantRef ha
    exact ⟨r.1, by rw [pageStep, hr]; rfl, hinv⟩
  | unmap ops => exact inv.unmapBatch ha
  | initVcpu v =>
    exact ⟨_, rfl, inv.same (initVcpu_inv v inv.state) (initVcpu_live _ v) (.of_tables rfl) rfl⟩
  | remote d t =>
    obtain ⟨st, hst, hinv⟩ := step_inv inv.state ha.1
    cases hst
    exact ⟨_, rfl, inv.same hinv rfl ha.2 rfl⟩

omit inv

theorem create_refInv {tables : Nat → Option GrantTable}
    (fresh : ∀ d ref, (State.create tables).pinFor c.domid d ref = 0) :
    RefInv c env (.create tables) where
  state := create_inv tables
  pins := create_pinInv fresh
  refs _ _ := rfl

end Steps

/-- **References follow the mappings** in every run that `Careful` allows, and the next step does
not leave the tables it indexes. -/
theorem references_follow_mappings (c : Config) (env : PageEnv) {tables : Nat → Option GrantTable}
    {s : PageState} (fresh : ∀ d ref, (State.create tables).pinFor c.domid d ref = 0)
    (run : Reaches (pageStep c env) (Careful c env) (.create tables) s) :
    (∀ f, env.iomem f = false → s.refs f = s.state.impliedRefs c env f) ∧
      ∀ a, Careful c env s a → ∃ s', pageStep c env s a = .ok s' := by
  have inv : RefInv c env s :=
    run.invariant_of_total (fun s a ha inv => pageStep_refInv inv ha) (create_refInv fresh)
  refine ⟨inv.refs, fun a ha => ?_⟩
  obtain ⟨s', hs', -⟩ := pageStep_refInv inv ha
  exact ⟨s', hs'⟩

def pvDomain : Config where
  domid := 1
  external := false
  needIommu := false
  maxVcpus := 1
  maxMaptrackFrames := 1
  fits := oneFrame_fits

def ramOnly : PageEnv := ⟨fun _ => false, fun _ => false⟩

def mapPage (flags : BitVec 32) (ref : Nat) : PageMap :=
  ⟨{ mapHost ref with flags := flags }, .granter, true, true, true, true⟩

/-- A host and a device mapping of one page, and an operation that ends both. -/
theorem references_follow_mappings_both : ∃ s,
    Reaches (pageStep pvDomain ramOnly) (Careful pvDomain ramOnly) (.create freshTables) s ∧
      s.state.live 0 = some ⟨2, 8, ⟨true, true, false⟩⟩ ∧ s.state.live 1 = none ∧
      s.refs 8 = s.state.impliedRefs pvDomain ramOnly 8 := by
  obtain ⟨s, run, h0, h1⟩ : ∃ s,
      Reaches (pageStep pvDomain ramOnly) (Careful pvDomain ramOnly) (.create freshTables) s ∧
        s.state.live 0 = some ⟨2, 8, ⟨true, true, false⟩⟩ ∧ s.state.live 1 = none :=
    Reaches.exists_of_checked (e := .noVcpu)
      (l := [.initVcpu 0, .map 0 (mapPage gntmapMaps 8), .map 0 (mapPage gntmapMaps 9),
        .unmap [⟨4096, 9 * 4096, 1, true, .okay, true⟩]]) (by decide +kernel)
  exact ⟨s, run, h0, h1, (references_follow_mappings pvDomain ramOnly (fun _ _ => rfl) run).1 8 rfl⟩

/-- Unmapping a host mapping without naming the device mapping drops the references of both. -/
theorem unmap_drops_device_reference : ∃ s,
    Reaches (pageStep pvDomain ramOnly) (fun s a => Admits pvDomain s.state a.action)
      (.create freshTables) s ∧ s.state.live 0 = some ⟨2, 8, ⟨false, true, false⟩⟩ ∧
      s.refs 8 = (0, 0) ∧ s.state.impliedRefs pvDomain ramOnly 8 = (1, 1) :=
  Reaches.exists_of_checked (e := .noVcpu)
    (l := [.initVcpu 0, .map 0 (mapPage gntmapMaps 8), .unmap [unmapHost 0]]) (by decide +kernel)

end XenVmi.Grant
