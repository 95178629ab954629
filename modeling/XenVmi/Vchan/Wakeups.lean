import XenVmi.Vchan.Fifo

/-!
# No wake-up is lost

A blocking call that finds too little sets its request bit, looks again and only then waits; the
peer moves its index, clears the bit and only then sends the event. `Expects` says what holds at
each place of a call, and steps of the peer keep it (`Fades`). A blocking `libxenvchan_read` of no
bytes sets no request bit, and waits for data all the same.
-/

namespace XenVmi.Vchan

open Function XenVmi.Lib

variable {g : Geometry} {c c' : Chan} {s : Side} {call : Call} {f f' : Frame} {ok : Bool} {a : Act}
  {N C n k : ℕ} {S : List UInt8} {nx : Next} {op : Op}

/-! ## What a side sees -/

def Proc.telling (b : NotifyBit) : Proc → Option Pc
  | .idle => none
  | .busy call f => if call.op.tells = b then some f.pc else none

structure View where
  pending : Bool
  asked : Bool
  opposite : Option Pc
  avail : ℕ

def Chan.view (g : Geometry) (c : Chan) (s : Side) (op : Op) : View where
  pending := c.pending s
  asked := c.notify s.peer op.wants
  opposite := (c.proc s.peer).telling op.wants
  avail := op.raw (g.size (op.lane s)) (c.ring (op.lane s))

namespace View

variable {v v' : View} {P : ℕ → Prop}

/-- The peer is between its index update and the end of its `send_notify`. -/
def Between (v : View) : Prop := ∃ n, v.opposite = some (.clear n) ∨ v.opposite = some (.signal n)

def announced (v : View) : ℕ := v.avail - (v.opposite.map Pc.moved).getD 0

def Armed (v : View) : Prop :=
  v.pending = true ∨ v.asked = true ∨ ∃ n, v.opposite = some (.signal n)

/-- An event is pending, or will be as soon as there is more than `P` allows. -/
def Hushed (v : View) (P : ℕ → Prop) : Prop := v.Armed ∧ (v.pending = true ∨ P v.announced)

theorem announced_le (v : View) : v.announced ≤ v.avail := Nat.sub_le _ _

theorem announced_of_not_between (h : ¬ v.Between) : v.announced = v.avail := by
  unfold announced
  cases hopp : v.opposite with
  | none => rfl
  | some pc =>
    cases pc with
    | clear n => exact absurd ⟨n, .inl hopp⟩ h
    | signal n => exact absurd ⟨n, .inr hopp⟩ h
    | _ => rfl

theorem Armed.asked_or_between (h : v.Armed) (hp : v.pending = false) :
    v.asked = true ∨ v.Between := by
  rcases h with h | h | ⟨n, h⟩
  · rw [hp] at h
    cases h
  · exact .inl h
  · exact .inr ⟨n, .inr h⟩

structure Fades (v v' : View) : Prop where
  pending : v.pending = true → v'.pending = true
  armed : v.Armed → v'.Armed
  announced : v.Armed → v'.pending = true ∨ v'.announced ≤ v.announced

theorem Fades.refl (v : View) : Fades v v := ⟨id, id, fun _ => .inr (Nat.le_refl _)⟩

theorem Fades.of_pending (h : v'.pending = true) : Fades v v' :=
  ⟨fun _ => h, fun _ => .inl h, fun _ => .inl h⟩

theorem Hushed.fades (h : v.Hushed P) (hf : Fades v v') (hP : ∀ m m', m' ≤ m → P m → P m') :
    v'.Hushed P := by
  refine ⟨hf.armed h.1, ?_⟩
  rcases h.2 with hp | hp
  · exact .inl (hf.pending hp)
  · exact (hf.announced h.1).imp id fun hle => hP _ _ hle hp

theorem Hushed.mono {Q : ℕ → Prop} (h : v.Hushed P) (hPQ : ∀ m, P m → Q m) : v.Hushed Q :=
  ⟨h.1, h.2.imp id (hPQ _)⟩

end View

theorem Call.Lacks.mono {m m' : ℕ} (hle : m' ≤ m) (h : call.Lacks m) : call.Lacks m' := by
  unfold Call.Lacks at h ⊢
  split at h <;> omega

def Expects (v : View) (call : Call) (f : Frame) : Prop :=
  match f.pc with
  | .remeasure => v.Armed
  | .wait => v.Hushed call.Lacks
  -- a reading call looks here after it has found too little
  | .isOpen => call.op.writes = false → call.blocking = true → v.Hushed call.Lacks
  -- a write that will not be through has taken all the space it saw
  | .copyHead n | .copyTail n _ | .advance n =>
    call.streams = true → f.pos + n ≠ call.size → v.Hushed (· ≤ n)
  | .clear n | .signal n => call.streams = true → f.pos + n ≠ call.size → v.Hushed (· = 0)
  | _ => True

theorem Expects.fades {v v' : View} (h : Expects v call f) (hf : v.Fades v') :
    Expects v' call f := by
  have hle : ∀ n m m', m' ≤ m → m ≤ n → m' ≤ n := fun n m m' h h' => Nat.le_trans h h'
  have hzero : ∀ m m', m' ≤ m → m = 0 → m' = 0 := fun m m' h h' => by omega
  unfold Expects at h ⊢
  cases hpc : f.pc <;> rw [hpc] at h <;> dsimp only at h ⊢
  case remeasure => exact hf.armed h
  case wait => exact h.fades hf fun _ _ => Call.Lacks.mono
  case isOpen => exact fun hw hb => (h hw hb).fades hf fun _ _ => Call.Lacks.mono
  case copyHead n => exact fun hs hne => (h hs hne).fades hf (hle n)
  case copyTail n k => exact fun hs hne => (h hs hne).fades hf (hle n)
  case advance n => exact fun hs hne => (h hs hne).fades hf (hle n)
  case clear n => exact fun hs hne => (h hs hne).fades hf hzero
  case signal n => exact fun hs hne => (h hs hne).fades hf hzero

/-! ## How the steps change the views -/

section Views

variable {b : NotifyBit} {t : Bool} {r : Ring}

@[simp] theorem view_next_self : (c.next s call f nx).view g s op = c.view g s op := by
  cases nx with
  | goto f' => simp [Chan.next, Chan.view]
  | ret r =>
    unfold Chan.next
    dsimp only
    split <;> simp [Chan.view]

@[simp] theorem view_setNotify_self : (c.setNotify s b t).view g s op = c.view g s op := by
  simp [Chan.setNotify, Chan.view]

@[simp] theorem view_setPending_peer_self :
    (c.setPending s.peer t).view g s op = c.view g s op := by
  simp [Chan.setPending, Chan.view, update_of_ne]

theorem view_setRing_self :
    (c.setRing (op.lane s) r).view g s op =
      { c.view g s op with avail := op.raw (g.size (op.lane s)) r } := by
  simp [Chan.setRing, Chan.view]

def Next.telling (call : Call) (b : NotifyBit) : Next → Option Pc
  | .goto f => if call.op.tells = b then some f.pc else none
  | .ret _ => none

theorem view_next_peer :
    (c.next s call f nx).view g s.peer op =
      { c.view g s.peer op with opposite := nx.telling call op.wants } := by
  cases nx with
  | goto f' => simp [Chan.next, Chan.view, Next.telling, Proc.telling]
  | ret r =>
    unfold Chan.next
    dsimp only
    split <;> simp [Chan.view, Next.telling, Proc.telling]

theorem view_setNotify_peer :
    (c.setNotify s b t).view g s.peer op =
      { c.view g s.peer op with asked := if op.wants = b then t else c.notify s op.wants } := by
  simp [Chan.setNotify, Chan.view, update_apply]

@[simp] theorem view_setNotify_peer_peer :
    (c.setNotify s.peer b t).view g s.peer op = c.view g s.peer op := by
  simp [Chan.setNotify, Chan.view, update_of_ne]

@[simp] theorem view_setPending_peer :
    (c.setPending s t).view g s.peer op = c.view g s.peer op := by
  simp [Chan.setPending, Chan.view, update_of_ne]

theorem opposite_of_busy (hp : c.proc s = .busy call f) :
    (c.view g s.peer op).opposite = if call.op.tells = op.wants then some f.pc else none := by
  simp [Chan.view, Proc.telling, hp]

end Views

theorem lane_of_tells (h : call.op.tells = op.wants) : op.lane s.peer = call.op.lane s := by
  unfold Op.tells Op.wants at h
  unfold Op.lane
  cases hw : call.op.writes <;> cases hw' : op.writes <;> simp_all

theorem lane_of_not_tells (h : call.op.tells ≠ op.wants) :
    op.lane s.peer = (call.op.lane s).peer := by
  unfold Op.tells Op.wants at h
  unfold Op.lane
  cases hw : call.op.writes <;> cases hw' : op.writes <;> simp_all

theorem raw_memcpy (r : Ring) (got : List UInt8) (i j m : ℕ) :
    op.raw N (call.memcpy r got i j m).1 = op.raw N r := by
  unfold Call.memcpy
  split <;> rfl

theorem run_copies (h : c.run g s call f ok = .ok c')
    (hpc : f.pc = .copyHead n ∨ ∃ j, f.pc = .copyTail n j) :
    ∃ r f', c' = (c.setRing (call.op.lane s) r).next s call f (.goto f') ∧
      (∀ (op : Op) N, op.raw N r = op.raw N (c.ring (call.op.lane s))) ∧ f'.pos = f.pos ∧
      ((∃ j, f'.pc = .copyTail n j) ∨ f'.pc = .advance n) := by
  unfold Chan.run at h
  rcases hpc with hpc | ⟨j, hpc⟩
  · rw [hpc] at h
    cases h
    refine ⟨_, _, rfl, fun op N => raw_memcpy _ _ _ _ _, rfl, ?_⟩
    split
    · exact .inl ⟨_, rfl⟩
    · exact .inr rfl
  · rw [hpc] at h
    cases h
    exact ⟨_, _, rfl, fun op N => raw_memcpy _ _ _ _ _, rfl, .inr rfl⟩

section Advance

variable {l : Lane} (hk : k ≤ 20) (h : Flow (2 ^ k) l S C) (hpc : f.pc = .advance n)

include hk h hpc

theorem raw_advance_writes (hl : l.writer = some (call, f)) (hw : call.op.writes = true) :
    call.op.raw (2 ^ k) (call.op.advance l.ring n) = call.op.raw (2 ^ k) l.ring - n ∧
    ∀ op : Op, op.writes = false →
      op.raw (2 ^ k) (call.op.advance l.ring n) = op.raw (2 ^ k) l.ring + n := by
  have hcopied := (h.writer call f hl).copied
  rw [hpc] at hcopied
  have hroom : S.length + n ≤ C + 2 ^ k := hcopied.1
  have hle := h.le
  have hprod : (call.op.advance l.ring n).prod = BitVec.ofNat 32 (S.length + n) := by
    rw [Op.advance, if_pos hw, BitVec.ofNat_add, ← h.prod]
  have hcons : (call.op.advance l.ring n).cons = BitVec.ofNat 32 C := by
    rw [Op.advance, if_pos hw, ← h.cons]
  constructor
  · rw [Op.raw, Op.raw, if_pos hw, if_pos hw, h.space hk,
      rawGetBufferSpace_eq hk hprod hcons (by omega) hroom]
    omega
  · intro op hop
    rw [Op.raw, Op.raw, if_neg (by simp [hop]), if_neg (by simp [hop]), h.ready hk,
      rawGetDataReady_eq hk hprod hcons (by omega) hroom]
    omega

theorem raw_advance_reads (hl : l.reader = some (call, f)) (hw : call.op.writes = false)
    (hop : op.writes = true) :
    op.raw (2 ^ k) (call.op.advance l.ring n) = op.raw (2 ^ k) l.ring + n := by
  have hfetched := h.reader call f hl
  rw [hpc] at hfetched
  have hn : C + n ≤ S.length := hfetched.1
  have hfits := h.fits
  have hprod : (call.op.advance l.ring n).prod = BitVec.ofNat 32 S.length := by
    rw [Op.advance, if_neg (by simp [hw]), ← h.prod]
  have hcons : (call.op.advance l.ring n).cons = BitVec.ofNat 32 (C + n) := by
    rw [Op.advance, if_neg (by simp [hw]), BitVec.ofNat_add, ← h.cons]
  rw [Op.raw, Op.raw, if_pos hop, if_pos hop, h.space hk,
    rawGetBufferSpace_eq hk hprod hcons hn (by omega)]
  omega

end Advance

theorem writes_of_tells (h : call.op.tells = op.wants) : op.writes = !call.op.writes := by
  unfold Op.tells Op.wants at h
  cases hw : call.op.writes <;> cases hw' : op.writes <;> simp_all

theorem raw_advance_peer (hp : c.proc s = .busy call f) (hpc : f.pc = .advance n)
    (hflow : Flow (g.size (call.op.lane s)) (c.lane (call.op.lane s)) S C)
    (htell : call.op.tells = op.wants) :
    op.raw (g.size (call.op.lane s)) (call.op.advance (c.ring (call.op.lane s)) n) =
      op.raw (g.size (call.op.lane s)) (c.ring (call.op.lane s)) + n := by
  have hop := writes_of_tells htell
  cases hw : call.op.writes with
  | true =>
    have hd : call.op.lane s = s := if_pos hw
    rw [hd] at hflow ⊢
    exact (raw_advance_writes (g.order_le s) hflow hpc (lane_writer_of_busy hp hw) hw).2 op
      (by rw [hop, hw]; rfl)
  | false =>
    have hd : call.op.lane s = s.peer := if_neg (by simp [hw])
    rw [hd] at hflow ⊢
    have hraw : op.raw _ (call.op.advance (c.lane s.peer).ring n) = _ :=
      raw_advance_reads (g.order_le s.peer) hflow hpc (lane_reader_of_busy hp hw) hw
        (by rw [hop, hw]; rfl)
    exact hraw

/-! ## A step of the peer -/

/-- Away from the window between the index update and the event. -/
def Pc.quiet : Pc → Bool
  | .advance _ | .clear _ | .signal _ => false
  | _ => true

theorem Pc.moved_of_quiet {pc : Pc} (h : pc.quiet = true) : pc.moved = 0 := by
  cases pc <;> first | rfl | cases h

namespace View

theorem Fades.of_quiet {v : View} {o : Option Pc} (hv : (v.opposite.map Pc.moved).getD 0 = 0)
    (hs : ∀ n, v.opposite ≠ some (.signal n)) : Fades v { v with opposite := o } := by
  refine ⟨id, fun h => ?_, fun _ => .inr ?_⟩
  · rcases h with h | h | ⟨n, h⟩
    · exact .inl h
    · exact .inr (.inl h)
    · exact absurd h (hs n)
  · rw [show v.announced = v.avail - 0 from congrArg _ hv]
    exact Nat.sub_le _ _

end View

theorem run_view_quiet (h : c.run g s call f ok = .ok c') (hs : ∀ n, f.pc ≠ .signal n)
    (hq : call.op.tells = op.wants → f.pc.quiet = true) :
    ∃ o, c'.view g s.peer op = { c.view g s.peer op with opposite := o } := by
  suffices hnext : ∃ c₁ : Chan, c₁.view g s.peer op = c.view g s.peer op ∧
      ∃ nx, c' = c₁.next s call f nx by
    obtain ⟨c₁, heq, nx, rfl⟩ := hnext
    exact ⟨_, by rw [view_next_peer, heq]⟩
  have hcopy : ∀ n, (f.pc = .copyHead n ∨ ∃ j, f.pc = .copyTail n j) →
      ∃ c₁ : Chan, c₁.view g s.peer op = c.view g s.peer op ∧ ∃ nx, c' = c₁.next s call f nx := by
    intro n hpc
    obtain ⟨r, f', rfl, hraw, -⟩ := run_copies h hpc
    refine ⟨_, ?_, _, rfl⟩
    by_cases hlane : op.lane s.peer = call.op.lane s <;>
      simp [Chan.setRing, Chan.view, hlane, hraw, update_of_ne]
  unfold Chan.run at h
  cases hpc : f.pc <;> rw [hpc] at h hq
  case isOpen | measure | remeasure => cases h; exact ⟨c, rfl, _, rfl⟩
  case request => cases h; exact ⟨_, view_setNotify_peer_peer, _, rfl⟩
  case copyHead n => exact hcopy n (.inl hpc)
  case copyTail n j => exact hcopy n (.inr ⟨j, hpc⟩)
  case advance n =>
    cases h
    refine ⟨_, ?_, _, rfl⟩
    simp [Chan.setRing, Chan.view, lane_of_not_tells fun h => Bool.noConfusion (hq h), update_of_ne]
  case clear n =>
    cases h
    refine ⟨_, ?_, _, rfl⟩
    rw [view_setNotify_peer, if_neg fun h => Bool.noConfusion (hq h.symm)]
    simp [Chan.view]
  case signal n => exact absurd hpc (hs n)
  case wait =>
    cases ok with
    | false => cases h; exact ⟨c, rfl, _, rfl⟩
    | true =>
      simp only [Bool.not_true, Bool.false_eq_true, if_false] at h
      split at h
      · cases h
        exact ⟨_, view_setPending_peer, _, rfl⟩
      · cases h

theorem run_fades (hp : c.proc s = .busy call f) (h : c.run g s call f ok = .ok c')
    (hflow : Flow (g.size (call.op.lane s)) (c.lane (call.op.lane s)) S C)
    (hok : ∀ n, f.pc = .signal n → ok = true) (op : Op) :
    (c.view g s.peer op).Fades (c'.view g s.peer op) := by
  have hopp : (c.view g s.peer op).opposite = _ := opposite_of_busy hp
  by_cases hs : ∃ n, f.pc = .signal n
  · obtain ⟨n, hpc⟩ := hs
    rw [Chan.run, hpc, hok n hpc] at h
    cases h
    rw [view_next_peer]
    exact .of_pending (by simp [Chan.setPending, Chan.view])
  by_cases hq : call.op.tells = op.wants → f.pc.quiet = true
  · obtain ⟨o, heq⟩ := run_view_quiet h (fun n hn => hs ⟨n, hn⟩) hq
    rw [heq]
    refine .of_quiet ?_ fun n hn => ?_
    · rw [hopp]
      split
      · exact Pc.moved_of_quiet (hq ‹_›)
      · rfl
    · rw [hopp] at hn
      split at hn
      · exact hs ⟨n, Option.some.inj hn⟩
      · cases hn
  -- the window between the index update and the event
  obtain ⟨htell, hq⟩ := Classical.not_imp.1 hq
  have hlane := lane_of_tells (s := s) htell
  rw [if_pos htell] at hopp
  rw [Chan.run] at h
  cases hpc : f.pc <;> rw [hpc] at h hopp hq <;> try exact absurd rfl hq
  case signal n => exact absurd ⟨n, hpc⟩ hs
  case advance n =>
    cases h
    have hraw := raw_advance_peer (g := g) hp hpc hflow htell
    rw [view_next_peer]
    refine ⟨id, fun ha => ?_, fun _ => .inr ?_⟩
    · rcases ha with ha | ha | ⟨m, hm⟩
      · exact .inl ha
      · exact .inr (.inl ha)
      · rw [hopp] at hm
        cases hm
    · -- the new data or space is there, and it is yet to be announced
      have hann : (c.view g s.peer op).announced = (c.view g s.peer op).avail := by
        rw [View.announced, hopp]
        rfl
      rw [hann]
      simp only [View.announced, Next.telling, if_pos htell, Option.map_some, Option.getD_some,
        Pc.moved, Chan.view, Chan.setRing, hlane, update_self, hraw]
      omega
  case clear n =>
    cases h
    rw [view_next_peer, view_setNotify_peer, if_pos htell.symm]
    cases hbit : c.notify s call.op.tells with
    | true =>
      -- the bit is taken, the event is to come
      rw [if_pos rfl, Next.telling, if_pos htell]
      refine ⟨id, fun _ => .inr (.inr ⟨n, rfl⟩), fun _ => .inr ?_⟩
      simp only [View.announced, hopp, Option.map_some, Option.getD_some, Pc.moved]
      exact Nat.le_refl _
    | false =>
      have hpend : (c.view g s.peer op).Armed → (c.view g s.peer op).pending = true := by
        rintro (ha | ha | ⟨m, hm⟩)
        · exact ha
        · simp [Chan.view, ← htell, hbit] at ha
        · rw [hopp] at hm
          cases hm
      exact ⟨id, fun ha => .inl (hpend ha), fun ha => .inl (hpend ha)⟩

/-! ## A step of the side itself -/

/-- Not a blocking `libxenvchan_read` of no bytes. -/
def Call.Careful (call : Call) : Prop := call.op = .read → call.blocking = true → call.size ≠ 0

variable {pos avail : ℕ}

theorem request_eq (hpos : pos ≤ call.size) (hzero : call.streams = false → pos = 0) :
    call.request pos = call.size - pos := by
  have hsize := call.size_lt
  unfold Call.request
  split
  · exact subSize_of_le hpos (by omega)
  · rename_i hs
    rw [hzero (by simpa using hs), Nat.sub_zero]

theorem lacks_of_streams {m : ℕ} (hs : call.streams = true) (hm : m = 0) : call.Lacks m := by
  unfold Call.Lacks
  rw [(streams_eq.1 hs).1]
  exact hm

theorem rawGetBufferSpace_le (N : ℕ) (r : Ring) : rawGetBufferSpace N r ≤ N := by
  unfold rawGetBufferSpace
  dsimp only
  split <;> omega

theorem SpaceSeen.expects_enough {v : View} (h : SpaceSeen call pos avail f)
    (hw : call.op.writes = true) (hle : call.request pos ≤ avail) (hpos : pos ≤ call.size)
    (hzero : call.streams = false → pos = 0) : Expects v call f := by
  rw [request_eq hpos hzero] at hle
  obtain ⟨heq, ⟨hpc, hlacks, hne⟩ | ⟨n, hpc, hn, hin, htake⟩⟩ := h <;> unfold Expects <;> rw [hpc]
  · exfalso
    unfold Call.Lacks at hlacks
    cases hop : call.op with
    | send =>
      rw [hop] at hlacks
      have hz := hzero (by simp [Call.streams, hop])
      omega
    | write =>
      rw [hop] at hlacks
      exact hne hop (by omega)
    | read | recv => rw [hop] at hw; cases hw
  · intro hs hne'
    have := htake hs (by omega)
    omega

theorem DataSeen.expects_enough {v : View} (h : DataSeen call pos avail f)
    (hw : call.op.writes = false) (hle : call.size ≤ avail) (hcare : call.Careful) :
    Expects v call f := by
  obtain ⟨-, ⟨hpc, hlacks⟩ | ⟨n, hpc, -⟩⟩ := h <;> unfold Expects <;> rw [hpc]
  · intro _ hb
    exfalso
    unfold Call.Lacks at hlacks
    cases hop : call.op with
    | send | write => rw [hop] at hw; cases hw
    | recv =>
      rw [hop] at hlacks
      exact absurd hlacks (Nat.not_lt.2 hle)
    | read =>
      rw [hop] at hlacks
      exact hcare hop hb (by omega)
  · intro hs
    rw [streams_of_read hw] at hs
    cases hs

theorem SpaceSeen.expects_armed {v : View} (h : SpaceSeen call pos v.avail f)
    (ha : v.Armed) : Expects v call f := by
  obtain ⟨heq, ⟨hpc, hlacks, -⟩ | ⟨n, hpc, -, -, htake⟩⟩ := h <;> unfold Expects <;> rw [hpc]
  · exact ⟨ha, .inr (hlacks.mono v.announced_le)⟩
  · intro hs hne
    rw [heq] at hne
    exact ⟨ha, .inr (htake hs hne ▸ v.announced_le)⟩

theorem DataSeen.expects_armed {v : View} (h : DataSeen call pos v.avail f)
    (hw : call.op.writes = false) (ha : v.Armed) : Expects v call f := by
  obtain ⟨-, ⟨hpc, hlacks⟩ | ⟨n, hpc, -⟩⟩ := h <;> unfold Expects <;> rw [hpc]
  · exact fun _ _ => ⟨ha, .inr (hlacks.mono v.announced_le)⟩
  · intro hs
    rw [streams_of_read hw] at hs
    cases hs

theorem transferred_expects {v : View} (hin : call.streams = true → pos + n ≤ call.size)
    (hn : n ≤ 2 ^ 20) (h : call.streams = true → pos + n ≠ call.size → v.Hushed (· = 0)) :
    (call.transferred pos (toInt n)).Meets (Expects v call) fun _ => True := by
  cases hs : call.streams with
  | false =>
    unfold Call.transferred
    rw [if_neg (by simp [hs])]
    trivial
  | true =>
    refine (transferred_writes (hin hs) hn fun h => by rw [hs] at h; cases h).mono ?_
      fun _ _ => trivial
    rintro f ⟨rfl, -, hne⟩
    exact (h hs hne).mono fun m hm => lacks_of_streams hs hm

theorem enter_expects {v : View} : Expects v call (call.enter pos) := by
  unfold Expects Call.enter
  cases call.op.writes with
  | true => exact nofun
  | false => trivial

theorem next_expects (hnx : nx.Meets (Expects (c.view g s call.op) call) fun _ => True) :
    ∀ call' f', (c.next s call f nx).proc s = .busy call' f' →
      call' = call ∧ Expects ((c.next s call f nx).view g s call.op) call f' := by
  intro call' f' hp
  rw [view_next_self]
  cases nx with
  | goto f'' =>
    simp only [Chan.next, update_self, Proc.busy.injEq] at hp
    obtain ⟨rfl, rfl⟩ := hp
    exact ⟨rfl, hnx⟩
  | ret r =>
    unfold Chan.next at hp
    dsimp only at hp
    split at hp <;> simp at hp

theorem run_expects (hp : c.proc s = .busy call f) (h : c.run g s call f ok = .ok c')
    (hflow : Flow (g.size (call.op.lane s)) (c.lane (call.op.lane s)) S C)
    (hok : ∀ n, f.pc = .signal n → ok = true) (hcare : call.Careful)
    (hex : Expects (c.view g s call.op) call f) :
    ∀ call' f', c'.proc s = .busy call' f' →
      call' = call ∧ Expects (c'.view g s call.op) call f' := by
  have hstaged : call.op.writes = true → Staged (g.size s) (c.ring s).buffer S.length C call f := by
    intro hw
    rw [show call.op.lane s = s from if_pos hw] at hflow
    exact hflow.writer call f (lane_writer_of_busy hp hw)
  have hlook : call.op.writes = true →
      (call.proceed (g.size (call.op.lane s)) f.pos (c.view g s call.op).avail).Meets
        (SpaceSeen call f.pos (c.view g s call.op).avail) fun _ => True := by
    intro hw
    have hin := (hstaged hw).inside
    have hle := Nat.le_trans (rawGetBufferSpace_le (g.size (call.op.lane s))
      (c.ring (call.op.lane s))) (g.size_le _)
    refine (proceed_writes hw (by omega) (hstaged hw).pos_zero ?_).mono (fun _ h => h) fun _ _ =>
      trivial
    show call.op.raw _ _ ≤ _
    rwa [Op.raw, if_pos hw]
  have hamount : ∀ n, (f.pc = .clear n ∨ f.pc = .signal n) →
      (call.streams = true → f.pos + n ≤ call.size) ∧ n ≤ 2 ^ 20 := by
    intro n hpc
    have hn : f.pc.amount = n := by rcases hpc with hpc | hpc <;> rw [hpc] <;> rfl
    cases hw : call.op.writes with
    | true =>
      have hin := (hstaged hw).inside
      have hle := Nat.le_trans (hstaged hw).amount_le (g.size_le s)
      exact ⟨fun _ => by omega, by omega⟩
    | false =>
      rw [show call.op.lane s = s.peer from if_neg (by simp [hw])] at hflow
      have hf := hflow.reader call f (lane_reader_of_busy hp hw)
      have hle : n ≤ g.size s.peer := by
        rcases hpc with hpc | hpc <;> rw [hpc] at hf <;> exact hf.2
      refine ⟨fun hs => ?_, Nat.le_trans hle (g.size_le _)⟩
      rw [streams_of_read hw] at hs
      cases hs
  have hcopy : ∀ n, (f.pc = .copyHead n ∨ ∃ j, f.pc = .copyTail n j) →
      (call.streams = true → f.pos + n ≠ call.size → (c.view g s call.op).Hushed (· ≤ n)) →
      ∀ call' f', c'.proc s = .busy call' f' →
        call' = call ∧ Expects (c'.view g s call.op) call f' := by
    intro n hpc hex
    obtain ⟨r, f', rfl, hraw, hpos, hgoes⟩ := run_copies h hpc
    have hview : (c.setRing (call.op.lane s) r).view g s call.op = c.view g s call.op := by
      rw [view_setRing_self, hraw]
      rfl
    refine next_expects ?_
    show Expects _ call f'
    rw [hview]
    unfold Expects
    obtain ⟨j, hpc'⟩ | hpc' := hgoes <;> rw [hpc', hpos] <;> exact hex
  unfold Chan.run at h
  unfold Expects at hex
  cases hpc : f.pc with
  | isOpen =>
    rw [hpc] at h hex
    cases h
    refine next_expects ?_
    split
    · cases hw : call.op.writes with
      | true =>
        rw [opened_writes hw]
        trivial
      | false =>
        refine (opened_reads hw).mono ?_ fun _ _ => trivial
        rintro f' ⟨rfl, hb⟩
        exact hex hw hb
    · trivial
  | measure =>
    rw [hpc] at h hex
    cases h
    refine next_expects ?_
    split
    · rename_i hle
      cases hw : call.op.writes with
      | true =>
        have hin := (hstaged hw).inside
        exact (hlook hw).mono
          (fun f' hf' => hf'.expects_enough hw hle (by omega) (hstaged hw).pos_zero) fun _ _ =>
            trivial
      | false =>
        refine (proceed_reads hw).mono (fun f' hf' => ?_) fun _ _ => trivial
        rw [Call.request, if_neg (by simp [streams_of_read hw])] at hle
        exact hf'.expects_enough hw hle hcare
    · trivial
  | request =>
    rw [hpc] at h
    cases h
    refine next_expects (show View.Armed _ from .inr (.inl ?_))
    simp [Chan.setNotify, Chan.view]
  | remeasure =>
    rw [hpc] at h hex
    cases h
    refine next_expects ?_
    cases hw : call.op.writes with
    | true => exact (hlook hw).mono (fun f' hf' => hf'.expects_armed hex) fun _ _ => trivial
    | false =>
      refine (proceed_reads hw).mono (fun f' hf' => ?_) fun _ _ => trivial
      exact DataSeen.expects_armed (v := c.view g s call.op) hf' hw hex
  | copyHead n =>
    rw [hpc] at hex
    exact hcopy n (.inl hpc) hex
  | copyTail n j =>
    rw [hpc] at hex
    exact hcopy n (.inr ⟨j, hpc⟩) hex
  | advance n =>
    rw [hpc] at h hex
    cases h
    refine next_expects ?_
    intro hs hne
    have hw : call.op.writes = true := by rw [(streams_eq.1 hs).1]; rfl
    have hd : call.op.lane s = s := if_pos hw
    rw [hd] at hflow
    have hraw : call.op.raw (g.size s) (call.op.advance (c.ring s) n) =
        call.op.raw (g.size s) (c.ring s) - n :=
      (raw_advance_writes (g.order_le s) hflow hpc (lane_writer_of_busy hp hw) hw).1
    obtain ⟨ha, hle⟩ := hex hs hne
    rw [view_setRing_self]
    refine ⟨ha, hle.imp id fun hle => ?_⟩
    -- the space seen is used up
    simp only [View.announced, Chan.view, hd, hraw] at hle ⊢
    omega
  | clear n =>
    obtain ⟨hin, hn⟩ := hamount n (.inl hpc)
    rw [hpc] at h hex
    cases h
    refine next_expects ?_
    rw [view_setNotify_self]
    split
    · exact hex
    · exact transferred_expects hin hn hex
  | signal n =>
    obtain ⟨hin, hn⟩ := hamount n (.inr hpc)
    rw [hpc] at h hex
    rw [hok n hpc] at h
    cases h
    refine next_expects ?_
    rw [view_setPending_peer_self]
    exact transferred_expects hin hn hex
  | wait =>
    rw [hpc] at h hex
    cases ok with
    | false =>
      cases h
      exact next_expects trivial
    | true =>
      simp only [Bool.not_true, Bool.false_eq_true, if_false] at h
      split at h
      · cases h
        exact next_expects enter_expects
      · cases h

/-! ## Runs -/

/-- Every notification succeeds, and no call is a blocking `libxenvchan_read` of no bytes. -/
def Punctual (c : Chan) : Act → Prop
  | .call _ call => call.Careful
  | .run s ok => ∀ call f, c.proc s = .busy call f → ∀ n, f.pc = .signal n → ok = true
  | .event _ => True

structure Served (g : Geometry) (c : Chan) : Prop where
  flow : ∀ d, ∃ S C, Flow (g.size d) (c.lane d) S C
  careful : ∀ s call f, c.proc s = .busy call f → call.Careful
  expects : ∀ s call f, c.proc s = .busy call f → Expects (c.view g s call.op) call f

theorem Punctual.streamsNotified (h : Punctual c a) : StreamsNotified c a := by
  cases a with
  | run s ok => exact fun call f hp _ => h call f hp
  | _ => trivial

theorem proc_next_peer : (c.next s call f nx).proc s.peer = c.proc s.peer := by
  cases nx with
  | goto f' => simp [Chan.next, update_of_ne]
  | ret r =>
    unfold Chan.next
    dsimp only
    split <;> simp [update_of_ne]

theorem run_proc_peer (h : c.run g s call f ok = .ok c') : c'.proc s.peer = c.proc s.peer := by
  obtain ⟨c₁, nx, hsame, rfl, -⟩ | ⟨r', f', rfl, -⟩ := run_cases h
  · rw [proc_next_peer, hsame.2.1]
  · rw [proc_next_peer]
    rfl

theorem Served.peer (h : Served g c) (hproc : c'.proc s.peer = c.proc s.peer)
    (hf : ∀ op, (c.view g s.peer op).Fades (c'.view g s.peer op))
    (hp : c'.proc s.peer = .busy call f) :
    call.Careful ∧ Expects (c'.view g s.peer call.op) call f := by
  rw [hproc] at hp
  exact ⟨h.careful _ _ _ hp, (h.expects _ _ _ hp).fades (hf call.op)⟩

theorem served_of_sides (hflow : ∀ d, ∃ S C, Flow (g.size d) (c.lane d) S C) (s : Side)
    (hself : ∀ call f, c.proc s = .busy call f → call.Careful ∧ Expects (c.view g s call.op) call f)
    (hpeer : ∀ call f, c.proc s.peer = .busy call f →
      call.Careful ∧ Expects (c.view g s.peer call.op) call f) : Served g c := by
  have hboth : ∀ s' call f, c.proc s' = .busy call f →
      call.Careful ∧ Expects (c.view g s' call.op) call f := by
    intro s' call f hp
    rcases s.eq_or_eq_peer s' with rfl | rfl
    · exact hself call f hp
    · exact hpeer call f hp
  exact ⟨hflow, fun s' call f hp => (hboth s' call f hp).1, fun s' call f hp =>
    (hboth s' call f hp).2⟩

theorem step_served (hg : Punctual c a) (h : c.step g a = .ok c') (hs : Served g c) :
    Served g c' := by
  have hflow : ∀ d, ∃ S C, Flow (g.size d) (c'.lane d) S C := by
    intro d
    obtain ⟨S, C, hf⟩ := hs.flow d
    obtain ⟨S', C', hf', -⟩ := step_keeps h hg.streamsNotified hf
    exact ⟨S', C', hf'⟩
  cases a with
  | event s =>
    cases h
    refine served_of_sides hflow s (fun call f hp => ?_) fun call f hp => ?_
    · refine ⟨hs.careful s call f hp, (hs.expects s call f hp).fades (.of_pending ?_)⟩
      simp [Chan.setPending, Chan.view]
    · exact hs.peer rfl (fun op => by rw [view_setPending_peer]; exact .refl _) hp
  | call s call =>
    obtain ⟨hidle, rfl⟩ := step_call (f := ⟨.wait, 0, []⟩) h
    refine served_of_sides hflow s (fun call' f' hp => ?_) fun call' f' hp => ?_
    · have hnx : (Next.goto (call.enter 0)).Meets (Expects (c.view g s call.op) call)
          fun _ => True := enter_expects
      obtain ⟨rfl, hex⟩ := next_expects hnx call' f' hp
      exact ⟨hg, hex⟩
    · have hopp : ∀ op, (c.view g s.peer op).opposite = none := by
        intro op
        simp [Chan.view, hidle, Proc.telling]
      refine hs.peer proc_next_peer (fun op => ?_) hp
      refine .of_quiet (by rw [hopp]; rfl) fun n hn => ?_
      rw [hopp] at hn
      cases hn
  | run s ok =>
    obtain ⟨call, f, hp, hrun⟩ := step_run h
    obtain ⟨S, C, hf⟩ := hs.flow (call.op.lane s)
    have hok := hg call f hp
    refine served_of_sides hflow s (fun call' f' hp' => ?_) fun call' f' hp' => ?_
    · obtain ⟨rfl, hex⟩ := run_expects hp hrun hf hok (hs.careful s call f hp)
        (hs.expects s call f hp) call' f' hp'
      exact ⟨hs.careful s _ f hp, hex⟩
    · exact hs.peer (run_proc_peer hrun) (run_fades hp hrun hf hok) hp'

theorem initial_served (hinit : Initial c) : Served g c := by
  refine ⟨fun d => ⟨[], 0, initial_flow hinit d⟩, ?_, ?_⟩ <;>
  · intro s call f hp
    rw [hinit.proc] at hp
    cases hp

def Proc.waits : Proc → Option Call
  | .idle => none
  | .busy call f => if f.pc = .wait then some call else none

/-- The side is blocked in `libxenvchan_wait` and has no event. -/
def Asleep (c : Chan) (s : Side) (call : Call) : Prop :=
  (c.proc s).waits = some call ∧ c.pending s = false

structure Attended (v : View) (call : Call) : Prop where
  lacks : call.Lacks v.announced
  asked : v.asked = true ∨ v.Between

/-- **A side that sleeps** has its request bit set, or its peer is about to call `send_notify`, and
what it waits for is not there, in every run in which the notifications succeed and no blocking
`libxenvchan_read` of no bytes is made. -/
theorem asleep_is_attended {c₀ : Chan} (hinit : Initial c₀)
    (run : Reaches (Chan.step g) Punctual c₀ c) (h : Asleep c s call) :
    Attended (c.view g s call.op) call ∧
      (¬ (c.view g s call.op).Between → call.Lacks (c.view g s call.op).avail) := by
  have hserved : Served g c :=
    run.invariant (P := Served g) (fun _ _ _ hg hstep hs => step_served hg hstep hs)
      (initial_served hinit)
  obtain ⟨hwaits, hpend⟩ := h
  cases hp : c.proc s with
  | idle => rw [hp] at hwaits; cases hwaits
  | busy call' f =>
    rw [hp, Proc.waits] at hwaits
    split at hwaits
    · cases hwaits
      rename_i hpc
      have hex := hserved.expects s call f hp
      unfold Expects at hex
      rw [hpc] at hex
      have hlacks : call.Lacks (c.view g s call.op).announced := by
        rcases hex.2 with hp' | hl
        · rw [show (c.view g s call.op).pending = c.pending s from rfl, hpend] at hp'
          cases hp'
        · exact hl
      refine ⟨⟨hlacks, hex.1.asked_or_between hpend⟩, fun hb => ?_⟩
      rwa [View.announced_of_not_between hb] at hlacks
    · cases hwaits

def sleepRun : List Act :=
  .call .server (readUpTo 5 five_lt_size) :: List.replicate 4 (.run .server true)

theorem asleep_is_attended_read :
    ∃ c call, sleepRun.foldlM (Chan.step smallRings) freshChan = .ok c ∧ Asleep c .server call ∧
      Attended (c.view smallRings .server call.op) call := by
  obtain ⟨c, hc, hwaits, hpend⟩ : ∃ c, sleepRun.foldlM (Chan.step smallRings) freshChan = .ok c ∧
      (c.proc .server).waits.isSome = true ∧ c.pending .server = false := by
    decide +kernel
  obtain ⟨call, hcall⟩ := Option.isSome_iff_exists.1 hwaits
  refine ⟨c, call, hc, ⟨hcall, hpend⟩,
    (asleep_is_attended initial_freshChan (.of_foldlM (fun a ha c => ?_) hc) ⟨hcall, hpend⟩).1⟩
  simp only [sleepRun, List.mem_cons, List.mem_replicate] at ha
  rcases ha with rfl | ⟨-, rfl⟩
  · exact fun _ _ => by decide
  · exact fun _ _ _ _ _ => rfl

def writeOne : Call := { writeTwo with size := 1, size_lt := one_lt_size }

/-- The client writes a byte and the server reads it; the server reads no bytes, and waits again;
the client writes another byte. -/
def emptyReadRun : List Act :=
  .call .client writeOne :: List.replicate 6 (Act.run .client true) ++
  .call .server (readUpTo 1 one_lt_size) :: List.replicate 4 (Act.run .server true) ++
  .call .server (readUpTo 0 (by decide)) :: List.replicate 5 (Act.run .server true) ++
  .call .client writeOne :: List.replicate 5 (Act.run .client true)

/-- A blocking `libxenvchan_read` of no bytes sleeps with data there and nobody to wake it. -/
theorem empty_read_sleeps :
    ∃ c call, emptyReadRun.foldlM (Chan.step smallRings) freshChan = .ok c ∧ Asleep c .server call ∧
      (c.view smallRings .server call.op).avail = 1 ∧
      (c.view smallRings .server call.op).opposite = none ∧
      ¬ Attended (c.view smallRings .server call.op) call := by
  obtain ⟨c, hc, hwaits, hpend, havail, hopp, hasked⟩ :
      ∃ c, emptyReadRun.foldlM (Chan.step smallRings) freshChan = .ok c ∧
        (c.proc .server).waits.map (·.op) = some .read ∧ c.pending .server = false ∧
        (c.view smallRings .server .read).avail = 1 ∧
        (c.view smallRings .server .read).opposite = none ∧
        (c.view smallRings .server .read).asked = false := by
    decide +kernel
  obtain ⟨call, hcall, hop⟩ := Option.map_eq_some_iff.1 hwaits
  rw [← hop] at havail hopp hasked
  refine ⟨c, call, hc, ⟨hcall, hpend⟩, havail, hopp, fun h => ?_⟩
  rcases h.asked with ha | ⟨n, hn⟩
  · rw [hasked] at ha
    cases ha
  · rw [hopp] at hn
    rcases hn with hn | hn <;> cases hn

end XenVmi.Vchan
