import XenVmi.Vchan.Calls

/-!
# One direction of a vchan

`Chan.lane` is what a vchan is for one of its rings: the ring, the calls that write and read it, and
what they have returned. A step of a side is one of the steps of `Local`, which leave the rings
alone, or one of `Moves`, and changes only the lane its call works on.
-/

namespace XenVmi.Vchan

open Function XenVmi.Lib

variable {g : Geometry} {c c' : Chan} {s d : Side} {call : Call} {f : Frame} {ok : Bool} {N : ℕ}

@[simp] theorem Side.peer_peer (s : Side) : s.peer.peer = s := by cases s <;> rfl

@[simp] theorem Side.peer_ne (s : Side) : s.peer ≠ s := by cases s <;> decide

@[simp] theorem Side.ne_peer (s : Side) : s ≠ s.peer := by cases s <;> decide

theorem Side.eq_or_eq_peer (s d : Side) : d = s ∨ d = s.peer := by cases s <;> cases d <;> decide

/-! ## The view of one ring -/

structure Lane where
  ring : Ring
  writer : Option (Call × Frame)
  reader : Option (Call × Frame)
  sent : List Sent
  received : List Received

def Proc.writing : Proc → Option (Call × Frame)
  | .idle => none
  | .busy call f => if call.op.writes then some (call, f) else none

def Proc.reading : Proc → Option (Call × Frame)
  | .idle => none
  | .busy call f => if call.op.writes then none else some (call, f)

def Chan.lane (c : Chan) (d : Side) : Lane where
  ring := c.ring d
  writer := (c.proc d).writing
  reader := (c.proc d.peer).reading
  sent := c.sent d
  received := c.received d.peer

namespace Lane

def writerNext (l : Lane) (call : Call) : Next → Lane
  | .goto f => { l with writer := some (call, f) }
  | .ret r => { l with writer := none, sent := l.sent ++ [⟨call, some r⟩] }

def readerNext (l : Lane) (call : Call) (f : Frame) : Next → Lane
  | .goto f' => { l with reader := some (call, f') }
  | .ret r => { l with reader := none, received := l.received ++ [⟨f.got, r⟩] }

def setRing (l : Lane) (r : Ring) : Lane := { l with ring := r }

end Lane

theorem lane_next_writes (hw : call.op.writes = true) (nx : Next) :
    (c.next s call f nx).lane s = (c.lane s).writerNext call nx := by
  cases nx <;>
    simp [Chan.next, Chan.lane, Lane.writerNext, Proc.writing, hw, update_of_ne]

theorem lane_next_reads (hw : call.op.writes = false) (nx : Next) :
    (c.next s call f nx).lane s.peer = (c.lane s.peer).readerNext call f nx := by
  cases nx <;>
    simp [Chan.next, Chan.lane, Lane.readerNext, Proc.reading, hw, update_of_ne]

theorem lane_next_other (hp : c.proc s = .busy call f) (nx : Next) :
    (c.next s call f nx).lane (call.op.lane s).peer = c.lane (call.op.lane s).peer := by
  cases hw : call.op.writes <;> cases nx <;>
    simp [Chan.next, Chan.lane, Op.lane, Proc.writing, Proc.reading, hw, hp, update_of_ne]

theorem lane_call_other {f' : Frame} (hp : c.proc s = .idle) :
    (c.next s call f (.goto f')).lane (call.op.lane s).peer = c.lane (call.op.lane s).peer := by
  cases hw : call.op.writes <;>
    simp [Chan.next, Chan.lane, Op.lane, Proc.writing, Proc.reading, hw, hp, update_of_ne]

@[simp] theorem lane_setRing_self (r : Ring) : (c.setRing d r).lane d = (c.lane d).setRing r := by
  simp [Chan.setRing, Chan.lane, Lane.setRing]

@[simp] theorem lane_setRing_peer (r : Ring) : (c.setRing d r).lane d.peer = c.lane d.peer := by
  simp [Chan.setRing, Chan.lane, update_of_ne]

/-! ## What a step can do -/

inductive Local (N : ℕ) (r : Ring) (call : Call) (f : Frame) (ok : Bool) : Next → Prop
  | closed (h : f.pc = .isOpen) : Local N r call f ok (.ret (-1))
  | opened (h : f.pc = .isOpen) : Local N r call f ok (call.opened N f.pos)
  | enough (h : f.pc = .measure) (hle : call.request f.pos ≤ call.op.raw N r) :
      Local N r call f ok (call.proceed N f.pos (call.op.raw N r))
  | short (h : f.pc = .measure) : Local N r call f ok (.goto { f with pc := .request })
  | requested (h : f.pc = .request) : Local N r call f ok (.goto { f with pc := .remeasure })
  | remeasured (h : f.pc = .remeasure) :
      Local N r call f ok (call.proceed N f.pos (call.op.raw N r))
  | taken (n : ℕ) (h : f.pc = .clear n) : Local N r call f ok (.goto { f with pc := .signal n })
  | quiet (n : ℕ) (h : f.pc = .clear n) : Local N r call f ok (call.transferred f.pos (toInt n))
  | signalled (n : ℕ) (h : f.pc = .signal n) (hok : ok = true) :
      Local N r call f ok (call.transferred f.pos (toInt n))
  | unsignalled (n : ℕ) (h : f.pc = .signal n) (hok : ok = false) :
      Local N r call f ok (call.transferred f.pos (-1))
  | failed (h : f.pc = .wait) : Local N r call f ok (.ret (-1))
  | woken (h : f.pc = .wait) : Local N r call f ok (.goto (call.enter f.pos))

/-- The steps on a ring: a `memcpy`, or the update of an index. -/
inductive Moves (N : ℕ) (r : Ring) (call : Call) (f : Frame) : Ring → Frame → Prop
  | head (n : ℕ) (h : f.pc = .copyHead n) (hlt : N - call.op.realIdx N r < n) :
      Moves N r call f
        (call.memcpy r f.got (call.op.realIdx N r) f.pos (N - call.op.realIdx N r)).1
        ⟨.copyTail n (N - call.op.realIdx N r), f.pos,
          (call.memcpy r f.got (call.op.realIdx N r) f.pos (N - call.op.realIdx N r)).2⟩
  | all (n : ℕ) (h : f.pc = .copyHead n) (hle : n ≤ N - call.op.realIdx N r) :
      Moves N r call f (call.memcpy r f.got (call.op.realIdx N r) f.pos n).1
        ⟨.advance n, f.pos, (call.memcpy r f.got (call.op.realIdx N r) f.pos n).2⟩
  | tail (n k : ℕ) (h : f.pc = .copyTail n k) :
      Moves N r call f (call.memcpy r f.got 0 (f.pos + k) (n - k)).1
        ⟨.advance n, f.pos, (call.memcpy r f.got 0 (f.pos + k) (n - k)).2⟩
  | advance (n : ℕ) (h : f.pc = .advance n) :
      Moves N r call f (call.op.advance r n) { f with pc := .clear n }

def SameLanes (c c' : Chan) : Prop :=
  c'.ring = c.ring ∧ c'.proc = c.proc ∧ c'.sent = c.sent ∧ c'.received = c.received

theorem sameLanes_refl (c : Chan) : SameLanes c c := ⟨rfl, rfl, rfl, rfl⟩

theorem sameLanes_setNotify (b : NotifyBit) (v : Bool) : SameLanes c (c.setNotify s b v) :=
  ⟨rfl, rfl, rfl, rfl⟩

theorem sameLanes_setPending (v : Bool) : SameLanes c (c.setPending s v) := ⟨rfl, rfl, rfl, rfl⟩

theorem SameLanes.lane (h : SameLanes c c') (d : Side) : c'.lane d = c.lane d := by
  simp only [Chan.lane, h.1, h.2.1, h.2.2.1, h.2.2.2]

theorem run_cases (h : c.run g s call f ok = .ok c') :
    (∃ c₁ nx, SameLanes c c₁ ∧ c' = c₁.next s call f nx ∧
      Local (g.size (call.op.lane s)) (c.ring (call.op.lane s)) call f ok nx) ∨
    ∃ r' f', c' = (c.setRing (call.op.lane s) r').next s call f (.goto f') ∧
      Moves (g.size (call.op.lane s)) (c.ring (call.op.lane s)) call f r' f' := by
  unfold Chan.run at h
  cases hpc : f.pc with
  | isOpen =>
    rw [hpc] at h
    cases h
    refine .inl ⟨c, _, sameLanes_refl c, rfl, ?_⟩
    split
    · exact .opened hpc
    · exact .closed hpc
  | measure =>
    rw [hpc] at h
    cases h
    refine .inl ⟨c, _, sameLanes_refl c, rfl, ?_⟩
    split
    · exact .enough hpc ‹_›
    · exact .short hpc
  | request =>
    rw [hpc] at h
    cases h
    exact .inl ⟨_, _, sameLanes_setNotify _ _, rfl, .requested hpc⟩
  | remeasure =>
    rw [hpc] at h
    cases h
    exact .inl ⟨c, _, sameLanes_refl c, rfl, .remeasured hpc⟩
  | copyHead n =>
    rw [hpc] at h
    cases h
    refine .inr ⟨_, _, rfl, ?_⟩
    rcases Nat.lt_or_ge (g.size (call.op.lane s) -
      call.op.realIdx (g.size (call.op.lane s)) (c.ring (call.op.lane s))) n with hlt | hle
    · rw [min_eq_left hlt.le, if_pos hlt]
      exact .head n hpc hlt
    · rw [min_eq_right hle, if_neg (Nat.lt_irrefl n)]
      exact .all n hpc hle
  | copyTail n k =>
    rw [hpc] at h
    cases h
    exact .inr ⟨_, _, rfl, .tail n k hpc⟩
  | advance n =>
    rw [hpc] at h
    cases h
    exact .inr ⟨_, _, rfl, .advance n hpc⟩
  | clear n =>
    rw [hpc] at h
    cases h
    refine .inl ⟨_, _, sameLanes_setNotify _ _, rfl, ?_⟩
    split
    · exact .taken n hpc
    · exact .quiet n hpc
  | signal n =>
    rw [hpc] at h
    cases ok with
    | true =>
      cases h
      exact .inl ⟨_, _, sameLanes_setPending _, rfl, .signalled n hpc rfl⟩
    | false =>
      cases h
      exact .inl ⟨c, _, sameLanes_refl c, rfl, .unsignalled n hpc rfl⟩
  | wait =>
    rw [hpc] at h
    cases ok with
    | false =>
      cases h
      exact .inl ⟨c, _, sameLanes_refl c, rfl, .failed hpc⟩
    | true =>
      simp only [Bool.not_true, Bool.false_eq_true, if_false] at h
      split at h
      · cases h
        exact .inl ⟨_, _, sameLanes_setPending _, rfl, .woken hpc⟩
      · cases h

theorem step_call (h : c.step g (.call s call) = .ok c') :
    c.proc s = .idle ∧ c' = c.next s call f (.goto (call.enter 0)) := by
  simp only [Chan.step] at h
  split at h
  · cases h
    exact ⟨‹_›, rfl⟩
  · cases h

theorem step_run (h : c.step g (.run s ok) = .ok c') :
    ∃ call f, c.proc s = .busy call f ∧ c.run g s call f ok = .ok c' := by
  simp only [Chan.step] at h
  split at h
  · cases h
  · exact ⟨_, _, ‹_›, h⟩

theorem run_lane_other (hp : c.proc s = .busy call f) (h : c.run g s call f ok = .ok c') :
    c'.lane (call.op.lane s).peer = c.lane (call.op.lane s).peer := by
  obtain ⟨c₁, nx, hsame, rfl, -⟩ | ⟨r', f', rfl, -⟩ := run_cases h
  · rw [lane_next_other (hsame.2.1 ▸ hp), hsame.lane]
  · have hp' : (c.setRing (call.op.lane s) r').proc s = .busy call f := hp
    rw [lane_next_other hp', lane_setRing_peer]

/-! ## Sizes -/

theorem toInt_of_lt {x : ℕ} (h : x < 2 ^ 31) : toInt x = x := by
  unfold toInt
  rw [Nat.mod_eq_of_lt (by omega), if_pos h]

theorem toSize_natCast {x : ℕ} (h : x < 2 ^ 64) : toSize x = x := by
  unfold toSize
  omega

theorem subSize_of_le {x y : ℕ} (h : y ≤ x) (hx : x < 2 ^ 64) : subSize x y = x - y := by
  unfold subSize
  omega

theorem addSize_of_lt {x y : ℕ} (h : x + y < 2 ^ 64) : addSize x y = x + y := Nat.mod_eq_of_lt h

theorem Geometry.size_le (g : Geometry) (s : Side) : g.size s ≤ 2 ^ 20 :=
  Nat.pow_le_pow_right (by decide) (g.order_le s)

namespace Call

@[simp] theorem length_bytes (pos n : ℕ) : (call.bytes pos n).length = n := by simp [bytes]

theorem bytes_append (pos k n : ℕ) (h : k ≤ n) :
    call.bytes pos k ++ call.bytes (pos + k) (n - k) = call.bytes pos n := by
  obtain ⟨m, rfl⟩ := Nat.exists_eq_add_of_le h
  rw [Nat.add_sub_cancel_left]
  unfold bytes
  rw [List.range_add, List.map_append, List.map_map]
  simp only [comp_def, Nat.add_assoc]

theorem given_take_add {pos n : ℕ} (h : pos + n ≤ call.size) :
    call.given.take (pos + n) = call.given.take pos ++ call.bytes pos n := by
  have hpos : call.given.take pos = call.bytes 0 pos := by
    unfold given
    rw [← call.bytes_append 0 pos call.size (by omega), List.take_left' (by simp)]
  have hall : call.given.take (pos + n) = call.bytes 0 (pos + n) := by
    unfold given
    rw [← call.bytes_append 0 (pos + n) call.size h, List.take_left' (by simp)]
  have happ := call.bytes_append 0 pos (pos + n) (by omega)
  rw [Nat.zero_add, Nat.add_sub_cancel_left] at happ
  rw [hpos, hall, happ]

end Call

end XenVmi.Vchan
