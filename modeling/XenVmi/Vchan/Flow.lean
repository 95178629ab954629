import XenVmi.Vchan.Lanes

/-!
# What the indices of a ring mean

`Flow`: `prod` and `cons` are the low 32 bits of how many bytes have been published (`S`) and taken
(`C`), and the ring holds the bytes between the two, as long as no notification of a blocking
`libxenvchan_write` fails.
-/

namespace XenVmi.Vchan

open XenVmi.Lib List

variable {g : Geometry} {c c' : Chan} {s d : Side} {call : Call} {f f' : Frame} {ok : Bool}
  {N C k p : ℕ} {S : List UInt8} {l : Lane} {r r' : Ring} {nx : Next} {buffer : ℕ → UInt8}

/-! ## What a call does next -/

/-- The bytes that `do_send`, `do_recv` has been called for. -/
def Pc.amount : Pc → ℕ
  | .copyHead n | .copyTail n _ | .advance n | .clear n | .signal n => n
  | _ => 0

def Pc.moved : Pc → ℕ
  | .clear n | .signal n => n
  | _ => 0

def Next.Meets (P : Frame → Prop) (Q : ℤ → Prop) : Next → Prop
  | .goto f => P f
  | .ret r => Q r

theorem Next.Meets.mono {P P' : Frame → Prop} {Q Q' : ℤ → Prop} (h : nx.Meets P Q)
    (hP : ∀ f, P f → P' f) (hQ : ∀ r, Q r → Q' r) : nx.Meets P' Q' := by
  cases nx with
  | goto f => exact hP f h
  | ret r => exact hQ r h

def Call.Lacks (call : Call) (avail : ℕ) : Prop :=
  match call.op with
  | .send | .recv => avail < call.size
  | .write | .read => avail = 0

/-- A result that tells how many bytes a writing call has published, if it is not an error. -/
def Call.Settles (call : Call) (m : ℕ) (r : ℤ) : Prop :=
  (call.streams = true → call.size < 2 ^ 32) → 0 ≤ r → r = m

theorem settles_neg (m : ℕ) : call.Settles m (-1) := by
  intro _ h
  omega

theorem streams_eq : call.streams = true ↔ call.op = .write ∧ call.blocking = true := by
  simp [Call.streams]

theorem streams_of_read (hw : call.op.writes = false) : call.streams = false := by
  cases hs : call.streams with
  | false => rfl
  | true => rw [(streams_eq.1 hs).1] at hw; cases hw

theorem toInt_eq_of_nonneg {x : ℕ} (hx : x < 2 ^ 32) (h : 0 ≤ toInt x) : toInt x = x := by
  unfold toInt at h ⊢
  split at h <;> omega

variable {pos avail n : ℕ} {pc : Pc} {xs : List UInt8}

theorem loopEnd_meets (hs : call.streams = true) :
    (call.loopEnd pos).Meets (fun f => f = ⟨.wait, pos, []⟩ ∧ pos ≠ call.size)
      (call.Settles pos) := by
  unfold Call.loopEnd
  split
  · rename_i h
    intro hsize hr
    exact toInt_eq_of_nonneg (h ▸ hsize hs) hr
  · exact ⟨rfl, ‹_›⟩

structure SpaceSeen (call : Call) (pos avail : ℕ) (f : Frame) : Prop where
  pos_eq : f.pos = pos
  goes : (f.pc = .wait ∧ call.Lacks avail ∧ (call.op = .write → pos ≠ call.size)) ∨
    ∃ n, f.pc = .copyHead n ∧ n ≤ avail ∧ pos + n ≤ call.size ∧
      -- a write that is not through takes all the space there is
      (call.streams = true → pos + n ≠ call.size → n = avail)

theorem clamp_eq (hpos : pos ≤ call.size) (havail : avail ≤ 2 ^ 20) :
    (if call.size < addSize pos avail then toInt (subSize call.size pos) else (avail : ℤ)) =
      (min avail (call.size - pos) : ℕ) := by
  have hsize := call.size_lt
  rw [addSize_of_lt (by omega), subSize_of_le hpos (by omega)]
  split
  · rw [toInt_of_lt (by omega), min_eq_right (by omega)]
  · rw [min_eq_left (by omega)]

theorem proceed_writes (hw : call.op.writes = true) (hpos : pos ≤ call.size)
    (hzero : call.streams = false → pos = 0) (havail : avail ≤ 2 ^ 20) :
    (call.proceed N pos avail).Meets (SpaceSeen call pos avail) (call.Settles pos) := by
  unfold Call.proceed
  cases hop : call.op with
  | read | recv => rw [hop] at hw; cases hw
  | send =>
    have hst : call.streams = false := by simp [Call.streams, hop]
    rw [hzero hst]
    simp only
    split
    · exact ⟨rfl, .inr ⟨_, rfl, ‹_›, by omega, fun h => by rw [hst] at h; cases h⟩⟩
    split
    · intro _ _; rfl
    · split
      · exact settles_neg _
      · exact ⟨rfl, .inl ⟨rfl, by simp only [Call.Lacks, hop]; omega,
          fun h => by rw [hop] at h; cases h⟩⟩
  | write =>
    simp only
    split
    · rename_i hb
      have hst : call.streams = true := streams_eq.2 ⟨hop, hb⟩
      rw [clamp_eq hpos havail, toSize_natCast (by omega)]
      split
      · refine ⟨rfl, .inr ⟨_, rfl, Nat.min_le_left _ _, by omega, fun _ _ => by omega⟩⟩
      · refine (loopEnd_meets hst).mono ?_ fun _ h => h
        rintro f ⟨rfl, hne⟩
        exact ⟨rfl, .inl ⟨rfl, by simp only [Call.Lacks, hop]; omega, fun _ => hne⟩⟩
    · rename_i hb
      have hst : call.streams = false := by simp [Call.streams, hb]
      have hmin : (if avail < call.size then avail else call.size) = min avail call.size := by
        split <;> omega
      rw [hzero hst, hmin]
      split
      · intro _ _; rfl
      · exact ⟨rfl, .inr ⟨_, rfl,
          Nat.min_le_left _ _, by omega, fun h => by rw [hst] at h; cases h⟩⟩

structure DataSeen (call : Call) (pos avail : ℕ) (f : Frame) : Prop where
  got : f.got = []
  goes : (f.pc = .isOpen ∧ call.Lacks avail) ∨ ∃ n, f.pc = .copyHead n ∧ n ≤ avail

theorem proceed_reads (hw : call.op.writes = false) :
    (call.proceed N pos avail).Meets (DataSeen call pos avail) fun _ => False := by
  unfold Call.proceed
  cases hop : call.op with
  | write | send => rw [hop] at hw; cases hw
  | recv =>
    simp only
    split
    · exact ⟨rfl, .inr ⟨_, rfl, ‹_›⟩⟩
    · exact ⟨rfl, .inl ⟨rfl, by simp only [Call.Lacks, hop]; omega⟩⟩
  | read =>
    simp only
    split
    · refine ⟨rfl, .inr ⟨_, rfl, ?_⟩⟩
      split <;> omega
    · exact ⟨rfl, .inl ⟨rfl, by simp only [Call.Lacks, hop]; omega⟩⟩

theorem opened_reads (hw : call.op.writes = false) :
    (call.opened N pos).Meets (fun f => f = ⟨.wait, pos, []⟩ ∧ call.blocking = true)
      fun r => r = 0 ∨ r = -1 := by
  unfold Call.opened
  cases hop : call.op with
  | write | send => rw [hop] at hw; cases hw
  | recv =>
    simp only
    split
    · exact .inl rfl
    · split
      · exact .inr rfl
      · exact ⟨rfl, by simp_all⟩
  | read =>
    simp only
    split
    · exact .inl rfl
    · exact ⟨rfl, by simp_all⟩

theorem opened_writes (hw : call.op.writes = true) :
    call.opened N pos = .goto ⟨.measure, pos, []⟩ := by
  unfold Call.opened
  cases hop : call.op with
  | write => rfl
  | send => rfl
  | read | recv => rw [hop] at hw; cases hw

theorem transferred_writes (hpos : pos + n ≤ call.size) (hn : n ≤ 2 ^ 20)
    (hzero : call.streams = false → pos = 0) :
    (call.transferred pos (toInt n)).Meets
      (fun f => f = ⟨.wait, pos + n, []⟩ ∧ call.streams = true ∧ pos + n ≠ call.size)
      (call.Settles (pos + n)) := by
  have hsize := call.size_lt
  unfold Call.transferred
  rw [toInt_of_lt (by omega)]
  split
  · rename_i hs
    rw [toSize_natCast (by omega), addSize_of_lt (by omega)]
    exact (loopEnd_meets hs).mono (fun f h => ⟨h.1, hs, h.2⟩) fun _ h => h
  · rename_i hs
    intro _ _
    rw [hzero (by simpa using hs), Nat.zero_add]

/-! ## The invariant of one direction -/

def Copied (N : ℕ) (buffer : ℕ → UInt8) (p C : ℕ) (call : Call) (pos : ℕ) : Pc → Prop
  | .copyHead n => p + n ≤ C + N
  | .copyTail n k => p + n ≤ C + N ∧ k = N - p % N ∧ k < n ∧ RingHolds N buffer p (call.bytes pos k)
  | .advance n => p + n ≤ C + N ∧ RingHolds N buffer p (call.bytes pos n)
  | _ => True

/-- A writing call, `p` bytes being published and `C` bytes taken. -/
structure Staged (N : ℕ) (buffer : ℕ → UInt8) (p C : ℕ) (call : Call) (f : Frame) : Prop where
  inside : f.pos + f.pc.amount ≤ call.size
  amount_le : f.pc.amount ≤ N
  pos_zero : call.streams = false → f.pos = 0
  copied : Copied N buffer p C call f.pos f.pc

def Fetched (N : ℕ) (S : List UInt8) (C : ℕ) (got : List UInt8) : Pc → Prop
  | .copyHead n => C + n ≤ S.length ∧ n ≤ N ∧ got = []
  | .copyTail n k => C + n ≤ S.length ∧ n ≤ N ∧ k = N - C % N ∧ k < n ∧ got = (S.drop C).take k
  | .advance n => C + n ≤ S.length ∧ n ≤ N ∧ got = (S.drop C).take n
  | .clear n | .signal n => got.length = n ∧ n ≤ N
  | _ => got = []

/-- `S` has been published in this direction and its first `C` bytes have been taken. -/
structure Flow (N : ℕ) (l : Lane) (S : List UInt8) (C : ℕ) : Prop where
  prod : l.ring.prod = BitVec.ofNat 32 S.length
  cons : l.ring.cons = BitVec.ofNat 32 C
  le : C ≤ S.length
  fits : S.length ≤ C + N
  held : RingHolds N l.ring.buffer C (S.drop C)
  writer : ∀ call f, l.writer = some (call, f) → Staged N l.ring.buffer S.length C call f
  reader : ∀ call f, l.reader = some (call, f) → Fetched N S C f.got f.pc

section Counts

variable (hk : k ≤ 20) (hprod : r.prod = BitVec.ofNat 32 p) (hcons : r.cons = BitVec.ofNat 32 C)
  (hle : C ≤ p) (hfits : p ≤ C + 2 ^ k)

include hk hprod hcons hle hfits

theorem rawGetDataReady_eq : rawGetDataReady (2 ^ k) r = p - C := by
  have hpow : 2 ^ k ≤ 2 ^ 20 := Nat.pow_le_pow_right (by decide) hk
  unfold rawGetDataReady
  rw [hprod, hcons, counter_sub hle (by omega)]
  exact if_neg (by omega)

theorem rawGetBufferSpace_eq : rawGetBufferSpace (2 ^ k) r = C + 2 ^ k - p := by
  have hpow : 2 ^ k ≤ 2 ^ 20 := Nat.pow_le_pow_right (by decide) hk
  have hsub : (BitVec.ofNat 32 (2 ^ k) - (r.prod - r.cons)).toNat = C + 2 ^ k - p := by
    rw [BitVec.toNat_sub, hprod, hcons, counter_sub hle (by omega), BitVec.toNat_ofNat]
    omega
  unfold rawGetBufferSpace
  rw [hsub]
  exact if_neg (by omega)

end Counts

namespace Flow

variable (h : Flow (2 ^ k) l S C)

include h

theorem ready (hk : k ≤ 20) : rawGetDataReady (2 ^ k) l.ring = S.length - C :=
  rawGetDataReady_eq hk h.prod h.cons h.le h.fits

theorem space (hk : k ≤ 20) : rawGetBufferSpace (2 ^ k) l.ring = C + 2 ^ k - S.length :=
  rawGetBufferSpace_eq hk h.prod h.cons h.le h.fits

theorem realIdx_writes (hk : k ≤ 20) (hw : call.op.writes = true) :
    call.op.realIdx (2 ^ k) l.ring = S.length % 2 ^ k := by
  unfold Op.realIdx
  rw [if_pos hw, h.prod, counter_cell (by omega)]

theorem realIdx_reads (hk : k ≤ 20) (hw : call.op.writes = false) :
    call.op.realIdx (2 ^ k) l.ring = C % 2 ^ k := by
  unfold Op.realIdx
  rw [if_neg (by simp [hw]), h.cons, counter_cell (by omega)]

omit h

/-! ### Steps of the writer -/

theorem writer_next (h : Flow N l S C)
    (hnx : nx.Meets (Staged N l.ring.buffer S.length C call) fun _ => True) :
    Flow N (l.writerNext call nx) S C := by
  cases nx with
  | goto f =>
    refine ⟨h.prod, h.cons, h.le, h.fits, h.held, ?_, h.reader⟩
    intro call' f' heq
    cases heq
    exact hnx
  | ret r =>
    refine ⟨h.prod, h.cons, h.le, h.fits, h.held, ?_, h.reader⟩
    intro call' f' heq
    cases heq

end Flow

theorem staged_of_amount (hpos : f.pos ≤ call.size) (hzero : call.streams = false → f.pos = 0)
    (hpc : f.pc.amount = 0) (hcopied : Copied N buffer p C call f.pos f.pc) :
    Staged N buffer p C call f :=
  ⟨by omega, by omega, hzero, hcopied⟩

theorem SpaceSeen.staged (h : SpaceSeen call pos avail f) (hpos : pos ≤ call.size)
    (hzero : call.streams = false → pos = 0) (havail : p + avail = C + N) (hp : C ≤ p) :
    Staged N buffer p C call f := by
  obtain ⟨heq, ⟨hpc, -⟩ | ⟨n, hpc, hle, hin, -⟩⟩ := h
  · refine staged_of_amount (by omega) (fun hs => heq ▸ hzero hs) (by rw [hpc]; rfl) ?_
    rw [hpc]
    trivial
  refine ⟨?_, ?_, fun hs => heq ▸ hzero hs, ?_⟩ <;> rw [hpc]
  · rwa [heq]
  · show n ≤ N
    omega
  · show p + n ≤ C + N
    omega

/-- The notifications of a blocking `libxenvchan_write` succeed. -/
def StreamNotified (call : Call) (f : Frame) (ok : Bool) : Prop :=
  call.streams = true → ∀ n, f.pc = .signal n → ok = true

def Call.published (f : Frame) : ℕ := f.pos + f.pc.moved

theorem Local.writer (hl : Local N r call f ok nx) (hw : call.op.writes = true)
    (hs : Staged N buffer p C call f) (hraw : rawGetBufferSpace N r = C + N - p) (hp : C ≤ p)
    (hfits : p ≤ C + N) (hN : N ≤ 2 ^ 20) (hok : StreamNotified call f ok) :
    nx.Meets
      (fun f' => Staged N buffer p C call f' ∧ Call.published f' = Call.published f)
      (call.Settles (Call.published f)) := by
  have hin := hs.inside
  have hle := hs.amount_le
  have hseen : f.pc.moved = 0 →
      (call.proceed N f.pos (call.op.raw N r)).Meets
        (fun f' => Staged N buffer p C call f' ∧ Call.published f' = Call.published f)
        (call.Settles (Call.published f)) := by
    intro hm
    have hraw' : call.op.raw N r = C + N - p := by
      unfold Op.raw
      rw [if_pos hw, hraw]
    unfold Call.published
    rw [hm]
    refine (proceed_writes hw (by omega) hs.pos_zero (by omega)).mono (fun f' h => ?_) fun _ h => h
    refine ⟨h.staged (by omega) hs.pos_zero (by omega) hp, ?_⟩
    obtain ⟨heq, ⟨hpc, -⟩ | ⟨n, hpc, -⟩⟩ := h <;> rw [hpc, heq] <;> rfl
  have hdone : ∀ n, f.pc.amount = n → f.pc.moved = n →
      (call.transferred f.pos (toInt n)).Meets
        (fun f' => Staged N buffer p C call f' ∧ Call.published f' = Call.published f)
        (call.Settles (Call.published f)) := by
    intro n hn hm
    unfold Call.published
    rw [hm]
    refine (transferred_writes (by omega) (by omega) hs.pos_zero).mono ?_ fun _ h => h
    rintro f' ⟨rfl, hst, -⟩
    refine ⟨staged_of_amount (show f.pos + n ≤ call.size by omega) (fun h => ?_) rfl trivial, rfl⟩
    rw [hst] at h
    cases h
  have hplain : ∀ f' : Frame, f'.pos = f.pos → f'.pc.amount = 0 → f.pc.moved = 0 →
      Copied N buffer p C call f'.pos f'.pc →
      Staged N buffer p C call f' ∧ Call.published f' = Call.published f := by
    intro f' hpos ha hm hc
    refine ⟨staged_of_amount (by omega) (fun h => hpos ▸ hs.pos_zero h) ha hc, ?_⟩
    have : f'.pc.moved = 0 := by
      cases hpc : f'.pc <;> rw [hpc] at ha <;> first | rfl | exact ha
    simp only [Call.published, this, hm, hpos]
  cases hl with
  | closed | failed => exact settles_neg _
  | opened h =>
    rw [opened_writes hw]
    exact hplain _ rfl rfl (by rw [h]; rfl) trivial
  | enough h | remeasured h => exact hseen (by rw [h]; rfl)
  | short h | requested h => exact hplain _ rfl rfl (by rw [h]; rfl) trivial
  | taken n h =>
    have hn : f.pc.amount = n := by rw [h]; rfl
    refine ⟨⟨by show f.pos + n ≤ _; omega, by show n ≤ N; omega, hs.pos_zero, trivial⟩, ?_⟩
    unfold Call.published
    rw [h]
    rfl
  | quiet n h | signalled n h => exact hdone n (by rw [h]; rfl) (by rw [h]; rfl)
  | unsignalled n h hno =>
    unfold Call.transferred
    split
    · rename_i hst
      rw [hok hst n h] at hno
      cases hno
    · exact settles_neg _
  | woken h =>
    refine hplain _ rfl ?_ (by rw [h]; rfl) ?_ <;>
      simp [Call.enter, hw, Pc.amount, Copied]

/-! ### Copies and index updates -/

theorem Copied.mono {C' pos : ℕ} (h : Copied N buffer p C call pos pc) (hC : C ≤ C') :
    Copied N buffer p C' call pos pc := by
  cases pc with
  | copyHead n => exact Nat.le_trans h (Nat.add_le_add_right hC N)
  | copyTail | advance => exact ⟨Nat.le_trans h.1 (Nat.add_le_add_right hC N), h.2⟩
  | _ => trivial

theorem drop_append_take (h : C + n ≤ S.length) :
    ((S ++ xs).drop C).take n = (S.drop C).take n := by
  rw [drop_append_of_le_length (by omega), take_append_of_le_length]
  rw [length_drop]
  omega

theorem Fetched.append {got xs : List UInt8} (h : Fetched N S C got pc) :
    Fetched N (S ++ xs) C got pc := by
  cases pc with
  | copyHead n => exact ⟨by rw [length_append]; exact Nat.le_add_right_of_le h.1, h.2⟩
  | copyTail n k =>
    obtain ⟨hn, hN, hk, hlt, hgot⟩ := h
    refine ⟨by rw [length_append]; omega, hN, hk, hlt, ?_⟩
    rw [hgot, drop_append_take (by omega)]
  | advance n =>
    obtain ⟨hn, hN, hgot⟩ := h
    refine ⟨by rw [length_append]; omega, hN, ?_⟩
    rw [hgot, drop_append_take hn]
  | _ => exact h

theorem add_to_end (hN : 0 < N) : (p + (N - p % N)) % N = 0 := by
  have hlt := Nat.mod_lt p hN
  rw [cell_add_wrapped hN (by omega) (by omega)]
  omega

namespace Flow

theorem copy_keeps (h : Flow N l S C) (xs : List UInt8) {ys : List UInt8} {n i : ℕ}
    (hroom : S.length + n ≤ C + N) (hn : ys.length + xs.length ≤ n)
    (hstaged : RingHolds N l.ring.buffer S.length ys) (hi : i = (S.length + ys.length) % N)
    (hend : i + xs.length ≤ N) :
    RingHolds N (writeCells l.ring.buffer i xs) C (S.drop C) ∧
      RingHolds N (writeCells l.ring.buffer i xs) S.length (ys ++ xs) := by
  have hle := h.le
  have hw : RingWrite N l.ring.buffer (writeCells l.ring.buffer i xs)
      (S.length + ys.length) xs := by
    subst hi
    exact ringWrite_linear hend
  refine ⟨?_, hstaged.write hw (by omega)⟩
  -- what is held and what is staged lie one behind the other
  have hboth : RingHolds N l.ring.buffer C (S.drop C ++ ys) := by
    refine ringHolds_append.2 ⟨h.held, ?_⟩
    rwa [length_drop, Nat.add_sub_cancel' hle]
  have hlen : C + (S.drop C ++ ys).length = S.length + ys.length := by
    rw [length_append, length_drop]
    omega
  have hall := hboth.write (hlen ▸ hw) (by omega)
  rw [append_assoc] at hall
  exact (ringHolds_append.1 hall).1

theorem writer_copied (h : Flow N l S C) {b : ℕ → UInt8} (hheld : RingHolds N b C (S.drop C))
    (hs : Staged N b S.length C call f') :
    Flow N ((l.setRing { l.ring with buffer := b }).writerNext call (.goto f')) S C := by
  refine ⟨h.prod, h.cons, h.le, h.fits, hheld, ?_, h.reader⟩
  intro call' f'' heq
  cases heq
  exact hs

theorem writer_moves (h : Flow (2 ^ k) l S C) (hk : k ≤ 20) (hl : l.writer = some (call, f))
    (hw : call.op.writes = true) (hm : Moves (2 ^ k) l.ring call f r' f') :
    ∃ n, Flow (2 ^ k) ((l.setRing r').writerNext call (.goto f'))
        (S ++ call.bytes (Call.published f) n) C ∧
      Call.published f' = Call.published f + n ∧ Call.published f + n ≤ call.size := by
  have hs := h.writer call f hl
  have hin := hs.inside
  have hamount := hs.amount_le
  have hcopied := hs.copied
  have hpow := Nat.two_pow_pos k
  -- a copy publishes nothing
  have hcopy : ∀ l' f', f.pc.moved = 0 → f'.pc.moved = 0 → f'.pos = f.pos → Flow (2 ^ k) l' S C →
      ∃ n, Flow (2 ^ k) l' (S ++ call.bytes (Call.published f) n) C ∧
        Call.published f' = Call.published f + n ∧ Call.published f + n ≤ call.size := by
    intro l' f' hm hm' hpos hflow
    have hnil : call.bytes (Call.published f) 0 = [] := rfl
    refine ⟨0, by rwa [hnil, append_nil], ?_, ?_⟩ <;> unfold Call.published <;> omega
  cases hm with
  | head n hpc hend =>
    rw [h.realIdx_writes hk hw] at hend
    simp only [Call.memcpy, if_pos hw, h.realIdx_writes hk hw]
    rw [hpc] at hcopied hin hamount
    have hkeep := h.copy_keeps (call.bytes f.pos (2 ^ k - S.length % 2 ^ k)) hcopied
      (by simp only [length_nil, Call.length_bytes]; omega) ringHolds_nil
      (show S.length % 2 ^ k = _ by rw [length_nil, Nat.add_zero])
      (by rw [Call.length_bytes]; omega)
    refine hcopy _ _ (by rw [hpc]; rfl) rfl rfl (h.writer_copied hkeep.1 ?_)
    exact ⟨hin, hamount, hs.pos_zero, hcopied, rfl, hend, hkeep.2⟩
  | all n hpc hend =>
    rw [h.realIdx_writes hk hw] at hend
    simp only [Call.memcpy, if_pos hw, h.realIdx_writes hk hw]
    rw [hpc] at hcopied hin hamount
    have hkeep := h.copy_keeps (call.bytes f.pos n) hcopied
      (by simp only [length_nil, Call.length_bytes]; omega) ringHolds_nil
      (show S.length % 2 ^ k = _ by rw [length_nil, Nat.add_zero])
      (by rw [Call.length_bytes]; omega)
    refine hcopy _ _ (by rw [hpc]; rfl) rfl rfl (h.writer_copied hkeep.1 ?_)
    exact ⟨hin, hamount, hs.pos_zero, hcopied, hkeep.2⟩
  | tail n j hpc =>
    simp only [Call.memcpy, if_pos hw]
    rw [hpc] at hcopied hin hamount
    obtain ⟨hroom, rfl, hjn, hheld⟩ := hcopied
    have hkeep := h.copy_keeps
      (call.bytes (f.pos + (2 ^ k - S.length % 2 ^ k)) (n - (2 ^ k - S.length % 2 ^ k))) hroom
        (by simp only [Call.length_bytes]; omega) hheld
      (by rw [Call.length_bytes, add_to_end hpow])
      (by rw [Call.length_bytes]; exact Nat.le_trans (Nat.zero_add _ ▸ Nat.sub_le n _) hamount)
    rw [Call.bytes_append _ _ _ hjn.le] at hkeep
    refine hcopy _ _ (by rw [hpc]; rfl) rfl rfl (h.writer_copied hkeep.1 ?_)
    exact ⟨hin, hamount, hs.pos_zero, hroom, hkeep.2⟩
  | advance n hpc =>
    rw [hpc] at hcopied hin hamount
    have hpub : Call.published f = f.pos := by
      unfold Call.published
      rw [hpc]
      rfl
    simp only [Op.advance, if_pos hw]
    rw [hpub]
    refine ⟨n, ⟨?_, h.cons, ?_, ?_, ?_, ?_, ?_⟩, rfl, hin⟩
    · show l.ring.prod + _ = _
      rw [h.prod, length_append, Call.length_bytes, BitVec.ofNat_add]
    · rw [length_append]
      exact Nat.le_add_right_of_le h.le
    · rw [length_append, Call.length_bytes]
      exact hcopied.1
    · rw [drop_append_of_le_length h.le]
      refine ringHolds_append.2 ⟨h.held, ?_⟩
      rw [length_drop, Nat.add_sub_cancel' h.le]
      exact hcopied.2
    · intro call' f'' heq
      cases heq
      exact ⟨hin, hamount, hs.pos_zero, trivial⟩
    · intro call' f'' heq
      exact (h.reader call' f'' heq).append

/-! ### Steps of the reader -/

theorem reader_next (h : Flow N l S C)
    (hnx : nx.Meets (fun f' => Fetched N S C f'.got f'.pc) fun _ => True) :
    Flow N (l.readerNext call f nx) S C := by
  cases nx with
  | goto f =>
    refine ⟨h.prod, h.cons, h.le, h.fits, h.held, h.writer, ?_⟩
    intro call' f' heq
    cases heq
    exact hnx
  | ret r =>
    refine ⟨h.prod, h.cons, h.le, h.fits, h.held, h.writer, ?_⟩
    intro call' f' heq
    cases heq

end Flow

def Frame.taken (f : Frame) : List UInt8 :=
  match f.pc with
  | .clear _ | .signal _ => f.got
  | _ => []

structure Returns (f : Frame) (r : ℤ) : Prop where
  taken : 0 ≤ r → f.got = f.taken ∧ (f.got.length : ℤ) = r
  failed : r < 0 → f.taken = []

theorem returns_of_nil {r : ℤ} (hgot : f.got = []) (htaken : f.taken = []) (hr : r = 0 ∨ r = -1) :
    Returns f r := by
  refine ⟨fun h => ⟨by rw [hgot, htaken], ?_⟩, fun _ => htaken⟩
  rw [hgot, length_nil]
  omega

def ReadNotified (f : Frame) (ok : Bool) : Prop := ∀ n, f.pc = .signal n → ok = true

theorem Local.reader (hl : Local N r call f ok nx) (hw : call.op.writes = false)
    (hf : Fetched N S C f.got f.pc) (hraw : rawGetDataReady N r = S.length - C) (hC : C ≤ S.length)
    (hfits : S.length ≤ C + N) (hN : N ≤ 2 ^ 20) :
    nx.Meets (fun f' => Fetched N S C f'.got f'.pc ∧ f'.taken = f.taken)
      fun r => ReadNotified f ok → Returns f r := by
  have hseen : f.taken = [] →
      (call.proceed N f.pos (call.op.raw N r)).Meets
        (fun f' => Fetched N S C f'.got f'.pc ∧ f'.taken = f.taken)
        fun r => ReadNotified f ok → Returns f r := by
    intro ht
    have hraw' : call.op.raw N r = S.length - C := by
      unfold Op.raw
      rw [if_neg (by simp [hw]), hraw]
    rw [ht]
    refine (proceed_reads hw).mono ?_ fun _ h => h.elim
    rintro f' ⟨hgot, ⟨hpc, -⟩ | ⟨n, hpc, hn⟩⟩
    · simp only [Frame.taken, hpc, and_true]
      exact hgot
    · simp only [Frame.taken, hpc, and_true]
      exact ⟨by omega, by omega, hgot⟩
  have hdone : ∀ n, f.taken = f.got → f.got.length = n ∧ n ≤ N →
      (call.transferred f.pos (toInt n)).Meets
        (fun f' => Fetched N S C f'.got f'.pc ∧ f'.taken = f.taken)
        fun r => ReadNotified f ok → Returns f r := by
    intro n ht hn
    unfold Call.transferred
    rw [if_neg (by simp [streams_of_read hw]), toInt_of_lt (by omega)]
    refine fun _ => ⟨fun _ => ⟨ht.symm, by rw [hn.1]⟩, fun h => ?_⟩
    omega
  cases hl with
  | closed h | failed h =>
    rw [h] at hf
    exact fun _ => returns_of_nil hf (by rw [Frame.taken, h]) (.inr rfl)
  | opened h =>
    rw [h] at hf
    have ht : f.taken = [] := by rw [Frame.taken, h]
    refine (opened_reads hw).mono ?_ fun r hr _ => returns_of_nil hf ht hr
    rintro f' ⟨rfl, -⟩
    exact ⟨rfl, ht.symm⟩
  | enough h | remeasured h => exact hseen (by rw [Frame.taken, h])
  | short h | requested h | taken _ h =>
    rw [h] at hf
    exact ⟨hf, by simp only [Frame.taken, h]⟩
  | quiet n h | signalled n h =>
    rw [h] at hf
    exact hdone n (by rw [Frame.taken, h]) hf
  | unsignalled n h hno =>
    unfold Call.transferred
    rw [if_neg (by simp [streams_of_read hw])]
    intro hok
    rw [hok n h] at hno
    cases hno
  | woken h =>
    simp only [Next.Meets, Call.enter, hw, Frame.taken, h]
    exact ⟨rfl, rfl⟩

theorem read_held {i n : ℕ} (h : RingHolds N buffer C xs) (hi : i = C % N)
    (hn : n ≤ xs.length) (hend : i + n ≤ N) : readCells buffer i n = xs.take n := by
  rw [← take_append_drop n xs] at h
  have hlen : (xs.take n).length = n := length_take_of_le hn
  have hread := (ringHolds_append.1 h).1.read (by rw [hlen, ← hi]; exact hend)
  rwa [hlen, ← hi] at hread

namespace Flow

theorem reader_moves (h : Flow (2 ^ k) l S C) (hk : k ≤ 20) (hl : l.reader = some (call, f))
    (hw : call.op.writes = false) (hm : Moves (2 ^ k) l.ring call f r' f') :
    ∃ n, Flow (2 ^ k) ((l.setRing r').readerNext call f (.goto f')) S (C + n) ∧
      f'.taken = f.taken ++ (S.drop C).take n := by
  have hf := h.reader call f hl
  have hpow := Nat.two_pow_pos k
  have hlen : (S.drop C).length = S.length - C := length_drop
  -- a copy takes nothing
  have hcopy : ∀ f', f.taken = [] → f'.taken = [] → Fetched (2 ^ k) S C f'.got f'.pc →
      ∃ n, Flow (2 ^ k) ((l.setRing l.ring).readerNext call f (.goto f')) S (C + n) ∧
        f'.taken = f.taken ++ (S.drop C).take n := by
    intro f' ht ht' hf'
    exact ⟨0, h.reader_next hf', by rw [ht, ht']; rfl⟩
  cases hm with
  | head n hpc hend =>
    rw [h.realIdx_reads hk hw] at hend
    rw [hpc] at hf
    obtain ⟨hn, hN, hgot⟩ := hf
    simp only [Call.memcpy, hw, Bool.false_eq_true, if_false, h.realIdx_reads hk hw]
    refine hcopy _ (by rw [Frame.taken, hpc]) rfl ⟨hn, hN, rfl, hend, ?_⟩
    rw [hgot]
    exact read_held h.held rfl (by omega) (by omega)
  | all n hpc hend =>
    rw [h.realIdx_reads hk hw] at hend
    rw [hpc] at hf
    obtain ⟨hn, hN, hgot⟩ := hf
    simp only [Call.memcpy, hw, Bool.false_eq_true, if_false, h.realIdx_reads hk hw]
    refine hcopy _ (by rw [Frame.taken, hpc]) rfl ⟨hn, hN, ?_⟩
    rw [hgot]
    exact read_held h.held rfl (by omega) (by omega)
  | tail n j hpc =>
    rw [hpc] at hf
    obtain ⟨hn, hN, rfl, hjn, hgot⟩ := hf
    simp only [Call.memcpy, hw, Bool.false_eq_true, if_false]
    refine hcopy _ (by rw [Frame.taken, hpc]) rfl ⟨hn, hN, ?_⟩
    -- the rest of what is held starts where the ring does
    have hheld := h.held
    rw [← take_append_drop (2 ^ k - C % 2 ^ k) (S.drop C), ringHolds_append,
      length_take_of_le (by omega)] at hheld
    have hrest := read_held (n := n - (2 ^ k - C % 2 ^ k)) hheld.2 (add_to_end hpow).symm
      (by rw [length_drop]; omega) (by omega)
    show f.got ++ _ = _
    rw [hgot, hrest, ← take_add, Nat.add_sub_cancel' hjn.le]
  | advance n hpc =>
    rw [hpc] at hf
    obtain ⟨hn, hN, hgot⟩ := hf
    simp only [Op.advance, hw, Bool.false_eq_true, if_false]
    refine ⟨n, ⟨h.prod, ?_, hn, ?_, ?_, ?_, ?_⟩, ?_⟩
    · show l.ring.cons + _ = _
      rw [h.cons, BitVec.ofNat_add]
    · have hfits := h.fits
      omega
    · have hheld := h.held
      rw [← take_append_drop n (S.drop C), ringHolds_append,
        length_take_of_le (by omega), drop_drop] at hheld
      exact hheld.2
    · intro call' f'' heq
      have hs := h.writer call' f'' heq
      exact ⟨hs.inside, hs.amount_le, hs.pos_zero, hs.copied.mono (Nat.le_add_right C n)⟩
    · intro call' f'' heq
      cases heq
      refine ⟨?_, hN⟩
      show f.got.length = n
      rw [hgot, length_take_of_le (by omega)]
    · have ht : f.taken = [] := by rw [Frame.taken, hpc]
      rw [ht, ← hgot]
      rfl

end Flow

end XenVmi.Vchan
