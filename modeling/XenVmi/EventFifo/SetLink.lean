import XenVmi.EventFifo.Queues
import XenVmi.Lib.Runs

/-!
# Linking to a tail whose word changes

`evtchn_fifo_set_link` (`common/event_fifo.c:83-145`) with each access to the word as one step, and
the changes that others may make between the steps. The bound of four tries counts what the guest
can change while the word is BUSY; `evtchn_fifo_set_pending` and `evtchn_fifo_unmask` of the tail's
port change it too, without a lock.
-/

namespace XenVmi.EventFifo

open XenVmi.Lib

inductive LinkPc where
  | start
  | first (w : BitVec 32)
  | lock
  | reread
  | retry (tries : ℕ) (w : BitVec 32)
  | unlock
  | done (ret : Bool)
  deriving Repr, DecidableEq

structure Linking where
  word : BitVec 32
  pc : LinkPc
  /-- What a `cmpxchg` of the function stored. -/
  stored : Option (BitVec 32)
  deriving Repr, DecidableEq

/-- A call of `try_set_link`; it goes on at `unlinked` if the word was not LINKED and at `again`
with the value read if the word has changed. -/
def Linking.tryLink (s : Linking) (link w : BitVec 32) (unlinked : LinkPc)
    (again : BitVec 32 → LinkPc) : Linking :=
  match trySetLink s.word w link with
  | (word, _, some true) => ⟨word, .done true, some word⟩
  | (_, _, some false) => { s with pc := unlinked }
  | (_, w, none) => { s with pc := again w }

/-- The next step of `evtchn_fifo_set_link`. -/
def Linking.next (link : BitVec 32) (s : Linking) : Linking :=
  match s.pc with
  | .start => { s with pc := .first s.word }
  | .first w => s.tryLink link w (.done false) fun _ => .lock
  | .lock => { s with word := setBit s.word busy, pc := .reread }
  | .reread => { s with pc := .retry 4 s.word }
  | .retry (tries + 1) w => s.tryLink link w .unlock (.retry tries)
  | .retry 0 _ => { s with word := clearBit s.word busy, pc := .done true }
  | .unlock => { s with word := clearBit s.word busy, pc := .done false }
  | .done _ => s

/-- A step of the function, a change by the guest, PENDING cleared by either side, or a change by
the hypervisor. -/
inductive LinkOp where
  | next
  | mask
  | guestUnmask
  | clearPending
  | unlink
  | setPending
  | unmask
  deriving DecidableEq

def Linking.step (link : BitVec 32) (s : Linking) : LinkOp → Except Empty Linking
  | .next => .ok (s.next link)
  | .mask => .ok { s with word := setBit s.word masked }
  | .guestUnmask | .unmask => .ok { s with word := clearBit s.word masked }
  | .clearPending => .ok { s with word := clearBit s.word pending }
  | .unlink => .ok { s with word := clearBit (s.word &&& ~~~linkMask) linked }
  | .setPending => .ok { s with word := setBit s.word pending }

/-- What the guest is permitted to do. -/
def LinkOp.Permitted (s : Linking) : LinkOp → Prop
  | .guestUnmask => s.word.getLsbD busy = false
  | .unlink => s.word.getLsbD linked = true
  | _ => True

/-- The hypervisor leaves the word alone while the function tries again. -/
def LinkOp.Undisturbed (s : Linking) (op : LinkOp) : Prop :=
  op = .setPending ∨ op = .unmask → ∀ tries w, s.pc ≠ .retry tries w

/-! ## The bound -/

section

variable {w : BitVec 32} {i port : ℕ} {s s' : Linking} {op : LinkOp} {link : BitVec 32}

theorem setBit_of_set (hi : i < 32) (h : w.getLsbD i = true) : setBit w i = w := by
  refine BitVec.eq_of_getLsbD_eq fun j _ => ?_
  rw [getLsbD_setBit hi]
  by_cases hj : j = i
  · rw [hj, h, Bool.or_true]
  · simp [hj]

theorem clearBit_of_clear (hi : i < 32) (h : w.getLsbD i = false) : clearBit w i = w := by
  refine BitVec.eq_of_getLsbD_eq fun j _ => ?_
  rw [getLsbD_clearBit hi]
  by_cases hj : j = i
  · rw [hj, h, Bool.and_false]
  · simp [hj]

/-- How often the guest can still change a BUSY word. -/
def changesLeft (w : BitVec 32) : ℕ :=
  (!w.getLsbD masked).toNat + (w.getLsbD pending).toNat + (w.getLsbD linked).toNat

/-- The others leave the BUSY bit alone. -/
theorem change_frame (hop : op ≠ .next) (h : s.step link op = .ok s') :
    s'.word.getLsbD busy = s.word.getLsbD busy ∧ s'.pc = s.pc ∧ s'.stored = s.stored := by
  have hset := fun i (hi : i < 32) => @getLsbD_setBit s.word i busy hi
  have hclear := fun w i (hi : i < 32) => @getLsbD_clearBit w i busy hi
  cases op <;> cases h
  all_goals grind [getLsbD_linkMask, linkBits, pending, masked, linked, busy]

/-- A change by the guest to a BUSY word is one less for it to make. -/
theorem guest_change (hbusy : s.word.getLsbD busy = true) (hop : op.Permitted s)
    (hnext : op ≠ .next) (hset : op ≠ .setPending) (hunmask : op ≠ .unmask)
    (h : s.step link op = .ok s') :
    s'.word = s.word ∨ changesLeft s'.word < changesLeft s.word := by
  cases op <;> cases h <;> simp only [LinkOp.Permitted] at hop
  case next | setPending | unmask => contradiction
  case mask =>
    have := @setBit_of_set s.word masked (by decide)
    have := fun j => @getLsbD_setBit s.word masked j (by decide)
    grind [changesLeft, Bool.toNat, pending, masked, linked]
  case guestUnmask => rw [hbusy] at hop; cases hop
  case clearPending =>
    have := @clearBit_of_clear s.word pending (by decide)
    have := fun j => @getLsbD_clearBit s.word pending j (by decide)
    grind [changesLeft, Bool.toNat, pending, masked, linked]
  case unlink =>
    have := fun j => @getLsbD_clearBit (s.word &&& ~~~linkMask) linked j (by decide)
    grind [changesLeft, Bool.toNat, pending, masked, linked, linkBits, getLsbD_linkMask]

structure Stored (port : ℕ) (s : Linking) : Prop where
  link : ∃ w, s.stored = some w ∧ w.getLsbD linked = true ∧ linkOf w = port
  busy : s.word.getLsbD busy = false

/-- With `tries` tries left, fewer changes are left. -/
def Linking.Inv (port : ℕ) (s : Linking) : Prop :=
  match s.pc with
  | .reread => s.word.getLsbD busy = true
  | .retry tries w => s.word.getLsbD busy = true ∧ changesLeft w < tries ∧
    (s.word = w ∨ changesLeft s.word < changesLeft w)
  | .done true => Stored port s
  | _ => True

theorem tryLink_inv (hport : port < 2 ^ linkBits) {u : LinkPc} {again : BitVec 32 → LinkPc}
    (hu : Linking.Inv port { s with pc := u })
    (hagain : s.word ≠ w → Linking.Inv port { s with pc := again s.word }) :
    (s.tryLink (.ofNat 32 port) w u again).Inv port := by
  unfold Linking.tryLink trySetLink
  split_ifs with hl hw
  · exact hu
  · rw [Bool.not_eq_false] at hl
    refine ⟨⟨_, rfl, ?_, linkOf_relink hport⟩, ?_⟩
    · rw [getLsbD_relink hport (by decide) (by decide), hl]
    · rw [BitVec.getLsbD_or, getLsbD_port hport (by decide)]
      simp [busy]
  · exact hagain hw

theorem Linking.step_inv (hport : port < 2 ^ linkBits) (hop : op.Permitted s)
    (hu : op.Undisturbed s) (h : s.step (.ofNat 32 port) op = .ok s') (inv : s.Inv port) :
      s'.Inv port := by
  by_cases hnext : op = .next
  · subst hnext
    cases h
    unfold Linking.next
    split <;> rename_i hpc <;> simp only [Linking.Inv, hpc] at inv
    · trivial
    · exact tryLink_inv hport trivial fun _ => trivial
    · show (setBit s.word busy).getLsbD busy = true
      rw [getLsbD_setBit (by decide)]
      simp
    · refine ⟨inv, ?_, .inl rfl⟩
      unfold changesLeft
      grind [Bool.toNat]
    · refine tryLink_inv hport trivial fun hw => ⟨inv.1, ?_, .inl rfl⟩
      have := inv.2.2.resolve_left hw
      omega
    · exact absurd inv.2.1 (Nat.not_lt_zero _)
    · trivial
    · unfold Linking.Inv
      rw [hpc]
      exact inv
  · obtain ⟨hbusy, hpc, hstored⟩ := change_frame hnext h
    unfold Linking.Inv at inv ⊢
    rw [hpc]
    split at inv
    · exact hbusy.trans inv
    · rename_i tries w hretry
      have hchange := guest_change inv.1 hop hnext (fun h => hu (.inl h) _ _ hretry)
        (fun h => hu (.inr h) _ _ hretry) h
      refine ⟨hbusy.trans inv.1, inv.2.1, ?_⟩
      rcases hchange with heq | hlt
      · rw [heq]
        exact inv.2.2
      · rcases inv.2.2 with rfl | hlt'
        · exact .inr hlt
        · exact .inr (hlt.trans hlt')
    · obtain ⟨w, hw, hlink⟩ := inv.link
      exact ⟨⟨w, hstored.trans hw, hlink⟩, hbusy.trans inv.busy⟩
    · trivial

/-- **A link that is claimed is made** in every run in which the hypervisor leaves the word alone
while the function tries again. -/
theorem claimed_link_made (hport : port < 2 ^ linkBits) {w : BitVec 32}
    (run : Reaches (Linking.step (.ofNat 32 port)) (fun s op => op.Permitted s ∧ op.Undisturbed s)
      ⟨w, .start, none⟩ s) (hret : s.pc = .done true) :
    (∃ w, s.stored = some w ∧ w.getLsbD linked = true ∧ linkOf w = port) ∧
      s.word.getLsbD busy = false := by
  have inv : s.Inv port :=
    run.invariant (fun _ _ _ hop h => Linking.step_inv hport hop.1 hop.2 h) trivial
  rw [Linking.Inv, hret] at inv
  exact ⟨inv.link, inv.busy⟩

/-- The guest masks the event while port 7 is linked to it; the second try succeeds. -/
theorem claimed_link_made_masked :
    ∃ s, Reaches (Linking.step 7) (fun s op => op.Permitted s ∧ op.Undisturbed s)
      ⟨0xa0000000, .start, none⟩ s ∧
      s.pc = .done true ∧ s.stored = some 0xe0000007 ∧ s.word.getLsbD busy = false := by
  obtain ⟨s, run, hret, hs⟩ :
      ∃ s, Reaches (Linking.step 7) (fun s op => op.Permitted s ∧ op.Undisturbed s)
      ⟨0xa0000000, .start, none⟩ s ∧ s.pc = .done true ∧ s.stored = some 0xe0000007 :=
    Reaches.exists_of_foldlM (l := [.next, .mask, .next, .next, .next, .next])
      (by simp [LinkOp.Permitted, LinkOp.Undisturbed]) (by decide +kernel)
  exact ⟨s, run, hret, hs, (claimed_link_made (show 7 < 2 ^ linkBits by decide) run hret).2⟩

/-- An event is sent to the tail's port and cleared again, twice: the function returns 1, and port 7
is not linked. -/
theorem claimed_link_lost :
    ∃ s, Reaches (Linking.step 7) (fun s op => op.Permitted s) ⟨0x20000000, .start, none⟩ s ∧
      s.pc = .done true ∧ s.stored = none ∧ s.word.getLsbD linked = true ∧ linkOf s.word = 0 :=
  Reaches.exists_of_foldlM (l := [.next, .setPending, .next, .next, .next, .clearPending, .next,
    .setPending, .next, .clearPending, .next, .setPending, .next, .next])
    (by simp [LinkOp.Permitted]) (by decide +kernel)

end

end XenVmi.EventFifo
