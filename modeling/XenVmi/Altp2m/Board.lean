import XenVmi.Altp2m.System
import Mathlib.Data.Finset.Basic

/-!
# Which views exist and where the vCPUs are

`Rep d b`: the EPTP list, the `p2midx` fields and the counters of an active domain stand for the
`Board` `b`: the set of views that exist, and the view each vCPU is in. `Off d` is a domain with
altp2m off.
-/

namespace XenVmi.Altp2m

open XenVmi.Ept XenVmi.Lib

/-! ## Boards -/

theorem count_set {l : List Nat} {v i : Nat} (hv : v < l.length) (x : Nat) :
    ((l.set v i).count x : Int)
      = l.count x + (if x = l[v] then -1 else 0) + (if x = i then 1 else 0) := by
  have hpos : l[v] = x → 0 < l.count x := by
    rintro rfl
    exact List.count_pos_iff.2 (List.getElem_mem hv)
  simp only [List.count_set hv, beq_iff_eq]
  split_ifs <;> omega

structure Board where
  valid : Finset Nat
  place : List Nat
  zero_mem : 0 ∈ valid
  place_mem : ∀ i ∈ place, i ∈ valid

namespace Board

def start (n : Nat) : Board where
  valid := {0}
  place := List.replicate n 0
  zero_mem := Finset.mem_singleton_self 0
  place_mem _ h := Finset.mem_singleton.2 (List.eq_of_mem_replicate h)

def create (b : Board) (i : Nat) : Board where
  valid := insert i b.valid
  place := b.place
  zero_mem := Finset.mem_insert_of_mem b.zero_mem
  place_mem j h := Finset.mem_insert_of_mem (b.place_mem j h)

def destroy (b : Board) (i : Nat) (h0 : i ≠ 0) (hp : i ∉ b.place) : Board where
  valid := b.valid.erase i
  place := b.place
  zero_mem := Finset.mem_erase.2 ⟨h0.symm, b.zero_mem⟩
  place_mem j h := Finset.mem_erase.2 ⟨fun e => hp (e ▸ h), b.place_mem j h⟩

def move (b : Board) (v i : Nat) (hi : i ∈ b.valid) : Board where
  valid := b.valid
  place := b.place.set v i
  zero_mem := b.zero_mem
  place_mem j h := by
    rcases List.mem_or_eq_of_mem_set h with h | rfl
    · exact b.place_mem j h
    · exact hi

def count (b : Board) (i : Nat) : Int := b.place.count i

theorem count_eq_zero {b : Board} {i : Nat} : b.count i = 0 ↔ i ∉ b.place := by
  unfold count
  rw [Int.natCast_eq_zero, List.count_eq_zero]

theorem count_move (b : Board) {v i : Nat} (hi : i ∈ b.valid) (hv : v < b.place.length) (x : Nat) :
    (b.move v i hi).count x
      = b.count x + (if x = b.place[v] then -1 else 0) + (if x = i then 1 else 0) :=
  count_set hv x

theorem move_self (b : Board) {v i : Nat} (hi : i ∈ b.valid) (h : b.place[v]? = some i) :
    b.move v i hi = b := by
  obtain ⟨hv, h⟩ := List.getElem?_eq_some_iff.1 h
  subst h
  unfold move
  simp only [List.set_getElem_self]

end Board

/-! ## Domains that stand for a board -/

def Domain.indices (d : Domain) : List Nat := d.vcpus.map (·.p2midx)

structure Off (d : Domain) : Prop where
  inactive : d.altp2mActive = false
  slot : ∀ i < maxAltp2m, d.altp2mEptp i = invalidMfn
  count : ∀ i < maxAltp2m, (d.altp2mP2m i).activeVcpus = 0

structure Rep (d : Domain) (b : Board) : Prop where
  active : d.altp2mActive = true
  lt : ∀ i ∈ b.valid, i < maxAltp2m
  slot : ∀ i < maxAltp2m, d.altp2mEptp i ≠ invalidMfn ↔ i ∈ b.valid
  place : d.indices = b.place
  count : ∀ i < maxAltp2m, (d.altp2mP2m i).activeVcpus = b.count i

def Switching (cfg : Config) (d : Domain) : Prop := Ready cfg d ∧ (Off d ∨ ∃ b, Rep d b)

section

variable {cfg : Config} {d d' : Domain} {b : Board} {v i : Nat}

theorem Off.of_shell (h : d'.shell = d.shell) (O : Off d) : Off d' := by
  have O' : Off d.shell := ⟨O.inactive, O.slot, O.count⟩
  rw [← h] at O'
  exact ⟨O'.inactive, O'.slot, O'.count⟩

theorem Rep.of_shell (h : d'.shell = d.shell) (B : Rep d b) : Rep d' b := by
  have B' : Rep d.shell b := ⟨B.active, B.lt, B.slot, B.place, B.count⟩
  rw [← h] at B'
  exact ⟨B'.active, B'.lt, B'.slot, B'.place, B'.count⟩

theorem Switching.of_shell (h : d'.shell = d.shell) (S : Switching cfg d) : Switching cfg d' :=
  ⟨S.1.of_shell h, S.2.imp (Off.of_shell h) fun ⟨b, B⟩ => ⟨b, B.of_shell h⟩⟩

theorem length_indices (d : Domain) : d.indices.length = d.vcpus.length := List.length_map _

theorem Rep.length_eq (B : Rep d b) : b.place.length = d.vcpus.length := by
  rw [← B.place, length_indices]

theorem getElem_indices (hv : v < d.vcpus.length) : d.indices[v]? = some (d.vcpu v).p2midx := by
  rw [d.vcpu_eq_getElem hv]
  unfold Domain.indices
  simp [hv]

theorem Rep.getElem_place (B : Rep d b) (hv : v < d.vcpus.length) :
    b.place[v]? = some (d.vcpu v).p2midx :=
  B.place ▸ getElem_indices hv

theorem Rep.p2midx_mem (B : Rep d b) (hv : v < d.vcpus.length) : (d.vcpu v).p2midx ∈ b.valid :=
  b.place_mem _ (List.mem_of_getElem? (B.getElem_place hv))

theorem Rep.p2midx_lt (B : Rep d b) (hv : v < d.vcpus.length) : (d.vcpu v).p2midx < maxAltp2m :=
  B.lt _ (B.p2midx_mem hv)

theorem indices_modVcpu_set (d : Domain) (v i : Nat) (f : Vcpu → Vcpu)
    (h : ∀ x, (f x).p2midx = i) : (d.modVcpu v f).indices = d.indices.set v i := by
  unfold Domain.indices
  refine List.ext_getElem? fun j => ?_
  by_cases hj : v = j
  · subst hj
    by_cases hl : v < d.vcpus.length
    · simp [hl, h]
    · simp [hl]
  · simp [hj]

theorem indices_modVcpu (d : Domain) (v : Nat) (f : Vcpu → Vcpu)
    (h : ∀ x, (f x).p2midx = x.p2midx) : (d.modVcpu v f).indices = d.indices := by
  unfold Domain.indices
  refine List.ext_getElem? fun j => ?_
  by_cases hj : v = j
  · subst hj
    by_cases hl : v < d.vcpus.length
    · simp [hl, h]
    · simp [hl]
  · simp [hj]

end

end XenVmi.Altp2m
