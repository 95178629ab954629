import XenVmi.P2m.PodCount

/-!
# A reclaim that gives up

`p2m_pod_zero_check_superpage` and `p2m_pod_zero_check` take RAM out of the p2m to look at it. What
somebody else has, or is not zero, is put back with `p2m->default_access`.
-/

namespace XenVmi.P2m

open Function XenVmi.Ept

section

variable {env : Env} {o : PodOutcomes} {s : State} {e : Translation}

end

/-- Gfn 3 has frame 2, which begins with zeros. -/
def onePage (a : P2mAccess) : State :=
  { noMemory with table := update (fun _ => .none) 3 ⟨2, .ramRw, a⟩ }

end XenVmi.P2m
