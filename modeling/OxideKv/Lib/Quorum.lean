import Mathlib.Data.List.Perm.Subperm
import Mathlib.Data.Set.Basic

/-!
# Quorum systems

A quorum system says which sets of nodes count as quorums: any two of them
meet, and a larger set is one too.  `majority` is the system of the sets that
hold more than half of a list of members.
-/

namespace Quorum

variable {ν : Type}

structure QuorumSystem (ν : Type) where
  IsQuorum : Set ν → Prop
  meet : ∀ {Q Q' : Set ν}, IsQuorum Q → IsQuorum Q' → ∃ q, q ∈ Q ∧ q ∈ Q'
  mono : ∀ {Q Q' : Set ν}, Q ⊆ Q' → IsQuorum Q → IsQuorum Q'

/-- Two counts that do not fit into the list side by side. -/
theorem exists_mem_of_countP {p r : ν → Bool} : ∀ {l : List ν},
    l.length < l.countP p + l.countP r → ∃ q ∈ l, p q = true ∧ r q = true := by
  intro l
  induction l with
  | nil =>
    intro h
    simp at h
  | cons q l ih =>
    intro h
    by_cases hboth : p q = true ∧ r q = true
    · exact ⟨q, List.mem_cons_self, hboth⟩
    · rw [List.countP_cons, List.countP_cons, List.length_cons] at h
      have hone : (if p q = true then 1 else 0) + (if r q = true then 1 else 0) ≤ 1 := by
        split_ifs with hp hr
        · exact absurd ⟨hp, hr⟩ hboth
        all_goals omega
      obtain ⟨q', hq', hmeet⟩ := ih (by omega)
      exact ⟨q', List.mem_cons_of_mem q hq', hmeet⟩

open Classical in
/-- More than half of the members. -/
noncomputable def majority (members : List ν) : QuorumSystem ν where
  IsQuorum Q := members.length < 2 * members.countP (fun q => decide (q ∈ Q))
  meet := by
    intro Q Q' hQ hQ'
    have hcount : members.length <
        members.countP (fun q => decide (q ∈ Q)) + members.countP (fun q => decide (q ∈ Q')) := by
      omega
    obtain ⟨q, -, hq, hq'⟩ := exists_mem_of_countP hcount
    exact ⟨q, of_decide_eq_true hq, of_decide_eq_true hq'⟩
  mono := by
    intro Q Q' hsub hQ
    have hle : members.countP (fun q => decide (q ∈ Q)) ≤
        members.countP (fun q => decide (q ∈ Q')) :=
      List.countP_mono_left fun q _ hq => decide_eq_true (hsub (of_decide_eq_true hq))
    omega

/-- A count above one half of the members is a quorum of those counted. -/
theorem majority_of_countP {members : List ν} {Q : Set ν} {p : ν → Bool}
    (hcount : members.length / 2 < members.countP p)
    (hp : ∀ q ∈ members, p q = true → q ∈ Q) : (majority members).IsQuorum Q := by
  unfold majority
  have hle := List.countP_mono_left fun q (hm : q ∈ members) (hq : p q = true) =>
    @decide_eq_true _ (Classical.propDecidable _) (hp q hm hq)
  omega

/-- A quorum counted by a test that its nodes pass. -/
theorem countP_of_majority {members : List ν} {Q : Set ν} {p : ν → Bool}
    (hQ : (majority members).IsQuorum Q) (hp : ∀ q ∈ Q, p q = true) :
    members.length < 2 * members.countP p := by
  unfold majority at hQ
  have hle := List.countP_mono_left (l := members) fun q _ hq =>
    hp q (@of_decide_eq_true _ (Classical.propDecidable _) hq)
  omega

/-- More than half of the members, listed without repetition. -/
theorem majority_of_nodup {members voters : List ν} {Q : Set ν} (hnodup : voters.Nodup)
    (hsub : ∀ q ∈ voters, q ∈ members) (hlen : members.length / 2 < voters.length)
    (hQ : ∀ q ∈ voters, q ∈ Q) : (majority members).IsQuorum Q := by
  classical
  refine majority_of_countP (p := fun q => decide (q ∈ voters)) ?_ fun q _ hq =>
    hQ q (of_decide_eq_true hq)
  have hle := (hnodup.subperm hsub).countP_le fun q => decide (q ∈ voters)
  have hall : voters.countP (fun q => decide (q ∈ voters)) = voters.length :=
    List.countP_eq_length.mpr fun q hq => decide_eq_true hq
  omega

end Quorum
