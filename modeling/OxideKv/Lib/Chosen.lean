import OxideKv.Lib.ReplicatedLog

/-!
# What is chosen stays

The commit rule of the replicated log as a predicate of the state, and the
safety of the protocol.

* `chosen_prefix_base`: whoever is elected in a later term was elected with
  what is chosen.  The proof is by strong induction on the term: the quorum
  that confirmed and the quorum that voted share a node.
* `committed_comparable`: committed prefixes never disagree.
-/

namespace ReplicatedLog

open Quorum

variable {ν ε : Type}

variable {τ : ε → ℕ} {S : QuorumSystem ν} {s s' : State ν ε}

/-- The commit rule: a quorum has confirmed the first `m` entries of the
leader of `T`, and the last of them is of that very term. -/
structure Chosen (S : QuorumSystem ν) (τ : ε → ℕ) (s : State ν ε) (T m : ℕ) (r : Reign ν ε) :
    Prop where
  reign : s.reign T = some r
  last : ∃ e, r.log[m - 1]? = some e ∧ τ e = T
  pos : 0 < m
  quorum : S.IsQuorum { q | m ≤ s.ack q T }

theorem Chosen.le_length {T m : ℕ} {r : Reign ν ε} (h : Chosen S τ s T m r) :
    m ≤ r.log.length := by
  obtain ⟨e, he, -⟩ := h.last
  have := (List.getElem?_eq_some_iff.mp he).1
  have := h.pos
  omega

/-- What is chosen stays chosen. -/
theorem Chosen.grows {T m : ℕ} {r : Reign ν ε} (h : Chosen S τ s T m r) (hg : Grows s s') :
    ∃ r', Chosen S τ s' T m r' ∧ r.log <+: r'.log := by
  obtain ⟨r', hr', -, -, hp⟩ := hg.reign h.reign
  obtain ⟨e, he, hterm⟩ := h.last
  refine ⟨r', ⟨hr', ⟨e, ?_, hterm⟩, h.pos, ?_⟩, hp⟩
  · obtain ⟨rest, heq⟩ := hp
    rw [← heq, List.getElem?_append_left (List.getElem?_eq_some_iff.mp he).1, he]
  · exact S.mono (fun q hq => le_trans hq (hg.ack q T)) h.quorum

/-- The last entry of a log that holds a chosen prefix is not of an earlier
term. -/
theorem le_lastTerm {B T m : ℕ} {l : List ε} {r : Reign ν ε} (hwf : WellFormed τ s B l)
    (hc : Chosen S τ s T m r) (hp : r.log.take m <+: l) : T ≤ lastTerm τ l := by
  obtain ⟨e, he, rfl⟩ := hc.last
  have hm := hc.pos
  have hmem : l[m - 1]? = some e := by
    obtain ⟨rest, rfl⟩ := hp
    have hlen := hc.le_length
    have hin : m - 1 < (r.log.take m).length := by
      rw [List.length_take]
      omega
    rw [List.getElem?_append_left hin, List.getElem?_take_of_lt (by omega), he]
  have hlt : m - 1 < l.length := (List.getElem?_eq_some_iff.mp hmem).1
  have hne : l ≠ [] := by
    rintro rfl
    simp at hlt
  obtain ⟨init, last, rfl⟩ := (List.eq_nil_or_concat' l).resolve_left hne
  have hlast : lastTerm τ (init ++ [last]) = τ last := by
    unfold lastTerm
    simp
  rw [hlast]
  rcases Nat.lt_or_ge (m - 1) init.length with hi | hi
  · rw [List.getElem?_append_left hi] at hmem
    exact (List.pairwise_append.mp hwf.sorted).2.2 e (List.mem_of_getElem? hmem) last (by simp)
  · obtain rfl : e = last := by
      rw [List.getElem?_append_right hi] at hmem
      have hzero : m - 1 - init.length = 0 := by
        simp at hlt
        omega
      rw [hzero] at hmem
      simpa using hmem.symm
    exact le_rfl

/-- A log lies in that of the leader of its last term. -/
theorem prefix_reign {B : ℕ} {l : List ε} (hwf : WellFormed τ s B l) (hne : l ≠ []) :
    ∃ r, s.reign (lastTerm τ l) = some r ∧ l <+: r.log := by
  obtain ⟨init, last, rfl⟩ := (List.eq_nil_or_concat' l).resolve_left hne
  obtain ⟨r, hr, hp⟩ := hwf.traced init.length last (by simp)
  refine ⟨r, ?_, ?_⟩
  · unfold lastTerm
    simpa using hr
  · rwa [List.take_of_length_le (by simp)] at hp

/-- Whoever is elected in a later term was elected with what is chosen. -/
theorem chosen_prefix_base (h : Inv S τ s) {T m : ℕ} {r : Reign ν ε}
    (hc : Chosen S τ s T m r) : ∀ T', T < T' → ∀ {r'}, s.reign T' = some r' →
      r.log.take m <+: r'.base := by
  intro T'
  induction T' using Nat.strong_induction_on with
  | _ T' ih =>
  intro hT r' hr'
  -- a node of both quorums: it confirmed the prefix and voted for the leader
  obtain ⟨Q, hQ, hvotes⟩ := h.elected hr'
  obtain ⟨q, hack, hq⟩ := S.meet hc.quorum hQ
  obtain ⟨l, hb, hup, hkept⟩ := hvotes q hq
  have hl : r.log.take m <+: l := by
    rcases hkept hT hc.reign hack with hin | ⟨T₁, r₁, hlt, hlt', hr₁, hno⟩
    · exact hin
    · exact absurd (ih T₁ hlt' hlt hr₁) hno
  have hlwf := h.ballot_wf hb
  have hbwf := (h.reign_wf hr').of_isPrefix (h.base hr').1
  have hTl := le_lastTerm hlwf hc hl
  have hmlen := hc.le_length
  have hmpos := hc.pos
  rcases hup with hlt | ⟨heq, hlen⟩
  · -- the last entry of the new leader is of a term in between
    have hne : r'.base ≠ [] := by
      rintro hnil
      rw [hnil] at hlt
      simp [lastTerm] at hlt
    obtain ⟨r₁, hr₁, hp₁⟩ := prefix_reign hbwf hne
    have hbound : lastTerm τ r'.base < T' := by
      unfold lastTerm
      rw [List.getLast?_eq_some_getLast hne]
      exact (h.base hr').2 _ (List.getLast_mem hne)
    have hin := ih (lastTerm τ r'.base) hbound (by omega) hr₁
    rcases List.prefix_or_prefix_of_prefix (hin.trans (h.base hr₁).1) hp₁ with hp | hp
    · exact hp
    · -- else the last entry would be one of term `T` or before
      have hmem : r'.base.getLast hne ∈ r.log :=
        List.take_subset _ _ (hp.subset (List.getLast_mem hne))
      have hle := (h.reign_wf hc.reign).le _ hmem
      have hlast : lastTerm τ r'.base = τ (r'.base.getLast hne) := by
        unfold lastTerm
        rw [List.getLast?_eq_some_getLast hne]
        rfl
      omega
  · -- both logs end in the same term, and the longer one holds the other
    have hlne : l ≠ [] := by
      rintro rfl
      have hzero := hl.length_le
      rw [List.length_take, List.length_nil] at hzero
      omega
    have hne : r'.base ≠ [] := by
      rintro hnil
      rw [hnil] at hlen
      exact hlne (List.eq_nil_of_length_eq_zero (by simpa using hlen))
    obtain ⟨r₁, hr₁, hp₁⟩ := prefix_reign hlwf hlne
    obtain ⟨r₂, hr₂, hp₂⟩ := prefix_reign hbwf hne
    obtain rfl : r₁ = r₂ := Option.some.inj (hr₁.symm.trans (heq ▸ hr₂))
    exact hl.trans (List.prefix_of_prefix_length_le hp₁ hp₂ hlen)

/-- `l` is part of what is chosen in a term up to `B`. -/
def Committed (S : QuorumSystem ν) (τ : ε → ℕ) (s : State ν ε) (B : ℕ) (l : List ε) : Prop :=
  l = [] ∨ ∃ T m r, T ≤ B ∧ Chosen S τ s T m r ∧ l <+: r.log.take m

theorem Committed.nil {B : ℕ} : Committed S τ s B [] := Or.inl rfl

theorem Committed.grows {B B' : ℕ} {l : List ε} (h : Committed S τ s B l) (hg : Grows s s')
    (hB : B ≤ B') : Committed S τ s' B' l := by
  rcases h with h | ⟨T, m, r, hT, hc, hp⟩
  · exact Or.inl h
  · obtain ⟨r', hc', hlog⟩ := hc.grows hg
    refine Or.inr ⟨T, m, r', hT.trans hB, hc', ?_⟩
    rwa [take_of_isPrefix hlog hc.le_length]

theorem Committed.of_isPrefix {B : ℕ} {l l' : List ε} (h : Committed S τ s B l)
    (hp : l' <+: l) : Committed S τ s B l' := by
  rcases h with rfl | ⟨T, m, r, hT, hc, hl⟩
  · exact Or.inl (List.prefix_nil.mp hp)
  · exact Or.inr ⟨T, m, r, hT, hc, hp.trans hl⟩

/-- The leader of `T` was elected with what was committed before `T`. -/
theorem committed_prefix_base (h : Inv S τ s) {B T : ℕ} {l : List ε} {r : Reign ν ε}
    (hl : Committed S τ s B l) (hB : B < T) (hr : s.reign T = some r) : l <+: r.base := by
  rcases hl with rfl | ⟨T₀, m, r₀, hT, hc, hp⟩
  · exact List.nil_prefix
  · exact hp.trans (chosen_prefix_base h hc T (lt_of_le_of_lt hT hB) hr)

/-- The leader of `T` holds what was committed up to `T`. -/
theorem committed_prefix_reign (h : Inv S τ s) {T : ℕ} {l : List ε} {r : Reign ν ε}
    (hl : Committed S τ s T l) (hr : s.reign T = some r) : l <+: r.log := by
  rcases hl with rfl | ⟨T₀, m, r₀, hT, hc, hp⟩
  · exact List.nil_prefix
  · rcases Nat.lt_or_eq_of_le hT with hlt | rfl
    · exact hp.trans ((chosen_prefix_base h hc T hlt hr).trans (h.base hr).1)
    · obtain rfl : r₀ = r := Option.some.inj (hc.reign.symm.trans hr)
      exact hp.trans (List.take_prefix _ _)

/-- What a node has confirmed of the leader of `T`, and what is committed by
then, is in its log. -/
theorem acked_prefix_log (h : Inv S τ s) {q : ν} {T m : ℕ} {l : List ε} {r : Reign ν ε}
    (hr : s.reign T = some r) (hack : m ≤ s.ack q T) (hl : Committed S τ s T l)
    (hlen : l.length ≤ m) : l <+: s.log q := by
  have hshort : r.log.take l.length = l :=
    (List.prefix_iff_eq_take.mp (committed_prefix_reign h hl hr)).symm
  rcases h.ack_kept hr (hlen.trans hack) with hkept | ⟨T', r', hlt, -, hr', hno⟩
  · rwa [hshort] at hkept
  · -- the exception is a later leader without what is committed
    rw [hshort] at hno
    exact absurd (committed_prefix_base h hl hlt hr') hno

/-- What is committed is in the logs of a quorum. -/
theorem Committed.stored (h : Inv S τ s) {B : ℕ} {l : List ε} (hl : Committed S τ s B l)
    (hne : l ≠ []) : S.IsQuorum { q | l <+: s.log q } := by
  rcases hl with rfl | ⟨T, m, r, -, hc, hp⟩
  · exact absurd rfl hne
  · refine S.mono (fun q hq => ?_) hc.quorum
    have hlen : l.length ≤ m := hp.length_le.trans (by rw [List.length_take]; omega)
    exact acked_prefix_log h hc.reign hq (Or.inr ⟨T, m, r, le_rfl, hc, hp⟩) hlen

/-- A node keeps what was committed up to its term. -/
theorem step_keeps [DecidableEq ν] {n q : ν} {B : ℕ} {l : List ε} (h : Inv S τ s)
    (hs : Step S τ n s s') (hl : Committed S τ s B l) (hB : B ≤ s.term q) (hq : l <+: s.log q) :
    l <+: s'.log q := by
  cases hs with
  | advance _ T hT => exact hq
  | vote _ c hnone => exact hq
  | elect _ Q hnone hQ hvotes => exact hq
  | append r e hr he =>
    show l <+: Function.update s.log r.leader (s.log r.leader ++ [e]) q
    by_cases hqr : q = r.leader
    · subst hqr
      rw [Function.update_self]
      exact hq.trans (List.prefix_append _ _)
    · rw [Function.update_of_ne hqr]
      exact hq
  | accept _ r m l' hr hne hm hadopts =>
    show l <+: Function.update s.log n l' q
    by_cases hqn : q = n
    · subst hqn
      rw [Function.update_self]
      exact hadopts.keeps (List.take_prefix _ _) hq
        (committed_prefix_reign h (hl.grows (Grows.refl s) hB) hr)
    · rw [Function.update_of_ne hqn]
      exact hq
  | credit _ p r m hr hp hm hl => exact hq

theorem steps_keeps [DecidableEq ν] {n q : ν} {B : ℕ} {l : List ε} (h : Inv S τ s)
    (hs : Steps S τ n s s') (hl : Committed S τ s B l) (hB : B ≤ s.term q) (hq : l <+: s.log q) :
    l <+: s'.log q := by
  induction hs with
  | refl => exact hq
  | tail hsteps hstep ih =>
    obtain ⟨hinv, hg, -⟩ := steps_inv h hsteps
    exact step_keeps hinv hstep (hl.grows hg le_rfl) (hB.trans (hg.term q)) ih

/-- Of two committed prefixes one is a prefix of the other. -/
theorem committed_comparable (h : Inv S τ s) {B B' : ℕ} {l l' : List ε}
    (hl : Committed S τ s B l) (hl' : Committed S τ s B' l') : l <+: l' ∨ l' <+: l := by
  rcases hl with rfl | ⟨T, m, r, hT, hc, hp⟩
  · exact Or.inl List.nil_prefix
  rcases hl' with rfl | ⟨T', m', r', hT', hc', hp'⟩
  · exact Or.inr List.nil_prefix
  -- both lie in the log of the later of the two leaders
  rcases Nat.le_total T T' with hle | hle
  · have hin := committed_prefix_reign h (Or.inr ⟨T, m, r, hle, hc, hp⟩) hc'.reign
    exact List.prefix_or_prefix_of_prefix hin (hp'.trans (List.take_prefix _ _))
  · have hin := committed_prefix_reign h (Or.inr ⟨T', m', r', hle, hc', hp'⟩) hc.reign
    exact List.prefix_or_prefix_of_prefix (hp.trans (List.take_prefix _ _)) hin

/-- Two nodes with the votes of a quorum in one term are the same. -/
theorem leader_unique (h : Inv S τ s) {T : ℕ} {r : Reign ν ε} {c : ν} {Q : Set ν}
    (hr : s.reign T = some r) (hQ : S.IsQuorum Q)
    (hvotes : ∀ q ∈ Q, ∃ l, s.ballot q T = some (c, l)) : r.leader = c := by
  obtain ⟨Q', hQ', hvotes'⟩ := h.elected hr
  obtain ⟨q, hq, hq'⟩ := S.meet hQ hQ'
  obtain ⟨l, hb⟩ := hvotes q hq
  obtain ⟨l', hb', -⟩ := hvotes' q hq'
  exact (Prod.mk.inj (Option.some.inj (hb'.symm.trans hb))).1

end ReplicatedLog
