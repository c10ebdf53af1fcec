import Mathlib.Logic.Function.Basic
import Mathlib.Logic.Relation
import OxideKv.Lib.Quorum

/-!
# A replicated log with terms

The protocol behind a leader-based replicated log, over any type of nodes,
any type of entries with a term and any quorum system.  The state is what
happened so far: who voted for whom and with which log, which node led a term
from which log on, and how much of a leader's log each node has confirmed.

A node enters a later term, votes once in a term, is elected by a quorum of
votes, appends to its log while it leads, and takes over a prefix of the
leader's log.  What a node of the leader's term has of the leader's log counts
as confirmed without a message.  `Grows` says that nothing of the past is lost, and `Inv` is the
invariant that `steps_inv` carries through the steps of a node.
-/

namespace ReplicatedLog

open Quorum

variable {ν ε : Type}

/-- The rule of one leader in one term. -/
structure Reign (ν ε : Type) where
  leader : ν
  /-- The log of the leader when it was elected. -/
  base : List ε
  /-- The log of the leader now, or when its term ended. -/
  log : List ε

structure State (ν ε : Type) where
  term : ν → ℕ
  log : ν → List ε
  /-- The vote of a node in a term, with the log the node had then. -/
  ballot : ν → ℕ → Option (ν × List ε)
  reign : ℕ → Option (Reign ν ε)
  /-- How much of the leader's log a node has confirmed in a term. -/
  ack : ν → ℕ → ℕ

section Logs

variable (τ : ε → ℕ)

/-- The term of the last entry, `0` for the empty log. -/
def lastTerm (l : List ε) : ℕ := (l.getLast?.map τ).getD 0

/-- `l` is at least as up to date as `l'`. -/
def UpToDate (l l' : List ε) : Prop :=
  lastTerm τ l' < lastTerm τ l ∨ lastTerm τ l' = lastTerm τ l ∧ l'.length ≤ l.length

/-- The terms do not go down along the log. -/
def Sorted (l : List ε) : Prop := l.Pairwise fun a b => τ a ≤ τ b

end Logs

/-! ## The past is kept -/

/-- Everything that happened in `s` has happened in `s'`. -/
structure Grows (s s' : State ν ε) : Prop where
  term : ∀ q, s.term q ≤ s'.term q
  ballot : ∀ {q T b}, s.ballot q T = some b → s'.ballot q T = some b
  reign : ∀ {T r}, s.reign T = some r → ∃ r', s'.reign T = some r' ∧ r'.leader = r.leader ∧
    r'.base = r.base ∧ r.log <+: r'.log
  ack : ∀ q T, s.ack q T ≤ s'.ack q T

theorem Grows.refl (s : State ν ε) : Grows s s :=
  ⟨fun _ => le_rfl, fun h => h, fun {_ r} h => ⟨r, h, rfl, rfl, List.prefix_refl _⟩,
    fun _ _ => le_rfl⟩

theorem Grows.trans {s s' s'' : State ν ε} (h : Grows s s') (h' : Grows s' s'') :
    Grows s s'' := by
  refine ⟨fun q => (h.term q).trans (h'.term q), fun hb => h'.ballot (h.ballot hb), ?_,
    fun q T => (h.ack q T).trans (h'.ack q T)⟩
  intro T r hr
  obtain ⟨r₁, hr₁, hl₁, hb₁, hp₁⟩ := h.reign hr
  obtain ⟨r₂, hr₂, hl₂, hb₂, hp₂⟩ := h'.reign hr₁
  exact ⟨r₂, hr₂, hl₂.trans hl₁, hb₂.trans hb₁, hp₁.trans hp₂⟩

/-- What a step of `n` leaves alone. -/
structure Local (n : ν) (s s' : State ν ε) : Prop where
  term : ∀ {q}, q ≠ n → s'.term q = s.term q
  log : ∀ {q}, q ≠ n → s'.log q = s.log q
  ballot : ∀ {q}, q ≠ n → s'.ballot q = s.ballot q
  /-- Who leads a term after the step and did not before is `n`. -/
  reign : ∀ {T r'}, s'.reign T = some r' →
    (∃ r, s.reign T = some r ∧ r'.leader = r.leader) ∨ r'.leader = n

theorem Local.refl (n : ν) (s : State ν ε) : Local n s s :=
  ⟨fun _ => rfl, fun _ => rfl, fun _ => rfl, fun {_ r} hr => Or.inl ⟨r, hr, rfl⟩⟩

theorem Local.trans {n : ν} {s s' s'' : State ν ε} (h : Local n s s') (h' : Local n s' s'') :
    Local n s s'' := by
  refine ⟨fun hq => (h'.term hq).trans (h.term hq), fun hq => (h'.log hq).trans (h.log hq),
    fun hq => (h'.ballot hq).trans (h.ballot hq), fun hr'' => ?_⟩
  rcases h'.reign hr'' with ⟨r', hr', hlead'⟩ | hn
  · rcases h.reign hr' with ⟨r, hr, hlead⟩ | hn
    · exact Or.inl ⟨r, hr, hlead'.trans hlead⟩
    · exact Or.inr (hlead'.trans hn)
  · exact Or.inr hn

section Facts

variable (τ : ε → ℕ) (s : State ν ε)

/-- Every entry was put into the log of the leader of its term, after the
entries that precede it here. -/
def Traced (l : List ε) : Prop :=
  ∀ i e, l[i]? = some e → ∃ r, s.reign (τ e) = some r ∧ l.take (i + 1) <+: r.log

/-- What every log of the protocol is like.  `B` bounds the terms. -/
structure WellFormed (B : ℕ) (l : List ε) : Prop where
  traced : Traced τ s l
  sorted : Sorted τ l
  le : ∀ e ∈ l, τ e ≤ B

/-- The part `l` of the log of the leader of `T` is still in `log`, or a later
leader, of a term below `B`, was elected without it. -/
def Kept (l : List ε) (T B : ℕ) (log : List ε) : Prop :=
  l <+: log ∨ ∃ T' r, T < T' ∧ T' < B ∧ s.reign T' = some r ∧ ¬l <+: r.base

end Facts

/-- The node `q` is in the term `T` and has the first `k` entries of `l`, the log
of its leader. -/
def KeepsUp (s : State ν ε) (T : ℕ) (l : List ε) (q : ν) (k : ℕ) : Prop :=
  s.term q = T ∧ k ≤ l.length ∧ l.take k <+: s.log q

section Lemmas

variable {τ : ε → ℕ} {s s' : State ν ε} {S : QuorumSystem ν}

theorem take_of_isPrefix {l l' : List ε} (h : l <+: l') {m : ℕ} (hm : m ≤ l.length) :
    l'.take m = l.take m := by
  obtain ⟨rest, rfl⟩ := h
  exact List.take_append_of_le_length hm

theorem getElem?_of_isPrefix {l l' : List ε} (h : l <+: l') {k : ℕ} {e : ε}
    (he : l[k]? = some e) : l'[k]? = some e := by
  obtain ⟨rest, rfl⟩ := h
  rw [List.getElem?_append_left (List.getElem?_eq_some_iff.mp he).1, he]

theorem WellFormed.grows {B : ℕ} {l : List ε} (h : WellFormed τ s B l) (hg : Grows s s') :
    WellFormed τ s' B l := by
  refine ⟨fun i e he => ?_, h.sorted, h.le⟩
  obtain ⟨r, hr, hp⟩ := h.traced i e he
  obtain ⟨r', hr', -, -, hp'⟩ := hg.reign hr
  exact ⟨r', hr', hp.trans hp'⟩

theorem WellFormed.mono {B B' : ℕ} {l : List ε} (h : WellFormed τ s B l) (hB : B ≤ B') :
    WellFormed τ s B' l :=
  ⟨h.traced, h.sorted, fun e he => (h.le e he).trans hB⟩

/-- A prefix of a log is a log. -/
theorem WellFormed.of_isPrefix {B : ℕ} {l l' : List ε} (h : WellFormed τ s B l) (hp : l' <+: l) :
    WellFormed τ s B l' := by
  refine ⟨fun i e he => ?_, h.sorted.sublist hp.sublist, fun e he => h.le e (hp.subset he)⟩
  have hi : i < l'.length := (List.getElem?_eq_some_iff.mp he).1
  have he' : l[i]? = some e := by
    obtain ⟨rest, rfl⟩ := hp
    rw [List.getElem?_append_left hi, he]
  obtain ⟨r, hr, hpr⟩ := h.traced i e he'
  rw [take_of_isPrefix hp hi] at hpr
  exact ⟨r, hr, hpr⟩

/-- Two logs whose entries at one place have the same term agree up to
there. -/
theorem WellFormed.take_eq {B B' i : ℕ} {l l' : List ε} {e e' : ε} (h : WellFormed τ s B l)
    (h' : WellFormed τ s B' l') (he : l[i]? = some e) (he' : l'[i]? = some e')
    (hterm : τ e = τ e') : l.take (i + 1) = l'.take (i + 1) := by
  obtain ⟨r, hr, hp⟩ := h.traced i e he
  obtain ⟨r', hr', hp'⟩ := h'.traced i e' he'
  obtain rfl : r = r' := Option.some.inj (hr.symm.trans (hterm ▸ hr'))
  have hi : i < l.length := (List.getElem?_eq_some_iff.mp he).1
  have hi' : i < l'.length := (List.getElem?_eq_some_iff.mp he').1
  have hlen : (l.take (i + 1)).length = (l'.take (i + 1)).length := by
    simp only [List.length_take]
    omega
  exact (List.prefix_of_prefix_length_le hp hp' hlen.le).eq_of_length hlen

theorem Kept.grows {l log : List ε} {T B : ℕ} (h : Kept s l T B log) (hg : Grows s s') :
    Kept s' l T B log := by
  rcases h with h | ⟨T', r, hT, hB, hr, hno⟩
  · exact Or.inl h
  · obtain ⟨r', hr', -, hbase, -⟩ := hg.reign hr
    exact Or.inr ⟨T', r', hT, hB, hr', hbase ▸ hno⟩

theorem Kept.mono {l log log' : List ε} {T B B' : ℕ} (h : Kept s l T B log) (hB : B ≤ B')
    (hlog : log <+: log') : Kept s l T B' log' := by
  rcases h with h | ⟨T', r, hT, hlt, hr, hno⟩
  · exact Or.inl (h.trans hlog)
  · exact Or.inr ⟨T', r, hT, lt_of_lt_of_le hlt hB, hr, hno⟩

theorem Kept.nil {log : List ε} {T B : ℕ} : Kept s [] T B log := Or.inl List.nil_prefix

end Lemmas

section Invariant

variable {τ : ε → ℕ} {S : QuorumSystem ν}

/-! ## The invariant -/

/-- What holds in every state the protocol reaches. -/
structure Inv (S : QuorumSystem ν) (τ : ε → ℕ) (s : State ν ε) : Prop where
  ballot_le : ∀ {q T b}, s.ballot q T = some b → T ≤ s.term q
  ballot_wf : ∀ {q T c l}, s.ballot q T = some (c, l) → WellFormed τ s T l
  log_wf : ∀ q, WellFormed τ s (s.term q) (s.log q)
  reign_wf : ∀ {T r}, s.reign T = some r → WellFormed τ s T r.log
  base : ∀ {T r}, s.reign T = some r → r.base <+: r.log ∧ ∀ e ∈ r.base, τ e < T
  leader_term : ∀ {T r}, s.reign T = some r → T ≤ s.term r.leader
  leader_log : ∀ {T r}, s.reign T = some r → s.term r.leader = T → s.log r.leader = r.log
  ack_none : ∀ {T}, s.reign T = none → ∀ q, s.ack q T = 0
  ack_le : ∀ {T r}, s.reign T = some r → ∀ q, s.ack q T ≤ r.log.length
  ack_leader : ∀ {T r}, s.reign T = some r → s.ack r.leader T = r.log.length
  ack_term : ∀ {q T}, 0 < s.ack q T → T ≤ s.term q
  /-- A node holds what it confirmed, until it follows a later leader that was
  elected without it. -/
  ack_kept : ∀ {q T r m}, s.reign T = some r → m ≤ s.ack q T →
    Kept s (r.log.take m) T (s.term q + 1) (s.log q)
  /-- A node voted with what it had confirmed, up to the same exception. -/
  ballot_kept : ∀ {q T T' c l r m}, s.ballot q T' = some (c, l) → T < T' →
    s.reign T = some r → m ≤ s.ack q T → Kept s (r.log.take m) T (T' + 1) l
  /-- A leader had the votes of a quorum, of logs not ahead of its own. -/
  elected : ∀ {T' r'}, s.reign T' = some r' → ∃ Q, S.IsQuorum Q ∧ ∀ q ∈ Q, ∃ l,
    s.ballot q T' = some (r'.leader, l) ∧ UpToDate τ r'.base l ∧
      ∀ {T r m}, T < T' → s.reign T = some r → m ≤ s.ack q T → Kept s (r.log.take m) T T' l

/-- The state before anything happened. -/
def State.init : State ν ε :=
  { term := fun _ => 0, log := fun _ => [], ballot := fun _ _ => none, reign := fun _ => none,
    ack := fun _ _ => 0 }

theorem init_inv : Inv S τ (State.init : State ν ε) := by
  refine ⟨?_, ?_, fun q => ⟨?_, List.Pairwise.nil, ?_⟩, ?_, ?_, ?_, ?_, fun _ _ => rfl, ?_, ?_, ?_,
    ?_, ?_, ?_⟩
  all_goals simp [State.init, Traced]

end Invariant

/-! ## Steps -/

section Steps

variable [DecidableEq ν]

/-- A table of two arguments with one place changed. -/
def put {β : Type} (f : ν → ℕ → β) (q : ν) (T : ℕ) (b : β) : ν → ℕ → β :=
  Function.update f q (Function.update (f q) T b)

theorem put_apply {β : Type} (f : ν → ℕ → β) (q : ν) (T : ℕ) (b : β) (p : ν) (U : ℕ) :
    put f q T b p U = if p = q ∧ U = T then b else f p U := by
  unfold put
  by_cases hp : p = q
  · subst hp
    by_cases hU : U = T
    · subst hU
      simp
    · simp [hU]
  · simp [hp]

theorem put_self {β : Type} (f : ν → ℕ → β) (q : ν) (T : ℕ) : put f q T (f q T) = f := by
  unfold put
  rw [Function.update_eq_self, Function.update_eq_self]

/-- A node with the log `old` takes over `new`: nothing changes when the log
holds it already, else the log is `new`. -/
inductive Adopts (new old : List ε) : List ε → Prop where
  | keep (h : new <+: old) : Adopts new old old
  | take (h : ¬new <+: old) : Adopts new old new

/-- One step of a node. -/
inductive Step (S : QuorumSystem ν) (τ : ε → ℕ) : ν → State ν ε → State ν ε → Prop where
  | advance {s : State ν ε} (q : ν) (T : ℕ) (h : s.term q < T) :
      Step S τ q s { s with term := Function.update s.term q T }
  | vote {s : State ν ε} (q c : ν) (h : s.ballot q (s.term q) = none) :
      Step S τ q s { s with ballot := put s.ballot q (s.term q) (some (c, s.log q)) }
  | elect {s : State ν ε} (c : ν) (Q : Set ν) (hnone : s.reign (s.term c) = none)
      (hQ : S.IsQuorum Q)
      (hvotes : ∀ q ∈ Q, ∃ l, s.ballot q (s.term c) = some (c, l) ∧ UpToDate τ (s.log c) l) :
      Step S τ c s
        { s with
          reign := Function.update s.reign (s.term c) (some ⟨c, s.log c, s.log c⟩)
          ack := put s.ack c (s.term c) (s.log c).length }
  | append {s : State ν ε} (r : Reign ν ε) (e : ε) (hr : s.reign (s.term r.leader) = some r)
      (he : τ e = s.term r.leader) :
      Step S τ r.leader s
        { s with
          log := Function.update s.log r.leader (s.log r.leader ++ [e])
          reign := Function.update s.reign (s.term r.leader)
            (some { r with log := r.log ++ [e] })
          ack := put s.ack r.leader (s.term r.leader) (r.log.length + 1) }
  | accept {s : State ν ε} (q : ν) (r : Reign ν ε) (m : ℕ) (l : List ε)
      (hr : s.reign (s.term q) = some r) (hq : r.leader ≠ q) (hm : m ≤ r.log.length)
      (hl : Adopts (r.log.take m) (s.log q) l) :
      Step S τ q s
        { s with
          log := Function.update s.log q l
          ack := put s.ack q (s.term q) (max (s.ack q (s.term q)) m) }
  | credit {s : State ν ε} (n q : ν) (r : Reign ν ε) (m : ℕ)
      (hr : s.reign (s.term q) = some r) (hq : r.leader ≠ q) (hm : m ≤ r.log.length)
      (hl : r.log.take m <+: s.log q) :
      Step S τ n s { s with ack := put s.ack q (s.term q) (max (s.ack q (s.term q)) m) }

variable {τ : ε → ℕ} {S : QuorumSystem ν} {s s' : State ν ε} {n : ν}

theorem le_update {f : ν → ℕ} {q : ν} {T : ℕ} (h : f q ≤ T) (p : ν) :
    f p ≤ Function.update f q T p := by
  by_cases hp : p = q
  · subst hp
    simpa using h
  · simp [hp]

theorem le_put {f : ν → ℕ → ℕ} {q : ν} {T m : ℕ} (h : f q T ≤ m) (p : ν) (U : ℕ) :
    f p U ≤ put f q T m p U := by
  rw [put_apply]
  split_ifs with hc
  · obtain ⟨rfl, rfl⟩ := hc
    exact h
  · exact le_rfl

/-- The past of a step. -/
theorem step_grows (h : Inv S τ s) (hs : Step S τ n s s') : Grows s s' := by
  cases hs with
  | advance _ T hT =>
    exact ⟨le_update hT.le, fun hb => hb, fun {_ r} hr => ⟨r, hr, rfl, rfl, List.prefix_refl _⟩,
      fun _ _ => le_rfl⟩
  | vote _ c hnone =>
    refine ⟨fun _ => le_rfl, fun {p U b} hb => ?_,
      fun {_ r} hr => ⟨r, hr, rfl, rfl, List.prefix_refl _⟩, fun _ _ => le_rfl⟩
    show put s.ballot n (s.term n) (some (c, s.log n)) p U = some b
    rw [put_apply, if_neg, hb]
    rintro ⟨rfl, rfl⟩
    rw [hnone] at hb
    cases hb
  | elect _ Q hnone hQ hvotes =>
    refine ⟨fun _ => le_rfl, fun hb => hb,
      fun {U r} hr => ⟨r, ?_, rfl, rfl, List.prefix_refl _⟩, ?_⟩
    · have hU : U ≠ s.term n := by
        rintro rfl
        rw [hnone] at hr
        cases hr
      simpa [hU] using hr
    · refine le_put ?_
      rw [h.ack_none hnone n]
      omega
  | append r e hr he =>
    refine ⟨fun _ => le_rfl, fun hb => hb, fun {U r₀} hr₀ => ?_, ?_⟩
    · by_cases hU : U = s.term r.leader
      · subst hU
        obtain rfl : r = r₀ := Option.some.inj (hr.symm.trans hr₀)
        exact ⟨{ r with log := r.log ++ [e] }, by simp, rfl, rfl, List.prefix_append _ _⟩
      · exact ⟨r₀, by simpa [hU] using hr₀, rfl, rfl, List.prefix_refl _⟩
    · refine le_put ?_
      have := h.ack_le hr r.leader
      omega
  | accept _ r m l hr hq hm hl =>
    exact ⟨fun _ => le_rfl, fun hb => hb, fun {_ r} hr => ⟨r, hr, rfl, rfl, List.prefix_refl _⟩,
      le_put (le_max_left _ _)⟩
  | credit _ q r m hr hq hm hl =>
    exact ⟨fun _ => le_rfl, fun hb => hb, fun {_ r} hr => ⟨r, hr, rfl, rfl, List.prefix_refl _⟩,
      le_put (le_max_left _ _)⟩

/-- What is confirmed after a step was confirmed before, or is nothing, or
belongs to the present term of the node. -/
theorem step_ack (h : Inv S τ s) (hs : Step S τ n s s') {q : ν} {T m : ℕ} {r' : Reign ν ε}
    (hr' : s'.reign T = some r') (hm : m ≤ s'.ack q T) :
    (∃ r, s.reign T = some r ∧ m ≤ s.ack q T ∧ r'.log.take m = r.log.take m) ∨ m = 0 ∨
      s'.term q = T := by
  cases hs with
  | advance | vote => exact Or.inl ⟨r', hr', hm, rfl⟩
  | elect _ Q hnone hQ hvotes =>
    by_cases hT : T = s.term n
    · subst hT
      by_cases hq : q = n
      · subst hq
        exact Or.inr (Or.inr rfl)
      · have hzero : put s.ack n (s.term n) (s.log n).length q (s.term n) = 0 := by
          rw [put_apply, if_neg (fun hc => hq hc.1), h.ack_none hnone]
        exact Or.inr (Or.inl (Nat.le_zero.mp (hzero ▸ hm)))
    · have hreign : s.reign T = some r' := by simpa [hT] using hr'
      have hack : put s.ack n (s.term n) (s.log n).length q T = s.ack q T := by
        rw [put_apply, if_neg (fun hc => hT hc.2)]
      exact Or.inl ⟨r', hreign, hack ▸ hm, rfl⟩
  | append r e hr he =>
    by_cases hT : T = s.term r.leader
    · subst hT
      by_cases hq : q = r.leader
      · subst hq
        exact Or.inr (Or.inr rfl)
      · have hack : put s.ack r.leader (s.term r.leader) (r.log.length + 1) q (s.term r.leader) =
            s.ack q (s.term r.leader) := by
          rw [put_apply, if_neg (fun hc => hq hc.1)]
        have hm' : m ≤ s.ack q (s.term r.leader) := hack ▸ hm
        have hle := h.ack_le hr q
        obtain rfl : ({ r with log := r.log ++ [e] } : Reign ν ε) = r' := by simpa using hr'
        exact Or.inl ⟨r, hr, hm', take_of_isPrefix (List.prefix_append _ _) (by omega)⟩
    · have hreign : s.reign T = some r' := by simpa [hT] using hr'
      have hack : put s.ack r.leader (s.term r.leader) (r.log.length + 1) q T = s.ack q T := by
        rw [put_apply, if_neg (fun hc => hT hc.2)]
      exact Or.inl ⟨r', hreign, hack ▸ hm, rfl⟩
  | accept _ r k l hr hq hk hl =>
    by_cases hc : q = n ∧ T = s.term n
    · obtain ⟨rfl, rfl⟩ := hc
      exact Or.inr (Or.inr rfl)
    · have hack : put s.ack n (s.term n) (max (s.ack n (s.term n)) k) q T = s.ack q T := by
        rw [put_apply, if_neg hc]
      exact Or.inl ⟨r', hr', hack ▸ hm, rfl⟩
  | credit _ p r k hr hp hk hl =>
    by_cases hc : q = p ∧ T = s.term p
    · obtain ⟨rfl, rfl⟩ := hc
      exact Or.inr (Or.inr rfl)
    · have hack : put s.ack p (s.term p) (max (s.ack p (s.term p)) k) q T = s.ack q T := by
        rw [put_apply, if_neg hc]
      exact Or.inl ⟨r', hr', hack ▸ hm, rfl⟩

/-- A vote cast before a step keeps what its voter had confirmed. -/
theorem step_kept (h : Inv S τ s) (hs : Step S τ n s s') {q : ν} {T T' B m : ℕ} {l : List ε}
    {b : ν × List ε} {r' : Reign ν ε} (hb : s.ballot q T' = some b) (hT : T < T')
    (hkept : ∀ {r}, s.reign T = some r → m ≤ s.ack q T → Kept s (r.log.take m) T B l)
    (hr' : s'.reign T = some r') (hm : m ≤ s'.ack q T) : Kept s' (r'.log.take m) T B l := by
  have hg := step_grows h hs
  rcases step_ack h hs hr' hm with ⟨r, hr, hm₀, htake⟩ | rfl | hterm
  · rw [htake]
    exact (hkept hr hm₀).grows hg
  · exact Kept.nil
  · have := h.ballot_le hb
    have := hg.term q
    omega

/-- A leader of before a step. -/
theorem step_elected (h : Inv S τ s) (hs : Step S τ n s s') {T' : ℕ} {r r' : Reign ν ε}
    (hr : s.reign T' = some r) (hleader : r'.leader = r.leader) (hbase : r'.base = r.base) :
    ∃ Q, S.IsQuorum Q ∧ ∀ q ∈ Q, ∃ l, s'.ballot q T' = some (r'.leader, l) ∧
      UpToDate τ r'.base l ∧ ∀ {T r₀ m}, T < T' → s'.reign T = some r₀ → m ≤ s'.ack q T →
        Kept s' (r₀.log.take m) T T' l := by
  obtain ⟨Q, hQ, hvotes⟩ := h.elected hr
  refine ⟨Q, hQ, fun q hq => ?_⟩
  obtain ⟨l, hb, hup, hkept⟩ := hvotes q hq
  refine ⟨l, ?_, hbase ▸ hup, fun hT hr₀ hm => ?_⟩
  · rw [hleader]
    exact (step_grows h hs).ballot hb
  · exact step_kept h hs hb hT (fun hr₁ hm₁ => hkept hT hr₁ hm₁) hr₀ hm

theorem advance_inv (h : Inv S τ s) (q : ν) (T : ℕ) (hT : s.term q < T) :
    Inv S τ { s with term := Function.update s.term q T } := by
  have hs : Step S τ q s { s with term := Function.update s.term q T } := Step.advance q T hT
  have hg := step_grows h hs
  refine ⟨fun hb => (h.ballot_le hb).trans (hg.term _), fun hb => (h.ballot_wf hb).grows hg,
    fun p => ((h.log_wf p).mono (hg.term p)).grows hg, fun hr => (h.reign_wf hr).grows hg,
    h.base, fun hr => (h.leader_term hr).trans (hg.term _), ?_, h.ack_none, h.ack_le,
    h.ack_leader, fun hm => (h.ack_term hm).trans (hg.term _), ?_,
    fun hb hlt hr hm => step_kept h hs hb hlt (h.ballot_kept hb hlt) hr hm,
    fun hr => step_elected h hs hr rfl rfl⟩
  · -- the leader of `U` that enters `T` has left `U` behind
    intro U r hr hterm
    have hle := h.leader_term hr
    have heq : s.term r.leader = U := by
      have := hg.term r.leader
      omega
    exact h.leader_log hr heq
  · intro p U r m hr hm
    have := hg.term p
    exact ((h.ack_kept hr hm).mono (by omega) (List.prefix_refl _)).grows hg

theorem vote_inv (h : Inv S τ s) (q c : ν) (hnone : s.ballot q (s.term q) = none) :
    Inv S τ { s with ballot := put s.ballot q (s.term q) (some (c, s.log q)) } := by
  have hs : Step S τ q s { s with ballot := put s.ballot q (s.term q) (some (c, s.log q)) } :=
    Step.vote q c hnone
  have hg := step_grows h hs
  -- a vote is one of before, or the one that is cast here
  have hballot : ∀ {p U b}, put s.ballot q (s.term q) (some (c, s.log q)) p U = some b →
      s.ballot p U = some b ∨ p = q ∧ U = s.term q ∧ b = (c, s.log q) := by
    intro p U b hb
    rw [put_apply] at hb
    split_ifs at hb with hc
    · exact Or.inr ⟨hc.1, hc.2, (Option.some.inj hb).symm⟩
    · exact Or.inl hb
  refine ⟨?_, ?_, fun p => (h.log_wf p).grows hg, fun hr => (h.reign_wf hr).grows hg, h.base,
    h.leader_term, h.leader_log, h.ack_none, h.ack_le, h.ack_leader, h.ack_term,
    fun hr hm => (h.ack_kept hr hm).grows hg, ?_, fun hr => step_elected h hs hr rfl rfl⟩
  · intro p U b hb
    rcases hballot hb with hb | ⟨rfl, rfl, rfl⟩
    · exact h.ballot_le hb
    · exact le_rfl
  · intro p U c' l hb
    rcases hballot hb with hb | ⟨rfl, rfl, hcast⟩
    · exact (h.ballot_wf hb).grows hg
    · obtain ⟨rfl, rfl⟩ := Prod.mk.inj hcast
      exact (h.log_wf p).grows hg
  · intro p U U' c' l r m hb hlt hr hm
    rcases hballot hb with hb | ⟨rfl, rfl, hcast⟩
    · exact step_kept h hs hb hlt (h.ballot_kept hb hlt) hr hm
    · obtain ⟨rfl, rfl⟩ := Prod.mk.inj hcast
      exact (h.ack_kept hr hm).grows hg

theorem elect_inv (h : Inv S τ s) (c : ν) (Q : Set ν) (hnone : s.reign (s.term c) = none)
    (hQ : S.IsQuorum Q)
    (hvotes : ∀ q ∈ Q, ∃ l, s.ballot q (s.term c) = some (c, l) ∧ UpToDate τ (s.log c) l) :
    Inv S τ
      { s with
        reign := Function.update s.reign (s.term c) (some ⟨c, s.log c, s.log c⟩)
        ack := put s.ack c (s.term c) (s.log c).length } := by
  have hs : Step S τ c s _ := Step.elect c Q hnone hQ hvotes
  have hg := step_grows h hs
  -- a reign is one of before, or the one that starts here
  have hreign : ∀ {U r}, Function.update s.reign (s.term c) (some ⟨c, s.log c, s.log c⟩) U =
      some r → U ≠ s.term c ∧ s.reign U = some r ∨ U = s.term c ∧ r = ⟨c, s.log c, s.log c⟩ := by
    intro U r hr
    by_cases hU : U = s.term c
    · subst hU
      rw [Function.update_self] at hr
      exact Or.inr ⟨rfl, (Option.some.inj hr).symm⟩
    · rw [Function.update_of_ne hU] at hr
      exact Or.inl ⟨hU, hr⟩
  have hack : ∀ q U, U ≠ s.term c →
      put s.ack c (s.term c) (s.log c).length q U = s.ack q U := by
    intro q U hU
    rw [put_apply, if_neg (fun hc => hU hc.2)]
  have hack_term : ∀ q, put s.ack c (s.term c) (s.log c).length q (s.term c) =
      if q = c then (s.log c).length else 0 := by
    intro q
    rw [put_apply, h.ack_none hnone]
    simp
  refine ⟨h.ballot_le, fun hb => (h.ballot_wf hb).grows hg, fun p => (h.log_wf p).grows hg, ?_, ?_,
    ?_, ?_, ?_, ?_, ?_, ?_, ?_,
    fun hb hlt hr hm => step_kept h hs hb hlt (h.ballot_kept hb hlt) hr hm, ?_⟩
  · intro U r hr
    rcases hreign hr with ⟨-, hr⟩ | ⟨rfl, rfl⟩
    · exact (h.reign_wf hr).grows hg
    · exact (h.log_wf c).grows hg
  · intro U r hr
    rcases hreign hr with ⟨-, hr⟩ | ⟨rfl, rfl⟩
    · exact h.base hr
    · refine ⟨List.prefix_refl _, fun e he => lt_of_le_of_ne ((h.log_wf c).le e he) fun hterm => ?_⟩
      -- an entry of this term would come from a leader of this term
      obtain ⟨i, hi⟩ := List.getElem?_of_mem he
      obtain ⟨r, hr, -⟩ := (h.log_wf c).traced i e hi
      rw [hterm, hnone] at hr
      cases hr
  · intro U r hr
    rcases hreign hr with ⟨-, hr⟩ | ⟨rfl, rfl⟩
    · exact h.leader_term hr
    · exact le_rfl
  · intro U r hr hterm
    rcases hreign hr with ⟨-, hr⟩ | ⟨rfl, rfl⟩
    · exact h.leader_log hr hterm
    · rfl
  · intro U hr q
    have hU : U ≠ s.term c := by
      rintro rfl
      simp at hr
    show put s.ack c (s.term c) (s.log c).length q U = 0
    rw [hack q U hU]
    exact h.ack_none (by simpa [hU] using hr) q
  · intro U r hr q
    show put s.ack c (s.term c) (s.log c).length q U ≤ _
    rcases hreign hr with ⟨hU, hr⟩ | ⟨rfl, rfl⟩
    · rw [hack q U hU]
      exact h.ack_le hr q
    · rw [hack_term]
      split_ifs
      · exact le_rfl
      · exact Nat.zero_le _
  · intro U r hr
    show put s.ack c (s.term c) (s.log c).length r.leader U = _
    rcases hreign hr with ⟨hU, hr⟩ | ⟨rfl, rfl⟩
    · rw [hack _ U hU]
      exact h.ack_leader hr
    · rw [hack_term, if_pos rfl]
  · intro q U hpos
    have hpos : 0 < put s.ack c (s.term c) (s.log c).length q U := hpos
    by_cases hU : U = s.term c
    · subst hU
      rw [hack_term] at hpos
      split_ifs at hpos with hq
      · exact hq ▸ le_rfl
      · omega
    · rw [hack q U hU] at hpos
      exact h.ack_term hpos
  · intro q U r m hr hm
    have hm : m ≤ put s.ack c (s.term c) (s.log c).length q U := hm
    rcases hreign hr with ⟨hU, hr⟩ | ⟨rfl, rfl⟩
    · rw [hack q U hU] at hm
      exact (h.ack_kept hr hm).grows hg
    · rw [hack_term] at hm
      split_ifs at hm with hq
      · subst hq
        exact Or.inl (List.take_prefix _ _)
      · obtain rfl : m = 0 := by omega
        exact Kept.nil
  · intro U r hr
    rcases hreign hr with ⟨hU, hr⟩ | ⟨rfl, rfl⟩
    · exact step_elected h hs hr rfl rfl
    · refine ⟨Q, hQ, fun q hq => ?_⟩
      obtain ⟨l, hb, hup⟩ := hvotes q hq
      refine ⟨l, hb, hup, fun {T r m} hT hr hm => ?_⟩
      refine step_kept h hs hb hT (fun hr hm => ?_) hr hm
      -- no leader of this very term was elected without it: there was none
      rcases h.ballot_kept hb hT hr hm with hin | ⟨T', r', hlt, hle, hr', hno⟩
      · exact Or.inl hin
      · have hne : T' ≠ s.term c := by
          rintro rfl
          rw [hnone] at hr'
          cases hr'
        exact Or.inr ⟨T', r', hlt, by omega, hr', hno⟩

theorem append_inv (h : Inv S τ s) (r : Reign ν ε) (e : ε)
    (hr : s.reign (s.term r.leader) = some r) (he : τ e = s.term r.leader) :
    Inv S τ
      { s with
        log := Function.update s.log r.leader (s.log r.leader ++ [e])
        reign := Function.update s.reign (s.term r.leader) (some { r with log := r.log ++ [e] })
        ack := put s.ack r.leader (s.term r.leader) (r.log.length + 1) } := by
  have hs : Step S τ r.leader s _ := Step.append r e hr he
  have hg := step_grows h hs
  have hlog : s.log r.leader = r.log := h.leader_log hr rfl
  -- a reign is one of before with its log, or the one that grows here
  have hreign : ∀ {U r'}, Function.update s.reign (s.term r.leader)
      (some { r with log := r.log ++ [e] }) U = some r' →
      U ≠ s.term r.leader ∧ s.reign U = some r' ∨
        U = s.term r.leader ∧ r' = { r with log := r.log ++ [e] } := by
    intro U r' hr'
    by_cases hU : U = s.term r.leader
    · subst hU
      rw [Function.update_self] at hr'
      exact Or.inr ⟨rfl, (Option.some.inj hr').symm⟩
    · rw [Function.update_of_ne hU] at hr'
      exact Or.inl ⟨hU, hr'⟩
  have hack : ∀ q U, ¬(q = r.leader ∧ U = s.term r.leader) →
      put s.ack r.leader (s.term r.leader) (r.log.length + 1) q U = s.ack q U := by
    intro q U hne
    rw [put_apply, if_neg hne]
  have hsub : ∀ q, s.log q <+: Function.update s.log r.leader (s.log r.leader ++ [e]) q := by
    intro q
    by_cases hq : q = r.leader
    · subst hq
      simp
    · simp [hq]
  have hwf : WellFormed τ
      { s with
        log := Function.update s.log r.leader (s.log r.leader ++ [e])
        reign := Function.update s.reign (s.term r.leader) (some { r with log := r.log ++ [e] })
        ack := put s.ack r.leader (s.term r.leader) (r.log.length + 1) }
      (s.term r.leader) (r.log ++ [e]) := by
    have hold := (h.reign_wf hr).grows hg
    refine ⟨fun i x hx => ?_, ?_, ?_⟩
    · rcases Nat.lt_or_ge i r.log.length with hi | hi
      · rw [List.getElem?_append_left hi] at hx
        rw [List.take_append_of_le_length hi]
        exact hold.traced i x hx
      · rw [List.getElem?_append_right hi] at hx
        obtain ⟨-, rfl⟩ : i - r.log.length = 0 ∧ e = x := by
          cases hk : i - r.log.length with
          | zero =>
            rw [hk] at hx
            exact ⟨rfl, Option.some.inj hx⟩
          | succ k =>
            rw [hk] at hx
            simp at hx
        exact ⟨{ r with log := r.log ++ [e] }, by simp [he], List.take_prefix _ _⟩
    · refine List.pairwise_append.mpr ⟨hold.sorted, List.pairwise_singleton _ _, ?_⟩
      intro x hx y hy
      rw [List.mem_singleton.mp hy, he]
      exact hold.le x hx
    · intro x hx
      rcases List.mem_append.mp hx with hx | hx
      · exact hold.le x hx
      · rw [List.mem_singleton.mp hx, he]
  refine ⟨h.ballot_le, fun hb => (h.ballot_wf hb).grows hg, ?_, ?_, ?_, ?_, ?_, ?_, ?_, ?_, ?_, ?_,
    fun hb hlt hr hm => step_kept h hs hb hlt (h.ballot_kept hb hlt) hr hm, ?_⟩
  · intro q
    by_cases hq : q = r.leader
    · subst hq
      simpa [hlog] using hwf
    · simpa [hq] using (h.log_wf q).grows hg
  · intro U r' hr'
    rcases hreign hr' with ⟨-, hr'⟩ | ⟨rfl, rfl⟩
    · exact (h.reign_wf hr').grows hg
    · exact hwf
  · intro U r' hr'
    rcases hreign hr' with ⟨-, hr'⟩ | ⟨rfl, rfl⟩
    · exact h.base hr'
    · exact ⟨(h.base hr).1.trans (List.prefix_append _ _), (h.base hr).2⟩
  · intro U r' hr'
    rcases hreign hr' with ⟨-, hr'⟩ | ⟨rfl, rfl⟩
    · exact h.leader_term hr'
    · exact le_rfl
  · intro U r' hr' hterm
    rcases hreign hr' with ⟨hU, hr'⟩ | ⟨rfl, rfl⟩
    · have hne : r'.leader ≠ r.leader := by
        intro hc
        exact hU (hterm.symm.trans (congrArg s.term hc))
      simpa [hne] using h.leader_log hr' hterm
    · simp [hlog]
  · intro U hnone q
    have hU : U ≠ s.term r.leader := by
      rintro rfl
      simp at hnone
    show put s.ack r.leader (s.term r.leader) (r.log.length + 1) q U = 0
    rw [hack q U fun hc => hU hc.2]
    exact h.ack_none (by simpa [hU] using hnone) q
  · intro U r' hr' q
    show put s.ack r.leader (s.term r.leader) (r.log.length + 1) q U ≤ _
    rcases hreign hr' with ⟨hU, hr'⟩ | ⟨rfl, rfl⟩
    · rw [hack q U fun hc => hU hc.2]
      exact h.ack_le hr' q
    · have := h.ack_le hr q
      rw [put_apply]
      simp only [List.length_append, List.length_singleton]
      split_ifs <;> omega
  · intro U r' hr'
    show put s.ack r.leader (s.term r.leader) (r.log.length + 1) r'.leader U = _
    rcases hreign hr' with ⟨hU, hr'⟩ | ⟨rfl, rfl⟩
    · rw [hack _ U fun hc => hU hc.2]
      exact h.ack_leader hr'
    · rw [put_apply, if_pos ⟨rfl, rfl⟩, List.length_append, List.length_singleton]
  · intro q U hpos
    have hpos : 0 < put s.ack r.leader (s.term r.leader) (r.log.length + 1) q U := hpos
    by_cases hc : q = r.leader ∧ U = s.term r.leader
    · obtain ⟨rfl, rfl⟩ := hc
      exact le_rfl
    · rw [hack q U hc] at hpos
      exact h.ack_term hpos
  · intro q U r' m hr' hm
    show Kept _ _ U (s.term q + 1) (Function.update s.log r.leader (s.log r.leader ++ [e]) q)
    rcases step_ack h hs hr' hm with ⟨r₀, hr₀, hm₀, htake⟩ | rfl | hterm
    · rw [htake]
      exact ((h.ack_kept hr₀ hm₀).mono le_rfl (hsub q)).grows hg
    · exact Kept.nil
    · obtain rfl : s.term q = U := hterm
      by_cases hq : q = r.leader
      · subst hq
        obtain ⟨hU, -⟩ | ⟨-, rfl⟩ := hreign hr'
        · exact absurd rfl hU
        · refine Or.inl ?_
          rw [Function.update_self, hlog]
          exact List.take_prefix _ _
      · -- the leader alone confirms more than before
        have hm : m ≤ put s.ack r.leader (s.term r.leader) (r.log.length + 1) q (s.term q) := hm
        rw [hack q _ fun hc => hq hc.1] at hm
        rcases hreign hr' with ⟨hU, hr'⟩ | ⟨hU, rfl⟩
        · exact ((h.ack_kept hr' hm).mono le_rfl (hsub q)).grows hg
        · have hr₁ : s.reign (s.term q) = some r := hU ▸ hr
          have hle := h.ack_le hr₁ q
          rw [show ({ r with log := r.log ++ [e] } : Reign ν ε).log.take m = r.log.take m from
            take_of_isPrefix (List.prefix_append _ _) (by omega)]
          exact ((h.ack_kept hr₁ hm).mono le_rfl (hsub q)).grows hg
  · intro U r' hr'
    rcases hreign hr' with ⟨hU, hr'⟩ | ⟨rfl, rfl⟩
    · exact step_elected h hs hr' rfl rfl
    · exact step_elected h hs hr rfl rfl

theorem Adopts.holds {new old l : List ε} (h : Adopts new old l) : new <+: l := by
  cases h with
  | keep h => exact h
  | take h => exact List.prefix_refl _

/-- What the log holds and the leader's log holds stays. -/
theorem Adopts.keeps {new old l full kept : List ε} (h : Adopts new old l) (hnew : new <+: full)
    (hold : kept <+: old) (hfull : kept <+: full) : kept <+: l := by
  cases h with
  | keep h => exact hold
  | take h =>
    rcases List.prefix_or_prefix_of_prefix hfull hnew with hp | hp
    · exact hp
    · exact absurd (hp.trans hold) h

theorem accept_inv (h : Inv S τ s) (q : ν) (r : Reign ν ε) (m : ℕ) (l : List ε)
    (hr : s.reign (s.term q) = some r) (hq : r.leader ≠ q) (hm : m ≤ r.log.length)
    (hl : Adopts (r.log.take m) (s.log q) l) :
    Inv S τ
      { s with
        log := Function.update s.log q l
        ack := put s.ack q (s.term q) (max (s.ack q (s.term q)) m) } := by
  have hs : Step S τ q s _ := Step.accept q r m l hr hq hm hl
  have hg := step_grows h hs
  have hack : ∀ p U, ¬(p = q ∧ U = s.term q) →
      put s.ack q (s.term q) (max (s.ack q (s.term q)) m) p U = s.ack p U := by
    intro p U hne
    rw [put_apply, if_neg hne]
  have hack_q : put s.ack q (s.term q) (max (s.ack q (s.term q)) m) q (s.term q) =
      max (s.ack q (s.term q)) m := by
    rw [put_apply, if_pos ⟨rfl, rfl⟩]
  refine ⟨h.ballot_le, fun hb => (h.ballot_wf hb).grows hg, ?_,
    fun hr => (h.reign_wf hr).grows hg, h.base, h.leader_term, ?_, ?_, ?_, ?_, ?_, ?_,
    fun hb hlt hr hm => step_kept h hs hb hlt (h.ballot_kept hb hlt) hr hm,
    fun hr => step_elected h hs hr rfl rfl⟩
  · intro p
    by_cases hp : p = q
    · subst hp
      have hwf : WellFormed τ s (s.term p) l := by
        cases hl with
        | keep => exact h.log_wf p
        | take => exact (h.reign_wf hr).of_isPrefix (List.take_prefix _ _)
      simpa using hwf.grows hg
    · simpa [hp] using (h.log_wf p).grows hg
  · intro U r' hr' hterm
    have hne : r'.leader ≠ q := by
      intro hc
      have hU : U = s.term q := hterm.symm.trans (congrArg s.term hc)
      subst hU
      obtain rfl : r = r' := Option.some.inj (hr.symm.trans hr')
      exact hq hc
    simpa [hne] using h.leader_log hr' hterm
  · intro U hnone p
    show put s.ack q (s.term q) (max (s.ack q (s.term q)) m) p U = 0
    rw [hack p U, h.ack_none hnone]
    rintro ⟨-, rfl⟩
    rw [hr] at hnone
    cases hnone
  · intro U r' hr' p
    show put s.ack q (s.term q) (max (s.ack q (s.term q)) m) p U ≤ _
    by_cases hc : p = q ∧ U = s.term q
    · obtain ⟨rfl, rfl⟩ := hc
      obtain rfl : r = r' := Option.some.inj (hr.symm.trans hr')
      rw [hack_q]
      exact max_le (h.ack_le hr p) hm
    · rw [hack p U hc]
      exact h.ack_le hr' p
  · intro U r' hr'
    show put s.ack q (s.term q) (max (s.ack q (s.term q)) m) r'.leader U = _
    rw [hack _ U, h.ack_leader hr']
    rintro ⟨hlead, rfl⟩
    obtain rfl : r = r' := Option.some.inj (hr.symm.trans hr')
    exact hq hlead
  · intro p U hpos
    have hpos : 0 < put s.ack q (s.term q) (max (s.ack q (s.term q)) m) p U := hpos
    by_cases hc : p = q ∧ U = s.term q
    · obtain ⟨rfl, rfl⟩ := hc
      exact le_rfl
    · rw [hack p U hc] at hpos
      exact h.ack_term hpos
  · intro p U r' k hr' hk
    show Kept _ _ U (s.term p + 1) (Function.update s.log q l p)
    have hk : k ≤ put s.ack q (s.term q) (max (s.ack q (s.term q)) m) p U := hk
    by_cases hp : p = q
    · subst hp
      rw [Function.update_self]
      by_cases hU : U = s.term p
      · -- the leader that is followed here
        subst hU
        obtain rfl : r = r' := Option.some.inj (hr.symm.trans hr')
        rw [hack_q] at hk
        refine Or.inl ?_
        rcases Nat.le_total k m with hkm | hkm
        · exact (List.take_prefix_take_left hkm).trans hl.holds
        · have hk₀ : k ≤ s.ack p (s.term p) ∨ k = m := by omega
          rcases hk₀ with hk₀ | rfl
          · have hin : r.log.take k <+: s.log p := by
              rcases h.ack_kept hr hk₀ with hin | ⟨T', _, hlt, hle, -⟩
              · exact hin
              · omega
            exact hl.keeps (List.take_prefix _ _) hin (List.take_prefix _ _)
          · exact hl.holds
      · rw [hack p U fun hc => hU hc.2] at hk
        rcases h.ack_kept hr' hk with hin | hlost
        · by_cases hbase : r'.log.take k <+: r.base
          · exact Or.inl (hl.keeps (List.take_prefix _ _) hin (hbase.trans (h.base hr).1))
          · rcases Nat.eq_zero_or_pos k with rfl | hpos
            · exact Kept.nil
            · have hle := h.ack_term (lt_of_lt_of_le hpos hk)
              exact Or.inr ⟨s.term p, r, by omega, by omega, hr, hbase⟩
        · exact Or.inr hlost
    · rw [hack p U fun hc => hp hc.1] at hk
      rw [Function.update_of_ne hp]
      exact (h.ack_kept hr' hk).grows hg

/-- To have a part of the leader's log is to take it over and change nothing. -/
theorem credit_inv (h : Inv S τ s) (q : ν) (r : Reign ν ε) (m : ℕ)
    (hr : s.reign (s.term q) = some r) (hq : r.leader ≠ q) (hm : m ≤ r.log.length)
    (hl : r.log.take m <+: s.log q) :
    Inv S τ { s with ack := put s.ack q (s.term q) (max (s.ack q (s.term q)) m) } := by
  have haccept := accept_inv h q r m (s.log q) hr hq hm (.keep hl)
  rwa [Function.update_eq_self] at haccept

/-- Every step keeps the invariant. -/
theorem step_inv (h : Inv S τ s) (hs : Step S τ n s s') : Inv S τ s' := by
  cases hs with
  | advance _ T hT => exact advance_inv h n T hT
  | vote _ c hnone => exact vote_inv h n c hnone
  | elect _ Q hnone hQ hvotes => exact elect_inv h n Q hnone hQ hvotes
  | append r e hr he => exact append_inv h r e hr he
  | accept _ r m l hr hq hm hl => exact accept_inv h n r m l hr hq hm hl
  | credit _ q r m hr hq hm hl => exact credit_inv h q r m hr hq hm hl

/-! ## Runs of one node -/

/-- Steps of the node `n`, one after the other. -/
def Steps (S : QuorumSystem ν) (τ : ε → ℕ) (n : ν) : State ν ε → State ν ε → Prop :=
  Relation.ReflTransGen (Step S τ n)

/-- A node enters a term that is not below its own. -/
theorem advance_steps {T : ℕ} (h : s.term n ≤ T) :
    Steps S τ n s { s with term := Function.update s.term n T } := by
  rcases Nat.lt_or_eq_of_le h with hlt | rfl
  · exact Relation.ReflTransGen.single (Step.advance n T hlt)
  · rw [Function.update_eq_self]
    exact Relation.ReflTransGen.refl

/-- A leader appends several entries. -/
theorem append_steps (es : List ε) : ∀ {s : State ν ε} {r : Reign ν ε},
    s.reign (s.term r.leader) = some r → (∀ e ∈ es, τ e = s.term r.leader) →
    ∃ s', Steps S τ r.leader s s' ∧ s'.term = s.term ∧ s'.ballot = s.ballot ∧
      s'.log r.leader = s.log r.leader ++ es ∧
      s'.reign = Function.update s.reign (s.term r.leader)
        (some { r with log := r.log ++ es }) := by
  induction es with
  | nil =>
    intro s r hr _
    refine ⟨s, Relation.ReflTransGen.refl, rfl, rfl, (List.append_nil _).symm, ?_⟩
    rw [List.append_nil, ← hr, Function.update_eq_self]
  | cons e es ih =>
    intro s r hr hes
    have hstep : Step S τ r.leader s _ := Step.append r e hr (hes e (by simp))
    obtain ⟨s', hsteps, hterm, hballot, hlog, hreign⟩ := @ih
      { s with
        log := Function.update s.log r.leader (s.log r.leader ++ [e])
        reign := Function.update s.reign (s.term r.leader) (some { r with log := r.log ++ [e] })
        ack := put s.ack r.leader (s.term r.leader) (r.log.length + 1) }
      { r with log := r.log ++ [e] } (Function.update_self _ _ _)
      (fun e' he' => hes e' (List.mem_cons_of_mem e he'))
    refine ⟨s', Relation.ReflTransGen.head hstep hsteps, hterm, hballot, ?_, ?_⟩
    · rw [hlog]
      simp
    · rw [hreign]
      simp

theorem step_local (hs : Step S τ n s s') : Local n s s' := by
  cases hs with
  | advance _ T hT =>
    exact ⟨fun hq => Function.update_of_ne hq _ _, fun _ => rfl, fun _ => rfl,
      fun {_ r} hr => Or.inl ⟨r, hr, rfl⟩⟩
  | vote _ c hnone =>
    exact ⟨fun _ => rfl, fun _ => rfl, fun hq => Function.update_of_ne hq _ _,
      fun {_ r} hr => Or.inl ⟨r, hr, rfl⟩⟩
  | elect _ Q hnone hQ hvotes =>
    refine ⟨fun _ => rfl, fun _ => rfl, fun _ => rfl, fun {T r} hr => ?_⟩
    by_cases hT : T = s.term n
    · subst hT
      simp only [Function.update_self, Option.some.injEq] at hr
      exact Or.inr (hr ▸ rfl)
    · exact Or.inl ⟨r, by simpa [hT] using hr, rfl⟩
  | append r e hr he =>
    refine ⟨fun _ => rfl, fun hq => Function.update_of_ne hq _ _, fun _ => rfl,
      fun {T r'} hr' => ?_⟩
    by_cases hT : T = s.term r.leader
    · subst hT
      simp only [Function.update_self, Option.some.injEq] at hr'
      exact Or.inr (hr' ▸ rfl)
    · exact Or.inl ⟨r', by simpa [hT] using hr', rfl⟩
  | accept _ r m l hr hq hm hl =>
    exact ⟨fun _ => rfl, fun hp => Function.update_of_ne hp _ _, fun _ => rfl,
      fun {_ r} hr => Or.inl ⟨r, hr, rfl⟩⟩
  | credit _ q r m hr hq hm hl =>
    exact ⟨fun _ => rfl, fun _ => rfl, fun _ => rfl, fun {_ r} hr => Or.inl ⟨r, hr, rfl⟩⟩

/-- The steps of a node keep the invariant and the past, and leave the other
nodes alone. -/
theorem steps_inv (h : Inv S τ s) (hs : Steps S τ n s s') :
    Inv S τ s' ∧ Grows s s' ∧ Local n s s' := by
  induction hs with
  | refl => exact ⟨h, Grows.refl s, Local.refl n s⟩
  | tail _ hstep ih =>
    obtain ⟨hinv, hg, hl⟩ := ih
    exact ⟨step_inv hinv hstep, hg.trans (step_grows hinv hstep), hl.trans (step_local hstep)⟩

/-- Those of `qs` that keep up with a leader are credited with it. -/
theorem credit_steps {T : ℕ} {r : Reign ν ε} (k : ν → ℕ) (qs : List ν) :
    ∀ {s : State ν ε}, Inv S τ s → s.reign T = some r →
      ∃ s', Steps S τ n s s' ∧ s'.term = s.term ∧ s'.log = s.log ∧ s'.ballot = s.ballot ∧
        s'.reign = s.reign ∧ ∀ q ∈ qs, KeepsUp s T r.log q (k q) → k q ≤ s'.ack q T := by
  induction qs with
  | nil =>
    intro s _ _
    exact ⟨s, Relation.ReflTransGen.refl, rfl, rfl, rfl, rfl, nofun⟩
  | cons q qs ih =>
    intro s h hr
    have hfirst : ∃ s₁, Steps S τ n s s₁ ∧ s₁.term = s.term ∧ s₁.log = s.log ∧
        s₁.ballot = s.ballot ∧ s₁.reign = s.reign ∧
        (KeepsUp s T r.log q (k q) → k q ≤ s₁.ack q T) := by
      by_cases hq : KeepsUp s T r.log q (k q)
      · obtain ⟨rfl, hle, hl⟩ := hq
        by_cases hlead : r.leader = q
        · refine ⟨s, Relation.ReflTransGen.refl, rfl, rfl, rfl, rfl, fun _ => ?_⟩
          subst hlead
          rw [h.ack_leader hr]
          exact hle
        · refine ⟨_, Relation.ReflTransGen.single (Step.credit n q r (k q) hr hlead hle hl), rfl,
            rfl, rfl, rfl, fun _ => ?_⟩
          show k q ≤ put s.ack q (s.term q) _ q (s.term q)
          rw [put_apply, if_pos ⟨rfl, rfl⟩]
          exact le_max_right _ _
      · exact ⟨s, Relation.ReflTransGen.refl, rfl, rfl, rfl, rfl, fun h => absurd h hq⟩
    obtain ⟨s₁, hsteps, hterm, hlog, hballot, hreign, hack⟩ := hfirst
    have hinv₁ := (steps_inv h hsteps).1
    obtain ⟨s', hsteps', hterm', hlog', hballot', hreign', hack'⟩ := ih hinv₁ (hreign ▸ hr)
    refine ⟨s', hsteps.trans hsteps', hterm'.trans hterm, hlog'.trans hlog, hballot'.trans hballot,
      hreign'.trans hreign, fun q' hq' hkeeps => ?_⟩
    rcases List.mem_cons.mp hq' with rfl | hq'
    · exact (hack hkeeps).trans ((steps_inv hinv₁ hsteps').2.1.ack _ _)
    · refine hack' q' hq' ?_
      unfold KeepsUp at hkeeps ⊢
      rw [hterm, hlog]
      exact hkeeps

end Steps

end ReplicatedLog
