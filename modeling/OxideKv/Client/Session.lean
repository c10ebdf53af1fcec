import OxideKv.Client.Dispatch
import OxideKv.Client.Sdk
import OxideKv.Lib.Lines

/-!
# A session on the client port

`handle_client_request` reads one line after the other, and writes a line with
the reply before it reads the next.  A line that is no command is answered with
an error.  The session ends with the client's stream, with a line that is no
text, or with the reply to a command that can not be written.

`Session` is such a loop with everything that can happen between two of its
steps: bytes arrive in pieces, the client stops reading, other tasks of the node
get the lock.

* `session_replies`: the replies are to the lines in their order, and a critical
  section on the node stands behind each of them.
* `mutation_returns`, `get_returns`: what the values of the Rust library say
  about the node, whatever the client has sent before and sends later.
* `commit_returns`: a transaction of the Rust library with operations is refused
  by every node.
-/

namespace OxideKv

open ByteReader Lines RaftNode Run
open Fallible (IoError)

/-- `serde_json::from_str::<Command>`. -/
def SerdeJson.parseCommand (J : SerdeJson) (line : String) : Except String Command :=
  match J.fromStr line with
  | .error e => .error e
  | .ok v =>
      match Command.ofJson v with
      | some command => .ok command
      | none => .error (J.unexpected v)

/-- The line with a value. -/
def jsonLine (J : SerdeJson) (v : Json) : List UInt8 := utf8 (J.toJson v ++ "\n")

inductive SessionPhase where
  | reading
  | calling (phase : CallPhase)
  | ended

structure Session where
  node : RaftNode
  /-- What has arrived and is not read yet. -/
  buffered : List UInt8
  /-- The client has closed its stream. -/
  closed : Bool
  /-- The client still takes replies. -/
  taking : Bool
  phase : SessionPhase
  /-- The replies that were written. -/
  replies : List ClientReply

inductive SessionEvent where
  /-- Another task of the node gets the lock. -/
  | node (e : NodeEvent)
  | arrive (bytes : List UInt8)
  | close
  /-- From here on no reply can be written. -/
  | hangUp
  /-- `read_line` returns. -/
  | read
  | readFails
  /-- `dispatch_command` goes on. -/
  | turn (t : CallTurn)
  | write

/-- What `read_line` returns, and the bytes behind it.  Without a newline it
waits for the end of the stream. -/
def nextLine (closed : Bool) (bytes : List UInt8) : Option (List UInt8 × List UInt8) :=
  match bytes.dropWhile (· ≠ newline) with
  | b :: rest => some (bytes.takeWhile (· ≠ newline) ++ [b], rest)
  | [] => if closed then some (bytes, []) else none

namespace Session

variable (J : SerdeJson) (maxElectionTimeout : Nat)

/-- The session of a client that has just connected. -/
def start (n : RaftNode) : Session :=
  { node := n, buffered := [], closed := false, taking := true, phase := .reading, replies := [] }

/-- What the loop does with a line. -/
def handleLine (line rest : List UInt8) (s : Session) : Session :=
  match ofUtf8 line with
  | none => { s with phase := .ended }
  | some text =>
      if line.isEmpty then { s with phase := .ended }
      else
        match J.parseCommand text with
        | .error e =>
            -- the result of this write is dropped
            { s with
              buffered := rest
              replies := if s.taking then s.replies ++ [.invalid e] else s.replies }
        | .ok command => { s with buffered := rest, phase := .calling (.check command) }

def step (s : Session) : SessionEvent → Option Session
  | .node e => (s.node.step e).map fun n => { s with node := n }
  | .arrive bytes => if s.closed then none else some { s with buffered := s.buffered ++ bytes }
  | .close => some { s with closed := true }
  | .hangUp => some { s with taking := false }
  | .read =>
      match s.phase with
      | .reading => (nextLine s.closed s.buffered).map fun p => s.handleLine J p.1 p.2
      | _ => none
  | .readFails =>
      match s.phase with
      | .reading => some { s with phase := .ended }
      | _ => none
  | .turn t =>
      match s.phase with
      | .calling phase =>
          (phase.turn maxElectionTimeout s.node t).map fun p =>
            { s with node := p.1, phase := .calling p.2 }
      | _ => none
  | .write =>
      match s.phase with
      | .calling (.replied r) =>
          if s.taking then some { s with replies := s.replies ++ [r], phase := .reading }
          else some { s with phase := .ended }
      | _ => none

/-- The bytes of the replies. -/
def written (errorText : IoError → String) (s : Session) : List UInt8 :=
  s.replies.flatMap fun r => jsonLine J (r.toJson errorText)

end Session

/-- What `send_request` makes of the bytes that come back, when it is called for
the request number `k` of the connection. -/
def readReply (J : SerdeJson) (k : Nat) (bytes : List UInt8) : Except ClientError Json :=
  match (readLines bytes)[k]? with
  | none => .error .connectionClosed
  | some line =>
      match ofUtf8 line with
      | none => .error (.transport "stream did not contain valid UTF-8")
      | some text =>
          match J.fromStr text with
          | .error e => .error (.malformedResponse e)
          | .ok v => .ok v

/-- What a method of the Rust library returns. -/
def clientResult {α : Type} (J : SerdeJson) (parse : Json → Except ClientError α) (k : Nat)
    (bytes : List UInt8) : Except ClientError α :=
  (readReply J k bytes).bind parse

namespace SessionEvent

/-- The bytes that arrive. -/
def bytes : SessionEvent → List UInt8
  | .arrive bytes => bytes
  | _ => []

/-- The step is one of another task of the node. -/
def ofNode : SessionEvent → Option NodeEvent
  | .node e => some e
  | _ => none

end SessionEvent

/-! ## Reading -/

theorem nextLine_eq_some {closed : Bool} {bytes line rest : List UInt8}
    (h : nextLine closed bytes = some (line, rest)) :
    (bytes = line ++ rest ∧ Whole line ∧ readLines line = [line] ∧ line ≠ []) ∨
      (closed = true ∧ bytes = line ∧ rest = [] ∧ newline ∉ line) := by
  unfold nextLine at h
  have hsplit := List.takeWhile_append_dropWhile (p := (· ≠ newline)) (l := bytes)
  split at h
  · rename_i b rest' hdrop
    obtain ⟨rfl, rfl⟩ := Prod.mk.inj (Option.some.inj h)
    have hb : b = newline := by
      have hhead := List.head?_dropWhile_not (p := (· ≠ newline)) (l := bytes)
      rw [hdrop] at hhead
      simpa using hhead
    subst hb
    have htext : newline ∉ bytes.takeWhile (· ≠ newline) := by
      intro hmem
      simpa using List.mem_takeWhile_imp hmem
    rw [hdrop] at hsplit
    refine .inl ⟨by simpa using hsplit.symm, ?_, readLines_line htext, by simp⟩
    intro c hc
    simpa [eq_comm] using hc
  · rename_i hdrop
    split_ifs at h with hclosed
    obtain ⟨rfl, rfl⟩ := Prod.mk.inj (Option.some.inj h)
    refine .inr ⟨hclosed, rfl, rfl, fun hmem => ?_⟩
    simpa using List.dropWhile_eq_nil_iff.mp hdrop newline hmem

section

variable {J : SerdeJson} {v : Json}

theorem jsonLine_eq (J : SerdeJson) (v : Json) :
    jsonLine J v = utf8 (J.toJson v) ++ [newline] := by
  rw [jsonLine, utf8_append]
  rfl

theorem jsonLine_ne_nil (J : SerdeJson) (v : Json) : jsonLine J v ≠ [] := by
  rw [jsonLine_eq]
  simp

theorem newline_not_mem_json (hv : v.Canonical) : newline ∉ utf8 (J.toJson v) :=
  newline_not_mem_utf8 (J.one_line v hv)

theorem readLines_jsonLine (hv : v.Canonical) : readLines (jsonLine J v) = [jsonLine J v] := by
  rw [jsonLine_eq]
  exact readLines_line (newline_not_mem_json hv)

theorem whole_jsonLine (J : SerdeJson) (v : Json) : Whole (jsonLine J v) := by
  intro b hb
  rw [jsonLine_eq] at hb
  simpa [eq_comm] using hb

/-- What is sent in lines is read line by line. -/
theorem readLines_jsonLines {vs : List Json} (h : ∀ v ∈ vs, v.Canonical) :
    readLines (vs.flatMap (jsonLine J)) = vs.map (jsonLine J) := by
  induction vs with
  | nil => rfl
  | cons v vs ih =>
    obtain ⟨hv, hvs⟩ := List.forall_mem_cons.mp h
    rw [List.flatMap_cons, readLines_append (whole_jsonLine J v), ih hvs, readLines_jsonLine hv,
      List.map_cons]
    rfl

theorem ofUtf8_jsonLine (J : SerdeJson) (v : Json) :
    ofUtf8 (jsonLine J v) = some (J.toJson v ++ "\n") :=
  ofUtf8_utf8 _

theorem parseCommand_json (hv : v.Canonical) :
    J.parseCommand (J.toJson v ++ "\n") =
      match Command.ofJson v with
      | some c => .ok c
      | none => .error (J.unexpected v) := by
  rw [SerdeJson.parseCommand, J.read_back v hv]

theorem nextLine_jsonLine (hv : v.Canonical) (closed : Bool) :
    nextLine closed (jsonLine J v) = some (jsonLine J v, []) := by
  have htext : ∀ b ∈ utf8 (J.toJson v), decide (b ≠ newline) = true := by
    intro b hb
    simpa using fun heq => newline_not_mem_json hv (heq ▸ hb)
  have hdrop : (utf8 (J.toJson v) ++ [newline]).dropWhile (· ≠ newline) = [newline] := by
    rw [List.dropWhile_append_of_pos htext]
    rfl
  have htake : (utf8 (J.toJson v) ++ [newline]).takeWhile (· ≠ newline) = utf8 (J.toJson v) := by
    rw [List.takeWhile_append_of_pos htext]
    simp
  rw [nextLine, jsonLine_eq, hdrop, htake]

end

/-- The lines that the loop has taken from what has arrived. -/
structure HasRead (arrived : List UInt8) (lines : List (List UInt8)) (s : Session) : Prop where
  bytes : arrived = lines.flatten ++ s.buffered
  cut : readLines arrived = lines ++ readLines s.buffered
  whole : s.closed = false → Whole lines.flatten

namespace HasRead

variable {arrived bytes line rest : List UInt8} {lines : List (List UInt8)} {s s' : Session}

/-- Nothing is read and nothing arrives. -/
theorem frame (h : HasRead arrived lines s) (hbuffered : s'.buffered = s.buffered)
    (hclosed : s'.closed = false → s.closed = false) : HasRead arrived lines s' :=
  ⟨hbuffered ▸ h.bytes, hbuffered ▸ h.cut, fun hc => h.whole (hclosed hc)⟩

theorem arrive (h : HasRead arrived lines s) (hclosed : s.closed = false) (bytes : List UInt8) :
    HasRead (arrived ++ bytes) lines { s with buffered := s.buffered ++ bytes } := by
  have hwhole := h.whole hclosed
  have hlines : readLines lines.flatten = lines := by
    have hcut := h.cut
    rw [h.bytes, readLines_append hwhole] at hcut
    exact List.append_cancel_right hcut
  refine ⟨by rw [h.bytes, List.append_assoc], ?_, h.whole⟩
  show readLines (arrived ++ bytes) = lines ++ readLines (s.buffered ++ bytes)
  rw [h.bytes, List.append_assoc, readLines_append hwhole, hlines]

theorem next (h : HasRead arrived lines s)
    (hnext : nextLine s.closed s.buffered = some (line, rest)) (hline : line ≠ [])
    (hbuffered : s'.buffered = rest) (hclosed : s'.closed = s.closed) :
    HasRead arrived (lines ++ [line]) s' := by
  obtain ⟨hsplit, hwhole, hcut, -⟩ | ⟨hend, hall, rfl, hnewline⟩ := nextLine_eq_some hnext
  · refine ⟨by simp [h.bytes, hsplit, hbuffered], ?_, fun hc => ?_⟩
    · rw [h.cut, hsplit, readLines_append hwhole, hcut, hbuffered, List.append_assoc]
    · intro b hb
      apply hwhole
      rw [List.flatten_append, List.flatten_singleton, List.getLast?_append_of_ne_nil _ hline] at hb
      exact hb
  · refine ⟨by simp [h.bytes, hall, hbuffered], ?_, fun hc => ?_⟩
    · rw [h.cut, hall, readLines_text hline hnewline, hbuffered]
      simp [readLines]
    · rw [hclosed, hend] at hc
      cases hc

end HasRead

/-! ## Answering -/

section Answering

variable (J : SerdeJson)

def isCommand (line : List UInt8) : Bool :=
  match ofUtf8 line with
  | none => false
  | some text =>
      match J.parseCommand text with
      | .error _ => false
      | .ok _ => true

/-- `Backs c r` says that the session stands behind the reply `r` to `c`. -/
def Answered (Backs : Command → ClientReply → Prop) (line : List UInt8) (r : ClientReply) : Prop :=
  ∃ text, ofUtf8 line = some text ∧
    match J.parseCommand text with
    | .error e => r = .invalid e
    | .ok c => Answers c r ∧ Backs c r

/-- The replies are to the lines in their order.  `Backs k` is about the reply
number `k`. -/
structure AnswersLines (Backs : Nat → Command → ClientReply → Prop) (lines : List (List UInt8))
    (replies : List ClientReply) : Prop where
  length : lines.length = replies.length
  answered : ∀ {k : Nat} {line : List UInt8} {r : ClientReply}, lines[k]? = some line →
    replies[k]? = some r → Answered J (Backs k) line r

/-- The lines in `dropped` were read behind those that are answered. -/
def Pending (Backs : Command → ClientReply → Prop) (dropped : List (List UInt8)) (s : Session) :
    Prop :=
  match s.phase with
  | .reading => (s.taking = true → dropped = []) ∧ ∀ line ∈ dropped, isCommand J line = false
  | .calling phase =>
      ∃ skipped line text c, dropped = skipped ++ [line] ∧ (s.taking = true → skipped = []) ∧
        (∀ line ∈ skipped, isCommand J line = false) ∧ ofUtf8 line = some text ∧
        J.parseCommand text = .ok c ∧ phase.Serves c ∧ ∀ r, phase = .replied r → Backs c r
  | .ended => dropped.countP (isCommand J) ≤ 1

variable {J} {Backs Backs' : Command → ClientReply → Prop} {line : List UInt8}
  {dropped : List (List UInt8)} {s s' : Session}

theorem Answered.mono (hmono : ∀ c r, Backs c r → Backs' c r) {r : ClientReply}
    (h : Answered J Backs line r) : Answered J Backs' line r := by
  obtain ⟨text, htext, h⟩ := h
  refine ⟨text, htext, ?_⟩
  split
  · rename_i e he
    rwa [he] at h
  · rename_i c hc
    rw [hc] at h
    exact ⟨h.1, hmono c r h.2⟩

section

variable {On On' : Nat → Command → ClientReply → Prop} {lines : List (List UInt8)}
  {replies : List ClientReply}

theorem AnswersLines.mono (hmono : ∀ k c r, On k c r → On' k c r)
    (h : AnswersLines J On lines replies) : AnswersLines J On' lines replies :=
  ⟨h.length, fun hline hr => (h.answered hline hr).mono (hmono _)⟩

theorem AnswersLines.concat (h : AnswersLines J On lines replies) {r : ClientReply}
    (hr : Answered J (On replies.length) line r) :
    AnswersLines J On (lines ++ [line]) (replies ++ [r]) := by
  refine ⟨by simp [h.length], fun {k line' r'} hline' hr' => ?_⟩
  by_cases hk : k < replies.length
  · rw [List.getElem?_append_left (h.length ▸ hk)] at hline'
    rw [List.getElem?_append_left hk] at hr'
    exact h.answered hline' hr'
  · have hend : k < (replies ++ [r]).length := (List.getElem?_eq_some_iff.mp hr').1
    rw [List.length_append, List.length_singleton] at hend
    obtain rfl : k = replies.length := by omega
    rw [List.getElem?_concat_length] at hr'
    rw [← h.length, List.getElem?_concat_length] at hline'
    obtain rfl := Option.some.inj hr'
    obtain rfl := Option.some.inj hline'
    exact hr

end

theorem Pending.mono (hmono : ∀ c r, Backs c r → Backs' c r) (h : Pending J Backs dropped s)
    (hphase : s'.phase = s.phase) (htaking : s'.taking = true → s.taking = true) :
    Pending J Backs' dropped s' := by
  unfold Pending at h ⊢
  rw [hphase]
  cases hs : s.phase with
  | reading =>
    rw [hs] at h
    exact ⟨fun ht => h.1 (htaking ht), h.2⟩
  | calling phase =>
    rw [hs] at h
    obtain ⟨skipped, line, text, c, hdropped, hskipped, hnone, htext, hc, hserves, hbacks⟩ := h
    exact ⟨skipped, line, text, c, hdropped, fun ht => hskipped (htaking ht), hnone, htext, hc,
      hserves, fun r hr => hmono c r (hbacks r hr)⟩
  | ended =>
    rw [hs] at h
    exact h

theorem isCommand_eq_true {text : String} {c : Command} (htext : ofUtf8 line = some text)
    (hc : J.parseCommand text = .ok c) : isCommand J line = true := by
  rw [isCommand, htext]
  simp [hc]

theorem countP_none (h : ∀ line ∈ dropped, isCommand J line = false) :
    dropped.countP (isCommand J) = 0 := by
  rw [List.countP_eq_zero]
  intro line hline
  simp [h line hline]

/-- Of the lines that are read and not answered at most one is a command. -/
theorem Pending.countP_le (h : Pending J Backs dropped s) :
    dropped.countP (isCommand J) ≤ 1 := by
  unfold Pending at h
  split at h
  · rw [countP_none h.2]
    omega
  · obtain ⟨skipped, line, text, c, rfl, -, hnone, htext, hc, -⟩ := h
    rw [List.countP_append, countP_none hnone]
    simpa using List.countP_le_length (p := isCommand J) (l := [line])
  · exact h

end Answering

/-! ## Runs -/

section Runs

variable (J : SerdeJson) (maxElectionTimeout : Nat)

/-- A turn that the session took when it had written `k` replies stands behind
the reply. -/
def Backed (n : RaftNode) (es : List SessionEvent) (k : Nat) (c : Command) (r : ClientReply) :
    Prop :=
  ∃ t turn t', Takes (Session.step J maxElectionTimeout) (Session.start n) es t (.turn turn) t' ∧
    t.replies.length = k ∧ CallPhase.Behind c t.node t'.node r

/-- What has arrived in the run. -/
def arrived (es : List SessionEvent) : List UInt8 := es.flatMap SessionEvent.bytes

/-- After the steps `es` the lines in `answered` are answered and those in
`dropped` are read. -/
structure Stands (n : RaftNode) (es : List SessionEvent) (s : Session)
    (answered dropped : List (List UInt8)) : Prop where
  reads : HasRead (arrived es) (answered ++ dropped) s
  replies : AnswersLines J (Backed J maxElectionTimeout n es) answered s.replies
  pending : Pending J (Backed J maxElectionTimeout n es s.replies.length) dropped s
  quiet : (∀ line ∈ answered ++ dropped, isCommand J line = false) →
    run RaftNode.step n (es.filterMap SessionEvent.ofNode) = some s.node

variable {J maxElectionTimeout} {n : RaftNode} {es : List SessionEvent} {s s' : Session}
  {answered dropped : List (List UInt8)}

theorem Backed.append {k : Nat} {c : Command} {r : ClientReply}
    (h : Backed J maxElectionTimeout n es k c r) (fs : List SessionEvent) :
    Backed J maxElectionTimeout n (es ++ fs) k c r := by
  obtain ⟨t, turn, t', htakes, hk, hbehind⟩ := h
  exact ⟨t, turn, t', htakes.append fs, hk, hbehind⟩

theorem arrived_concat (es : List SessionEvent) (e : SessionEvent) :
    arrived (es ++ [e]) = arrived es ++ e.bytes := by
  simp [arrived]

theorem arrived_of_quiet (es : List SessionEvent) {e : SessionEvent} (h : e.bytes = []) :
    arrived (es ++ [e]) = arrived es := by
  rw [arrived_concat, h, List.append_nil]

namespace Stands

theorem replies_append (h : Stands J maxElectionTimeout n es s answered dropped)
    (e : SessionEvent) :
    AnswersLines J (Backed J maxElectionTimeout n (es ++ [e])) answered s.replies :=
  h.replies.mono fun _ _ _ hbacked => hbacked.append [e]

theorem pending_append (h : Stands J maxElectionTimeout n es s answered dropped)
    (e : SessionEvent) (hphase : s'.phase = s.phase)
    (htaking : s'.taking = true → s.taking = true) :
    Pending J (Backed J maxElectionTimeout n (es ++ [e]) s.replies.length) dropped s' :=
  h.pending.mono (fun _ _ hbacked => hbacked.append [e]) hphase htaking

theorem quiet_append (h : Stands J maxElectionTimeout n es s answered dropped)
    {e : SessionEvent} (he : e.ofNode = none)
    (hnone : ∀ line ∈ answered ++ dropped, isCommand J line = false) :
    run RaftNode.step n ((es ++ [e]).filterMap SessionEvent.ofNode) = some s.node := by
  have hsame : (es ++ [e]).filterMap SessionEvent.ofNode = es.filterMap SessionEvent.ofNode := by
    simp [he]
  rw [hsame]
  exact h.quiet hnone

/-- A step that changes neither what is read nor what is answered. -/
theorem frame (h : Stands J maxElectionTimeout n es s answered dropped) {e : SessionEvent}
    (hbytes : e.bytes = []) (he : e.ofNode = none) (hnode : s'.node = s.node)
    (hbuffered : s'.buffered = s.buffered) (hclosed : s'.closed = false → s.closed = false)
    (hreplies : s'.replies = s.replies)
    (hpending : Pending J (Backed J maxElectionTimeout n (es ++ [e]) s.replies.length) dropped s') :
    Stands J maxElectionTimeout n (es ++ [e]) s' answered dropped := by
  refine ⟨?_, ?_, hreplies ▸ hpending, fun hnone => ?_⟩
  · rw [arrived_of_quiet es hbytes]
    exact h.reads.frame hbuffered hclosed
  · rw [hreplies]
    exact h.replies_append e
  · rw [hnode]
    exact h.quiet_append he hnone

theorem node (h : Stands J maxElectionTimeout n es s answered dropped) {e : NodeEvent}
    {n' : RaftNode} (hstep : s.node.step e = some n') :
    Stands J maxElectionTimeout n (es ++ [.node e]) { s with node := n' } answered dropped := by
  refine ⟨?_, h.replies_append _, h.pending_append _ rfl id, fun hnone => ?_⟩
  · rw [arrived_of_quiet es rfl]
    exact h.reads.frame rfl id
  · rw [List.filterMap_append]
    exact run_append_eq_some.mpr ⟨s.node, h.quiet hnone, by simp [SessionEvent.ofNode, run, hstep]⟩

theorem arrive (h : Stands J maxElectionTimeout n es s answered dropped) {bytes : List UInt8}
    (hclosed : s.closed = false) :
    Stands J maxElectionTimeout n (es ++ [.arrive bytes])
      { s with buffered := s.buffered ++ bytes } answered dropped := by
  refine ⟨?_, h.replies_append _, h.pending_append _ rfl id, h.quiet_append rfl⟩
  rw [arrived_concat]
  exact h.reads.arrive hclosed bytes

/-- The loop takes a line. -/
theorem read (h : Stands J maxElectionTimeout n es s answered dropped)
    (hphase : s.phase = .reading) {line rest : List UInt8}
    (hnext : nextLine s.closed s.buffered = some (line, rest)) :
    ∃ answered' dropped',
      Stands J maxElectionTimeout n (es ++ [.read]) (s.handleLine J line rest) answered'
        dropped' := by
  have hpending := h.pending
  simp only [Pending, hphase] at hpending
  obtain ⟨htaking, hnone⟩ := hpending
  have hend : Stands J maxElectionTimeout n (es ++ [.read]) { s with phase := .ended } answered
      dropped :=
    h.frame rfl rfl rfl rfl id rfl (by rw [Pending, countP_none hnone]; omega)
  unfold Session.handleLine
  split
  · exact ⟨answered, dropped, hend⟩
  · rename_i text htext
    by_cases hline : line = []
    · rw [if_pos (by simp [hline])]
      exact ⟨answered, dropped, hend⟩
    · rw [if_neg (by simpa using hline)]
      have hreads : ∀ {t : Session}, t.buffered = rest → t.closed = s.closed →
          HasRead (arrived (es ++ [.read])) (answered ++ dropped ++ [line]) t := by
        intro t hbuffered hclosed
        rw [arrived_of_quiet es rfl]
        exact h.reads.next hnext hline hbuffered hclosed
      split
      · rename_i e he
        have hinvalid : isCommand J line = false := by
          rw [isCommand, htext]
          simp [he]
        by_cases ht : s.taking = true
        · -- the client takes the error
          obtain rfl := htaking ht
          have hanswered : Answered J (Backed J maxElectionTimeout n (es ++ [.read])
              s.replies.length) line (.invalid e) := ⟨text, htext, by rw [he]⟩
          rw [if_pos ht]
          refine ⟨answered ++ [line], [], ?_, ?_, ?_, fun hall => ?_⟩
          · rw [List.append_nil]
            exact List.append_nil answered ▸ hreads rfl rfl
          · exact (h.replies_append _).concat hanswered
          · rw [Pending]
            simp [hphase]
          · exact h.quiet_append rfl fun l hl =>
              hall l (List.mem_append_left _ (List.mem_append_left _ (by simpa using hl)))
        · rw [if_neg ht]
          refine ⟨answered, dropped ++ [line], ?_, h.replies_append _, ?_, fun hall => ?_⟩
          · rw [← List.append_assoc]
            exact hreads rfl rfl
          · rw [Pending]
            simp only [hphase]
            refine ⟨fun ht' => absurd ht' ht, fun l hl => ?_⟩
            obtain hl | hl := List.mem_append.mp hl
            · exact hnone l hl
            · rwa [List.mem_singleton.mp hl]
          · exact h.quiet_append rfl fun l hl =>
              hall l (by rw [← List.append_assoc]; exact List.mem_append_left _ hl)
      · rename_i c hc
        refine ⟨answered, dropped ++ [line], ?_, h.replies_append _, ?_, fun hall => ?_⟩
        · rw [← List.append_assoc]
          exact hreads rfl rfl
        · exact ⟨dropped, line, text, c, rfl, htaking, hnone, htext, hc, rfl,
            fun r hr => by cases hr⟩
        · have hcommand := hall line (by simp)
          rw [isCommand_eq_true htext hc] at hcommand
          cases hcommand

/-- The call of the line that was read last goes on. -/
theorem turn (h : Stands J maxElectionTimeout n es s answered dropped)
    (hrun : run (Session.step J maxElectionTimeout) (Session.start n) es = some s)
    {phase phase' : CallPhase} (hphase : s.phase = .calling phase) {t : CallTurn} {n' : RaftNode}
    (hturn : phase.turn maxElectionTimeout s.node t = some (n', phase')) :
    Stands J maxElectionTimeout n (es ++ [.turn t])
      { s with node := n', phase := .calling phase' } answered dropped := by
  have hpending := h.pending
  simp only [Pending, hphase] at hpending
  obtain ⟨skipped, line, text, c, hdropped, htaking, hnone, htext, hc, hserves, -⟩ := hpending
  have htakes : Takes (Session.step J maxElectionTimeout) (Session.start n) (es ++ [.turn t]) s
      (.turn t) { s with node := n', phase := .calling phase' } :=
    takes_last hrun (by simp [Session.step, hphase, hturn])
  refine ⟨?_, h.replies_append _, ?_, fun hall => ?_⟩
  · rw [arrived_of_quiet es rfl]
    exact h.reads.frame rfl id
  · refine ⟨skipped, line, text, c, hdropped, htaking, hnone, htext, hc,
      CallPhase.turn_serves hserves hturn, fun r hr => ?_⟩
    subst hr
    exact ⟨s, t, _, htakes, rfl, CallPhase.turn_behind hserves hturn⟩
  · have hcommand := hall line (by simp [hdropped])
    rw [isCommand_eq_true htext hc] at hcommand
    cases hcommand

theorem write (h : Stands J maxElectionTimeout n es s answered dropped) {r : ClientReply}
    (hphase : s.phase = .calling (.replied r)) (ht : s.taking = true) :
    Stands J maxElectionTimeout n (es ++ [.write])
      { s with replies := s.replies ++ [r], phase := .reading } (answered ++ dropped) [] := by
  have hpending := h.pending
  simp only [Pending, hphase] at hpending
  obtain ⟨skipped, line, text, c, rfl, htaking, -, htext, hc, hserves, hbacked⟩ := hpending
  obtain rfl := htaking ht
  refine ⟨?_, ?_, ?_, fun hall => ?_⟩
  · rw [arrived_of_quiet es rfl, List.append_nil]
    exact h.reads.frame rfl id
  · have hanswered : Answered J (Backed J maxElectionTimeout n (es ++ [.write])
        s.replies.length) line r :=
      ⟨text, htext, by rw [hc]; exact ⟨hserves, (hbacked r rfl).append _⟩⟩
    exact (h.replies_append _).concat hanswered
  · rw [Pending]
    simp
  · exact h.quiet_append rfl (by simpa using hall)

end Stands

/-- A step of the session answers the lines in their order. -/
theorem step_stands (hrun : run (Session.step J maxElectionTimeout) (Session.start n) es = some s)
    (h : Stands J maxElectionTimeout n es s answered dropped) {e : SessionEvent}
    (hstep : s.step J maxElectionTimeout e = some s') :
    ∃ answered' dropped',
      Stands J maxElectionTimeout n (es ++ [e]) s' answered' dropped' := by
  cases e with
  | node e =>
    obtain ⟨n', hn, rfl⟩ := Option.map_eq_some_iff.mp hstep
    exact ⟨answered, dropped, h.node hn⟩
  | arrive bytes =>
    simp only [Session.step] at hstep
    split_ifs at hstep with hclosed
    obtain rfl := Option.some.inj hstep
    exact ⟨answered, dropped, h.arrive (by simpa using hclosed)⟩
  | close =>
    obtain rfl := Option.some.inj hstep
    exact ⟨answered, dropped, h.frame rfl rfl rfl rfl (by simp) rfl (h.pending_append _ rfl id)⟩
  | hangUp =>
    obtain rfl := Option.some.inj hstep
    exact ⟨answered, dropped,
      h.frame rfl rfl rfl rfl id rfl (h.pending_append _ rfl (by simp))⟩
  | read =>
    simp only [Session.step] at hstep
    split at hstep
    · rename_i hphase
      obtain ⟨⟨line, rest⟩, hnext, rfl⟩ := Option.map_eq_some_iff.mp hstep
      exact h.read hphase hnext
    · cases hstep
  | readFails =>
    simp only [Session.step] at hstep
    split at hstep
    · obtain rfl := Option.some.inj hstep
      exact ⟨answered, dropped, h.frame rfl rfl rfl rfl id rfl h.pending.countP_le⟩
    · cases hstep
  | turn t =>
    simp only [Session.step] at hstep
    split at hstep
    · rename_i phase hphase
      obtain ⟨⟨n', phase'⟩, hturn, rfl⟩ := Option.map_eq_some_iff.mp hstep
      exact ⟨answered, dropped, h.turn hrun hphase hturn⟩
    · cases hstep
  | write =>
    simp only [Session.step] at hstep
    split at hstep
    · rename_i r hphase
      split_ifs at hstep with ht <;> obtain rfl := Option.some.inj hstep
      · exact ⟨answered ++ dropped, [], h.write hphase ht⟩
      · exact ⟨answered, dropped, h.frame rfl rfl rfl rfl id rfl h.pending.countP_le⟩
    · cases hstep

theorem run_stands (hrun : run (Session.step J maxElectionTimeout) (Session.start n) es = some s) :
    ∃ answered dropped, Stands J maxElectionTimeout n es s answered dropped := by
  have hstart : Stands J maxElectionTimeout n [] (Session.start n) [] [] := by
    refine ⟨⟨rfl, rfl, fun _ b hb => by cases hb⟩, ⟨rfl, fun h => by cases h⟩, ?_, fun _ => rfl⟩
    exact ⟨fun _ => rfl, by simp⟩
  exact run_history
    (H := fun es t => ∃ answered dropped, Stands J maxElectionTimeout n es t answered dropped)
    ⟨[], [], hstart⟩ (fun hrun ⟨_, _, h⟩ _ hstep => step_stands hrun h hstep)
    (along_of_forall (P := fun _ _ => True) (fun _ _ => trivial) es _) hrun

variable (errorText : IoError → String)

theorem Answered.canonical {Backs : Command → ClientReply → Prop} {line : List UInt8}
    {r : ClientReply} (h : Answered J Backs line r) : (r.toJson errorText).Canonical := by
  obtain ⟨text, -, h⟩ := h
  split at h
  · subst h
    exact ClientReply.invalid_canonical errorText _
  · exact h.1.canonical errorText

theorem AnswersLines.canonical {Backs : Nat → Command → ClientReply → Prop}
    {lines : List (List UInt8)} {replies : List ClientReply}
    (h : AnswersLines J Backs lines replies) :
    ∀ r ∈ replies, (r.toJson errorText).Canonical := by
  intro r hr
  obtain ⟨k, hk⟩ := List.mem_iff_getElem?.mp hr
  have hlt : k < lines.length := h.length ▸ (List.getElem?_eq_some_iff.mp hk).1
  exact (h.answered (List.getElem?_eq_getElem hlt) hk).canonical errorText

/-- The client can cut the replies out of the bytes. -/
theorem readLines_written (h : ∀ r ∈ s.replies, (r.toJson errorText).Canonical) :
    readLines (s.written J errorText) = s.replies.map fun r => jsonLine J (r.toJson errorText) := by
  have hvalues : ∀ v ∈ s.replies.map (ClientReply.toJson errorText), v.Canonical := by
    intro v hv
    obtain ⟨r, hr, rfl⟩ := List.mem_map.mp hv
    exact h r hr
  have hlines := readLines_jsonLines (J := J) hvalues
  rw [List.flatMap_map, List.map_map] at hlines
  exact hlines

/-- In every run of a session, however the bytes arrive and whatever else the
node does, the replies are to the first lines of what has arrived, in their
order.  A line that is no command is answered with the error.  The reply to a
command is one that `dispatch_command` gives to it, and a turn that the session
took for this line stands behind it.  At most one command was read and is not answered.  The client
reads the replies back out of the bytes it gets.  Without a command, the session
leaves the node to its other tasks. -/
theorem session_replies
    (hrun : run (Session.step J maxElectionTimeout) (Session.start n) es = some s) :
    ∃ answered dropped,
      answered ++ dropped <+: readLines (arrived es) ∧
      AnswersLines J (Backed J maxElectionTimeout n es) answered s.replies ∧
      dropped.countP (isCommand J) ≤ 1 ∧
      (s.phase = .reading → s.taking = true → dropped = []) ∧
      (readLines (s.written J errorText)).map (fun line => (ofUtf8 line).map J.fromStr) =
        s.replies.map (fun r => some (.ok (r.toJson errorText))) ∧
      ((∀ line ∈ answered ++ dropped, isCommand J line = false) →
        run RaftNode.step n (es.filterMap SessionEvent.ofNode) = some s.node) := by
  obtain ⟨answered, dropped, h⟩ := run_stands hrun
  have hcanonical := h.replies.canonical errorText
  refine ⟨answered, dropped, ⟨_, h.reads.cut.symm⟩, h.replies, h.pending.countP_le, ?_, ?_,
    h.quiet⟩
  · intro hphase ht
    have hpending := h.pending
    simp only [Pending, hphase] at hpending
    exact hpending.1 ht
  · rw [readLines_written errorText hcanonical, List.map_map]
    apply List.map_congr_left
    intro r hr
    simp [ofUtf8_jsonLine, J.read_back _ (hcanonical r hr)]

/-! ## One request of many -/

variable {v : Json} {before after : List UInt8}

/-- The request stands behind the lines `before` in what the client sends. -/
def Sends (J : SerdeJson) (before : List UInt8) (v : Json) (after : List UInt8)
    (es : List SessionEvent) : Prop :=
  Whole before ∧ arrived es = before ++ jsonLine J v ++ after

theorem Sends.lines (hv : v.Canonical) (h : Sends J before v after es) :
    readLines (arrived es) = readLines before ++ jsonLine J v :: readLines after := by
  rw [h.2, List.append_assoc, readLines_append h.1, readLines_append (whole_jsonLine J v),
    readLines_jsonLine hv]
  rfl

/-- The reply that is written in the place of the request is one to it. -/
theorem Sends.reply (hv : v.Canonical) (hsends : Sends J before v after es)
    (hrun : run (Session.step J maxElectionTimeout) (Session.start n) es = some s)
    {r : ClientReply} (hr : s.replies[(readLines before).length]? = some r) :
    Answered J (Backed J maxElectionTimeout n es (readLines before).length) (jsonLine J v) r := by
  obtain ⟨answered, dropped, h⟩ := run_stands hrun
  have hk : (readLines before).length < answered.length :=
    h.replies.length ▸ (List.getElem?_eq_some_iff.mp hr).1
  have hcut := h.reads.cut
  rw [hsends.lines hv, List.append_assoc] at hcut
  have hline : answered[(readLines before).length]? = some (jsonLine J v) := by
    rw [← List.getElem?_append_left hk, ← hcut, List.getElem?_append_right (Nat.le_refl _),
      Nat.sub_self]
    rfl
  exact h.replies.answered hline hr

theorem Answered.of_command {Backs : Command → ClientReply → Prop} (hv : v.Canonical) {c : Command}
    (hc : Command.ofJson v = some c) {r : ClientReply} (h : Answered J Backs (jsonLine J v) r) :
    Answers c r ∧ Backs c r := by
  obtain ⟨text, htext, h⟩ := h
  rw [ofUtf8_jsonLine] at htext
  obtain rfl := Option.some.inj htext
  rwa [parseCommand_json hv, hc] at h

theorem Answered.of_no_command {Backs : Command → ClientReply → Prop} (hv : v.Canonical)
    (hc : Command.ofJson v = none) {r : ClientReply} (h : Answered J Backs (jsonLine J v) r) :
    r = .invalid (J.unexpected v) := by
  obtain ⟨text, htext, h⟩ := h
  rw [ofUtf8_jsonLine] at htext
  obtain rfl := Option.some.inj htext
  rwa [parseCommand_json hv, hc] at h

/-- A method of the library reads the reply in the place of its request. -/
theorem clientResult_written {α : Type} (parse : Json → Except ClientError α)
    (hrun : run (Session.step J maxElectionTimeout) (Session.start n) es = some s) (k : Nat) :
    clientResult J parse k (s.written J errorText) =
      match s.replies[k]? with
      | none => .error .connectionClosed
      | some r => parse (r.toJson errorText) := by
  obtain ⟨answered, dropped, h⟩ := run_stands hrun
  have hcanonical := h.replies.canonical errorText
  rw [clientResult, readReply, readLines_written errorText hcanonical, List.getElem?_map]
  cases hr : s.replies[k]? with
  | none => rfl
  | some r =>
    have hback := J.read_back _ (hcanonical r (List.mem_of_getElem? hr))
    simp [ofUtf8_jsonLine, hback, Except.bind]

/-- A method of the Rust library that sends a mutation returns an index only
when the node was the leader and appended the command there, in a turn that the
session took for this request. -/
theorem mutation_returns {c : Command} (hv : v.Canonical) (hrequest : SimpleRequest v c)
    (hc : c.IsMutation)
    (hrun : run (Session.step J maxElectionTimeout) (Session.start n) es = some s)
    (hsends : Sends J before v after es) {index : Nat}
    (h : clientResult J (Client.parseIndexResponse J.toJson) (readLines before).length
      (s.written J errorText) = .ok index) :
    ∃ t turn t', Takes (Session.step J maxElectionTimeout) (Session.start n) es t (.turn turn) t' ∧
      t.replies.length = (readLines before).length ∧
      t.node.state = .leader ∧ index = t.node.log.length + 1 ∧
      t'.node.log = t.node.log ++ [t.node.nextEntry c] := by
  rw [clientResult_written errorText _ hrun] at h
  cases hr : s.replies[(readLines before).length]? with
  | none =>
    rw [hr] at h
    cases h
  | some r =>
    rw [hr] at h
    dsimp only at h
    obtain ⟨hanswers, t, turn, t', htakes, hk, hbehind⟩ :=
      (hsends.reply hv hrun hr).of_command hv hrequest.decoded
    rw [parseIndexResponse_toJson errorText _ hc hanswers] at h
    obtain rfl | ⟨i, rfl⟩ | rfl := hanswers.of_mutation hc
    · cases h
    · obtain rfl := Except.ok.inj h
      exact ⟨t, turn, t', htakes, hk, hbehind⟩
    · cases h

/-- A request to append a command, with a call of another task in between. -/
def mutationSession (J : SerdeJson) (v : Json) (e : NodeEvent) : List SessionEvent :=
  [.arrive (jsonLine J v), .read, .turn (.lock someClock false), .node e,
    .turn (.lock someClock false), .write]

theorem run_mutation (hv : v.Canonical) {c : Command} (hc : Command.ofJson v = some c)
    (hroute : CallPhase.route c = .applyMutation c) (hs : s.node.state = .leader)
    (hphase : s.phase = .reading) (hbuffered : s.buffered = []) (hclosed : s.closed = false)
    (htaking : s.taking = true) {e : NodeEvent} {n' : RaftNode} (hn : s.node.step e = some n') :
    run (Session.step J maxElectionTimeout) s (mutationSession J v e) =
      some { s with
        node := (n'.applyMutation c).2
        replies := s.replies ++ [CallPhase.mutationReply (n'.applyMutation c).1] } := by
  obtain ⟨node, buffered, closed, taking, phase, replies⟩ := s
  subst hphase hbuffered hclosed htaking
  dsimp only at hs hn
  simp [mutationSession, run, Session.step, nextLine_jsonLine hv, Session.handleLine,
    ofUtf8_jsonLine, parseCommand_json hv, hc, jsonLine_ne_nil, CallPhase.turn, CallPhase.locked, hs,
    hroute, hn]

/-- A node that leads a cluster of its own. -/
def soloLeader : RaftNode := { freshNode "a" [] with state := .leader }

/-- Two requests, and a proposal of another task in each of them. -/
def setTwice : List SessionEvent :=
  mutationSession Json.compactJson (Client.setRequest "k" "v") (.propose (.set "z" "0")) ++
    mutationSession Json.compactJson (Client.setRequest "k" "w") (.propose (.set "z" "1"))

theorem run_setTwice : ∃ s, run (Session.step Json.compactJson 600) (Session.start soloLeader)
    setTwice = some s ∧ s.replies = [.proposed 2, .proposed 4] := by
  refine ⟨_, run_append_eq_some.mpr ⟨_, run_mutation (Client.setRequest_canonical "k" "v")
    (SimpleRequest.set "k" "v").decoded rfl rfl rfl rfl rfl rfl rfl,
    run_mutation (Client.setRequest_canonical "k" "w") (SimpleRequest.set "k" "w").decoded rfl
      ?_ rfl rfl rfl rfl rfl⟩, ?_⟩
  · decide +kernel
  · decide +kernel

theorem sends_setTwice : Sends Json.compactJson
    (jsonLine Json.compactJson (Client.setRequest "k" "v")) (Client.setRequest "k" "w") []
    setTwice :=
  ⟨whole_jsonLine _ _, by simp [arrived, setTwice, mutationSession, SessionEvent.bytes]⟩

/-- The second request: its index and its turn are not those of the first. -/
theorem mutation_returns_second :
    ∃ t turn t', Takes (Session.step Json.compactJson 600) (Session.start soloLeader) setTwice t
      (.turn turn) t' ∧ t.replies.length = 1 ∧
      t.node.state = .leader ∧ 4 = t.node.log.length + 1 ∧
      t'.node.log = t.node.log ++ [t.node.nextEntry (.set "k" "w")] := by
  obtain ⟨s, hrun, hreplies⟩ := run_setTwice
  have hplace : (readLines (jsonLine Json.compactJson (Client.setRequest "k" "v"))).length = 1 := by
    rw [readLines_jsonLine (Client.setRequest_canonical "k" "v")]
    rfl
  rw [← hplace]
  refine mutation_returns (fun _ => "") (Client.setRequest_canonical "k" "w")
    (SimpleRequest.set "k" "w") trivial hrun sends_setTwice ?_
  have hanswers : Answers (.set "k" "w") (.proposed 4) := .inl ⟨4, rfl⟩
  rw [hplace, clientResult_written (fun _ => "") _ hrun, hreplies]
  exact parseIndexResponse_toJson (c := .set "k" "w") _ _ trivial hanswers

theorem session_replies_setTwice :
    ∃ s answered dropped,
      run (Session.step Json.compactJson 600) (Session.start soloLeader) setTwice = some s ∧
      s.replies = [.proposed 2, .proposed 4] ∧
      answered ++ dropped <+: readLines (arrived setTwice) ∧
      AnswersLines Json.compactJson (Backed Json.compactJson 600 soloLeader setTwice) answered
        s.replies := by
  obtain ⟨s, hrun, hreplies⟩ := run_setTwice
  obtain ⟨answered, dropped, hlines, hanswers, -⟩ := session_replies (fun _ => "") hrun
  exact ⟨s, answered, dropped, hrun, hreplies, hlines, hanswers⟩

/-- `get` returns what the state machine held in a turn that the session took
for this request. -/
theorem get_returns (key : String)
    (hrun : run (Session.step J maxElectionTimeout) (Session.start n) es = some s)
    (hsends : Sends J before (Client.getRequest key) after es) {value : Option String}
    (h : clientResult J (Client.parseGetResponse J.toJson) (readLines before).length
      (s.written J errorText) = .ok value) :
    ∃ t turn t', Takes (Session.step J maxElectionTimeout) (Session.start n) es t (.turn turn) t' ∧
      t.replies.length = (readLines before).length ∧ t.node.stateMachine.get key = value := by
  have hv := Client.getRequest_canonical key
  rw [clientResult_written errorText _ hrun] at h
  cases hr : s.replies[(readLines before).length]? with
  | none =>
    rw [hr] at h
    cases h
  | some r =>
    rw [hr] at h
    dsimp only at h
    obtain ⟨hanswers, t, turn, t', htakes, hk, hbehind⟩ :=
      (hsends.reply hv hrun hr).of_command hv (SimpleRequest.get key).decoded
    rw [parseGetResponse_toJson errorText _ hanswers] at h
    obtain rfl | ⟨data, rfl⟩ | rfl | rfl := hanswers.of_get
    · cases h
    · obtain rfl := Except.ok.inj h
      obtain ⟨key', hkey, hget⟩ := hbehind
      obtain rfl := Command.get.inj hkey
      exact ⟨t, turn, t', htakes, hk, hget⟩
    · obtain rfl := Except.ok.inj h
      obtain ⟨key', hkey, hget⟩ := hbehind
      obtain rfl := Command.get.inj hkey
      exact ⟨t, turn, t', htakes, hk, hget⟩
    · cases h

/-- A read of a node that is alone. -/
def getSession (J : SerdeJson) (key : String) : List SessionEvent :=
  [.arrive (jsonLine J (Client.getRequest key)), .read, .turn (.lock someClock false),
    .turn (.lock someClock false), .turn (.lock someClock false), .turn (.lock someClock false),
    .write]

theorem run_get (key : String) (hs : s.node.state = .leader) (halone : s.node.peers = [])
    (hphase : s.phase = .reading) (hbuffered : s.buffered = []) (hclosed : s.closed = false)
    (htaking : s.taking = true) :
    run (Session.step J maxElectionTimeout) s (getSession J key) =
      some { s with
        node := s.node.applyLogs someClock
        replies := s.replies ++
          [CallPhase.valueReply ((s.node.applyLogs someClock).stateMachine.get key)] } := by
  obtain ⟨node, buffered, closed, taking, phase, replies⟩ := s
  subst hphase hbuffered hclosed htaking
  dsimp only at hs halone
  have hv := Client.getRequest_canonical key
  simp [getSession, run, Session.step, nextLine_jsonLine hv, Session.handleLine, ofUtf8_jsonLine,
    parseCommand_json hv, (SimpleRequest.get key).decoded, jsonLine_ne_nil, CallPhase.turn,
    CallPhase.locked, CallPhase.route, hs, halone]

/-- A request to set a key, which is committed, and one to read it. -/
def setAndGet : List SessionEvent :=
  mutationSession Json.compactJson (Client.setRequest "k" "v") (.propose (.set "z" "0")) ++
    .node (.syncAlone someClock) :: getSession Json.compactJson "k"

theorem run_setAndGet : ∃ s, run (Session.step Json.compactJson 600) (Session.start soloLeader)
    setAndGet = some s ∧ s.replies = [.proposed 2, .value "v"] := by
  refine ⟨_, run_append_eq_some.mpr ⟨_, run_mutation (Client.setRequest_canonical "k" "v")
    (SimpleRequest.set "k" "v").decoded rfl rfl rfl rfl rfl rfl rfl,
    run_cons_eq_some.mpr ⟨_, rfl, run_get "k" ?_ ?_ rfl rfl rfl rfl⟩⟩, ?_⟩
  · decide +kernel
  · decide +kernel
  · decide +kernel

theorem get_returns_set :
    ∃ t turn t', Takes (Session.step Json.compactJson 600) (Session.start soloLeader) setAndGet t
      (.turn turn) t' ∧ t.replies.length = 1 ∧ t.node.stateMachine.get "k" = some "v" := by
  obtain ⟨s, hrun, hreplies⟩ := run_setAndGet
  have hsends : Sends Json.compactJson (jsonLine Json.compactJson (Client.setRequest "k" "v"))
      (Client.getRequest "k") [] setAndGet :=
    ⟨whole_jsonLine _ _, by
      simp [arrived, setAndGet, mutationSession, getSession, SessionEvent.bytes]⟩
  have hplace : (readLines (jsonLine Json.compactJson (Client.setRequest "k" "v"))).length = 1 := by
    rw [readLines_jsonLine (Client.setRequest_canonical "k" "v")]
    rfl
  have hanswers : Answers (.get "k") (.value "v") := .inl ⟨"v", rfl⟩
  rw [← hplace]
  refine get_returns (fun _ => "") "k" hrun hsends ?_
  rw [hplace, clientResult_written (fun _ => "") _ hrun, hreplies]
  exact parseGetResponse_toJson _ _ hanswers

/-- What `commit` of the Rust library returns. -/
def commitResult (J : SerdeJson) (errorText : IoError → String) (txId : String) (k : Nat)
    (s : Session) : Except ClientError TxResult :=
  clientResult J (Client.parseBeginResponse J.toJson txId) k (s.written J errorText)

/-- `commit` of the Rust library never commits a transaction with operations:
whatever the node does meanwhile, it gets an error.  When the client sends no
command beside it, the session leaves the node alone. -/
theorem commit_returns (txId : String) {ops : List TxOp} (hops : ops ≠ [])
    (hrun : run (Session.step J maxElectionTimeout) (Session.start n) es = some s)
    (hsends : Sends J before (Client.beginRequest txId (ops.map Client.opJson)) after es) :
    (commitResult J errorText txId (readLines before).length s = .error .connectionClosed ∨
      commitResult J errorText txId (readLines before).length s =
        .error (.server ("Invalid JSON: " ++
          J.unexpected (Client.beginRequest txId (ops.map Client.opJson))))) ∧
      ((∀ line ∈ readLines before ++ readLines after, isCommand J line = false) →
        run RaftNode.step n (es.filterMap SessionEvent.ofNode) = some s.node) := by
  have hv := Client.beginRequest_canonical txId ops
  have hnone : Command.ofJson (Client.beginRequest txId (ops.map Client.opJson)) = none := by
    rw [beginTx_decoded, if_neg hops]
  refine ⟨?_, fun hquiet => ?_⟩
  · rw [commitResult, clientResult_written errorText _ hrun]
    cases hr : s.replies[(readLines before).length]? with
    | none => exact .inl rfl
    | some r =>
      obtain rfl := (hsends.reply hv hrun hr).of_no_command hv hnone
      right
      dsimp only
      rw [parseBeginResponse_invalid]
      rfl
  · obtain ⟨answered, dropped, h⟩ := run_stands hrun
    refine h.quiet fun line hline => ?_
    have hmem : line ∈ readLines (arrived es) := by
      rw [h.reads.cut]
      exact List.mem_append_left _ hline
    rw [hsends.lines hv, List.mem_append, List.mem_cons] at hmem
    obtain hbefore | rfl | hafter := hmem
    · exact hquiet line (List.mem_append_left _ hbefore)
    · rw [isCommand, ofUtf8_jsonLine]
      simp [parseCommand_json hv, hnone]
    · exact hquiet line (List.mem_append_right _ hafter)

/-- A request that is no command is answered at once. -/
theorem run_refused (hv : v.Canonical) (hc : Command.ofJson v = none) (n : RaftNode) :
    run (Session.step J maxElectionTimeout) (Session.start n) [.arrive (jsonLine J v), .read] =
      some { Session.start n with replies := [.invalid (J.unexpected v)] } := by
  simp [run, Session.step, Session.start, nextLine_jsonLine hv, Session.handleLine,
    ofUtf8_jsonLine, parseCommand_json hv, hc, jsonLine_ne_nil]

theorem commit_returns_put :
    ∃ s, run (Session.step Json.compactJson 600) (Session.start soloLeader)
        [.arrive (jsonLine Json.compactJson
          (Client.beginRequest "t" [Client.opJson (.put "x" "1")])), .read] = some s ∧
      (commitResult Json.compactJson (fun _ => "") "t" 0 s = .error .connectionClosed ∨
        commitResult Json.compactJson (fun _ => "") "t" 0 s =
          .error (.server ("Invalid JSON: " ++ "unknown variant"))) ∧
      run RaftNode.step soloLeader [] = some s.node := by
  have hrun : run (Session.step Json.compactJson 600) (Session.start soloLeader) _ = _ :=
    run_refused (Client.beginRequest_canonical "t" [.put "x" "1"])
      (beginTx_decoded "t" [.put "x" "1"]) soloLeader
  have hsends : Sends Json.compactJson []
      (Client.beginRequest "t" ([TxOp.put "x" "1"].map Client.opJson)) []
      [.arrive (jsonLine Json.compactJson
        (Client.beginRequest "t" [Client.opJson (.put "x" "1")])), .read] :=
    ⟨by decide, by simp [arrived, SessionEvent.bytes]⟩
  obtain ⟨hresult, hquiet⟩ := commit_returns (fun _ => "") "t"
    (List.cons_ne_nil (TxOp.put "x" "1") []) hrun hsends
  exact ⟨_, hrun, hresult, hquiet fun line hline => by cases hline⟩

end Runs

end OxideKv
