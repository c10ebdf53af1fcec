import OxideKv.Lib.ByteReader

/-!
# Frames on the inter-node port

`transport.rs`: a frame is one byte that names the protocol, the length of the
payload in four bytes, the highest first, and the payload.  One function writes
frames.  Two read them: `read_envelope` a whole frame, for the client side, and
`read_envelope_discriminator` and `read_envelope_payload` one part each, for the
server, which picks the handler in between.  They take the end of a stream
differently: where the first reports an error after the first byte, the second
still reports a closed connection if no byte of the length has arrived.

`accepts` forgets how a reader fails.  Both readers then are the same decoder
`frameReader`, and what holds of the frames follows from the rules for decoders.
-/

namespace OxideKv.Transport

open ByteReader

/-- `io::ErrorKind`, as far as this layer makes or tests it. -/
inductive ErrorKind where
  | unexpectedEof
  | invalidData
  | invalidInput
  | other
deriving Repr, DecidableEq

structure IoError where
  kind : ErrorKind
  message : String
deriving Repr, DecidableEq

inductive DispatchKind where
  | raft
  | vote
deriving Repr, DecidableEq

/-- The discriminant, `kind as u8`. -/
def DispatchKind.toByte : DispatchKind → UInt8
  | .raft => 0x01
  | .vote => 0x02

def DispatchKind.fromByte (b : UInt8) : Option DispatchKind :=
  if b = 0x01 then some .raft else if b = 0x02 then some .vote else none

def maxFrameBytes : Nat := 16 * 1024 * 1024

/-- What the readers return. -/
abbrev Frame := DispatchKind × List UInt8

/-! ## Writing -/

/-- A method that writes.  The state is what has been written. -/
abbrev WriteIo := ExceptT IoError (StateM (List UInt8))

def writeAll (bytes : List UInt8) : WriteIo Unit := modify (· ++ bytes)

def writeEnvelope (kind : DispatchKind) (payload : List UInt8) : WriteIo Unit := do
  if maxFrameBytes < payload.length then
    throw
      { kind := .invalidInput
        message :=
          s!"frame payload {payload.length} bytes exceeds MAX_FRAME_BYTES ({maxFrameBytes})" }
  writeAll [kind.toByte]
  -- `payload.len() as u32`: the lowest four bytes of the length.
  writeAll (writeBE 4 payload.length)
  writeAll payload

/-- The frames, one after the other. -/
def writeEnvelopes (frames : List Frame) : WriteIo Unit :=
  frames.forM fun f => writeEnvelope f.1 f.2

/-! ## Reading -/

/-- A method that reads, with `Ok(None)` as the early return.  The state is the
bytes that the peer still sends. -/
abbrev ReadIo := OptionT (ExceptT IoError (StateM (List UInt8)))

def fail {α : Type} (e : IoError) : ReadIo α := fun bytes => (.error e, bytes)

section Readers

-- How the stream ends after its bytes: it is closed, or it breaks with an error.
variable (ending : Option IoError)

/-- `read_exact`.  Bytes that are too few are gone. -/
def readExact (n : Nat) : ReadIo (List UInt8) := fun bytes =>
  if n ≤ bytes.length then (.ok (some (bytes.take n)), bytes.drop n)
  else (.error (ending.getD { kind := .unexpectedEof, message := "early eof" }), [])

/-- `read_exact` where the end of the stream is no error but `None`. -/
def readOrEof (n : Nat) : ReadIo (List UInt8) := fun bytes =>
  match readExact ending n bytes with
  | (.ok (some buf), rest) => if buf.length = 0 then (.ok none, rest) else (.ok (some buf), rest)
  | (.ok none, rest) => (.ok none, rest)
  | (.error e, rest) => if e.kind = .unexpectedEof then (.ok none, rest) else (.error e, rest)

/-- `0x{:02x}`. -/
def hexByte (b : UInt8) : String :=
  "0x" ++ String.ofList [Nat.digitChar (b.toNat / 16), Nat.digitChar (b.toNat % 16)]

def readKind (kindBuf : List UInt8) : ReadIo DispatchKind :=
  match DispatchKind.fromByte (kindBuf.headD 0) with
  | some kind => pure kind
  | none =>
      fail
        { kind := .invalidData
          message := s!"unknown protocol discriminator {hexByte (kindBuf.headD 0)}" }

/-- The payload whose length is in `lenBuf`. -/
def readPayload (lenBuf : List UInt8) : ReadIo (List UInt8) := do
  let len := ofBE lenBuf
  if maxFrameBytes < len then
    fail
      { kind := .invalidData
        message := s!"frame length {len} exceeds MAX_FRAME_BYTES ({maxFrameBytes})" }
  else readExact ending len

def readEnvelope : ReadIo Frame := do
  let kindBuf ← readOrEof ending 1
  let kind ← readKind kindBuf
  let lenBuf ← readExact ending 4
  let payload ← readPayload ending lenBuf
  return (kind, payload)

def readEnvelopeDiscriminator : ReadIo DispatchKind := do
  let kindBuf ← readOrEof ending 1
  readKind kindBuf

def readEnvelopePayload : ReadIo (List UInt8) := do
  let lenBuf ← readOrEof ending 4
  readPayload ending lenBuf

/-- A request on the server's side: `dispatch_logic`, then the handler for the
kind. -/
def readDispatched : ReadIo Frame := do
  let kind ← readEnvelopeDiscriminator ending
  let payload ← readEnvelopePayload ending
  return (kind, payload)

end Readers

/-! ## Both readers are one decoder -/

variable {α β : Type} {ending : Option IoError}

/-- What the reader delivers, and the bytes it leaves.  `Ok(None)` and an error
both deliver nothing. -/
def accepts (x : ReadIo α) : Reader α := fun bytes =>
  match x bytes with
  | (.ok (some a), rest) => some (a, rest)
  | _ => none

@[simp] theorem accepts_pure (a : α) : accepts (pure a) = pure a := rfl

@[simp] theorem accepts_bind (x : ReadIo α) (f : α → ReadIo β) :
    accepts (x >>= f) = accepts x >>= fun a => accepts (f a) := by
  funext bytes
  show accepts (OptionT.bind x f) bytes = Option.bind (accepts x bytes) fun p => accepts (f p.1) p.2
  rcases hx : x bytes with ⟨_ | _ | a, rest⟩
  all_goals
    simp only [accepts, OptionT.bind, OptionT.mk, bind, ExceptT.bind, ExceptT.mk, StateT.bind, hx]
    rfl

@[simp] theorem accepts_map (f : α → β) (x : ReadIo α) :
    accepts (f <$> x) = f <$> accepts x := by
  rw [← bind_pure_comp, ← bind_pure_comp, accepts_bind]
  rfl

@[simp] theorem accepts_fail (e : IoError) : accepts (fail e : ReadIo α) = failure := rfl

@[simp] theorem accepts_readExact (n : Nat) : accepts (readExact ending n) = takeBytes n := by
  funext bytes
  by_cases hlen : n ≤ bytes.length
  · simp only [accepts, readExact, takeBytes, if_pos hlen]
  · simp only [accepts, readExact, takeBytes, if_neg hlen]

/-- Only the way to fail differs. -/
theorem accepts_readOrEof {n : Nat} (hn : 0 < n) :
    accepts (readOrEof ending n) = takeBytes n := by
  funext bytes
  by_cases hlen : n ≤ bytes.length
  · have hbuf : (bytes.take n).length ≠ 0 := by
      rw [List.length_take_of_le hlen]
      omega
    simp only [accepts, readOrEof, readExact, takeBytes, if_pos hlen, if_neg hbuf]
  · simp only [accepts, readOrEof, readExact, takeBytes, if_neg hlen]
    split_ifs <;> rfl

/-- The protocol that the first byte names. -/
def frameKind (kindBuf : List UInt8) : Reader DispatchKind :=
  check (DispatchKind.fromByte (kindBuf.headD 0))

/-- The length in the header, when it is in bounds. -/
def frameLength (lenBuf : List UInt8) : Option Nat :=
  if ofBE lenBuf ≤ maxFrameBytes then some (ofBE lenBuf) else none

theorem frameLength_eq_some {lenBuf : List UInt8} {len : Nat} (h : frameLength lenBuf = some len) :
    ofBE lenBuf = len ∧ len ≤ maxFrameBytes := by
  rw [frameLength] at h
  split_ifs at h with hbound
  injection h with h
  omega

def framePayload (lenBuf : List UInt8) : Reader (List UInt8) := do
  let len ← check (frameLength lenBuf)
  takeBytes len

/-- A frame, whatever becomes of an incomplete one. -/
def frameReader : Reader Frame := do
  let kindBuf ← takeBytes 1
  let kind ← frameKind kindBuf
  let lenBuf ← takeBytes 4
  let payload ← framePayload lenBuf
  return (kind, payload)

@[simp] theorem accepts_readKind (kindBuf : List UInt8) :
    accepts (readKind kindBuf) = frameKind kindBuf := by
  rw [readKind, frameKind]
  split
  case h_1 kind hkind => rw [hkind, accepts_pure, check]
  case h_2 hkind => rw [hkind, accepts_fail, check]

@[simp] theorem accepts_readPayload (lenBuf : List UInt8) :
    accepts (readPayload ending lenBuf) = framePayload lenBuf := by
  show accepts (if maxFrameBytes < ofBE lenBuf then fail _ else readExact ending _) = _
  rw [framePayload, frameLength]
  by_cases hlen : ofBE lenBuf ≤ maxFrameBytes
  · rw [if_pos hlen, if_neg (by omega), accepts_readExact]
    rfl
  · rw [if_neg hlen, if_pos (by omega), accepts_fail]
    rfl

theorem accepts_readEnvelope : accepts (readEnvelope ending) = frameReader := by
  simp [readEnvelope, frameReader, accepts_readOrEof]

theorem accepts_readDispatched : accepts (readDispatched ending) = frameReader := by
  simp [readDispatched, readEnvelopeDiscriminator, readEnvelopePayload, frameReader,
    accepts_readOrEof]

theorem accepts_frameReader {reader : ReadIo Frame}
    (h : reader ∈ [readEnvelope ending, readDispatched ending]) :
    accepts reader = frameReader := by
  simp only [List.mem_cons, List.not_mem_nil, or_false] at h
  rcases h with rfl | rfl
  · exact accepts_readEnvelope
  · exact accepts_readDispatched

/-! ## The bytes of a frame -/

def envelope (f : Frame) : List UInt8 := f.1.toByte :: (writeBE 4 f.2.length ++ f.2)

theorem envelope_ne_nil (f : Frame) : envelope f ≠ [] := List.cons_ne_nil _ _

theorem DispatchKind.fromByte_toByte (kind : DispatchKind) : fromByte kind.toByte = some kind := by
  cases kind <;> decide

theorem DispatchKind.toByte_of_fromByte {b : UInt8} {kind : DispatchKind}
    (h : fromByte b = some kind) : kind.toByte = b := by
  rw [fromByte] at h
  split_ifs at h with hraft hvote
  · cases h
    exact hraft.symm
  · cases h
    exact hvote.symm

theorem writeEnvelope_ok {f : Frame} (hsize : f.2.length ≤ maxFrameBytes) (written : List UInt8) :
    writeEnvelope f.1 f.2 written = (.ok (), written ++ envelope f) := by
  rw [writeEnvelope, if_neg (by omega)]
  show (Except.ok (), written ++ [f.1.toByte] ++ writeBE 4 f.2.length ++ f.2) = _
  simp [envelope]

/-- A payload that is too long is refused before a byte is written. -/
theorem writeEnvelope_refused (kind : DispatchKind) {payload : List UInt8}
    (hsize : maxFrameBytes < payload.length) (written : List UInt8) :
    ∃ e, writeEnvelope kind payload written = (.error e, written) ∧ e.kind = .invalidInput := by
  rw [writeEnvelope, if_pos hsize]
  exact ⟨_, rfl, rfl⟩

theorem writeEnvelope_ok_size {kind : DispatchKind} {payload written after : List UInt8}
    (h : writeEnvelope kind payload written = (.ok (), after)) :
    payload.length ≤ maxFrameBytes := by
  by_contra hlong
  obtain ⟨e, he, -⟩ :=
    writeEnvelope_refused kind (by omega : _ < payload.length) written
  rw [he] at h
  cases h

theorem writeEnvelopes_ok : ∀ {frames : List Frame},
    (∀ f ∈ frames, f.2.length ≤ maxFrameBytes) → ∀ written : List UInt8,
      writeEnvelopes frames written = (.ok (), written ++ frames.flatMap envelope)
  | [], _, written => by
    rw [List.flatMap_nil, List.append_nil]
    rfl
  | f :: frames, hsize, written => by
    rw [List.forall_mem_cons] at hsize
    have hrest := writeEnvelopes_ok hsize.2 (written ++ envelope f)
    rw [List.flatMap_cons, ← List.append_assoc, ← hrest]
    show ExceptT.bind (writeEnvelope f.1 f.2) (fun _ => writeEnvelopes frames) written = _
    simp only [ExceptT.bind, ExceptT.mk, bind, StateT.bind]
    rw [writeEnvelope_ok hsize.1]
    rfl

/-! ## Frames are read back -/

theorem frameReader_reads {f : Frame} (hsize : f.2.length ≤ maxFrameBytes) :
    Reads frameReader (envelope f) f := by
  have hlen : f.2.length < 256 ^ 4 := by
    have : maxFrameBytes < 256 ^ 4 := by decide
    omega
  have hkind : Reads (takeBytes 1) [f.1.toByte] [f.1.toByte] := takeBytes_reads [f.1.toByte]
  have hlenBuf : Reads (takeBytes 4) (writeBE 4 f.2.length) (writeBE 4 f.2.length) := by
    have h := takeBytes_reads (writeBE 4 f.2.length)
    rwa [length_writeBE] at h
  have hpayload : Reads (framePayload (writeBE 4 f.2.length)) f.2 f.2 := by
    have hbound : frameLength (writeBE 4 f.2.length) = some f.2.length := by
      rw [frameLength, ofBE_writeBE hlen, if_pos hsize]
    exact (check_reads hbound).bind (takeBytes_reads f.2)
  have hcheck : Reads (frameKind [f.1.toByte]) [] f.1 :=
    check_reads (DispatchKind.fromByte_toByte f.1)
  exact hkind.bind (hcheck.bind (hlenBuf.bind (hpayload.last (Reads.pure f))))

theorem frameReader_streaming : Streaming frameReader := by
  apply (takeBytes_streaming 1).bind
  intro kindBuf
  apply (check_streaming _).bind
  intro kind
  apply (takeBytes_streaming 4).bind
  intro lenBuf
  apply Streaming.bind
  · exact (check_streaming _).bind fun len => takeBytes_streaming len
  · intro payload
    exact Streaming.pure _

/-- Nothing but a frame is read as one. -/
theorem frameReader_sound {bytes rest : List UInt8} {f : Frame}
    (h : frameReader bytes = some (f, rest)) :
    bytes = envelope f ++ rest ∧ f.2.length ≤ maxFrameBytes := by
  obtain ⟨kindBuf, mid, hkindBuf, h⟩ := bind_eq_some.mp h
  obtain ⟨kind, mid₁, hkind, h⟩ := bind_eq_some.mp h
  obtain ⟨lenBuf, mid₂, hlenBuf, h⟩ := bind_eq_some.mp h
  obtain ⟨payload, mid₃, hpayload, h⟩ := bind_eq_some.mp h
  obtain ⟨len, mid₄, hlen, htaken⟩ := bind_eq_some.mp hpayload
  cases h
  obtain ⟨rfl, hone⟩ := takeBytes_eq_some.mp hkindBuf
  obtain ⟨hbyte, rfl⟩ := check_eq_some.mp hkind
  obtain ⟨rfl, hfour⟩ := takeBytes_eq_some.mp hlenBuf
  obtain ⟨hbound, rfl⟩ := check_eq_some.mp hlen
  obtain ⟨rfl, rfl⟩ := takeBytes_eq_some.mp htaken
  obtain ⟨hvalue, hsize⟩ := frameLength_eq_some hbound
  obtain ⟨b, rfl⟩ := List.length_eq_one_iff.mp hone
  constructor
  · rw [envelope, DispatchKind.toByte_of_fromByte hbyte, ← hvalue, ← hfour, writeBE_ofBE]
    simp
  · exact hsize

/-- Frames are records. -/
def frameCodec : RecordCodec fun f : Frame => f.2.length ≤ maxFrameBytes where
  write := envelope
  read := frameReader
  write_ne_nil := envelope_ne_nil
  read_back := frameReader_reads
  cut_short := fun hsize hcut => (frameReader_reads hsize).cut_short frameReader_streaming hcut

/-- Either reader accepts the bytes that the writer writes and nothing else. -/
theorem readers_accept_iff (ending : Option IoError) (f : Frame) (bytes rest : List UInt8) :
    let written := ∃ wire, writeEnvelope f.1 f.2 [] = (.ok (), wire) ∧ bytes = wire ++ rest
    (accepts (readEnvelope ending) bytes = some (f, rest) ↔ written) ∧
      (accepts (readDispatched ending) bytes = some (f, rest) ↔ written) := by
  intro written
  have hframe : frameReader bytes = some (f, rest) ↔ written := by
    constructor
    · intro h
      obtain ⟨hbytes, hsize⟩ := frameReader_sound h
      exact ⟨envelope f, writeEnvelope_ok hsize [], hbytes⟩
    · rintro ⟨wire, hwire, rfl⟩
      have hsize := writeEnvelope_ok_size hwire
      rw [writeEnvelope_ok hsize] at hwire
      cases hwire
      exact frameReader_reads hsize rest
  rw [accepts_readEnvelope, accepts_readDispatched]
  exact ⟨hframe, hframe⟩

/-- What either reader delivers is what the writer was given, frame by frame. -/
theorem frames_read_back (ending : Option IoError) (frames : List Frame)
    (hsize : ∀ f ∈ frames, f.2.length ≤ maxFrameBytes) :
    ∃ wire, writeEnvelopes frames [] = (.ok (), wire) ∧
      (∀ reader ∈ [readEnvelope ending, readDispatched ending],
        (∀ trailing, readMany (accepts reader) frames.length (wire ++ trailing) =
          some (frames, trailing)) ∧
        ∀ kind payload whole cut, writeEnvelope kind payload [] = (.ok (), whole) →
          cut < whole.length → readAll (accepts reader) (wire ++ whole.take cut) = frames) ∧
      ∀ bytes, accepts (readEnvelope ending) bytes = accepts (readDispatched ending) bytes ∧
        readAll (accepts (readEnvelope ending)) bytes =
          readAll (accepts (readDispatched ending)) bytes := by
  refine ⟨frames.flatMap envelope, writeEnvelopes_ok hsize [], ?_, ?_⟩
  · intro reader hreader
    rw [accepts_frameReader hreader]
    refine ⟨readMany_reads fun f hf => frameReader_reads (hsize f hf), ?_⟩
    intro kind payload whole cut hwhole hcut
    have hpayload : payload.length ≤ maxFrameBytes := writeEnvelope_ok_size hwhole
    have hbytes := writeEnvelope_ok (f := (kind, payload)) hpayload []
    rw [hwhole] at hbytes
    cases hbytes
    exact frameCodec.readAll_torn hsize (kind, payload) hpayload hcut
  · intro bytes
    rw [accepts_readEnvelope, accepts_readDispatched]
    exact ⟨rfl, rfl⟩

theorem frames_read_back_two :
    readMany (accepts (readDispatched none)) 2
        ([0x01, 0, 0, 0, 3, 7, 8, 9, 0x02, 0, 0, 0, 0] ++ [0x02, 0]) =
      some ([(.raft, [7, 8, 9]), (.vote, [])], [0x02, 0]) := by
  obtain ⟨wire, hwire, hread, -⟩ :=
    frames_read_back none [(.raft, [7, 8, 9]), (.vote, [])] (by decide)
  cases hwire
  exact (hread _ (by simp)).1 [0x02, 0]

end OxideKv.Transport
