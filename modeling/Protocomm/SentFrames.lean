import Protocomm.Cpp.Channel.Model
import Protocomm.Cpp.Server.Model
import Protocomm.FrameReaders
import Protocomm.Go.Channel.Model
import Protocomm.Go.Server.Model

/-!
# What the senders put on the wire

Every sender narrows the length of its payload to the 32 bits of the size field and
the servers narrow a status code to 16 bits. What the reader makes of a frame is told
for payloads of any length and for any code.
-/

namespace Protocomm

open Misc

/-! ## Lengths -/

/-- A frame whose size field is the length of its payload modulo 2^32 is read with that much
    of the payload, and the rest of the payload stays on the stream. -/
theorem readFrame_narrowed {hdr : FrameHeader} {payload : Bytes}
    (hsize : hdr.payloadSize = UInt32.ofNat payload.length) (rest : Bytes) :
    Go.readFrame (Go.writeFrame hdr payload ++ rest) =
      .ok ((hdr, payload.take (payload.length % 2 ^ 32)),
        payload.drop (payload.length % 2 ^ 32) ++ rest) := by
  have hlen : hdr.payloadSize.toNat = (payload.take (payload.length % 2 ^ 32)).length := by
    rw [hsize, UInt32.toNat_ofNat', List.length_take]
    omega
  have hread := readFrame_writeFrame ⟨hdr, _, hlen⟩
    (payload.drop (payload.length % 2 ^ 32) ++ rest)
  rw [writeFrame_eq] at hread ⊢
  rwa [Cpp.writeFrame, List.append_assoc, ← List.append_assoc (List.take _ _),
    List.take_append_drop, ← List.append_assoc] at hread

/-- The functions that build a frame: the requests of the two channels, the pushes and the
    responses of the two servers. -/
inductive Sender where
  | goCall (callID methodID : UInt32)
  | goSend (methodID : UInt32)
  | goResponse (req : FrameHeader)
  | cppCall (callId methodId : UInt32)
  | cppSend (methodId : UInt32)
  | cppResponse (req : FrameHeader)
  deriving DecidableEq, Repr

/-- The header a sender puts before its payload. -/
def Sender.header : Sender → Bytes → FrameHeader
  | .goCall callID methodID => Go.Channel.requestHeader callID methodID
  | .goSend methodID => Go.Server.pushHeader methodID
  | .goResponse req => Go.Server.responseHeader req StatusCode.OK
  | .cppCall callId methodId => Cpp.Channel.requestHeader callId methodId
  | .cppSend methodId => Cpp.Server.pushHeader methodId
  | .cppResponse req => Cpp.Server.responseHeader req StatusCode.OK

/-- The transport a sender writes with. -/
def Sender.transport : Sender → Transport
  | .goCall _ _ | .goSend _ | .goResponse _ => .go
  | .cppCall _ _ | .cppSend _ | .cppResponse _ => .async

/-- The bytes emitted for a payload. -/
def Sender.emit (sender : Sender) (payload : Bytes) : Bytes :=
  sender.transport.writeFrame (sender.header payload) payload

theorem Sender.payloadSize_header (sender : Sender) (payload : Bytes) :
    (sender.header payload).payloadSize = UInt32.ofNat payload.length := by
  cases sender <;> rfl

/-- What a reader makes of the bytes emitted for a payload. -/
theorem Sender.read_emit (sender : Sender) (payload rest : Bytes) (t : Transport)
    (what : String) :
    t.readFrame what (sender.emit payload ++ rest) =
      .ok ((sender.header payload, payload.take (payload.length % 2 ^ 32)),
        payload.drop (payload.length % 2 ^ 32) ++ rest) := by
  rw [Sender.emit, Transport.writeFrame_eq]
  exact t.readFrame_ok what (readFrame_narrowed (sender.payloadSize_header payload) rest)

/-- A payload is read back whole, with the frame that follows it, exactly when it is shorter
    than 2^32 bytes. -/
theorem sent_intact_iff (sender : Sender) (payload : Bytes) (t : Transport) (what : String) :
    (∀ (next : Frame) (rest : Bytes), ∃ after,
      t.readFrame what (sender.emit payload ++
          (sender.transport.writeFrame next.header next.payload ++ rest)) =
        .ok ((sender.header payload, payload), after) ∧
      t.readFrame what after = .ok (next.view, rest)) ↔ payload.length < 2 ^ 32 := by
  constructor
  · intro h
    obtain ⟨after, hread, -⟩ := h ⟨⟨FrameRequest, 0, 0, 0, 0⟩, [], rfl⟩ []
    rw [sender.read_emit, Except.ok.injEq, Prod.mk.injEq, Prod.mk.injEq] at hread
    have hlen := congrArg List.length hread.1.2
    rw [List.length_take] at hlen
    omega
  · intro hshort next rest
    refine ⟨sender.transport.writeFrame next.header next.payload ++ rest, ?_, ?_⟩
    · rw [sender.read_emit, Nat.mod_eq_of_lt hshort, List.take_length, List.drop_length,
        List.nil_append]
    · rw [Transport.writeFrame_eq]
      exact t.readFrame_ok what (readFrame_writeFrame next rest)

/-- A request of 2^32 zero bytes is read as an empty one, and its bytes as frames of
    type 0. -/
theorem oversized_request_misread :
    (Transport.go.readFrame "" ((Sender.goCall 1 7).emit (List.replicate (2 ^ 32) 0)) =
      .ok ((⟨FrameRequest, 0, 1, 7, 0⟩, []), List.replicate (2 ^ 32) 0)) ∧
    Transport.go.readFrame "" (List.replicate (2 ^ 32) 0) =
      .ok ((⟨0, 0, 0, 0, 0⟩, []), List.replicate (2 ^ 32 - 16) 0) := by
  constructor
  · have hread := (Sender.goCall 1 7).read_emit (List.replicate (2 ^ 32) 0) [] .go ""
    rw [List.length_replicate, Nat.mod_self, List.take_zero, List.drop_zero, List.append_nil,
      List.append_nil] at hread
    rw [hread]
    have hheader : (Sender.goCall 1 7).header (List.replicate (2 ^ 32) 0) =
        ⟨FrameRequest, 0, 1, 7, 0⟩ := by
      simp only [Sender.header, Go.Channel.requestHeader, List.length_replicate]
      rfl
    rw [hheader]
  · have hsplit : List.replicate (2 ^ 32) (0 : UInt8) =
        Go.writeFrame ⟨0, 0, 0, 0, 0⟩ [] ++ List.replicate (2 ^ 32 - 16) 0 := by
      have hfirst : Go.writeFrame ⟨0, 0, 0, 0, 0⟩ [] = List.replicate 16 0 := by decide
      have hsum : 16 + (2 ^ 32 - 16) = 2 ^ 32 := by decide
      rw [hfirst, List.replicate_append_replicate, hsum]
    rw [hsplit]
    exact Transport.go.readFrame_ok "" (readFrame_writeFrame ⟨⟨0, 0, 0, 0, 0⟩, [], rfl⟩ _)

/-! ## Status codes -/

/-- The bytes of the response to a request whose handler returned `response` and `st`. -/
def Side.answer (server : Side) (req : FrameHeader) (response : Bytes) (st : Status) : Bytes :=
  match server with
  | .go =>
      let (code, payload) := Go.Server.respond response st
      Go.writeFrame (Go.Server.responseHeader req code payload) payload
  | .cpp =>
      let (code, payload) := Cpp.Server.respond response st
      Cpp.writeFrame (Cpp.Server.responseHeader req code payload) payload

/-- What the callback of a call gets of a response that the channel has read. -/
def Side.reply (client : Side) (f : FrameHeader × Bytes) : Status × Bytes :=
  match client with
  | .go => (Go.Channel.responseStatus f.1, Go.Channel.responsePayload f.1 f.2)
  | .cpp => (Cpp.Channel.responseStatus f.1, Cpp.Channel.responsePayload f.1 f.2)

/-- What the callback of a call gets when the channel reads `stream`. -/
def Side.deliver (client : Side) (what : String) (stream : Bytes) :
    Except FrameReadError (Status × Bytes) :=
  match client.readFrame what stream with
  | .error e => .error e
  | .ok (f, _) => .ok (client.reply f)

/-- The code on the wire is the code modulo 2^16. -/
theorem toNat_ofInt (code : Int) : ((UInt16.ofInt code).toNat : Int) = code % 2 ^ 16 := by
  simp only [UInt16.ofInt, UInt16.toNat_ofNat']
  omega

theorem emod_eq_self_iff (code : Int) : code % 2 ^ 16 = code ↔ 0 ≤ code ∧ code < 2 ^ 16 := by
  omega

/-- A code that fits the header arrives as it is. -/
theorem code_ofWire_ofInt {code : StatusCode} (hcode : 0 ≤ code ∧ code < 2 ^ 16) :
    (Status.ofWire (UInt16.ofInt code)).code = code := by
  rw [Status.code_ofWire, toNat_ofInt]
  exact (emod_eq_self_iff code).mpr hcode

theorem Side.reply_eq (client : Side) (f : FrameHeader × Bytes) :
    client.reply f = (Status.ofWire f.1.statusCode,
      if (f.1.statusCode.toNat : StatusCode) = StatusCode.OK then f.2 else []) := by
  cases client <;> rfl

/-- What a channel reports for a response with the given header. -/
theorem deliver_frame (client : Side) (what : String) (hdr : FrameHeader) (payload rest : Bytes)
    (hsize : hdr.payloadSize = UInt32.ofNat payload.length) :
    ∃ status body, client.deliver what (Go.writeFrame hdr payload ++ rest) = .ok (status, body) ∧
      status.code = hdr.statusCode.toNat := by
  have hread := client.readFrame_ok what (readFrame_narrowed hsize rest)
  refine ⟨_, _, by rw [Side.deliver, hread], ?_⟩
  rw [client.reply_eq]
  exact Status.code_ofWire _

theorem code_respond (response : Bytes) (st : Status) :
    (Go.Server.respond response st).1 = st.code ∧ (Cpp.Server.respond response st).1 = st.code := by
  unfold Go.Server.respond Cpp.Server.respond
  split
  · rename_i hok
    exact ⟨(eq_of_beq hok).symm, (eq_of_beq hok).symm⟩
  · exact ⟨rfl, rfl⟩

/-- The callback gets the code of the handler modulo 2^16. -/
theorem deliver_answer (server client : Side) (what : String) (req : FrameHeader)
    (response : Bytes) (st : Status) (rest : Bytes) :
    ∃ status body, client.deliver what (server.answer req response st ++ rest) =
        .ok (status, body) ∧ status.code = st.code % 2 ^ 16 := by
  cases server with
  | go =>
      obtain ⟨status, body, hdeliver, hcode⟩ := deliver_frame client what
        (Go.Server.responseHeader req (Go.Server.respond response st).1
          (Go.Server.respond response st).2) (Go.Server.respond response st).2 rest rfl
      refine ⟨status, body, hdeliver, ?_⟩
      rw [hcode, ← toNat_ofInt, ← (code_respond response st).1]
      rfl
  | cpp =>
      obtain ⟨status, body, hdeliver, hcode⟩ := deliver_frame client what
        (Cpp.Server.responseHeader req (Cpp.Server.respond response st).1
          (Cpp.Server.respond response st).2) (Cpp.Server.respond response st).2 rest rfl
      rw [writeFrame_eq] at hdeliver
      refine ⟨status, body, hdeliver, ?_⟩
      rw [hcode, ← toNat_ofInt, ← (code_respond response st).2]
      rfl

/-- The callback gets the code the handler returned exactly when it fits 16 bits. -/
theorem code_survives_iff (server client : Side) (st : Status) :
    (∀ what req response rest, ∃ status body,
      client.deliver what (server.answer req response st ++ rest) = .ok (status, body) ∧
        status.code = st.code) ↔ 0 ≤ st.code ∧ st.code < 2 ^ 16 := by
  constructor
  · intro h
    obtain ⟨status, body, hdeliver, hcode⟩ := h "" ⟨FrameRequest, 0, 0, 0, 0⟩ [] []
    obtain ⟨status', body', hdeliver', hcode'⟩ :=
      deliver_answer server client "" ⟨FrameRequest, 0, 0, 0, 0⟩ [] st []
    rw [hdeliver, Except.ok.injEq, Prod.mk.injEq] at hdeliver'
    rw [← hdeliver'.1, hcode] at hcode'
    exact (emod_eq_self_iff st.code).mp hcode'.symm
  · intro hfits what req response rest
    obtain ⟨status, body, hdeliver, hcode⟩ :=
      deliver_answer server client what req response st rest
    exact ⟨status, body, hdeliver, hcode.trans ((emod_eq_self_iff st.code).mpr hfits)⟩

/-- A handler that fails with code 65536 is reported as OK with an empty payload. -/
theorem failure_reported_as_ok :
    Side.go.deliver "" (Side.go.answer ⟨FrameRequest, 0, 1, 7, 0⟩ [] ⟨65536, "quota"⟩) =
        .ok (statusOK, []) ∧
      Side.cpp.deliver "" (Side.go.answer ⟨FrameRequest, 0, 1, 7, 0⟩ [] ⟨65536, "quota"⟩) =
        .ok (statusOK, []) ∧
      Side.go.deliver "" (Side.cpp.answer ⟨FrameRequest, 0, 1, 7, 0⟩ [] ⟨65536, "quota"⟩) =
        .ok (statusOK, []) ∧
      Side.cpp.deliver "" (Side.cpp.answer ⟨FrameRequest, 0, 1, 7, 0⟩ [] ⟨65536, "quota"⟩) =
        .ok (statusOK, []) :=
  ⟨rfl, rfl, rfl, rfl⟩

end Protocomm
