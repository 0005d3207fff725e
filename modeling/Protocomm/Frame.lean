import Protocomm.Status

/-!
# Frames on the wire

Both languages put a 16-byte big-endian header before the payload. The two
codecs are written independently: `Go` follows `go/frame.go`, `Cpp` follows
`c++/src/frame.h` and the transports of `c++/src/transport.cc`, of which the
asynchronous one is used.
A stream is the bytes that can still be read from a connection before it ends;
`io.ReadFull` and asio's `async_read` return all requested bytes or fail.
-/

namespace Protocomm

/-- A `[]byte` or `std::string`. -/
abbrev Bytes := List UInt8

/-- `FrameHeader` (`go/frame.go:18-24`, `frame.h:18-22`). The type byte is kept
    as it is on the wire, since both readers accept any value. -/
@[ext] structure FrameHeader where
  type : UInt8
  statusCode : UInt16 := 0
  callID : UInt32 := 0
  methodID : UInt32
  payloadSize : UInt32
  deriving DecidableEq, Repr

/-- The bytes of a header. -/
def FrameHeaderSize : Nat := 16

/-- The frame types (`go/frame.go:12-16`, `frame.h:9-13`). -/
def FrameRequest : UInt8 := 1
def FrameResponse : UInt8 := 2
def FramePush : UInt8 := 3

namespace Go

/-- `binary.BigEndian.PutUint16`. -/
def putUint16 (v : UInt16) : UInt8 × UInt8 := ((v >>> 8).toUInt8, v.toUInt8)

/-- `binary.BigEndian.PutUint32`. -/
def putUint32 (v : UInt32) : UInt8 × UInt8 × UInt8 × UInt8 :=
  ((v >>> 24).toUInt8, (v >>> 16).toUInt8, (v >>> 8).toUInt8, v.toUInt8)

/-- `binary.BigEndian.Uint16`. -/
def uint16 (b0 b1 : UInt8) : UInt16 := b1.toUInt16 ||| (b0.toUInt16 <<< 8)

/-- `binary.BigEndian.Uint32`. -/
def uint32 (b0 b1 b2 b3 : UInt8) : UInt32 :=
  b3.toUInt32 ||| (b2.toUInt32 <<< 8) ||| (b1.toUInt32 <<< 16) ||| (b0.toUInt32 <<< 24)

/-- `FrameHeader.Serialize` (`go/frame.go:26-35`). -/
def serialize (h : FrameHeader) : Vector UInt8 FrameHeaderSize :=
  let (s0, s1) := putUint16 h.statusCode
  let (c0, c1, c2, c3) := putUint32 h.callID
  let (m0, m1, m2, m3) := putUint32 h.methodID
  let (p0, p1, p2, p3) := putUint32 h.payloadSize
  #v[h.type, 0, s0, s1, c0, c1, c2, c3, m0, m1, m2, m3, p0, p1, p2, p3]

/-- `DeserializeFrameHeader` (`go/frame.go:37-45`). -/
def deserializeFrameHeader (buf : Vector UInt8 FrameHeaderSize) : FrameHeader :=
  { type := buf[0]
    statusCode := uint16 buf[2] buf[3]
    callID := uint32 buf[4] buf[5] buf[6] buf[7]
    methodID := uint32 buf[8] buf[9] buf[10] buf[11]
    payloadSize := uint32 buf[12] buf[13] buf[14] buf[15] }

/-- The errors of `io.ReadFull` on a stream that ends. -/
inductive ReadError where
  | eof
  | unexpectedEOF
  deriving DecidableEq, Repr

/-- `io.ReadFull` into a buffer of `n` bytes: the filled buffer and the rest of
    the stream. -/
def readFull (r : Bytes) (n : Nat) : Except ReadError (Vector UInt8 n × Bytes) :=
  if h : n ≤ r.length then
    .ok (⟨(r.take n).toArray, by simp [h]⟩, r.drop n)
  else if r = [] then .error .eof
  else .error .unexpectedEOF

/-- The bytes `WriteFrame` hands to its writer (`go/frame.go:47-58`): the
    header, and in a second `Write` the payload when there is one. -/
def writeFrame (hdr : FrameHeader) (payload : Bytes) : Bytes :=
  (serialize hdr).toList ++ (if 0 < payload.length then payload else [])

/-- The second half of `ReadFrame` (`go/frame.go:66-73`), once the header has
    been decoded; a nil payload is the empty list. -/
def readPayload (hdr : FrameHeader) (r : Bytes) :
    Except ReadError ((FrameHeader × Bytes) × Bytes) :=
  if 0 < hdr.payloadSize.toNat then
    match readFull r hdr.payloadSize.toNat with
    | .error e => .error e
    | .ok (payload, rest) => .ok ((hdr, payload.toList), rest)
  else .ok ((hdr, []), r)

/-- `ReadFrame` (`go/frame.go:60-74`). -/
def readFrame (r : Bytes) : Except ReadError ((FrameHeader × Bytes) × Bytes) :=
  match readFull r FrameHeaderSize with
  | .error e => .error e
  | .ok (buf, rest) => readPayload (deserializeFrameHeader buf) rest

end Go

namespace Cpp

/-- `WriteBE32` (`frame.h:45-50`). -/
def writeBE32 (v : UInt32) : UInt8 × UInt8 × UInt8 × UInt8 :=
  (((v >>> 24) &&& 0xFF).toUInt8, ((v >>> 16) &&& 0xFF).toUInt8,
    ((v >>> 8) &&& 0xFF).toUInt8, (v &&& 0xFF).toUInt8)

/-- `ReadBE32` (`frame.h:52-57`). -/
def readBE32 (b0 b1 b2 b3 : UInt8) : UInt32 :=
  (b0.toUInt32 <<< 24) ||| (b1.toUInt32 <<< 16) ||| (b2.toUInt32 <<< 8) ||| b3.toUInt32

/-- `FrameHeader::Serialize` (`frame.h:24-32`); the shifts of the status code
    are done in `int`. -/
def serialize (h : FrameHeader) : Vector UInt8 FrameHeaderSize :=
  let (c0, c1, c2, c3) := writeBE32 h.callID
  let (m0, m1, m2, m3) := writeBE32 h.methodID
  let (p0, p1, p2, p3) := writeBE32 h.payloadSize
  #v[h.type, 0,
    ((h.statusCode.toUInt32 >>> 8) &&& 0xFF).toUInt8, (h.statusCode.toUInt32 &&& 0xFF).toUInt8,
    c0, c1, c2, c3, m0, m1, m2, m3, p0, p1, p2, p3]

/-- `FrameHeader::Deserialize` (`frame.h:34-42`). -/
def deserialize (buf : Vector UInt8 FrameHeaderSize) : FrameHeader :=
  { type := buf[0]
    statusCode := ((buf[2].toUInt32 <<< 8) ||| buf[3].toUInt32).toUInt16
    callID := readBE32 buf[4] buf[5] buf[6] buf[7]
    methodID := readBE32 buf[8] buf[9] buf[10] buf[11]
    payloadSize := readBE32 buf[12] buf[13] buf[14] buf[15] }

/-- asio's `async_read` into a buffer of `n` bytes. Its error is the text of
    the `system_error` it throws, `what`. -/
def asyncRead (what : String) (socket : Bytes) (n : Nat) :
    Except String (Vector UInt8 n × Bytes) :=
  if h : n ≤ socket.length then
    .ok (⟨(socket.take n).toArray, by simp [h]⟩, socket.drop n)
  else .error what

/-- The bytes `AsyncTransport::WriteFrame` writes (`transport.cc:114-133`): one
    gathered write of the header and the payload buffers. -/
def writeFrame (hdr : FrameHeader) (payload : Bytes) : Bytes :=
  (serialize hdr).toList ++ payload

/-- The second half of `AsyncTransport::ReadFrame` (`transport.cc:146-153`). -/
def readPayload (what : String) (header : FrameHeader) (socket : Bytes) :
    Except String ((FrameHeader × Bytes) × Bytes) :=
  if 0 < header.payloadSize.toNat then
    match asyncRead what socket header.payloadSize.toNat with
    | .error e => .error e
    | .ok (payload, rest) => .ok ((header, payload.toList), rest)
  else .ok ((header, []), socket)

/-- `AsyncTransport::ReadFrame` (`transport.cc:135-159`): a `system_error` of
    either read becomes a status. -/
def readFrame (what : String) (socket : Bytes) :
    Except Status ((FrameHeader × Bytes) × Bytes) :=
  match asyncRead what socket FrameHeaderSize with
  | .error e => .error ⟨StatusCode.Unavailable, "read frame: " ++ e⟩
  | .ok (buf, rest) =>
      match readPayload what (deserialize buf) rest with
      | .error e => .error ⟨StatusCode.Unavailable, "read frame: " ++ e⟩
      | .ok res => .ok res

namespace SyncTransport

/-- The bytes `SyncTransport::WriteFrame` writes (`transport.cc:32-46`). -/
def writeFrame (hdr : FrameHeader) (payload : Bytes) : Bytes :=
  (serialize hdr).toList ++ payload

/-- The second half of `SyncTransport::ReadFrame` (`transport.cc:58-65`).
    `boost::asio::read` reads like `async_read` and reports its failure in `ec`, whose
    text is `message`. -/
def readPayload (message : String) (header : FrameHeader) (socket : Bytes) :
    Except Status ((FrameHeader × Bytes) × Bytes) :=
  if 0 < header.payloadSize.toNat then
    match asyncRead message socket header.payloadSize.toNat with
    | .error ec => .error ⟨StatusCode.Unavailable, "read payload: " ++ ec⟩
    | .ok (payload, rest) => .ok ((header, payload.toList), rest)
  else .ok ((header, []), socket)

/-- `SyncTransport::ReadFrame` (`transport.cc:48-66`). -/
def readFrame (message : String) (socket : Bytes) :
    Except Status ((FrameHeader × Bytes) × Bytes) :=
  match asyncRead message socket FrameHeaderSize with
  | .error ec => .error ⟨StatusCode.Unavailable, "read header: " ++ ec⟩
  | .ok (buf, rest) => readPayload message (deserialize buf) rest

end SyncTransport

end Cpp

end Protocomm
