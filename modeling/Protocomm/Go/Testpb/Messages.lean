import Protocomm.Go.Testpb.Wire
import Protocomm.Misc.Loop

/-!
# The messages of testpb

The message types of `go/internal/testpb/messages.go`. The `Unmarshal` methods
differ only in their `switch`, which the model keeps as a table from field
numbers to what is read: all of them are one loop over such a table. A
`HistoryResponse` unmarshals a `ChatMessage` inside its loop, so a state has
that decoder too while it runs.
-/

namespace Protocomm.Go.Testpb

open Misc Loop

/-- Whom to greet (`messages.go:3-5`). -/
structure HelloRequest where
  name : Bytes := []
  deriving DecidableEq, Repr

/-- The greeting (`messages.go:33-35`). -/
structure HelloReply where
  message : Bytes := []
  deriving DecidableEq, Repr

/-- The two operands (`messages.go:63-66`). A `float64` is given by its bits. -/
structure CalcRequest where
  a : UInt64 := 0
  b : UInt64 := 0
  deriving DecidableEq, Repr

/-- The result of a calculation, or the text of its error (`messages.go:97-100`). -/
structure CalcResponse where
  result : UInt64 := 0
  error : Bytes := []
  deriving DecidableEq, Repr

/-- A message of the chat (`messages.go:131-135`). -/
structure ChatMessage where
  sender : Bytes := []
  text : Bytes := []
  timestamp : UInt64 := 0
  deriving DecidableEq, Repr

/-- Whether a chat message was taken, and its id (`messages.go:169-172`). -/
structure SendResult where
  success : Bool := false
  messageID : Bytes := []
  deriving DecidableEq, Repr

/-- How many chat messages are asked for (`messages.go:205-207`). -/
structure HistoryRequest where
  limit : UInt32 := 0
  deriving DecidableEq, Repr

/-- Chat messages and how many there are in all (`messages.go:237-240`). -/
structure HistoryResponse where
  messages : List ChatMessage := []
  total : UInt32 := 0
  deriving DecidableEq, Repr

/-- The time a ping was sent (`messages.go:284-286`). -/
structure PingRequest where
  sentAt : UInt64 := 0
  deriving DecidableEq, Repr

/-- That time and the time it was received (`messages.go:314-317`). -/
structure PongResponse where
  sentAt : UInt64 := 0
  receivedAt : UInt64 := 0
  deriving DecidableEq, Repr

/-! ## Marshal -/

/-- `HelloRequest.Marshal` (`messages.go:7-11`). -/
def HelloRequest.marshal (m : HelloRequest) : Bytes :=
  (({} : Encoder).encodeString 1 m.name).buf

/-- `HelloReply.Marshal` (`messages.go:37-41`). -/
def HelloReply.marshal (m : HelloReply) : Bytes :=
  (({} : Encoder).encodeString 1 m.message).buf

/-- `CalcRequest.Marshal` (`messages.go:68-73`). -/
def CalcRequest.marshal (m : CalcRequest) : Bytes :=
  ((({} : Encoder).encodeDouble 1 m.a).encodeDouble 2 m.b).buf

/-- `CalcResponse.Marshal` (`messages.go:102-107`). -/
def CalcResponse.marshal (m : CalcResponse) : Bytes :=
  ((({} : Encoder).encodeDouble 1 m.result).encodeString 2 m.error).buf

/-- `ChatMessage.Marshal` (`messages.go:137-143`). -/
def ChatMessage.marshal (m : ChatMessage) : Bytes :=
  (((({} : Encoder).encodeString 1 m.sender).encodeString 2 m.text).encodeUint64 3
    m.timestamp).buf

/-- `SendResult.Marshal` (`messages.go:174-179`). -/
def SendResult.marshal (m : SendResult) : Bytes :=
  ((({} : Encoder).encodeBool 1 m.success).encodeString 2 m.messageID).buf

/-- `HistoryRequest.Marshal` (`messages.go:209-213`). -/
def HistoryRequest.marshal (m : HistoryRequest) : Bytes :=
  (({} : Encoder).encodeUint32 1 m.limit).buf

/-- `HistoryResponse.Marshal` (`messages.go:242-249`). -/
def HistoryResponse.marshal (m : HistoryResponse) : Bytes :=
  let e := m.messages.foldl (fun e msg => e.encodeBytes 1 msg.marshal) ({} : Encoder)
  (e.encodeUint32 2 m.total).buf

/-- `PingRequest.Marshal` (`messages.go:288-292`). -/
def PingRequest.marshal (m : PingRequest) : Bytes :=
  (({} : Encoder).encodeUint64 1 m.sentAt).buf

/-- `PongResponse.Marshal` (`messages.go:319-324`). -/
def PongResponse.marshal (m : PongResponse) : Bytes :=
  ((({} : Encoder).encodeUint64 1 m.sentAt).encodeUint64 2 m.receivedAt).buf

/-! ## Unmarshal -/

/-- What a case of the `switch` reads and where it puts it. -/
inductive Scalar (M : Type) where
  | string (set : Bytes → M → M)
  | varint (set : UInt64 → M → M)
  | double (set : UInt64 → M → M)

/-- The `switch` of an `Unmarshal`: its scalar fields, and the field of nested messages with
    what is done with one. -/
structure Fields (M : Type) where
  scalar : Nat → Option (Scalar M)
  messages : Option (Nat × (ChatMessage → M → M)) := none

variable {M : Type}

/-- The case for a field, or the default. After an error nothing looks at the message. -/
def Decoder.readCase (d : Decoder) (field : Option (Scalar M)) (wt : Nat) (m : M) :
    Res (Decoder × M) :=
  match field with
  | some (.string set) => do
      let (s, d) ← d.readString
      .ok (d, set s m)
  | some (.varint set) => do
      let (v, d) ← d.readVarint
      .ok (d, set v m)
  | some (.double set) => do
      let (v, d) ← d.readDouble
      .ok (d, set v m)
  | none => do
      let d ← d.skip wt
      .ok (d, m)

/-- The body of the loop for a message without nested messages. -/
def Decoder.readField (d : Decoder) (scalar : Nat → Option (Scalar M)) (m : M) :
    Res (Decoder × M) := do
  let (num, wt, d) ← d.readTag
  d.readCase (scalar num) wt m

/-- The `switch` of `HelloRequest.Unmarshal` (`messages.go:13-31`). -/
def HelloRequest.fields : Fields HelloRequest where
  scalar
    | 1 => some (.string fun s m => { m with name := s })
    | _ => none

/-- The `switch` of `HelloReply.Unmarshal` (`messages.go:43-61`). -/
def HelloReply.fields : Fields HelloReply where
  scalar
    | 1 => some (.string fun s m => { m with message := s })
    | _ => none

/-- The `switch` of `CalcRequest.Unmarshal` (`messages.go:75-95`). -/
def CalcRequest.fields : Fields CalcRequest where
  scalar
    | 1 => some (.double fun v m => { m with a := v })
    | 2 => some (.double fun v m => { m with b := v })
    | _ => none

/-- The `switch` of `CalcResponse.Unmarshal` (`messages.go:109-129`). -/
def CalcResponse.fields : Fields CalcResponse where
  scalar
    | 1 => some (.double fun v m => { m with result := v })
    | 2 => some (.string fun s m => { m with error := s })
    | _ => none

/-- The `switch` of `ChatMessage.Unmarshal` (`messages.go:145-167`). -/
def ChatMessage.fields : Fields ChatMessage where
  scalar
    | 1 => some (.string fun s m => { m with sender := s })
    | 2 => some (.string fun s m => { m with text := s })
    | 3 => some (.varint fun v m => { m with timestamp := v })
    | _ => none

/-- The `switch` of `SendResult.Unmarshal` (`messages.go:181-203`). -/
def SendResult.fields : Fields SendResult where
  scalar
    | 1 => some (.varint fun v m => { m with success := decide (v ≠ 0) })
    | 2 => some (.string fun s m => { m with messageID := s })
    | _ => none

/-- The `switch` of `HistoryRequest.Unmarshal` (`messages.go:215-235`). -/
def HistoryRequest.fields : Fields HistoryRequest where
  scalar
    | 1 => some (.varint fun v m => { m with limit := v.toUInt32 })
    | _ => none

/-- The `switch` of `HistoryResponse.Unmarshal` (`messages.go:251-282`). -/
def HistoryResponse.fields : Fields HistoryResponse where
  scalar
    | 2 => some (.varint fun v m => { m with total := v.toUInt32 })
    | _ => none
  messages := some (1, fun msg m => { m with messages := m.messages ++ [msg] })

/-- The `switch` of `PingRequest.Unmarshal` (`messages.go:294-312`). -/
def PingRequest.fields : Fields PingRequest where
  scalar
    | 1 => some (.varint fun v m => { m with sentAt := v })
    | _ => none

/-- The `switch` of `PongResponse.Unmarshal` (`messages.go:326-346`). -/
def PongResponse.fields : Fields PongResponse where
  scalar
    | 1 => some (.varint fun v m => { m with sentAt := v })
    | 2 => some (.varint fun v m => { m with receivedAt := v })
    | _ => none

/-- A state of the loop: its decoder and message, and the nested `Unmarshal` while it runs. -/
structure State (M : Type) where
  d : Decoder
  m : M
  nested : Option (Decoder × ChatMessage) := none
  deriving DecidableEq, Repr

/-- The end of a round that may fail. -/
def Res.orStop {α : Type} (x : Res α) (f : α → Next (State M) (Res M)) :
    Next (State M) (Res M) :=
  match x with
  | .ok a => f a
  | .error e => .stop (.error e)
  | .panic => .stop .panic

@[simp] theorem Res.orStop_ok {α : Type} (a : α) (f : α → Next (State M) (Res M)) :
    (Res.ok a).orStop f = f a := rfl

/-- A round of an `Unmarshal`. -/
def unmarshalBody (fields : Fields M) (s : State M) : Next (State M) (Res M) :=
  match s.nested with
  | some (d, msg) =>
      if d.done then
        match fields.messages with
        | some (_, add) => .again { d := s.d, m := add msg s.m }
        | none => .again { d := s.d, m := s.m }
      else
        (d.readField ChatMessage.fields.scalar msg).orStop fun x =>
          .again { s with nested := some x }
  | none =>
      if s.d.done then .stop (.ok s.m)
      else
        s.d.readTag.orStop fun (num, wt, d) =>
          if (fields.messages.map Prod.fst) = some num then
            d.readBytes.orStop fun (msgData, d) =>
              .again { d := d, m := s.m, nested := some (newDecoder msgData, {}) }
          else
            (d.readCase (fields.scalar num) wt s.m).orStop fun (d, m) => .again { d := d, m := m }

/-- `d := NewDecoder(data)`. -/
def start (data : Bytes) (m : M) : State M := { d := newDecoder data, m := m }

/-- `Unmarshal` of `data` into `m` ends with `r`. -/
def Unmarshal (fields : Fields M) (m : M) (data : Bytes) (r : Res M) : Prop :=
  Returns (unmarshalBody fields) (start data m) r

/-- The message types. -/
inductive MessageType where
  | helloRequest
  | helloReply
  | calcRequest
  | calcResponse
  | chatMessage
  | sendResult
  | historyRequest
  | historyResponse
  | pingRequest
  | pongResponse
  deriving DecidableEq, Repr

/-- The Go type of a message. -/
def MessageType.Value : MessageType → Type
  | .helloRequest => HelloRequest
  | .helloReply => HelloReply
  | .calcRequest => CalcRequest
  | .calcResponse => CalcResponse
  | .chatMessage => ChatMessage
  | .sendResult => SendResult
  | .historyRequest => HistoryRequest
  | .historyResponse => HistoryResponse
  | .pingRequest => PingRequest
  | .pongResponse => PongResponse

/-- The `switch` of a message's `Unmarshal`. -/
def MessageType.fields : (t : MessageType) → Fields t.Value
  | .helloRequest => HelloRequest.fields
  | .helloReply => HelloReply.fields
  | .calcRequest => CalcRequest.fields
  | .calcResponse => CalcResponse.fields
  | .chatMessage => ChatMessage.fields
  | .sendResult => SendResult.fields
  | .historyRequest => HistoryRequest.fields
  | .historyResponse => HistoryResponse.fields
  | .pingRequest => PingRequest.fields
  | .pongResponse => PongResponse.fields

/-- `HelloRequest.Unmarshal` (`messages.go:13-31`). -/
def HelloRequest.Unmarshal := Testpb.Unmarshal HelloRequest.fields

/-- `HelloReply.Unmarshal` (`messages.go:43-61`). -/
def HelloReply.Unmarshal := Testpb.Unmarshal HelloReply.fields

/-- `CalcRequest.Unmarshal` (`messages.go:75-95`). -/
def CalcRequest.Unmarshal := Testpb.Unmarshal CalcRequest.fields

/-- `CalcResponse.Unmarshal` (`messages.go:109-129`). -/
def CalcResponse.Unmarshal := Testpb.Unmarshal CalcResponse.fields

/-- `ChatMessage.Unmarshal` (`messages.go:145-167`). -/
def ChatMessage.Unmarshal := Testpb.Unmarshal ChatMessage.fields

/-- `SendResult.Unmarshal` (`messages.go:181-203`). -/
def SendResult.Unmarshal := Testpb.Unmarshal SendResult.fields

/-- `HistoryRequest.Unmarshal` (`messages.go:215-235`). -/
def HistoryRequest.Unmarshal := Testpb.Unmarshal HistoryRequest.fields

/-- `HistoryResponse.Unmarshal` (`messages.go:251-282`). -/
def HistoryResponse.Unmarshal := Testpb.Unmarshal HistoryResponse.fields

/-- `PingRequest.Unmarshal` (`messages.go:294-312`). -/
def PingRequest.Unmarshal := Testpb.Unmarshal PingRequest.fields

/-- `PongResponse.Unmarshal` (`messages.go:326-346`). -/
def PongResponse.Unmarshal := Testpb.Unmarshal PongResponse.fields

end Protocomm.Go.Testpb
