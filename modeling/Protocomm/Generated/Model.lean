import Protocomm.Plugins.Model
import Protocomm.RequestStream

/-!
# The generated code

What the plugins generate for a service: stubs, which turn a message into a call of the
channel and its reply into a message, and the functions that a service registers with a
server, which call the implementation. A message type is given by its codec; the two
protobuf libraries share the wire format. Texts for tracing are left out.
-/

namespace Protocomm

/-- A message type: `proto.Marshal` or `SerializeToArray`, `proto.Unmarshal` or
    `ParseFromArray`, and a new message. What was marshalled can be read back, and no bytes
    are a new message. -/
structure Codec (α : Type) where
  marshal : α → Except String Bytes
  unmarshal : Bytes → Except String α
  blank : α
  unmarshal_marshal : ∀ {m bytes}, marshal m = .ok bytes → unmarshal bytes = .ok m
  unmarshal_nil : unmarshal [] = .ok blank

/-- A method with the types of its request and its response. -/
structure Rpc where
  name : MethodName
  Req : Type
  Resp : Type
  input : Codec Req
  output : Codec Resp

variable (m : Rpc)

namespace Go.Generated

/-- The constant of a method id (`main.go:98-102`). -/
def methodID (name : MethodName) : UInt32 := Plugin.fnv1a32 (Plugin.methodFullName name)

/-- `UnaryCall` (`channel.go:202-209`), when `reply` is what the callback of a call gets. -/
def unaryCall (reply : UInt32 → Bytes → Status × Bytes) (id : UInt32) (request : Bytes) :
    Bytes × Status :=
  let r := reply id request
  (r.2, r.1)

/-- A method of the client (`main.go:128-158`). -/
def call (reply : UInt32 → Bytes → Status × Bytes) (req : m.Req) : Option m.Resp × Status :=
  match m.input.marshal req with
  | .error err => (none, ⟨StatusCode.Internal, "marshal: " ++ err⟩)
  | .ok data =>
      let (respData, st) := unaryCall reply (methodID m.name) data
      if !st.isOK then (none, st)
      else
        match m.output.unmarshal respData with
        | .error err => (none, ⟨StatusCode.Internal, "unmarshal: " ++ err⟩)
        | .ok resp => (some resp, statusOK)

/-- `proto.Marshal` of a pointer: a nil pointer has no bytes. -/
def marshalPtr {α : Type} (c : Codec α) : Option α → Except String Bytes
  | none => .ok []
  | some x => c.marshal x

/-- The function given to `RegisterMethod` (`main.go:203-228`). -/
def handler (impl : m.Req → Option m.Resp × Status) (data : Bytes) : Bytes × Status :=
  match m.input.unmarshal data with
  | .error err => ([], ⟨StatusCode.Internal, "unmarshal: " ++ err⟩)
  | .ok req =>
      let (resp, st) := impl req
      if !st.isOK then ([], st)
      else
        match marshalPtr m.output resp with
        | .error err => ([], ⟨StatusCode.Internal, "marshal: " ++ err⟩)
        | .ok out => (out, statusOK)

end Go.Generated

namespace Cpp.Generated

/-- `SerializeProto` (`protobuf.h:15-24`); what is left in `out` after a failure is not
    modelled. -/
def serializeProto {α : Type} (c : Codec α) (x : α) : Status × Bytes :=
  match c.marshal x with
  | .error _ => (⟨StatusCode.Internal, "protobuf serialization failed"⟩, [])
  | .ok out => (statusOK, out)

/-- `ParseProto` (`protobuf.h:26-32`); a message that could not be parsed is not used. -/
def parseProto {α : Type} (c : Codec α) (data : Bytes) : Status × Option α :=
  match c.unmarshal data with
  | .error _ => (⟨StatusCode.Internal, "protobuf deserialization failed"⟩, none)
  | .ok x => (statusOK, some x)

/-- `UnaryCall` (`channel.cc:422-430`): the status, and `*response` if it is set. -/
def unaryCall (reply : UInt32 → Bytes → Status × Bytes) (id : UInt32) (request : Bytes) :
    Status × Option Bytes :=
  let (st, bytes) := reply id request
  if !st.isOK then (st, none) else (statusOK, some bytes)

/-- A method of `Stub` that waits (`generator.cpp:71-87`): the status, and `*response` if it
    is set. -/
def call (reply : UInt32 → Bytes → Status × Bytes) (request : m.Req) :
    Status × Option m.Resp :=
  let (s, reqBytes) := serializeProto m.input request
  if !s.isOK then (s, none)
  else
    let (s, respBytes) := unaryCall reply (methodId m.name) reqBytes
    if !s.isOK then (s, none) else parseProto m.output (respBytes.getD [])

/-- `AsyncUnaryCall::get` (`async_call.h:26-33`). -/
def AsyncUnaryCall.get {α : Type} (c : Codec α) (raw : Status × Bytes) : Status × α :=
  let (st, bytes) := raw
  if !st.isOK then (st, c.blank)
  else
    match parseProto c bytes with
    | (ps, none) => (ps, c.blank)
    | (ps, some resp) => if !ps.isOK then (ps, c.blank) else (statusOK, resp)

/-- The future of an `Async` method (`generator.cpp:89-101`), when it is waited for. -/
def asyncCall (reply : UInt32 → Bytes → Status × Bytes) (request : m.Req) : Status × m.Resp :=
  let (ser, reqBytes) := serializeProto m.input request
  if !ser.isOK then AsyncUnaryCall.get m.output (ser, [])
  else AsyncUnaryCall.get m.output (reply (methodId m.name) reqBytes)

/-- What `on_response` of an `Async` method is called with (`generator.cpp:103-132`). -/
def asyncCallback (reply : UInt32 → Bytes → Status × Bytes) (request : m.Req) :
    Status × m.Resp :=
  let (ser, reqBytes) := serializeProto m.input request
  if !ser.isOK then (ser, m.output.blank)
  else
    let (st, bytes) := reply (methodId m.name) reqBytes
    let (ps, resp) := if st.isOK then parseProto m.output bytes else (st, none)
    if !st.isOK then (st, m.output.blank)
    else if !ps.isOK then (ps, m.output.blank)
    else (statusOK, resp.getD m.output.blank)

/-- The function given to `RegisterMethod` (`generator.cpp:209-229`). -/
def handler (impl : m.Req → Status × m.Resp) (reqBytes : Bytes) : Bytes × Status :=
  match parseProto m.input reqBytes with
  | (ps, none) => ([], ps)
  | (_, some req) =>
      let (s, resp) := impl req
      if !s.isOK then ([], s)
      else
        let (s, respBytes) := serializeProto m.output resp
        (respBytes, s)

end Cpp.Generated

/-! ## Services -/

/-- An implementation of a method on a server: in Go the response may be nil. -/
def Side.Impl : Side → Type
  | .go => m.Req → Option m.Resp × Status
  | .cpp => m.Req → Status × m.Resp

/-- A method of a service, with its implementation. -/
structure Bound (server : Side) where
  rpc : Rpc
  impl : server.Impl rpc

variable {server : Side}

/-- The id under which the method is registered. -/
def Bound.id (b : Bound server) : UInt32 :=
  match server with
  | .go => Go.Generated.methodID b.rpc.name
  | .cpp => Cpp.methodId b.rpc.name

/-- The function that is registered. -/
def Bound.handler (b : Bound server) : Bytes → Bytes × Status :=
  match server, b with
  | .go, b => Go.Generated.handler b.rpc b.impl
  | .cpp, b => Cpp.Generated.handler b.rpc b.impl

/-- `RegisterWith` (`generator.cpp:207-231`, `main.go:234-243`). -/
def registerWith (handlers : Table) (service : List (Bound server)) : Table :=
  service.foldl (fun handlers b => handlers.insert b.id fun _ => b.handler) handlers

/-- `BuildAndStart` registers the services in the order in which they were added
    (`server_builder.cc:78-80`, `server.go:315-317`). -/
def buildAndStart (services : List (List (Bound server))) : Table :=
  services.foldl registerWith ∅

/-! ## Calls -/

/-- The ways to make a call with generated code. -/
inductive Stub where
  | go
  | cpp
  | cppFuture
  | cppCallback
  deriving DecidableEq, Repr

/-- A caller looks at the response only if the status is OK. -/
def seen {α : Type} (r : Status × α) : StatusCode × Option α :=
  (r.1.code, if r.1.isOK then some r.2 else none)

/-- The code and the response that the caller of a stub gets, when `reply` is what the
    callback of a call gets. -/
def Stub.call (stub : Stub) (reply : UInt32 → Bytes → Status × Bytes) (req : m.Req) :
    StatusCode × Option m.Resp :=
  match stub with
  | .go =>
      let (resp, st) := Go.Generated.call m reply req
      (st.code, resp)
  | .cpp =>
      let (st, resp) := Cpp.Generated.call m reply req
      (st.code, resp)
  | .cppFuture => seen (Cpp.Generated.asyncCall m reply req)
  | .cppCallback => seen (Cpp.Generated.asyncCallback m reply req)

end Protocomm
