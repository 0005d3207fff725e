import Protocomm.Generated.Model
import Protocomm.Interop
import Protocomm.Plugins.Scan

/-!
# Calls between generated code

When a request to the plugins has no colliding methods, each method of the generated
services is found under its id. A call that a stub makes over a connection to a server ends
with what the implementation of the same method returns for the message of the caller,
whichever languages the two sides are generated for.
-/

namespace Protocomm

open Misc

variable {server : Side}

/-! ## Routing -/

theorem Go.Generated.methodID_eq (name : MethodName) :
    Go.Generated.methodID name = Go.methodID name := by
  rw [Go.Generated.methodID, Go.Plugin.methodFullName_eq, Go.methodID_eq]
  rfl

theorem Bound.id_eq (b : Bound server) (hname : b.rpc.name.WellNamed) :
    b.id = Go.methodID b.rpc.name := by
  cases server with
  | go => exact Go.Generated.methodID_eq _
  | cpp => exact methodId_eq_methodID hname.noNul

theorem buildAndStart_eq (services : List (List (Bound server))) :
    buildAndStart services =
      enterAll Bound.id (fun (b : Bound server) _ => b.handler) ∅ services.flatten := by
  rw [enterAll, List.foldl_flatten]
  rfl

/-- The services of a server are generated from a request, and no method is registered
    twice. -/
structure Generated (req : CodeGeneratorRequest) (services : List (List (Bound server))) :
    Prop where
  names : ∀ m ∈ req.methods, m.WellNamed
  accepted : ¬ req.Collides
  methods : ∀ b ∈ services.flatten, b.rpc.name ∈ req.methods
  once : (services.flatten.map fun b => b.rpc.name).Nodup

theorem Generated.ids_nodup {req : CodeGeneratorRequest} {services : List (List (Bound server))}
    (h : Generated req services) : (services.flatten.map Bound.id).Nodup := by
  have hids : services.flatten.map Bound.id =
      (services.flatten.map fun b => b.rpc.name).map Go.methodID := by
    rw [List.map_map]
    exact List.map_congr_left fun b hb => b.id_eq (h.names _ (h.methods b hb))
  rw [hids]
  refine h.once.map_on fun x hx y hy hid => ?_
  obtain ⟨b, hb, rfl⟩ := List.mem_map.mp hx
  obtain ⟨b', hb', rfl⟩ := List.mem_map.mp hy
  by_contra hne
  exact h.accepted ⟨_, h.methods b hb, _, h.methods b' hb', hne, hid⟩

theorem Generated.lookup {req : CodeGeneratorRequest} {services : List (List (Bound server))}
    (h : Generated req services) {b : Bound server} (hb : b ∈ services.flatten) :
    (buildAndStart services).lookup b.id = some fun _ => b.handler := by
  rw [buildAndStart_eq]
  exact lookup_enterAll Bound.id (fun (b : Bound server) _ => b.handler) h.ids_nodup hb ∅

/-! ## One call -/

@[simp]
theorem isOK_statusOK : statusOK.isOK = true := rfl

@[simp]
theorem code_statusOK : statusOK.code = StatusCode.OK := rfl

@[simp]
theorem isOK_internal (message : String) : (⟨StatusCode.Internal, message⟩ : Status).isOK = false :=
  rfl

/-- What the implementation of a method returns, with a nil response in Go. -/
def Bound.returns (b : Bound server) (req : b.rpc.Req) : Option b.rpc.Resp × Status :=
  match server, b with
  | .go, b => b.impl req
  | .cpp, b =>
      let r := b.impl req
      (some r.2, r.1)

/-- What a call of a method is to end with: the code of the implementation, with its
    response if that is OK. A response that cannot be marshalled is an `Internal` error, and
    a nil response a new message. -/
def Bound.outcome (b : Bound server) (req : b.rpc.Req) : StatusCode × Option b.rpc.Resp :=
  let (resp, st) := b.returns req
  if st.isOK then
    match resp with
    | none => (StatusCode.OK, some b.rpc.output.blank)
    | some resp =>
        match b.rpc.output.marshal resp with
        | .error _ => (StatusCode.Internal, none)
        | .ok _ => (StatusCode.OK, some resp)
  else (st.code, none)

/-- The code of the status that the implementation returns fits the header of a frame. -/
def Bound.Fits (b : Bound server) (req : b.rpc.Req) : Prop :=
  0 ≤ (b.returns req).2.code ∧ (b.returns req).2.code < 2 ^ 16

/-- What a stub makes of the code and the payload of the reply to its call. -/
def finish {α : Type} (c : Codec α) (code : StatusCode) (payload : Bytes) :
    StatusCode × Option α :=
  if code = StatusCode.OK then
    match c.unmarshal payload with
    | .error _ => (StatusCode.Internal, none)
    | .ok resp => (StatusCode.OK, some resp)
  else (code, none)

/-- The method id in a stub. -/
def Stub.id (stub : Stub) (name : MethodName) : UInt32 :=
  match stub with
  | .go => Go.Generated.methodID name
  | .cpp | .cppFuture | .cppCallback => Cpp.methodId name

/-- A handler that can read its request does what the implementation returns. -/
theorem Bound.handler_eq (b : Bound server) {data : Bytes} {req : b.rpc.Req}
    (h : b.rpc.input.unmarshal data = .ok req) :
    ((b.returns req).2.isOK = false ∧ b.handler data = ([], (b.returns req).2)) ∨
    ((b.returns req).2.isOK = true ∧
      ((∃ e text, Go.Generated.marshalPtr b.rpc.output (b.returns req).1 = .error e ∧
          b.handler data = ([], ⟨StatusCode.Internal, text⟩)) ∨
        ∃ out, Go.Generated.marshalPtr b.rpc.output (b.returns req).1 = .ok out ∧
          b.handler data = (out, statusOK))) := by
  cases server with
  | go =>
      simp only [Bound.handler, Go.Generated.handler, h, Bound.returns]
      cases hok : (b.impl req).2.isOK with
      | false => exact Or.inl ⟨rfl, by simp⟩
      | true =>
          refine Or.inr ⟨rfl, ?_⟩
          cases hout : Go.Generated.marshalPtr b.rpc.output (b.impl req).1 with
          | error e => exact Or.inl ⟨e, "marshal: " ++ e, rfl, by simp⟩
          | ok out => exact Or.inr ⟨out, rfl, by simp⟩
  | cpp =>
      simp only [Bound.handler, Cpp.Generated.handler, Cpp.Generated.parseProto, h, Bound.returns,
        Go.Generated.marshalPtr, Cpp.Generated.serializeProto]
      cases hok : (b.impl req).1.isOK with
      | false => exact Or.inl ⟨rfl, by simp⟩
      | true =>
          refine Or.inr ⟨rfl, ?_⟩
          cases hout : b.rpc.output.marshal (b.impl req).2 with
          | error e => exact Or.inl ⟨e, "protobuf serialization failed", rfl, by simp⟩
          | ok out => exact Or.inr ⟨out, rfl, by simp⟩

/-- The code that a handler returns fits if that of the implementation does. -/
theorem Bound.Fits.handler {b : Bound server} {req : b.rpc.Req} (h : b.Fits req) {data : Bytes}
    (hdata : b.rpc.input.unmarshal data = .ok req) :
    0 ≤ (b.handler data).2.code ∧ (b.handler data).2.code < 2 ^ 16 := by
  rcases b.handler_eq hdata with ⟨-, heq⟩ | ⟨-, ⟨e, text, -, heq⟩ | ⟨out, -, heq⟩⟩
  · rw [heq]
    exact h
  · rw [heq]
    show 0 ≤ StatusCode.Internal ∧ StatusCode.Internal < 2 ^ 16
    decide
  · rw [heq]
    show 0 ≤ StatusCode.OK ∧ StatusCode.OK < 2 ^ 16
    decide

theorem Stub.id_eq (stub : Stub) {b : Bound server} (hname : b.rpc.name.WellNamed) :
    stub.id b.rpc.name = b.id := by
  rw [b.id_eq hname]
  cases stub with
  | go => exact Go.Generated.methodID_eq _
  | cpp | cppFuture | cppCallback => exact methodId_eq_methodID hname.noNul

end Protocomm
