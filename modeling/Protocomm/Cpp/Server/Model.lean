import Mathlib.Data.List.AList
import Protocomm.Frame
import Protocomm.Misc.MapValues
import Protocomm.Misc.Outlet
import Protocomm.Misc.Pool

/-!
# The C++ server

`c++/src/server_impl.h`, `server.cc` and `session.cc`: the coroutine `AcceptLoop`,
for each accepted connection the coroutine `wrapped` around `Session::Run`, the
handlers posted to the strand of a session, its `WritePump`, and the calls of the
application: `Send`, `Broadcast`, `Close`, `RegisterMethod` and `Shutdown`. A posted
handler and a segment of a coroutine between its suspensions are one step each,
and so are the callbacks. `async_write` sends its bytes in pieces, so that the
pieces of two writes on one socket may interleave; the io threads run the steps in
any order. What the network and the callbacks answer is part of the action. A
session is the number of its `async_accept`. Of the interceptor only matters that
it may throw; an exception that leaves a coroutine is dropped.

`wrapped` is a lambda, and its coroutine refers to the closure, which is a local of one
iteration of `AcceptLoop`. `co_spawn` starts the coroutine at once, so that it finds its
`session` there; by the time it reads `conn_id` the iteration is over. The storage of
the closure keeps its contents until the next iteration makes its own closure there,
or until `AcceptLoop` ends.
-/

namespace Protocomm.Cpp.Server

open Misc

/-- The settings of `ServerBuilder` (`server_builder.cc:8-18`) that the server reads;
    an unset `on_connect` or `on_disconnect` is one that does nothing. -/
structure Config where
  handshakeHeader : Bytes := [112, 99, 49]
  onHandshake : Bool := false
  interceptor : Bool := false
  deriving DecidableEq, Repr

/-- The handlers posted to the strand of a session. -/
inductive Handler where
  | enqueueWrite (hdr : FrameHeader) (payload : Bytes)
  | close
  deriving DecidableEq, Repr

/-- The fields of `Session` (`session.h:58-71`). `closed` is the state of the socket.
    The rest is history: that the session was put into `sessions`, the bytes the
    handshake read, that `on_handshake` returned true, what was written on the socket
    and the frames that were read. -/
structure Session where
  connectionId : UInt64
  strand : List Handler := []
  writeQueue : List (FrameHeader × Bytes) := []
  writePumpActive : Bool := false
  closed : Bool := false
  listed : Bool := false
  received : Bytes := []
  admitted : Bool := false
  out : Outlet (FrameHeader × Bytes) UInt8 := {}
  reads : List (FrameHeader × Bytes) := []
  deriving DecidableEq, Repr

/-- One run of a handler, with what it returned. A handler is the number of its
    `RegisterMethod`. -/
structure Run where
  session : Nat
  callId : UInt32
  methodId : UInt32
  handler : Nat
  request : Bytes
  result : Option (Bytes × Status) := none
  deriving DecidableEq, Repr

/-- A request whose method had no handler. -/
structure Miss where
  session : Nat
  callId : UInt32
  methodId : UInt32
  deriving DecidableEq, Repr

/-- `Server::Impl` (`server_impl.h:21-44`), the `conn_id` in the storage of the closure
    `wrapped` of `AcceptLoop`, the sessions that were made, and the history: the methods
    registered and what became of the requests. -/
structure Shared where
  handlers : AList fun _ : UInt32 => Nat := ∅
  sessions : AList fun _ : UInt64 => Nat := ∅
  nextConnectionId : UInt64 := 1
  running : Bool := true
  captured : Option UInt64 := none
  made : List Session := []
  registrations : List UInt32 := []
  runs : List Run := []
  misses : List Miss := []

/-- The places inside `AcceptLoop`: at `async_accept`, or with a socket in hand. -/
inductive Accepting where
  | accept
  | insert (session : Nat)
  deriving DecidableEq, Repr

/-- The places inside `wrapped`. The two writes count the bytes sent so far, and
    `unwind` is the `ScopeGuard` when an exception leaves `Run`. -/
inductive Running where
  | onConnect
  | readHandshake
  | onHandshake
  | writeHandshake (sent : Nat)
  | read
  | lookup (hdr : FrameHeader) (payload : Bytes)
  | running (hdr : FrameHeader) (run : Nat)
  | respond (hdr : FrameHeader) (payload : Bytes)
  | onDisconnect
  | erase
  | unwind
  deriving DecidableEq, Repr

/-- The places inside `WritePump`: the test of the loop, `WriteFrame` of a frame with the bytes
    sent so far, and the clearing of the queue after a failure. -/
inductive Pumping where
  | next
  | writing (hdr : FrameHeader) (payload : Bytes) (sent : Nat)
  | clear
  deriving DecidableEq, Repr

/-- `io` are the threads that run posted handlers; `broadcast` has the sessions of its
    snapshot still to be sent to. -/
inductive Thread where
  | app
  | io
  | acceptLoop (pc : Accepting)
  | wrapped (session : Nat) (pc : Running)
  | writePump (session : Nat) (pc : Pumping)
  | broadcast (hdr : FrameHeader) (payload : Bytes) (todo : List Nat)
  | done
  deriving DecidableEq, Repr

/-- What drives a step. The first five start a method of the server; `handle` runs
    the first handler of a strand; then the answers of the acceptor, the sockets,
    `on_handshake` and a handler, where `threw` is an exception; `pick` is the next
    session of a `Broadcast`, and `freed` what is found in the storage of a closure of
    an `AcceptLoop` that has ended. -/
inductive Action where
  | send (session : Nat) (methodId : UInt32) (payload : Bytes)
  | broadcast (methodId : UInt32) (payload : Bytes)
  | close (session : Nat)
  | registerMethod (methodId : UInt32)
  | shutdown
  | handle (session : Nat)
  | run
  | accepted
  | acceptFailed
  | readHandshake (r : Except String Bytes)
  | readFrame (r : Except String (FrameHeader × Bytes))
  | wrote (n : Nat)
  | writeFailed
  | answer (accept : Bool)
  | returned (response : Bytes) (st : Status)
  | threw
  | pick (i : Nat)
  | freed (id : UInt64)

/-- The state with another session `k`. -/
def Shared.setSession (s : Shared) (k : Nat) (session : Session) : Shared :=
  { s with made := s.made.set k session }

/-- The handshake, if there is one, may be answered. -/
def Session.accept (session : Session) : Session := { session with out := session.out.accept }

/-- The handshake read `received`. -/
def Session.receive (session : Session) (received : Bytes) : Session :=
  { session with received := received }

/-- `on_handshake` returned true. -/
def Session.approve (session : Session) : Session := { session.accept with admitted := true }

/-- `boost::asio::post` to the strand of a session. -/
def Session.post (session : Session) (h : Handler) : Session :=
  { session with strand := session.strand ++ [h] }

/-- A socket that is neither closed nor failed takes `n` of `left` bytes. -/
def Session.canWrite (session : Session) (left n : Nat) : Bool :=
  decide (0 < n ∧ n ≤ left) && !(session.closed || session.out.failed)

/-- A write on the socket failed. -/
def Session.fail (session : Session) : Session := { session with out := session.out.fail true }

/-- The header of `Send` (`session.cc:64-67`). -/
def pushHeader (methodId : UInt32) (payload : Bytes) : FrameHeader :=
  { type := FramePush, methodID := methodId, payloadSize := UInt32.ofNat payload.length }

/-- `resp_hdr` (`session.cc:140-145`). -/
def responseHeader (req : FrameHeader) (code : StatusCode) (payload : Bytes) : FrameHeader :=
  { type := FrameResponse, statusCode := UInt16.ofInt code, callID := req.callID,
    methodID := req.methodID, payloadSize := UInt32.ofNat payload.length }

/-- What a handler's answer becomes (`session.cc:126-132`). -/
def respond (response : Bytes) (st : Status) : StatusCode × Bytes :=
  if st.isOK then (StatusCode.OK, response) else (st.code, [])

/-- The record of what a handler returned. -/
def Shared.setResult (s : Shared) (run : Nat) (result : Bytes × Status) : Shared :=
  { s with runs := s.runs.modify run fun r => { r with result := some result } }

/-- `AcceptLoop` (`server_impl.h:46-86`). The closure `wrapped` and its `co_spawn` follow
    the insertion in the same segment. -/
def acceptLoopStep (s : Shared) : Accepting → Action → Option (Shared × Thread × List Thread)
  | .accept, .accepted =>
      some ({ s with made := s.made ++ [{ connectionId := s.nextConnectionId }],
                     nextConnectionId := s.nextConnectionId + 1 },
        .acceptLoop (.insert s.made.length), [])
  | .accept, .acceptFailed => some ({ s with captured := none }, .done, [])
  | .insert k, .run =>
      match s.made[k]? with
      | none => none
      | some session =>
          some ({ s.setSession k { session with listed := true } with
                    sessions := s.sessions.insert session.connectionId k,
                    captured := some session.connectionId },
            .acceptLoop .accept, [.wrapped k .onConnect])
  | _, _ => none

/-- A piece of the handshake reply. -/
def Session.greet (session : Session) (header : Bytes) (sent n : Nat) : Session :=
  { session with out := session.out.greet ((header.drop sent).take n) }

/-- What `wrapped` reads as `conn_id` after `Run` (`server_impl.h:77`). -/
def Shared.readConnId (s : Shared) : Action → Option UInt64
  | .run => s.captured
  | .freed id => if s.captured = none then some id else none
  | _ => none

/-- `Session::Run` (`session.cc:78-149`) inside `wrapped` (`server_impl.h:73-78`) of the
    session with number `k`. -/
def wrappedStep (cfg : Config) (s : Shared) (k : Nat) (session : Session) :
    Running → Action → Option (Shared × Thread × List Thread)
  | .onConnect, .run =>
      if cfg.handshakeHeader = [] then
        some (s.setSession k session.accept, .wrapped k .read, [])
      else some (s, .wrapped k .readHandshake, [])
  | .onConnect, .threw => some (s, .done, [])
  | .readHandshake, .readHandshake (.error _) => some (s, .wrapped k .onDisconnect, [])
  | .readHandshake, .readHandshake (.ok received) =>
      if session.closed || received.length ≠ cfg.handshakeHeader.length then none
      else if received ≠ cfg.handshakeHeader then
        some (s.setSession k (session.receive received), .wrapped k .onDisconnect, [])
      else if cfg.onHandshake then
        some (s.setSession k (session.receive received), .wrapped k .onHandshake, [])
      else
        some (s.setSession k (session.receive received).accept,
          .wrapped k (.writeHandshake 0), [])
  | .onHandshake, .answer accept =>
      if accept then some (s.setSession k session.approve, .wrapped k (.writeHandshake 0), [])
      else some (s, .wrapped k .onDisconnect, [])
  | .onHandshake, .threw => some (s, .wrapped k .unwind, [])
  | .writeHandshake sent, .wrote n =>
      if session.canWrite (cfg.handshakeHeader.length - sent) n then
        let next := session.greet cfg.handshakeHeader sent n
        if sent + n = cfg.handshakeHeader.length then
          some (s.setSession k { next with out := next.out.reply }, .wrapped k .read, [])
        else some (s.setSession k next, .wrapped k (.writeHandshake (sent + n)), [])
      else none
  | .writeHandshake _, .writeFailed =>
      some (s.setSession k session.fail, .wrapped k .onDisconnect, [])
  | .read, .readFrame (.error _) => some (s, .wrapped k .onDisconnect, [])
  | .read, .readFrame (.ok (hdr, payload)) =>
      if session.closed then none
      else some (s.setSession k { session with reads := session.reads ++ [(hdr, payload)] },
        .wrapped k (if hdr.type ≠ FrameRequest then .onDisconnect else .lookup hdr payload), [])
  | .read, .threw => some (s, .wrapped k .unwind, [])
  | .lookup hdr payload, .run =>
      match s.handlers.lookup hdr.methodID with
      | none =>
          some ({ s with misses := s.misses ++ [⟨k, hdr.callID, hdr.methodID⟩] },
            .wrapped k (.respond (responseHeader hdr StatusCode.Unimplemented []) []), [])
      | some handler =>
          some ({ s with runs := s.runs ++
                    [⟨k, hdr.callID, hdr.methodID, handler, payload, none⟩] },
            .wrapped k (.running hdr s.runs.length), [])
  | .running hdr run, .returned response st =>
      some (s.setResult run (response, st),
        .wrapped k (.respond
          (responseHeader hdr (respond response st).1 (respond response st).2)
          (respond response st).2), [])
  | .running _ _, .threw => some (s, .wrapped k .unwind, [])
  | .respond _ _, .threw => if cfg.interceptor then some (s, .wrapped k .unwind, []) else none
  | .respond hdr payload, .run =>
      some (s.setSession k (session.post (.enqueueWrite hdr payload)), .wrapped k .read, [])
  | .onDisconnect, .run => some (s, .wrapped k .erase, [])
  | .erase, a =>
      match s.readConnId a with
      | none => none
      | some id => some ({ s with sessions := s.sessions.erase id }, .done, [])
  | .unwind, .run => some (s, .done, [])
  | _, _ => none

/-- The head of the loop of `WritePump` (`session.cc:50-52`, `60`). -/
def pumpNext (s : Shared) (k : Nat) (session : Session) : Shared × Thread × List Thread :=
  match session.writeQueue with
  | [] => (s.setSession k { session with writePumpActive := false }, .done, [])
  | (hdr, payload) :: rest =>
      (s.setSession k { session with writeQueue := rest },
        .writePump k (.writing hdr payload 0), [])

/-- A piece of a frame; the first one begins the frame. -/
def Session.sendFrame (session : Session) (hdr : FrameHeader) (payload : Bytes) (sent n : Nat) :
    Session :=
  let piece := ((writeFrame hdr payload).drop sent).take n
  { session with out := if sent = 0 then session.out.start (hdr, payload) piece
                        else session.out.more piece }

/-- `Session::WritePump` (`session.cc:48-61`). -/
def writePumpStep (s : Shared) (k : Nat) (session : Session) :
    Pumping → Action → Option (Shared × Thread × List Thread)
  | .next, .run => some (pumpNext s k session)
  | .writing hdr payload sent, .wrote n =>
      if session.canWrite ((writeFrame hdr payload).length - sent) n then
        some (s.setSession k (session.sendFrame hdr payload sent n),
          .writePump k
            (if sent + n = (writeFrame hdr payload).length then .next
             else .writing hdr payload (sent + n)), [])
      else none
  | .writing _ _ _, .writeFailed => some (s.setSession k session.fail, .writePump k .clear, [])
  | .clear, .run =>
      some (s.setSession k { session with writeQueue := [], writePumpActive := false }, .done, [])
  | _, _ => none

/-- A posted handler (`session.cc:38-45`, `72-75`). -/
def Session.handle (session : Session) (k : Nat) : Handler → Session × List Thread
  | .enqueueWrite hdr payload =>
      let next := { session with writeQueue := session.writeQueue ++ [(hdr, payload)] }
      if session.writePumpActive then (next, [])
      else ({ next with writePumpActive := true }, [.writePump k .next])
  | .close => ({ session with closed := true }, [])

/-- An io thread runs the next handler of a strand. -/
def ioStep (s : Shared) : Action → Option (Shared × Thread × List Thread)
  | .handle k =>
      match s.made[k]? with
      | none => none
      | some session =>
          match session.strand with
          | [] => none
          | h :: rest =>
              let r := { session with strand := rest }.handle k h
              some (s.setSession k r.1, .io, r.2)
  | _ => none

/-- `Broadcast` (`server.cc:39-51`) after its snapshot. -/
def broadcastStep (s : Shared) (hdr : FrameHeader) (payload : Bytes) (todo : List Nat) :
    Action → Option (Shared × Thread × List Thread)
  | .run => if todo = [] then some (s, .done, []) else none
  | .pick i =>
      match todo[i]? with
      | none => none
      | some k =>
          match s.made[k]? with
          | none => none
          | some session =>
              some (s.setSession k (session.post (.enqueueWrite hdr payload)),
                .broadcast hdr payload (todo.eraseIdx i), [])
  | _ => none

/-- The application calls a method. It gets a session from `GetConnections` or a
    callback, so only once the session was in `sessions`. `Shutdown` (`server.cc:59-68`)
    stops the `io_context` and joins its threads. -/
def appStep (s : Shared) : Action → Option (Shared × Thread × List Thread)
  | .send k methodId payload =>
      match s.made[k]? with
      | none => none
      | some session =>
          if session.listed then
            some (s.setSession k
              (session.post (.enqueueWrite (pushHeader methodId payload) payload)), .app, [])
          else none
  | .close k =>
      match s.made[k]? with
      | none => none
      | some session =>
          if session.listed then some (s.setSession k (session.post .close), .app, []) else none
  | .broadcast methodId payload =>
      some (s, .app, [.broadcast (pushHeader methodId payload) payload (mapValues s.sessions)])
  | .registerMethod methodId =>
      some ({ s with handlers := s.handlers.insert methodId s.registrations.length,
                     registrations := s.registrations ++ [methodId] }, .app, [])
  | .shutdown => some ({ s with running := false }, .app, [])
  | _ => none

/-- The thread waits for the `io_context`, which runs nothing once it is stopped; a
    segment that has begun goes on to its end. -/
def Thread.suspended : Thread → Bool
  | .io | .acceptLoop .accept | .writePump _ _ => true
  | .wrapped _ .onConnect | .wrapped _ .readHandshake | .wrapped _ (.writeHandshake _)
  | .wrapped _ .read => true
  | _ => false

/-- One step of a thread. -/
def step (cfg : Config) (s : Shared) (t : Thread) (a : Action) :
    Option (Shared × Thread × List Thread) :=
  if t.suspended && !s.running then none
  else
    match t with
    | .app => appStep s a
    | .io => ioStep s a
    | .acceptLoop pc => acceptLoopStep s pc a
    | .wrapped k pc =>
        match s.made[k]? with
        | none => none
        | some session => wrappedStep cfg s k session pc a
    | .writePump k pc =>
        match s.made[k]? with
        | none => none
        | some session => writePumpStep s k session pc a
    | .broadcast hdr payload todo => broadcastStep s hdr payload todo a
    | .done => none

/-- The threads and coroutines of a server as a program. -/
def program (cfg : Config) : Program Shared Thread Action := ⟨step cfg⟩

/-- A started server and the application that uses it. -/
def initial : Pool Shared Thread := ⟨{}, [.app, .io, .acceptLoop .accept]⟩

/-- The interleavings of the threads and coroutines of one server. -/
def machine (cfg : Config) : Machine (Pool Shared Thread) (Nat × Action) := (program cfg).machine

end Protocomm.Cpp.Server
