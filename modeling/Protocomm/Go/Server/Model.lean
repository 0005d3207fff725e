import Mathlib.Data.List.AList
import Protocomm.Frame
import Protocomm.Misc.MapValues
import Protocomm.Misc.Outlet
import Protocomm.Misc.Pool

/-!
# The Go server

`go/server.go`: the accept loop, one `handleConn` per connection, one goroutine
per request, and the calls of the application: `Send`, `Broadcast`, `Close`,
`RegisterMethod` and `Shutdown`. Each section under `sessionsMu` or `handlersMu`
is one step, as are `Write`, `ReadFull`, `ReadFrame` and each callback; what the
network and the callbacks answer is part of the action. A peer is the number of
its `Accept`. The interceptor changes nothing here and is left out.
-/

namespace Protocomm.Go.Server

open Misc

/-- The fields of `ServerBuilder` that the server reads (`server.go:238-248`); of
    the callbacks only their presence matters. -/
structure Config where
  handshakeHeader : Bytes := [112, 99, 49]
  onHandshake : Bool := false
  maxConcurrent : Int := 256
  deriving DecidableEq, Repr

/-- The capacity of `s.sem`, which is nil unless `maxConcurrent` is positive
    (`server.go:311-313`). -/
def Config.sem (cfg : Config) : Option Nat :=
  if 0 < cfg.maxConcurrent then some cfg.maxConcurrent.toNat else none

/-- A `Peer` (`server.go:14-19`) with the state of its connection and of the
    `inflight` group of its `handleConn`. `closed` is set by `conn.Close`. The rest is
    history: that the peer was put into `sessions`, the bytes the handshake read, that
    `onHandshake` returned true, what was written on the connection and the frames
    that were read. -/
structure Peer where
  id : UInt64
  writeMu : Bool := false
  inflight : Nat := 0
  closed : Bool := false
  listed : Bool := false
  received : Bytes := []
  admitted : Bool := false
  out : Outlet (FrameHeader × Bytes) UInt8 := {}
  reads : List (FrameHeader × Bytes) := []
  deriving DecidableEq, Repr

/-- One run of a handler, with what it returned. A handler is the number of its
    `RegisterMethod`. -/
structure Run where
  peer : Nat
  callID : UInt32
  methodID : UInt32
  handler : Nat
  request : Bytes
  result : Option (Bytes × Status) := none
  deriving DecidableEq, Repr

/-- A request whose method had no handler. -/
structure Miss where
  peer : Nat
  callID : UInt32
  methodID : UInt32
  deriving DecidableEq, Repr

/-- What happens to a peer: the two callbacks, the start and the end of a handler, and
    the end of `WriteFrame` for its response. -/
inductive Event where
  | onConnect (peer : Nat)
  | started (peer : Nat)
  | finished (peer : Nat)
  | attempted (peer : Nat)
  | onDisconnect (peer : Nat)
  deriving DecidableEq, Repr

/-- The fields of `Server` (`server.go:37-56`), then the peers and the history: the
    methods registered, what became of the requests, that `Shutdown` went through
    `sessions`, and the events in their order. -/
structure Shared where
  handlers : AList fun _ : UInt32 => Nat := ∅
  sessions : AList fun _ : UInt64 => Nat := ∅
  nextConnID : UInt64 := 1
  sem : Nat := 0
  done : Bool := false
  wg : Nat := 1
  listenerClosed : Bool := false
  peers : List Peer := []
  registrations : List UInt32 := []
  runs : List Run := []
  misses : List Miss := []
  swept : Bool := false
  events : List Event := []

/-- The places inside `acceptLoop`. -/
inductive Accepting where
  | accept
  | insert (peer : Nat)
  | spawn (peer : Nat)
  deriving DecidableEq, Repr

/-- The places inside `WriteFrame` under `writeMu`. -/
inductive Writing where
  | lock
  | header
  | payload
  | unlock (err : Option String)
  deriving DecidableEq, Repr

/-- The places inside `handleConn`; the last five are its deferred function. -/
inductive Handling where
  | onConnect
  | readHandshake
  | onHandshake
  | writeHandshake
  | read
  | acquire (hdr : FrameHeader) (payload : Bytes)
  | spawn (hdr : FrameHeader) (payload : Bytes)
  | wait
  | onDisconnect
  | delete
  | close
  | wgDone
  deriving DecidableEq, Repr

/-- The places inside the goroutine of a request. -/
inductive Serving where
  | lookup
  | call (handler : Nat)
  | running (run : Nat)
  | write (hdr : FrameHeader) (payload : Bytes) (pc : Writing)
  | close
  | release
  | inflightDone
  deriving DecidableEq, Repr

/-- The places inside `Shutdown`. -/
inductive Stopping where
  | check
  | closeListener
  | sweep
  | wait
  deriving DecidableEq, Repr

/-- `push` is a `Send` or `Broadcast`: the peers still to be sent to and the one
    it is sending to. -/
inductive Goroutine where
  | app
  | acceptLoop (pc : Accepting)
  | handleConn (peer : Nat) (pc : Handling)
  | request (peer : Nat) (hdr : FrameHeader) (payload : Bytes) (pc : Serving)
  | push (hdr : FrameHeader) (payload : Bytes) (todo : List Nat) (now : Option (Nat × Writing))
  | shutdown (pc : Stopping)
  | done
  deriving DecidableEq, Repr

/-- What drives a step. The first five start a method of the server; then the
    answers of the listener, the connections, `onHandshake` and a handler; `pick` is
    the next peer of a `Broadcast`, and `quit` the receive from `s.done` in a
    `select`. -/
inductive Action where
  | send (peer : Nat) (methodID : UInt32) (payload : Bytes)
  | broadcast (methodID : UInt32) (payload : Bytes)
  | closePeer (peer : Nat)
  | registerMethod (methodID : UInt32)
  | shutdown
  | run
  | accepted
  | acceptFailed
  | readFull (r : Except String Bytes)
  | readFrame (r : Except String (FrameHeader × Bytes))
  | wrote (n : Nat) (err : Option String)
  | answer (accept : Bool)
  | returned (response : Bytes) (st : Status)
  | pick (i : Nat)
  | quit

/-- A `Write` of `len` bytes accepts `n` of them, and fails if it accepts fewer. A
    connection that is closed or has failed accepts nothing. -/
def Peer.canWrite (peer : Peer) (len n : Nat) (err : Option String) : Bool :=
  decide (n ≤ len) && (err.isSome || n == len) &&
    (!(peer.closed || peer.out.failed) || (n == 0 && err.isSome))

/-- The outcome of a `Write`. -/
def Peer.wrote (peer : Peer) (out : Outlet (FrameHeader × Bytes) UInt8) (err : Option String) :
    Peer :=
  { peer with out := out.fail err.isSome }

/-- The handshake, if there is one, may be answered. -/
def Peer.accept (peer : Peer) : Peer := { peer with out := peer.out.accept }

/-- The handshake read `received`. -/
def Peer.receive (peer : Peer) (received : Bytes) : Peer := { peer with received := received }

/-- `onHandshake` returned true. -/
def Peer.approve (peer : Peer) : Peer := { peer.accept with admitted := true }

/-- `conn.Close`. -/
def Peer.close (peer : Peer) : Peer := { peer with closed := true }

/-- The record of an event. -/
def Shared.log (s : Shared) (e : Event) : Shared := { s with events := s.events ++ [e] }

/-- The state with another peer `k`. -/
def Shared.setPeer (s : Shared) (k : Nat) (peer : Peer) : Shared :=
  { s with peers := s.peers.set k peer }

/-- The header of `Send` (`server.go:25-29`). -/
def pushHeader (methodID : UInt32) (payload : Bytes) : FrameHeader :=
  { type := FramePush, methodID := methodID, payloadSize := UInt32.ofNat payload.length }

/-- `respHdr` (`server.go:222-228`). -/
def responseHeader (req : FrameHeader) (code : StatusCode) (payload : Bytes) : FrameHeader :=
  { type := FrameResponse, statusCode := UInt16.ofInt code, callID := req.callID,
    methodID := req.methodID, payloadSize := UInt32.ofNat payload.length }

/-- The place after the `Write` of a header or payload. -/
def Writing.next (pc : Writing) (payload : Bytes) (err : Option String) : Writing :=
  match pc, err with
  | .header, none => if 0 < payload.length then .payload else .unlock none
  | _, err => .unlock err

/-- `WriteFrame` to a peer under its `writeMu` (`server.go:30-32`, `228-230`,
    `frame.go:47-58`) up to the unlocking. -/
def writeStep (peer : Peer) (hdr : FrameHeader) (payload : Bytes) :
    Writing → Action → Option (Peer × Writing)
  | .lock, .run => if peer.writeMu then none else some ({ peer with writeMu := true }, .header)
  | .header, .wrote n err =>
      if peer.canWrite FrameHeaderSize n err then
        some (peer.wrote (peer.out.start (hdr, payload) ((serialize hdr).toList.take n)) err,
          Writing.header.next payload err)
      else none
  | .payload, .wrote n err =>
      if peer.canWrite payload.length n err then
        some (peer.wrote (peer.out.more (payload.take n)) err, Writing.payload.next payload err)
      else none
  | _, _ => none

/-- `acceptLoop` (`server.go:102-127`). -/
def acceptLoopStep (s : Shared) : Accepting → Action → Option (Shared × Goroutine × List Goroutine)
  | .accept, .accepted =>
      if s.listenerClosed then none
      else some ({ s with peers := s.peers ++ [{ id := s.nextConnID }],
                          nextConnID := s.nextConnID + 1 },
        .acceptLoop (.insert s.peers.length), [])
  | .accept, .acceptFailed =>
      if s.done then some ({ s with wg := s.wg - 1 }, .done, [])
      else some (s, .acceptLoop .accept, [])
  | .insert k, .run =>
      match s.peers[k]? with
      | none => none
      | some peer =>
          some ({ s.setPeer k { peer with listed := true } with
                    sessions := s.sessions.insert peer.id k },
            .acceptLoop (.spawn k), [])
  | .spawn k, .run =>
      some ({ s with wg := s.wg + 1 }, .acceptLoop .accept, [.handleConn k .onConnect])
  | _, _ => none

/-- `handleConn` (`server.go:129-189`) of the peer `peer` with number `k`. -/
def handleConnStep (cfg : Config) (s : Shared) (k : Nat) (peer : Peer) :
    Handling → Action → Option (Shared × Goroutine × List Goroutine)
  | .onConnect, .run =>
      if cfg.handshakeHeader = [] then
        some ((s.log (.onConnect k)).setPeer k peer.accept, .handleConn k .read, [])
      else some (s.log (.onConnect k), .handleConn k .readHandshake, [])
  | .readHandshake, .readFull (.error _) => some (s, .handleConn k .wait, [])
  | .readHandshake, .readFull (.ok received) =>
      if peer.closed || received.length ≠ cfg.handshakeHeader.length then none
      else if received ≠ cfg.handshakeHeader then
        some (s.setPeer k (peer.receive received), .handleConn k .wait, [])
      else if cfg.onHandshake then
        some (s.setPeer k (peer.receive received), .handleConn k .onHandshake, [])
      else
        some (s.setPeer k (peer.receive received).accept, .handleConn k .writeHandshake, [])
  | .onHandshake, .answer accept =>
      if accept then some (s.setPeer k peer.approve, .handleConn k .writeHandshake, [])
      else some (s, .handleConn k .wait, [])
  | .writeHandshake, .wrote n err =>
      if peer.canWrite cfg.handshakeHeader.length n err then
        match err with
        | none =>
            some (s.setPeer k (peer.wrote (peer.out.greet (cfg.handshakeHeader.take n)).reply none),
              .handleConn k .read, [])
        | some e =>
            some (s.setPeer k (peer.wrote (peer.out.greet (cfg.handshakeHeader.take n)) (some e)),
              .handleConn k .wait, [])
      else none
  | .read, .readFrame (.error _) => some (s, .handleConn k .wait, [])
  | .read, .readFrame (.ok (hdr, payload)) =>
      if peer.closed then none
      else some (s.setPeer k { peer with reads := peer.reads ++ [(hdr, payload)] },
        .handleConn k (if hdr.type ≠ FrameRequest then .wait else .acquire hdr payload), [])
  | .acquire hdr payload, .run =>
      match cfg.sem with
      | none => some (s, .handleConn k (.spawn hdr payload), [])
      | some cap =>
          if s.sem < cap then
            some ({ s with sem := s.sem + 1 }, .handleConn k (.spawn hdr payload), [])
          else none
  | .acquire _ _, .quit =>
      if cfg.sem.isSome && s.done then some (s, .handleConn k .wait, []) else none
  | .spawn hdr payload, .run =>
      some (s.setPeer k { peer with inflight := peer.inflight + 1 }, .handleConn k .read,
        [.request k hdr payload .lookup])
  | .wait, .run => if peer.inflight = 0 then some (s, .handleConn k .onDisconnect, []) else none
  | .onDisconnect, .run => some (s.log (.onDisconnect k), .handleConn k .delete, [])
  | .delete, .run =>
      some ({ s with sessions := s.sessions.erase peer.id }, .handleConn k .close, [])
  | .close, .run => some (s.setPeer k peer.close, .handleConn k .wgDone, [])
  | .wgDone, .run => some ({ s with wg := s.wg - 1 }, .done, [])
  | _, _ => none

/-- What a handler's answer becomes (`server.go:207-216`). -/
def respond (response : Bytes) (st : Status) : StatusCode × Bytes :=
  if st.isOK then (StatusCode.OK, response) else (st.code, [])

/-- The record of what a handler returned. -/
def Shared.setResult (s : Shared) (run : Nat) (result : Bytes × Status) : Shared :=
  { s with runs := s.runs.modify run fun r => { r with result := some result } }

/-- The goroutine of a request (`server.go:180-187`) with `serveRequest`
    (`server.go:191-236`). -/
def requestStep (cfg : Config) (s : Shared) (k : Nat) (peer : Peer) (hdr : FrameHeader)
    (payload : Bytes) : Serving → Action → Option (Shared × Goroutine × List Goroutine)
  | .lookup, .run =>
      match s.handlers.lookup hdr.methodID with
      | some handler => some (s, .request k hdr payload (.call handler), [])
      | none =>
          some ({ s with misses := s.misses ++ [⟨k, hdr.callID, hdr.methodID⟩] },
            .request k hdr payload
              (.write (responseHeader hdr StatusCode.Unimplemented []) [] .lock), [])
  | .call handler, .run =>
      some ({ s.log (.started k) with
                runs := s.runs ++ [⟨k, hdr.callID, hdr.methodID, handler, payload, none⟩] },
        .request k hdr payload (.running s.runs.length), [])
  | .running run, .returned response st =>
      some ((s.log (.finished k)).setResult run (response, st),
        .request k hdr payload
          (.write (responseHeader hdr (respond response st).1 (respond response st).2)
            (respond response st).2 .lock), [])
  | .write _ _ (.unlock err), .run =>
      some ((s.log (.attempted k)).setPeer k { peer with writeMu := false },
        .request k hdr payload (if err.isSome then .close else .release), [])
  | .write rhdr rpayload pc, a =>
      match writeStep peer rhdr rpayload pc a with
      | none => none
      | some (peer, pc) =>
          some (s.setPeer k peer, .request k hdr payload (.write rhdr rpayload pc), [])
  | .close, .run =>
      some (s.setPeer k peer.close, .request k hdr payload .release, [])
  | .release, .run =>
      some ({ s with sem := if cfg.sem.isSome then s.sem - 1 else s.sem },
        .request k hdr payload .inflightDone, [])
  | .inflightDone, .run =>
      some (s.setPeer k { peer with inflight := peer.inflight - 1 }, .done, [])
  | _, _ => none

/-- `Send` (`server.go:24-33`) to the peers of a list, one after the other, as
    `Broadcast` does (`server.go:78-82`). -/
def pushStep (s : Shared) (hdr : FrameHeader) (payload : Bytes) (todo : List Nat) :
    Option (Nat × Writing) → Action → Option (Shared × Goroutine × List Goroutine)
  | none, .run => if todo = [] then some (s, .done, []) else none
  | none, .pick i =>
      match todo[i]? with
      | none => none
      | some k => some (s, .push hdr payload (todo.eraseIdx i) (some (k, .lock)), [])
  | some (k, pc), a =>
      match s.peers[k]? with
      | none => none
      | some peer =>
          match pc, a with
          | .unlock _, .run =>
              some (s.setPeer k { peer with writeMu := false }, .push hdr payload todo none, [])
          | pc, a =>
              match writeStep peer hdr payload pc a with
              | none => none
              | some (peer, pc) =>
                  some (s.setPeer k peer, .push hdr payload todo (some (k, pc)), [])
  | _, _ => none

/-- The connections of `s.sessions` are closed (`server.go:94-98`). -/
def Shared.sweep (s : Shared) : Shared :=
  { s with swept := true,
           peers := (mapValues s.sessions).foldl
             (fun peers k => peers.modify k Peer.close) s.peers }

/-- `Shutdown` (`server.go:86-100`), called by one goroutine at a time. -/
def shutdownStep (s : Shared) : Stopping → Action → Option (Shared × Goroutine × List Goroutine)
  | .check, .run =>
      if s.done then some (s, .done, [])
      else some ({ s with done := true }, .shutdown .closeListener, [])
  | .closeListener, .run => some ({ s with listenerClosed := true }, .shutdown .sweep, [])
  | .sweep, .run => some (s.sweep, .shutdown .wait, [])
  | .wait, .run => if s.wg = 0 then some (s, .done, []) else none
  | _, _ => none

/-- The application calls a method. It gets a `Peer` from `GetConnections` or a
    callback, so only once the peer was in `sessions`. -/
def appStep (s : Shared) : Action → Option (Shared × Goroutine × List Goroutine)
  | .send k methodID payload =>
      match s.peers[k]? with
      | none => none
      | some peer =>
          if peer.listed then
            some (s, .app, [.push (pushHeader methodID payload) payload [] (some (k, .lock))])
          else none
  | .broadcast methodID payload =>
      some (s, .app, [.push (pushHeader methodID payload) payload (mapValues s.sessions) none])
  | .closePeer k =>
      match s.peers[k]? with
      | none => none
      | some peer =>
          if peer.listed then some (s.setPeer k peer.close, .app, []) else none
  | .registerMethod methodID =>
      some ({ s with handlers := s.handlers.insert methodID s.registrations.length,
                     registrations := s.registrations ++ [methodID] }, .app, [])
  | .shutdown => some (s, .app, [.shutdown .check])
  | _ => none

/-- One step of a goroutine. -/
def step (cfg : Config) (s : Shared) (g : Goroutine) (a : Action) :
    Option (Shared × Goroutine × List Goroutine) :=
  match g with
  | .app => appStep s a
  | .acceptLoop pc => acceptLoopStep s pc a
  | .handleConn k pc =>
      match s.peers[k]? with
      | none => none
      | some peer => handleConnStep cfg s k peer pc a
  | .request k hdr payload pc =>
      match s.peers[k]? with
      | none => none
      | some peer => requestStep cfg s k peer hdr payload pc a
  | .push hdr payload todo now => pushStep s hdr payload todo now a
  | .shutdown pc => shutdownStep s pc a
  | .done => none

/-- The goroutines of a server as a program. -/
def program (cfg : Config) : Program Shared Goroutine Action := ⟨step cfg⟩

/-- A started server and the application that uses it. -/
def initial : Pool Shared Goroutine := ⟨{}, [.app, .acceptLoop .accept]⟩

/-- The interleavings of the goroutines of one server. -/
def machine (cfg : Config) : Machine (Pool Shared Goroutine) (Nat × Action) :=
  (program cfg).machine

end Protocomm.Go.Server
