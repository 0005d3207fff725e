import Protocomm.Frame
import Protocomm.Misc.MapValues
import Protocomm.Misc.Pool

/-!
# The Go channel

`go/channel.go`: any number of goroutines run `AsyncUnaryCall`, `Connect`,
`Close` and `readLoop` over one `Channel`. A step of a goroutine is a critical
section under `c.mu`, a lock or unlock of `connectMu` or `writeMu`, one
operation on a connection, or the call of one callback. What the network
answers is part of the action, so every failure and every peer is covered. A
callback that calls the channel again is a further goroutine of the
application.
-/

namespace Protocomm.Go.Channel

open Misc

/-- `ChannelConfig` (`channel.go:10-13`); of `OnPush` only its presence matters. -/
structure Config where
  handshakeHeader : Bytes := []
  onPush : Bool := false
  deriving DecidableEq, Repr

/-- The configuration a channel works with (`CreateChannel`, `channel.go:47-52`):
    the header defaults to `pc1`. -/
def createConfig (config : Config) : Config :=
  if config.handshakeHeader = [] then { config with handshakeHeader := [112, 99, 49] } else config

/-- The callback of the call with the given number, counted from 0 in the order
    of the calls of `AsyncUnaryCall`. -/
structure Callback where
  call : Nat
  isNil : Bool
  deriving DecidableEq, Repr

/-- The arguments of one `AsyncUnaryCall`. -/
structure Call where
  methodID : UInt32
  request : Bytes
  isNil : Bool
  deriving DecidableEq, Repr

/-- One execution of `channel.go:179-183`. -/
structure Registration where
  call : Nat
  callID : UInt32
  gen : UInt64
  conn : Nat
  deriving DecidableEq, Repr

/-- Who calls a callback. -/
inductive Cause where
  | caller
  | response (conn : Nat) (gen : UInt64) (hdr : FrameHeader) (payload : Bytes)
  | teardown (gen : UInt64)
  | close
  deriving DecidableEq, Repr

/-- One run of a callback, with what it was given and why. -/
structure Invocation where
  call : Nat
  status : Status
  payload : Bytes
  cause : Cause
  deriving DecidableEq, Repr

/-- The map `pending`. -/
abbrev Pending := AList fun _ : UInt32 => Callback

/-- The fields of `Channel` (`channel.go:28-37`), where a connection is the
    number of its dial, followed by the history of the run. A nil callback that
    is called panics and ends the process. -/
structure Shared where
  connectMu : Bool := false
  writeMu : Bool := false
  conn : Option Nat := none
  connected : Bool := false
  closed : Bool := false
  gen : UInt64 := 0
  nextCallID : UInt32 := 1
  pending : Pending := ∅
  panicked : Bool := false
  calls : List Call := []
  registered : List Registration := []
  dialled : Nat := 0
  published : List (Nat × UInt64) := []
  closedConns : List Nat := []
  invoked : List Invocation := []
  pushes : List (Nat × UInt32 × Bytes) := []

/-- Who runs `ensureConnected` and goes on when it returns. -/
inductive Caller where
  | connect
  | call (methodID : UInt32) (request : Bytes) (cb : Callback)
  deriving DecidableEq, Repr

/-- The places inside `ensureConnected`; `unlock` runs the deferred
    `connectMu.Unlock` and returns. -/
inductive Connecting where
  | check
  | lock
  | recheck
  | dial
  | writeHeader (conn : Nat)
  | readHeader (conn : Nat)
  | publish (conn : Nat)
  | spawn (conn : Nat) (gen : UInt64)
  | close (conn : Nat) (st : Status)
  | unlock (st : Status)
  deriving DecidableEq, Repr

/-- The places inside `AsyncUnaryCall` after `ensureConnected`. -/
inductive Calling where
  | register (methodID : UInt32) (request : Bytes) (cb : Callback)
  | callBack (st : Status) (cb : Callback)
  | lockWrite (conn : Nat) (gen : UInt64) (hdr : FrameHeader) (request : Bytes)
  | writeHeader (conn : Nat) (gen : UInt64) (hdr : FrameHeader) (request : Bytes)
  | writePayload (conn : Nat) (gen : UInt64) (hdr : FrameHeader) (request : Bytes)
  | unlockWrite (conn : Nat) (gen : UInt64) (err : Option String)
  deriving DecidableEq, Repr

/-- The places inside `readLoop`: `ReadFrame`, the section that takes the callback out of
    `pending`, and its call. -/
inductive Reading where
  | read
  | dispatch (hdr : FrameHeader) (payload : Bytes)
  | complete (cb : Callback) (hdr : FrameHeader) (payload : Bytes)
  deriving DecidableEq, Repr

/-- The places inside `teardown` and `Close`: the critical section, closing the
    connection it took, and calling the callbacks of the snapshot. -/
inductive Draining where
  | swap
  | closeConn (conn : Option Nat) (snapshot : List Callback)
  | drain (snapshot : List Callback)
  deriving DecidableEq, Repr

/-- Whose failure `teardown` reports, with the connection that failed. -/
inductive Origin where
  | reader (conn : Nat)
  | writer (conn : Nat)
  deriving DecidableEq, Repr

/-- The goroutines, each at its place. -/
inductive Goroutine where
  | app
  | ensureConnected (k : Caller) (pc : Connecting)
  | asyncUnaryCall (pc : Calling)
  | readLoop (conn : Nat) (gen : UInt64) (pc : Reading)
  | teardown (origin : Origin) (gen : UInt64) (st : Status) (pc : Draining)
  | close (pc : Draining)
  | done
  deriving DecidableEq, Repr

/-- What drives a step. `call`, `connect` and `close` start a method of the
    channel, `run` needs nothing from outside, the next four are answers of the
    network, and `pick` is the order in which `range` visits a snapshot. -/
inductive Action where
  | call (methodID : UInt32) (request : Bytes) (isNil : Bool)
  | connect
  | close
  | run
  | dial (err : Option String)
  | wrote (n : Nat) (err : Option String)
  | readFull (r : Except String Bytes)
  | readFrame (r : Except String (FrameHeader × Bytes))
  | pick (i : Nat)

/-- `Write` of `len` bytes accepted `n` of them: it fails if it accepts fewer. -/
def writeOk (len n : Nat) (err : Option String) : Bool :=
  decide (n ≤ len) && (err.isSome || n == len)

/-- The call of a callback. -/
def Callback.invoke (cb : Callback) (st : Status) (payload : Bytes) (cause : Cause) (s : Shared) :
    Shared :=
  { s with invoked := s.invoked ++ [⟨cb.call, st, payload, cause⟩] }

/-- A call of a nil callback. -/
def Shared.panic (s : Shared) : Shared := { s with panicked := true }

/-- The assignments of `teardown` and `Close` under `c.mu` (`channel.go:235-240`,
    `258-263`). -/
def Shared.detach (s : Shared) : Shared :=
  { s with gen := s.gen + 1, conn := none, connected := false, pending := ∅ }

/-- `for _, cb := range snapshot`. -/
def Shared.snapshot (s : Shared) : List Callback := mapValues s.pending

/-- The end of `ensureConnected`: `Connect` returns the status, `AsyncUnaryCall`
    registers the call or reports the failure (`channel.go:163-166`). -/
def Caller.resume : Caller → Status → Goroutine
  | .connect, _ => .done
  | .call methodID request cb, st =>
      if st.isOK then .asyncUnaryCall (.register methodID request cb)
      else .asyncUnaryCall (.callBack st cb)

/-- The status of `ensureConnected` on a closed channel. -/
def statusClosed : Status := ⟨StatusCode.Unavailable, "channel closed"⟩

/-- `ensureConnected` (`channel.go:56-121`). -/
def ensureConnectedStep (cfg : Config) (s : Shared) (k : Caller) :
    Connecting → Action → Option (Shared × Goroutine × List Goroutine)
  | .check, .run =>
      if s.closed then some (s, k.resume statusClosed, [])
      else if s.connected && s.conn.isSome then some (s, k.resume statusOK, [])
      else some (s, .ensureConnected k .lock, [])
  | .lock, .run =>
      if s.connectMu then none
      else some ({ s with connectMu := true }, .ensureConnected k .recheck, [])
  | .recheck, .run =>
      if s.closed then some (s, .ensureConnected k (.unlock statusClosed), [])
      else if s.connected && s.conn.isSome then some (s, .ensureConnected k (.unlock statusOK), [])
      else some (s, .ensureConnected k .dial, [])
  | .dial, .dial (some e) =>
      some (s, .ensureConnected k (.unlock ⟨StatusCode.Unavailable, "connect: " ++ e⟩), [])
  | .dial, .dial none =>
      some ({ s with dialled := s.dialled + 1 },
        .ensureConnected k
          (if cfg.handshakeHeader = [] then .publish s.dialled else .writeHeader s.dialled), [])
  | .writeHeader conn, .wrote n err =>
      if writeOk cfg.handshakeHeader.length n err then
        match err with
        | some e =>
            some (s, .ensureConnected k
              (.close conn ⟨StatusCode.Unavailable, "handshake write: " ++ e⟩), [])
        | none => some (s, .ensureConnected k (.readHeader conn), [])
      else none
  | .readHeader conn, .readFull (.error e) =>
      some (s, .ensureConnected k
        (.close conn ⟨StatusCode.Unavailable, "handshake read: " ++ e⟩), [])
  | .readHeader conn, .readFull (.ok received) =>
      if received.length ≠ cfg.handshakeHeader.length then none
      else if received ≠ cfg.handshakeHeader then
        some (s, .ensureConnected k
          (.close conn ⟨StatusCode.FailedPrecondition, "handshake mismatch"⟩), [])
      else some (s, .ensureConnected k (.publish conn), [])
  | .publish conn, .run =>
      if s.closed then some (s, .ensureConnected k (.close conn statusClosed), [])
      else
        some ({ s with gen := s.gen + 1, conn := some conn, connected := true,
                       published := s.published ++ [(conn, s.gen + 1)] },
          .ensureConnected k (.spawn conn (s.gen + 1)), [])
  | .spawn conn gen, .run =>
      some (s, .ensureConnected k (.unlock statusOK), [.readLoop conn gen .read])
  | .close conn st, .run =>
      some ({ s with closedConns := s.closedConns ++ [conn] }, .ensureConnected k (.unlock st), [])
  | .unlock st, .run => some ({ s with connectMu := false }, k.resume st, [])
  | _, _ => none

/-- `reqHdr` (`channel.go:186-191`). -/
def requestHeader (callID methodID : UInt32) (request : Bytes) : FrameHeader :=
  { type := FrameRequest, callID := callID, methodID := methodID,
    payloadSize := UInt32.ofNat request.length }

/-- The error of `WriteFrame`, or the next place if there is none. -/
def afterWrite (conn : Nat) (gen : UInt64) (err : Option String) (next : Calling) : Calling :=
  match err with
  | none => next
  | some e => .unlockWrite conn gen (some e)

/-- `AsyncUnaryCall` after `ensureConnected` (`channel.go:164-200`). -/
def asyncUnaryCallStep (s : Shared) :
    Calling → Action → Option (Shared × Goroutine × List Goroutine)
  | .register methodID request cb, .run =>
      if s.closed then
        some (s, .asyncUnaryCall (.callBack ⟨StatusCode.Cancelled, "channel closed"⟩ cb), [])
      else
        match s.connected, s.conn with
        | true, some conn =>
            some ({ s with nextCallID := s.nextCallID + 1,
                           pending := s.pending.insert s.nextCallID cb,
                           registered := s.registered ++ [⟨cb.call, s.nextCallID, s.gen, conn⟩] },
              .asyncUnaryCall (.lockWrite conn s.gen
                (requestHeader s.nextCallID methodID request) request), [])
        | _, _ =>
            some (s, .asyncUnaryCall (.callBack ⟨StatusCode.Unavailable, "not connected"⟩ cb), [])
  | .callBack st cb, .run =>
      if cb.isNil then some (s.panic, .asyncUnaryCall (.callBack st cb), [])
      else some (cb.invoke st [] .caller s, .done, [])
  | .lockWrite conn gen hdr request, .run =>
      if s.writeMu then none
      else some ({ s with writeMu := true },
        .asyncUnaryCall (.writeHeader conn gen hdr request), [])
  | .writeHeader conn gen hdr request, .wrote n err =>
      if writeOk FrameHeaderSize n err then
        some (s, .asyncUnaryCall (afterWrite conn gen err
          (if 0 < request.length then .writePayload conn gen hdr request
            else .unlockWrite conn gen none)), [])
      else none
  | .writePayload conn gen _ request, .wrote n err =>
      if writeOk request.length n err then
        some (s, .asyncUnaryCall (afterWrite conn gen err (.unlockWrite conn gen none)), [])
      else none
  | .unlockWrite _ _ none, .run => some ({ s with writeMu := false }, .done, [])
  | .unlockWrite conn gen (some e), .run =>
      some ({ s with writeMu := false },
        .teardown (.writer conn) gen ⟨StatusCode.Unavailable, "write: " ++ e⟩ .swap, [])
  | _, _ => none

/-- The status and payload a response hands to the callback (`channel.go:148-153`). -/
def responseStatus (hdr : FrameHeader) : Status := Status.ofWire hdr.statusCode

/-- The payload a response hands to the callback. -/
def responsePayload (hdr : FrameHeader) (payload : Bytes) : Bytes :=
  if (hdr.statusCode.toNat : StatusCode) = StatusCode.OK then payload else []

/-- `readLoop` (`channel.go:123-160`). -/
def readLoopStep (cfg : Config) (s : Shared) (conn : Nat) (gen : UInt64) :
    Reading → Action → Option (Shared × Goroutine × List Goroutine)
  | .read, .readFrame (.error e) =>
      some (s, .teardown (.reader conn) gen ⟨StatusCode.Unavailable, "read: " ++ e⟩ .swap, [])
  | .read, .readFrame (.ok (hdr, payload)) =>
      some (s, .readLoop conn gen (.dispatch hdr payload), [])
  | .dispatch hdr payload, .run =>
      if hdr.type = FramePush then
        if cfg.onPush then
          some ({ s with pushes := s.pushes ++ [(conn, hdr.methodID, payload)] },
            .readLoop conn gen .read, [])
        else some (s, .readLoop conn gen .read, [])
      else if hdr.type = FrameResponse then
        match s.pending.lookup hdr.callID with
        | none => some (s, .readLoop conn gen .read, [])
        | some cb =>
            if cb.isNil then some (s, .readLoop conn gen .read, [])
            else some ({ s with pending := s.pending.erase hdr.callID },
              .readLoop conn gen (.complete cb hdr payload), [])
      else
        some (s, .teardown (.reader conn) gen ⟨StatusCode.Internal, "unexpected frame type"⟩ .swap,
          [])
  | .complete cb hdr payload, .run =>
      some (cb.invoke (responseStatus hdr) (responsePayload hdr payload)
          (.response conn gen hdr payload) s,
        .readLoop conn gen .read, [])
  | _, _ => none

/-- The end of `teardown` and `Close`, outside `c.mu` (`channel.go:243-248`,
    `266-273`); `back` puts the place into the goroutine that runs it. -/
def drainStep (s : Shared) (st : Status) (cause : Cause) (back : Draining → Goroutine) :
    Draining → Action → Option (Shared × Goroutine × List Goroutine)
  | .closeConn conn snapshot, .run =>
      some ({ s with closedConns := s.closedConns ++ conn.toList }, back (.drain snapshot), [])
  | .drain snapshot, .pick i =>
      match snapshot[i]? with
      | none => none
      | some cb =>
          if cb.isNil then some (s.panic, back (.drain snapshot), [])
          else some (cb.invoke st [] cause s, back (.drain (snapshot.eraseIdx i)), [])
  | .drain snapshot, .run => if snapshot.isEmpty then some (s, .done, []) else none
  | _, _ => none

/-- `teardown` (`channel.go:229-249`). -/
def teardownStep (s : Shared) (origin : Origin) (gen : UInt64) (st : Status) :
    Draining → Action → Option (Shared × Goroutine × List Goroutine)
  | .swap, .run =>
      if gen ≠ s.gen then some (s, .done, [])
      else some (s.detach, .teardown origin gen st (.closeConn s.conn s.snapshot), [])
  | pc, a => drainStep s st (.teardown gen) (.teardown origin gen st) pc a

/-- `Close` (`channel.go:251-274`). -/
def closeStep (s : Shared) : Draining → Action → Option (Shared × Goroutine × List Goroutine)
  | .swap, .run =>
      if s.closed then some (s, .done, [])
      else some ({ s.detach with closed := true }, .close (.closeConn s.conn s.snapshot), [])
  | pc, a => drainStep s ⟨StatusCode.Cancelled, "channel closed"⟩ .close .close pc a

/-- The application starts a method of the channel. -/
def appStep (s : Shared) : Action → Option (Shared × Goroutine × List Goroutine)
  | .call methodID request isNil =>
      some ({ s with calls := s.calls ++ [⟨methodID, request, isNil⟩] }, .app,
        [.ensureConnected (.call methodID request ⟨s.calls.length, isNil⟩) .check])
  | .connect => some (s, .app, [.ensureConnected .connect .check])
  | .close => some (s, .app, [.close .swap])
  | _ => none

/-- One step of a goroutine; a panic has ended all of them. -/
def step (cfg : Config) (s : Shared) (g : Goroutine) (a : Action) :
    Option (Shared × Goroutine × List Goroutine) :=
  if s.panicked then none
  else
    match g with
    | .app => appStep s a
    | .ensureConnected k pc => ensureConnectedStep cfg s k pc a
    | .asyncUnaryCall pc => asyncUnaryCallStep s pc a
    | .readLoop conn gen pc => readLoopStep cfg s conn gen pc a
    | .teardown origin gen st pc => teardownStep s origin gen st pc a
    | .close pc => closeStep s pc a
    | .done => none

/-- The goroutines of a channel as a program. -/
def program (cfg : Config) : Program Shared Goroutine Action := ⟨step cfg⟩

/-- A new channel and the application that uses it. -/
def initial : Pool Shared Goroutine := ⟨{}, [.app]⟩

/-- The interleavings of the goroutines of one channel. -/
def machine (cfg : Config) : Machine (Pool Shared Goroutine) (Nat × Action) :=
  (program cfg).machine

end Protocomm.Go.Channel
