import Protocomm.Frame
import Protocomm.Misc.MapValues
import Protocomm.Misc.Pool

/-!
# The C++ channel

`c++/src/channel.cc`: user threads call the channel, and one io thread runs the
handlers posted to the strand, in the order of the posts, and the segments of
the coroutines `ConnectCoro`, `ReadLoop` and `WritePump` between their
suspensions. A handler or segment is one step; so is each access of a user
thread to an atomic, each section under `connect_mu` and each post. What the
socket answers is part of the action. `co_spawn` and a finished operation let
their segment run at any later step, and `run` returns once the work guard is
reset, the strand is empty and no coroutine is left. The completion queue is the
FIFO queue that `MpscQueue` implements. User callbacks do not throw, and no
method is called once the destructor has started.
-/

namespace Protocomm.Cpp.Channel

open Misc

/-- `Dispatch` (`channel.h:21`): who runs the callbacks, the io thread or `RunCallbacks`. -/
inductive Dispatch where
  | inline
  | manual
  deriving DecidableEq, Repr

/-- `ChannelConfig` (`channel.h:23-29`); of `on_push` only its presence matters. -/
structure Config where
  handshakeHeader : Bytes := [112, 99, 49]
  dispatch : Dispatch := .inline
  onPush : Bool := false
  deriving DecidableEq, Repr

/-- The `ResponseCallback` of the call with the given number. -/
structure Callback where
  call : Nat
  isEmpty : Bool
  deriving DecidableEq, Repr

/-- A `ConnectCallback`: it sets the promise of a waiting `EnsureConnected`, or
    is the one given to a `ConnectAsync`, or empty. -/
inductive ConnectCallback where
  | promise (f : Nat)
  | user (n : Nat)
  | empty
  deriving DecidableEq, Repr

/-- The arguments of one `AsyncUnaryCall`. -/
structure Call where
  methodId : UInt32
  request : Bytes
  isEmpty : Bool
  deriving DecidableEq, Repr

/-- One execution of `channel.cc:393-394`. -/
structure Registration where
  call : Nat
  callId : UInt32
  deriving DecidableEq, Repr

/-- The thread a callback runs on: the caller of a method, the io thread, or the
    caller of `RunCallbacks` inside it. -/
inductive Site where
  | api
  | io
  | runCallbacks
  deriving DecidableEq, Repr

/-- One run of a `ResponseCallback`, with what it was given. -/
structure Invocation where
  call : Nat
  status : Status
  payload : Bytes
  site : Site
  deriving DecidableEq, Repr

/-- One run of the callback of the `n`-th `ConnectAsync`. -/
structure ConnectInvocation where
  n : Nat
  status : Status
  site : Site
  deriving DecidableEq, Repr

/-- `Completion` (`channel.cc:27-34`), with the two thunks that are deferred. -/
inductive Completion where
  | response (cb : Callback) (st : Status) (payload : Bytes)
  | connect (cb : ConnectCallback) (st : Status)
  | push (methodId : UInt32) (payload : Bytes)
  deriving DecidableEq, Repr

/-- `ConnState` (`channel.cc:58`). -/
inductive ConnState where
  | idle
  | connecting
  | connected
  | closed
  deriving DecidableEq, Repr

/-- The handlers posted to the strand. -/
inductive Handler where
  | requestConnect (cb : ConnectCallback)
  | submit (methodId : UInt32) (request : Bytes) (cb : Callback)
  | shutdown
  deriving DecidableEq, Repr

/-- `pending` (`channel.cc:53`). -/
abbrev Pending := AList fun _ : UInt32 => Callback

/-- What reaches callbacks: the completions waiting in `cb_queue`, the statuses set in the
    promises of the waiting `EnsureConnected`s, and the callbacks called so far. -/
structure Deliveries where
  cbQueue : List Completion := []
  promises : List (List Status) := []
  invoked : List Invocation := []
  connects : List ConnectInvocation := []
  pushes : List (UInt32 × Bytes) := []

/-- `Channel::Impl` (`channel.cc:42-62`), the state of its `io_context`, and the
    history of the run. `outstandingWork` counts the coroutines that have not
    ended, `readLoopsEnded` the `ReadLoop`s that have, `inCall` the calls whose
    `AsyncUnaryCall` runs on a user thread, and `atStop` what `inCall` was when
    `Shutdown` began. -/
structure Shared where
  ioThreadStarted : Bool := false
  ioThreadDone : Bool := false
  workGuard : Bool := true
  outstandingWork : Nat := 0
  strand : List Handler := []
  connected : Bool := false
  stopped : Bool := false
  nextCallId : UInt32 := 1
  pending : Pending := ∅
  writeQueue : List (FrameHeader × Bytes) := []
  writePumpActive : Bool := false
  connState : ConnState := .idle
  connectWaiters : List ConnectCallback := []
  out : Deliveries := {}
  destroying : Bool := false
  calls : List Call := []
  inCall : List Nat := []
  atStop : List Nat := []
  registered : List Registration := []
  connectsAsked : Nat := 0
  readLoopsEnded : Nat := 0

/-- Who runs `EnsureConnected` and goes on when it returns. -/
inductive Caller where
  | connect
  | call (methodId : UInt32) (request : Bytes) (cb : Callback)
  deriving DecidableEq, Repr

/-- Who runs `RequestConnect`: the `EnsureConnected` of `k`, which waits for its
    promise, or a `ConnectAsync`. -/
inductive Requester where
  | ensureConnected (k : Caller) (f : Nat)
  | connectAsync (cb : ConnectCallback)
  deriving DecidableEq, Repr

/-- The callback given to `RequestConnect`. -/
def Requester.callback : Requester → ConnectCallback
  | .ensureConnected _ f => .promise f
  | .connectAsync cb => cb

/-- Where `EnsureConnected` (`channel.cc:108-129`) is: at its load of `connected`, at its load
    of `stopped`, or in `f.get()`. -/
inductive Ensuring where
  | check
  | checkStopped
  | wait (f : Nat)
  deriving DecidableEq, Repr

/-- Where `RequestConnect` (`channel.cc:144-176`) is: at its load of `stopped`, in
    `EnsureIoThread`, at the section that reads `io_thread_started`, or at the post. -/
inductive Requesting where
  | checkStopped
  | ensureIoThread
  | checkStarted
  | post
  deriving DecidableEq, Repr

/-- Where `AsyncUnaryCall` (`channel.cc:376-409`) is once `EnsureConnected` has returned: at the
    report of its failure, or at the post of the call. -/
inductive Calling where
  | fail (st : Status) (cb : Callback)
  | post (methodId : UInt32) (request : Bytes) (cb : Callback)
  deriving DecidableEq, Repr

/-- Where `Shutdown` (`channel.cc:306-340`) is: one constructor for each of its accesses, from
    the exchange of `stopped` to the queue it empties. `closeIdle` is the branch without an io
    thread. -/
inductive Closing where
  | exchange
  | readStarted
  | post
  | resetGuard
  | join
  | closeIdle
  | drain
  | returned
  deriving DecidableEq, Repr

/-- Where `ConnectCoro` (`channel.cc:178-218`) is suspended. -/
inductive Connecting where
  | spawned
  | resolve
  | connect
  | writeHandshake
  | readHandshake
  deriving DecidableEq, Repr

/-- Where `ReadLoop` (`channel.cc:235-276`) is suspended. -/
inductive Reading where
  | spawned
  | reading
  deriving DecidableEq, Repr

/-- Where `WritePump` (`channel.cc:278-291`) is suspended: before its first segment, or in the
    `WriteFrame` of the given frame. -/
inductive Pumping where
  | spawned
  | writing (hdr : FrameHeader) (payload : Bytes)
  deriving DecidableEq, Repr

/-- A user thread in a method, the io thread, or a coroutine. -/
inductive Thread where
  | app
  | ensureConnected (k : Caller) (pc : Ensuring)
  | requestConnect (r : Requester) (pc : Requesting)
  | asyncUnaryCall (pc : Calling)
  | runCallbacks (left : Nat)
  | shutdown (pc : Closing)
  | io
  | connectCoro (pc : Connecting)
  | readLoop (pc : Reading)
  | writePump (pc : Pumping)
  | done
  deriving DecidableEq, Repr

/-- What `ReadFrame` ends with: a frame, a failed status, or an exception that
    is no `system_error`. -/
inductive ReadOutcome where
  | frame (hdr : FrameHeader) (payload : Bytes)
  | error (what : String)
  | throw
  deriving DecidableEq, Repr

/-- What drives a step. The first five start a method; `nestedCall` and
    `nestedConnect` are methods called by a callback on the io thread; `op`,
    `readHandshake` and `readFrame` are the results of socket operations, and
    `exit` is the return of `io_context::run`. -/
inductive Action where
  | call (methodId : UInt32) (request : Bytes) (isEmpty : Bool)
  | connect
  | connectAsync (isEmpty : Bool)
  | runCallbacks (max : Nat)
  | shutdown
  | nestedCall (methodId : UInt32) (request : Bytes) (isEmpty : Bool)
  | nestedConnect (isEmpty : Bool)
  | run
  | brokenPromise
  | op (err : Option String)
  | readHandshake (r : Except String Bytes)
  | readFrame (r : ReadOutcome)
  | popNull
  | exit
  deriving DecidableEq

/-- The call of a `ResponseCallback`. -/
def Deliveries.invoke (d : Deliveries) (cb : Callback) (st : Status) (payload : Bytes)
    (site : Site) : Deliveries :=
  { d with invoked := d.invoked ++ [⟨cb.call, st, payload, site⟩] }

/-- `cb_queue.push(c)`. -/
def Deliveries.queue (d : Deliveries) (c : Completion) : Deliveries :=
  { d with cbQueue := d.cbQueue ++ [c] }

/-- `post_response` (`channel.cc:83-95`). -/
def postResponse (cfg : Config) (d : Deliveries) (cb : Callback) (st : Status) (payload : Bytes)
    (site : Site) : Deliveries :=
  if cb.isEmpty then d
  else
    match cfg.dispatch with
    | .inline => d.invoke cb st payload site
    | .manual => d.queue (.response cb st payload)

/-- The call of a `ConnectCallback`. -/
def ConnectCallback.run (cb : ConnectCallback) (d : Deliveries) (st : Status) (site : Site) :
    Deliveries :=
  match cb with
  | .promise f => { d with promises := d.promises.modify f (· ++ [st]) }
  | .user n => { d with connects := d.connects ++ [⟨n, st, site⟩] }
  | .empty => d

/-- `post_deferred` (`channel.cc:97-106`) of the thunk in `finish`. -/
def postConnect (cfg : Config) (st : Status) (d : Deliveries) (cb : ConnectCallback) :
    Deliveries :=
  match cfg.dispatch with
  | .inline => cb.run d st .io
  | .manual => d.queue (.connect cb st)

/-- `post_deferred` of the thunk that calls `on_push`. -/
def postPush (cfg : Config) (d : Deliveries) (methodId : UInt32) (payload : Bytes) : Deliveries :=
  match cfg.dispatch with
  | .inline => { d with pushes := d.pushes ++ [(methodId, payload)] }
  | .manual => d.queue (.push methodId payload)

/-- The callbacks of a failed connection (`channel.cc:296-303`). -/
def failAll (cfg : Config) (d : Deliveries) (snapshot : List Callback) (st : Status)
    (defer : Bool) (site : Site) : Deliveries :=
  snapshot.foldl (fun d cb =>
    if cb.isEmpty then d
    else if defer then postResponse cfg d cb st [] site
    else d.invoke cb st [] site) d

/-- `FailAllPending` (`channel.cc:293-304`). -/
def failAllPending (cfg : Config) (s : Shared) (st : Status) (defer : Bool) (site : Site) :
    Shared :=
  { s with pending := ∅, out := failAll cfg s.out (mapValues s.pending) st defer site }

/-- `finish` (`channel.cc:220-229`). -/
def finish (cfg : Config) (s : Shared) (st : Status) : Shared :=
  { s with connState := if !st.isOK && s.connState ≠ .closed then .idle else s.connState,
           connectWaiters := [],
           out := s.connectWaiters.foldl (postConnect cfg st) s.out }

/-- `boost::asio::post(strand, h)`. -/
def Shared.post (s : Shared) (h : Handler) : Shared := { s with strand := s.strand ++ [h] }

/-- `co_spawn`. -/
def Shared.coSpawn (s : Shared) : Shared := { s with outstandingWork := s.outstandingWork + 1 }

/-- The end of a coroutine. -/
def Shared.coReturn (s : Shared) : Shared := { s with outstandingWork := s.outstandingWork - 1 }

/-- The status of a request to a stopped channel (`channel.cc:118`, `127`, `146`, `155`, `163`). -/
def statusStopped : Status := ⟨StatusCode.Unavailable, "channel stopped"⟩

/-- The status of what `Shutdown` ends (`channel.cc:210`, `320`, `324`, `331`, `389`). -/
def statusShutdown : Status := ⟨StatusCode.Cancelled, "channel shutdown"⟩

/-- The end of `EnsureConnected`: `Connect` returns the status, `AsyncUnaryCall`
    posts the call or reports the failure (`channel.cc:378-384`). -/
def Caller.resume : Caller → Status → Thread
  | .connect, _ => .done
  | .call methodId request cb, st =>
      if st.isOK then .asyncUnaryCall (.post methodId request cb)
      else .asyncUnaryCall (.fail st cb)

/-- `EnsureConnected` (`channel.cc:108-129`) on a user thread. -/
def ensureConnectedStep (s : Shared) (k : Caller) :
    Ensuring → Action → Option (Shared × Thread × List Thread)
  | .check, .run =>
      if s.connected then some (s, k.resume statusOK, [])
      else some (s, .ensureConnected k .checkStopped, [])
  | .checkStopped, .run =>
      if s.stopped then some (s, k.resume statusStopped, [])
      else some ({ s with out := { s.out with promises := s.out.promises ++ [[]] } },
        .requestConnect (.ensureConnected k s.out.promises.length) .checkStopped, [])
  | .wait f, .run =>
      match s.out.promises[f]? with
      | some (st :: _) => some (s, k.resume st, [])
      | _ => none
  | .wait _, .brokenPromise => if s.ioThreadDone then some (s, k.resume statusStopped, []) else none
  | _, _ => none

/-- The return of `RequestConnect`. -/
def Requester.resume : Requester → Thread
  | .ensureConnected k f => .ensureConnected k (.wait f)
  | .connectAsync _ => .done

/-- `RequestConnect` (`channel.cc:144-176`) with `EnsureIoThread`
    (`channel.cc:131-142`) on a user thread. -/
def requestConnectStep (s : Shared) (r : Requester) :
    Requesting → Action → Option (Shared × Thread × List Thread)
  | .checkStopped, .run =>
      if s.stopped then
        some ({ s with out := r.callback.run s.out statusStopped .api }, r.resume, [])
      else some (s, .requestConnect r .ensureIoThread, [])
  | .ensureIoThread, .run =>
      if s.ioThreadStarted || s.stopped then some (s, .requestConnect r .checkStarted, [])
      else some ({ s with ioThreadStarted := true }, .requestConnect r .checkStarted, [.io])
  | .checkStarted, .run =>
      if s.ioThreadStarted then some (s, .requestConnect r .post, [])
      else some ({ s with out := r.callback.run s.out statusStopped .api }, r.resume, [])
  | .post, .run =>
      some (s.post (.requestConnect r.callback), r.resume, [])
  | _, _ => none

/-- `AsyncUnaryCall` returns to its caller. -/
def Shared.leave (s : Shared) (cb : Callback) : Shared :=
  { s with inCall := s.inCall.erase cb.call }

/-- `AsyncUnaryCall` after `EnsureConnected` (`channel.cc:379-409`) on a user
    thread. -/
def asyncUnaryCallStep (cfg : Config) (s : Shared) :
    Calling → Action → Option (Shared × Thread × List Thread)
  | .fail st cb, .run =>
      some ({ s.leave cb with out := postResponse cfg s.out cb st [] .api }, .done, [])
  | .post methodId request cb, .run =>
      some ((s.leave cb).post (.submit methodId request cb), .done, [])
  | _, _ => none

/-- `hdr` of the request (`channel.cc:396-400`). -/
def requestHeader (callId methodId : UInt32) (request : Bytes) : FrameHeader :=
  { type := FrameRequest, callID := callId, methodID := methodId,
    payloadSize := UInt32.ofNat request.length }

/-- `pending.emplace`: a key that is present keeps its callback. -/
def emplace (m : Pending) (callId : UInt32) (cb : Callback) : Pending :=
  match m.lookup callId with
  | some _ => m
  | none => m.insert callId cb

/-- `if (cb) connect_waiters.push_back(cb)`. -/
def addWaiter (waiters : List ConnectCallback) (cb : ConnectCallback) : List ConnectCallback :=
  if cb = .empty then waiters else waiters ++ [cb]

/-- The handler of `RequestConnect` (`channel.cc:160-175`). -/
def handleConnect (s : Shared) (cb : ConnectCallback) : Shared × List Thread :=
  if s.connState = .closed || s.stopped then ({ s with out := cb.run s.out statusStopped .io }, [])
  else if s.connState = .connected then ({ s with out := cb.run s.out statusOK .io }, [])
  else if s.connState = .idle then
    ({ s with connectWaiters := addWaiter s.connectWaiters cb, connState := .connecting }.coSpawn,
      [.connectCoro .spawned])
  else ({ s with connectWaiters := addWaiter s.connectWaiters cb }, [])

/-- The id, the map entry and the queued frame of a call (`channel.cc:393-402`). -/
def Shared.register (s : Shared) (methodId : UInt32) (request : Bytes) (cb : Callback) : Shared :=
  { s with nextCallId := s.nextCallId + 1,
           pending := emplace s.pending s.nextCallId cb,
           registered := s.registered ++ [⟨cb.call, s.nextCallId⟩],
           writeQueue := s.writeQueue ++
             [(requestHeader s.nextCallId methodId request, request)] }

/-- The handler of `AsyncUnaryCall` (`channel.cc:385-408`). -/
def handleSubmit (cfg : Config) (s : Shared) (methodId : UInt32) (request : Bytes)
    (cb : Callback) : Shared × List Thread :=
  if s.stopped then ({ s with out := postResponse cfg s.out cb statusShutdown [] .io }, [])
  else if s.writePumpActive then (s.register methodId request cb, [])
  else
    ({ s.register methodId request cb with writePumpActive := true }.coSpawn,
      [.writePump .spawned])

/-- The handler of `Shutdown` (`channel.cc:316-326`). -/
def handleShutdown (cfg : Config) (s : Shared) : Shared :=
  let s := failAllPending cfg { s with connState := .closed } statusShutdown false .io
  { s with connectWaiters := [],
           out := s.connectWaiters.foldl (fun d cb => cb.run d statusShutdown .io) s.out }

/-- A handler on the io thread. -/
def handle (cfg : Config) (s : Shared) : Handler → Shared × List Thread
  | .requestConnect cb => handleConnect s cb
  | .submit methodId request cb => handleSubmit cfg s methodId request cb
  | .shutdown => (handleShutdown cfg s, [])

/-- The record of a new call. -/
def Shared.newCall (s : Shared) (call : Call) : Shared := { s with calls := s.calls ++ [call] }

/-- `EnsureConnected` on the io thread (`channel.cc:111-115`). -/
def statusOnIoThread : Status :=
  ⟨StatusCode.FailedPrecondition,
    "synchronous connect attempted from io thread; channel not yet connected"⟩

/-- The io thread. A callback that runs on it may call `AsyncUnaryCall` or
    `ConnectAsync`, which do not block there. -/
def ioStep (cfg : Config) (s : Shared) : Action → Option (Shared × Thread × List Thread)
  | .run =>
      match s.strand with
      | [] => none
      | h :: rest =>
          let r := handle cfg { s with strand := rest } h
          some (r.1, .io, r.2)
  | .nestedCall methodId request isEmpty =>
      if s.destroying then none
      else
        let cb : Callback := ⟨s.calls.length, isEmpty⟩
        let s := s.newCall ⟨methodId, request, isEmpty⟩
        if s.connected then some (s.post (.submit methodId request cb), .io, [])
        else some ({ s with out := postResponse cfg s.out cb statusOnIoThread [] .io }, .io, [])
  | .nestedConnect isEmpty =>
      if s.destroying then none
      else
        let cb : ConnectCallback := if isEmpty then .empty else .user s.connectsAsked
        let s := { s with connectsAsked := s.connectsAsked + 1 }
        if s.stopped then some ({ s with out := cb.run s.out statusStopped .io }, .io, [])
        else some (s.post (.requestConnect cb), .io, [])
  | .exit =>
      if !s.workGuard && s.strand.isEmpty && s.outstandingWork == 0 then
        some ({ s with ioThreadDone := true }, .done, [])
      else none
  | _ => none

/-- The end of `ConnectCoro` once the handshake is done (`channel.cc:208-217`). -/
def connectDone (cfg : Config) (s : Shared) : Shared × Thread × List Thread :=
  if s.connState = .closed || s.stopped then
    ((finish cfg s statusShutdown).coReturn, .done, [])
  else
    ((finish cfg { s.coSpawn with connState := .connected, connected := true } statusOK).coReturn,
      .done, [.readLoop .spawned])

/-- `ConnectCoro` (`channel.cc:178-218`) fails with a status. -/
def connectFailed (cfg : Config) (s : Shared) (code : StatusCode) (message : String) :
    Option (Shared × Thread × List Thread) :=
  some ((finish cfg s ⟨code, message⟩).coReturn, .done, [])

/-- `ConnectCoro` (`channel.cc:178-218`). -/
def connectCoroStep (cfg : Config) (s : Shared) :
    Connecting → Action → Option (Shared × Thread × List Thread)
  | .spawned, .run => some (s, .connectCoro .resolve, [])
  | .resolve, .op (some e) => connectFailed cfg s StatusCode.Unavailable ("connect: " ++ e)
  | .resolve, .op none => some (s, .connectCoro .connect, [])
  | .connect, .op (some e) => connectFailed cfg s StatusCode.Unavailable ("connect: " ++ e)
  | .connect, .op none =>
      if cfg.handshakeHeader = [] then some (connectDone cfg s)
      else some (s, .connectCoro .writeHandshake, [])
  | .writeHandshake, .op (some e) =>
      connectFailed cfg s StatusCode.Unavailable ("handshake write: " ++ e)
  | .writeHandshake, .op none => some (s, .connectCoro .readHandshake, [])
  | .readHandshake, .readHandshake (.error e) =>
      connectFailed cfg s StatusCode.Unavailable ("handshake read: " ++ e)
  | .readHandshake, .readHandshake (.ok buf) =>
      if buf.length ≠ cfg.handshakeHeader.length then none
      else if buf ≠ cfg.handshakeHeader then
        connectFailed cfg s StatusCode.FailedPrecondition "handshake mismatch"
      else some (connectDone cfg s)
  | _, _ => none

/-- The status a response hands to the callback (`channel.cc:269-274`). -/
def responseStatus (hdr : FrameHeader) : Status := Status.ofWire hdr.statusCode

/-- The payload a response hands to the callback. -/
def responsePayload (hdr : FrameHeader) (payload : Bytes) : Bytes :=
  if (hdr.statusCode.toNat : StatusCode) = StatusCode.OK then payload else []

/-- A response frame (`channel.cc:259-274`). -/
def takeResponse (cfg : Config) (s : Shared) (hdr : FrameHeader) (payload : Bytes) : Shared :=
  match s.pending.lookup hdr.callID with
  | none => s
  | some cb =>
      { s with pending := s.pending.erase hdr.callID,
               out := postResponse cfg s.out cb (responseStatus hdr) (responsePayload hdr payload)
                 .io }

/-- `co_return` of `ReadLoop`. -/
def Shared.endReadLoop (s : Shared) : Shared :=
  { s.coReturn with readLoopsEnded := s.readLoopsEnded + 1 }

/-- `ReadLoop` (`channel.cc:235-276`). -/
def readLoopStep (cfg : Config) (s : Shared) :
    Reading → Action → Option (Shared × Thread × List Thread)
  | .spawned, .run => some (s, .readLoop .reading, [])
  | .reading, .readFrame (.error what) =>
      some ((failAllPending cfg s ⟨StatusCode.Unavailable, "read frame: " ++ what⟩ true
        .io).endReadLoop, .done, [])
  | .reading, .readFrame .throw => some (s.endReadLoop, .done, [])
  | .reading, .readFrame (.frame hdr payload) =>
      if hdr.type = FramePush then
        if cfg.onPush then
          some ({ s with out := postPush cfg s.out hdr.methodID payload }, .readLoop .reading, [])
        else some (s, .readLoop .reading, [])
      else if hdr.type = FrameResponse then
        some (takeResponse cfg s hdr payload, .readLoop .reading, [])
      else
        some ((failAllPending cfg s ⟨StatusCode.Internal, "unexpected frame type"⟩ true
          .io).endReadLoop, .done, [])
  | _, _ => none

/-- The loop head of `WritePump` (`channel.cc:279-281`, `290`). -/
def pumpNext (s : Shared) : Shared × Thread × List Thread :=
  match s.writeQueue with
  | [] => ({ s with writePumpActive := false }.coReturn, .done, [])
  | (hdr, payload) :: rest => ({ s with writeQueue := rest }, .writePump (.writing hdr payload), [])

/-- `WritePump` (`channel.cc:278-291`). -/
def writePumpStep (cfg : Config) (s : Shared) :
    Pumping → Action → Option (Shared × Thread × List Thread)
  | .spawned, .run => some (pumpNext s)
  | .writing _ _, .op none => some (pumpNext s)
  | .writing _ _, .op (some what) =>
      let s := failAllPending cfg { s with writeQueue := [] }
        ⟨StatusCode.Unavailable, "write frame: " ++ what⟩ true .io
      some ({ s with writePumpActive := false }.coReturn, .done, [])
  | _, _ => none

/-- `Shutdown` (`channel.cc:306-340`). -/
def shutdownStep (cfg : Config) (s : Shared) :
    Closing → Action → Option (Shared × Thread × List Thread)
  | .exchange, .run =>
      if s.stopped then some (s, .shutdown .returned, [])
      else some ({ s with stopped := true, atStop := s.inCall }, .shutdown .readStarted, [])
  | .readStarted, .run =>
      if s.ioThreadStarted then some (s, .shutdown .post, [])
      else some (s, .shutdown .closeIdle, [])
  | .post, .run => some (s.post .shutdown, .shutdown .resetGuard, [])
  | .resetGuard, .run => some ({ s with workGuard := false }, .shutdown .join, [])
  | .join, .run => if s.ioThreadDone then some (s, .shutdown .drain, []) else none
  | .closeIdle, .run =>
      some ({ failAllPending cfg { s with connState := .closed } statusShutdown false .api with
                connectWaiters := [] }, .shutdown .drain, [])
  | .drain, .run => some ({ s with out := { s.out with cbQueue := [] } }, .shutdown .returned, [])
  | _, _ => none

/-- The call of one completion by `RunCallbacks` (`channel.cc:439-443`). -/
def Completion.run (c : Completion) (d : Deliveries) : Deliveries :=
  match c with
  | .response cb st payload => if cb.isEmpty then d else d.invoke cb st payload .runCallbacks
  | .connect cb st => cb.run d st .runCallbacks
  | .push methodId payload => { d with pushes := d.pushes ++ [(methodId, payload)] }

/-- `RunCallbacks` (`channel.cc:432-448`); `popNull` is a `pop` that answers
    `nullptr`. -/
def runCallbacksStep (s : Shared) (left : Nat) :
    Action → Option (Shared × Thread × List Thread)
  | .run =>
      if left = 0 then some (s, .done, [])
      else
        match s.out.cbQueue with
        | [] => none
        | c :: rest =>
            some ({ s with out := c.run { s.out with cbQueue := rest } },
              .runCallbacks (left - 1), [])
  | .popNull => some (s, .done, [])
  | _ => none

/-- The application calls a method. -/
def appStep (s : Shared) (a : Action) : Option (Shared × Thread × List Thread) :=
  if s.destroying then none
  else
    match a with
    | .call methodId request isEmpty =>
        some ({ s.newCall ⟨methodId, request, isEmpty⟩ with
                  inCall := s.inCall ++ [s.calls.length] }, .app,
          [.ensureConnected (.call methodId request ⟨s.calls.length, isEmpty⟩) .check])
    | .connect => some (s, .app, [.ensureConnected .connect .check])
    | .connectAsync isEmpty =>
        some ({ s with connectsAsked := s.connectsAsked + 1 }, .app,
          [.requestConnect (.connectAsync (if isEmpty then .empty else .user s.connectsAsked))
            .checkStopped])
    | .runCallbacks max => some (s, .app, [.runCallbacks max])
    | .shutdown => some ({ s with destroying := true }, .app, [.shutdown .exchange])
    | _ => none

/-- One step of a thread. -/
def step (cfg : Config) (s : Shared) (t : Thread) (a : Action) :
    Option (Shared × Thread × List Thread) :=
  match t with
  | .app => appStep s a
  | .ensureConnected k pc => ensureConnectedStep s k pc a
  | .requestConnect r pc => requestConnectStep s r pc a
  | .asyncUnaryCall pc => asyncUnaryCallStep cfg s pc a
  | .runCallbacks left => runCallbacksStep s left a
  | .shutdown pc => shutdownStep cfg s pc a
  | .io => ioStep cfg s a
  | .connectCoro pc => connectCoroStep cfg s pc a
  | .readLoop pc => readLoopStep cfg s pc a
  | .writePump pc => writePumpStep cfg s pc a
  | .done => none

/-- The threads and coroutines of a channel as a program. -/
def program (cfg : Config) : Program Shared Thread Action := ⟨step cfg⟩

/-- A new channel and the application that uses it. -/
def initial : Pool Shared Thread := ⟨{}, [.app]⟩

/-- The interleavings of the threads and coroutines of one channel. -/
def machine (cfg : Config) : Machine (Pool Shared Thread) (Nat × Action) := (program cfg).machine

end Protocomm.Cpp.Channel
