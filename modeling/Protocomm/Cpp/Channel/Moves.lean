import Protocomm.Cpp.Channel.Model

/-!
# What a step of the C++ channel can do

`Move` lists the transitions of `step`, one constructor for each branch of the
source, and `step_move` reads them off `step`.
-/

namespace Protocomm.Cpp.Channel

open Misc

/-- From one operation of `ConnectCoro` to the next (`channel.cc:185-202`). -/
inductive Connecting.Next (cfg : Config) : Connecting → Action → Connecting → Prop
  | resolve : Next cfg .spawned .run .resolve
  | connect : Next cfg .resolve (.op none) .connect
  | writeHandshake (hheader : cfg.handshakeHeader ≠ []) :
      Next cfg .connect (.op none) .writeHandshake
  | readHandshake : Next cfg .writeHandshake (.op none) .readHandshake

/-- `ReadFrame` fails or reads a frame of an unexpected type (`channel.cc:240-257`). -/
def Action.failsReader : Action → Bool
  | .readFrame (.error _) => true
  | .readFrame (.frame hdr _) => hdr.type ≠ FramePush && hdr.type ≠ FrameResponse
  | _ => false

/-- The transitions of `step`: the state and the thread before, the action, the state and the
    thread after, and the threads it starts. -/
inductive Move (cfg : Config) (s : Shared) :
    Thread → Action → Shared → Thread → List Thread → Prop
  -- the application
  | call (methodId : UInt32) (request : Bytes) (isEmpty : Bool) (hlive : s.destroying = false) :
      Move cfg s .app (.call methodId request isEmpty)
        { s.newCall ⟨methodId, request, isEmpty⟩ with inCall := s.inCall ++ [s.calls.length] } .app
        [.ensureConnected (.call methodId request ⟨s.calls.length, isEmpty⟩) .check]
  | connect (hlive : s.destroying = false) :
      Move cfg s .app .connect s .app [.ensureConnected .connect .check]
  | connectAsync (isEmpty : Bool) (hlive : s.destroying = false) :
      Move cfg s .app (.connectAsync isEmpty) { s with connectsAsked := s.connectsAsked + 1 } .app
        [.requestConnect (.connectAsync (if isEmpty then .empty else .user s.connectsAsked))
          .checkStopped]
  | runCallbacks (max : Nat) (hlive : s.destroying = false) :
      Move cfg s .app (.runCallbacks max) s .app [.runCallbacks max]
  | destroy (hlive : s.destroying = false) :
      Move cfg s .app .shutdown { s with destroying := true } .app [.shutdown .exchange]
  -- `EnsureConnected`
  | checkOK (k : Caller) (hconnected : s.connected = true) :
      Move cfg s (.ensureConnected k .check) .run s (k.resume statusOK) []
  | checkDown (k : Caller) :
      Move cfg s (.ensureConnected k .check) .run s (.ensureConnected k .checkStopped) []
  | ensureStopped (k : Caller) (hstopped : s.stopped = true) :
      Move cfg s (.ensureConnected k .checkStopped) .run s (k.resume statusStopped) []
  | ensureRequest (k : Caller) (hopen : s.stopped = false) :
      Move cfg s (.ensureConnected k .checkStopped) .run
        { s with out := { s.out with promises := s.out.promises ++ [[]] } }
        (.requestConnect (.ensureConnected k s.out.promises.length) .checkStopped) []
  | waitSet (k : Caller) (f : Nat) (st : Status) (again : List Status)
      (hset : s.out.promises[f]? = some (st :: again)) :
      Move cfg s (.ensureConnected k (.wait f)) .run s (k.resume st) []
  | waitBroken (k : Caller) (f : Nat) (hdone : s.ioThreadDone = true) :
      Move cfg s (.ensureConnected k (.wait f)) .brokenPromise s (k.resume statusStopped) []
  -- `RequestConnect`
  | requestStopped (r : Requester) (hstopped : s.stopped = true) :
      Move cfg s (.requestConnect r .checkStopped) .run
        { s with out := r.callback.run s.out statusStopped .api } r.resume []
  | requestOpen (r : Requester) (hopen : s.stopped = false) :
      Move cfg s (.requestConnect r .checkStopped) .run s
        (.requestConnect r .ensureIoThread) []
  | ioThreadKept (r : Requester) :
      Move cfg s (.requestConnect r .ensureIoThread) .run s
        (.requestConnect r .checkStarted) []
  | startIoThread (r : Requester) (hnew : s.ioThreadStarted = false)
      (hopen : s.stopped = false) :
      Move cfg s (.requestConnect r .ensureIoThread) .run { s with ioThreadStarted := true }
        (.requestConnect r .checkStarted) [.io]
  | ioThreadThere (r : Requester) (hstarted : s.ioThreadStarted = true) :
      Move cfg s (.requestConnect r .checkStarted) .run s (.requestConnect r .post) []
  | ioThreadMissing (r : Requester)
      (hstarted : s.ioThreadStarted = false) :
      Move cfg s (.requestConnect r .checkStarted) .run
        { s with out := r.callback.run s.out statusStopped .api } r.resume []
  | postRequest (r : Requester) :
      Move cfg s (.requestConnect r .post) .run (s.post (.requestConnect r.callback))
        r.resume []
  -- `AsyncUnaryCall`
  | fail (st : Status) (cb : Callback) :
      Move cfg s (.asyncUnaryCall (.fail st cb)) .run
        { s.leave cb with out := postResponse cfg s.out cb st [] .api } .done []
  | postCall (methodId : UInt32) (request : Bytes) (cb : Callback) :
      Move cfg s (.asyncUnaryCall (.post methodId request cb)) .run
        ((s.leave cb).post (.submit methodId request cb)) .done []
  -- `RunCallbacks`
  | runStop (left : Nat) (a : Action) : Move cfg s (.runCallbacks left) a s .done []
  | runOne (left : Nat) (c : Completion) (rest : List Completion)
      (hqueue : s.out.cbQueue = c :: rest) :
      Move cfg s (.runCallbacks left) .run { s with out := c.run { s.out with cbQueue := rest } }
        (.runCallbacks (left - 1)) []
  -- `Shutdown`
  | shutdownAgain (hstopped : s.stopped = true) :
      Move cfg s (.shutdown .exchange) .run s (.shutdown .returned) []
  | exchange (hopen : s.stopped = false) :
      Move cfg s (.shutdown .exchange) .run { s with stopped := true, atStop := s.inCall }
        (.shutdown .readStarted) []
  | readStarted (hstarted : s.ioThreadStarted = true) :
      Move cfg s (.shutdown .readStarted) .run s (.shutdown .post) []
  | readIdle (hstarted : s.ioThreadStarted = false) :
      Move cfg s (.shutdown .readStarted) .run s (.shutdown .closeIdle) []
  | postShutdown :
      Move cfg s (.shutdown .post) .run (s.post .shutdown) (.shutdown .resetGuard) []
  | resetGuard :
      Move cfg s (.shutdown .resetGuard) .run { s with workGuard := false } (.shutdown .join) []
  | join (hdone : s.ioThreadDone = true) :
      Move cfg s (.shutdown .join) .run s (.shutdown .drain) []
  | closeIdle :
      Move cfg s (.shutdown .closeIdle) .run
        { failAllPending cfg { s with connState := .closed } statusShutdown false .api with
            connectWaiters := [] } (.shutdown .drain) []
  | drain :
      Move cfg s (.shutdown .drain) .run { s with out := { s.out with cbQueue := [] } }
        (.shutdown .returned) []
  -- the io thread
  | connectRefused (cb : ConnectCallback) (rest : List Handler)
      (hstrand : s.strand = .requestConnect cb :: rest)
      (hclosed : s.connState = .closed ∨ s.stopped = true) :
      Move cfg s .io .run { s with strand := rest, out := cb.run s.out statusStopped .io } .io []
  | connectThere (cb : ConnectCallback) (rest : List Handler)
      (hstrand : s.strand = .requestConnect cb :: rest) (hstate : s.connState = .connected)
      (hopen : s.stopped = false) :
      Move cfg s .io .run { s with strand := rest, out := cb.run s.out statusOK .io } .io []
  | connectWait (cb : ConnectCallback) (rest : List Handler)
      (hstrand : s.strand = .requestConnect cb :: rest) (hstate : s.connState = .connecting)
      (hopen : s.stopped = false) :
      Move cfg s .io .run
        { s with strand := rest, connectWaiters := addWaiter s.connectWaiters cb } .io []
  | connectSpawn (cb : ConnectCallback) (rest : List Handler)
      (hstrand : s.strand = .requestConnect cb :: rest) (hstate : s.connState = .idle)
      (hopen : s.stopped = false) :
      Move cfg s .io .run
        { s with strand := rest, connectWaiters := addWaiter s.connectWaiters cb,
                 connState := .connecting }.coSpawn .io [.connectCoro .spawned]
  | submitStopped (methodId : UInt32) (request : Bytes) (cb : Callback) (rest : List Handler)
      (hstrand : s.strand = .submit methodId request cb :: rest) (hstopped : s.stopped = true) :
      Move cfg s .io .run
        { s with strand := rest, out := postResponse cfg s.out cb statusShutdown [] .io } .io []
  | submit (methodId : UInt32) (request : Bytes) (cb : Callback) (rest : List Handler)
      (hstrand : s.strand = .submit methodId request cb :: rest) (hopen : s.stopped = false)
      (hactive : s.writePumpActive = true) :
      Move cfg s .io .run ({ s with strand := rest }.register methodId request cb) .io []
  | submitSpawn (methodId : UInt32) (request : Bytes) (cb : Callback) (rest : List Handler)
      (hstrand : s.strand = .submit methodId request cb :: rest) (hopen : s.stopped = false)
      (hidle : s.writePumpActive = false) :
      Move cfg s .io .run
        { { s with strand := rest }.register methodId request cb with
            writePumpActive := true }.coSpawn .io [.writePump .spawned]
  | shutdownHandler (rest : List Handler) (hstrand : s.strand = .shutdown :: rest) :
      Move cfg s .io .run (handleShutdown cfg { s with strand := rest }) .io []
  | nestedCall (methodId : UInt32) (request : Bytes) (isEmpty : Bool)
      (hlive : s.destroying = false) (hconnected : s.connected = true) :
      Move cfg s .io (.nestedCall methodId request isEmpty)
        ((s.newCall ⟨methodId, request, isEmpty⟩).post
          (.submit methodId request ⟨s.calls.length, isEmpty⟩)) .io []
  | nestedCallFails (methodId : UInt32) (request : Bytes) (isEmpty : Bool)
      (hlive : s.destroying = false) :
      Move cfg s .io (.nestedCall methodId request isEmpty)
        { s.newCall ⟨methodId, request, isEmpty⟩ with
            out := postResponse cfg s.out ⟨s.calls.length, isEmpty⟩ statusOnIoThread [] .io }
        .io []
  | nestedConnectStopped (isEmpty : Bool) (cb : ConnectCallback) (hlive : s.destroying = false)
      (hstopped : s.stopped = true) (hcb : cb = if isEmpty then .empty else .user s.connectsAsked) :
      Move cfg s .io (.nestedConnect isEmpty)
        { s with connectsAsked := s.connectsAsked + 1, out := cb.run s.out statusStopped .io }
        .io []
  | nestedConnect (isEmpty : Bool) (cb : ConnectCallback) (hlive : s.destroying = false)
      (hopen : s.stopped = false)
      (hcb : cb = if isEmpty then .empty else .user s.connectsAsked) :
      Move cfg s .io (.nestedConnect isEmpty)
        ({ s with connectsAsked := s.connectsAsked + 1 }.post (.requestConnect cb)) .io []
  | exit (hguard : s.workGuard = false) (hstrand : s.strand = []) (hwork : s.outstandingWork = 0) :
      Move cfg s .io .exit { s with ioThreadDone := true } .done []
  -- `ConnectCoro`
  | connectStep (pc pc' : Connecting) (a : Action) (hnext : pc.Next cfg a pc') :
      Move cfg s (.connectCoro pc) a s (.connectCoro pc') []
  | connectFailed (pc : Connecting) (a : Action) (code : StatusCode) (message : String)
      (hcode : code ≠ StatusCode.OK) :
      Move cfg s (.connectCoro pc) a (finish cfg s ⟨code, message⟩).coReturn .done []
  | connectClosed (pc : Connecting) (a : Action)
      (hclosed : s.connState = .closed ∨ s.stopped = true) :
      Move cfg s (.connectCoro pc) a (finish cfg s statusShutdown).coReturn .done []
  | connectDone (pc : Connecting) (a : Action) (hclosed : s.connState ≠ .closed)
      (hopen : s.stopped = false) :
      Move cfg s (.connectCoro pc) a
        (finish cfg { s.coSpawn with connState := .connected, connected := true }
          statusOK).coReturn .done [.readLoop .spawned]
  -- `ReadLoop`
  | readStart : Move cfg s (.readLoop .spawned) .run s (.readLoop .reading) []
  | readFailed (a : Action) (st : Status) (ha : a.failsReader = true) :
      Move cfg s (.readLoop .reading) a (failAllPending cfg s st true .io).endReadLoop .done []
  | readThrow : Move cfg s (.readLoop .reading) (.readFrame .throw) s.endReadLoop .done []
  | push (hdr : FrameHeader) (payload : Bytes) (htype : hdr.type = FramePush)
      (hset : cfg.onPush = true) :
      Move cfg s (.readLoop .reading) (.readFrame (.frame hdr payload))
        { s with out := postPush cfg s.out hdr.methodID payload } (.readLoop .reading) []
  | skip (hdr : FrameHeader) (payload : Bytes)
      (hskip : hdr.type = FramePush ∨
        hdr.type = FrameResponse ∧ s.pending.lookup hdr.callID = none) :
      Move cfg s (.readLoop .reading) (.readFrame (.frame hdr payload)) s (.readLoop .reading) []
  | take (hdr : FrameHeader) (payload : Bytes) (cb : Callback) (htype : hdr.type = FrameResponse)
      (hlookup : s.pending.lookup hdr.callID = some cb) :
      Move cfg s (.readLoop .reading) (.readFrame (.frame hdr payload))
        { s with pending := s.pending.erase hdr.callID,
                 out := postResponse cfg s.out cb (responseStatus hdr)
                   (responsePayload hdr payload) .io } (.readLoop .reading) []
  -- `WritePump`
  | pumpDone (pc : Pumping) (a : Action) (hempty : s.writeQueue = [])
      (ha : a = .run ∨ a = .op none) :
      Move cfg s (.writePump pc) a { s with writePumpActive := false }.coReturn .done []
  | pumpNext (pc : Pumping) (a : Action) (hdr : FrameHeader) (payload : Bytes)
      (rest : List (FrameHeader × Bytes)) (hqueue : s.writeQueue = (hdr, payload) :: rest)
      (ha : a = .run ∨ a = .op none) :
      Move cfg s (.writePump pc) a { s with writeQueue := rest }
        (.writePump (.writing hdr payload)) []
  | pumpFailed (hdr : FrameHeader) (payload : Bytes) (what : String) :
      Move cfg s (.writePump (.writing hdr payload)) (.op (some what))
        { failAllPending cfg { s with writeQueue := [] }
            ⟨StatusCode.Unavailable, "write frame: " ++ what⟩ true .io with
            writePumpActive := false }.coReturn .done []

/-- What holds of every place after `EnsureConnected` holds of the caller that
    goes on. -/
theorem resume_const {α : Type} (f : Thread → α) {x : α} (hdone : f .done = x)
    (hpost : ∀ methodId request cb, f (.asyncUnaryCall (.post methodId request cb)) = x)
    (hfail : ∀ st cb, f (.asyncUnaryCall (.fail st cb)) = x) (k : Caller) (st : Status) :
    f (k.resume st) = x := by
  cases k with
  | connect => exact hdone
  | call methodId request cb =>
      simp only [Caller.resume]
      split
      · exact hpost _ _ _
      · exact hfail _ _

variable {cfg : Config} {s s' : Shared} {t t' : Thread} {a : Action} {new : List Thread}

theorem appStep_move (h : appStep s a = some (s', t', new)) : Move cfg s .app a s' t' new := by
  unfold appStep at h
  split at h
  · cases h
  · have hlive := Bool.eq_false_iff.mpr ‹_›
    split at h <;> cases h
    · exact .call _ _ _ hlive
    · exact .connect hlive
    · exact .connectAsync _ hlive
    · exact .runCallbacks _ hlive
    · exact .destroy hlive

theorem ensureConnectedStep_move {k : Caller} {pc : Ensuring}
    (h : ensureConnectedStep s k pc a = some (s', t', new)) :
    Move cfg s (.ensureConnected k pc) a s' t' new := by
  unfold ensureConnectedStep at h
  split at h
  · split at h <;> cases h
    · exact .checkOK k ‹_›
    · exact .checkDown k
  · split at h <;> cases h
    · exact .ensureStopped k ‹_›
    · exact .ensureRequest k (Bool.eq_false_iff.mpr ‹_›)
  · split at h <;> cases h
    exact .waitSet k _ _ _ ‹_›
  · split at h <;> cases h
    exact .waitBroken k _ ‹_›
  · cases h

theorem requestConnectStep_move {r : Requester} {pc : Requesting}
    (h : requestConnectStep s r pc a = some (s', t', new)) :
    Move cfg s (.requestConnect r pc) a s' t' new := by
  unfold requestConnectStep at h
  split at h
  · split at h <;> cases h
    · exact .requestStopped r ‹_›
    · exact .requestOpen r (Bool.eq_false_iff.mpr ‹_›)
  · split at h <;> cases h
    · exact .ioThreadKept r
    · rename_i hnew
      rw [Bool.or_eq_true, not_or] at hnew
      exact .startIoThread r (Bool.eq_false_iff.mpr hnew.1) (Bool.eq_false_iff.mpr hnew.2)
  · split at h <;> cases h
    · exact .ioThreadThere r ‹_›
    · exact .ioThreadMissing r (Bool.eq_false_iff.mpr ‹_›)
  · cases h
    exact .postRequest r
  · cases h

theorem asyncUnaryCallStep_move {pc : Calling}
    (h : asyncUnaryCallStep cfg s pc a = some (s', t', new)) :
    Move cfg s (.asyncUnaryCall pc) a s' t' new := by
  unfold asyncUnaryCallStep at h
  split at h <;> cases h
  · exact .fail _ _
  · exact .postCall _ _ _

theorem runCallbacksStep_move {left : Nat} (h : runCallbacksStep s left a = some (s', t', new)) :
    Move cfg s (.runCallbacks left) a s' t' new := by
  unfold runCallbacksStep at h
  split at h
  · split at h
    · cases h
      exact .runStop _ _
    · split at h <;> cases h
      exact .runOne _ _ _ ‹_›
  · cases h
    exact .runStop _ _
  · cases h

theorem shutdownStep_move {pc : Closing} (h : shutdownStep cfg s pc a = some (s', t', new)) :
    Move cfg s (.shutdown pc) a s' t' new := by
  unfold shutdownStep at h
  split at h
  · split at h <;> cases h
    · exact .shutdownAgain ‹_›
    · exact .exchange (Bool.eq_false_iff.mpr ‹_›)
  · split at h <;> cases h
    · exact .readStarted ‹_›
    · exact .readIdle (Bool.eq_false_iff.mpr ‹_›)
  · cases h
    exact .postShutdown
  · cases h
    exact .resetGuard
  · split at h <;> cases h
    exact .join ‹_›
  · cases h
    exact .closeIdle
  · cases h
    exact .drain
  · cases h

theorem handle_move {handler : Handler} {rest : List Handler}
    (hstrand : s.strand = handler :: rest) :
    Move cfg s .io .run (handle cfg { s with strand := rest } handler).1 .io
      (handle cfg { s with strand := rest } handler).2 := by
  cases handler with
  | requestConnect cb =>
      simp only [handle, handleConnect]
      split
      · rename_i hclosed
        rw [Bool.or_eq_true, decide_eq_true_eq] at hclosed
        exact .connectRefused cb rest hstrand hclosed
      · rename_i hopen
        rw [Bool.or_eq_true, decide_eq_true_eq, not_or, Bool.not_eq_true] at hopen
        split
        · exact .connectThere cb rest hstrand ‹_› hopen.2
        · split
          · exact .connectSpawn cb rest hstrand ‹_› hopen.2
          · refine .connectWait cb rest hstrand ?_ hopen.2
            cases hstate : s.connState <;> simp_all
  | shutdown => exact .shutdownHandler rest hstrand
  | submit methodId request cb =>
      simp only [handle, handleSubmit]
      split
      · exact .submitStopped methodId request cb rest hstrand ‹_›
      · split
        · exact .submit methodId request cb rest hstrand (Bool.eq_false_iff.mpr ‹_›) ‹_›
        · exact .submitSpawn methodId request cb rest hstrand (Bool.eq_false_iff.mpr ‹_›)
            (Bool.eq_false_iff.mpr ‹_›)

theorem ioStep_move (h : ioStep cfg s a = some (s', t', new)) : Move cfg s .io a s' t' new := by
  unfold ioStep at h
  split at h
  · split at h <;> cases h
    exact handle_move ‹_›
  · split at h
    · cases h
    · have hlive := Bool.eq_false_iff.mpr ‹_›
      dsimp only at h
      split at h <;> cases h
      · exact .nestedCall _ _ _ hlive ‹_›
      · exact .nestedCallFails _ _ _ hlive
  · split at h
    · cases h
    · have hlive := Bool.eq_false_iff.mpr ‹_›
      dsimp only at h
      split at h <;> cases h
      · exact .nestedConnectStopped _ _ hlive ‹_› rfl
      · exact .nestedConnect _ _ hlive (Bool.eq_false_iff.mpr ‹_›) rfl
  · split at h <;> cases h
    rename_i hexit
    simp only [Bool.and_eq_true, Bool.not_eq_eq_eq_not, Bool.not_true, List.isEmpty_iff,
      beq_iff_eq] at hexit
    exact .exit hexit.1.1 hexit.1.2 hexit.2
  · cases h

theorem connectDone_move {pc : Connecting} (h : connectDone cfg s = (s', t', new)) :
    Move cfg s (.connectCoro pc) a s' t' new := by
  unfold connectDone at h
  split at h <;> cases h
  · rename_i hclosed
    rw [Bool.or_eq_true, decide_eq_true_eq] at hclosed
    exact .connectClosed pc a hclosed
  · rename_i hopen
    rw [Bool.or_eq_true, decide_eq_true_eq, not_or] at hopen
    exact .connectDone pc a hopen.1 (Bool.eq_false_iff.mpr hopen.2)

theorem connectFailed_move {pc : Connecting} {code : StatusCode} {message : String}
    (hcode : code ≠ StatusCode.OK)
    (h : connectFailed cfg s code message = some (s', t', new)) :
    Move cfg s (.connectCoro pc) a s' t' new := by
  cases h
  exact .connectFailed pc a code message hcode

theorem connectCoroStep_move {pc : Connecting}
    (h : connectCoroStep cfg s pc a = some (s', t', new)) :
    Move cfg s (.connectCoro pc) a s' t' new := by
  unfold connectCoroStep at h
  split at h
  · cases h
    exact .connectStep _ _ _ .resolve
  · exact connectFailed_move (by decide) h
  · cases h
    exact .connectStep _ _ _ .connect
  · exact connectFailed_move (by decide) h
  · split at h
    · exact connectDone_move (Option.some.inj h)
    · cases h
      exact .connectStep _ _ _ (.writeHandshake ‹_›)
  · exact connectFailed_move (by decide) h
  · cases h
    exact .connectStep _ _ _ .readHandshake
  · exact connectFailed_move (by decide) h
  · split at h
    · cases h
    · split at h
      · exact connectFailed_move (by decide) h
      · exact connectDone_move (Option.some.inj h)
  · cases h

theorem readLoopStep_move {pc : Reading} (h : readLoopStep cfg s pc a = some (s', t', new)) :
    Move cfg s (.readLoop pc) a s' t' new := by
  unfold readLoopStep at h
  split at h
  · cases h
    exact .readStart
  · cases h
    exact .readFailed _ _ rfl
  · cases h
    exact .readThrow
  · split at h
    · split at h <;> cases h
      · exact .push _ _ ‹_› ‹_›
      · exact .skip _ _ (Or.inl ‹_›)
    · split at h
      · cases h
        unfold takeResponse
        split
        · exact .skip _ _ (Or.inr ⟨‹_›, ‹_›⟩)
        · exact .take _ _ _ ‹_› ‹_›
      · cases h
        exact .readFailed _ _ (by simp [Action.failsReader, *])
  · cases h

theorem pumpNext_move {pc : Pumping} (ha : a = .run ∨ a = .op none)
    (h : pumpNext s = (s', t', new)) :
    Move cfg s (.writePump pc) a s' t' new := by
  unfold pumpNext at h
  split at h <;> cases h
  · exact .pumpDone _ _ ‹_› ha
  · exact .pumpNext _ _ _ _ _ ‹_› ha

theorem writePumpStep_move {pc : Pumping} (h : writePumpStep cfg s pc a = some (s', t', new)) :
    Move cfg s (.writePump pc) a s' t' new := by
  unfold writePumpStep at h
  split at h
  · exact pumpNext_move (Or.inl rfl) (Option.some.inj h)
  · exact pumpNext_move (Or.inr rfl) (Option.some.inj h)
  · cases h
    exact .pumpFailed _ _ _
  · cases h

/-- Every step is one of the listed transitions. -/
theorem step_move (h : step cfg s t a = some (s', t', new)) : Move cfg s t a s' t' new := by
  cases t with
  | app => exact appStep_move h
  | ensureConnected k pc => exact ensureConnectedStep_move h
  | requestConnect r pc => exact requestConnectStep_move h
  | asyncUnaryCall pc => exact asyncUnaryCallStep_move h
  | runCallbacks left => exact runCallbacksStep_move h
  | shutdown pc => exact shutdownStep_move h
  | io => exact ioStep_move h
  | connectCoro pc => exact connectCoroStep_move h
  | readLoop pc => exact readLoopStep_move h
  | writePump pc => exact writePumpStep_move h
  | done => cases h

/-! ## The callbacks of a list -/

section Callbacks

variable {d : Deliveries} {st : Status} {site : Site}

/-- The callbacks of a snapshot that are not empty are queued, or called, in their order. -/
theorem failAll_eq (snapshot : List Callback) (defer : Bool) :
    failAll cfg d snapshot st defer site =
      if defer = true ∧ cfg.dispatch = .manual then
        { d with cbQueue := d.cbQueue ++
            (snapshot.filter fun cb => !cb.isEmpty).map fun cb => .response cb st [] }
      else
        { d with invoked := d.invoked ++
            (snapshot.filter fun cb => !cb.isEmpty).map fun cb => ⟨cb.call, st, [], site⟩ } := by
  induction snapshot generalizing d with
  | nil => simp [failAll]
  | cons cb snapshot ih =>
      have hcons : failAll cfg d (cb :: snapshot) st defer site =
          failAll cfg (if cb.isEmpty then d else if defer then postResponse cfg d cb st [] site
            else d.invoke cb st [] site) snapshot st defer site := rfl
      rw [hcons, ih]
      cases hempty : cb.isEmpty with
      | true => simp [hempty]
      | false =>
          cases defer <;> cases hdispatch : cfg.dispatch <;>
            simp [hempty, hdispatch, postResponse, Deliveries.invoke, Deliveries.queue]

/-- With `Dispatch::Manual` the callbacks of waiters are queued. -/
theorem waiters_manual (hmanual : cfg.dispatch = .manual) (waiters : List ConnectCallback) :
    waiters.foldl (postConnect cfg st) d =
      { d with cbQueue := d.cbQueue ++ waiters.map fun cb => .connect cb st } := by
  induction waiters generalizing d with
  | nil => simp
  | cons cb waiters ih =>
      rw [List.foldl_cons, ih]
      simp [postConnect, hmanual, Deliveries.queue]

/-- What each callback of a list keeps, all of them keep. -/
theorem foldl_keeps {α β : Type} {m : Deliveries → β} {f : Deliveries → α → Deliveries}
    (hf : ∀ d x, m (f d x) = m d) (l : List α) : m (l.foldl f d) = m d := by
  induction l generalizing d with
  | nil => rfl
  | cons x l ih => rw [List.foldl_cons, ih, hf]

end Callbacks

end Protocomm.Cpp.Channel
