import Protocomm.Go.Channel.Model

/-!
# What a step of the Go channel can do

`Move` lists the transitions of `step`, one constructor for each branch of the
source, and `step_move` reads them off `step`. Every invariant of the channel is
a case analysis over `Move`.
-/

namespace Protocomm.Go.Channel

open Misc

/-- The transitions of `step`: the state and the goroutine before, the action, the state and the
    goroutine after, and the goroutines it starts. -/
inductive Move (cfg : Config) (s : Shared) :
    Goroutine → Action → Shared → Goroutine → List Goroutine → Prop
  -- the application
  | call (methodID : UInt32) (request : Bytes) (isNil : Bool) :
      Move cfg s .app (.call methodID request isNil)
        { s with calls := s.calls ++ [⟨methodID, request, isNil⟩] } .app
        [.ensureConnected (.call methodID request ⟨s.calls.length, isNil⟩) .check]
  | connect : Move cfg s .app .connect s .app [.ensureConnected .connect .check]
  | close : Move cfg s .app .close s .app [.close .swap]
  -- `ensureConnected`
  | checkClosed (k : Caller) (hclosed : s.closed = true) :
      Move cfg s (.ensureConnected k .check) .run s (k.resume statusClosed) []
  | checkOK (k : Caller) (hopen : s.closed = false) (hconn : s.connected = true) :
      Move cfg s (.ensureConnected k .check) .run s (k.resume statusOK) []
  | checkDown (k : Caller) :
      Move cfg s (.ensureConnected k .check) .run s (.ensureConnected k .lock) []
  | lockConnect (k : Caller) (hfree : s.connectMu = false) :
      Move cfg s (.ensureConnected k .lock) .run { s with connectMu := true }
        (.ensureConnected k .recheck) []
  | recheckStop (k : Caller) (st : Status) :
      Move cfg s (.ensureConnected k .recheck) .run s (.ensureConnected k (.unlock st)) []
  | recheckDown (k : Caller) (hopen : s.closed = false)
      (hdown : (s.connected && s.conn.isSome) = false) :
      Move cfg s (.ensureConnected k .recheck) .run s (.ensureConnected k .dial) []
  | dialFailed (k : Caller) (e : String) :
      Move cfg s (.ensureConnected k .dial) (.dial (some e)) s
        (.ensureConnected k (.unlock ⟨StatusCode.Unavailable, "connect: " ++ e⟩)) []
  | dialNoHeader (k : Caller) (hheader : cfg.handshakeHeader = []) :
      Move cfg s (.ensureConnected k .dial) (.dial none) { s with dialled := s.dialled + 1 }
        (.ensureConnected k (.publish s.dialled)) []
  | dialHeader (k : Caller) (hheader : cfg.handshakeHeader ≠ []) :
      Move cfg s (.ensureConnected k .dial) (.dial none) { s with dialled := s.dialled + 1 }
        (.ensureConnected k (.writeHeader s.dialled)) []
  | headerWritten (k : Caller) (conn n : Nat)
      (hwrite : writeOk cfg.handshakeHeader.length n none = true) :
      Move cfg s (.ensureConnected k (.writeHeader conn)) (.wrote n none) s
        (.ensureConnected k (.readHeader conn)) []
  | headerFailed (k : Caller) (conn n : Nat) (e : String)
      (hwrite : writeOk cfg.handshakeHeader.length n (some e) = true) :
      Move cfg s (.ensureConnected k (.writeHeader conn)) (.wrote n (some e)) s
        (.ensureConnected k (.close conn ⟨StatusCode.Unavailable, "handshake write: " ++ e⟩)) []
  | replyFailed (k : Caller) (conn : Nat) (e : String) :
      Move cfg s (.ensureConnected k (.readHeader conn)) (.readFull (.error e)) s
        (.ensureConnected k (.close conn ⟨StatusCode.Unavailable, "handshake read: " ++ e⟩)) []
  | replyMismatch (k : Caller) (conn : Nat) (received : Bytes)
      (hlen : received.length = cfg.handshakeHeader.length)
      (hne : received ≠ cfg.handshakeHeader) :
      Move cfg s (.ensureConnected k (.readHeader conn)) (.readFull (.ok received)) s
        (.ensureConnected k
          (.close conn ⟨StatusCode.FailedPrecondition, "handshake mismatch"⟩)) []
  | replyOK (k : Caller) (conn : Nat) :
      Move cfg s (.ensureConnected k (.readHeader conn)) (.readFull (.ok cfg.handshakeHeader)) s
        (.ensureConnected k (.publish conn)) []
  | publishClosed (k : Caller) (conn : Nat) (hclosed : s.closed = true) :
      Move cfg s (.ensureConnected k (.publish conn)) .run s
        (.ensureConnected k (.close conn statusClosed)) []
  | publish (k : Caller) (conn : Nat) (hopen : s.closed = false) :
      Move cfg s (.ensureConnected k (.publish conn)) .run
        { s with gen := s.gen + 1, conn := some conn, connected := true,
                 published := s.published ++ [(conn, s.gen + 1)] }
        (.ensureConnected k (.spawn conn (s.gen + 1))) []
  | spawn (k : Caller) (conn : Nat) (gen : UInt64) :
      Move cfg s (.ensureConnected k (.spawn conn gen)) .run s
        (.ensureConnected k (.unlock statusOK)) [.readLoop conn gen .read]
  | closeDialled (k : Caller) (conn : Nat) (st : Status) :
      Move cfg s (.ensureConnected k (.close conn st)) .run
        { s with closedConns := s.closedConns ++ [conn] } (.ensureConnected k (.unlock st)) []
  | unlockConnect (k : Caller) (st : Status) :
      Move cfg s (.ensureConnected k (.unlock st)) .run { s with connectMu := false }
        (k.resume st) []
  -- `AsyncUnaryCall`
  | registerClosed (methodID : UInt32) (request : Bytes) (cb : Callback)
      (hclosed : s.closed = true) :
      Move cfg s (.asyncUnaryCall (.register methodID request cb)) .run s
        (.asyncUnaryCall (.callBack ⟨StatusCode.Cancelled, "channel closed"⟩ cb)) []
  | registerDown (methodID : UInt32) (request : Bytes) (cb : Callback) (hopen : s.closed = false) :
      Move cfg s (.asyncUnaryCall (.register methodID request cb)) .run s
        (.asyncUnaryCall (.callBack ⟨StatusCode.Unavailable, "not connected"⟩ cb)) []
  | register (methodID : UInt32) (request : Bytes) (cb : Callback) (conn : Nat)
      (hopen : s.closed = false) (hconnected : s.connected = true) (hconn : s.conn = some conn) :
      Move cfg s (.asyncUnaryCall (.register methodID request cb)) .run
        { s with nextCallID := s.nextCallID + 1, pending := s.pending.insert s.nextCallID cb,
                 registered := s.registered ++ [⟨cb.call, s.nextCallID, s.gen, conn⟩] }
        (.asyncUnaryCall (.lockWrite conn s.gen
          (requestHeader s.nextCallID methodID request) request)) []
  | callBackNil (st : Status) (cb : Callback) (hnil : cb.isNil = true) :
      Move cfg s (.asyncUnaryCall (.callBack st cb)) .run s.panic
        (.asyncUnaryCall (.callBack st cb)) []
  | callBack (st : Status) (cb : Callback) (hnil : cb.isNil = false) :
      Move cfg s (.asyncUnaryCall (.callBack st cb)) .run (cb.invoke st [] .caller s) .done []
  | lockWrite (conn : Nat) (gen : UInt64) (hdr : FrameHeader) (request : Bytes)
      (hfree : s.writeMu = false) :
      Move cfg s (.asyncUnaryCall (.lockWrite conn gen hdr request)) .run
        { s with writeMu := true } (.asyncUnaryCall (.writeHeader conn gen hdr request)) []
  | wroteHeader (conn : Nat) (gen : UInt64) (hdr : FrameHeader) (request : Bytes) (n : Nat)
      (hwrite : writeOk FrameHeaderSize n none = true) (hpayload : 0 < request.length) :
      Move cfg s (.asyncUnaryCall (.writeHeader conn gen hdr request)) (.wrote n none) s
        (.asyncUnaryCall (.writePayload conn gen hdr request)) []
  | wroteEmpty (conn : Nat) (gen : UInt64) (hdr : FrameHeader) (request : Bytes) (n : Nat)
      (hwrite : writeOk FrameHeaderSize n none = true) (hpayload : request = []) :
      Move cfg s (.asyncUnaryCall (.writeHeader conn gen hdr request)) (.wrote n none) s
        (.asyncUnaryCall (.unlockWrite conn gen none)) []
  | wroteHeaderFailed (conn : Nat) (gen : UInt64) (hdr : FrameHeader) (request : Bytes) (n : Nat)
      (e : String) (hwrite : writeOk FrameHeaderSize n (some e) = true) :
      Move cfg s (.asyncUnaryCall (.writeHeader conn gen hdr request)) (.wrote n (some e)) s
        (.asyncUnaryCall (.unlockWrite conn gen (some e))) []
  | wrotePayload (conn : Nat) (gen : UInt64) (hdr : FrameHeader) (request : Bytes) (n : Nat)
      (err : Option String) (hwrite : writeOk request.length n err = true) :
      Move cfg s (.asyncUnaryCall (.writePayload conn gen hdr request)) (.wrote n err) s
        (.asyncUnaryCall (.unlockWrite conn gen err)) []
  | unlockWrite (conn : Nat) (gen : UInt64) :
      Move cfg s (.asyncUnaryCall (.unlockWrite conn gen none)) .run { s with writeMu := false }
        .done []
  | unlockWriteFailed (conn : Nat) (gen : UInt64) (e : String) :
      Move cfg s (.asyncUnaryCall (.unlockWrite conn gen (some e))) .run
        { s with writeMu := false }
        (.teardown (.writer conn) gen ⟨StatusCode.Unavailable, "write: " ++ e⟩ .swap) []
  -- `readLoop`
  | readFailed (conn : Nat) (gen : UInt64) (e : String) :
      Move cfg s (.readLoop conn gen .read) (.readFrame (.error e)) s
        (.teardown (.reader conn) gen ⟨StatusCode.Unavailable, "read: " ++ e⟩ .swap) []
  | read (conn : Nat) (gen : UInt64) (hdr : FrameHeader) (payload : Bytes) :
      Move cfg s (.readLoop conn gen .read) (.readFrame (.ok (hdr, payload))) s
        (.readLoop conn gen (.dispatch hdr payload)) []
  | push (conn : Nat) (gen : UInt64) (hdr : FrameHeader) (payload : Bytes)
      (htype : hdr.type = FramePush) (hset : cfg.onPush = true) :
      Move cfg s (.readLoop conn gen (.dispatch hdr payload)) .run
        { s with pushes := s.pushes ++ [(conn, hdr.methodID, payload)] }
        (.readLoop conn gen .read) []
  | skip (conn : Nat) (gen : UInt64) (hdr : FrameHeader) (payload : Bytes) :
      Move cfg s (.readLoop conn gen (.dispatch hdr payload)) .run s (.readLoop conn gen .read) []
  | take (conn : Nat) (gen : UInt64) (hdr : FrameHeader) (payload : Bytes) (cb : Callback)
      (htype : hdr.type = FrameResponse) (hlookup : s.pending.lookup hdr.callID = some cb)
      (hnil : cb.isNil = false) :
      Move cfg s (.readLoop conn gen (.dispatch hdr payload)) .run
        { s with pending := s.pending.erase hdr.callID }
        (.readLoop conn gen (.complete cb hdr payload)) []
  | badType (conn : Nat) (gen : UInt64) (hdr : FrameHeader) (payload : Bytes)
      (hpush : hdr.type ≠ FramePush) (hresponse : hdr.type ≠ FrameResponse) :
      Move cfg s (.readLoop conn gen (.dispatch hdr payload)) .run s
        (.teardown (.reader conn) gen ⟨StatusCode.Internal, "unexpected frame type"⟩ .swap) []
  | complete (conn : Nat) (gen : UInt64) (cb : Callback) (hdr : FrameHeader) (payload : Bytes) :
      Move cfg s (.readLoop conn gen (.complete cb hdr payload)) .run
        (cb.invoke (responseStatus hdr) (responsePayload hdr payload)
          (.response conn gen hdr payload) s)
        (.readLoop conn gen .read) []
  -- `teardown`
  | teardownStale (origin : Origin) (gen : UInt64) (st : Status) (hgen : gen ≠ s.gen) :
      Move cfg s (.teardown origin gen st .swap) .run s .done []
  | teardown (origin : Origin) (st : Status) :
      Move cfg s (.teardown origin s.gen st .swap) .run s.detach
        (.teardown origin s.gen st (.closeConn s.conn s.snapshot)) []
  | teardownClose (origin : Origin) (gen : UInt64) (st : Status) (conn : Option Nat)
      (snapshot : List Callback) :
      Move cfg s (.teardown origin gen st (.closeConn conn snapshot)) .run
        { s with closedConns := s.closedConns ++ conn.toList }
        (.teardown origin gen st (.drain snapshot)) []
  | teardownNil (origin : Origin) (gen : UInt64) (st : Status) (snapshot : List Callback)
      (i : Nat) :
      Move cfg s (.teardown origin gen st (.drain snapshot)) (.pick i) s.panic
        (.teardown origin gen st (.drain snapshot)) []
  | teardownCall (origin : Origin) (gen : UInt64) (st : Status) (snapshot : List Callback)
      (i : Nat) (cb : Callback) (hpick : snapshot[i]? = some cb) (hnil : cb.isNil = false) :
      Move cfg s (.teardown origin gen st (.drain snapshot)) (.pick i)
        (cb.invoke st [] (.teardown gen) s)
        (.teardown origin gen st (.drain (snapshot.eraseIdx i))) []
  | teardownDone (origin : Origin) (gen : UInt64) (st : Status) :
      Move cfg s (.teardown origin gen st (.drain [])) .run s .done []
  -- `Close`
  | closeAgain (hclosed : s.closed = true) : Move cfg s (.close .swap) .run s .done []
  | closeFirst (hopen : s.closed = false) :
      Move cfg s (.close .swap) .run { s.detach with closed := true }
        (.close (.closeConn s.conn s.snapshot)) []
  | closeClose (conn : Option Nat) (snapshot : List Callback) :
      Move cfg s (.close (.closeConn conn snapshot)) .run
        { s with closedConns := s.closedConns ++ conn.toList } (.close (.drain snapshot)) []
  | closeNil (snapshot : List Callback) (i : Nat) :
      Move cfg s (.close (.drain snapshot)) (.pick i) s.panic (.close (.drain snapshot)) []
  | closeCall (snapshot : List Callback) (i : Nat) (cb : Callback)
      (hpick : snapshot[i]? = some cb) (hnil : cb.isNil = false) :
      Move cfg s (.close (.drain snapshot)) (.pick i)
        (cb.invoke ⟨StatusCode.Cancelled, "channel closed"⟩ [] .close s)
        (.close (.drain (snapshot.eraseIdx i))) []
  | closeDone : Move cfg s (.close (.drain [])) .run s .done []

/-- What holds of every place after `ensureConnected` holds of the caller that
    goes on. -/
theorem resume_const {α : Type} (f : Goroutine → α) {x : α} (hdone : f .done = x)
    (hregister : ∀ methodID request cb, f (.asyncUnaryCall (.register methodID request cb)) = x)
    (hcallBack : ∀ st cb, f (.asyncUnaryCall (.callBack st cb)) = x) (k : Caller) (st : Status) :
    f (k.resume st) = x := by
  cases k with
  | connect => exact hdone
  | call methodID request cb =>
      simp only [Caller.resume]
      split
      · exact hregister _ _ _
      · exact hcallBack _ _

variable {cfg : Config} {s s' : Shared} {g g' : Goroutine} {a : Action} {new : List Goroutine}

theorem appStep_move (h : appStep s a = some (s', g', new)) : Move cfg s .app a s' g' new := by
  unfold appStep at h
  split at h <;> cases h
  · exact .call _ _ _
  · exact .connect
  · exact .close

theorem ensureConnectedStep_move {k : Caller} {pc : Connecting}
    (h : ensureConnectedStep cfg s k pc a = some (s', g', new)) :
    Move cfg s (.ensureConnected k pc) a s' g' new := by
  unfold ensureConnectedStep at h
  split at h
  · split at h
    · cases h
      exact .checkClosed k ‹_›
    · split at h <;> cases h
      · rename_i hclosed hconn
        rw [Bool.and_eq_true] at hconn
        exact .checkOK k (Bool.eq_false_iff.mpr hclosed) hconn.1
      · exact .checkDown k
  · split at h <;> cases h
    exact .lockConnect k (Bool.eq_false_iff.mpr ‹_›)
  · split at h
    · cases h
      exact .recheckStop k _
    · split at h <;> cases h
      · exact .recheckStop k _
      · exact .recheckDown k (Bool.eq_false_iff.mpr ‹_›) (Bool.eq_false_iff.mpr ‹_›)
  · cases h
    exact .dialFailed k _
  · cases h
    split
    · exact .dialNoHeader k ‹_›
    · exact .dialHeader k ‹_›
  · split at h
    · split at h <;> cases h
      · exact .headerFailed k _ _ _ ‹_›
      · exact .headerWritten k _ _ ‹_›
    · cases h
  · cases h
    exact .replyFailed k _ _
  · split at h
    · cases h
    · split at h <;> cases h
      · exact .replyMismatch k _ _ (not_not.mp ‹_›) ‹_›
      · rename_i hsame
        rw [not_not.mp hsame]
        exact .replyOK k _
  · split at h <;> cases h
    · exact .publishClosed k _ ‹_›
    · exact .publish k _ (Bool.eq_false_iff.mpr ‹_›)
  · cases h
    exact .spawn k _ _
  · cases h
    exact .closeDialled k _ _
  · cases h
    exact .unlockConnect k _
  · cases h

theorem asyncUnaryCallStep_move {pc : Calling}
    (h : asyncUnaryCallStep s pc a = some (s', g', new)) :
    Move cfg s (.asyncUnaryCall pc) a s' g' new := by
  unfold asyncUnaryCallStep at h
  split at h
  · split at h
    · cases h
      exact .registerClosed _ _ _ ‹_›
    · split at h <;> cases h
      · exact .register _ _ _ _ (Bool.eq_false_iff.mpr ‹_›) ‹_› ‹_›
      · exact .registerDown _ _ _ (Bool.eq_false_iff.mpr ‹_›)
  · split at h <;> cases h
    · exact .callBackNil _ _ ‹_›
    · exact .callBack _ _ (Bool.eq_false_iff.mpr ‹_›)
  · split at h <;> cases h
    exact .lockWrite _ _ _ _ (Bool.eq_false_iff.mpr ‹_›)
  · rename_i n err
    split at h <;> cases h
    cases err with
    | some e => exact .wroteHeaderFailed _ _ _ _ _ _ ‹_›
    | none =>
        simp only [afterWrite]
        split
        · exact .wroteHeader _ _ _ _ _ ‹_› ‹_›
        · rename_i hempty
          exact .wroteEmpty _ _ _ _ _ ‹_› (List.length_eq_zero_iff.mp (by omega))
  · rename_i n err
    split at h <;> cases h
    cases err with
    | some e => exact .wrotePayload _ _ _ _ _ _ ‹_›
    | none => exact .wrotePayload _ _ _ _ _ _ ‹_›
  · cases h
    exact .unlockWrite _ _
  · cases h
    exact .unlockWriteFailed _ _ _
  · cases h

theorem readLoopStep_move {conn : Nat} {gen : UInt64} {pc : Reading}
    (h : readLoopStep cfg s conn gen pc a = some (s', g', new)) :
    Move cfg s (.readLoop conn gen pc) a s' g' new := by
  unfold readLoopStep at h
  split at h
  · cases h
    exact .readFailed _ _ _
  · cases h
    exact .read _ _ _ _
  · split at h
    · split at h <;> cases h
      · exact .push _ _ _ _ ‹_› ‹_›
      · exact .skip _ _ _ _
    · split at h
      · split at h
        · cases h
          exact .skip _ _ _ _
        · split at h <;> cases h
          · exact .skip _ _ _ _
          · exact .take _ _ _ _ _ ‹_› ‹_› (Bool.eq_false_iff.mpr ‹_›)
      · cases h
        exact .badType _ _ _ _ ‹_› ‹_›
  · cases h
    exact .complete _ _ _ _ _
  · cases h

theorem teardownStep_move {origin : Origin} {gen : UInt64} {st : Status} {pc : Draining}
    (h : teardownStep s origin gen st pc a = some (s', g', new)) :
    Move cfg s (.teardown origin gen st pc) a s' g' new := by
  unfold teardownStep at h
  split at h
  · split at h <;> cases h
    · exact .teardownStale _ _ _ ‹_›
    · rename_i hgen
      rw [not_not.mp hgen]
      exact .teardown _ _
  · unfold drainStep at h
    split at h
    · cases h
      exact .teardownClose _ _ _ _ _
    · split at h
      · cases h
      · split at h <;> cases h
        · exact .teardownNil _ _ _ _ _
        · exact .teardownCall _ _ _ _ _ _ ‹_› (Bool.eq_false_iff.mpr ‹_›)
    · split at h <;> cases h
      rename_i hempty
      rw [List.isEmpty_iff.mp hempty]
      exact .teardownDone _ _ _
    · cases h

theorem closeStep_move {pc : Draining} (h : closeStep s pc a = some (s', g', new)) :
    Move cfg s (.close pc) a s' g' new := by
  unfold closeStep at h
  split at h
  · split at h <;> cases h
    · exact .closeAgain ‹_›
    · exact .closeFirst (Bool.eq_false_iff.mpr ‹_›)
  · unfold drainStep at h
    split at h
    · cases h
      exact .closeClose _ _
    · split at h
      · cases h
      · split at h <;> cases h
        · exact .closeNil _ _
        · exact .closeCall _ _ _ ‹_› (Bool.eq_false_iff.mpr ‹_›)
    · split at h <;> cases h
      rename_i hempty
      rw [List.isEmpty_iff.mp hempty]
      exact .closeDone
    · cases h

/-- Every step is one of the listed transitions, taken before any panic. -/
theorem step_move (h : step cfg s g a = some (s', g', new)) :
    s.panicked = false ∧ Move cfg s g a s' g' new := by
  unfold step at h
  split at h
  · cases h
  · refine ⟨Bool.eq_false_iff.mpr ‹_›, ?_⟩
    cases g with
    | app => exact appStep_move h
    | ensureConnected k pc => exact ensureConnectedStep_move h
    | asyncUnaryCall pc => exact asyncUnaryCallStep_move h
    | readLoop conn gen pc => exact readLoopStep_move h
    | teardown origin gen st pc => exact teardownStep_move h
    | close pc => exact closeStep_move h
    | done => cases h

theorem Move.registered_initial (h : Move cfg s g a s' g' new) :
    s.registered <+: s'.registered := by
  cases h with
  | register => exact List.prefix_append ..
  | _ => exact List.prefix_refl _

theorem Move.closedConns_initial (h : Move cfg s g a s' g' new) :
    s.closedConns <+: s'.closedConns := by
  cases h with
  | closeDialled | teardownClose | closeClose => exact List.prefix_append ..
  | _ => exact List.prefix_refl _

end Protocomm.Go.Channel
