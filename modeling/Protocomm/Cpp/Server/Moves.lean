import Protocomm.Cpp.Server.Model
import Protocomm.Misc.KeyClaims

/-!
# What a step of the C++ server can do

`Move` lists the transitions of `step`, one constructor for each branch of the
source, and `step_move` reads them off `step`.
-/

namespace Protocomm.Cpp.Server

open Misc

/-- The transitions of `step`: the state and the thread before, the action, the state and the
    thread after, and the threads it starts. -/
inductive Move (cfg : Config) (s : Shared) :
    Thread → Action → Shared → Thread → List Thread → Prop
  -- the application
  | send {k : Nat} {session : Session} (methodId : UInt32) (payload : Bytes)
      (hsession : s.made[k]? = some session) (hlisted : session.listed = true) :
      Move cfg s .app (.send k methodId payload)
        (s.setSession k (session.post (.enqueueWrite (pushHeader methodId payload) payload)))
        .app []
  | close {k : Nat} {session : Session} (hsession : s.made[k]? = some session)
      (hlisted : session.listed = true) :
      Move cfg s .app (.close k) (s.setSession k (session.post .close)) .app []
  | broadcast (methodId : UInt32) (payload : Bytes) :
      Move cfg s .app (.broadcast methodId payload) s .app
        [.broadcast (pushHeader methodId payload) payload (mapValues s.sessions)]
  | registerMethod (methodId : UInt32) :
      Move cfg s .app (.registerMethod methodId)
        { s with handlers := s.handlers.insert methodId s.registrations.length,
                 registrations := s.registrations ++ [methodId] } .app []
  | shutdown : Move cfg s .app .shutdown { s with running := false } .app []
  -- `Broadcast`
  | broadcastDone (hdr : FrameHeader) (payload : Bytes) :
      Move cfg s (.broadcast hdr payload []) .run s .done []
  | pick {k : Nat} {session : Session} (hdr : FrameHeader) (payload : Bytes) (todo : List Nat)
      (i : Nat) (hpick : todo[i]? = some k) (hsession : s.made[k]? = some session) :
      Move cfg s (.broadcast hdr payload todo) (.pick i)
        (s.setSession k (session.post (.enqueueWrite hdr payload)))
        (.broadcast hdr payload (todo.eraseIdx i)) []
  -- the strand of a session
  | enqueue {k : Nat} {session : Session} (hdr : FrameHeader) (payload : Bytes)
      (rest : List Handler) (hsession : s.made[k]? = some session)
      (hstrand : session.strand = .enqueueWrite hdr payload :: rest)
      (hactive : session.writePumpActive = true) :
      Move cfg s .io (.handle k)
        (s.setSession k { session with
          strand := rest, writeQueue := session.writeQueue ++ [(hdr, payload)] }) .io []
  | enqueueSpawn {k : Nat} {session : Session} (hdr : FrameHeader) (payload : Bytes)
      (rest : List Handler) (hsession : s.made[k]? = some session)
      (hstrand : session.strand = .enqueueWrite hdr payload :: rest)
      (hidle : session.writePumpActive = false) :
      Move cfg s .io (.handle k)
        (s.setSession k { session with
          strand := rest, writeQueue := session.writeQueue ++ [(hdr, payload)],
          writePumpActive := true }) .io [.writePump k .next]
  | closeSocket {k : Nat} {session : Session} (rest : List Handler)
      (hsession : s.made[k]? = some session) (hstrand : session.strand = .close :: rest) :
      Move cfg s .io (.handle k) (s.setSession k { session with strand := rest, closed := true })
        .io []
  -- `AcceptLoop`
  | accept :
      Move cfg s (.acceptLoop .accept) .accepted
        { s with made := s.made ++ [{ connectionId := s.nextConnectionId }],
                 nextConnectionId := s.nextConnectionId + 1 }
        (.acceptLoop (.insert s.made.length)) []
  | acceptFailed :
      Move cfg s (.acceptLoop .accept) .acceptFailed { s with captured := none } .done []
  | insert {k : Nat} {session : Session} (hsession : s.made[k]? = some session) :
      Move cfg s (.acceptLoop (.insert k)) .run
        { s.setSession k { session with listed := true } with
            sessions := s.sessions.insert session.connectionId k,
            captured := some session.connectionId }
        (.acceptLoop .accept) [.wrapped k .onConnect]
  -- `wrapped` and `Run`
  | connectNoHeader {k : Nat} {session : Session} (hsession : s.made[k]? = some session)
      (hheader : cfg.handshakeHeader = []) :
      Move cfg s (.wrapped k .onConnect) .run (s.setSession k session.accept) (.wrapped k .read) []
  | connect (k : Nat) (hheader : cfg.handshakeHeader ≠ []) :
      Move cfg s (.wrapped k .onConnect) .run s (.wrapped k .readHandshake) []
  | connectThrow (k : Nat) : Move cfg s (.wrapped k .onConnect) .threw s .done []
  | handshakeFailed (k : Nat) (e : String) :
      Move cfg s (.wrapped k .readHandshake) (.readHandshake (.error e)) s
        (.wrapped k .onDisconnect) []
  | handshakeMismatch {k : Nat} {session : Session} (received : Bytes)
      (hsession : s.made[k]? = some session) (hne : received ≠ cfg.handshakeHeader) :
      Move cfg s (.wrapped k .readHandshake) (.readHandshake (.ok received))
        (s.setSession k (session.receive received)) (.wrapped k .onDisconnect) []
  | handshakeAsk {k : Nat} {session : Session} (hsession : s.made[k]? = some session)
      (hset : cfg.onHandshake = true) :
      Move cfg s (.wrapped k .readHandshake) (.readHandshake (.ok cfg.handshakeHeader))
        (s.setSession k (session.receive cfg.handshakeHeader)) (.wrapped k .onHandshake) []
  | handshakeOK {k : Nat} {session : Session} (hsession : s.made[k]? = some session)
      (hunset : cfg.onHandshake = false) :
      Move cfg s (.wrapped k .readHandshake) (.readHandshake (.ok cfg.handshakeHeader))
        (s.setSession k (session.receive cfg.handshakeHeader).accept)
        (.wrapped k (.writeHandshake 0)) []
  | answerYes {k : Nat} {session : Session} (hsession : s.made[k]? = some session) :
      Move cfg s (.wrapped k .onHandshake) (.answer true) (s.setSession k session.approve)
        (.wrapped k (.writeHandshake 0)) []
  | answerNo (k : Nat) :
      Move cfg s (.wrapped k .onHandshake) (.answer false) s (.wrapped k .onDisconnect) []
  | answerThrow (k : Nat) : Move cfg s (.wrapped k .onHandshake) .threw s (.wrapped k .unwind) []
  | greet {k : Nat} {session : Session} (sent n : Nat) (hsession : s.made[k]? = some session)
      (hwrite : session.canWrite (cfg.handshakeHeader.length - sent) n = true)
      (hleft : sent + n ≠ cfg.handshakeHeader.length) :
      Move cfg s (.wrapped k (.writeHandshake sent)) (.wrote n)
        (s.setSession k (session.greet cfg.handshakeHeader sent n))
        (.wrapped k (.writeHandshake (sent + n))) []
  | reply {k : Nat} {session : Session} (sent n : Nat) (hsession : s.made[k]? = some session)
      (hwrite : session.canWrite (cfg.handshakeHeader.length - sent) n = true)
      (hend : sent + n = cfg.handshakeHeader.length) :
      Move cfg s (.wrapped k (.writeHandshake sent)) (.wrote n)
        (s.setSession k { session.greet cfg.handshakeHeader sent n with
          out := (session.greet cfg.handshakeHeader sent n).out.reply }) (.wrapped k .read) []
  | replyFailed {k : Nat} {session : Session} (sent : Nat)
      (hsession : s.made[k]? = some session) :
      Move cfg s (.wrapped k (.writeHandshake sent)) .writeFailed (s.setSession k session.fail)
        (.wrapped k .onDisconnect) []
  | readFailed (k : Nat) (e : String) :
      Move cfg s (.wrapped k .read) (.readFrame (.error e)) s (.wrapped k .onDisconnect) []
  | readOther {k : Nat} {session : Session} (hdr : FrameHeader) (payload : Bytes)
      (hsession : s.made[k]? = some session) (htype : hdr.type ≠ FrameRequest) :
      Move cfg s (.wrapped k .read) (.readFrame (.ok (hdr, payload)))
        (s.setSession k { session with reads := session.reads ++ [(hdr, payload)] })
        (.wrapped k .onDisconnect) []
  | read {k : Nat} {session : Session} (hdr : FrameHeader) (payload : Bytes)
      (hsession : s.made[k]? = some session) (htype : hdr.type = FrameRequest) :
      Move cfg s (.wrapped k .read) (.readFrame (.ok (hdr, payload)))
        (s.setSession k { session with reads := session.reads ++ [(hdr, payload)] })
        (.wrapped k (.lookup hdr payload)) []
  | readThrow (k : Nat) : Move cfg s (.wrapped k .read) .threw s (.wrapped k .unwind) []
  | miss (k : Nat) (hdr : FrameHeader) (payload : Bytes)
      (hlookup : s.handlers.lookup hdr.methodID = none) :
      Move cfg s (.wrapped k (.lookup hdr payload)) .run
        { s with misses := s.misses ++ [⟨k, hdr.callID, hdr.methodID⟩] }
        (.wrapped k (.respond (responseHeader hdr StatusCode.Unimplemented []) [])) []
  | call (k : Nat) (hdr : FrameHeader) (payload : Bytes) (handler : Nat)
      (hlookup : s.handlers.lookup hdr.methodID = some handler) :
      Move cfg s (.wrapped k (.lookup hdr payload)) .run
        { s with runs := s.runs ++ [⟨k, hdr.callID, hdr.methodID, handler, payload, none⟩] }
        (.wrapped k (.running hdr s.runs.length)) []
  | returned (k : Nat) (hdr : FrameHeader) (run : Nat) (response : Bytes) (st : Status) :
      Move cfg s (.wrapped k (.running hdr run)) (.returned response st)
        (s.setResult run (response, st))
        (.wrapped k (.respond
          (responseHeader hdr (respond response st).1 (respond response st).2)
          (respond response st).2)) []
  | callThrow (k : Nat) (hdr : FrameHeader) (run : Nat) :
      Move cfg s (.wrapped k (.running hdr run)) .threw s (.wrapped k .unwind) []
  | traceThrow (k : Nat) (hdr : FrameHeader) (payload : Bytes) (hset : cfg.interceptor = true) :
      Move cfg s (.wrapped k (.respond hdr payload)) .threw s (.wrapped k .unwind) []
  | respond {k : Nat} {session : Session} (hdr : FrameHeader) (payload : Bytes)
      (hsession : s.made[k]? = some session) :
      Move cfg s (.wrapped k (.respond hdr payload)) .run
        (s.setSession k (session.post (.enqueueWrite hdr payload))) (.wrapped k .read) []
  | onDisconnect (k : Nat) : Move cfg s (.wrapped k .onDisconnect) .run s (.wrapped k .erase) []
  | erase (k : Nat) {id : UInt64} {a : Action} (hread : s.readConnId a = some id) :
      Move cfg s (.wrapped k .erase) a { s with sessions := s.sessions.erase id } .done []
  | unwind (k : Nat) : Move cfg s (.wrapped k .unwind) .run s .done []
  -- `WritePump`
  | pumpEnd {k : Nat} {session : Session} (hsession : s.made[k]? = some session)
      (hqueue : session.writeQueue = []) :
      Move cfg s (.writePump k .next) .run
        (s.setSession k { session with writePumpActive := false }) .done []
  | pumpNext {k : Nat} {session : Session} (hdr : FrameHeader) (payload : Bytes)
      (rest : List (FrameHeader × Bytes)) (hsession : s.made[k]? = some session)
      (hqueue : session.writeQueue = (hdr, payload) :: rest) :
      Move cfg s (.writePump k .next) .run (s.setSession k { session with writeQueue := rest })
        (.writePump k (.writing hdr payload 0)) []
  | pumpWrote {k : Nat} {session : Session} (hdr : FrameHeader) (payload : Bytes) (sent n : Nat)
      (hsession : s.made[k]? = some session)
      (hwrite : session.canWrite ((writeFrame hdr payload).length - sent) n = true)
      (hleft : sent + n ≠ (writeFrame hdr payload).length) :
      Move cfg s (.writePump k (.writing hdr payload sent)) (.wrote n)
        (s.setSession k (session.sendFrame hdr payload sent n))
        (.writePump k (.writing hdr payload (sent + n))) []
  | pumpWritten {k : Nat} {session : Session} (hdr : FrameHeader) (payload : Bytes)
      (sent n : Nat) (hsession : s.made[k]? = some session)
      (hwrite : session.canWrite ((writeFrame hdr payload).length - sent) n = true)
      (hend : sent + n = (writeFrame hdr payload).length) :
      Move cfg s (.writePump k (.writing hdr payload sent)) (.wrote n)
        (s.setSession k (session.sendFrame hdr payload sent n)) (.writePump k .next) []
  | pumpFailed {k : Nat} {session : Session} (hdr : FrameHeader) (payload : Bytes) (sent : Nat)
      (hsession : s.made[k]? = some session) :
      Move cfg s (.writePump k (.writing hdr payload sent)) .writeFailed
        (s.setSession k session.fail) (.writePump k .clear) []
  | pumpClear {k : Nat} {session : Session} (hsession : s.made[k]? = some session) :
      Move cfg s (.writePump k .clear) .run
        (s.setSession k { session with writeQueue := [], writePumpActive := false }) .done []

variable {cfg : Config} {s s' : Shared} {t t' : Thread} {a : Action} {new : List Thread}

theorem appStep_move (h : appStep s a = some (s', t', new)) : Move cfg s .app a s' t' new := by
  unfold appStep at h
  split at h
  · split at h
    · cases h
    · split at h <;> cases h
      exact .send _ _ ‹_› ‹_›
  · split at h
    · cases h
    · split at h <;> cases h
      exact .close ‹_› ‹_›
  · cases h
    exact .broadcast _ _
  · cases h
    exact .registerMethod _
  · cases h
    exact .shutdown
  · cases h

theorem ioStep_move (h : ioStep s a = some (s', t', new)) : Move cfg s .io a s' t' new := by
  unfold ioStep at h
  split at h
  · split at h
    · cases h
    · rename_i session hsession
      split at h
      · cases h
      · rename_i handler rest hstrand
        cases handler with
        | close =>
            cases h
            exact @Move.closeSocket cfg s _ session rest hsession hstrand
        | enqueueWrite hdr payload =>
            simp only [Session.handle] at h
            split at h <;> cases h
            · exact .enqueue hdr payload rest hsession hstrand ‹_›
            · exact .enqueueSpawn hdr payload rest hsession hstrand (Bool.eq_false_iff.mpr ‹_›)
  · cases h

theorem acceptLoopStep_move {pc : Accepting} (h : acceptLoopStep s pc a = some (s', t', new)) :
    Move cfg s (.acceptLoop pc) a s' t' new := by
  unfold acceptLoopStep at h
  split at h
  · cases h
    exact .accept
  · cases h
    exact .acceptFailed
  · split at h <;> cases h
    exact .insert ‹_›
  · cases h

theorem wrappedStep_move {k : Nat} {session : Session} {pc : Running}
    (hsession : s.made[k]? = some session)
    (h : wrappedStep cfg s k session pc a = some (s', t', new)) :
    Move cfg s (.wrapped k pc) a s' t' new := by
  unfold wrappedStep at h
  split at h
  · split at h <;> cases h
    · exact .connectNoHeader hsession ‹_›
    · exact .connect k ‹_›
  · cases h
    exact .connectThrow k
  · cases h
    exact .handshakeFailed k _
  · split at h
    · cases h
    · split at h
      · cases h
        exact .handshakeMismatch _ hsession ‹_›
      · rename_i hsame
        rw [not_not.mp hsame] at h ⊢
        split at h <;> cases h
        · exact .handshakeAsk hsession ‹_›
        · exact .handshakeOK hsession (Bool.eq_false_iff.mpr ‹_›)
  · split at h <;> cases h
    · rename_i haccept
      rw [haccept]
      exact .answerYes hsession
    · rename_i hreject
      rw [Bool.eq_false_iff.mpr hreject]
      exact .answerNo k
  · cases h
    exact .answerThrow k
  · split at h
    · split at h <;> cases h
      · exact .reply _ _ hsession ‹_› ‹_›
      · exact .greet _ _ hsession ‹_› ‹_›
    · cases h
  · cases h
    exact .replyFailed _ hsession
  · cases h
    exact .readFailed k _
  · split at h <;> cases h
    split
    · exact .readOther _ _ hsession ‹_›
    · exact .read _ _ hsession (not_not.mp ‹_›)
  · cases h
    exact .readThrow k
  · split at h <;> cases h
    · exact .miss k _ _ ‹_›
    · exact .call k _ _ _ ‹_›
  · cases h
    exact .returned k _ _ _ _
  · cases h
    exact .callThrow k _ _
  · split at h <;> cases h
    exact .traceThrow k _ _ ‹_›
  · cases h
    exact .respond _ _ hsession
  · cases h
    exact .onDisconnect k
  · split at h <;> cases h
    exact .erase k ‹_›
  · cases h
    exact .unwind k
  · cases h

theorem writePumpStep_move {k : Nat} {session : Session} {pc : Pumping}
    (hsession : s.made[k]? = some session)
    (h : writePumpStep s k session pc a = some (s', t', new)) :
    Move cfg s (.writePump k pc) a s' t' new := by
  unfold writePumpStep at h
  split at h
  · unfold Server.pumpNext at h
    split at h <;> cases h
    · exact .pumpEnd hsession ‹_›
    · exact .pumpNext _ _ _ hsession ‹_›
  · split at h <;> cases h
    split
    · exact .pumpWritten _ _ _ _ hsession ‹_› ‹_›
    · exact .pumpWrote _ _ _ _ hsession ‹_› ‹_›
  · cases h
    exact .pumpFailed _ _ _ hsession
  · cases h
    exact .pumpClear hsession
  · cases h

theorem broadcastStep_move {hdr : FrameHeader} {payload : Bytes} {todo : List Nat}
    (h : broadcastStep s hdr payload todo a = some (s', t', new)) :
    Move cfg s (.broadcast hdr payload todo) a s' t' new := by
  unfold broadcastStep at h
  split at h
  · split at h <;> cases h
    rename_i hempty
    rw [hempty]
    exact .broadcastDone hdr payload
  · split at h
    · cases h
    · split at h <;> cases h
      exact .pick hdr payload todo _ ‹_› ‹_›
  · cases h

/-- Every step is one of the listed transitions, taken while the `io_context` runs if
    the thread waits for it. -/
theorem step_move (h : step cfg s t a = some (s', t', new)) :
    (t.suspended = true → s.running = true) ∧ Move cfg s t a s' t' new := by
  unfold step at h
  split at h
  · cases h
  · rename_i hruns
    refine ⟨fun hsuspended => by simpa [hsuspended] using hruns, ?_⟩
    cases t with
    | app => exact appStep_move h
    | io => exact ioStep_move h
    | acceptLoop pc => exact acceptLoopStep_move h
    | wrapped k pc =>
        simp only at h
        split at h
        · cases h
        · exact wrappedStep_move ‹_› h
    | writePump k pc =>
        simp only at h
        split at h
        · cases h
        · exact writePumpStep_move ‹_› h
    | broadcast hdr payload todo => exact broadcastStep_move h
    | done => cases h

/-- In every reachable state `handlers` has the latest registration of each method. -/
theorem reachable_filed {p : Pool Shared Thread} (h : (machine cfg).Reachable initial p) :
    Filed p.shared.handlers p.shared.registrations := by
  refine Program.reachable_shared (I := fun s => Filed s.handlers s.registrations) filed_empty ?_ h
  intro u _ s' t t' new a _ hfiled hstep
  cases (step_move hstep).2 with
  | registerMethod methodId => exact hfiled.insert methodId
  | _ => exact hfiled

end Protocomm.Cpp.Server
