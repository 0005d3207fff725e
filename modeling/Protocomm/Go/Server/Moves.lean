import Protocomm.Go.Server.Model
import Protocomm.Misc.KeyClaims

/-!
# What a step of the Go server can do

`Move` lists the transitions of `step`, one constructor for each branch of the
source, and `step_move` reads them off `step`.
-/

namespace Protocomm.Go.Server

open Misc

/-- The steps of `WriteFrame` under `writeMu`. -/
inductive WriteMove (peer : Peer) (hdr : FrameHeader) (payload : Bytes) :
    Writing → Action → Peer → Writing → Prop
  | lock (hfree : peer.writeMu = false) :
      WriteMove peer hdr payload .lock .run { peer with writeMu := true } .header
  | header (n : Nat) (hwrite : peer.canWrite FrameHeaderSize n none = true)
      (hpayload : payload ≠ []) :
      WriteMove peer hdr payload .header (.wrote n none)
        (peer.wrote (peer.out.start (hdr, payload) ((serialize hdr).toList.take n)) none) .payload
  | headerEnd (n : Nat) (err : Option String)
      (hwrite : peer.canWrite FrameHeaderSize n err = true)
      (hend : err = none → payload = []) :
      WriteMove peer hdr payload .header (.wrote n err)
        (peer.wrote (peer.out.start (hdr, payload) ((serialize hdr).toList.take n)) err)
        (.unlock err)
  | payload (n : Nat) (err : Option String) (hwrite : peer.canWrite payload.length n err = true) :
      WriteMove peer hdr payload .payload (.wrote n err)
        (peer.wrote (peer.out.more (payload.take n)) err) (.unlock err)

/-- The transitions of `step`: the state and the goroutine before, the action, the state and the
    goroutine after, and the goroutines it starts. -/
inductive Move (cfg : Config) (s : Shared) :
    Goroutine → Action → Shared → Goroutine → List Goroutine → Prop
  -- the application
  | send {k : Nat} {peer : Peer} (methodID : UInt32) (payload : Bytes)
      (hpeer : s.peers[k]? = some peer) :
      Move cfg s .app (.send k methodID payload) s .app
        [.push (pushHeader methodID payload) payload [] (some (k, .lock))]
  | broadcast (methodID : UInt32) (payload : Bytes) :
      Move cfg s .app (.broadcast methodID payload) s .app
        [.push (pushHeader methodID payload) payload (mapValues s.sessions) none]
  | closePeer {k : Nat} {peer : Peer} (hpeer : s.peers[k]? = some peer)
      (hlisted : peer.listed = true) :
      Move cfg s .app (.closePeer k) (s.setPeer k peer.close) .app []
  | registerMethod (methodID : UInt32) :
      Move cfg s .app (.registerMethod methodID)
        { s with handlers := s.handlers.insert methodID s.registrations.length,
                 registrations := s.registrations ++ [methodID] } .app []
  | callShutdown : Move cfg s .app .shutdown s .app [.shutdown .check]
  -- `acceptLoop`
  | accept :
      Move cfg s (.acceptLoop .accept) .accepted
        { s with peers := s.peers ++ [{ id := s.nextConnID }], nextConnID := s.nextConnID + 1 }
        (.acceptLoop (.insert s.peers.length)) []
  | acceptDone (hdone : s.done = true) :
      Move cfg s (.acceptLoop .accept) .acceptFailed { s with wg := s.wg - 1 } .done []
  | acceptRetry :
      Move cfg s (.acceptLoop .accept) .acceptFailed s (.acceptLoop .accept) []
  | insert {k : Nat} {peer : Peer} (hpeer : s.peers[k]? = some peer) :
      Move cfg s (.acceptLoop (.insert k)) .run
        { s.setPeer k { peer with listed := true } with
            sessions := s.sessions.insert peer.id k } (.acceptLoop (.spawn k)) []
  | spawn (k : Nat) :
      Move cfg s (.acceptLoop (.spawn k)) .run { s with wg := s.wg + 1 } (.acceptLoop .accept)
        [.handleConn k .onConnect]
  -- `handleConn`
  | connectNoHeader {k : Nat} {peer : Peer} (hpeer : s.peers[k]? = some peer)
      (hheader : cfg.handshakeHeader = []) :
      Move cfg s (.handleConn k .onConnect) .run ((s.log (.onConnect k)).setPeer k peer.accept)
        (.handleConn k .read) []
  | connect (k : Nat) (hheader : cfg.handshakeHeader ≠ []) :
      Move cfg s (.handleConn k .onConnect) .run (s.log (.onConnect k))
        (.handleConn k .readHandshake) []
  | handshakeFailed (k : Nat) (e : String) :
      Move cfg s (.handleConn k .readHandshake) (.readFull (.error e)) s (.handleConn k .wait) []
  | handshakeMismatch {k : Nat} {peer : Peer} (received : Bytes)
      (hpeer : s.peers[k]? = some peer) (hne : received ≠ cfg.handshakeHeader) :
      Move cfg s (.handleConn k .readHandshake) (.readFull (.ok received))
        (s.setPeer k (peer.receive received)) (.handleConn k .wait) []
  | handshakeAsk {k : Nat} {peer : Peer} (hpeer : s.peers[k]? = some peer)
      (hset : cfg.onHandshake = true) :
      Move cfg s (.handleConn k .readHandshake) (.readFull (.ok cfg.handshakeHeader))
        (s.setPeer k (peer.receive cfg.handshakeHeader)) (.handleConn k .onHandshake) []
  | handshakeOK {k : Nat} {peer : Peer} (hpeer : s.peers[k]? = some peer)
      (hunset : cfg.onHandshake = false) :
      Move cfg s (.handleConn k .readHandshake) (.readFull (.ok cfg.handshakeHeader))
        (s.setPeer k (peer.receive cfg.handshakeHeader).accept)
        (.handleConn k .writeHandshake) []
  | answerYes {k : Nat} {peer : Peer} (hpeer : s.peers[k]? = some peer) :
      Move cfg s (.handleConn k .onHandshake) (.answer true) (s.setPeer k peer.approve)
        (.handleConn k .writeHandshake) []
  | answerNo (k : Nat) :
      Move cfg s (.handleConn k .onHandshake) (.answer false) s (.handleConn k .wait) []
  | reply {k : Nat} {peer : Peer} (n : Nat) (hpeer : s.peers[k]? = some peer)
      (hwrite : peer.canWrite cfg.handshakeHeader.length n none = true) :
      Move cfg s (.handleConn k .writeHandshake) (.wrote n none)
        (s.setPeer k (peer.wrote (peer.out.greet (cfg.handshakeHeader.take n)).reply none))
        (.handleConn k .read) []
  | replyFailed {k : Nat} {peer : Peer} (n : Nat) (e : String) (hpeer : s.peers[k]? = some peer)
      (hwrite : peer.canWrite cfg.handshakeHeader.length n (some e) = true) :
      Move cfg s (.handleConn k .writeHandshake) (.wrote n (some e))
        (s.setPeer k (peer.wrote (peer.out.greet (cfg.handshakeHeader.take n)) (some e)))
        (.handleConn k .wait) []
  | readFailed (k : Nat) (e : String) :
      Move cfg s (.handleConn k .read) (.readFrame (.error e)) s (.handleConn k .wait) []
  | readOther {k : Nat} {peer : Peer} (hdr : FrameHeader) (payload : Bytes)
      (hpeer : s.peers[k]? = some peer) (htype : hdr.type ≠ FrameRequest) :
      Move cfg s (.handleConn k .read) (.readFrame (.ok (hdr, payload)))
        (s.setPeer k { peer with reads := peer.reads ++ [(hdr, payload)] })
        (.handleConn k .wait) []
  | read {k : Nat} {peer : Peer} (hdr : FrameHeader) (payload : Bytes)
      (hpeer : s.peers[k]? = some peer) (htype : hdr.type = FrameRequest) :
      Move cfg s (.handleConn k .read) (.readFrame (.ok (hdr, payload)))
        (s.setPeer k { peer with reads := peer.reads ++ [(hdr, payload)] })
        (.handleConn k (.acquire hdr payload)) []
  | acquire (k : Nat) (hdr : FrameHeader) (payload : Bytes) (sem : Nat)
      (hsem : ∀ cap, cfg.sem = some cap → s.sem < cap ∧ sem = s.sem + 1) :
      Move cfg s (.handleConn k (.acquire hdr payload)) .run { s with sem := sem }
        (.handleConn k (.spawn hdr payload)) []
  | acquireQuit (k : Nat) (hdr : FrameHeader) (payload : Bytes) (hdone : s.done = true) :
      Move cfg s (.handleConn k (.acquire hdr payload)) .quit s (.handleConn k .wait) []
  | spawnRequest {k : Nat} {peer : Peer} (hdr : FrameHeader) (payload : Bytes)
      (hpeer : s.peers[k]? = some peer) :
      Move cfg s (.handleConn k (.spawn hdr payload)) .run
        (s.setPeer k { peer with inflight := peer.inflight + 1 }) (.handleConn k .read)
        [.request k hdr payload .lookup]
  | wait {k : Nat} {peer : Peer} (hpeer : s.peers[k]? = some peer) (hnone : peer.inflight = 0) :
      Move cfg s (.handleConn k .wait) .run s (.handleConn k .onDisconnect) []
  | onDisconnect (k : Nat) :
      Move cfg s (.handleConn k .onDisconnect) .run (s.log (.onDisconnect k))
        (.handleConn k .delete) []
  | delete {k : Nat} {peer : Peer} (hpeer : s.peers[k]? = some peer) :
      Move cfg s (.handleConn k .delete) .run { s with sessions := s.sessions.erase peer.id }
        (.handleConn k .close) []
  | close {k : Nat} {peer : Peer} (hpeer : s.peers[k]? = some peer) :
      Move cfg s (.handleConn k .close) .run (s.setPeer k peer.close)
        (.handleConn k .wgDone) []
  | wgDone (k : Nat) :
      Move cfg s (.handleConn k .wgDone) .run { s with wg := s.wg - 1 } .done []
  -- the goroutine of a request
  | lookup (k : Nat) (hdr : FrameHeader) (payload : Bytes) (handler : Nat)
      (hlookup : s.handlers.lookup hdr.methodID = some handler) :
      Move cfg s (.request k hdr payload .lookup) .run s (.request k hdr payload (.call handler)) []
  | miss (k : Nat) (hdr : FrameHeader) (payload : Bytes)
      (hlookup : s.handlers.lookup hdr.methodID = none) :
      Move cfg s (.request k hdr payload .lookup) .run
        { s with misses := s.misses ++ [⟨k, hdr.callID, hdr.methodID⟩] }
        (.request k hdr payload
          (.write (responseHeader hdr StatusCode.Unimplemented []) [] .lock)) []
  | call (k : Nat) (hdr : FrameHeader) (payload : Bytes) (handler : Nat) :
      Move cfg s (.request k hdr payload (.call handler)) .run
        { s.log (.started k) with
            runs := s.runs ++ [⟨k, hdr.callID, hdr.methodID, handler, payload, none⟩] }
        (.request k hdr payload (.running s.runs.length)) []
  | returned (k : Nat) (hdr : FrameHeader) (payload : Bytes) (run : Nat) (response : Bytes)
      (st : Status) :
      Move cfg s (.request k hdr payload (.running run)) (.returned response st)
        ((s.log (.finished k)).setResult run (response, st))
        (.request k hdr payload
          (.write (responseHeader hdr (respond response st).1 (respond response st).2)
            (respond response st).2 .lock)) []
  | requestWrite {k : Nat} {peer peer' : Peer} {a : Action} {pc pc' : Writing} (hdr : FrameHeader)
      (payload : Bytes) (rhdr : FrameHeader) (rpayload : Bytes) (hpeer : s.peers[k]? = some peer)
      (hwrite : WriteMove peer rhdr rpayload pc a peer' pc') :
      Move cfg s (.request k hdr payload (.write rhdr rpayload pc)) a (s.setPeer k peer')
        (.request k hdr payload (.write rhdr rpayload pc')) []
  | requestUnlock {k : Nat} {peer : Peer} (hdr : FrameHeader) (payload : Bytes)
      (rhdr : FrameHeader) (rpayload : Bytes) (err : Option String) (pc : Serving)
      (hpeer : s.peers[k]? = some peer) (hpc : pc = .close ∨ pc = .release)
      (hclose : pc = .close → err.isSome = true) :
      Move cfg s (.request k hdr payload (.write rhdr rpayload (.unlock err))) .run
        ((s.log (.attempted k)).setPeer k { peer with writeMu := false })
        (.request k hdr payload pc) []
  | closeConn {k : Nat} {peer : Peer} (hdr : FrameHeader) (payload : Bytes)
      (hpeer : s.peers[k]? = some peer) :
      Move cfg s (.request k hdr payload .close) .run (s.setPeer k peer.close)
        (.request k hdr payload .release) []
  | release (k : Nat) (hdr : FrameHeader) (payload : Bytes) (sem : Nat)
      (hsem : ∀ cap, cfg.sem = some cap → sem = s.sem - 1) :
      Move cfg s (.request k hdr payload .release) .run { s with sem := sem }
        (.request k hdr payload .inflightDone) []
  | inflightDone {k : Nat} {peer : Peer} (hdr : FrameHeader) (payload : Bytes)
      (hpeer : s.peers[k]? = some peer) :
      Move cfg s (.request k hdr payload .inflightDone) .run
        (s.setPeer k { peer with inflight := peer.inflight - 1 }) .done []
  -- `Send` and `Broadcast`
  | pushDone (hdr : FrameHeader) (payload : Bytes) :
      Move cfg s (.push hdr payload [] none) .run s .done []
  | pick (hdr : FrameHeader) (payload : Bytes) (todo : List Nat) (i k : Nat)
      (hpick : todo[i]? = some k) :
      Move cfg s (.push hdr payload todo none) (.pick i) s
        (.push hdr payload (todo.eraseIdx i) (some (k, .lock))) []
  | pushWrite {k : Nat} {peer peer' : Peer} {a : Action} {pc pc' : Writing} (hdr : FrameHeader)
      (payload : Bytes) (todo : List Nat) (hpeer : s.peers[k]? = some peer)
      (hwrite : WriteMove peer hdr payload pc a peer' pc') :
      Move cfg s (.push hdr payload todo (some (k, pc))) a (s.setPeer k peer')
        (.push hdr payload todo (some (k, pc'))) []
  | pushUnlock {k : Nat} {peer : Peer} (hdr : FrameHeader) (payload : Bytes) (todo : List Nat)
      (err : Option String) (hpeer : s.peers[k]? = some peer) :
      Move cfg s (.push hdr payload todo (some (k, .unlock err))) .run
        (s.setPeer k { peer with writeMu := false }) (.push hdr payload todo none) []
  -- `Shutdown`
  | shutdownAgain (hdone : s.done = true) : Move cfg s (.shutdown .check) .run s .done []
  | shutdownFirst (hopen : s.done = false) :
      Move cfg s (.shutdown .check) .run { s with done := true } (.shutdown .closeListener) []
  | closeListener :
      Move cfg s (.shutdown .closeListener) .run { s with listenerClosed := true }
        (.shutdown .sweep) []
  | sweep : Move cfg s (.shutdown .sweep) .run s.sweep (.shutdown .wait) []
  | shutdownDone (hnone : s.wg = 0) : Move cfg s (.shutdown .wait) .run s .done []

variable {cfg : Config} {s s' : Shared} {g g' : Goroutine} {a : Action} {new : List Goroutine}

theorem appStep_move (h : appStep s a = some (s', g', new)) : Move cfg s .app a s' g' new := by
  unfold appStep at h
  split at h
  · split at h
    · cases h
    · split at h <;> cases h
      exact .send _ _ ‹_›
  · cases h
    exact .broadcast _ _
  · split at h
    · cases h
    · split at h <;> cases h
      exact .closePeer ‹_› ‹_›
  · cases h
    exact .registerMethod _
  · cases h
    exact .callShutdown
  · cases h

theorem acceptLoopStep_move {pc : Accepting} (h : acceptLoopStep s pc a = some (s', g', new)) :
    Move cfg s (.acceptLoop pc) a s' g' new := by
  unfold acceptLoopStep at h
  split at h
  · split at h <;> cases h
    exact .accept
  · split at h <;> cases h
    · exact .acceptDone ‹_›
    · exact .acceptRetry
  · split at h <;> cases h
    exact .insert ‹_›
  · cases h
    exact .spawn _
  · cases h

theorem handleConnStep_move {k : Nat} {peer : Peer} {pc : Handling}
    (hpeer : s.peers[k]? = some peer)
    (h : handleConnStep cfg s k peer pc a = some (s', g', new)) :
    Move cfg s (.handleConn k pc) a s' g' new := by
  unfold handleConnStep at h
  split at h
  · split at h <;> cases h
    · exact .connectNoHeader hpeer ‹_›
    · exact .connect k ‹_›
  · cases h
    exact .handshakeFailed k _
  · split at h
    · cases h
    · split at h
      · cases h
        exact .handshakeMismatch _ hpeer ‹_›
      · rename_i hsame
        rw [not_not.mp hsame] at h ⊢
        split at h <;> cases h
        · exact .handshakeAsk hpeer ‹_›
        · exact .handshakeOK hpeer (Bool.eq_false_iff.mpr ‹_›)
  · split at h <;> cases h
    · rename_i haccept
      rw [haccept]
      exact .answerYes hpeer
    · rename_i hreject
      rw [Bool.eq_false_iff.mpr hreject]
      exact .answerNo k
  · split at h
    · split at h <;> cases h
      · exact .reply _ hpeer ‹_›
      · exact .replyFailed _ _ hpeer ‹_›
    · cases h
  · cases h
    exact .readFailed k _
  · split at h <;> cases h
    split
    · exact .readOther _ _ hpeer ‹_›
    · exact .read _ _ hpeer (not_not.mp ‹_›)
  · split at h
    · rename_i hnone
      cases h
      exact .acquire k _ _ s.sem fun cap hcap => nomatch hnone.symm.trans hcap
    · rename_i cap hcap
      split at h <;> cases h
      refine .acquire k _ _ (s.sem + 1) fun cap' hcap' => ?_
      cases hcap.symm.trans hcap'
      exact ⟨‹_›, rfl⟩
  · split at h <;> cases h
    rename_i hquit
    exact .acquireQuit k _ _ (Bool.and_eq_true_iff.mp hquit).2
  · cases h
    exact .spawnRequest _ _ hpeer
  · split at h <;> cases h
    exact .wait hpeer ‹_›
  · cases h
    exact .onDisconnect k
  · cases h
    exact .delete hpeer
  · cases h
    exact .close hpeer
  · cases h
    exact .wgDone k
  · cases h

theorem writeStep_move {peer peer' : Peer} {hdr : FrameHeader} {payload : Bytes} {pc pc' : Writing}
    (h : writeStep peer hdr payload pc a = some (peer', pc')) :
    WriteMove peer hdr payload pc a peer' pc' := by
  unfold writeStep at h
  split at h
  · split at h <;> cases h
    exact .lock (Bool.eq_false_iff.mpr ‹_›)
  · rename_i n err
    split at h <;> cases h
    cases err with
    | some e => exact .headerEnd n (some e) ‹_› nofun
    | none =>
        simp only [Writing.next]
        split
        · exact .header n ‹_› (List.length_pos_iff.mp ‹_›)
        · rename_i hempty
          exact .headerEnd n none ‹_› fun _ => List.length_eq_zero_iff.mp (by omega)
  · rename_i n err
    split at h <;> cases h
    exact .payload n err ‹_›
  · cases h

theorem requestStep_move {k : Nat} {peer : Peer} {hdr : FrameHeader} {payload : Bytes}
    {pc : Serving} (hpeer : s.peers[k]? = some peer)
    (h : requestStep cfg s k peer hdr payload pc a = some (s', g', new)) :
    Move cfg s (.request k hdr payload pc) a s' g' new := by
  unfold requestStep at h
  split at h
  · split at h <;> cases h
    · exact .lookup k hdr payload _ ‹_›
    · exact .miss k hdr payload ‹_›
  · cases h
    exact .call k hdr payload _
  · cases h
    exact .returned k hdr payload _ _ _
  · cases h
    split
    · exact .requestUnlock hdr payload _ _ _ _ hpeer (Or.inl rfl) fun _ => ‹_›
    · exact .requestUnlock hdr payload _ _ _ _ hpeer (Or.inr rfl) nofun
  · split at h <;> cases h
    exact .requestWrite hdr payload _ _ hpeer (writeStep_move ‹_›)
  · cases h
    exact .closeConn hdr payload hpeer
  · cases h
    exact .release k hdr payload _ fun cap hcap => by simp [hcap]
  · cases h
    exact .inflightDone hdr payload hpeer
  · cases h

theorem pushStep_move {hdr : FrameHeader} {payload : Bytes} {todo : List Nat}
    {now : Option (Nat × Writing)} (h : pushStep s hdr payload todo now a = some (s', g', new)) :
    Move cfg s (.push hdr payload todo now) a s' g' new := by
  unfold pushStep at h
  split at h
  · split at h <;> cases h
    rename_i hempty
    rw [hempty]
    exact .pushDone hdr payload
  · split at h <;> cases h
    exact .pick hdr payload todo _ _ ‹_›
  · split at h
    · cases h
    · split at h
      · cases h
        exact .pushUnlock hdr payload todo _ ‹_›
      · split at h <;> cases h
        exact .pushWrite hdr payload todo ‹_› (writeStep_move ‹_›)
  · cases h

theorem shutdownStep_move {pc : Stopping} (h : shutdownStep s pc a = some (s', g', new)) :
    Move cfg s (.shutdown pc) a s' g' new := by
  unfold shutdownStep at h
  split at h
  · split at h <;> cases h
    · exact .shutdownAgain ‹_›
    · exact .shutdownFirst (Bool.eq_false_iff.mpr ‹_›)
  · cases h
    exact .closeListener
  · cases h
    exact .sweep
  · split at h <;> cases h
    exact .shutdownDone ‹_›
  · cases h

/-- Every step is one of the listed transitions. -/
theorem step_move (h : step cfg s g a = some (s', g', new)) : Move cfg s g a s' g' new := by
  cases g with
  | app => exact appStep_move h
  | acceptLoop pc => exact acceptLoopStep_move h
  | handleConn k pc =>
      simp only [step] at h
      split at h
      · cases h
      · exact handleConnStep_move ‹_› h
  | request k hdr payload pc =>
      simp only [step] at h
      split at h
      · cases h
      · exact requestStep_move ‹_› h
  | push hdr payload todo now => exact pushStep_move h
  | shutdown pc => exact shutdownStep_move h
  | done => cases h

/-- In every reachable state `handlers` has the latest registration of each method. -/
theorem reachable_filed {p : Pool Shared Goroutine} (h : (machine cfg).Reachable initial p) :
    Filed p.shared.handlers p.shared.registrations := by
  refine Program.reachable_shared (I := fun s => Filed s.handlers s.registrations) filed_empty ?_ h
  intro u _ s' g g' new a _ hfiled hstep
  cases step_move hstep with
  | registerMethod methodID => exact hfiled.insert methodID
  | _ => exact hfiled

end Protocomm.Go.Server
