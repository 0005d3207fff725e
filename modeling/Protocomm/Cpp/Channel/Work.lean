import Protocomm.Cpp.Channel.Link
import Protocomm.FrameStream

/-!
# The work of a C++ channel

The steps that a channel can take by itself, without a call of the application, and what
they cost: every such step lowers the work left, counted with the bytes it writes, but for
the read of a frame, which keeps it.
-/

namespace Protocomm.Cpp.Channel

open Misc

/-- The step is none of the application: it neither calls a method, also not from a
    callback on the io thread, nor goes on with `RunCallbacks`. -/
def Thread.internal : Thread → Action → Bool
  | .app, _ | .runCallbacks _, _ => false
  | .io, .nestedCall _ _ _ | .io, .nestedConnect _ => false
  | _, _ => true

section

variable (header : Bytes)

def Connecting.work : Connecting → Nat
  | .spawned => header.length + 7
  | .resolve => header.length + 6
  | .connect => header.length + 5
  | .writeHandshake => 4
  | .readHandshake => 3

def Reading.work : Reading → Nat
  | .spawned => 2
  | .reading => 1

def Closing.work : Closing → Nat
  | .exchange => 7
  | .readStarted => 6
  | .post => 5
  | .resetGuard => 3
  | .closeIdle | .join => 2
  | .drain => 1
  | .returned => 0

/-- A call needs a frame as long as its request. -/
def Caller.work : Caller → Nat
  | .connect => 0
  | .call _ request _ => request.length + 20

/-- What is left to do after `RequestConnect`. -/
def Requester.work : Requester → Nat
  | .ensureConnected k _ => k.work + 1
  | .connectAsync _ => 0

def Requesting.work : Requesting → Nat
  | .checkStopped => header.length + 13
  | .ensureIoThread => header.length + 12
  | .checkStarted => header.length + 10
  | .post => header.length + 9

def Ensuring.work : Ensuring → Nat
  | .check => header.length + 16
  | .checkStopped => header.length + 15
  | .wait _ => 1

def Calling.work : Calling → Nat
  | .fail _ _ => 1
  | .post _ request _ => request.length + 20

/-- The steps to the end of a thread, with the bytes it writes. -/
def Thread.work : Thread → Nat
  | .app | .runCallbacks _ | .done => 0
  | .ensureConnected k pc => k.work + pc.work header
  | .requestConnect r pc => r.work + pc.work header
  | .asyncUnaryCall pc => pc.work
  | .shutdown pc => pc.work
  | .connectCoro pc => pc.work header
  | .readLoop pc => pc.work
  | .io | .writePump _ => 1

def Handler.work : Handler → Nat
  | .requestConnect _ => header.length + 8
  | .submit _ request _ => request.length + 19
  | .shutdown => 1

/-- What the handlers on the strand and the frames in `write_queue` cost. -/
def Shared.work (s : Shared) : Nat :=
  (s.strand.map (Handler.work header)).sum +
    (s.writeQueue.map fun f => Go.frameSize f + 1).sum

end

variable {cfg : Config} {s s' : Shared} {t t' : Thread} {a : Action} {new : List Thread}
  {header : Bytes} {l : Link}

/-- `EnsureConnected` goes on. -/
theorem resume_work (k : Caller) (st : Status) (pc : Ensuring) :
    (k.resume st).work header < (Thread.ensureConnected k pc).work header := by
  have hpos : 0 < pc.work header := by cases pc <;> simp [Ensuring.work]
  cases k with
  | connect => simpa [Thread.work, Caller.resume, Caller.work] using hpos
  | call methodId request cb =>
      simp only [Caller.resume]
      split <;> simp only [Thread.work, Calling.work, Caller.work] <;> omega

theorem Requester.resume_work (r : Requester) : r.resume.work header = r.work := by
  cases r <;> rfl

theorem work_post (x : Handler) : (s.post x).work header = s.work header + x.work header := by
  simp only [Shared.work, Shared.post, List.map_append, List.map_cons, List.map_nil,
    List.sum_append, List.sum_cons, List.sum_nil]
  omega

theorem work_cons {x : Handler} {rest : List Handler} (h : s.strand = x :: rest) :
    s.work header = x.work header + Shared.work header { s with strand := rest } := by
  simp only [Shared.work, h, List.map_cons, List.sum_cons]
  omega

theorem work_register (methodId : UInt32) (request : Bytes) (cb : Callback) :
    (s.register methodId request cb).work header = s.work header + (request.length + 17) := by
  simp only [Shared.work, Shared.register, List.map_append, List.map_cons, List.map_nil,
    List.sum_append, List.sum_cons, List.sum_nil, Go.frameSize, FrameHeaderSize]
  omega

theorem wrote_follow (l : Link) (header : Bytes) (a : Action) (t' : Thread) :
    l.wrote <+: (l.follow header a t').wrote := by
  unfold Link.follow
  split
  · exact List.prefix_append _ _
  · exact List.prefix_append _ _
  · exact List.prefix_refl _
  · exact List.prefix_refl _

theorem length_writeFrame (hdr : FrameHeader) (payload : Bytes) :
    (writeFrame hdr payload).length = Go.frameSize (hdr, payload) := by
  rw [← writeFrame_eq]
  exact Go.length_frameBytes (hdr, payload)

/-- A step of the channel reads a frame or lowers the work left. -/
theorem Move.work (h : Move cfg s t a s' t' new) (hinternal : t.internal a = true) (l : Link) :
    (s'.work cfg.handshakeHeader + (l.follow cfg.handshakeHeader a t').wrote.length +
        (t'.work cfg.handshakeHeader + (new.map (Thread.work cfg.handshakeHeader)).sum) <
      s.work cfg.handshakeHeader + l.wrote.length + t.work cfg.handshakeHeader) ∨
    (∃ hdr payload, t = .readLoop .reading ∧ a = .readFrame (.frame hdr payload) ∧
      t' = .readLoop .reading ∧ new = [] ∧
      s'.work cfg.handshakeHeader = s.work cfg.handshakeHeader) := by
  -- a step of a thread other than the io thread, which may put `x` on the strand
  have moved : ∀ {s' : Shared} {x : Nat} {t t' : Thread} {new : List Thread},
      s'.work cfg.handshakeHeader = s.work cfg.handshakeHeader + x →
      x + (t'.work cfg.handshakeHeader + (new.map (Thread.work cfg.handshakeHeader)).sum) <
        t.work cfg.handshakeHeader →
      s'.work cfg.handshakeHeader + l.wrote.length + (t'.work cfg.handshakeHeader +
          (new.map (Thread.work cfg.handshakeHeader)).sum) <
        s.work cfg.handshakeHeader + l.wrote.length + t.work cfg.handshakeHeader := by
    intro s' x t t' new hs ht
    omega
  -- the first handler of the strand runs
  have handled : ∀ {s' : Shared} {x : Nat} {handler : Handler} {rest : List Handler}
      {new : List Thread}, s.strand = handler :: rest →
      s'.work cfg.handshakeHeader = Shared.work cfg.handshakeHeader { s with strand := rest } + x →
      x + (new.map (Thread.work cfg.handshakeHeader)).sum < handler.work cfg.handshakeHeader →
      s'.work cfg.handshakeHeader + l.wrote.length + (Thread.io.work cfg.handshakeHeader +
          (new.map (Thread.work cfg.handshakeHeader)).sum) <
        s.work cfg.handshakeHeader + l.wrote.length + Thread.io.work cfg.handshakeHeader := by
    intro s' x handler rest new hstrand hs ht
    rw [work_cons hstrand]
    omega
  cases h with
  | call | connect | connectAsync | runCallbacks | destroy | runStop | runOne | nestedCall
  | nestedCallFails | nestedConnectStopped | nestedConnect => cases hinternal
  | push hdr payload | skip hdr payload | take hdr payload =>
      exact Or.inr ⟨hdr, payload, rfl, rfl, rfl, rfl, rfl⟩
  | checkOK k | ensureStopped k | waitSet k | waitBroken k =>
      left
      rw [follow_resume]
      refine moved (x := 0) rfl ?_
      simpa using resume_work k _ _
  | checkDown | ensureRequest | requestOpen | ioThreadKept | ioThreadThere | readStart =>
      left
      refine moved (x := 0) rfl ?_
      simp only [Thread.work, Ensuring.work, Requester.work, Requesting.work, Reading.work,
        List.map_nil, List.sum_nil]
      omega
  | requestStopped r | ioThreadMissing r =>
      left
      rw [follow_return]
      refine moved (x := 0) rfl ?_
      rw [r.resume_work]
      simp [Thread.work, Requesting.work]
  | shutdownAgain | exchange | readStarted | readIdle | resetGuard | join | closeIdle | drain
  | fail | exit | readFailed | readThrow | pumpDone =>
      left
      refine moved (x := 0) rfl ?_
      simp [Thread.work, Closing.work, Calling.work, Reading.work]
  | startIoThread r =>
      left
      refine moved (x := 0) rfl ?_
      simp [Thread.work, Requesting.work]
      omega
  | postRequest r =>
      left
      rw [follow_return]
      refine moved (work_post _) ?_
      rw [r.resume_work]
      simp [Thread.work, Requesting.work, Handler.work]
      omega
  | postCall | postShutdown =>
      left
      refine moved (work_post _) ?_
      simp [Thread.work, Calling.work, Closing.work, Handler.work]
  | connectRefused cb rest hstrand | connectThere cb rest hstrand | connectWait cb rest hstrand
  | submitStopped methodId request cb rest hstrand | shutdownHandler rest hstrand =>
      left
      refine handled (x := 0) hstrand rfl ?_
      simp [Handler.work]
  | connectSpawn cb rest hstrand =>
      left
      refine handled (x := 0) hstrand rfl ?_
      simp [Thread.work, Handler.work, Connecting.work]
  | submit methodId request cb rest hstrand =>
      left
      refine handled hstrand (work_register methodId request cb) ?_
      simp [Handler.work]
  | submitSpawn methodId request cb rest hstrand =>
      left
      refine handled hstrand (work_register (s := { s with strand := rest }) methodId request cb) ?_
      simp [Thread.work, Handler.work]
  | connectStep pc pc' a hnext =>
      left
      cases hnext with
      | writeHandshake =>
          simp [Link.follow, Thread.work, Connecting.work]
          omega
      | resolve | connect | readHandshake =>
          refine moved (x := 0) rfl ?_
          simp [Thread.work, Connecting.work]
  | connectFailed pc | connectClosed pc =>
      left
      refine moved (x := 0) rfl ?_
      cases pc <;> simp [Thread.work, Connecting.work]
  | connectDone pc =>
      left
      refine moved (x := 0) rfl ?_
      cases pc <;> simp [Thread.work, Connecting.work, Reading.work]
  | pumpNext pc a hdr payload rest hqueue =>
      left
      simp [Link.follow, Shared.work, hqueue, length_writeFrame, Thread.work]
      omega
  | pumpFailed hdr payload what =>
      left
      simp only [Link.follow, Shared.work, Thread.work, Shared.coReturn, failAllPending,
        List.map_nil, List.sum_nil]
      omega

end Protocomm.Cpp.Channel
