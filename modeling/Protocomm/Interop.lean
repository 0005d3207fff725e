import Mathlib.Data.List.TakeWhile
import Protocomm.ClientReaders
import Protocomm.SentFrames
import Protocomm.ServerAnswers

/-!
# Any client with any server

A client of either language has sent some calls to a server of either language. The
connection may break at any byte in each direction. Every call is completed once, with
the answer of the server's handlers or as `Unavailable`, and if nothing was lost every
call gets its answer.
-/

namespace Protocomm

open Misc

/-! ## The two ends -/

/-- A call as its client knows it: its callback, and what it asks for. -/
structure SentCall where
  call : Nat
  callID : UInt32
  methodID : UInt32
  request : Bytes
  deriving DecidableEq, Repr

/-- The frame of a call. -/
def Side.requestOf (client : Side) (c : SentCall) : FrameHeader × Bytes :=
  match client with
  | .go => (Go.Channel.requestHeader c.callID c.methodID c.request, c.request)
  | .cpp => (Cpp.Channel.requestHeader c.callID c.methodID c.request, c.request)

/-- A server that serves `T` received `stream` on a connection and is done with it; after
    the handshake reply its client can receive `output`. -/
def Side.Serves (server : Side) (T : Table) (stream output : Bytes) : Prop :=
  match server with
  | .go => ∃ cfg k p, (Go.Server.plainProgram cfg T stream k).machine.Reachable
      Go.Server.initial p ∧ Go.Server.Settled k p ∧
      p.shared.receivedBy k = Go.Server.Config.handshakeHeader cfg ++ output
  | .cpp => ∃ cfg k p, (Cpp.Server.plainProgram cfg T stream k).machine.Reachable
      Cpp.Server.initial p ∧ Cpp.Server.Settled k p ∧
      p.shared.receivedBy k = Cpp.Server.Config.handshakeHeader cfg ++ output

/-- The reader of a client for which the calls `sent` are pending gets `frames` and then an
    error, and returns; its user sees `events`. -/
def Side.Reads (client : Side) (sent : List SentCall) (frames : List (FrameHeader × Bytes))
    (events : List ReaderEvent) : Prop :=
  match client with
  | .go => ∃ cfg s conn e acts u, Go.Channel.Shared.Callable s ∧
      (s.pending.entries.map fun x => (x.1, x.2.call)).Perm
        (sent.map fun c => (c.callID, c.call)) ∧
      Go.Channel.Reads cfg s conn frames e acts u ∧
      Go.Channel.trace cfg ⟨s, [.readLoop conn s.gen .read]⟩ acts = events
  | .cpp => ∃ cfg s what acts u, Cpp.Channel.Shared.Callable s ∧
      Cpp.Channel.Config.dispatch cfg = .inline ∧
      (s.pending.entries.map fun x => (x.1, x.2.call)).Perm
        (sent.map fun c => (c.callID, c.call)) ∧
      Cpp.Channel.Reads cfg s frames what acts u ∧
      Cpp.Channel.trace cfg ⟨s, [.readLoop .reading]⟩ acts = events

/-- The call is completed with the answer of the handlers. -/
def Side.answered (client : Side) (T : Table) (c : SentCall) : ReaderEvent :=
  let r := client.reply (T.answer (client.requestOf c))
  .complete c.call r.1.code r.2

/-- The failure of a call whose response is lost. -/
def SentCall.lost (c : SentCall) : ReaderEvent := .complete c.call StatusCode.Unavailable []

/-- The event calls the callback of a call. -/
def ReaderEvent.completes (call : Nat) : ReaderEvent → Bool
  | .push .. => false
  | .complete n _ _ => n == call

section

variable {client server : Side} {T : Table} {sent : List SentCall} {stream output : Bytes}
  {frames : List (FrameHeader × Bytes)} {events : List ReaderEvent}

theorem Side.sized_requestOf (client : Side) (c : SentCall) : Sized (client.requestOf c) := by
  cases client <;> rfl

theorem Side.callID_requestOf (client : Side) (c : SentCall) :
    (client.requestOf c).1.callID = c.callID := by
  cases client <;> rfl

theorem Side.isRequest_requestOf (client : Side) (c : SentCall) :
    isRequest (client.requestOf c) = true := by
  cases client <;> rfl

theorem Side.request_requestOf (client : Side) (c : SentCall) :
    (client.requestOf c).2 = c.request := by
  cases client <;> rfl

/-- What the user of a client sees of the answer to a call. -/
theorem Side.answered_eq (client : Side) (T : Table) (c : SentCall) :
    client.answered T c = .complete c.call (T.answer (client.requestOf c)).1.statusCode.toNat
      (answerPayload (T.answer (client.requestOf c)).1 (T.answer (client.requestOf c)).2) := by
  rw [Side.answered, client.reply_eq, Status.code_ofWire]
  rfl

/-- What a server has written are the bytes of the answers to the requests of the stream. -/
theorem Side.Serves.answers (h : server.Serves T stream output) :
    ∃ frames, output = server.bytesOf frames ∧
      frames.Perm ((requestsOf stream).map T.answer) := by
  cases server with
  | go =>
      obtain ⟨cfg, k, p, hreach, hend, houtput⟩ := h
      rw [Go.Server.plain_received hreach hend] at houtput
      exact ⟨_, (List.append_cancel_left houtput).symm, Go.Server.plain_frames hreach hend⟩
  | cpp =>
      obtain ⟨cfg, k, p, hreach, hend, houtput⟩ := h
      rw [Cpp.Server.plain_received hreach hend] at houtput
      exact ⟨_, (List.append_cancel_left houtput).symm,
        .of_eq (Cpp.Server.plain_frames hreach hend)⟩

/-- From a beginning of their requests a server answers the first calls, and all calls if it
    is the whole. -/
theorem Side.Serves.answers_sent {m : Nat} (hrequests : ∀ c ∈ sent, c.request.length < 2 ^ 32)
    (h : server.Serves T ((client.bytesOf (sent.map client.requestOf)).take m) output) :
    ∃ frames, output = server.bytesOf frames ∧
      (∀ f ∈ frames, ∃ c ∈ sent, f = T.answer (client.requestOf c)) ∧
      ((client.bytesOf (sent.map client.requestOf)).length ≤ m →
        ∀ c ∈ sent, T.answer (client.requestOf c) ∈ frames) := by
  obtain ⟨hseen, hall⟩ := framesOf_take client (l := sent.map client.requestOf)
    (List.forall_mem_map.mpr fun c _ => client.sized_requestOf c)
    (List.forall_mem_map.mpr fun c hc => by
      rw [client.request_requestOf]
      exact hrequests c hc) m
  have hrequestsOf : requestsOf ((client.bytesOf (sent.map client.requestOf)).take m) =
      framesOf ((client.bytesOf (sent.map client.requestOf)).take m) := by
    refine List.takeWhile_eq_self_iff.mpr fun f hf => ?_
    obtain ⟨c, -, rfl⟩ := List.mem_map.mp (hseen.mem hf)
    exact client.isRequest_requestOf c
  obtain ⟨frames, houtput, hperm⟩ := h.answers
  rw [hrequestsOf] at hperm
  refine ⟨frames, houtput, fun f hf => ?_, fun hm c hc => ?_⟩
  · obtain ⟨req, hreq, rfl⟩ := List.mem_map.mp (hperm.mem_iff.mp hf)
    obtain ⟨c, hc, rfl⟩ := List.mem_map.mp (hseen.mem hreq)
    exact ⟨c, hc, rfl⟩
  · rw [hperm.mem_iff, hall hm]
    exact List.mem_map_of_mem (List.mem_map_of_mem hc)

/-- The client gets answers to its calls only, and all of them if nothing is lost. -/
theorem Side.Serves.got {m : Nat} (what : String) (n : Nat)
    (hrequests : ∀ c ∈ sent, c.request.length < 2 ^ 32)
    (hanswers : ∀ c ∈ sent, (T.answer (client.requestOf c)).2.length < 2 ^ 32)
    (h : server.Serves T ((client.bytesOf (sent.map client.requestOf)).take m) output) :
    (∀ f ∈ client.framesIn what (output.take n), ∃ c ∈ sent,
        f = T.answer (client.requestOf c)) ∧
      ((client.bytesOf (sent.map client.requestOf)).length ≤ m → output.length ≤ n →
        ∀ c ∈ sent, T.answer (client.requestOf c) ∈ client.framesIn what (output.take n)) := by
  obtain ⟨frames, rfl, hframes, hall⟩ := h.answers_sent hrequests
  have hsized : ∀ f ∈ frames, Sized f := by
    intro f hf
    obtain ⟨c, -, rfl⟩ := hframes f hf
    exact T.sized_answer _
  have hshort : ∀ f ∈ frames, f.2.length < 2 ^ 32 := by
    intro f hf
    obtain ⟨c, hc, rfl⟩ := hframes f hf
    exact hanswers c hc
  obtain ⟨hgot, hallGot⟩ := framesOf_take server hsized hshort n
  rw [client.framesIn_eq]
  refine ⟨fun f hf => hframes f (hgot.mem hf), fun hm hn c hc => ?_⟩
  rw [hallGot hn]
  exact hall hm c hc

/-- A trace that shows the report on the pending calls completes each as it must end. -/
theorem outcomes_of_shown {β : Type} {call : β → Nat} {onPush : Bool}
    {pending : AList fun _ : UInt32 => β}
    (h : (report call onPush pending frames).Shown events)
    (hpending : (pending.entries.map fun x => (x.1, call x.2)).Perm
      (sent.map fun c => (c.callID, c.call))) :
    (events.filter ReaderEvent.isComplete).Perm
      (sent.map fun c => outcome frames c.callID c.call) := by
  obtain ⟨last, rfl, hlast⟩ := h
  have hsettles : (report call onPush pending frames).Settles call frames pending.entries :=
    report_settles pending frames
  have hpairs := hpending.map fun x => outcome frames x.1 x.2
  rw [List.map_map, List.map_map] at hpairs
  exact (((hlast.append_left _).filter _).trans hsettles.outcomes).trans hpairs

theorem callIDs_nodup {β : Type} {call : β → Nat} {pending : AList fun _ : UInt32 => β}
    (hpending : (pending.entries.map fun x => (x.1, call x.2)).Perm
      (sent.map fun c => (c.callID, c.call))) : (sent.map SentCall.callID).Nodup := by
  have hids := hpending.map Prod.fst
  rw [List.map_map, List.map_map] at hids
  exact hids.nodup_iff.mp pending.nodupKeys

theorem Side.Reads.outcomes (h : client.Reads sent frames events) :
    (sent.map SentCall.callID).Nodup ∧
      (events.filter ReaderEvent.isComplete).Perm
        (sent.map fun c => outcome frames c.callID c.call) := by
  cases client with
  | go =>
      obtain ⟨cfg, s, conn, e, acts, u, hs, hpending, hreads, rfl⟩ := h
      exact ⟨callIDs_nodup hpending,
        outcomes_of_shown (Go.Channel.readLoop_shows hs hreads) hpending⟩
  | cpp =>
      obtain ⟨cfg, s, what, acts, u, hs, hinline, hpending, hreads, rfl⟩ := h
      exact ⟨callIDs_nodup hpending,
        outcomes_of_shown (Cpp.Channel.readLoop_shows hinline hs hreads) hpending⟩

/-- The outcome of a call when every frame that arrives is the answer to one of the
    calls. -/
theorem outcome_of_answers {got : List (FrameHeader × Bytes)}
    (hids : (sent.map SentCall.callID).Nodup)
    (hgot : ∀ f ∈ got, ∃ c ∈ sent, f = T.answer (client.requestOf c)) {c : SentCall}
    (hc : c ∈ sent) :
    outcome got c.callID c.call =
      if T.answer (client.requestOf c) ∈ got then client.answered T c else c.lost := by
  have hserver : ∀ f ∈ got, isServerFrame f = true := by
    intro f hf
    obtain ⟨c, -, rfl⟩ := hgot f hf
    simp [isServerFrame, (T.answer_ids (client.requestOf c)).1]
  cases hfound : responseTo got c.callID with
  | none =>
      have hfinal : finalCode got = StatusCode.Unavailable := by
        rw [finalCode, List.all_eq_true.mpr hserver, if_pos rfl]
      have hmissing : T.answer (client.requestOf c) ∉ got := by
        intro hmem
        rw [responseTo, List.takeWhile_eq_self_iff.mpr hserver, List.find?_eq_none] at hfound
        refine hfound _ hmem ?_
        simp [T.answer_ids, client.callID_requestOf]
      simp only [outcome, hfound, hfinal, if_neg hmissing]
      rfl
  | some f =>
      have hmem : f ∈ got := (List.takeWhile_prefix _).mem (List.mem_of_find?_eq_some hfound)
      have hid : f.1.callID = c.callID := by
        have hkey := List.find?_some hfound
        simp only [Bool.and_eq_true, decide_eq_true_eq] at hkey
        exact hkey.2
      -- the ids tell the calls apart, so the frame answers this one
      obtain ⟨c', hc', rfl⟩ := hgot f hmem
      rw [(T.answer_ids _).2.1, client.callID_requestOf] at hid
      obtain rfl := List.inj_on_of_nodup_map hids hc' hc hid
      simp only [outcome, hfound, if_pos hmem, client.answered_eq]

/-- A reader that gets answers to its calls only completes each call once. -/
theorem Side.Reads.settles (h : client.Reads sent frames events)
    (hframes : ∀ f ∈ frames, ∃ c ∈ sent, f = T.answer (client.requestOf c)) :
    (events.filter ReaderEvent.isComplete).Perm (sent.map fun c =>
      if T.answer (client.requestOf c) ∈ frames then client.answered T c else c.lost) := by
  obtain ⟨hids, houtcomes⟩ := h.outcomes
  rwa [List.map_congr_left fun c hc => outcome_of_answers hids hframes hc] at houtcomes

/-- Over a connection that loses nothing each callback is called once, with the answer to its
    call. -/
theorem Side.Reads.answers (what : String) (hrequests : ∀ c ∈ sent, c.request.length < 2 ^ 32)
    (hanswers : ∀ c ∈ sent, (T.answer (client.requestOf c)).2.length < 2 ^ 32)
    (hserves : server.Serves T (client.bytesOf (sent.map client.requestOf)) output)
    (h : client.Reads sent (client.framesIn what output) events)
    (hcalls : (sent.map SentCall.call).Nodup) {c : SentCall} (hc : c ∈ sent) :
    events.filter (ReaderEvent.completes c.call) = [client.answered T c] := by
  rw [← List.take_length (l := client.bytesOf _)] at hserves
  rw [← List.take_length (l := output)] at h
  obtain ⟨hgot, hall⟩ := hserves.got what output.length hrequests hanswers
  have hsettles := h.settles hgot
  rw [List.map_congr_left fun c hc => if_pos (hall (Nat.le_refl _) (Nat.le_refl _) c hc)]
    at hsettles
  -- the callbacks tell the calls apart
  have hmine := hsettles.filter (ReaderEvent.completes c.call)
  have hcomplete : ∀ e : ReaderEvent,
      (e.completes c.call && e.isComplete) = e.completes c.call := by
    intro e
    cases e with
    | push => rfl
    | complete => exact Bool.and_true _
  have hone : sent.filter (ReaderEvent.completes c.call ∘ client.answered T) = [c] :=
    filter_key_eq hcalls hc
  rw [List.filter_filter, List.filter_map, hone] at hmine
  simp only [hcomplete] at hmine
  exact List.perm_singleton.mp hmine

/-- The server gets the first `m` bytes of the requests of the calls and is done with them;
    the reader of the client gets the first `n` bytes of what the server wrote. Then every
    call is completed once: with its answer if that arrived, and else as `Unavailable`. If
    both got all bytes, every answer arrived. -/
theorem sent_calls_settled (client server : Side) (what : String) (m n : Nat)
    (hrequests : ∀ c ∈ sent, c.request.length < 2 ^ 32)
    (hanswers : ∀ c ∈ sent, (T.answer (client.requestOf c)).2.length < 2 ^ 32)
    (hserves : server.Serves T ((client.bytesOf (sent.map client.requestOf)).take m) output)
    (hreads : client.Reads sent (client.framesIn what (output.take n)) events) :
    (events.filter ReaderEvent.isComplete).Perm
      (sent.map fun c =>
        if T.answer (client.requestOf c) ∈ client.framesIn what (output.take n)
        then client.answered T c else c.lost) ∧
    ((client.bytesOf (sent.map client.requestOf)).length ≤ m → output.length ≤ n →
      ∀ c ∈ sent, T.answer (client.requestOf c) ∈ client.framesIn what (output.take n)) := by
  obtain ⟨hgot, hall⟩ := hserves.got what n hrequests hanswers
  exact ⟨hreads.settles hgot, hall⟩

end

/-- Calls 0, 1 and 2 under the ids 1, 2 and 3. -/
def threeCalls : List SentCall := [⟨0, 1, 7, [5]⟩, ⟨1, 2, 9, []⟩, ⟨2, 3, 7, [6]⟩]

def threeWaiting : Go.Channel.Shared :=
  { pending := (((∅ : Go.Channel.Pending).insert 3 ⟨2, false⟩).insert 2 ⟨1, false⟩).insert 1
      ⟨0, false⟩ }

/-- A Go client calls a C++ server. The third request is cut after two bytes, and of the
    second response five bytes arrive. -/
theorem sent_calls_settled_threeCalls :
    ∃ output events, Side.cpp.Serves echoTable
        ((Side.go.bytesOf (threeCalls.map Side.go.requestOf)).take 35) output ∧
      Side.go.Reads threeCalls (Side.go.framesIn "" (output.take 22)) events ∧
      (events.filter ReaderEvent.isComplete).Perm
        [.complete 0 StatusCode.OK [5], .complete 1 StatusCode.Unavailable [],
          .complete 2 StatusCode.Unavailable []] := by
  have hstream : (Side.go.bytesOf (threeCalls.map Side.go.requestOf)).take 35 = cutStream := by
    decide
  have hcpp : ((Cpp.Server.plainProgram {} echoTable cutStream 0).machine.run Cpp.Server.initial
      cutStreamCpp).map (fun q => decide (q.shared.made.length = 1) &&
        (q.shared.session 0).strand.isEmpty &&
        q.threads.all (fun t => t.wraps 0 == 0 && t.pumps 0 == 0)) = some true := by
    decide +kernel
  obtain ⟨q, hq, hobs⟩ := Option.map_eq_some_iff.mp hcpp
  simp only [Bool.and_eq_true, decide_eq_true_eq, List.all_eq_true, beq_iff_eq,
    List.isEmpty_iff] at hobs
  have hend : Cpp.Server.Settled 0 q := ⟨by omega, hobs.1.2, hobs.2⟩
  let output := Side.cpp.bytesOf ((requestsOf cutStream).map echoTable.answer)
  have hserves : Side.cpp.Serves echoTable
      ((Side.go.bytesOf (threeCalls.map Side.go.requestOf)).take 35) output := by
    rw [hstream]
    refine ⟨{}, 0, q, ⟨_, hq⟩, hend, ?_⟩
    rw [Cpp.Server.plain_received ⟨_, hq⟩ hend, Cpp.Server.plain_frames ⟨_, hq⟩ hend]
    rfl
  have hcallable : threeWaiting.Callable := by
    have hnil : ∀ cb ∈ mapValues threeWaiting.pending, cb.isNil = false := by decide
    exact ⟨rfl, fun id cb hid => hnil cb (mem_mapValues.mpr ⟨id, hid⟩)⟩
  obtain ⟨acts, u, hreads⟩ : ∃ acts u, Go.Channel.Reads {} threeWaiting 0
      (Side.go.framesIn "" (output.take 22)) "EOF" acts u :=
    Go.Channel.readLoop_returns hcallable 0 _ "EOF"
  have hreads' : Side.go.Reads threeCalls (Side.go.framesIn "" (output.take 22))
      (Go.Channel.trace {} ⟨threeWaiting, [.readLoop 0 threeWaiting.gen .read]⟩ acts) :=
    ⟨{}, threeWaiting, 0, "EOF", acts, u, hcallable, by decide, hreads, rfl⟩
  obtain ⟨hperm, -⟩ := sent_calls_settled .go .cpp "" 35 22 (by decide) (by decide) hserves hreads'
  refine ⟨output, _, hserves, hreads', hperm.trans (.of_eq ?_)⟩
  decide

end Protocomm
