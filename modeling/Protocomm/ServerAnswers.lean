import Protocomm.Cpp.Server.Written
import Protocomm.Go.Server.Drain
import Protocomm.Go.Server.Written

/-!
# Both servers answer alike

A client sends any bytes after its handshake. The Go server answers the requests among
them in any order, the C++ server in their order; apart from that the two cannot be told
apart.
-/

namespace Protocomm

open Misc

/-- What tells a response apart from others. -/
def idsOf (f : FrameHeader × Bytes) : UInt8 × UInt32 × UInt32 :=
  (f.1.type, f.1.callID, f.1.methodID)

/-- What a client can receive are the bytes of answers, and a reader takes these answers
    off them. -/
theorem framesIn_received {T : Table} {reqs frames : List (FrameHeader × Bytes)} {header : Bytes}
    (w r : Side) (what : String) (hframes : frames.Perm (reqs.map T.answer))
    (hshort : ∀ req ∈ reqs, (T.answer req).2.length < 2 ^ 32) :
    r.framesIn what ((header ++ w.bytesOf frames).drop header.length) = frames := by
  rw [List.drop_left]
  apply Side.framesIn_bytesOf w r what
  · intro f hf
    obtain ⟨req, -, rfl⟩ := List.mem_map.mp (hframes.mem_iff.mp hf)
    exact T.sized_answer req
  · intro f hf
    obtain ⟨req, hreq, rfl⟩ := List.mem_map.mp (hframes.mem_iff.mp hf)
    exact hshort req hreq

/-- A client sends `stream` to either server after a successful handshake. From every state
    of such a run in which the connection was accepted the server can go on until it is
    done with the connection. Then it has given its handlers exactly the requests before
    the first frame that is incomplete or no request, each once. The C++ server has
    answered these requests in their order, one response each with the ids of its request,
    and the Go server has written the same responses in some order. What the client can
    receive are the handshake reply and the bytes of these responses. If the payloads of
    the responses are shorter than 2^32, a reader of either language takes exactly these
    responses off the bytes after the reply. -/
theorem servers_answer_alike (goCfg : Go.Server.Config) (cppCfg : Cpp.Server.Config) (T : Table)
    (stream : Bytes) (j k : Nat) :
    (∀ p, (Go.Server.plainProgram goCfg T stream j).machine.Reachable Go.Server.initial p →
      j < p.shared.peers.length →
      ∃ q, (Go.Server.plainProgram goCfg T stream j).machine.Reachable p q ∧
        Go.Server.Settled j q) ∧
    (∀ p, (Cpp.Server.plainProgram cppCfg T stream k).machine.Reachable Cpp.Server.initial p →
      k < p.shared.made.length →
      ∃ q, (Cpp.Server.plainProgram cppCfg T stream k).machine.Reachable p q ∧
        Cpp.Server.Settled k q) ∧
    ∀ p q, (Go.Server.plainProgram goCfg T stream j).machine.Reachable Go.Server.initial p →
      (Cpp.Server.plainProgram cppCfg T stream k).machine.Reachable Cpp.Server.initial q →
      Go.Server.Settled j p → Cpp.Server.Settled k q →
      (p.shared.callsOf j).Perm (((requestsOf stream).filter T.has).map callOf) ∧
      q.shared.callsOf k = ((requestsOf stream).filter T.has).map callOf ∧
      q.shared.framesTo k = (requestsOf stream).map T.answer ∧
      (q.shared.framesTo k).map idsOf =
        (requestsOf stream).map (fun req => (FrameResponse, req.1.callID, req.1.methodID)) ∧
      (p.shared.framesTo j).Perm (q.shared.framesTo k) ∧
      p.shared.receivedBy j = goCfg.handshakeHeader ++ Side.go.bytesOf (p.shared.framesTo j) ∧
      q.shared.receivedBy k = cppCfg.handshakeHeader ++ Side.cpp.bytesOf (q.shared.framesTo k) ∧
      ((∀ req ∈ requestsOf stream, (T.answer req).2.length < 2 ^ 32) →
        ∀ (r : Side) (what : String),
          r.framesIn what ((p.shared.receivedBy j).drop goCfg.handshakeHeader.length) =
            p.shared.framesTo j ∧
          r.framesIn what ((q.shared.receivedBy k).drop cppCfg.handshakeHeader.length) =
            q.shared.framesTo k) := by
  refine ⟨fun p hp hj => Go.Server.plain_settles hp hj,
    fun p hp hk => Cpp.Server.plain_settles hp hk, fun p q hp hq hendp hendq => ?_⟩
  have hgo := Go.Server.plain_frames hp hendp
  have hcpp := Cpp.Server.plain_frames hq hendq
  have hgoBytes := Go.Server.plain_received hp hendp
  have hcppBytes := Cpp.Server.plain_received hq hendq
  refine ⟨Go.Server.plain_calls hp hendp, Cpp.Server.plain_callsOf hq hendq, hcpp, ?_,
    hcpp ▸ hgo, hgoBytes, hcppBytes, fun hshort r what => ⟨?_, ?_⟩⟩
  · rw [hcpp, List.map_map]
    refine List.map_congr_left fun req _ => ?_
    obtain ⟨htype, hcall, hmethod⟩ := T.answer_ids req
    simp only [Function.comp_apply, idsOf, htype, hcall, hmethod]
  · rw [hgoBytes]
    exact framesIn_received .go r what hgo hshort
  · rw [hcppBytes]
    exact framesIn_received .cpp r what (.of_eq hcpp) hshort

/-- Method 7 returns its request. -/
def echoTable : Table := (∅ : Table).insert 7 fun _ request => (request, statusOK)

/-- A request of method 7 and one of a method that nobody registered. -/
def echoRequest : FrameHeader × Bytes :=
  ({ type := FrameRequest, callID := 1, methodID := 7, payloadSize := 1 }, [5])

@[inherit_doc echoRequest]
def unknownRequest : FrameHeader × Bytes :=
  ({ type := FrameRequest, callID := 2, methodID := 9, payloadSize := 0 }, [])

/-- The two requests and the beginning of a third frame. -/
def cutStream : Bytes :=
  Go.frameBytes echoRequest ++ Go.frameBytes unknownRequest ++ [FrameRequest, 0]

/-- The Go server answers the second request before the first. -/
def cutStreamGo : List (Nat × Go.Server.Action) :=
  [(0, .registerMethod 7), (1, .accepted), (1, .run), (1, .run), (2, .run),
    (2, .readFull (.ok [112, 99, 49])), (2, .wrote 3 none), (2, .readFrame (.ok echoRequest)),
    (2, .run), (2, .run), (2, .readFrame (.ok unknownRequest)), (2, .run), (2, .run), (4, .run),
    (4, .run), (4, .wrote 16 none), (4, .run), (4, .run), (4, .run), (3, .run), (3, .run),
    (3, .returned [5] statusOK), (3, .run), (3, .wrote 16 none), (3, .wrote 1 none), (3, .run),
    (3, .run), (3, .run), (2, .readFrame (.error "unexpected EOF")), (2, .run), (2, .run),
    (2, .run), (2, .run), (2, .run)]

def cutStreamCpp : List (Nat × Cpp.Server.Action) :=
  [(0, .registerMethod 7), (2, .accepted), (2, .run), (3, .run),
    (3, .readHandshake (.ok [112, 99, 49])), (3, .wrote 3), (3, .readFrame (.ok echoRequest)),
    (3, .run), (3, .returned [5] statusOK), (3, .run), (3, .readFrame (.ok unknownRequest)),
    (3, .run), (3, .run), (1, .handle 0), (1, .handle 0), (4, .run), (4, .wrote 17), (4, .run),
    (4, .wrote 16), (4, .run), (3, .readFrame (.error "end of file")), (3, .run), (3, .run)]

theorem servers_answer_alike_cutStream :
    ∃ p q, (Go.Server.plainProgram {} echoTable cutStream 0).machine.run Go.Server.initial
        cutStreamGo = some p ∧
      (Cpp.Server.plainProgram {} echoTable cutStream 0).machine.run Cpp.Server.initial
        cutStreamCpp = some q ∧
      Go.Server.Settled 0 p ∧ Cpp.Server.Settled 0 q ∧
      (p.shared.framesTo 0).map idsOf = [(FrameResponse, 2, 9), (FrameResponse, 1, 7)] ∧
      (q.shared.framesTo 0).map idsOf = [(FrameResponse, 1, 7), (FrameResponse, 2, 9)] ∧
      (p.shared.framesTo 0).Perm (q.shared.framesTo 0) ∧
      Side.cpp.framesIn "" ((p.shared.receivedBy 0).drop 3) = p.shared.framesTo 0 ∧
      Side.go.framesIn "" ((q.shared.receivedBy 0).drop 3) = q.shared.framesTo 0 := by
  have hgo : ((Go.Server.plainProgram {} echoTable cutStream 0).machine.run Go.Server.initial
      cutStreamGo).map (fun p => decide (p.shared.peers.length = 1) &&
        p.threads.all (fun g => g.handles 0 == 0) &&
        decide ((p.shared.framesTo 0).map idsOf =
          [(FrameResponse, 2, 9), (FrameResponse, 1, 7)])) = some true := by
    decide +kernel
  have hcpp : ((Cpp.Server.plainProgram {} echoTable cutStream 0).machine.run Cpp.Server.initial
      cutStreamCpp).map (fun q => decide (q.shared.made.length = 1) &&
        (q.shared.session 0).strand.isEmpty &&
        q.threads.all (fun t => t.wraps 0 == 0 && t.pumps 0 == 0) &&
        decide ((q.shared.framesTo 0).map idsOf =
          [(FrameResponse, 1, 7), (FrameResponse, 2, 9)])) = some true := by
    decide +kernel
  obtain ⟨p, hp, hobsp⟩ := Option.map_eq_some_iff.mp hgo
  obtain ⟨q, hq, hobsq⟩ := Option.map_eq_some_iff.mp hcpp
  simp only [Bool.and_eq_true, decide_eq_true_eq, List.all_eq_true, beq_iff_eq,
    List.isEmpty_iff] at hobsp hobsq
  obtain ⟨⟨hpeers, hhandles⟩, hgoFrames⟩ := hobsp
  obtain ⟨⟨⟨hmade, hstrand⟩, hidle⟩, hcppFrames⟩ := hobsq
  have hendp : Go.Server.Settled 0 p := ⟨by omega, hhandles⟩
  have hendq : Cpp.Server.Settled 0 q := ⟨by omega, hstrand, hidle⟩
  obtain ⟨-, -, -, -, hperm, -, -, hread⟩ :=
    (servers_answer_alike {} {} echoTable cutStream 0 0).2.2 p q ⟨_, hp⟩ ⟨_, hq⟩ hendp hendq
  have hshort : ∀ req ∈ requestsOf cutStream, (echoTable.answer req).2.length < 2 ^ 32 := by
    decide
  exact ⟨p, q, hp, hq, hendp, hendq, hgoFrames, hcppFrames, hperm, (hread hshort .cpp "").1,
    (hread hshort .go "").2⟩

end Protocomm
