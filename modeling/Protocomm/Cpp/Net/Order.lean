import Protocomm.Cpp.Channel.Replies
import Protocomm.Cpp.Net.Model
import Protocomm.Misc.Before

/-!
# Calls to a C++ session are served in order

The requests that a session reads are those its channel has sent, the responses that the
channel reads are those the session has written, and each side keeps their order. So the
calls of a channel are read, handled, answered and completed in the order of their ids,
as long as no payload is longer than the size field of a frame can tell.
-/

namespace Protocomm.Cpp.Net

open Misc

variable {cfg : Config} {n n' : State} {act : Action}

/-! ## One connection -/

/-- The channel and the server run as they do alone. -/
structure Joined (cfg : Config) (n : State) : Prop where
  client : (Channel.calmProgram cfg.channel).machine.Reachable Channel.linkedInitial n.client
  server : (Server.calmProgram cfg.server cfg.session).machine.Reachable Server.initial n.server

theorem reachable_joined (h : (machine cfg).Reachable initial n) : Joined cfg n := by
  refine Machine.reachable_invariant (P := Joined cfg) ⟨.refl _, .refl _⟩ ?_ h
  intro u act u' _ hu hstep
  cases step_move hstep with
  | client ht hreads hclient => exact ⟨hu.client.tail hclient, hu.server⟩
  | server ht hreads hserver => exact ⟨hu.client, hu.server.tail hserver⟩

/-- Fewer than 2^32 calls, and no frame on the connection is longer than its size field
    can tell. -/
structure Bounded (cfg : Config) (n : State) : Prop where
  calls : n.client.shared.1.calls.length < 2 ^ 32
  up : ∀ f ∈ n.link.sent, f.2.length < 2 ^ 32
  down : ∀ f ∈ (n.session cfg).out.frames, f.2.length < 2 ^ 32

/-- A step of the channel. -/
theorem client_step {client : Pool (Channel.Shared × Channel.Link) Channel.Thread} {i : Nat}
    {a : Channel.Action} {t : Channel.Thread} (ht : n.client.threads[i]? = some t)
    (hstep : (Channel.calmProgram cfg.channel).machine.step n.client (i, a) = some client) :
    ∃ t' new, (Channel.calmProgram cfg.channel).step n.client.shared t a =
        some (client.shared, t', new) ∧
      client.shared.2 = n.link.follow cfg.channel.handshakeHeader a t' ∧
      Channel.Move cfg.channel n.client.shared.1 t a client.shared.1 t' new := by
  obtain ⟨t₀, t', new, ht₀, hs, -⟩ := Program.machine_step_eq hstep
  cases ht.symm.trans ht₀
  obtain ⟨-, hlink, hplain⟩ := Channel.calm_step hs
  exact ⟨t', new, hs, hlink, Channel.step_move hplain⟩

/-- A step of the server. -/
theorem server_step {server : Pool Server.Shared Server.Thread} {i : Nat} {a : Server.Action}
    {t : Server.Thread} (ht : n.server.threads[i]? = some t)
    (hstep : (Server.calmProgram cfg.server cfg.session).machine.step n.server (i, a) =
      some server) :
    ∃ t' new, Server.Move cfg.server n.server.shared t a server.shared t' new := by
  obtain ⟨t₀, t', new, ht₀, hs, -⟩ := Program.machine_step_eq hstep
  cases ht.symm.trans ht₀
  exact ⟨t', new, (Server.step_move (Program.restrict_step.mp hs).2).2⟩

theorem Bounded.before (h : Bounded cfg n') (hmove : Move cfg n act n') : Bounded cfg n := by
  cases hmove with
  | client ht hreads hstep =>
      obtain ⟨t', new, -, hlink, hmove⟩ := client_step ht hstep
      refine ⟨Nat.lt_of_le_of_lt hmove.calls_le h.calls, fun f hf => h.up f ?_, h.down⟩
      rw [State.link, hlink]
      exact (Channel.sent_follow _ _ _ _).mem hf
  | server ht hreads hstep =>
      obtain ⟨t', new, hmove⟩ := server_step ht hstep
      exact ⟨h.calls, h.up, fun f hf => h.down f ((hmove.frames cfg.session).mem hf)⟩

theorem encodeFrame_eq : Server.encodeFrame = Go.frameBytes := by
  funext f
  exact (writeFrame_eq f.1 f.2).symm

/-- A reader of a connection gets the next frame that was written on it. -/
theorem next_initial {header stream : Bytes} {frames reads : List (FrameHeader × Bytes)}
    {f : FrameHeader × Bytes}
    (hstream : stream <+: header ++ frames.flatMap fun f => writeFrame f.1 f.2)
    (hsized : ∀ f ∈ frames, Sized f) (hshort : ∀ f ∈ frames, f.2.length < 2 ^ 32)
    (hreads : reads <+: frames) (h : nextFrame header stream reads f = true) :
    reads ++ [f] <+: frames := by
  rw [nextFrame, delivers_readFrame, unread, List.drop_drop] at h
  obtain ⟨rest, hread⟩ := ok_of_delivers h
  refine Go.readFrame_next ?_ hsized hshort hreads hread
  rwa [← encodeFrame_eq]

/-- What each side has read is what the other side has written, and the callbacks called are
    those of the responses read. -/
structure Ordered (cfg : Config) (n : State) : Prop where
  up : (n.session cfg).reads <+: n.link.sent
  down : n.link.got <+: (n.session cfg).out.frames
  completes : Channel.Completes n.client.shared.1 n.link.responses

/-- The ids of the registered calls, in the order of their registration. -/
def State.registeredIds (n : State) : List UInt32 :=
  n.client.shared.1.registered.map Channel.Registration.callId

/-- The ids of the requests that the session has read. -/
def State.readIds (cfg : Config) (n : State) : List UInt32 :=
  (n.session cfg).reads.map fun f => f.1.callID

/-- The ids of the requests that were handed to a handler. -/
def State.calledIds (cfg : Config) (n : State) : List UInt32 :=
  (n.server.shared.runs.filter fun run => run.session == cfg.session).map Server.Run.callId

/-- The ids of the responses that the session has written. -/
def State.answeredIds (cfg : Config) (n : State) : List UInt32 :=
  ((n.session cfg).out.frames.filter isResponse).map fun f => f.1.callID

/-- The calls whose callbacks were called. -/
def State.completed (n : State) : List Nat :=
  n.client.shared.1.out.invoked.map Channel.Invocation.call

theorem Joined.requests (h : Joined cfg n) (hup : (n.session cfg).reads <+: n.link.sent) :
    n.server.shared.requestsOf cfg.session = (n.session cfg).reads ∧
      n.readIds cfg <+: n.registeredIds := by
  have hsends := Channel.calm_sends h.client
  refine ⟨List.filter_eq_self.mpr fun f hf => ?_, ?_⟩
  · exact (hsends.requests f (List.mem_append_left _ (hup.mem hf))).1
  · rw [State.registeredIds, ← hsends.ids]
    exact (hup.trans (List.prefix_append _ _)).map _

theorem Joined.responses (h : Joined cfg n) (hup : (n.session cfg).reads <+: n.link.sent) :
    n.answeredIds cfg <+: n.registeredIds := by
  obtain ⟨hrequests, hids⟩ := h.requests hup
  have hanswers := Server.calm_answers h.server
  rw [hrequests] at hanswers
  exact hanswers.trans hids

theorem Joined.answered (h : Joined cfg n) (hup : (n.session cfg).reads <+: n.link.sent)
    (hdown : n.link.got <+: (n.session cfg).out.frames) : n.link.answered <+: n.registeredIds :=
  ((hdown.filter isResponse).map _).trans (h.responses hup)

theorem Ordered.step (hagreed : cfg.channel.handshakeHeader = cfg.server.handshakeHeader)
    (h : Ordered cfg n) (hjoined : Joined cfg n) (hjoined' : Joined cfg n')
    (hbounded : Bounded cfg n) (hmove : Move cfg n act n') : Ordered cfg n' := by
  cases hmove with
  | @client i a t client ht hreads hstep =>
      obtain ⟨t', new, hs, hlink, hmove⟩ := client_step ht hstep
      have hsent : n.link.sent <+: client.shared.2.sent := by
        rw [hlink]
        exact Channel.sent_follow _ _ _ _
      have hup := h.up.trans hsent
      have hdown : client.shared.2.got <+: (n.session cfg).out.frames := by
        rw [hlink]
        rcases hmove.got n.link cfg.channel.handshakeHeader with
          hsame | ⟨hdr, payload, rfl, rfl, hadd⟩
        · rw [hsame]
          exact h.down
        · rw [State.clientReads, hagreed] at hreads
          rw [hadd]
          exact next_initial (Server.calm_received hjoined.server)
            (Server.calm_sized hjoined.server) hbounded.down h.down hreads
      refine ⟨hup, hdown, ?_⟩
      exact Channel.completes_step hjoined.client (List.mem_of_getElem? ht) hs hbounded.calls
        (hjoined'.answered hup hdown) (hjoined.answered h.up h.down) h.completes
  | @server i a t server ht hreads hstep =>
      obtain ⟨t', new, hmove⟩ := server_step ht hstep
      refine ⟨?_, h.down.trans (hmove.frames cfg.session), h.completes⟩
      rcases hmove.reads cfg.session with hsame | ⟨hdr, payload, rfl, rfl, hadd, -⟩
      · rw [State.session, hsame]
        exact h.up
      · rw [State.session, hadd]
        have hwrote := Channel.calm_wrote hjoined.client
        rw [hagreed] at hwrote
        refine next_initial hwrote (fun f hf => ?_) hbounded.up h.up ?_
        · exact ((Channel.calm_sends hjoined.client).requests f (List.mem_append_left _ hf)).2
        · rw [State.serverReads, bne_self_eq_false, Bool.false_or] at hreads
          exact hreads

theorem reachable_ordered (hagreed : cfg.channel.handshakeHeader = cfg.server.handshakeHeader)
    (h : (machine cfg).Reachable initial n) (hbounded : Bounded cfg n) : Ordered cfg n := by
  revert hbounded
  refine Machine.reachable_invariant (P := fun n => Bounded cfg n → Ordered cfg n) ?_ ?_ h
  · intro _
    exact ⟨List.prefix_refl _, List.prefix_refl _, rfl, List.forall_mem_nil _⟩
  · intro u act u' hu hordered hstep hbounded'
    have hmove := step_move hstep
    have hbounded := hbounded'.before hmove
    exact (hordered hbounded).step hagreed (reachable_joined hu) (reachable_joined (hu.tail hstep))
      hbounded hmove

/-! ## All calls -/

section Fifo

variable {a b : Channel.Registration}

theorem Joined.ascending (h : Joined cfg n) (hbounded : Bounded cfg n) :
    n.registeredIds.Pairwise fun id id' => id.toNat < id'.toNat :=
  List.pairwise_map.mpr
    (Channel.registered_ascending (Channel.reachable_of_calm h.client) hbounded.calls)

theorem Joined.ids_before (h : Joined cfg n) (hbounded : Bounded cfg n)
    (ha : a ∈ n.client.shared.1.registered) (hlt : a.callId < b.callId) :
    Before a.callId b.callId n.registeredIds :=
  .of_ascending (h.ascending hbounded) (UInt32.lt_iff_toNat_lt.mp hlt) (List.mem_map_of_mem ha)

theorem calledIds_eq (cfg : Config) (n : State) :
    n.calledIds cfg = (n.server.shared.callsOf cfg.session).map Prod.fst := by
  rw [Server.Shared.callsOf, List.map_map]
  rfl

/-- The handlers run in the order of the ids; a request without a handler is passed over. -/
theorem Joined.called_before (h : Joined cfg n) (hbounded : Bounded cfg n)
    (hup : (n.session cfg).reads <+: n.link.sent) (ha : a ∈ n.client.shared.1.registered)
    (hlt : a.callId < b.callId) :
    (∃ miss ∈ n.server.shared.misses, miss.session = cfg.session ∧ miss.callId = a.callId) ∨
      Before a.callId b.callId (n.calledIds cfg) := by
  obtain ⟨called, wait, hsplit, hsub, hall⟩ := Server.calm_calls h.server
  obtain ⟨hrequests, hids⟩ := h.requests hup
  have hread : called.map (fun f => f.1.callID) ++ wait.map (fun f => f.1.callID) <+:
      n.registeredIds := by
    rwa [State.readIds, ← hrequests, hsplit, List.map_append] at hids
  have hsubIds : (n.calledIds cfg).Sublist (called.map fun f => f.1.callID) := by
    have hmap := hsub.map Prod.fst
    rwa [List.map_map, ← calledIds_eq] at hmap
  by_cases hb : b.callId ∈ n.calledIds cfg
  · -- the request of `a` was looked up before that of `b`
    have hbefore : Before a.callId b.callId (called.map fun f => f.1.callID) :=
      (h.ids_before hbounded ha hlt).of_initial ((List.prefix_append _ _).trans hread)
    obtain ⟨f, hf, hid⟩ := List.mem_map.mp (hbefore.mem (hsubIds.subset hb))
    rcases hall f (hsplit ▸ List.mem_append_left _ hf) with hcalled | hmissed | hwait
    · right
      refine .of_ascending ?_ (UInt32.lt_iff_toNat_lt.mp hlt) ?_
      · exact (h.ascending hbounded).sublist
          (hsubIds.trans ((List.prefix_append _ _).trans hread).sublist)
      · rw [calledIds_eq, ← hid]
        exact List.mem_map_of_mem hcalled
    · exact Or.inl ⟨_, hmissed, rfl, hid⟩
    · have hlast := (List.pairwise_append.mp ((h.ascending hbounded).sublist hread.sublist)).2.2
        f.1.callID (List.mem_map_of_mem hf) f.1.callID
        (by rw [hwait]; exact List.mem_singleton_self _)
      exact absurd hlast (Nat.lt_irrefl _)
  · right
    intro front back heq
    exact absurd (heq ▸ List.mem_append_right front List.mem_cons_self) hb

theorem Joined.completed_before (h : Joined cfg n) (hbounded : Bounded cfg n)
    (hcompletes : Channel.Completes n.client.shared.1 n.link.responses)
    (ha : a ∈ n.client.shared.1.registered) (hb : b ∈ n.client.shared.1.registered)
    (hlt : a.callId < b.callId) (hcallback : n.client.shared.1.hasCallback a.call = true) :
    Before a.call b.call n.completed := by
  have hplain := Channel.reachable_of_calm h.client
  have hregistered : Before a b n.client.shared.1.registered :=
    .of_ascending (Channel.registered_ascending hplain hbounded.calls)
      (UInt32.lt_iff_toNat_lt.mp hlt) ha
  have hfirst := ((hregistered.of_initial (map_fst_zip_initial _ n.link.responses)).map
    (f := Channel.Registration.call) fun r hr hcall =>
      Channel.registered_unique hplain hb
        ((map_fst_zip_initial _ _).mem hr) hcall).filter hcallback
  rw [← hcompletes.calls] at hfirst
  have hmine : n.client.shared.1.isRegistered b.call = true :=
    List.any_eq_true.mpr ⟨b, hb, beq_self_eq_true _⟩
  have hcalled : n.completed = (n.client.shared.1.out.invoked.map Channel.Invocation.reply).map
      Channel.Reply.call := by
    rw [List.map_map]
    rfl
  rw [hcalled]
  exact (hfirst.of_filter hmine).of_initial
    ((Channel.repliesView.called_initial n.client.shared.1.out).map _)

/-- The calls of a C++ channel to a C++ session are first in, first out from end to end. -/
theorem calls_fifo (hagreed : cfg.channel.handshakeHeader = cfg.server.handshakeHeader)
    (h : (machine cfg).Reachable initial n) (hbounded : Bounded cfg n)
    (ha : a ∈ n.client.shared.1.registered) (hb : b ∈ n.client.shared.1.registered)
    (hlt : a.callId < b.callId) :
    Before a.callId b.callId (n.readIds cfg) ∧
      ((∃ miss ∈ n.server.shared.misses, miss.session = cfg.session ∧ miss.callId = a.callId) ∨
        Before a.callId b.callId (n.calledIds cfg)) ∧
      Before a.callId b.callId (n.answeredIds cfg) ∧
      (n.client.shared.1.hasCallback a.call = true → Before a.call b.call n.completed) := by
  have hjoined := reachable_joined h
  have hordered := reachable_ordered hagreed h hbounded
  have hids := hjoined.ids_before hbounded ha hlt
  exact ⟨hids.of_initial (hjoined.requests hordered.up).2,
    hjoined.called_before hbounded hordered.up ha hlt,
    hids.of_initial (hjoined.responses hordered.up),
    hjoined.completed_before hbounded hordered.completes ha hb hlt⟩

end Fifo

/-- The id of `/Greeter/SayHello`. -/
def sayHelloId : UInt32 := 407897208

/-- A channel connects and calls `SayHello` with `[5]` and then with `[6]`. -/
def fifoRun : List Action :=
  [.server 0 (.registerMethod sayHelloId), .client 0 (.call sayHelloId [5] false), .client 1 .run,
    .client 1 .run, .client 1 .run, .client 1 .run, .client 1 .run, .client 1 .run, .client 2 .run,
    .client 3 .run, .client 3 (.op none), .client 3 (.op none), .server 2 .accepted,
    .server 2 .run, .server 3 .run, .server 3 (.readHandshake (.ok [112, 99, 49])),
    .server 3 (.wrote 3), .client 3 (.op none),
    .client 3 (.readHandshake (.ok [112, 99, 49])), .client 1 .run, .client 1 .run,
    .client 0 (.call sayHelloId [6] false), .client 5 .run, .client 5 .run, .client 2 .run,
    .client 2 .run, .client 6 .run, .client 6 (.op none), .client 6 (.op none),
    .server 3 (.readFrame (.ok (Channel.requestHeader 1 sayHelloId [5], [5]))), .server 3 .run,
    .server 3 (.returned [8] statusOK), .server 3 .run, .server 1 (.handle 0), .server 4 .run,
    .server 4 (.wrote 17),
    .server 3 (.readFrame (.ok (Channel.requestHeader 2 sayHelloId [6], [6]))), .server 3 .run,
    .server 3 (.returned [9] statusOK), .server 3 .run, .server 1 (.handle 0),
    .server 4 .run, .server 4 (.wrote 17), .client 4 .run,
    .client 4 (.readFrame (.frame
      (Server.responseHeader (Channel.requestHeader 1 sayHelloId [5]) StatusCode.OK [8]) [8])),
    .client 4 (.readFrame (.frame
      (Server.responseHeader (Channel.requestHeader 2 sayHelloId [6]) StatusCode.OK [9]) [9]))]

theorem bounded_of_payloads {up down : List Bytes}
    (hcalls : n.client.shared.1.calls.length < 2 ^ 32)
    (hup : n.link.sent.map (fun f => f.2) = up)
    (hdown : (n.session cfg).out.frames.map (fun f => f.2) = down)
    (hshort : ∀ payload ∈ up ++ down, payload.length < 2 ^ 32) : Bounded cfg n := by
  refine ⟨hcalls, fun f hf => hshort _ (List.mem_append_left _ ?_),
    fun f hf => hshort _ (List.mem_append_right _ ?_)⟩
  · rw [← hup]
    exact List.mem_map_of_mem hf
  · rw [← hdown]
    exact List.mem_map_of_mem hf

theorem fifoRun_end :
    ∃ n, (machine ⟨{}, {}, 0⟩).run initial fifoRun = some n ∧ Bounded ⟨{}, {}, 0⟩ n ∧
      n.client.shared.1.registered = [⟨0, 1⟩, ⟨1, 2⟩] ∧
      n.client.shared.1.calls = [⟨sayHelloId, [5], false⟩, ⟨sayHelloId, [6], false⟩] ∧
      n.client.shared.1.out.invoked = [⟨0, statusOK, [8], .io⟩, ⟨1, statusOK, [9], .io⟩] ∧
      n.server.shared.misses = [] ∧ n.server.shared.registrations = [sayHelloId] ∧
      n.server.shared.runs = [⟨0, 1, sayHelloId, 0, [5], some ([8], statusOK)⟩,
        ⟨0, 2, sayHelloId, 0, [6], some ([9], statusOK)⟩] := by
  have hend : ((machine ⟨{}, {}, 0⟩).run initial fifoRun).map (fun n =>
      decide (n.client.shared.1.registered = [⟨0, 1⟩, ⟨1, 2⟩]) &&
      decide (n.client.shared.1.calls = [⟨sayHelloId, [5], false⟩, ⟨sayHelloId, [6], false⟩]) &&
      decide (n.client.shared.1.out.invoked = [⟨0, statusOK, [8], .io⟩, ⟨1, statusOK, [9], .io⟩]) &&
      decide (n.server.shared.misses = []) &&
      decide (n.server.shared.registrations = [sayHelloId]) &&
      decide (n.server.shared.runs = [⟨0, 1, sayHelloId, 0, [5], some ([8], statusOK)⟩,
        ⟨0, 2, sayHelloId, 0, [6], some ([9], statusOK)⟩]) &&
      decide (n.link.sent.map (fun f => f.2) = [[5], [6]]) &&
      decide ((n.session ⟨{}, {}, 0⟩).out.frames.map (fun f => f.2) = [[8], [9]])) =
      some true := by
    decide +kernel
  obtain ⟨n, hrun, hobs⟩ := Option.map_eq_some_iff.mp hend
  simp only [Bool.and_eq_true, decide_eq_true_eq] at hobs
  obtain ⟨⟨⟨⟨⟨⟨⟨hregistered, hcalls⟩, hinvoked⟩, hmisses⟩, hregistrations⟩, hruns⟩, hsent⟩,
    hframes⟩ := hobs
  exact ⟨n, hrun, bounded_of_payloads (by rw [hcalls]; decide) hsent hframes (by decide),
    hregistered, hcalls, hinvoked, hmisses, hregistrations, hruns⟩

theorem calls_fifo_fifoRun :
    ∃ n, (machine ⟨{}, {}, 0⟩).run initial fifoRun = some n ∧ n.completed = [0, 1] ∧
      Before 1 2 (n.readIds ⟨{}, {}, 0⟩) ∧ Before 1 2 (n.answeredIds ⟨{}, {}, 0⟩) ∧
      Before 0 1 n.completed := by
  obtain ⟨n, hrun, hbounded, hregistered, hcalls, hinvoked, -⟩ := fifoRun_end
  have hfifo := calls_fifo (a := ⟨0, 1⟩) (b := ⟨1, 2⟩) rfl ⟨fifoRun, hrun⟩ hbounded
    (by simp [hregistered]) (by simp [hregistered]) (by decide)
  refine ⟨n, hrun, by rw [State.completed, hinvoked]; rfl, hfifo.1, hfifo.2.2.1, hfifo.2.2.2 ?_⟩
  rw [Channel.Shared.hasCallback, hcalls]
  rfl

end Protocomm.Cpp.Net
