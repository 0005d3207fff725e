import Protocomm.Cpp.Channel.Requests
import Protocomm.Cpp.Net.Order
import Protocomm.Cpp.Server.Results
import Protocomm.SentFrames

/-!
# Calls to a C++ session get their own results

The callback of a call is called with what the handler of its method returned for its
request: the call id leads from the request to the handler and back.
-/

namespace Protocomm.Cpp.Net

open Misc

variable {cfg : Config} {n : State}

/-- The runs of handlers for the session of the channel and a call id. -/
def State.runsFor (cfg : Config) (n : State) (id : UInt32) : List Server.Run :=
  (n.server.shared.runs.filter fun run => run.session == cfg.session).filter
    fun run => run.callId == id

/-- The reply is made of what a handler returned: of a status 16 bits of the code come over
    the wire, and the response only if the status is OK. -/
structure Returned (response : Bytes) (st : Status) (x : Channel.Reply) : Prop where
  status : x.status = Status.ofWire (UInt16.ofInt st.code)
  payload : x.payload = if st.isOK then response else []

theorem returned_reply (r : Channel.Registration) (run : Server.Run) (response : Bytes)
    (st : Status) : Returned response st (r.reply (run.response response st)) := by
  refine ⟨?_, ?_⟩
  · rw [← (code_respond response st).2]
    rfl
  · simp only [Channel.Registration.reply, Server.Run.response, Channel.responsePayload,
      Server.responseHeader, Server.respond]
    by_cases hok : st.isOK = true
    · simp [hok, StatusCode.OK, UInt16.ofInt]
    · simp [hok]

theorem missed_reply (r : Channel.Registration) (miss : Server.Miss) :
    (r.reply miss.response).status.code = StatusCode.Unimplemented ∧
      (r.reply miss.response).payload = [] :=
  ⟨rfl, rfl⟩

/-- A request that the session has read is that of the call with its id. -/
theorem Joined.request_of_read (h : Joined cfg n) (hbounded : Bounded cfg n)
    (hup : (n.session cfg).reads <+: n.link.sent) {f : FrameHeader × Bytes}
    (hf : f ∈ (n.session cfg).reads) {r : Channel.Registration}
    (hr : r ∈ n.client.shared.1.registered) (hid : f.1.callID = r.callId) :
    ∃ c, n.client.shared.1.calls[r.call]? = some c ∧ f = r.request c := by
  obtain ⟨r', hr', c, hc, rfl⟩ :=
    Channel.calm_requested h.client f (List.mem_append_left _ (hup.mem hf))
  have hnodup := Channel.registered_nodup (Channel.reachable_of_calm h.client) hbounded.calls
  obtain rfl := List.inj_on_of_nodup_map hnodup hr' hr hid
  exact ⟨c, hc, rfl⟩

/-- The runs for the session have different call ids. -/
theorem Joined.calledIds_nodup (h : Joined cfg n) (hbounded : Bounded cfg n)
    (hup : (n.session cfg).reads <+: n.link.sent) : (n.calledIds cfg).Nodup := by
  obtain ⟨called, wait, hsplit, hsub, -⟩ := Server.calm_calls h.server
  obtain ⟨hrequests, hids⟩ := h.requests hup
  rw [State.readIds, ← hrequests, hsplit, List.map_append] at hids
  have hnodup := Channel.registered_nodup (Channel.reachable_of_calm h.client) hbounded.calls
  have hsubIds := hsub.map Prod.fst
  rw [List.map_map, ← calledIds_eq] at hsubIds
  exact hnodup.sublist (hsubIds.trans ((List.prefix_append _ _).trans hids).sublist)

/-- The request of a run was read from the session. -/
theorem Joined.read_of_run (h : Joined cfg n) {run : Server.Run}
    (hrun : run ∈ n.server.shared.runs) (hsession : run.session = cfg.session) :
    ∃ f ∈ (n.session cfg).reads, callOf f = (run.callId, run.methodId, run.request) := by
  obtain ⟨called, wait, hsplit, hsub, -⟩ := Server.calm_calls h.server
  have hcalled : (run.callId, run.methodId, run.request) ∈
      n.server.shared.callsOf cfg.session :=
    List.mem_map.mpr ⟨run, List.mem_filter.mpr ⟨hrun, beq_iff_eq.mpr hsession⟩, rfl⟩
  obtain ⟨f, hf, hcall⟩ := List.mem_map.mp (hsub.subset hcalled)
  have hmem : f ∈ n.server.shared.requestsOf cfg.session := hsplit ▸ List.mem_append_left _ hf
  exact ⟨f, List.mem_of_mem_filter hmem, hcall⟩

/-- A reply to a call comes from a response with its id that the session has written. -/
theorem Ordered.response_of_reply (h : Ordered cfg n) (hjoined : Joined cfg n)
    {x : Channel.Reply} (hx : x ∈ n.client.shared.1.out.replies) {r : Channel.Registration}
    (hr : r ∈ n.client.shared.1.registered) (hcall : r.call = x.call) :
    ∃ f ∈ (n.session cfg).out.frames, isResponse f = true ∧ f.1.callID = r.callId ∧
      x = r.reply f := by
  have hmine : n.client.shared.1.isRegistered x.call = true :=
    List.any_eq_true.mpr ⟨r, hr, beq_iff_eq.mpr hcall⟩
  have hmem : x ∈ n.client.shared.1.out.replies.filter
      (fun y => n.client.shared.1.isRegistered y.call) := List.mem_filter.mpr ⟨hx, hmine⟩
  rw [h.completes.replies] at hmem
  obtain ⟨⟨r', f⟩, hpair, rfl⟩ := List.mem_map.mp hmem
  have hzip := List.mem_of_mem_filter hpair
  obtain ⟨hr', hf⟩ := List.of_mem_zip hzip
  obtain rfl := Channel.registered_unique (Channel.reachable_of_calm hjoined.client) hr hr'
    hcall.symm
  obtain ⟨hgot, hresponse⟩ := List.mem_filter.mp hf
  exact ⟨f, h.down.mem hgot, hresponse,
    (key_of_mem_zip (hjoined.answered h.up h.down) hzip).symm, rfl⟩

/-- A reply to a call comes from a run of a handler for the method and the request of the
    call, or from a request whose method had no handler. -/
theorem Ordered.run_of_reply (h : Ordered cfg n) (hjoined : Joined cfg n) (hbounded : Bounded cfg n)
    {x : Channel.Reply} (hx : x ∈ n.client.shared.1.out.replies) {r : Channel.Registration}
    (hr : r ∈ n.client.shared.1.registered) (hcall : r.call = x.call) :
    ∃ c, n.client.shared.1.calls[r.call]? = some c ∧
      ((∃ run ∈ n.server.shared.runs, run.session = cfg.session ∧ run.callId = r.callId ∧
          run.methodId = c.methodId ∧ run.request = c.request ∧
          ∃ response st, run.result = some (response, st) ∧ Returned response st x) ∨
        ⟨cfg.session, r.callId, c.methodId⟩ ∈ n.server.shared.misses ∧
          x.status.code = StatusCode.Unimplemented ∧ x.payload = []) := by
  obtain ⟨f, hf, hresponse, hid, rfl⟩ := h.response_of_reply hjoined hx hr hcall
  rcases Server.calm_explained hjoined.server f hf hresponse with
    ⟨run, hrun, hsession, response, st, hresult, rfl⟩ | ⟨miss, hmiss, hsession, rfl⟩
  · obtain ⟨g, hg, hcallOf⟩ := hjoined.read_of_run hrun hsession
    have hrunId : run.callId = r.callId := hid
    obtain ⟨hcallId, hmethod, hrequest⟩ : g.1.callID = run.callId ∧ g.1.methodID = run.methodId ∧
        g.2 = run.request := by simpa [callOf] using hcallOf
    obtain ⟨c, hc, rfl⟩ := hjoined.request_of_read hbounded h.up hg hr (hcallId.trans hrunId)
    exact ⟨c, hc, Or.inl ⟨run, hrun, hsession, hrunId, hmethod.symm, hrequest.symm, response, st,
      hresult, returned_reply r run response st⟩⟩
  · obtain ⟨g, hg, hcallId, hmethod⟩ :=
      Server.reachable_isRead (Server.reachable_of_calm hjoined.server) miss hmiss
    have hmissId : miss.callId = r.callId := hid
    rw [hsession] at hg
    obtain ⟨c, hc, rfl⟩ := hjoined.request_of_read hbounded h.up (List.mem_of_mem_filter hg) hr
      (hcallId.trans hmissId)
    have hsame : miss = ⟨cfg.session, r.callId, c.methodId⟩ := by
      rw [← hsession, ← hmissId, show c.methodId = miss.methodId from hmethod]
    exact ⟨c, hc, Or.inr ⟨hsame ▸ hmiss, missed_reply r miss⟩⟩

/-- The callback of a call is called with what the one run of the handler of its method
    returned for its request, or the method had no handler. A code that fits the 16 bits of
    the header is the handler's own. -/
theorem replies_correlated (hagreed : cfg.channel.handshakeHeader = cfg.server.handshakeHeader)
    (h : (machine cfg).Reachable initial n) (hbounded : Bounded cfg n) {x : Channel.Reply}
    (hx : x ∈ n.client.shared.1.out.replies) {r : Channel.Registration}
    (hr : r ∈ n.client.shared.1.registered) (hcall : r.call = x.call) :
    ∃ c, n.client.shared.1.calls[r.call]? = some c ∧
      ((∃ run response st, n.runsFor cfg r.callId = [run] ∧ run.methodId = c.methodId ∧
          run.request = c.request ∧ run.result = some (response, st) ∧ Returned response st x ∧
          (0 ≤ st.code ∧ st.code < 2 ^ 16 → x.status.code = st.code)) ∨
        ⟨cfg.session, r.callId, c.methodId⟩ ∈ n.server.shared.misses ∧
          x.status.code = StatusCode.Unimplemented ∧ x.payload = []) := by
  have hjoined := reachable_joined h
  have hordered := reachable_ordered hagreed h hbounded
  obtain ⟨c, hc, hrun | hmiss⟩ := hordered.run_of_reply hjoined hbounded hx hr hcall
  · obtain ⟨run, hrun, hsession, hid, hmethod, hrequest, response, st, hresult, hreturned⟩ := hrun
    have hmine : run ∈ n.server.shared.runs.filter fun run => run.session == cfg.session :=
      List.mem_filter.mpr ⟨hrun, beq_iff_eq.mpr hsession⟩
    have hone := filter_key_eq (hjoined.calledIds_nodup hbounded hordered.up) hmine
    rw [hid] at hone
    refine ⟨c, hc, Or.inl ⟨run, response, st, hone, hmethod, hrequest, hresult, hreturned, ?_⟩⟩
    intro hcode
    rw [hreturned.status, code_ofWire_ofInt hcode]
  · exact ⟨c, hc, Or.inr hmiss⟩

theorem replies_correlated_fifoRun :
    ∃ n, (machine ⟨{}, {}, 0⟩).run initial fifoRun = some n ∧
      (∃ run, n.runsFor ⟨{}, {}, 0⟩ 1 = [run] ∧ run.request = [5]) ∧
      ∃ run, n.runsFor ⟨{}, {}, 0⟩ 2 = [run] ∧ run.request = [6] := by
  obtain ⟨n, hrun, hbounded, hregistered, hcalls, hinvoked, hmisses, -⟩ := fifoRun_end
  have hreply : ∀ x, x ∈ n.client.shared.1.out.invoked.map Channel.Invocation.reply →
      ∀ r ∈ n.client.shared.1.registered, r.call = x.call → ∀ c,
        n.client.shared.1.calls[r.call]? = some c →
        ∃ run, n.runsFor ⟨{}, {}, 0⟩ r.callId = [run] ∧ run.request = c.request := by
    intro x hx r hr hcall c hc
    obtain ⟨c', hc', ⟨run, _, _, hone, -, hrequest, -⟩ | ⟨hmiss, -⟩⟩ :=
      replies_correlated rfl ⟨fifoRun, hrun⟩ hbounded (List.mem_append_left _ hx) hr hcall
    · cases hc.symm.trans hc'
      exact ⟨run, hone, hrequest⟩
    · rw [hmisses] at hmiss
      cases hmiss
  rw [hinvoked, hregistered, hcalls] at hreply
  refine ⟨n, hrun, ?_, ?_⟩
  · exact hreply ⟨0, statusOK, [8]⟩ (by decide) ⟨0, 1⟩ (by decide) rfl _ rfl
  · exact hreply ⟨1, statusOK, [9]⟩ (by decide) ⟨1, 2⟩ (by decide) rfl _ rfl

end Protocomm.Cpp.Net
