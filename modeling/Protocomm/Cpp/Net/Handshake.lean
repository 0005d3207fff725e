import Protocomm.Cpp.Channel.Reader
import Protocomm.Cpp.Net.Rest
import Protocomm.Cpp.Server.Gate

/-!
# The handshake of a C++ channel and its session

The headers of the two sides may differ. The session may then take what is left of the
channel's header for a request, and the channel may take the response for the rest of its
header. The bytes cannot match: a request begins with another byte than a response. So a
channel that connects before anything was pushed on its connection has the header of the
server. With headers of the same length every connected channel has it, and its calls are
first in, first out.
-/

namespace Protocomm.Cpp.Server

open Misc

variable {cfg : Config} {p : Pool Shared Thread} {s s' : Shared} {t t' : Thread} {a : Action}
  {new : List Thread} {k : Nat}

/-- A step keeps what a session has received of the handshake, or receives it. -/
theorem Move.received (h : Move cfg s t a s' t' new) (k : Nat) :
    (s'.session k).received = (s.session k).received ∨
      ∃ received, t = .wrapped k .readHandshake ∧ a = .readHandshake (.ok received) ∧
        (s'.session k).received = received := by
  cases h with
  | @handshakeMismatch j _ received hsession | @handshakeAsk j _ hsession
  | @handshakeOK j _ hsession =>
      by_cases hj : j = k
      · subst hj
        refine Or.inr ⟨_, rfl, rfl, ?_⟩
        rw [session_set hsession]
        rfl
      · exact Or.inl (congrArg Session.received (session_set_other hj _))
  | accept => exact Or.inl (session_accept Session.received (fun _ => rfl) rfl)
  | send _ _ hsession | close hsession | pick _ _ _ _ _ hsession | enqueue _ _ _ hsession
  | enqueueSpawn _ _ _ hsession | closeSocket _ hsession | insert hsession
  | connectNoHeader hsession | answerYes hsession | greet _ _ hsession | reply _ _ hsession
  | replyFailed _ hsession | readOther _ _ hsession | read _ _ hsession | respond _ _ hsession
  | pumpEnd hsession | pumpNext _ _ _ hsession | pumpWrote _ _ _ _ hsession
  | pumpWritten _ _ _ _ hsession | pumpFailed _ _ _ hsession | pumpClear hsession =>
      exact Or.inl (session_set_same Session.received hsession rfl)
  | _ => exact Or.inl rfl

/-- A thread comes to a stage of `Run` only from one. -/
theorem Move.stage_back (h : Move cfg s t a s' t' new) {session : Session}
    (hk : s.made[k]? = some session) (ht : t.stage k = .gone) :
    t'.stage k = .gone ∧ ∀ v ∈ new, v.stage k = .gone := by
  obtain ⟨session', -, hgate⟩ := h.gate hk
  cases hgate with
  | keep _ ht' hnew =>
      rw [ht, or_self] at ht'
      exact ⟨ht', fun v hv => (hnew v hv).elim id fun hsame => hsame.trans ht⟩
  | step _ _ hstep =>
      rw [ht] at hstep
      cases hstep

/-- If a session has read a request, then the first frame it has read is one: after another
    frame it reads no more. -/
theorem reachable_first (h : (machine cfg).Reachable initial p) {f req : FrameHeader × Bytes}
    (hf : (p.shared.session k).reads.head? = some f) (hreq : req ∈ p.shared.requestsOf k) :
    isRequest f = true := by
  refine (Program.reachable_local (P := program cfg)
    (I := fun s => ∀ f req, (s.session k).reads.head? = some f → req ∈ s.requestsOf k →
      isRequest f = true)
    (J := fun s t => t.stage k ≠ .gone → ∀ f ∈ (s.session k).reads, isRequest f = true)
    ⟨?_, ?_⟩ ?_ h).1 f req hf hreq
  · simp [initial, Shared.session]
  · simp [initial, Shared.session]
  · intro u hu s' t t' new rest a hperm hI ht hs
    have hmove : Move cfg u.shared t a s' t' new := (step_move hs).2
    rcases hmove.reads k with hreads | ⟨hdr, payload, rfl, rfl, hadd, rfl, rfl⟩
    · have hback : ∀ v, v.stage k ≠ .gone → (v = t' ∨ v ∈ new) →
          ∀ f ∈ (s'.session k).reads, isRequest f = true := by
        intro v hv hmem
        rw [hreads]
        cases hk : u.shared.made[k]? with
        | none => simp [Shared.session, hk]
        | some session =>
            by_cases hgone : t.stage k = .gone
            · obtain ⟨ht', hnew⟩ := hmove.stage_back hk hgone
              rcases hmem with rfl | hmem
              · exact absurd ht' hv
              · exact absurd (hnew v hmem) hv
            · exact ht hgone
      refine ⟨?_, fun hstage => hback t' hstage (Or.inl rfl),
        fun v hv hstage => hback v hstage (Or.inr hv), ?_⟩
      · simp only [Shared.requestsOf, hreads]
        exact hI
      · rw [hreads]
        exact fun v _ hv => hv
    · have hall : ∀ f ∈ (u.shared.session k).reads, isRequest f = true :=
        ht (by simp [Thread.stage, Running.stage])
      refine ⟨?_, ?_, List.forall_mem_nil _, ?_⟩
      · intro f req hf hreq
        rw [Shared.requestsOf, hadd] at hreq
        rw [hadd] at hf
        cases hreads : (u.shared.session k).reads with
        | nil =>
            rw [hreads] at hf hreq
            cases hf
            obtain ⟨hmem, hrequest⟩ := List.mem_filter.mp hreq
            rwa [List.mem_singleton.mp hmem] at hrequest
        | cons g reads =>
            rw [hreads] at hf
            cases hf
            exact hall _ (hreads ▸ List.mem_cons_self)
      · rw [hadd]
        intro hstage
        refine List.forall_mem_append.mpr ⟨hall, List.forall_mem_singleton.mpr ?_⟩
        by_contra hother
        have htype : hdr.type ≠ FrameRequest := by simpa [isRequest] using hother
        simp [Thread.stage, Running.stage, htype] at hstage
      · intro v hv _ hstage
        have hone : (Thread.wrapped k .read).wraps k = 1 := if_pos rfl
        have hzero := wraps_other hu hperm hv (wraps_of_stage hstage)
        omega

end Protocomm.Cpp.Server

namespace Protocomm.Cpp.Net

open Misc

variable {cfg : Config} {n n' : State} {act : Action}

/-- The session has received what the channel has written, and the first frame it has read
    begins right after its header. -/
structure Fed (cfg : Config) (n : State) : Prop where
  received : (n.session cfg).received <+: n.link.wrote
  first : ∀ f, (n.session cfg).reads.head? = some f →
    n.link.wrote[cfg.server.handshakeHeader.length]? = some f.1.type

theorem Fed.grow (h : Fed cfg n) {client : Pool (Channel.Shared × Channel.Link) Channel.Thread}
    (hwrote : n.link.wrote <+: client.shared.2.wrote) : Fed cfg { n with client := client } :=
  ⟨h.received.trans hwrote, fun f hf => getElem?_of_initial hwrote (h.first f hf)⟩

/-- The first byte of the next frame. -/
theorem type_of_nextFrame {header stream : Bytes} {f : FrameHeader × Bytes}
    (h : nextFrame header stream [] f = true) : stream[header.length]? = some f.1.type := by
  rw [nextFrame, delivers_readFrame] at h
  obtain ⟨rest, hread⟩ := ok_of_delivers h
  have hhead := (Go.readFrame_ok hread).1
  rwa [unread, List.map_nil, List.sum_nil, List.drop_zero, List.head?_drop] at hhead

theorem reachable_fed (h : (machine cfg).Reachable initial n) : Fed cfg n := by
  refine Machine.reachable_invariant (P := Fed cfg) ?_ ?_ h
  · exact ⟨List.nil_prefix, by simp [initial, State.session, Server.initial, Server.Shared.session]⟩
  · intro u act u' _ hu hstep
    cases step_move hstep with
    | client ht hreads hclient =>
        obtain ⟨t', new, -, hlink, -⟩ := client_step ht hclient
        refine hu.grow ?_
        rw [hlink]
        exact Channel.wrote_follow _ _ _ _
    | @server i a t server ht hreads hserver =>
        obtain ⟨t', new, hmove⟩ := server_step ht hserver
        refine ⟨?_, ?_⟩
        · show (server.shared.session cfg.session).received <+: u.link.wrote
          rcases hmove.received cfg.session with hsame | ⟨received, rfl, rfl, hreceived⟩
          · rw [hsame]
            exact hu.received
          · rw [hreceived]
            simpa [State.serverReads] using hreads
        · intro f hf
          have hf : (server.shared.session cfg.session).reads.head? = some f := hf
          rcases hmove.reads cfg.session with hsame | ⟨hdr, payload, rfl, rfl, hadd, -⟩
          · rw [hsame] at hf
            exact hu.first f hf
          · rw [hadd] at hf
            cases hold : (u.session cfg).reads with
            | nil =>
                rw [show (u.server.shared.session cfg.session).reads = [] from hold] at hf
                cases hf
                simp only [State.serverReads, bne_self_eq_false, Bool.false_or, hold] at hreads
                exact type_of_nextFrame hreads
            | cons g reads =>
                rw [show (u.server.shared.session cfg.session).reads = g :: reads from hold] at hf
                cases hf
                exact hu.first _ (by rw [hold]; rfl)

/-- Two headers, of which one begins with the other, are the same if what follows them
    begins differently. -/
theorem eq_of_next {header long rest : Bytes} (hinit : long <+: header ++ rest)
    (hsub : header <+: long)
    (hne : ∀ b b', long[header.length]? = some b → rest.head? = some b' → b ≠ b') :
    long = header := by
  obtain ⟨more, rfl⟩ := hsub
  cases more with
  | nil => exact List.append_nil _
  | cons b more =>
      obtain ⟨rest', rfl⟩ := (List.prefix_append_right_inj header).mp hinit
      exact absurd rfl (hne b b (by simp) rfl)

/-- A channel has read no frame before it is connected. -/
theorem got_of_unconnected (h : Joined cfg n) (hdown : n.client.shared.1.connected = false) :
    n.link.got = [] := by
  refine Program.reachable_shared (P := Channel.calmProgram cfg.channel)
    (I := fun s => s.1.connected = false → s.2.got = []) (fun _ => rfl) ?_ h.client hdown
  rintro u hu ⟨s', l'⟩ t t' new a ht hI hs hdown'
  obtain ⟨-, hlink, hs⟩ := Channel.calm_step hs
  obtain rfl : l' = _ := hlink
  have hmove := Channel.step_move hs
  have hdown : u.shared.1.connected = false :=
    Bool.eq_false_iff.mpr fun hup => absurd (hmove.connected_mono hup) (Bool.eq_false_iff.mp hdown')
  rcases hmove.got u.shared.2 cfg.channel.handshakeHeader with hsame | ⟨hdr, payload, rfl, -⟩
  · exact hsame.trans (hI hdown)
  · -- there is no reader yet
    have hplain := Channel.reachable_of_calm hu
    have hcoroutines := Channel.reachable_coroutines hplain
    have hreaders : (u.threads.map Channel.Thread.readers).sum = 0 := by
      cases hstate : u.shared.1.connState with
      | idle | connecting =>
          rw [show u.plain.shared.connState = _ from hstate] at hcoroutines
          exact hcoroutines.2.1
      | connected =>
          have hup := (Channel.reachable_connection hplain).up hstate
          cases hup.symm.trans hdown
      | closed => exact absurd hstate (Channel.calm_open hu).2
    have hpos := Channel.sum_readers_pos (p := u.plain) ⟨_, ht, rfl⟩
    exact absurd hreaders (Nat.pos_iff_ne_zero.mp hpos)

/-- Both sides of the connection have written `header` and read it, and nothing else. -/
structure Greeted (cfg : Config) (header : Bytes) (n : State) : Prop where
  wrote : n.link.wrote = header
  sent : n.link.sent = []
  got : n.link.got = []
  received : (n.session cfg).received = header
  reads : (n.session cfg).reads = []
  replied : (n.session cfg).out.received = header
  frames : (n.session cfg).out.frames = []

/-- The step that connects a channel reads the channel's header from the session. -/
theorem connects (hjoined : Joined cfg n) (hmove : Move cfg n act n')
    (hbefore : n.client.shared.1.connected = false)
    (hafter : n'.client.shared.1.connected = true) (hheader : cfg.channel.handshakeHeader ≠ []) :
    cfg.channel.handshakeHeader <+: (n.session cfg).out.received ∧
      n.link.wrote = cfg.channel.handshakeHeader ∧ n'.link = n.link ∧ n'.server = n.server := by
  cases hmove with
  | server => cases hbefore.symm.trans hafter
  | @client i a t client ht hreads hstep =>
      obtain ⟨t', new, hs, hlink, hplain⟩ := client_step ht hstep
      have hafter : client.shared.1.connected = true := hafter
      obtain ⟨pc, rfl, rfl⟩ : ∃ pc, t = .connectCoro pc ∧ t' = .done := by
        generalize client.shared.1 = s' at hafter hplain
        cases hplain with
        | connectDone pc => exact ⟨pc, rfl, rfl⟩
        | _ => cases hbefore.symm.trans hafter
      obtain ⟨hcalm, -, hs⟩ := Channel.calm_step hs
      rcases Channel.calm_connect hs hcalm with ⟨pc', -, hsame, -⟩ | ⟨rfl | ⟨-, hempty⟩, hdone⟩
      · rw [hsame] at hafter
        cases hbefore.symm.trans hafter
      · obtain ⟨r, rfl⟩ : ∃ r, a = .readHandshake r := by
          cases a with
          | readHandshake r => exact ⟨r, rfl⟩
          | _ => simp [Channel.step, Channel.connectCoroStep] at hs
        obtain rfl : r = .ok cfg.channel.handshakeHeader := of_decide_eq_true hcalm
        refine ⟨List.isPrefixOf_iff_prefix.mp hreads,
          (Channel.calm_greets hjoined.client).2 _ (List.mem_of_getElem? ht) _ rfl, hlink, rfl⟩
      · exact absurd hempty hheader

/-- A session that has written anything has read its own header. -/
theorem received_of_written (hjoined : Joined cfg n)
    (hwritten : (n.session cfg).out.received ≠ []) (hheader : cfg.server.handshakeHeader ≠ []) :
    (n.session cfg).received = cfg.server.handshakeHeader := by
  cases hk : n.server.shared.made[cfg.session]? with
  | none =>
      rw [State.session, Server.Shared.session, hk] at hwritten
      exact absurd rfl hwritten
  | some session =>
      rw [State.session, Server.session_of_some hk] at hwritten ⊢
      have hframed := ((Server.calm_output hjoined.server).session session hk).out
      have haccepted : session.out.accepted = true := by
        by_contra hnot
        rw [Outlet.received,
          (hframed.unaccepted hheader (Bool.eq_false_iff.mpr hnot)).2] at hwritten
        exact hwritten rfl
      obtain ⟨⟨hgated, -⟩, -⟩ := Server.reachable_atGate (Or.inl hheader)
        (Server.reachable_of_calm hjoined.server)
      exact (hgated _ session hk haccepted).received

/-- If the session has pushed nothing, its first frame answers a request, and that is the
    first frame it has read. -/
theorem first_read (hjoined : Joined cfg n)
    (hquiet : ∀ f ∈ (n.session cfg).out.frames, f.1.type ≠ FramePush)
    {f : FrameHeader × Bytes} {frames : List (FrameHeader × Bytes)}
    (hframes : (n.session cfg).out.frames = f :: frames) :
    f.1.type = FrameResponse ∧
      ∃ req, (n.session cfg).reads.head? = some req ∧ req.1.type = FrameRequest := by
  have hf : f ∈ (n.session cfg).out.frames := hframes ▸ List.mem_cons_self
  have htype := (hjoined.kinds f hf).resolve_left (hquiet f hf)
  refine ⟨htype, ?_⟩
  have hanswers := Server.calm_answers hjoined.server
  have hid : f.1.callID ∈ (n.server.shared.requestsOf cfg.session).map fun f => f.1.callID := by
    refine hanswers.mem (List.mem_map.mpr ⟨f, List.mem_filter.mpr ⟨hf, ?_⟩, rfl⟩)
    simp [isResponse, htype]
  obtain ⟨req, hreq, -⟩ := List.mem_map.mp hid
  have hread : req ∈ (n.session cfg).reads := List.mem_of_mem_filter hreq
  obtain ⟨first, reads, hreads⟩ := List.exists_cons_of_ne_nil (List.ne_nil_of_mem hread)
  have hhead : (n.session cfg).reads.head? = some first := by rw [hreads]; rfl
  have hfirst := Server.reachable_first (Server.reachable_of_calm hjoined.server) hhead hreq
  exact ⟨first, hhead, by simpa [isRequest] using hfirst⟩

/-- A channel that connects while nothing was pushed on its connection has the header of the
    server. Both sides have then written and read the header and nothing else, so that both
    read on at the beginning of a frame. -/
theorem handshake_agreed (h : (machine cfg).Reachable initial n)
    (hstep : (machine cfg).step n act = some n')
    (hbefore : n.client.shared.1.connected = false)
    (hafter : n'.client.shared.1.connected = true) (hheader : cfg.channel.handshakeHeader ≠ [])
    (hquiet : ∀ f ∈ (n.session cfg).out.frames, f.1.type ≠ FramePush) :
    cfg.channel.handshakeHeader = cfg.server.handshakeHeader ∧
      Greeted cfg cfg.server.handshakeHeader n' := by
  have hjoined := reachable_joined h
  have hfed := reachable_fed h
  obtain ⟨hread, hwrote, hlink, hserver⟩ :=
    connects hjoined (step_move hstep) hbefore hafter hheader
  have hwritten : (n.session cfg).out.received ≠ [] := fun hnil =>
    hheader (List.prefix_nil.mp (hnil ▸ hread))
  have hsub : cfg.server.handshakeHeader <+: cfg.channel.handshakeHeader := by
    by_cases hempty : cfg.server.handshakeHeader = []
    · rw [hempty]
      exact List.nil_prefix
    · rw [← received_of_written hjoined hwritten hempty, ← hwrote]
      exact hfed.received
  have hreceived := Server.calm_received hjoined.server
  have hsame : cfg.channel.handshakeHeader = cfg.server.handshakeHeader := by
    refine eq_of_next (hread.trans hreceived) hsub fun b b' hb hb' => ?_
    cases hframes : (n.session cfg).out.frames with
    | nil =>
        rw [show (n.server.shared.session cfg.session).out.frames = [] from hframes] at hb'
        cases hb'
    | cons f frames =>
        obtain ⟨hresponse, req, hreq, hrequest⟩ := first_read hjoined hquiet hframes
        have hfirst := hfed.first req hreq
        rw [hwrote, hb, hrequest] at hfirst
        rw [show (n.server.shared.session cfg.session).out.frames = f :: frames from hframes,
          List.flatMap_cons, encodeFrame_eq, List.head?_append, Go.head?_frameBytes,
          hresponse] at hb'
        cases hfirst
        cases hb'
        decide
  have hreads : (n.session cfg).reads = [] := by
    cases hreads : (n.session cfg).reads with
    | nil => rfl
    | cons req reads =>
        have hfirst := hfed.first req (by rw [hreads]; rfl)
        rw [hwrote, hsame, List.getElem?_eq_none (Nat.le_refl _)] at hfirst
        cases hfirst
  have hframes : (n.session cfg).out.frames = [] := by
    cases hframes : (n.session cfg).out.frames with
    | nil => rfl
    | cons f frames =>
        obtain ⟨-, req, hreq, -⟩ := first_read hjoined hquiet hframes
        rw [hreads] at hreq
        cases hreq
  have hreplied : (n.session cfg).out.received = cfg.server.handshakeHeader := by
    rw [show (n.server.shared.session cfg.session).out.frames = [] from hframes, List.flatMap_nil,
      List.append_nil] at hreceived
    exact hreceived.eq_of_length_le (hsame ▸ hread.length_le)
  have hsession : n'.session cfg = n.session cfg := by
    rw [State.session, hserver]
    rfl
  have hgreets := (Channel.calm_greets hjoined.client).1.before hbefore
  refine ⟨hsame, ?_, ?_, ?_, ?_, ?_, ?_, ?_⟩
  · rw [hlink, hwrote, hsame]
  · rw [hlink]
    exact hgreets.1
  · rw [hlink]
    exact got_of_unconnected hjoined hbefore
  · rw [hsession]
    exact received_of_written hjoined hwritten (hsame ▸ hheader)
  · rw [hsession, hreads]
  · rw [hsession, hreplied]
  · rw [hsession, hframes]

theorem handshake_agreed_fifoRun :
    ∃ n n', (machine ⟨{}, {}, 0⟩).run initial (fifoRun.take 18) = some n ∧
      (machine ⟨{}, {}, 0⟩).step n (.client 3 (.readHandshake (.ok [112, 99, 49]))) = some n' ∧
      n.client.shared.1.connected = false ∧ n'.client.shared.1.connected = true ∧
      Greeted ⟨{}, {}, 0⟩ [112, 99, 49] n' := by
  have hbefore : ((machine ⟨{}, {}, 0⟩).run initial (fifoRun.take 18)).map (fun n =>
      !n.client.shared.1.connected && (n.session ⟨{}, {}, 0⟩).out.frames.isEmpty) = some true := by
    decide +kernel
  have hafter : ((machine ⟨{}, {}, 0⟩).run initial (fifoRun.take 18 ++
      [.client 3 (.readHandshake (.ok [112, 99, 49]))])).map
      (fun n => n.client.shared.1.connected) = some true := by
    decide +kernel
  obtain ⟨n, hrun, hobs⟩ := Option.map_eq_some_iff.mp hbefore
  obtain ⟨n', hrun', hconnected⟩ := Option.map_eq_some_iff.mp hafter
  simp only [Bool.and_eq_true, Bool.not_eq_true', List.isEmpty_iff] at hobs
  have hstep := Machine.step_of_run_concat hrun hrun'
  have hquiet : ∀ f ∈ (n.session ⟨{}, {}, 0⟩).out.frames, f.1.type ≠ FramePush := by
    rw [hobs.2]
    exact List.forall_mem_nil _
  exact ⟨n, n', hrun, hstep, hobs.1, hconnected,
    (handshake_agreed ⟨_, hrun⟩ hstep hobs.1 hconnected (by decide) hquiet).2⟩

/-! ## Calls over a connection -/

/-- A connected channel has the header of the server, if the two are equally long. -/
theorem agreed_of_connected
    (hlength : cfg.channel.handshakeHeader.length = cfg.server.handshakeHeader.length)
    (h : (machine cfg).Reachable initial n) (hconnected : n.client.shared.1.connected = true) :
    cfg.channel.handshakeHeader = cfg.server.handshakeHeader := by
  by_cases hheader : cfg.channel.handshakeHeader = []
  · rw [hheader, List.length_nil] at hlength
    rw [hheader, List.length_eq_zero_iff.mp hlength.symm]
  refine Machine.reachable_invariant (P := fun n => n.client.shared.1.connected = true →
    cfg.channel.handshakeHeader = cfg.server.handshakeHeader) ?_ ?_ h hconnected
  · intro hbad
    cases hbad
  · intro u act u' hu hold hstep hafter
    cases hbefore : u.client.shared.1.connected with
    | true => exact hold hbefore
    | false =>
        have hjoined := reachable_joined hu
        obtain ⟨hread, -⟩ := connects hjoined (step_move hstep) hbefore hafter hheader
        have hreceived := hread.trans (Server.calm_received hjoined.server)
        exact (List.prefix_of_prefix_length_le hreceived (List.prefix_append _ _)
          hlength.le).eq_of_length hlength

/-- The calls of a channel that is connected to a session are first in, first out from end to
    end. -/
theorem connected_calls_fifo {a b : Channel.Registration}
    (hlength : cfg.channel.handshakeHeader.length = cfg.server.handshakeHeader.length)
    (h : (machine cfg).Reachable initial n) (hconnected : n.client.shared.1.connected = true)
    (hbounded : Bounded cfg n) (ha : a ∈ n.client.shared.1.registered)
    (hb : b ∈ n.client.shared.1.registered) (hlt : a.callId < b.callId) :
    Before a.callId b.callId (n.readIds cfg) ∧
      ((∃ miss ∈ n.server.shared.misses, miss.session = cfg.session ∧ miss.callId = a.callId) ∨
        Before a.callId b.callId (n.calledIds cfg)) ∧
      Before a.callId b.callId (n.answeredIds cfg) ∧
      (n.client.shared.1.hasCallback a.call = true → Before a.call b.call n.completed) := by
  have hjoined := reachable_joined h
  have hordered := reachable_ordered (agreed_of_connected hlength h hconnected) h hbounded
  have hids := hjoined.ids_before hbounded ha hlt
  exact ⟨hids.of_initial (hjoined.requests hordered.up).2,
    hjoined.called_before hbounded hordered.up ha hlt,
    hids.of_initial (hjoined.responses hordered.up),
    hjoined.completed_before hbounded hordered.completes ha hb hlt⟩

theorem connected_calls_fifo_fifoRun :
    ∃ n, (machine ⟨{}, {}, 0⟩).run initial fifoRun = some n ∧
      n.client.shared.1.connected = true ∧ n.completed = [0, 1] ∧
      Before 1 2 (n.readIds ⟨{}, {}, 0⟩) ∧ Before 0 1 n.completed := by
  have hend : ((machine ⟨{}, {}, 0⟩).run initial fifoRun).map
      (fun n => n.client.shared.1.connected) = some true := by
    decide +kernel
  obtain ⟨n, hrun, hbounded, hregistered, hcalls, hinvoked, -⟩ := fifoRun_end
  rw [hrun] at hend
  have hconnected : n.client.shared.1.connected = true := Option.some.inj hend
  have hfifo := connected_calls_fifo (a := ⟨0, 1⟩) (b := ⟨1, 2⟩) rfl ⟨fifoRun, hrun⟩ hconnected
    hbounded (by simp [hregistered]) (by simp [hregistered]) (by decide)
  refine ⟨n, hrun, hconnected, by rw [State.completed, hinvoked]; rfl, hfifo.1, hfifo.2.2.2 ?_⟩
  rw [Channel.Shared.hasCallback, hcalls]
  rfl

/-- The first call of `fifoRun` is to method 8, which has no handler. -/
def missRun : List Action :=
  (fifoRun.take 29).set 1 (.client 0 (.call 8 [5] false)) ++
    [.server 3 (.readFrame (.ok (Channel.requestHeader 1 8 [5], [5]))), .server 3 .run,
      .server 3 .run, .server 3 (.readFrame (.ok (Channel.requestHeader 2 sayHelloId [6], [6]))),
      .server 3 .run]

/-- The handler of the second call runs, and none for the first. -/
theorem call_without_handler :
    ∃ n, (machine ⟨{}, {}, 0⟩).run initial missRun = some n ∧
      n.client.shared.1.connected = true ∧ Bounded ⟨{}, {}, 0⟩ n ∧
      n.client.shared.1.registered = [⟨0, 1⟩, ⟨1, 2⟩] ∧
      ¬ Before 1 2 (n.calledIds ⟨{}, {}, 0⟩) := by
  have hend : ((machine ⟨{}, {}, 0⟩).run initial missRun).map (fun n =>
      n.client.shared.1.connected && decide (n.client.shared.1.calls.length = 2) &&
      decide (n.client.shared.1.registered = [⟨0, 1⟩, ⟨1, 2⟩]) &&
      decide (n.calledIds ⟨{}, {}, 0⟩ = [2]) &&
      decide (n.link.sent.map (fun f => f.2) = [[5], [6]]) &&
      decide ((n.session ⟨{}, {}, 0⟩).out.frames.map (fun f => f.2) = [])) = some true := by
    decide +kernel
  obtain ⟨n, hrun, hobs⟩ := Option.map_eq_some_iff.mp hend
  simp only [Bool.and_eq_true, decide_eq_true_eq] at hobs
  obtain ⟨⟨⟨⟨⟨hconnected, hcalls⟩, hregistered⟩, hcalled⟩, hsent⟩, hframes⟩ := hobs
  refine ⟨n, hrun, hconnected,
    bounded_of_payloads (by rw [hcalls]; decide) hsent hframes (by decide), hregistered, ?_⟩
  intro hbefore
  cases hbefore [] [] hcalled

end Protocomm.Cpp.Net
