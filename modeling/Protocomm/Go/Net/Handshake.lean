import Protocomm.Go.Net.Streams

/-!
# The handshake across a connection

The two sides of a handshake read as many bytes as their own header has, and compare.
When the headers differ, the server may take bytes of the channel's header for a
request and answer it, and the channel may take the answer for the rest of its header.
The bytes cannot match: a request begins with another byte than its answer.
-/

namespace Protocomm.Go.Net

open Misc

variable {cfg : Config} {n n' : State} {act : Action} {i d k : Nat} {peer : Server.Peer}
  {header : Bytes}

/-! ## Two headers -/

/-- The byte after the server's header is the type of a frame. -/
theorem first_frame {b : UInt8} (hframed : peer.Framed header)
    (hb : peer.out.received[header.length]? = some b) : ∃ f ∈ peer.out.frames, f.1.type = b := by
  have hstream := getElem?_of_initial hframed.out.received_initial hb
  rw [List.getElem?_append_right (Nat.le_refl _), Nat.sub_self] at hstream
  cases hframes : peer.out.frames with
  | nil => simp [hframes] at hstream
  | cons f frames =>
      rw [hframes, List.flatMap_cons, ← List.head?_eq_getElem?, List.head?_append,
        head?_frameBytes f] at hstream
      exact ⟨f, List.mem_cons_self, Option.some.inj hstream⟩

/-- The first frame that was read is a request, once some request was read. -/
theorem first_request {f req : FrameHeader × Bytes} {reads : List (FrameHeader × Bytes)}
    (hinput : peer.Input header) (hreads : peer.reads = f :: reads) (hreq : req ∈ peer.reads)
    (htype : req.1.type = FrameRequest) : f.1.type = FrameRequest := by
  cases reads with
  | nil =>
      rw [hreads, List.mem_singleton] at hreq
      rwa [← hreq]
  | cons g reads =>
      apply hinput.requests
      rw [hreads]
      exact List.mem_cons_self

/-- A server that only answers requests sends no header but its own. -/
theorem header_eq {hc : Bytes} (hinput : peer.Input header) (hfed : Fed hc peer) (hne : hc ≠ [])
    (hreply : hc <+: peer.out.received) (hframed : peer.Framed header)
    (hframes : ∀ f ∈ peer.out.frames, f.1.type = FrameResponse ∧
      ∃ req ∈ peer.reads, req.1.type = FrameRequest) : hc = header := by
  by_contra hdiff
  have hlt : header.length < hc.length := by
    by_cases hheader : header = []
    · rw [hheader]
      exact List.length_pos_iff.mpr hne
    · -- the server writes only after it has read its header
      have haccepted : peer.out.accepted = true := by
        by_contra hnot
        have hsilent := (hframed.out.unaccepted hheader (Bool.eq_false_iff.mpr hnot)).2
        rw [Outlet.received, hsilent, List.map_nil, List.prefix_nil] at hreply
        exact hne hreply
      have hinit := hfed.received
      rw [hinput.received (Or.inr haccepted)] at hinit
      refine Nat.lt_of_le_of_ne hinit.length_le fun hlen => hdiff ?_
      exact (hinit.eq_of_length hlen).symm
  -- the next byte of the channel is the type of a frame of each side
  have hbyte := getElem?_of_initial hreply (List.getElem?_eq_getElem hlt)
  obtain ⟨f, hf, hb⟩ := first_frame hframed hbyte
  obtain ⟨hresponse, req, hreq, htype⟩ := hframes f hf
  obtain ⟨f₀, reads, hreads⟩ := List.exists_cons_of_ne_nil (List.ne_nil_of_mem hreq)
  have hfirst := hfed.first f₀ (by rw [hreads]; rfl)
  rw [hinput.received (Or.inl (List.ne_nil_of_mem hreq)), List.getElem?_eq_getElem hlt,
    Option.some.injEq, ← hb, hresponse, first_request hinput hreads hreq htype] at hfirst
  exact absurd hfirst (by decide)

/-! ## Pushes -/

/-- A push puts bytes only on connections of the channels in `chosen`, and after the
    handshake reply. -/
def PushesTo (chosen : Nat → Prop) (n : State) : Action → Prop
  | .server j (.wrote m _) =>
      ∀ hdr payload todo (k : Nat) pc,
        n.server.threads[j]? = some (.push hdr payload todo (some (k, pc))) → 0 < m →
        ∃ i d peer, n.links[k]? = some (i, d) ∧ chosen i ∧
          n.server.shared.peers[k]? = some peer ∧ peer.out.replied = true
  | _ => True

/-- What holds in a net whose pushes are late. -/
structure Agrees (cfg : Config) (chosen : Nat → Prop) (n : State) : Prop where
  output : Server.Output cfg.server.handshakeHeader n.server.shared n.server.threads
  pushes : ∀ (k i d : Nat) peer, n.links[k]? = some (i, d) →
    n.server.shared.peers[k]? = some peer → ∀ f ∈ peer.out.frames, f.1.type = FramePush → chosen i
  agreed : ∀ i d, (n.line i d).received = (cfg.client i).handshakeHeader →
    (cfg.client i).handshakeHeader = cfg.server.handshakeHeader ∧
      ∃ k : Nat, n.links[k]? = some (i, d)

variable {chosen : Nat → Prop}

theorem PushesTo.afterReady {header : Bytes} {j : Nat} {a : Server.Action}
    (h : PushesTo chosen n (.server j a)) : Server.AfterReady header n.server (j, a) := by
  intro hdr payload todo k pc m err peer hpush ha hk hpos
  obtain rfl : a = .wrote m err := ha
  obtain ⟨i, d, peer', -, -, hk', hreplied⟩ := h hdr payload todo k pc hpush hpos
  cases hk.symm.trans hk'
  exact Outlet.ready_of_replied hreplied

theorem Agrees.step_output (h : Agrees cfg chosen n) (hjoined : Joined cfg n)
    (hmove : Move cfg n act n') (hlate : PushesTo chosen n act) :
    Server.Output cfg.server.handshakeHeader n'.server.shared n'.server.threads := by
  cases hmove with
  | client => exact h.output
  | server hg hreads hstep =>
      exact Server.output_keep hjoined.server h.output hlate.afterReady hstep
  | accept hfresh hstep =>
      refine Server.output_keep hjoined.server h.output ?_ hstep
      intro hdr payload todo k pc m err peer _ ha
      cases ha

/-- An answer is a response. -/
theorem type_of_answers {s : Server.Shared} {req f : FrameHeader × Bytes}
    (h : s.Answers k req f) : f.1.type = FrameResponse := by
  cases h with
  | run _ _ _ _ _ _ _ hframe => rw [hframe]; rfl
  | miss _ hframe => rw [hframe]; rfl

theorem Agrees.step_pushes (h : Agrees cfg chosen n) (hjoined : Joined cfg n)
    (hmove : Move cfg n act n') (hlate : PushesTo chosen n act) {peer' : Server.Peer}
    (hlink : n'.links[k]? = some (i, d)) (hk' : n'.server.shared.peers[k]? = some peer')
    {f : FrameHeader × Bytes} (hf : f ∈ peer'.out.frames) (hpush : f.1.type = FramePush) :
    chosen i := by
  rcases hmove.linked hjoined hlink hk' with ⟨id, rfl⟩ | ⟨hold, peer, hk⟩
  · cases hf
  · have hbefore := h.pushes k i d peer hold hk
    rcases hmove.onPeer hk with hsame | ⟨j, g, a, g', new, rfl, hg, -, hserver⟩
    · cases hk'.symm.trans hsame
      exact hbefore f hf hpush
    · obtain ⟨next, hnext, hframes⟩ := hserver.frames hk
      cases hk'.symm.trans hnext
      rcases hframes with hsame | ⟨hdr, payload, m, err, hwriting, rfl, hpos, hadd⟩
      · exact hbefore f (hsame ▸ hf) hpush
      · rw [hadd] at hf
        rcases List.mem_append.mp hf with hf | hf
        · exact hbefore f hf hpush
        · -- the frame of a request is a response
          have hanswers := (Server.reachable_explains hjoined.server).2 g (List.mem_of_getElem? hg)
          rw [List.mem_singleton.mp hf] at hpush
          unfold Server.Goroutine.writing at hwriting
          split at hwriting <;> cases hwriting
          · cases (type_of_answers hanswers).symm.trans hpush
          · obtain ⟨i', d', -, hlink', hchosen, -⟩ := hlate _ _ _ _ _ hg hpos
            cases hold.symm.trans hlink'
            exact hchosen

/-- A channel that reads its header back has the server's header. -/
theorem Agrees.step_agreed (h : Agrees cfg chosen n) (hjoined : Joined cfg n) (hstreams : Streams n)
    (hchosen : ∀ i, chosen i → (cfg.client i).handshakeHeader = cfg.server.handshakeHeader)
    (hmove : Move cfg n act n')
    (hreceived : (n'.line i d).received = (cfg.client i).handshakeHeader) :
    (cfg.client i).handshakeHeader = cfg.server.handshakeHeader ∧
      ∃ k : Nat, n'.links[k]? = some (i, d) := by
  suffices hbefore : (cfg.client i).handshakeHeader = cfg.server.handshakeHeader ∧
      ∃ k : Nat, n.links[k]? = some (i, d) by
    obtain ⟨hsame, k, hk⟩ := hbefore
    exact ⟨hsame, k, getElem?_of_initial hmove.links hk⟩
  rcases hmove.line i d with hsame | ⟨g, a, hg, hreads, hline⟩
  · exact h.agreed i d (hsame ▸ hreceived)
  · generalize n'.line i d = line' at hline hreceived
    cases hline with
    | receive c received =>
        have hgreeted : n.line i d = _ :=
          (Channel.reachable_lined (cfg.client_header i) (hjoined.clients i)).2 _ hg
        obtain rfl : received = (cfg.client i).handshakeHeader := hreceived
        simp only [State.clientReads, hgreeted, Channel.Line.taken, Channel.Line.greeted,
          List.map_nil, List.sum_nil, List.length_nil, Nat.add_zero, List.drop_zero] at hreads
        have hdown := nextBytes_initial hreads
        obtain ⟨k, hlink⟩ := hjoined.link_of_down fun hnil =>
          cfg.client_header i (List.prefix_nil.mp (hnil ▸ hdown))
        obtain ⟨peer, hk, hpeer⟩ := hjoined.linked hlink
        refine ⟨?_, k, hlink⟩
        by_contra hdiff
        have hup : (n.line i d).out.received = (cfg.client i).handshakeHeader := by
          rw [hgreeted]
          simp [Channel.Line.greeted, Outlet.received, Source.tag, Function.comp_def]
        refine hdiff (header_eq ((Server.reachable_input hjoined.server).1 k peer hk)
          (hup ▸ hstreams.up k i d peer hlink hk) (cfg.client_header i) (hpeer ▸ hdown)
          (h.output.1 k peer hk) ?_)
        intro f hf
        rcases (Server.reachable_explains hjoined.server).1.1 k peer hk f hf with
          ⟨hpush, -⟩ | ⟨req, hreq, htype, hanswers⟩
        · exact absurd (hchosen i (h.pushes k i d peer hlink hk f hf hpush)) hdiff
        · exact ⟨type_of_answers hanswers, req, hreq, htype⟩
    | _ => exact h.agreed i d hreceived

theorem agrees_initial : Agrees cfg chosen initial := by
  refine ⟨⟨nofun, ?_⟩, ?_, ?_⟩
  · simp [initial, Server.initial, Server.Goroutine.writing]
  · intro k i d peer hlink
    cases hlink
  · intro i d hreceived
    exact absurd hreceived.symm (cfg.client_header i)

theorem Agrees.step (h : Agrees cfg chosen n) (hreach : (machine cfg).Reachable initial n)
    (hchosen : ∀ i, chosen i → (cfg.client i).handshakeHeader = cfg.server.handshakeHeader)
    (hmove : Move cfg n act n') (hlate : PushesTo chosen n act) : Agrees cfg chosen n' := by
  have hjoined := reachable_joined hreach
  refine ⟨h.step_output hjoined hmove hlate, ?_, ?_⟩
  · intro k i d peer hlink hk f hf hpush
    exact h.step_pushes hjoined hmove hlate hlink hk hf hpush
  · intro i d hreceived
    exact h.step_agreed hjoined (reachable_streams hreach) hchosen hmove hreceived

/-- In a run whose pushes are late a channel that reads its header back has the server's
    header. -/
theorem run_agrees
    (hchosen : ∀ i, chosen i → (cfg.client i).handshakeHeader = cfg.server.handshakeHeader)
    {acts : List Action} (hrun : (machine cfg).run initial acts = some n)
    (hlate : (machine cfg).Meets (PushesTo chosen) initial acts) : Agrees cfg chosen n := by
  refine (Machine.run_invariant
    (P := fun u => (machine cfg).Reachable initial u ∧ Agrees cfg chosen u)
    ?_ ⟨.refl _, agrees_initial⟩ hrun hlate).2
  rintro u act u' ⟨hu, hold⟩ hok hstep
  exact ⟨hu.tail hstep, hold.step hu hchosen (step_move hstep) hok⟩

/-! ## Runs without pushes -/

/-- The application of the server starts a push. -/
def Action.pushes : Action → Bool
  | .server _ a => a.pushes
  | _ => false

theorem no_push_goroutine (hmove : Move cfg n act n') (hact : act.pushes = false)
    (h : ∀ g ∈ n.server.threads, g.isPush = false) :
    ∀ g ∈ n'.server.threads, g.isPush = false := by
  have hstep : ∀ {j : Nat} {a : Server.Action} {server : Pool Server.Shared Server.Goroutine},
      a.pushes = false → (Server.machine cfg.server).step n.server (j, a) = some server →
      ∀ g ∈ server.threads, g.isPush = false := by
    intro j a server ha hstep v hv
    obtain ⟨g, g', new, rest, hplace, hs, hbefore, hafter⟩ := Program.machine_step_at hstep
    obtain ⟨hg', hnew⟩ :=
      (Server.step_move hs).isPush (h g (List.mem_of_getElem? hplace)) ha
    rcases List.mem_cons.mp (hafter.mem_iff.mp hv) with rfl | hv
    · exact hg'
    · rcases List.mem_append.mp hv with hv | hv
      · exact hnew v hv
      · exact h v (hbefore.mem_iff.mpr (List.mem_cons_of_mem g hv))
  cases hmove with
  | client => exact h
  | server _ _ hs => exact hstep hact hs
  | accept _ hs => exact hstep rfl hs

theorem meets_of_quiet {acts : List Action} (hquiet : ∀ act ∈ acts, act.pushes = false) :
    (machine cfg).Meets (PushesTo chosen) initial acts := by
  refine Machine.Meets.of_invariant
    (P := fun n => ∀ g ∈ n.server.threads, g.isPush = false) ?_ ?_ ?_
    (Machine.meets_of_forall hquiet _)
  · intro n act n' hold hact hstep
    exact no_push_goroutine (step_move hstep) hact hold
  · intro n act hold _
    unfold PushesTo
    split
    · intro hdr payload todo k pc hpush
      cases hold _ (List.mem_of_getElem? hpush)
    · trivial
  · simp [initial, Server.initial, Server.Goroutine.isPush]

/-- Both sides of a connection have written `header` and read it, and nothing else. -/
structure Greeted (header : Bytes) (line : Channel.Line) (peer : Server.Peer) : Prop where
  sent : line.out.received = header
  received : line.received = header
  reads : line.reads = []
  peerReceived : peer.received = header
  peerReads : peer.reads = []
  peerSent : peer.out.received = header

/-- Both sides of a connection have read `header`, and what they write is `header` and then
    frames. -/
structure Framing (header : Bytes) (line : Channel.Line) (peer : Server.Peer) : Prop where
  received : line.received = header
  peerReceived : peer.received = header
  sent : line.out.wire <+: wholeWire frameBytes header line.out.frames
  peerSent : peer.out.wire <+: wholeWire frameBytes header peer.out.frames

theorem length_eq_zero_of_taken {reads : List (FrameHeader × Bytes)}
    (h : (reads.map frameSize).sum = 0) : reads = [] := by
  cases reads with
  | nil => rfl
  | cons f reads =>
      simp only [List.map_cons, List.sum_cons, frameSize, FrameHeaderSize] at h
      omega

section

variable (hjoined : Joined cfg n) (hstreams : Streams n) (hagrees : Agrees cfg chosen n)
include hjoined hstreams hagrees

/-- The connection of a channel that has read its header back. -/
theorem framing_of_received (hreceived : (n.line i d).received = (cfg.client i).handshakeHeader) :
    (cfg.client i).handshakeHeader = cfg.server.handshakeHeader ∧
      ∃ (k : Nat) (peer : Server.Peer), n.links[k]? = some (i, d) ∧
        n.server.shared.peers[k]? = some peer ∧
        Framing cfg.server.handshakeHeader (n.line i d) peer := by
  obtain ⟨hsame, k, hlink⟩ := hagrees.agreed i d hreceived
  obtain ⟨peer, hk, hpeer⟩ := hjoined.linked hlink
  have hheader : cfg.server.handshakeHeader ≠ [] := hsame ▸ cfg.client_header i
  have hframed := (hagrees.output.1 k peer hk).out
  have hlined := (Channel.reachable_lined (cfg.client_header i) (hjoined.clients i)).1
  refine ⟨hsame, k, peer, hlink, hk, hsame ▸ hreceived, ?_, hsame ▸ (hlined.framed d).initial,
    hframed.initial⟩
  -- the server has written, so it has read its header
  refine ((Server.reachable_input hjoined.server).1 k peer hk).received (Or.inr ?_)
  by_contra hnot
  have hdown := hstreams.down i d
  rw [hreceived, hpeer, Outlet.received,
    (hframed.unaccepted hheader (Bool.eq_false_iff.mpr hnot)).2] at hdown
  exact cfg.client_header i (List.prefix_nil.mp hdown)

/-- The connection of a channel that has read its header back and nothing else yet. -/
theorem greeted_of_framing (hchosen : ¬ chosen i) (hlink : n.links[k]? = some (i, d))
    (hk : n.server.shared.peers[k]? = some peer)
    (hline : n.line i d = .greeted cfg.server.handshakeHeader cfg.server.handshakeHeader)
    (hframing : Framing cfg.server.handshakeHeader (n.line i d) peer) :
    Greeted cfg.server.handshakeHeader (n.line i d) peer := by
  have hup : (n.line i d).out.received = cfg.server.handshakeHeader := by
    rw [hline]
    simp [Channel.Line.greeted, Outlet.received, Source.tag, Function.comp_def]
  have hreads : peer.reads = [] := by
    have htaken := (hstreams.up k i d peer hlink hk).taken
    rw [hup, taken, hframing.peerReceived] at htaken
    exact length_eq_zero_of_taken (by omega)
  have hframes : peer.out.frames = [] := by
    refine List.eq_nil_iff_forall_not_mem.mpr fun f hf => ?_
    rcases (Server.reachable_explains hjoined.server).1.1 k peer hk f hf with
      ⟨hpush, -⟩ | ⟨req, hreq, -⟩
    · exact hchosen (hagrees.pushes k i d peer hlink hk f hf hpush)
    · rw [hreads] at hreq
      cases hreq
  refine ⟨hup, hframing.received, by rw [hline]; rfl, hframing.peerReceived, hreads, ?_⟩
  have hsent := hframing.peerSent.map Prod.snd
  have hdown := hstreams.down i d
  rw [hframing.received, hjoined.down_eq hlink hk] at hdown
  simp only [hframes, wholeWire_nil, Source.tag, List.map_map, Function.comp_def, List.map_id']
    at hsent
  exact hsent.eq_of_length_le hdown.length_le

end

/-- The step that installs a connection changes nothing on it. -/
theorem Move.installs {x : Nat × UInt64} (h : Move cfg n act n')
    (hx : x ∈ (n'.clients i).shared.1.published) (hnot : x ∉ (n.clients i).shared.1.published) :
    n'.server = n.server ∧ n'.links = n.links ∧ n'.line i x.1 = n.line i x.1 ∧
      ∃ c, .ensureConnected c (.publish x.1) ∈ (n.clients i).threads := by
  cases h with
  | @client i' j a g client hg hreads hstep =>
      by_cases hi : i = i'
      · subst hi
        simp only [Function.update_self] at hx
        obtain ⟨g', new, hs, -⟩ := Program.machine_step_get hstep hg
        obtain ⟨hrecord, hchannel⟩ := Program.recorded_step hs
        rcases (Channel.step_move hchannel).2.published with hsame | ⟨c, conn, rfl, rfl, hadd⟩
        · rw [hsame] at hx
          exact absurd hx hnot
        · rw [hadd] at hx
          obtain rfl := List.mem_singleton.mp ((List.mem_append.mp hx).resolve_left hnot)
          refine ⟨rfl, rfl, ?_, c, List.mem_of_getElem? hg⟩
          simp only [State.line, Function.update_self]
          exact (congrFun (Option.some.inj hrecord) conn).symm
      · simp only [Function.update_of_ne hi] at hx
        exact absurd hx hnot
  | server | accept => exact absurd hx hnot

/-- Handshake agreement: in a run without pushes, when `ensureConnected` has installed a
    connection the two headers are the same, both sides have read it and write only frames
    after it. Right after the step that installs the connection, both sides have written and
    read the header and nothing else. -/
theorem handshake_agreement {acts : List Action} {n n' : State} {act : Action}
    (hrun : (machine cfg).run initial acts = some n) (hstep : (machine cfg).step n act = some n')
    (hquiet : ∀ b ∈ acts ++ [act], b.pushes = false) {i : Nat} {x : Nat × UInt64}
    (hx : x ∈ (n'.clients i).shared.1.published) :
    (cfg.client i).handshakeHeader = cfg.server.handshakeHeader ∧
      ∃ (k : Nat) (peer : Server.Peer), n'.links[k]? = some (i, x.1) ∧
        n'.server.shared.peers[k]? = some peer ∧
        Framing cfg.server.handshakeHeader (n'.line i x.1) peer ∧
        (x ∉ (n.clients i).shared.1.published →
          Greeted cfg.server.handshakeHeader (n'.line i x.1) peer) := by
  have hagrees' := run_agrees (fun _ => False.elim) (Machine.run_concat hrun hstep)
    (meets_of_quiet hquiet)
  have hreach : (machine cfg).Reachable initial n := ⟨acts, hrun⟩
  have hjoined' := reachable_joined (hreach.tail hstep)
  have hstreams' := reachable_streams (hreach.tail hstep)
  have hlined' := Channel.reachable_lined (cfg.client_header i) (hjoined'.clients i)
  obtain ⟨hsame, k, peer, hlink, hk, hframing⟩ :=
    framing_of_received hjoined' hstreams' hagrees' (hlined'.1.published x hx).2
  refine ⟨hsame, k, peer, hlink, hk, hframing, fun hnot => ?_⟩
  obtain ⟨-, -, hline, c, hg⟩ := (step_move hstep).installs hx hnot
  have hlined := Channel.reachable_lined (cfg.client_header i) ((reachable_joined hreach).clients i)
  refine greeted_of_framing hjoined' hstreams' hagrees' id hlink hk ?_ hframing
  rw [hline, ← hsame]
  exact hlined.2 _ hg

/-- Channel 0 dials, the server answers its header, and the channel reads the answer. -/
def connectRun : List Action :=
  [.client 0 0 .connect, .client 0 1 .run, .client 0 1 .run, .client 0 1 .run,
    .client 0 1 (.dial none), .client 0 1 (.wrote 3 none), .accept 1 0 0, .server 1 .run,
    .server 1 .run, .server 2 .run, .server 2 (.readFull (.ok [112, 99, 49])),
    .server 2 (.wrote 3 none), .client 0 1 (.readFull (.ok [112, 99, 49]))]

theorem handshake_agreement_connectRun :
    ∃ n n', (machine ⟨fun _ => {}, {}⟩).run initial connectRun = some n ∧
      (machine ⟨fun _ => {}, {}⟩).step n (.client 0 1 .run) = some n' ∧
      (n'.clients 0).shared.1.published = [(0, 1)] ∧
      ∃ (k : Nat) (peer : Server.Peer), n'.links[k]? = some (0, 0) ∧
        n'.server.shared.peers[k]? = some peer ∧ Greeted [112, 99, 49] (n'.line 0 0) peer := by
  have hbefore : ((machine ⟨fun _ => {}, {}⟩).run initial connectRun).map
      (fun n => (n.clients 0).shared.1.published) = some [] := by decide +kernel
  have hafter : ((machine ⟨fun _ => {}, {}⟩).run initial
      (connectRun ++ [.client 0 1 .run])).map (fun n => (n.clients 0).shared.1.published) =
      some [(0, 1)] := by decide +kernel
  obtain ⟨n, hrun, hnone⟩ := Option.map_eq_some_iff.mp hbefore
  obtain ⟨n', hrun', hpublished⟩ := Option.map_eq_some_iff.mp hafter
  have hstep := Machine.step_of_run_concat hrun hrun'
  refine ⟨n, n', hrun, hstep, hpublished, ?_⟩
  obtain ⟨-, k, peer, hlink, hk, -, hgreeted⟩ := @handshake_agreement ⟨fun _ => {}, {}⟩ connectRun
    n n' (.client 0 1 .run) hrun hstep (by decide) 0 (0, 1) (by rw [hpublished]; decide)
  exact ⟨k, peer, hlink, hk, hgreeted (by rw [hnone]; decide)⟩

end Protocomm.Go.Net
