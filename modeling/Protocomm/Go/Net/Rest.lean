import Protocomm.Go.Net.Alone
import Protocomm.Go.Net.Calls
import Protocomm.Go.Server.Duties

/-!
# Every call is completed

When the channels and the server are left alone, they come to rest, and then no channel
with the server's header waits for the server any more: every handshake was answered,
every request was read and answered and every answer was read, or the connection broke and
was torn down. So every callback was called exactly once.
-/

namespace Protocomm.Go.Net

open Misc

variable {cfg : Config} {N : Nat} {n n' : State} {act : Action} {i d k : Nat} {peer : Server.Peer}

/-! ## What was read -/

section

variable (hjoined : Joined cfg n) (hmatched : Matched cfg n i)
include hjoined hmatched

/-- A response that a channel has read names a call that it had registered. -/
theorem registered_of_read {chosen : Nat → Prop} (hagrees : Agrees cfg chosen n)
    {f : FrameHeader × Bytes} (hf : f ∈ (n.line i d).reads) (htype : f.1.type = FrameResponse) :
    ∃ r ∈ (n.clients i).shared.1.registered, r.callID = f.1.callID := by
  obtain ⟨hagreed, k, hlink⟩ := hagrees.agreed i d
    (hmatched.greeted d (List.ne_nil_of_mem hf))
  obtain ⟨peer, hk, -⟩ := hjoined.linked hlink
  rcases (Server.reachable_explains hjoined.server).1.1 k peer hk f
    ((hmatched.down k d peer hlink hk).mem hf) with ⟨hpush, -⟩ | ⟨req, hreq, -, hanswers⟩
  · cases htype.symm.trans hpush
  · obtain ⟨r, hr, call, -, -, rfl⟩ := (Channel.reachable_asks (hjoined.clients i)).1 d req
      ((hmatched.up k d peer hagreed hlink hk).mem hreq)
    exact ⟨r, hr, (Server.Shared.Answers.header hanswers).2.symm⟩

end

/-- A response that a callback waits for is not lost between the reader and the callback. -/
theorem run_heard {acts : List Action} (hrun : (machine cfg).run initial acts = some n)
    (hlate : (machine cfg).Meets (PushesTo cfg.Agreed) initial acts) (hbounded : Bounded n i) :
    Channel.Heard (n.clients i) := by
  revert hlate hbounded
  refine Machine.run_history (P := fun acts n =>
    (machine cfg).Meets (PushesTo cfg.Agreed) initial acts → Bounded n i →
      Channel.Heard (n.clients i)) ?_ ?_ hrun
  · intro _ _ d f hf
    cases hf
  · intro acts u act u' hu hold hstep hlate hbounded'
    have hjoined := reachable_joined ⟨acts, hu⟩
    have hmove := step_move hstep
    have hbounded := hbounded'.before hjoined hmove
    obtain ⟨hagrees, hmatched⟩ := run_matched hu hlate.front hbounded
    have hheard := hold hlate.front hbounded
    rcases hmove.onClient i with hsame | ⟨⟨j, a⟩, hclient⟩
    · rwa [hsame]
    · refine hheard.step ?_ ?_ hclient
      · intro d f hf htype
        exact registered_of_read hjoined hmatched hagrees hf htype
      · exact Channel.callIDs_nodup (Channel.lined_plain ((hjoined.step hmove).clients i))
          hbounded'.calls

theorem nextBytes_there (bytes rest : Bytes) : nextBytes (bytes ++ rest) bytes = true := by
  let buf : Vector UInt8 bytes.length := ⟨bytes.toArray, rfl⟩
  have hread : readFull (bytes ++ rest) bytes.length = .ok (buf, rest) := readFull_append buf rest
  rw [nextBytes, hread]
  exact beq_self_eq_true _

/-- Whoever can read no more frame of a stream has read all. -/
theorem eq_of_drained {header stream : Bytes} {frames reads : List (FrameHeader × Bytes)}
    (hstream : stream = header ++ frames.flatMap frameBytes)
    (hreadable : ∀ f ∈ frames, Sized f ∧ f.2.length < 2 ^ 32) (hreads : reads <+: frames)
    (hdrained : ∀ f,
      nextFrame (stream.drop (header.length + (reads.map frameSize).sum)) f = false) :
    reads = frames := by
  obtain ⟨more, rfl⟩ := hreads
  cases more with
  | nil => exact (List.append_nil reads).symm
  | cons f more =>
      obtain ⟨hsized, hshort⟩ := hreadable f (List.mem_append_right _ List.mem_cons_self)
      have hnext := hdrained f
      rw [hstream, nextFrame, readFrame_there hsized hshort] at hnext
      simp at hnext

/-! ## Broken connections -/

theorem broken_of_closed (hjoined : Joined cfg n) (hlink : n.links[k]? = some (i, d))
    (hk : n.server.shared.peers[k]? = some peer) (hclosed : peer.closed = true) :
    n.broken i d = true := by
  simp [State.broken, hjoined.idxOf hlink, hk, hclosed]

/-- What holds of a connection that is not broken. -/
theorem open_of_unbroken (hjoined : Joined cfg n) (h : n.broken i d = false) :
    (n.line i d).out.failed = false ∧
      (∀ (k : Nat) peer, n.links[k]? = some (i, d) → n.server.shared.peers[k]? = some peer →
        peer.closed = false ∧ peer.out.failed = false) ∧
      ((i, d) ∉ n.links → n.server.shared.listenerClosed = false) := by
  simp only [State.broken, Bool.or_eq_false_iff] at h
  refine ⟨h.1.2, fun k peer hlink hk => ?_, fun hnot => ?_⟩
  · have hpeer := h.2
    rw [hjoined.idxOf hlink, hk] at hpeer
    exact Bool.or_eq_false_iff.mp hpeer
  · have hnone := h.2
    rwa [List.idxOf_eq_length hnot, hjoined.length, List.getElem?_eq_none (Nat.le_refl _)] at hnone

/-- A step that comes without the server comes in the net left alone. -/
theorem client_of_winds {g : Channel.Goroutine} {a : Channel.Action}
    (hw : Channel.winds (n.clients i).shared.1 g a = true) :
    n.clientAlone i g a = true ∧ n.clientReads i g a = true := by
  cases g with
  | app => cases hw
  | ensureConnected c pc =>
      cases pc with
      | readHeader => cases hw
      | _ => exact ⟨rfl, rfl⟩
  | readLoop conn gen pc =>
      cases pc with
      | read =>
          cases a with
          | readFrame r =>
              cases r with
              | error e =>
                  have hclosed : (n.clients i).shared.1.closedConns.contains conn = true := hw
                  refine ⟨?_, rfl⟩
                  simp only [State.clientAlone, State.broken, hclosed, Bool.or_true, Bool.true_or]
              | ok f => cases hw
          | _ => cases hw
      | _ => exact ⟨rfl, rfl⟩
  | _ => exact ⟨rfl, rfl⟩

theorem server_of_winds (hjoined : Joined cfg n) {g : Server.Goroutine} {a : Server.Action}
    (hw : Server.winds n.server.shared g a = true) (haccept : a ≠ .accepted) :
    n.serverAlone g a = true ∧ n.serverReads g a = true := by
  have hcut : ∀ k, n.server.shared.isClosed k = true →
      (n.links[k]?.any fun c => n.broken c.1 c.2) = true := by
    intro k hclosed
    obtain ⟨peer, hk, hclosed⟩ :
        ∃ peer, n.server.shared.peers[k]? = some peer ∧ peer.closed = true := by
      simpa [Server.Shared.isClosed, Option.any_eq_true] using hclosed
    have hlt : k < n.links.length := by
      rw [hjoined.length]
      exact (List.getElem?_eq_some_iff.mp hk).1
    have hlink := List.getElem?_eq_getElem hlt
    rw [hlink, Option.any_some]
    exact broken_of_closed hjoined hlink hk hclosed
  cases g with
  | app => cases hw
  | acceptLoop pc =>
      cases pc with
      | accept =>
          cases a with
          | acceptFailed => exact ⟨hw, rfl⟩
          | _ => cases hw
      | _ =>
          cases a with
          | accepted => exact absurd rfl haccept
          | _ => exact ⟨rfl, rfl⟩
  | handleConn k pc =>
      cases pc with
      | readHandshake =>
          cases a with
          | readFull r =>
              cases r with
              | error e => exact ⟨hcut k hw, rfl⟩
              | ok received => cases hw
          | _ => cases hw
      | read =>
          cases a with
          | readFrame r =>
              cases r with
              | error e => exact ⟨hcut k hw, rfl⟩
              | ok f => cases hw
          | _ => cases hw
      | _ =>
          cases a with
          | accepted => exact absurd rfl haccept
          | _ => exact ⟨rfl, rfl⟩
  | _ =>
      cases a with
      | accepted => exact absurd rfl haccept
      | _ => exact ⟨rfl, rfl⟩

/-! ## At rest -/

section

variable (hrest : (alone cfg N).AtRest n)
include hrest

theorem client_stuck (hi : i < N) {g : Channel.Goroutine} {a : Channel.Action}
    {lines' : Nat → Channel.Line} (hg : g ∈ (n.clients i).threads)
    (halone : n.clientAlone i g a = true) (hreads : n.clientReads i g a = true)
    (hrecord : Channel.record (cfg.client i) (n.clients i).shared.2 g a = some lines') :
    Channel.step (cfg.client i) (n.clients i).shared.1 g a = none := by
  obtain ⟨j, hj⟩ := List.mem_iff_getElem?.mp hg
  by_contra hsome
  obtain ⟨⟨s', g', new⟩, hr⟩ := Option.ne_none_iff_exists'.mp hsome
  have hs : (Channel.lined (cfg.client i)).step (n.clients i).shared g a =
      some ((s', lines'), g', new) := by
    simp only [Channel.lined, Program.recorded, hrecord]
    rw [show (Channel.program (cfg.client i)).step (n.clients i).shared.1 g a = _ from hr]
  have hstep := Program.machine_step_of hj hs
  have hnone := hrest (.client i j a)
  simp [alone, State.internal, hi, hj, halone, step, hstep, hreads] at hnone

theorem server_stuck {g : Server.Goroutine} {a : Server.Action} (hg : g ∈ n.server.threads)
    (halone : n.serverAlone g a = true) (hreads : n.serverReads g a = true) :
    Server.step cfg.server n.server.shared g a = none := by
  obtain ⟨j, hj⟩ := List.mem_iff_getElem?.mp hg
  by_contra hsome
  obtain ⟨⟨s', g', new⟩, hs⟩ := Option.ne_none_iff_exists'.mp hsome
  have hstep := Program.machine_step_of (P := Server.program cfg.server) hj hs
  have hnone := hrest (.server j a)
  simp [alone, State.internal, hj, halone, step, Server.machine, hstep, hreads] at hnone

theorem client_rests (hi : i < N) : Channel.Resting (cfg.client i) (n.clients i).plain := by
  intro g hg a hw hfree
  obtain ⟨lines', hrecord⟩ := Channel.exists_record (cfg.client i) (n.clients i).shared.2 g hfree
  obtain ⟨halone, hreads⟩ := client_of_winds hw
  exact client_stuck hrest hi hg halone hreads hrecord

theorem server_rests (hjoined : Joined cfg n) : (Server.winding cfg.server).AtRest n.server := by
  rintro ⟨j, a⟩
  by_contra hsome
  obtain ⟨server, hstep⟩ := Option.ne_none_iff_exists'.mp hsome
  obtain ⟨g, g', new, hg, hs, -⟩ := Program.machine_step_eq hstep
  obtain ⟨hw, hs⟩ := Program.restrict_step.mp hs
  have haccept : a ≠ .accepted := by
    rintro rfl
    obtain ⟨rfl, -⟩ := (Server.step_move hs).accept_at
    cases hw
  obtain ⟨halone, hreads⟩ := server_of_winds hjoined hw haccept
  cases (server_stuck hrest (List.mem_of_getElem? hg) halone hreads).symm.trans hs

/-- An open connection has a handler that waits for the channel. -/
theorem rest_handler (hjoined : Joined cfg n) (hk : n.server.shared.peers[k]? = some peer)
    (hopen : peer.closed = false) :
    .handleConn k .readHandshake ∈ n.server.threads ∨ .handleConn k .read ∈ n.server.threads := by
  have hserver := server_rests hrest hjoined
  by_contra hnone
  rw [not_or] at hnone
  have hover := Server.reachable_over hjoined.server (List.getElem?_eq_some_iff.mp hk).1 ?_
  · obtain ⟨peer', hk', hclosed⟩ := hover.closed
    cases hk.symm.trans hk'
    cases hopen.symm.trans hclosed
  · intro v hv
    by_contra hhandles
    cases v with
    | acceptLoop pc =>
        have hawaits := Server.rest_acceptLoop hjoined.server hserver hv
        cases pc with
        | accept => exact hhandles rfl
        | _ => exact hawaits
    | handleConn k' pc =>
        obtain rfl : k' = k := by
          by_contra hne
          exact hhandles (if_neg hne)
        have hawaits := Server.rest_handleConn hjoined.server hserver hv
        cases pc with
        | readHandshake => exact hnone.1 hv
        | read => exact hnone.2 hv
        | _ => exact hawaits
    | _ => exact hhandles rfl

/-- The server waits for connections unless its listener is closed. -/
theorem rest_accepts (hjoined : Joined cfg n)
    (hlistens : n.server.shared.listenerClosed = false) :
    .acceptLoop .accept ∈ n.server.threads := by
  have hserver := server_rests hrest hjoined
  have hopen : n.server.shared.done = false := by
    by_contra hdone
    rcases (Server.reachable_pending hjoined.server).closes (Bool.eq_true_of_not_eq_false hdone)
      with hclosed | hg
    · cases hlistens.symm.trans hclosed
    · cases (Server.rest_shutdown hjoined.server hserver hg).1
  obtain ⟨pc, hg⟩ := Server.reachable_acceptLoop hjoined.server hopen
  have hawaits := Server.rest_acceptLoop hjoined.server hserver hg
  cases pc with
  | accept => exact hg
  | _ => exact absurd hawaits id

/-- A connection that was dialled is accepted unless it is broken. -/
theorem rest_linked (hi : i < N) (hjoined : Joined cfg n) (hopen : n.broken i d = false)
    (hd : d < (n.clients i).shared.1.dialled) : ∃ k : Nat, n.links[k]? = some (i, d) := by
  by_contra hnone
  have hnot : (i, d) ∉ n.links := fun hmem => hnone (List.mem_iff_getElem?.mp hmem)
  have hlistens := (open_of_unbroken hjoined hopen).2.2 hnot
  obtain ⟨j, hj⟩ := List.mem_iff_getElem?.mp (rest_accepts hrest hjoined hlistens)
  have hs : (Server.program cfg.server).step n.server.shared (.acceptLoop .accept) .accepted =
      some _ := if_neg (Bool.eq_false_iff.mp hlistens)
  have hstep := Program.machine_step_of (a := Server.Action.accepted) hj hs
  have haccept := hrest (.accept j i d)
  simp [alone, State.internal, hi, hd, step, Server.machine, hstep, hnot] at haccept

section

variable (hi : i < N) (halive : (n.clients i).shared.1.panicked = false)
include hi halive

/-- The reader of a connection waits for a frame only while the connection is not broken. -/
theorem rest_unbroken {gen : UInt64} (hg : .readLoop d gen .read ∈ (n.clients i).threads) :
    n.broken i d = false := by
  by_contra hbroken
  have hnone := client_stuck (a := .readFrame (.error "")) hrest hi hg
    (Bool.eq_true_of_not_eq_false hbroken) rfl rfl
  simp [Channel.step, halive, Channel.readLoopStep] at hnone

/-- A channel does not wait for a frame that is there. -/
theorem client_drained {gen : UInt64} (hg : .readLoop d gen .read ∈ (n.clients i).threads)
    (hlink : n.links[k]? = some (i, d)) (f : FrameHeader × Bytes) :
    nextFrame ((n.down i d).drop (n.line i d).taken) f = false := by
  by_contra hnext
  have hnone := client_stuck (a := .readFrame (.ok f)) hrest hi hg
    (List.contains_iff_mem.mpr (List.mem_of_getElem? hlink))
    (Bool.eq_true_of_not_eq_false hnext) rfl
  simp [Channel.step, halive, Channel.readLoopStep] at hnone

/-- A channel waits for the answer to its header only while the connection is not broken. -/
theorem rest_greeting {c : Channel.Caller}
    (hg : .ensureConnected c (.readHeader d) ∈ (n.clients i).threads) : n.broken i d = false := by
  by_contra hbroken
  have hnone := client_stuck (a := .readFull (.error "")) hrest hi hg
    (Bool.eq_true_of_not_eq_false hbroken) rfl rfl
  simp [Channel.step, halive, Channel.ensureConnectedStep] at hnone

/-- A channel does not wait for an answer to its header that is there. -/
theorem client_greeted {c : Channel.Caller}
    (hg : .ensureConnected c (.readHeader d) ∈ (n.clients i).threads) :
    nextBytes ((n.down i d).drop (n.line i d).taken) (cfg.client i).handshakeHeader = false := by
  by_contra hnext
  have hnone := client_stuck (a := .readFull (.ok (cfg.client i).handshakeHeader)) hrest hi hg rfl
    (Bool.eq_true_of_not_eq_false hnext) rfl
  simp [Channel.step, halive, Channel.ensureConnectedStep] at hnone

end

/-- The server does not wait for a header that is there. -/
theorem server_greeted (hk : n.server.shared.peers[k]? = some peer) (hopen : peer.closed = false)
    (hg : .handleConn k .readHandshake ∈ n.server.threads) :
    nextBytes ((n.up k).drop (n.taken k)) cfg.server.handshakeHeader = false := by
  by_contra hnext
  have hnone := server_stuck (a := .readFull (.ok cfg.server.handshakeHeader)) hrest hg rfl
    (Bool.eq_true_of_not_eq_false hnext)
  simp only [Server.step, hk, Server.handleConnStep, hopen] at hnone
  simp at hnone
  split at hnone <;> cases hnone

/-- The server does not wait for a frame that is there. -/
theorem server_drained (hk : n.server.shared.peers[k]? = some peer) (hopen : peer.closed = false)
    (hg : .handleConn k .read ∈ n.server.threads) (f : FrameHeader × Bytes) :
    nextFrame ((n.up k).drop (n.taken k)) f = false := by
  by_contra hnext
  have hnone := server_stuck (a := .readFrame (.ok f)) hrest hg rfl
    (Bool.eq_true_of_not_eq_false hnext)
  simp [Server.step, hk, Server.handleConnStep, hopen] at hnone

end

/-! ## Nobody waits for the server -/

section

variable {chosen : Nat → Prop} (hrest : (alone cfg N).AtRest n) (hi : i < N)
  (hjoined : Joined cfg n) (hagrees : Agrees cfg chosen n)
  (halive : (n.clients i).shared.1.panicked = false)

include hrest hjoined hagrees in
/-- The output of a peer whose handler waits for a frame is complete. -/
theorem rest_down (hlink : n.links[k]? = some (i, d)) (hk : n.server.shared.peers[k]? = some peer)
    (hfailed : peer.out.failed = false) (hg : .handleConn k .read ∈ n.server.threads) :
    n.down i d = cfg.server.handshakeHeader ++ peer.out.frames.flatMap frameBytes := by
  obtain ⟨peer', hk', hready⟩ := Server.reachable_handshake hjoined.server _ hg
  cases hk.symm.trans hk'
  have hunlocked := Server.rest_unlocked hjoined.server (server_rests hrest hjoined) hk
  rw [hjoined.down_eq hlink hk]
  exact ((hagrees.output.1 k peer hk).between hready hfailed hunlocked).received_eq

include hrest hi hjoined hagrees halive

/-- No channel with the header of the server waits for a handshake. -/
theorem rest_handshake (hagreed : cfg.Agreed i) (c : Channel.Caller) :
    .ensureConnected c (.readHeader d) ∉ (n.clients i).threads := by
  intro hg
  have hgreeted : n.line i d = _ :=
    (Channel.reachable_lined (cfg.client_header i) (hjoined.clients i)).2 _ hg
  have hopen := rest_greeting hrest hi halive hg
  have hd := ((Channel.reachable_published (Channel.lined_plain (hjoined.clients i))).2 _ hg d
    rfl).1
  obtain ⟨k, hlink⟩ := rest_linked hrest hi hjoined hopen hd
  obtain ⟨peer, hk, -⟩ := hjoined.linked hlink
  obtain ⟨hclosed, hfailed⟩ := (open_of_unbroken hjoined hopen).2.1 k peer hlink hk
  have hsame : (cfg.client i).handshakeHeader = cfg.server.handshakeHeader := hagreed
  rcases rest_handler hrest hjoined hk hclosed with hread | hread
  · -- the server has the header of the channel
    obtain ⟨peer', hk', hnone, hempty, -⟩ := (Server.reachable_input hjoined.server).2 _ hread
    cases hk.symm.trans hk'
    have hbytes := server_greeted hrest hk hclosed hread
    have hup : n.up k = cfg.server.handshakeHeader := by
      rw [State.up_eq hlink, hgreeted, ← hsame]
      simp [Channel.Line.greeted, Outlet.received, Source.tag, Function.comp_def]
    rw [hup, State.taken_eq hk, taken, hnone, hempty] at hbytes
    have hthere := nextBytes_there cfg.server.handshakeHeader []
    rw [List.append_nil] at hthere
    cases hthere.symm.trans hbytes
  · -- the channel has the answer of the server
    have hbytes := client_greeted hrest hi halive hg
    rw [rest_down hrest hjoined hagrees hlink hk hfailed hread, hgreeted, hsame]
      at hbytes
    cases (nextBytes_there _ _).symm.trans hbytes

variable (hstreams : Streams n) (hbounded : Bounded n i) (hmatched : Matched cfg n i)
include hstreams hbounded hmatched

/-- The server has read and answered every request on a connection that a reader still
    reads, and the reader has read every answer. -/
theorem rest_answers {gen : UInt64} (hg : .readLoop d gen .read ∈ (n.clients i).threads)
    {r : Channel.Registration} (hr : r ∈ (n.clients i).shared.1.registered) (hconn : r.conn = d) :
    ∃ f ∈ (n.line i d).reads, f.1.type = FrameResponse ∧ f.1.callID = r.callID := by
  subst hconn
  have hplain := Channel.lined_plain (hjoined.clients i)
  have hresting := client_rests hrest hi
  have hserver := server_rests hrest hjoined
  have hopen := rest_unbroken hrest hi halive hg
  obtain ⟨hfailed, hpeers, -⟩ := open_of_unbroken hjoined hopen
  have hlined := (Channel.reachable_lined (cfg.client_header i) (hjoined.clients i)).1
  obtain ⟨hreplied, hreceived⟩ :=
    hlined.published _ (Channel.reachable_registered hplain r hr)
  obtain ⟨hsame, k, peer, hlink, hk, hframing⟩ :=
    framing_of_received hjoined hstreams hagrees hreceived
  have hheader : cfg.server.handshakeHeader ≠ [] := hsame ▸ cfg.client_header i
  obtain ⟨hclosed, hpeerOpen⟩ := hpeers k peer hlink hk
  have hhandler : .handleConn k .read ∈ n.server.threads := by
    refine (rest_handler hrest hjoined hk hclosed).resolve_left fun hread => ?_
    obtain ⟨peer', hk', hnone, -⟩ := (Server.reachable_input hjoined.server).2 _ hread
    cases hk.symm.trans hk'
    exact hheader (hframing.peerReceived.symm.trans hnone)
  -- the request was written
  obtain ⟨f, hf, hid⟩ : ∃ f ∈ (n.line i r.conn).out.frames, f.1.callID = r.callID := by
    rcases Channel.reachable_written (hjoined.clients i) hr with (hbad | hsent) | ⟨g, hg, hsends⟩
    · cases hfailed.symm.trans hbad
    · exact hsent
    · cases g with
      | asyncUnaryCall => exact absurd hg (Channel.rest_asyncUnaryCall hplain hresting halive)
      | _ => exact absurd hsends (Nat.lt_irrefl 0)
  -- and read by the server
  have hreads : peer.reads = (n.line i r.conn).out.frames := by
    have hunlocked := Channel.rest_writeMu hplain hresting halive
    have hup := (hlined.between hunlocked r.conn hreplied hfailed).received_eq
    refine eq_of_drained hup (fun f hf => hbounded.readable_up hjoined hf)
      (hmatched.up k r.conn peer hsame hlink hk) fun f => ?_
    have hdrained := server_drained hrest hk hclosed hhandler f
    rw [State.up_eq hlink, State.taken_eq hk, taken, hframing.peerReceived] at hdrained
    rw [hsame]
    exact hdrained
  have hasked : n.server.shared.Asked (k, r.callID) := by
    obtain ⟨r', -, call, -, -, rfl⟩ :=
      (Channel.reachable_asks (hjoined.clients i)).1 r.conn f hf
    refine ⟨_, ?_, rfl, hid⟩
    simpa [Server.Shared.readsOf, hk, hreads] using hf
  -- it was answered
  obtain ⟨f', hf', htype, hid'⟩ : ∃ f ∈ peer.out.frames,
      f.1.type = FrameResponse ∧ f.1.callID = r.callID := by
    rcases Server.reachable_responded hjoined.server hasked with
      ⟨peer', hk', hresponded⟩ | ⟨v, hv, hattends⟩
    · cases hk.symm.trans hk'
      rcases hresponded with hbad | hbad | hanswer
      · cases hclosed.symm.trans hbad
      · cases hpeerOpen.symm.trans hbad
      · exact hanswer
    · cases v with
      | handleConn k' pc =>
          have hawaits := Server.rest_handleConn hjoined.server hserver hv
          cases pc with
          | readHandshake | read => exact absurd hattends id
          | _ => exact absurd hawaits id
      | request => exact absurd hv (Server.rest_request hjoined.server hserver)
      | _ => exact absurd hattends id
  -- and the answer was read by the channel
  have hall : (n.line i r.conn).reads = peer.out.frames := by
    refine eq_of_drained (rest_down hrest hjoined hagrees hlink hk hpeerOpen hhandler)
      (fun f hf => hbounded.readable_down hjoined hk hf) (hmatched.down k r.conn peer hlink hk)
      fun f => ?_
    have hdrained := client_drained hrest hi halive hg hlink f
    rwa [Channel.Line.taken, show (n.line i r.conn).received = _ from hreceived, hsame] at hdrained
  exact ⟨f', hall ▸ hf', htype, hid'⟩

/-- No callback is pending on a connection that a reader still reads. -/
theorem rest_pending (hheard : Channel.Heard (n.clients i)) {gen : UInt64} {id : UInt32}
    {cb : Channel.Callback} (hlookup : (n.clients i).shared.1.pending.lookup id = some cb)
    (hnil : cb.isNil = false) (hconn : (n.clients i).shared.1.conn = some d)
    (hg : .readLoop d gen .read ∈ (n.clients i).threads) : False := by
  have hplain := Channel.lined_plain (hjoined.clients i)
  obtain ⟨r, hr, rfl, -, -, hconn'⟩ := Channel.reachable_pending hplain id cb hlookup
  obtain ⟨f, hf, htype, hid⟩ := rest_answers hrest hi hjoined hagrees halive hstreams hbounded
    hmatched hg hr (Option.some.inj (hconn'.symm.trans hconn))
  obtain ⟨gen', hdispatch⟩ := hheard d f hf htype cb (hid ▸ hlookup) hnil
  cases (Channel.rest_readLoop hplain (client_rests hrest hi) halive hdispatch).1

end

/-- `N` channels and the server, left alone, come to rest: the applications call no method,
    handlers return, a read fails only on a broken connection. In every state at rest that
    a run leads to whose pushes come after the handshake, every call of a channel that has
    the header of the server is completed: its callback was called exactly once, with the
    response or with an error, whatever was cut, closed or shut down on the way. -/
theorem calls_completed (cfg : Config) (N : Nat) :
    (alone cfg N).Terminates ∧
      ∀ acts n, (machine cfg).run initial acts = some n →
        (machine cfg).Meets (PushesTo cfg.Agreed) initial acts → (alone cfg N).AtRest n →
        ∀ i < N, cfg.Agreed i → Bounded n i → (n.clients i).shared.1.panicked = false →
          ∀ (c : Nat) call, (n.clients i).shared.1.calls[c]? = some call → call.isNil = false →
            (n.clients i).shared.1.invocations (only c) = 1 := by
  refine ⟨comes_to_rest cfg N, ?_⟩
  intro acts n hrun hlate hrest i hi hagreed hbounded halive c call hcall hnil
  have hjoined := reachable_joined ⟨acts, hrun⟩
  have hstreams := reachable_streams ⟨acts, hrun⟩
  obtain ⟨hagrees, hmatched⟩ := run_matched hrun hlate hbounded
  rcases Channel.rest_call (Channel.lined_plain (hjoined.clients i)) (client_rests hrest hi) halive
    hbounded.calls hcall hnil with
    hone | ⟨-, ⟨id, conn, hlookup, hconn, hg⟩ | ⟨-, caller, conn, hg⟩⟩
  · exact hone
  · exact absurd hg fun hg => rest_pending hrest hi hjoined hagrees halive hstreams hbounded
      hmatched (run_heard hrun hlate hbounded) hlookup rfl hconn hg
  · exact absurd hg (rest_handshake hrest hi hjoined hagrees halive hagreed caller)

/-- Channel 0 and the server wait for each other on connection 0, and nothing is on its
    way. -/
structure Waiting (n : State) : Prop where
  client : (n.clients 0).threads = [.app, .done, .readLoop 0 1 .read]
  server : n.server.threads = [.app, .acceptLoop .accept, .handleConn 0 .read, .done]
  links : n.links = [(0, 0)]
  dialled : (n.clients 0).shared.1.dialled = 1
  unbroken : n.broken 0 0 = false
  listens : n.server.shared.listenerClosed = false
  up : (n.up 0).drop (n.taken 0) = []
  down : (n.down 0 0).drop (n.line 0 0).taken = []

theorem Waiting.client_stuck (h : Waiting n) (cfg : Config) {g : Channel.Goroutine}
    {a : Channel.Action} (hg : g ∈ (n.clients 0).threads) (halone : n.clientAlone 0 g a = true)
    (hreads : n.clientReads 0 g a = true) (s : Channel.Shared) :
    Channel.step (cfg.client 0) s g a = none := by
  rw [h.client] at hg
  simp only [List.mem_cons, List.not_mem_nil, or_false] at hg
  rcases hg with rfl | rfl | rfl
  · cases halone
  · simp [Channel.step]
  · cases a with
    | readFrame r =>
        cases r with
        | error e => cases h.unbroken.symm.trans halone
        | ok f =>
            simp only [State.clientReads, h.down] at hreads
            cases hreads
    | _ => simp [Channel.step, Channel.readLoopStep]

theorem Waiting.server_stuck (h : Waiting n) (cfg : Config) {g : Server.Goroutine}
    {a : Server.Action} (hg : g ∈ n.server.threads) (halone : n.serverAlone g a = true)
    (hreads : n.serverReads g a = true) :
    Server.step cfg.server n.server.shared g a = none := by
  rw [h.server] at hg
  simp only [List.mem_cons, List.not_mem_nil, or_false] at hg
  rcases hg with rfl | rfl | rfl | rfl
  · cases halone
  · cases a with
    | acceptFailed => simp [State.serverAlone, h.listens] at halone
    | accepted => cases hreads
    | _ => rfl
  · cases hpeer : n.server.shared.peers[0]? with
    | none => simp [Server.step, hpeer]
    | some peer =>
        cases a with
        | readFrame r =>
            cases r with
            | error e => simp [State.serverAlone, h.links, h.unbroken] at halone
            | ok f =>
                simp only [State.serverReads, h.up] at hreads
                cases hreads
        | _ => simp [Server.step, hpeer, Server.handleConnStep]
  · rfl

theorem Waiting.atRest (h : Waiting n) (cfg : Config) : (alone cfg 1).AtRest n := by
  intro act
  by_contra hsome
  obtain ⟨n', hstep⟩ := Option.ne_none_iff_exists'.mp hsome
  obtain ⟨hinternal, hmachine⟩ := alone_step hstep
  cases step_move hmachine with
  | @client i j a g client hg hreads hclient =>
      simp only [State.internal, hg, Option.any_some, Bool.and_eq_true, decide_eq_true_eq]
        at hinternal
      obtain rfl : i = 0 := by omega
      obtain ⟨g', new, hs, -⟩ := Program.machine_step_get hclient hg
      have hnone := h.client_stuck cfg (List.mem_of_getElem? hg) hinternal.2 hreads
        (n.clients 0).shared.1
      cases hnone.symm.trans (Program.recorded_step hs).2
  | @server j a g server hg hreads hserver =>
      simp only [State.internal, hg, Option.any_some] at hinternal
      obtain ⟨g', new, hs, -⟩ := Program.machine_step_get hserver hg
      cases (h.server_stuck cfg (List.mem_of_getElem? hg) hinternal hreads).symm.trans hs
  | @accept j i d server hfresh =>
      simp only [State.internal, Bool.and_eq_true, decide_eq_true_eq] at hinternal
      obtain rfl : i = 0 := by omega
      rw [h.dialled] at hinternal
      obtain rfl : d = 0 := by omega
      exact hfresh (by rw [h.links]; exact List.mem_cons_self)

/-- The goroutine of the request ends. -/
def restRun : List Action := callRun ++ [.server 3 .run, .server 3 .run]

theorem calls_completed_restRun :
    ∃ n, (machine ⟨fun _ => {}, {}⟩).run initial restRun = some n ∧
      (alone ⟨fun _ => {}, {}⟩ 1).AtRest n ∧
      (n.clients 0).shared.1.calls = [⟨7, [5], false⟩] ∧
      (n.clients 0).shared.1.invocations (only 0) = 1 := by
  have hend : ((machine ⟨fun _ => {}, {}⟩).run initial restRun).map (fun n =>
      decide ((n.clients 0).threads = [.app, .done, .readLoop 0 1 .read]) &&
      decide (n.server.threads = [.app, .acceptLoop .accept, .handleConn 0 .read, .done]) &&
      decide (n.links = [(0, 0)]) && decide ((n.clients 0).shared.1.dialled = 1) &&
      decide (n.broken 0 0 = false) && decide (n.server.shared.listenerClosed = false) &&
      decide ((n.up 0).drop (n.taken 0) = []) &&
      decide ((n.down 0 0).drop (n.line 0 0).taken = []) &&
      decide ((n.clients 0).shared.1.panicked = false) &&
      decide ((n.clients 0).shared.1.calls = [⟨7, [5], false⟩]) &&
      decide (n.server.shared.runs.map Server.Run.result = [some ([6], statusOK)]) &&
      decide ((n.server.shared.peers.map fun peer => peer.out.frames.map fun f => f.1.type) =
        [[FrameResponse]])) = some true := by
    decide +kernel
  obtain ⟨n, hrun, hobs⟩ := Option.map_eq_some_iff.mp hend
  simp only [Bool.and_eq_true, decide_eq_true_eq] at hobs
  obtain ⟨⟨⟨⟨hwaiting, halive⟩, hcalls⟩, hruns⟩, hframes⟩ := hobs
  obtain ⟨⟨⟨⟨⟨⟨⟨hclient, hserver⟩, hlinks⟩, hdialled⟩, hunbroken⟩, hlistens⟩, hup⟩, hdown⟩ :=
    hwaiting
  have hrest := Waiting.atRest
    ⟨hclient, hserver, hlinks, hdialled, hunbroken, hlistens, hup, hdown⟩ ⟨fun _ => {}, {}⟩
  have hbounded : Bounded n 0 :=
    .of_one (by rw [hcalls]; decide) (by rw [hcalls]; decide) hruns (by decide) hframes
  exact ⟨n, hrun, hrest, hcalls, (calls_completed ⟨fun _ => {}, {}⟩ 1).2 restRun n hrun
    (meets_of_quiet (by decide)) hrest 0 Nat.zero_lt_one rfl hbounded halive 0 ⟨7, [5], false⟩
    (by rw [hcalls]; rfl) rfl⟩

end Protocomm.Go.Net
