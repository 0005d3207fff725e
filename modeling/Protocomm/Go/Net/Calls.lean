import Protocomm.Go.Net.Handshake
import Protocomm.SentFrames

/-!
# Calls from end to end

Each side of a connection reads the frames that the other side writes, in their order,
so a response that a channel reads is the answer to a request that a goroutine of that
channel wrote. Ids are not used twice, so it is the answer to the call that its id
names, whatever the order of the answers and however often the channel reconnects.
-/

namespace Protocomm.Go.Net

open Misc

variable {cfg : Config} {n n' : State} {act : Action} {i d k c : Nat} {peer : Server.Peer}

/-! ## Bounds -/

/-- Fewer than 2^32 calls on channel `i`, payloads shorter than 2^32, and codes of handlers
    that fit the header. -/
structure Bounded (n : State) (i : Nat) : Prop where
  calls : (n.clients i).shared.1.calls.length < 2 ^ 32
  requests : ∀ call ∈ (n.clients i).shared.1.calls, call.request.length < 2 ^ 32
  results : ∀ run ∈ n.server.shared.runs, ∀ response st, run.result = some (response, st) →
    response.length < 2 ^ 32 ∧ 0 ≤ st.code ∧ st.code < 2 ^ 16
  pushes : ∀ peer ∈ n.server.shared.peers, ∀ f ∈ peer.out.frames, f.1.type = FramePush →
    f.2.length < 2 ^ 32

theorem Move.onClient (h : Move cfg n act n') (i : Nat) :
    n'.clients i = n.clients i ∨
      ∃ ja, (Channel.lined (cfg.client i)).machine.step (n.clients i) ja =
        some (n'.clients i) := by
  cases h with
  | @client i' j a g client hg hreads hstep =>
      by_cases hi : i = i'
      · subst hi
        simp only [Function.update_self]
        exact Or.inr ⟨_, hstep⟩
      · left
        simp only [Function.update_of_ne hi]
  | server | accept => exact Or.inl rfl

theorem Move.onServer (h : Move cfg n act n') :
    n'.server = n.server ∨
      ∃ ja, (Server.machine cfg.server).step n.server ja = some n'.server := by
  cases h with
  | client => exact Or.inl rfl
  | server hg hreads hstep => exact Or.inr ⟨_, hstep⟩
  | accept hfresh hstep => exact Or.inr ⟨_, hstep⟩

theorem Move.calls (h : Move cfg n act n') (i : Nat) :
    (n.clients i).shared.1.calls <+: (n'.clients i).shared.1.calls := by
  rcases h.onClient i with hsame | ⟨ja, hstep⟩
  · rw [hsame]
  · obtain ⟨g, g', new, -, hs, -⟩ := Program.machine_step_eq hstep
    exact (Channel.step_move (Program.recorded_step hs).2).2.calls

/-- What a handler has returned stays. -/
theorem Move.returned (h : Move cfg n act n') (hjoined : Joined cfg n) {run : Server.Run}
    (hrun : run ∈ n.server.shared.runs) {result : Bytes × Status}
    (hresult : run.result = some result) : run ∈ n'.server.shared.runs := by
  rcases h.onServer with hsame | ⟨ja, hstep⟩
  · rwa [hsame]
  · obtain ⟨g, g', new, hg, hs, -⟩ := Program.machine_step_eq hstep
    refine (Server.step_move hs).returned_kept (fun j run' hawaits hrun' => ?_) hrun hresult
    exact Server.result_of_awaits hjoined.server (List.mem_of_getElem? hg) hawaits hrun'

/-- The frames of a peer stay. -/
theorem Move.peerFrames (h : Move cfg n act n') (hk : n.server.shared.peers[k]? = some peer) :
    ∃ peer', n'.server.shared.peers[k]? = some peer' ∧ peer.out.frames <+: peer'.out.frames := by
  rcases h.onServer with hsame | ⟨ja, hstep⟩
  · exact ⟨peer, hsame ▸ hk, List.prefix_refl _⟩
  · obtain ⟨g, g', new, -, hs, -⟩ := Program.machine_step_eq hstep
    obtain ⟨peer', hk', hsame | ⟨hdr, payload, m, err, -, -, -, hadd⟩⟩ :=
      (Server.step_move hs).frames hk
    · exact ⟨peer', hk', by rw [hsame]⟩
    · exact ⟨peer', hk', by rw [hadd]; exact List.prefix_append ..⟩

/-- What is bounded was bounded before. -/
theorem Bounded.before (h : Bounded n' i) (hjoined : Joined cfg n) (hmove : Move cfg n act n') :
    Bounded n i := by
  refine ⟨?_, fun call hcall => ?_, fun run hrun response st hresult => ?_,
    fun peer hpeer f hf hpush => ?_⟩
  · exact Nat.lt_of_le_of_lt (hmove.calls i).length_le h.calls
  · exact h.requests call ((hmove.calls i).mem hcall)
  · exact h.results run (hmove.returned hjoined hrun hresult) response st hresult
  · obtain ⟨k, hk⟩ := List.mem_iff_getElem?.mp hpeer
    obtain ⟨peer', hk', hframes⟩ := hmove.peerFrames hk
    exact h.pushes peer' (List.mem_of_getElem? hk') f (hframes.mem hf) hpush

/-- The requests a channel writes can be read back. -/
theorem Bounded.readable_up (h : Bounded n i) (hjoined : Joined cfg n) {f : FrameHeader × Bytes}
    (hf : f ∈ (n.line i d).out.frames) : Sized f ∧ f.2.length < 2 ^ 32 := by
  obtain ⟨r, hr, call, hcall, -, rfl⟩ := (Channel.reachable_asks (hjoined.clients i)).1 d f hf
  exact ⟨rfl, h.requests call (List.mem_of_getElem? hcall)⟩

/-- The frames the server writes can be read back. -/
theorem Bounded.readable_down (h : Bounded n i) (hjoined : Joined cfg n)
    (hk : n.server.shared.peers[k]? = some peer) {f : FrameHeader × Bytes}
    (hf : f ∈ peer.out.frames) : Sized f ∧ f.2.length < 2 ^ 32 := by
  rcases (Server.reachable_explains hjoined.server).1.1 k peer hk f hf with
    ⟨hpush, hsized⟩ | ⟨req, -, -, hanswers⟩
  · exact ⟨hsized, h.pushes peer (List.mem_of_getElem? hk) f hf hpush⟩
  · cases hanswers with
    | run run response st hrun hof hhandler hresult hframe =>
        subst hframe
        refine ⟨rfl, ?_⟩
        simp only [Server.respond]
        split
        · exact (h.results run hrun response st hresult).1
        · exact Nat.two_pow_pos 32
    | miss hmiss hframe =>
        subst hframe
        exact ⟨rfl, Nat.two_pow_pos 32⟩

/-! ## What was read was written -/

/-- The channel has the header of the server. -/
def Config.Agreed (cfg : Config) (i : Nat) : Prop :=
  (cfg.client i).handshakeHeader = cfg.server.handshakeHeader

/-- Each side of a connection of channel `i` has read the first frames that the other side
    has written. -/
structure Matched (cfg : Config) (n : State) (i : Nat) : Prop where
  up : ∀ (k d : Nat) peer, cfg.Agreed i → n.links[k]? = some (i, d) →
    n.server.shared.peers[k]? = some peer → peer.reads <+: (n.line i d).out.frames
  down : ∀ (k d : Nat) peer, n.links[k]? = some (i, d) →
    n.server.shared.peers[k]? = some peer → (n.line i d).reads <+: peer.out.frames
  greeted : ∀ d, (n.line i d).reads ≠ [] →
    (n.line i d).received = (cfg.client i).handshakeHeader

theorem matched_initial : Matched cfg initial i := by
  refine ⟨?_, ?_, ?_⟩
  · intro k d peer _ hlink
    cases hlink
  · intro k d peer hlink
    cases hlink
  · intro d hne
    exact absurd rfl hne

theorem Move.lineFrames (h : Move cfg n act n') (i d : Nat) :
    (n.line i d).out.frames <+: (n'.line i d).out.frames := by
  rcases h.line i d with hsame | ⟨g, a, -, -, hmove⟩
  · rw [hsame]
  · rcases hmove.frames with hsame | ⟨gen, hdr, request, -, hadd⟩
    · rw [hsame]
    · rw [hadd]
      exact List.prefix_append ..

section

variable (h : Matched cfg n i) (hjoined : Joined cfg n) (hmove : Move cfg n act n')
include h hjoined hmove

/-- A connection from which frames were read has been installed before. -/
theorem Matched.greeted_before (hne : (n'.line i d).reads ≠ []) :
    (n.line i d).received = (cfg.client i).handshakeHeader ∧
      (n'.line i d).received = (n.line i d).received := by
  rcases hmove.line i d with hsame | ⟨g, a, hg, -, hline⟩
  · rw [hsame] at hne ⊢
    exact ⟨h.greeted d hne, rfl⟩
  · have hlined := Channel.reachable_lined (cfg.client_header i) (hjoined.clients i)
    generalize n'.line i d = line' at hline hne
    cases hline with
    | receive c received =>
        -- the handshake comes before all frames
        have hgreeted : n.line i d = _ := hlined.2 _ hg
        rw [hgreeted] at hne
        exact absurd rfl hne
    | read gen f =>
        have hin := (Channel.reachable_onConn (Channel.lined_plain (hjoined.clients i))).2 _ hg _
          rfl
        exact ⟨(hlined.1.published _ hin).2, rfl⟩
    | _ => exact ⟨h.greeted d hne, rfl⟩

theorem Matched.step_up (hbounded : Bounded n i) (hagreed : cfg.Agreed i) {peer' : Server.Peer}
    (hlink : n'.links[k]? = some (i, d)) (hk' : n'.server.shared.peers[k]? = some peer') :
    peer'.reads <+: (n'.line i d).out.frames := by
  rcases hmove.linked hjoined hlink hk' with ⟨id, rfl⟩ | ⟨hold, peer, hk⟩
  · exact List.nil_prefix
  refine List.IsPrefix.trans ?_ (hmove.lineFrames i d)
  have hbefore := h.up k d peer hagreed hold hk
  rcases hmove.onPeer hk with hsame | ⟨j, g, a, g', new, rfl, hg, hreads, hserver⟩
  · cases hk'.symm.trans hsame
    exact hbefore
  · obtain ⟨next, hnext, hread⟩ := hserver.reads hk
    cases hk'.symm.trans hnext
    rcases hread with hread | ⟨hdr, payload, rfl, rfl, hread, -⟩
    · rwa [hread]
    · obtain ⟨peer₀, hk₀, hreceived, -⟩ :=
        (Server.reachable_input hjoined.server).2 _ (List.mem_of_getElem? hg)
      cases hk.symm.trans hk₀
      simp only [State.serverReads, State.up_eq hold, State.taken_eq hk, Net.taken,
        hreceived] at hreads
      obtain ⟨rest, hnext⟩ := nextFrame_ok hreads
      have hlined := (Channel.reachable_lined (cfg.client_header i) (hjoined.clients i)).1
      have hinit := (hlined.framed d).received_initial
      rw [hagreed] at hinit
      rw [hread]
      exact readFrame_next hinit (fun f hf => (hbounded.readable_up hjoined hf).1)
        (fun f hf => (hbounded.readable_up hjoined hf).2) hbefore hnext

theorem Matched.step_down {chosen : Nat → Prop} (hagrees : Agrees cfg chosen n)
    (hbounded : Bounded n i) {peer' : Server.Peer} (hlink : n'.links[k]? = some (i, d))
    (hk' : n'.server.shared.peers[k]? = some peer') :
    (n'.line i d).reads <+: peer'.out.frames := by
  by_cases hnil : (n'.line i d).reads = []
  · rw [hnil]
    exact List.nil_prefix
  obtain ⟨hreceived, -⟩ := h.greeted_before hjoined hmove hnil
  obtain ⟨hsame, k₀, hlink₀⟩ := hagrees.agreed i d hreceived
  have hjoined' := hjoined.step hmove
  obtain rfl : k₀ = k := by
    rw [← hjoined'.idxOf hlink, hjoined'.idxOf (getElem?_of_initial hmove.links hlink₀)]
  obtain ⟨peer, hk, hdown⟩ := hjoined.linked hlink₀
  obtain ⟨next, hnext, hframes⟩ := hmove.peerFrames hk
  cases hk'.symm.trans hnext
  have hbefore := h.down k₀ d peer hlink₀ hk
  refine List.IsPrefix.trans ?_ hframes
  rcases hmove.line i d with hline | ⟨g, a, hg, hreads, hline⟩
  · rwa [hline]
  · have htaken : (n.line i d).taken = cfg.server.handshakeHeader.length +
        ((n.line i d).reads.map frameSize).sum := by
      rw [Channel.Line.taken, hreceived, hsame]
    generalize n'.line i d = line' at hline
    cases hline with
    | read gen f =>
        simp only [State.clientReads, hdown, htaken] at hreads
        obtain ⟨rest, hread⟩ := nextFrame_ok hreads
        have hinit := (hagrees.output.1 k₀ peer hk).out.received_initial
        exact readFrame_next hinit (fun f hf => (hbounded.readable_down hjoined hk hf).1)
          (fun f hf => (hbounded.readable_down hjoined hk hf).2) hbefore hread
    | greet | receive | start | more | keep => exact hbefore

end

/-- In a run whose pushes come after the handshake, frames are read as they were written. -/
theorem run_matched {acts : List Action} (hrun : (machine cfg).run initial acts = some n)
    (hlate : (machine cfg).Meets (PushesTo cfg.Agreed) initial acts) (hbounded : Bounded n i) :
    Agrees cfg cfg.Agreed n ∧ Matched cfg n i := by
  suffices hall : (machine cfg).Reachable initial n ∧ Agrees cfg cfg.Agreed n ∧
      (Bounded n i → Matched cfg n i) from ⟨hall.2.1, hall.2.2 hbounded⟩
  refine Machine.run_invariant
    (P := fun u => (machine cfg).Reachable initial u ∧ Agrees cfg cfg.Agreed u ∧
      (Bounded u i → Matched cfg u i))
    ?_ ⟨.refl _, agrees_initial, fun _ => matched_initial⟩ hrun hlate
  rintro u act u' ⟨hu, hagrees, hold⟩ hok hstep
  have hmove := step_move hstep
  have hjoined := reachable_joined hu
  refine ⟨hu.tail hstep, hagrees.step hu (fun _ h => h) hmove hok, fun hbounded' => ?_⟩
  have hbounded := hbounded'.before hjoined hmove
  have hmatched := hold hbounded
  refine ⟨?_, ?_, ?_⟩
  · intro k d peer hagreed hlink hk
    exact hmatched.step_up hjoined hmove hbounded hagreed hlink hk
  · intro k d peer hlink hk
    exact hmatched.step_down hjoined hmove hagrees hbounded hlink hk
  · intro d hne
    obtain ⟨hreceived, hsame⟩ := hmatched.greeted_before hjoined hmove hne
    rw [hsame, hreceived]

/-! ## Calls and runs of handlers -/

/-- The run of a handler serves call `c` of channel `i`: its request came from a
    connection of the channel and carries the id of the call. -/
def State.serves (n : State) (i c : Nat) (run : Server.Run) : Bool :=
  (n.links[run.peer]?.map Prod.fst == some i) &&
    (n.clients i).shared.1.registered.any fun r => r.call == c && r.callID == run.callID

/-- How often a request of call `c` of channel `i` was handed to a handler. -/
def State.handlings (n : State) (i c : Nat) : Nat :=
  n.server.shared.runs.countP (n.serves i c)

/-- `run` is the run of a handler registered for the method of `call` on its request, and
    returned the response and the status. -/
structure Handled (s : Server.Shared) (call : Channel.Call) (run : Server.Run) (response : Bytes)
    (st : Status) : Prop where
  mem : run ∈ s.runs
  handler : s.registrations[run.handler]? = some call.methodID
  methodID : run.methodID = call.methodID
  request : run.request = call.request
  result : run.result = some (response, st)

theorem serves_inv {run : Server.Run} (h : n.serves i c run = true) :
    ∃ d, n.links[run.peer]? = some (i, d) ∧
      ∃ r ∈ (n.clients i).shared.1.registered, r.call = c ∧ r.callID = run.callID := by
  simp only [State.serves, Bool.and_eq_true, beq_iff_eq, Option.map_eq_some_iff, List.any_eq_true]
    at h
  obtain ⟨⟨⟨i', d⟩, hlink, rfl⟩, r, hr, hcall, hid⟩ := h
  exact ⟨d, hlink, r, hr, hcall, hid⟩

theorem serves_of {run : Server.Run} (hlink : n.links[run.peer]? = some (i, d))
    {r : Channel.Registration} (hr : r ∈ (n.clients i).shared.1.registered) (hcall : r.call = c)
    (hid : r.callID = run.callID) : n.serves i c run = true := by
  simp only [State.serves, hlink, Option.map_some, BEq.rfl, Bool.true_and, List.any_eq_true]
  exact ⟨r, hr, by simp [hcall, hid]⟩

section

variable (hjoined : Joined cfg n) (hbounded : Bounded n i) (hmatched : Matched cfg n i)
include hjoined hbounded hmatched

/-- A request that was read from a connection is the request of the call its id names. -/
theorem call_of_read (hagreed : cfg.Agreed i) (hlink : n.links[k]? = some (i, d))
    (hk : n.server.shared.peers[k]? = some peer) {f : FrameHeader × Bytes} (hf : f ∈ peer.reads)
    {r : Channel.Registration} (hr : r ∈ (n.clients i).shared.1.registered)
    (hid : f.1.callID = r.callID) :
    r.conn = d ∧ ∃ call, (n.clients i).shared.1.calls[r.call]? = some call ∧
      f = (Channel.requestHeader r.callID call.methodID call.request, call.request) := by
  have hsent := (hmatched.up k d peer hagreed hlink hk).mem hf
  obtain ⟨r', hr', call, hcall, hconn, rfl⟩ :=
    (Channel.reachable_asks (hjoined.clients i)).1 d f hsent
  have hplain := Channel.lined_plain (hjoined.clients i)
  obtain rfl := Channel.callID_unique hplain hbounded.calls hr' hr hid
  exact ⟨hconn, call, hcall, rfl⟩

/-- The runs that serve a call are of one connection. -/
theorem peer_of_serves (hagreed : cfg.Agreed i) {r : Channel.Registration}
    (hr : r ∈ (n.clients i).shared.1.registered) {run : Server.Run}
    (hrun : run ∈ n.server.shared.runs) (hserves : n.serves i r.call run = true) :
    n.links[run.peer]? = some (i, r.conn) ∧ run.callID = r.callID := by
  obtain ⟨d, hlink, r', hr', hcall, hid⟩ := serves_inv hserves
  have hplain := Channel.lined_plain (hjoined.clients i)
  obtain rfl := Channel.registered_unique hplain hr' hr hcall
  obtain ⟨peer, hk, f, hf, -, hf_id, -⟩ := Server.request_of_run hjoined.server hrun
  obtain ⟨rfl, -⟩ := call_of_read hjoined hbounded hmatched hagreed hlink hk hf hr
    (hf_id.trans hid.symm)
  exact ⟨hlink, hid.symm⟩

/-- A request is handed to a handler at most once. -/
theorem handlings_le_one {chosen : Nat → Prop} (hagrees : Agrees cfg chosen n) (c : Nat) :
    n.handlings i c ≤ 1 := by
  by_cases hsome : ∃ run ∈ n.server.shared.runs, n.serves i c run = true
  · obtain ⟨run, hrun, hserves⟩ := hsome
    obtain ⟨-, -, r, hr, rfl, -⟩ := serves_inv hserves
    have hplain := Channel.lined_plain (hjoined.clients i)
    have hlined := (Channel.reachable_lined (cfg.client_header i) (hjoined.clients i)).1
    have hagreed : cfg.Agreed i := (hagrees.agreed i r.conn
      (hlined.published _ (Channel.reachable_registered hplain r hr)).2).1
    obtain ⟨hlink, -⟩ := peer_of_serves hjoined hbounded hmatched hagreed hr hrun hserves
    obtain ⟨peer, hk, -⟩ := hjoined.linked hlink
    -- the runs are counted by the requests read, and these by the frames written
    let w : UInt32 → UInt32 → Bytes → Nat := fun id _ _ => if id = r.callID then 1 else 0
    calc n.handlings i r.call
        ≤ n.server.shared.handled w run.peer := by
          refine countP_le_sum fun run' hrun' hserves' => ?_
          obtain ⟨hlink', hid⟩ :=
            peer_of_serves hjoined hbounded hmatched hagreed hr hrun' hserves'
          have hpeer : run'.peer = run.peer := by
            rw [← hjoined.idxOf hlink', hjoined.idxOf hlink]
          simp [hpeer, hid, w]
      _ ≤ n.server.shared.requests w run.peer :=
          (Nat.le_add_right _ _).trans (Server.reachable_handled w run.peer hjoined.server)
      _ ≤ peer.reads.countP fun f => f.1.callID == r.callID := by
          simp only [Server.Shared.requests, Server.Shared.readsOf, hk, Option.map_some,
            Option.getD_some]
          refine sum_le_countP fun f _ => ?_
          simp only [Server.weigh, beq_iff_eq, w]
          split
          · exact Nat.le_refl _
          · exact Nat.zero_le _
      _ ≤ (n.line i r.conn).sent r.callID :=
          (hmatched.up run.peer r.conn peer hagreed hlink hk).sublist.countP_le
      _ ≤ 1 := Channel.sent_le_one (hjoined.clients i) hbounded.calls r.conn r.callID
  · rw [State.handlings, List.countP_eq_zero.mpr fun run hrun hserves =>
      hsome ⟨run, hrun, hserves⟩]
    exact Nat.zero_le 1

/-- A response that a channel has read answers the request of its call. -/
theorem answers_of_responds {chosen : Nat → Prop} (hagrees : Agrees cfg chosen n) {conn : Nat}
    {f : FrameHeader × Bytes} {call : Channel.Call}
    (hresponds : Channel.Responds (n.clients i).shared.1 (n.clients i).shared.2 conn f c)
    (hcall : (n.clients i).shared.1.calls[c]? = some call) :
    ∃ (k : Nat) (r : Channel.Registration), n.links[k]? = some (i, conn) ∧
      r ∈ (n.clients i).shared.1.registered ∧ r.call = c ∧
      n.server.shared.Answers k
        (Channel.requestHeader r.callID call.methodID call.request, call.request) f := by
  have hread : f ∈ (n.line i conn).reads := hresponds.read
  obtain ⟨hagreed, k, hlink⟩ := hagrees.agreed i conn
    (hmatched.greeted conn (List.ne_nil_of_mem hread))
  obtain ⟨peer, hk, -⟩ := hjoined.linked hlink
  rcases (Server.reachable_explains hjoined.server).1.1 k peer hk f
    ((hmatched.down k conn peer hlink hk).mem hread) with ⟨hpush, -⟩ | ⟨req, hreq, -, hanswers⟩
  · cases hresponds.type.symm.trans hpush
  · obtain ⟨r, hr, hrc, hid⟩ := hresponds.registered
    have hsame : req.1.callID = r.callID := by
      rw [hid]
      cases hanswers with
      | run _ _ _ _ _ _ _ hframe => rw [hframe]; rfl
      | miss _ hframe => rw [hframe]; rfl
    obtain ⟨-, call', hcall', rfl⟩ :=
      call_of_read hjoined hbounded hmatched hagreed hlink hk hreq hr hsame
    rw [hrc] at hcall'
    cases hcall.symm.trans hcall'
    exact ⟨k, r, hlink, hr, hrc, hanswers⟩

end

/-- End-to-end correlation: in a run whose pushes come after the handshake, a callback that
    gets OK gets what the handler of its method returned for its request, and one that gets
    a remote error gets the code of that handler, or there was no handler. A request is
    handed to a handler at most once, and once if its callback gets OK.

    The pushes go to channels that have the header of the server (`cfg.Agreed`). A channel
    whose header is longer and begins with it would take the first bytes of a push for the
    rest of the reply, be connected, and read frames from the middle of the push on. -/
theorem calls_correlated {acts : List Action} (hrun : (machine cfg).run initial acts = some n)
    (hlate : (machine cfg).Meets (PushesTo cfg.Agreed) initial acts) {i : Nat}
    (hbounded : Bounded n i) {c : Nat} {call : Channel.Call}
    (hcall : (n.clients i).shared.1.calls[c]? = some call) :
    n.handlings i c ≤ 1 ∧
      ∀ v ∈ (n.clients i).shared.1.invoked, v.call = c →
        (v.status.isOK = true → n.handlings i c = 1 ∧
          ∃ run st, n.serves i c run = true ∧ st.isOK = true ∧
            Handled n.server.shared call run v.payload st) ∧
        (∀ conn gen hdr payload, v.cause = .response conn gen hdr payload →
          v.status.isOK = false →
          (∃ run response st, n.serves i c run = true ∧ st.code = v.status.code ∧
            Handled n.server.shared call run response st) ∨
          v.status.code = StatusCode.Unimplemented ∧
            ∃ miss ∈ n.server.shared.misses, miss.methodID = call.methodID ∧
              n.links[miss.peer]?.map Prod.fst = some i) := by
  have hjoined := reachable_joined ⟨acts, hrun⟩
  obtain ⟨hagrees, hmatched⟩ := run_matched hrun hlate hbounded
  have hle := handlings_le_one hjoined hbounded hmatched hagrees c
  refine ⟨hle, ?_⟩
  rintro v hv rfl
  have hjustified := Channel.reachable_justified (hjoined.clients i) v hv
  cases hcause : v.cause with
  | response conn gen hdr payload =>
      simp only [Channel.Invocation.Justified, hcause] at hjustified
      obtain ⟨hresponds, hstatus, hpayload⟩ := hjustified
      obtain ⟨k, r, hlink, hr, hrc, hanswers⟩ :=
        answers_of_responds hjoined hbounded hmatched hagrees hresponds hcall
      cases hanswers with
      | run run response st hmem hof hhandler hresult hframe =>
          cases hframe
          have hserves : n.serves i v.call run = true :=
            serves_of (hof.peer ▸ hlink) hr hrc hof.callID.symm
          have hcode : v.status.code = st.code := by
            rw [hstatus, (code_respond response st).1]
            exact code_ofWire_ofInt (hbounded.results run hmem response st hresult).2
          have hhandled : Handled n.server.shared call run response st :=
            ⟨hmem, hhandler.trans (congrArg some hof.methodID), hof.methodID, hof.request, hresult⟩
          refine ⟨fun hok => ?_, fun _ _ _ _ _ _ =>
            Or.inl ⟨run, response, st, hserves, hcode.symm, hhandled⟩⟩
          have hst : st.isOK = true := by rwa [Status.isOK, ← hcode]
          have hpos : 0 < n.handlings i v.call := List.countP_pos_iff.mpr ⟨run, hmem, hserves⟩
          have hresponse : v.payload = response := by
            simp only [hpayload, Server.respond, hst, if_true]
            rfl
          exact ⟨by omega, run, st, hserves, hst, hresponse ▸ hhandled⟩
      | miss hmiss hframe =>
          cases hframe
          have hcode : v.status.code = StatusCode.Unimplemented := by
            rw [hstatus]
            exact code_ofWire_ofInt (by decide)
          refine ⟨fun hok => ?_, fun _ _ _ _ _ _ => Or.inr ⟨hcode, _, hmiss, rfl, ?_⟩⟩
          · rw [Status.isOK, hcode] at hok
            cases hok
          · simp [hlink]
  | caller | teardown | close =>
      simp only [Channel.Invocation.Justified, hcause] at hjustified
      refine ⟨fun hok => ?_, fun _ _ _ _ hbad => by cases hbad⟩
      rw [hjustified] at hok
      cases hok

/-- One handler has returned, and one response was written. -/
theorem Bounded.of_one {i : Nat} {response : Bytes} {st : Status}
    (hcalls : (n.clients i).shared.1.calls.length < 2 ^ 32)
    (hrequests : ∀ call ∈ (n.clients i).shared.1.calls, call.request.length < 2 ^ 32)
    (hruns : n.server.shared.runs.map Server.Run.result = [some (response, st)])
    (hresponse : response.length < 2 ^ 32 ∧ 0 ≤ st.code ∧ st.code < 2 ^ 16)
    (hframes : (n.server.shared.peers.map fun peer => peer.out.frames.map fun f => f.1.type) =
      [[FrameResponse]]) : Bounded n i := by
  refine ⟨hcalls, hrequests, ?_, ?_⟩
  · intro run hmem response' st' hresult
    have hin := List.mem_map_of_mem (f := Server.Run.result) hmem
    rw [hruns, List.mem_singleton, hresult] at hin
    cases hin
    exact hresponse
  · intro peer hpeer f hf hpush
    have hin := List.mem_map_of_mem
      (f := fun peer : Server.Peer => peer.out.frames.map fun f => f.1.type) hpeer
    rw [hframes, List.mem_singleton] at hin
    have htype := List.mem_map_of_mem (f := fun f : FrameHeader × Bytes => f.1.type) hf
    rw [hin, List.mem_singleton, hpush] at htype
    cases htype

/-- Channel 0 connects and calls method 7 with `[5]`; the handler returns `[6]`. -/
def callRun : List Action :=
  [.server 0 (.registerMethod 7), .client 0 0 (.call 7 [5] false), .client 0 1 .run,
    .client 0 1 .run, .client 0 1 .run, .client 0 1 (.dial none), .client 0 1 (.wrote 3 none),
    .accept 1 0 0, .server 1 .run, .server 1 .run, .server 2 .run,
    .server 2 (.readFull (.ok [112, 99, 49])), .server 2 (.wrote 3 none),
    .client 0 1 (.readFull (.ok [112, 99, 49])), .client 0 1 .run, .client 0 1 .run,
    .client 0 1 .run, .client 0 1 .run, .client 0 1 .run, .client 0 1 (.wrote 16 none),
    .client 0 1 (.wrote 1 none), .client 0 1 .run,
    .server 2 (.readFrame (.ok (Channel.requestHeader 1 7 [5], [5]))), .server 2 .run,
    .server 2 .run, .server 3 .run, .server 3 .run, .server 3 (.returned [6] statusOK),
    .server 3 .run, .server 3 (.wrote 16 none), .server 3 (.wrote 1 none), .server 3 .run,
    .client 0 2 (.readFrame (.ok
      (Server.responseHeader (Channel.requestHeader 1 7 [5]) StatusCode.OK [6], [6]))),
    .client 0 2 .run, .client 0 2 .run]

theorem calls_correlated_callRun :
    ∃ n, (machine ⟨fun _ => {}, {}⟩).run initial callRun = some n ∧ n.handlings 0 0 = 1 ∧
      ∃ run st, n.serves 0 0 run = true ∧ st.isOK = true ∧
        Handled n.server.shared ⟨7, [5], false⟩ run [6] st := by
  have hend : ((machine ⟨fun _ => {}, {}⟩).run initial callRun).map (fun n =>
      decide ((n.clients 0).shared.1.calls = [⟨7, [5], false⟩]) &&
      decide (((n.clients 0).shared.1.invoked.map fun v => (v.call, v.status, v.payload)) =
        [(0, statusOK, [6])]) &&
      decide (n.server.shared.runs.map Server.Run.result = [some ([6], statusOK)]) &&
      decide ((n.server.shared.peers.map fun peer => peer.out.frames.map fun f => f.1.type) =
        [[FrameResponse]])) = some true := by
    decide +kernel
  obtain ⟨n, hrun, hobs⟩ := Option.map_eq_some_iff.mp hend
  simp only [Bool.and_eq_true, decide_eq_true_eq] at hobs
  obtain ⟨⟨⟨hcalls, hinvoked⟩, hruns⟩, hframes⟩ := hobs
  have hbounded : Bounded n 0 :=
    .of_one (by rw [hcalls]; decide) (by rw [hcalls]; decide) hruns (by decide) hframes
  obtain ⟨v, hv, hshown⟩ : ∃ v ∈ (n.clients 0).shared.1.invoked,
      (v.call, v.status, v.payload) = (0, statusOK, [6]) := by
    have hin : (0, statusOK, [6]) ∈ (n.clients 0).shared.1.invoked.map fun v =>
        (v.call, v.status, v.payload) := by
      rw [hinvoked]
      exact List.mem_cons_self
    exact List.mem_map.mp hin
  simp only [Prod.mk.injEq] at hshown
  obtain ⟨hcall, hstatus, hpayload⟩ := hshown
  obtain ⟨-, hall⟩ := calls_correlated hrun (meets_of_quiet (by decide)) hbounded (c := 0)
    (by rw [hcalls]; rfl)
  obtain ⟨hone, hrest⟩ := (hall v hv hcall).1 (by rw [hstatus]; rfl)
  rw [hpayload] at hrest
  exact ⟨n, hrun, hone, hrest⟩

end Protocomm.Go.Net
