import Protocomm.FrameStream
import Protocomm.Go.Server.Output
import Protocomm.Go.Server.Sessions
import Protocomm.Misc.Weight

/-!
# Requests

What a server reads from its connections: the header and then requests, up to the
first frame that is something else. A request is handed to a handler at most once.
-/

namespace Protocomm.Go.Server

open Misc

variable {cfg : Config} {s s' : Shared} {g g' : Goroutine} {a : Action} {new rest : List Goroutine}
  {k : Nat} {peer : Peer} {p : Pool Shared Goroutine}

/-! ## Input -/

/-- What a peer has read is the same. -/
structure Peer.SameInput (peer peer' : Peer) : Prop where
  received : peer'.received = peer.received
  reads : peer'.reads = peer.reads
  accepted : peer'.out.accepted = peer.out.accepted

/-- Only the last frame of a peer can be something else than a request, and frames are
    read after the header. -/
structure Peer.Input (header : Bytes) (peer : Peer) : Prop where
  received : peer.reads ≠ [] ∨ peer.out.accepted = true → peer.received = header
  requests : ∀ f ∈ peer.reads.dropLast, f.1.type = FrameRequest

/-- What `handleConn` knows about the input of its peer. -/
def Handling.Input (header : Bytes) (peer : Peer) : Handling → Prop
  | .onConnect | .readHandshake =>
      peer.received = [] ∧ peer.reads = [] ∧ peer.out.accepted = false
  | .onHandshake | .writeHandshake => peer.received = header ∧ peer.reads = []
  | .read => peer.received = header ∧ ∀ f ∈ peer.reads, f.1.type = FrameRequest
  | .acquire hdr payload | .spawn hdr payload =>
      peer.received = header ∧ (∀ f ∈ peer.reads, f.1.type = FrameRequest) ∧
        (hdr, payload) ∈ peer.reads
  | _ => True

/-- What a goroutine knows about the input of its peer. -/
def Goroutine.Input (header : Bytes) (peers : List Peer) : Goroutine → Prop
  | .acceptLoop (.insert k) | .acceptLoop (.spawn k) =>
      ∃ peer, peers[k]? = some peer ∧ Handling.onConnect.Input header peer
  | .handleConn k pc => ∃ peer, peers[k]? = some peer ∧ pc.Input header peer
  | .request k hdr payload _ =>
      ∃ peer, peers[k]? = some peer ∧ (hdr, payload) ∈ peer.reads ∧ hdr.type = FrameRequest
  | _ => True

theorem Peer.SameInput.refl (peer : Peer) : peer.SameInput peer := ⟨rfl, rfl, rfl⟩

theorem WriteMove.sameInput {peer' : Peer} {hdr : FrameHeader} {payload : Bytes} {pc pc' : Writing}
    (h : WriteMove peer hdr payload pc a peer' pc') : peer.SameInput peer' := by
  cases h with
  | lock => exact ⟨rfl, rfl, rfl⟩
  | _ => exact ⟨rfl, rfl, by simp [Peer.wrote, Outlet.fail, Outlet.more]⟩

/-- The input of a peer changes only by its own `handleConn`. -/
theorem Move.sameInput (h : Move cfg s g a s' g' new) (hk : s.peers[k]? = some peer)
    (hg : g.handles k = 0) : ∃ peer', s'.peers[k]? = some peer' ∧ peer.SameInput peer' := by
  have hne : ∀ {j : Nat} {pc : Handling}, (Goroutine.handleConn j pc).handles k = 0 → j ≠ k := by
    rintro j pc hzero rfl
    simp [Goroutine.handles] at hzero
  cases h with
  | accept =>
      exact ⟨peer, List.getElem?_append_left (List.getElem?_eq_some_iff.mp hk).1 ▸ hk, .refl peer⟩
  | closePeer hpeer | insert hpeer | closeConn hdr payload hpeer | inflightDone hdr payload hpeer
  | requestUnlock hdr payload rhdr rpayload err pc hpeer | pushUnlock hdr payload todo err hpeer =>
      refine exists_getElem?_set hpeer hk (fun _ hold => ?_) fun _ => .refl peer
      subst hold
      exact ⟨rfl, rfl, rfl⟩
  | requestWrite hdr payload rhdr rpayload hpeer hwrite
  | pushWrite hdr payload todo hpeer hwrite =>
      refine exists_getElem?_set hpeer hk (fun _ hold => ?_) fun _ => .refl peer
      subst hold
      exact hwrite.sameInput
  | connectNoHeader hpeer | handshakeMismatch received hpeer | handshakeAsk hpeer
  | handshakeOK hpeer | answerYes hpeer | reply n hpeer | replyFailed n e hpeer
  | readOther hdr payload hpeer | read hdr payload hpeer | spawnRequest hdr payload hpeer
  | close hpeer =>
      exact exists_getElem?_set hpeer hk (fun hj _ => absurd hj (hne hg)) fun _ => .refl peer
  | sweep =>
      rw [sweep_getElem?, hk]
      split
      · exact ⟨peer.close, rfl, rfl, rfl, rfl⟩
      · exact ⟨peer, rfl, .refl peer⟩
  | _ => exact ⟨peer, hk, .refl peer⟩

/-- A step reads a frame from a peer or leaves its frames alone. -/
theorem Move.reads (h : Move cfg s g a s' g' new) (hk : s.peers[k]? = some peer) :
    ∃ peer', s'.peers[k]? = some peer' ∧ (peer'.reads = peer.reads ∨
      ∃ hdr payload, g = .handleConn k .read ∧ a = .readFrame (.ok (hdr, payload)) ∧
        peer'.reads = peer.reads ++ [(hdr, payload)] ∧ new = [] ∧
        g' = .handleConn k (if hdr.type = FrameRequest then .acquire hdr payload else .wait)) := by
  by_cases hg : g.handles k = 0
  · obtain ⟨peer', hk', hsame⟩ := h.sameInput hk hg
    exact ⟨peer', hk', Or.inl hsame.reads⟩
  · cases h with
    | readOther hdr payload hpeer htype =>
        refine exists_getElem?_set hpeer hk (fun hj hold => ?_) fun _ => Or.inl rfl
        subst hj hold
        exact Or.inr ⟨hdr, payload, rfl, rfl, rfl, rfl, by rw [if_neg htype]⟩
    | read hdr payload hpeer htype =>
        refine exists_getElem?_set hpeer hk (fun hj hold => ?_) fun _ => Or.inl rfl
        subst hj hold
        exact Or.inr ⟨hdr, payload, rfl, rfl, rfl, rfl, by rw [if_pos htype]⟩
    | insert hpeer | connectNoHeader hpeer | handshakeMismatch received hpeer
    | handshakeAsk hpeer | handshakeOK hpeer | answerYes hpeer | reply n hpeer
    | replyFailed n e hpeer | spawnRequest hdr payload hpeer | close hpeer =>
        refine exists_getElem?_set hpeer hk (fun _ hold => ?_) fun _ => Or.inl rfl
        subst hold
        exact Or.inl rfl
    | spawn | connect | handshakeFailed | answerNo | readFailed | acquire | acquireQuit | wait
    | onDisconnect | delete | wgDone => exact ⟨peer, hk, Or.inl rfl⟩
    | _ => exact absurd rfl hg

/-- A step reads the header of a peer or leaves what it has read alone. -/
theorem Move.received (h : Move cfg s g a s' g' new) (hk : s.peers[k]? = some peer) :
    ∃ peer', s'.peers[k]? = some peer' ∧ (peer'.received = peer.received ∨
      ∃ received, g = .handleConn k .readHandshake ∧ a = .readFull (.ok received) ∧
        peer'.received = received) := by
  by_cases hg : g.handles k = 0
  · obtain ⟨peer', hk', hsame⟩ := h.sameInput hk hg
    exact ⟨peer', hk', Or.inl hsame.received⟩
  · cases h with
    | handshakeMismatch received hpeer =>
        refine exists_getElem?_set hpeer hk (fun hj _ => ?_) fun _ => Or.inl rfl
        subst hj
        exact Or.inr ⟨received, rfl, rfl, rfl⟩
    | handshakeAsk hpeer | handshakeOK hpeer =>
        refine exists_getElem?_set hpeer hk (fun hj _ => ?_) fun _ => Or.inl rfl
        subst hj
        exact Or.inr ⟨cfg.handshakeHeader, rfl, rfl, rfl⟩
    | insert hpeer | connectNoHeader hpeer | answerYes hpeer | reply n hpeer
    | replyFailed n e hpeer | readOther hdr payload hpeer | read hdr payload hpeer
    | spawnRequest hdr payload hpeer | close hpeer =>
        refine exists_getElem?_set hpeer hk (fun _ hold => ?_) fun _ => Or.inl rfl
        subst hold
        exact Or.inl rfl
    | spawn | connect | handshakeFailed | answerNo | readFailed | acquire | acquireQuit | wait
    | onDisconnect | delete | wgDone => exact ⟨peer, hk, Or.inl rfl⟩
    | _ => exact absurd rfl hg

/-- `Accept` adds a peer. -/
theorem Move.accepted (h : Move cfg s g .accepted s' g' new) :
    s'.peers = s.peers ++ [{ id := s.nextConnID }] := by
  cases h with
  | accept => rfl
  | requestWrite _ _ _ _ _ hwrite | pushWrite _ _ _ _ hwrite => cases hwrite

/-- Only `Accept` adds a peer. -/
theorem Move.length_eq (h : Move cfg s g a s' g' new) (ha : a ≠ .accepted) :
    s'.peers.length = s.peers.length := by
  cases h with
  | accept => exact absurd rfl ha
  | sweep => exact length_sweep s
  | _ => simp [Shared.setPeer, Shared.setResult, Shared.log]

theorem Move.reads_initial (h : Move cfg s g a s' g' new) (hk : s.peers[k]? = some peer) :
    ∃ peer', s'.peers[k]? = some peer' ∧ peer.reads <+: peer'.reads := by
  obtain ⟨peer', hk', hsame | ⟨hdr, payload, -, -, hadd, -⟩⟩ := h.reads hk
  · exact ⟨peer', hk', by rw [hsame]⟩
  · exact ⟨peer', hk', by rw [hadd]; exact List.prefix_append ..⟩

theorem Handling.Input.same {header : Bytes} {pc : Handling} {peer' : Peer}
    (h : pc.Input header peer) (hsame : peer.SameInput peer') : pc.Input header peer' := by
  cases pc <;> simp only [Handling.Input, hsame.received, hsame.reads, hsame.accepted] at h ⊢ <;>
    exact h

/-- Other goroutines keep what they know. -/
theorem Goroutine.Input.frame {header : Bytes} {v : Goroutine} (hv : v.Input header s.peers)
    (h : Move cfg s g a s' g' new) (hunique : ∀ k, v.handles k = 1 → g.handles k = 0) :
    v.Input header s'.peers := by
  have hkeep : ∀ {k : Nat} {pc : Handling}, v.handles k = 1 →
      (∃ peer, s.peers[k]? = some peer ∧ pc.Input header peer) →
      ∃ peer, s'.peers[k]? = some peer ∧ pc.Input header peer := by
    rintro k pc hk ⟨peer, hpeer, hold⟩
    obtain ⟨peer', hpeer', hsame⟩ := h.sameInput hpeer (hunique k hk)
    exact ⟨peer', hpeer', hold.same hsame⟩
  cases v with
  | acceptLoop pc =>
      cases pc with
      | accept => trivial
      | insert k | spawn k => exact hkeep (if_pos rfl) hv
  | handleConn k pc => exact hkeep (if_pos rfl) hv
  | request k hdr payload pc =>
      obtain ⟨peer, hpeer, hmem, htype⟩ := hv
      obtain ⟨peer', hpeer', hinit⟩ := h.reads_initial hpeer
      exact ⟨peer', hpeer', hinit.mem hmem, htype⟩
  | _ => trivial

/-- A step of a goroutine establishes what it and the goroutines it starts know. -/
theorem Move.input (h : Move cfg s g a s' g' new) (hg : g.Input cfg.handshakeHeader s.peers) :
    g'.Input cfg.handshakeHeader s'.peers ∧ ∀ v ∈ new, v.Input cfg.handshakeHeader s'.peers := by
  have hnil : ∀ v ∈ ([] : List Goroutine), v.Input cfg.handshakeHeader s'.peers :=
    List.forall_mem_nil _
  have hset : ∀ {k : Nat} {peer next : Peer}, s.peers[k]? = some peer →
      (s.setPeer k next).peers[k]? = some next := fun hpeer => getElem?_set_of_some _ hpeer
  have hgone : ∀ {k : Nat} {pc : Handling},
      (∃ peer, s.peers[k]? = some peer ∧ pc.Input cfg.handshakeHeader peer) →
      ∃ peer, s'.peers[k]? = some peer ∧ True := by
    rintro k pc ⟨peer, hk, -⟩
    obtain ⟨peer', hk', -⟩ := h.reads_initial hk
    exact ⟨peer', hk', trivial⟩
  have hrequest : ∀ {k : Nat} {hdr : FrameHeader} {payload : Bytes},
      (∃ peer, s.peers[k]? = some peer ∧ (hdr, payload) ∈ peer.reads ∧ hdr.type = FrameRequest) →
      ∃ peer, s'.peers[k]? = some peer ∧ (hdr, payload) ∈ peer.reads ∧
        hdr.type = FrameRequest := by
    rintro k hdr payload ⟨peer, hk, hmem, htype⟩
    obtain ⟨peer', hk', hinit⟩ := h.reads_initial hk
    exact ⟨peer', hk', hinit.mem hmem, htype⟩
  cases h with
  | accept => exact ⟨⟨_, List.getElem?_concat_length, rfl, rfl, rfl⟩, hnil⟩
  | insert hpeer =>
      obtain ⟨peer, hk, hinput⟩ := hg
      obtain rfl := Option.some.inj (hk.symm.trans hpeer)
      exact ⟨⟨_, hset hpeer, hinput⟩, hnil⟩
  | spawn k => exact ⟨trivial, List.forall_mem_singleton.mpr hg⟩
  | connectNoHeader hpeer hheader =>
      obtain ⟨peer, hk, hreceived, hreads, -⟩ := hg
      obtain rfl := Option.some.inj (hk.symm.trans hpeer)
      refine ⟨⟨_, hset hpeer, hreceived.trans hheader.symm, ?_⟩, hnil⟩
      simp [Peer.accept, hreads]
  | connect k => exact ⟨hg, hnil⟩
  | handshakeAsk hpeer | handshakeOK hpeer =>
      obtain ⟨peer, hk, -, hreads, -⟩ := hg
      obtain rfl := Option.some.inj (hk.symm.trans hpeer)
      exact ⟨⟨_, hset hpeer, rfl, hreads⟩, hnil⟩
  | answerYes hpeer =>
      obtain ⟨peer, hk, hinput⟩ := hg
      obtain rfl := Option.some.inj (hk.symm.trans hpeer)
      exact ⟨⟨_, hset hpeer, hinput⟩, hnil⟩
  | reply n hpeer =>
      obtain ⟨peer, hk, hreceived, hreads⟩ := hg
      obtain rfl := Option.some.inj (hk.symm.trans hpeer)
      refine ⟨⟨_, hset hpeer, hreceived, ?_⟩, hnil⟩
      simp [Peer.wrote, hreads]
  | read hdr payload hpeer htype =>
      obtain ⟨peer, hk, hreceived, hrequests⟩ := hg
      obtain rfl := Option.some.inj (hk.symm.trans hpeer)
      refine ⟨⟨_, hset hpeer, hreceived, fun f hf => ?_, List.mem_append_right _ ?_⟩, hnil⟩
      · rcases List.mem_append.mp hf with hf | hf
        · exact hrequests f hf
        · rw [List.mem_singleton.mp hf]
          exact htype
      · exact List.mem_cons_self
  | acquire k hdr payload => exact ⟨hg, hnil⟩
  | spawnRequest hdr payload hpeer =>
      obtain ⟨peer, hk, hreceived, hrequests, hmem⟩ := hg
      obtain rfl := Option.some.inj (hk.symm.trans hpeer)
      exact ⟨⟨_, hset hpeer, hreceived, hrequests⟩, List.forall_mem_singleton.mpr
        ⟨_, hset hpeer, hmem, hrequests _ hmem⟩⟩
  | handshakeFailed | handshakeMismatch | answerNo | replyFailed | readFailed | readOther
  | acquireQuit | wait | onDisconnect | delete | close => exact ⟨hgone hg, hnil⟩
  | lookup | miss | call | returned | requestWrite | requestUnlock | closeConn | release =>
      exact ⟨hrequest hg, hnil⟩
  | send | broadcast | callShutdown => exact ⟨trivial, List.forall_mem_singleton.mpr trivial⟩
  | _ => exact ⟨trivial, hnil⟩

/-- A step of `handleConn` keeps its peer in order. -/
theorem Move.peerInput (h : Move cfg s g a s' g' new) (hk : s.peers[k]? = some peer)
    (hg : g.Input cfg.handshakeHeader s.peers) (hpeer : peer.Input cfg.handshakeHeader) :
    ∃ peer', s'.peers[k]? = some peer' ∧ peer'.Input cfg.handshakeHeader := by
  by_cases hzero : g.handles k = 0
  · obtain ⟨peer', hk', hsame⟩ := h.sameInput hk hzero
    refine ⟨peer', hk', ?_, ?_⟩
    · rw [hsame.reads, hsame.accepted, hsame.received]
      exact hpeer.received
    · rw [hsame.reads]
      exact hpeer.requests
  · have hown : ∀ {j : Nat} {old next : Peer}, s.peers[j]? = some old →
        (j = k → old = peer → next.Input cfg.handshakeHeader) →
        ∃ peer', (s.setPeer j next).peers[k]? = some peer' ∧ peer'.Input cfg.handshakeHeader :=
      fun hold hnext => exists_getElem?_set hold hk hnext fun _ => hpeer
    cases h with
    | insert hj | reply n hj | replyFailed n e hj | spawnRequest hdr payload hj | close hj =>
        refine hown hj fun _ hold => ?_
        subst hold
        exact ⟨hpeer.received, hpeer.requests⟩
    | connectNoHeader hj hheader =>
        obtain ⟨peer₀, hk₀, hreceived, hreads, -⟩ := hg
        refine hown hj fun hjk hold => ?_
        subst hjk hold
        cases hk₀.symm.trans hj
        exact ⟨fun _ => hreceived.trans hheader.symm, by simp [Peer.accept, hreads]⟩
    | handshakeMismatch received hj =>
        obtain ⟨peer₀, hk₀, -, hreads, hshut⟩ := hg
        refine hown hj fun hjk hold => ?_
        subst hjk hold
        cases hk₀.symm.trans hj
        exact ⟨fun hbad => by simp [Peer.receive, hreads, hshut] at hbad,
          by simp [Peer.receive, hreads]⟩
    | handshakeAsk hj | handshakeOK hj =>
        refine hown hj fun _ hold => ?_
        subst hold
        exact ⟨fun _ => rfl, hpeer.requests⟩
    | answerYes hj =>
        obtain ⟨peer₀, hk₀, hreceived, -⟩ := hg
        refine hown hj fun hjk hold => ?_
        subst hjk hold
        cases hk₀.symm.trans hj
        exact ⟨fun _ => hreceived, hpeer.requests⟩
    | readOther hdr payload hj | read hdr payload hj =>
        obtain ⟨peer₀, hk₀, hreceived, hrequests⟩ := hg
        refine hown hj fun hjk hold => ?_
        subst hjk hold
        cases hk₀.symm.trans hj
        exact ⟨fun _ => hreceived, by rw [List.dropLast_concat]; exact hrequests⟩
    | spawn | connect | handshakeFailed | answerNo | readFailed | acquire | acquireQuit | wait
    | onDisconnect | delete | wgDone => exact ⟨peer, hk, hpeer⟩
    | _ => exact absurd rfl hzero

/-- Frames are read after the header, and only the last one can be something else than a
    request. -/
theorem reachable_input (hreach : (machine cfg).Reachable initial p) :
    (∀ (k : Nat) peer, p.shared.peers[k]? = some peer → peer.Input cfg.handshakeHeader) ∧
      ∀ g ∈ p.threads, g.Input cfg.handshakeHeader p.shared.peers := by
  refine Program.reachable_local (P := program cfg)
    (I := fun s => ∀ (k : Nat) peer, s.peers[k]? = some peer → peer.Input cfg.handshakeHeader)
    (J := fun s g => g.Input cfg.handshakeHeader s.peers)
    ⟨by simp [initial], by simp [initial, Goroutine.Input]⟩ ?_ hreach
  intro u hu s' g g' new rest a hperm hI hJ hs
  have hmove := step_move hs
  obtain ⟨hg', hnew⟩ := hmove.input hJ
  refine ⟨fun k peer' hk' => ?_, hg', hnew, fun v hv hold =>
    hold.frame hmove fun k hk => handles_other hu hperm hv hk⟩
  cases hk : u.shared.peers[k]? with
  | none =>
      rw [hmove.new_peer hk hk']
      exact ⟨by simp, by simp⟩
  | some peer =>
      obtain ⟨next, hnext, hinput⟩ := hmove.peerInput hk hJ (hI k peer hk)
      cases hk'.symm.trans hnext
      exact hinput

/-! ## Requests and runs -/

/-- The frames read from peer `k`. -/
def Shared.readsOf (k : Nat) (s : Shared) : List (FrameHeader × Bytes) :=
  (s.peers[k]?.map Peer.reads).getD []

theorem Move.readsOf (h : Move cfg s g a s' g' new) (k : Nat) :
    s'.readsOf k = s.readsOf k ∨
      ∃ hdr payload, g = .handleConn k .read ∧ a = .readFrame (.ok (hdr, payload)) ∧
        s'.readsOf k = s.readsOf k ++ [(hdr, payload)] ∧ new = [] ∧
        g' = .handleConn k (if hdr.type = FrameRequest then .acquire hdr payload else .wait) := by
  cases hk : s.peers[k]? with
  | none =>
      have hbefore : s.readsOf k = [] := by simp [Shared.readsOf, hk]
      cases hk' : s'.peers[k]? with
      | none => exact Or.inl (by simp [Shared.readsOf, hk, hk'])
      | some peer' =>
          rw [hbefore]
          simp [Shared.readsOf, hk', h.new_peer hk hk']
  | some peer =>
      obtain ⟨peer', hk', hreads⟩ := h.reads hk
      simp only [Shared.readsOf, hk, hk', Option.map_some, Option.getD_some]
      exact hreads

/-- Requests are counted with a weight on their id, method and payload. -/
def weigh (w : UInt32 → UInt32 → Bytes → Nat) (f : FrameHeader × Bytes) : Nat :=
  w f.1.callID f.1.methodID f.2

section

variable (w : UInt32 → UInt32 → Bytes → Nat)

/-- The requests read from peer `k`. -/
def Shared.requests (k : Nat) (s : Shared) : Nat :=
  ((s.readsOf k).map fun f => if f.1.type = FrameRequest then weigh w f else 0).sum

/-- The requests of peer `k` that were handed to a handler. -/
def Shared.handled (k : Nat) (s : Shared) : Nat :=
  (s.runs.map fun r => if r.peer = k then w r.callID r.methodID r.request else 0).sum

/-- The request of peer `k` that a goroutine has not handed to a handler yet. -/
def Goroutine.carries (k : Nat) : Goroutine → Nat
  | .handleConn j (.acquire hdr payload) => if j = k then weigh w (hdr, payload) else 0
  | .handleConn j (.spawn hdr payload) => if j = k then weigh w (hdr, payload) else 0
  | .request j hdr payload .lookup => if j = k then weigh w (hdr, payload) else 0
  | .request j hdr payload (.call _) => if j = k then weigh w (hdr, payload) else 0
  | _ => 0

theorem handled_setResult (s : Shared) (i k : Nat) (result : Bytes × Status) :
    (s.setResult i result).handled w k = s.handled w k :=
  congrArg List.sum (map_modify (by intro r; rfl) s.runs i)

theorem handled_concat (s : Shared) (run : Run) (k : Nat) {s' : Shared}
    (hruns : s'.runs = s.runs ++ [run]) :
    s'.handled w k = s.handled w k +
      if run.peer = k then w run.callID run.methodID run.request else 0 := by
  rw [Shared.handled, hruns, List.map_append, List.sum_append, List.map_singleton,
    List.sum_singleton]
  rfl

/-- What a step does with the requests of peer `k`: it loses one only when the server is
    shut down or the method has no handler. -/
theorem Move.carries (h : Move cfg s g a s' g' new) (k : Nat) :
    ∃ gain lost, s'.requests w k = s.requests w k + gain ∧
      s'.handled w k + (g'.carries w k + (new.map (Goroutine.carries w k)).sum) + lost =
        s.handled w k + g.carries w k + gain ∧
      (s.done = false → (∀ hdr payload, g = .request k hdr payload .lookup →
        s.handlers.lookup hdr.methodID = none → weigh w (hdr, payload) = 0) → lost = 0) := by
  have hreads := h.readsOf k
  have hkeep : s'.readsOf k = s.readsOf k → s'.requests w k = s.requests w k + 0 := by
    intro hsame
    rw [Shared.requests, hsame]
    rfl
  rcases hreads with hsame | ⟨hdr, payload, rfl, -, hadd, rfl, rfl⟩
  · have hrequests := hkeep hsame
    cases h with
    | miss j hdr payload hlookup =>
        refine ⟨0, if j = k then weigh w (hdr, payload) else 0, hrequests, ?_, fun _ hw => ?_⟩
        · simp [Goroutine.carries, Shared.handled]
        · split
          · rename_i hj
            exact hw hdr payload (hj ▸ rfl) hlookup
          · rfl
    | acquireQuit j hdr payload hdone =>
        refine ⟨0, if j = k then weigh w (hdr, payload) else 0, hrequests, ?_, fun hbad => ?_⟩
        · simp [Goroutine.carries]
        · cases hdone.symm.trans hbad
    | call j hdr payload handler =>
        refine ⟨0, 0, hrequests, ?_, fun _ _ => rfl⟩
        rw [handled_concat w s _ k rfl]
        simp [Goroutine.carries, weigh]
    | returned j hdr payload run response st =>
        refine ⟨0, 0, hrequests, ?_, fun _ _ => rfl⟩
        rw [handled_setResult]
        simp [Goroutine.carries, Shared.handled, Shared.log]
    | spawnRequest hdr payload hpeer =>
        refine ⟨0, 0, hrequests, ?_, fun _ _ => rfl⟩
        simp [Goroutine.carries, Shared.handled, Shared.setPeer]
    | @read j peer hdr payload hpeer htype =>
        have hj : j ≠ k := by
          rintro rfl
          simp only [Shared.readsOf, Shared.setPeer, getElem?_set_of_some _ hpeer, hpeer,
            Option.map_some, Option.getD_some] at hsame
          simpa using congrArg List.length hsame
        refine ⟨0, 0, hrequests, ?_, fun _ _ => rfl⟩
        simp [Goroutine.carries, Shared.handled, Shared.setPeer, hj]
    | requestUnlock hdr payload rhdr rpayload err pc hpeer hpc =>
        refine ⟨0, 0, hrequests, ?_, fun _ _ => rfl⟩
        rcases hpc with rfl | rfl <;> rfl
    | _ => exact ⟨0, 0, hrequests, rfl, fun _ _ => rfl⟩
  · have hruns : s'.runs = s.runs := by
      generalize Goroutine.handleConn k (if hdr.type = FrameRequest then .acquire hdr payload
        else .wait) = g' at h
      cases h <;> rfl
    refine ⟨if hdr.type = FrameRequest then weigh w (hdr, payload) else 0, 0, ?_, ?_,
      fun _ _ => rfl⟩
    · rw [Shared.requests, hadd, List.map_append, List.sum_append, List.map_singleton,
        List.sum_singleton]
      rfl
    · rw [Shared.handled, hruns]
      by_cases htype : hdr.type = FrameRequest
      · simp [htype, Goroutine.carries, Shared.handled]
      · simp [htype, Goroutine.carries, Shared.handled]

/-- No more requests are handed to handlers than were read. -/
theorem reachable_handled (k : Nat) (hreach : (machine cfg).Reachable initial p) :
    Program.owned (Shared.handled w k) (Goroutine.carries w k) p.shared p.threads ≤
      p.shared.requests w k := by
  refine Program.reachable_owned_le (P := program cfg) _ _ (Shared.requests w k) ?_ ?_ hreach
  · exact Nat.le_refl 0
  intro u _ s' g g' new a hs
  obtain ⟨gain, lost, hrequests, hsum, -⟩ := (step_move hs).carries w k
  exact ⟨gain, hrequests, by omega⟩

end

/-- A handler runs on a request that was read. -/
theorem request_of_run (hreach : (machine cfg).Reachable initial p) {run : Run}
    (hrun : run ∈ p.shared.runs) :
    ∃ peer, p.shared.peers[run.peer]? = some peer ∧ ∃ f ∈ peer.reads, f.1.type = FrameRequest ∧
      f.1.callID = run.callID ∧ f.1.methodID = run.methodID ∧ f.2 = run.request := by
  -- follow the requests that look like this one
  let w : UInt32 → UInt32 → Bytes → Nat := fun id m request =>
    if id = run.callID ∧ m = run.methodID ∧ request = run.request then 1 else 0
  have hhandled : 1 ≤ p.shared.handled w run.peer := by
    obtain ⟨front, back, hsplit⟩ := List.append_of_mem hrun
    simp only [Shared.handled, hsplit, List.map_append, List.map_cons, List.sum_append,
      List.sum_cons, if_true, w, and_self]
    omega
  have hle := reachable_handled w run.peer hreach
  rw [Program.owned] at hle
  obtain ⟨f, hf, hpos⟩ := exists_of_sum_pos (Nat.lt_of_lt_of_le Nat.zero_lt_one
    (hhandled.trans (Nat.le_trans (Nat.le_add_right _ _) hle)))
  cases hk : p.shared.peers[run.peer]? with
  | none => simp [Shared.readsOf, hk] at hf
  | some peer =>
      simp only [Shared.readsOf, hk, Option.map_some, Option.getD_some] at hf
      refine ⟨peer, rfl, f, hf, ?_⟩
      by_cases htype : f.1.type = FrameRequest
      · simp only [htype, if_true, weigh, w] at hpos
        split at hpos
        · exact ⟨htype, ‹_›⟩
        · cases hpos
      · simp [htype] at hpos

end Protocomm.Go.Server
