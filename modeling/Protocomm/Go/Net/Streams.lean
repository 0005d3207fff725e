import Protocomm.Go.Channel.Requests
import Protocomm.Go.Net.Model
import Protocomm.Go.Server.Answers

/-!
# The streams of a connection

The parts of a net run as they do alone. What one side of a connection has read is a
beginning of what the other side has written.
-/

namespace Protocomm.Go.Net

open Misc

variable {cfg : Config} {n n' : State} {act : Action}

/-- What a step of the net can do. -/
inductive Move (cfg : Config) (n : State) : Action → State → Prop
  | client {i j : Nat} {a : Channel.Action} {g : Channel.Goroutine}
      {client : Pool (Channel.Shared × (Nat → Channel.Line)) Channel.Goroutine}
      (hg : (n.clients i).threads[j]? = some g) (hreads : n.clientReads i g a = true)
      (hstep : (Channel.lined (cfg.client i)).machine.step (n.clients i) (j, a) = some client) :
      Move cfg n (.client i j a) { n with clients := Function.update n.clients i client }
  | server {j : Nat} {a : Server.Action} {g : Server.Goroutine}
      {server : Pool Server.Shared Server.Goroutine}
      (hg : n.server.threads[j]? = some g) (hreads : n.serverReads g a = true)
      (hstep : (Server.machine cfg.server).step n.server (j, a) = some server) :
      Move cfg n (.server j a) { n with server := server }
  | accept {j i d : Nat} {server : Pool Server.Shared Server.Goroutine}
      (hfresh : (i, d) ∉ n.links)
      (hstep : (Server.machine cfg.server).step n.server (j, .accepted) = some server) :
      Move cfg n (.accept j i d) { n with server := server, links := n.links ++ [(i, d)] }

theorem step_move (h : (machine cfg).step n act = some n') : Move cfg n act n' := by
  cases act with
  | client i j a =>
      simp only [machine, step] at h
      split at h
      · split at h <;> cases h
        exact .client ‹_› ‹_› ‹_›
      · cases h
  | server j a =>
      simp only [machine, step] at h
      split at h
      · split at h <;> cases h
        exact .server ‹_› ‹_› ‹_›
      · cases h
  | accept j i d =>
      simp only [machine, step] at h
      split at h
      · split at h <;> cases h
        exact .accept ‹_› ‹_›
      · cases h

/-- The parts of a net run as they do alone, and each peer has one link. -/
structure Joined (cfg : Config) (n : State) : Prop where
  clients : ∀ i, (Channel.lined (cfg.client i)).machine.Reachable Channel.linedInitial (n.clients i)
  server : (Server.machine cfg.server).Reachable Server.initial n.server
  nodup : n.links.Nodup
  length : n.links.length = n.server.shared.peers.length

theorem not_accepted {g : Server.Goroutine} {a : Server.Action} (h : n.serverReads g a = true) :
    a ≠ .accepted := by
  rintro rfl
  simp [State.serverReads] at h

theorem joined_initial : Joined cfg initial :=
  ⟨fun _ => .refl _, .refl _, List.nodup_nil, rfl⟩

theorem Joined.step (h : Joined cfg n) (hmove : Move cfg n act n') : Joined cfg n' := by
  cases hmove with
  | @client i j a g client hg hreads hstep =>
      refine ⟨fun i' => ?_, h.server, h.nodup, h.length⟩
      by_cases hi : i' = i
      · subst hi
        simp only [Function.update_self]
        exact (h.clients i').tail hstep
      · simp only [Function.update_of_ne hi]
        exact h.clients i'
  | server hg hreads hstep =>
      refine ⟨h.clients, h.server.tail hstep, h.nodup, ?_⟩
      obtain ⟨g, g', new, -, hs, -⟩ := Program.machine_step_eq hstep
      rw [(Server.step_move hs).length_eq (not_accepted hreads)]
      exact h.length
  | accept hfresh hstep =>
      refine ⟨h.clients, h.server.tail hstep, ?_, ?_⟩
      · rw [List.nodup_append]
        exact ⟨h.nodup, List.nodup_singleton _, fun x hx y hy heq =>
          hfresh (by rw [← List.mem_singleton.mp hy, ← heq]; exact hx)⟩
      · obtain ⟨g, g', new, -, hs, -⟩ := Program.machine_step_eq hstep
        rw [(Server.step_move hs).accepted, List.length_append, List.length_append,
          h.length]
        rfl

theorem reachable_joined (h : (machine cfg).Reachable initial n) : Joined cfg n :=
  Machine.reachable_invariant joined_initial
    (fun _ _ _ _ hold hstep => hold.step (step_move hstep)) h

variable {i d k : Nat} {peer : Server.Peer}

theorem Joined.idxOf (h : Joined cfg n) (hk : n.links[k]? = some (i, d)) :
    n.links.idxOf (i, d) = k := by
  obtain ⟨hlt, hget⟩ := List.getElem?_eq_some_iff.mp hk
  rw [← hget]
  exact h.nodup.idxOf_getElem k hlt

/-- Every link has its peer. -/
theorem Joined.linked (h : Joined cfg n) (hk : n.links[k]? = some (i, d)) :
    ∃ peer, n.server.shared.peers[k]? = some peer ∧ n.down i d = peer.out.received := by
  have hlt := (List.getElem?_eq_some_iff.mp hk).1
  rw [h.length] at hlt
  refine ⟨_, List.getElem?_eq_getElem hlt, ?_⟩
  rw [State.down, h.idxOf hk, List.getElem?_eq_getElem hlt]

theorem Joined.down_eq (h : Joined cfg n) (hk : n.links[k]? = some (i, d))
    (hpeer : n.server.shared.peers[k]? = some peer) : n.down i d = peer.out.received := by
  obtain ⟨peer', hpeer', hdown⟩ := h.linked hk
  cases hpeer.symm.trans hpeer'
  exact hdown

/-- Nothing comes from the server on a connection it has not accepted. -/
theorem Joined.link_of_down (h : Joined cfg n) (hdown : n.down i d ≠ []) :
    ∃ k : Nat, n.links[k]? = some (i, d) := by
  by_cases hmem : (i, d) ∈ n.links
  · exact List.mem_iff_getElem?.mp hmem
  · rw [State.down, List.idxOf_eq_length hmem, h.length, List.getElem?_eq_none (Nat.le_refl _)]
      at hdown
    exact absurd rfl hdown

/-! ## One connection -/

/-- What a step of the net does to connection `d` of channel `i`. -/
theorem Move.line (h : Move cfg n act n') (i d : Nat) :
    n'.line i d = n.line i d ∨
      ∃ g a, g ∈ (n.clients i).threads ∧ n.clientReads i g a = true ∧
        Channel.LineMove (cfg.client i) d (n.line i d) g a (n'.line i d) := by
  cases h with
  | @client i' j a g client hg hreads hstep =>
      by_cases hi : i = i'
      · subst hi
        obtain ⟨g', new, hs, -⟩ := Program.machine_step_get hstep hg
        have hmove := Channel.record_move (Program.recorded_step hs).1 d
        refine Or.inr ⟨g, a, List.mem_of_getElem? hg, hreads, ?_⟩
        simpa only [State.line, Function.update_self] using hmove
      · left
        simp only [State.line, Function.update_of_ne hi]
  | server | accept => exact Or.inl rfl

/-- What a channel has written stays written. -/
theorem Move.up (h : Move cfg n act n') (i d : Nat) :
    (n.line i d).out.received <+: (n'.line i d).out.received := by
  rcases h.line i d with hsame | ⟨g, a, -, -, hmove⟩
  · rw [hsame]
  · exact hmove.wire.map _

theorem Move.links (h : Move cfg n act n') : n.links <+: n'.links := by
  cases h with
  | accept => exact List.prefix_append ..
  | _ => exact List.prefix_refl _

/-- What a step of the net does to a peer. -/
theorem Move.onPeer (h : Move cfg n act n') (hk : n.server.shared.peers[k]? = some peer) :
    n'.server.shared.peers[k]? = some peer ∨
      ∃ j g a g' new, act = .server j a ∧ n.server.threads[j]? = some g ∧
        n.serverReads g a = true ∧
        Server.Move cfg.server n.server.shared g a n'.server.shared g' new := by
  cases h with
  | client => exact Or.inl hk
  | @server j a g server hg hreads hstep =>
      obtain ⟨g', new, hs, -⟩ := Program.machine_step_get hstep hg
      exact Or.inr ⟨j, g, a, g', new, rfl, hg, hreads, Server.step_move hs⟩
  | accept hfresh hstep =>
      obtain ⟨g, g', new, -, hs, -⟩ := Program.machine_step_eq hstep
      left
      rw [(Server.step_move hs).accepted]
      exact getElem?_of_initial (List.prefix_append ..) hk

/-- A link is an old one, or its peer is new. -/
theorem Move.linked {peer' : Server.Peer} (h : Move cfg n act n') (hjoined : Joined cfg n)
    (hlink : n'.links[k]? = some (i, d)) (hk' : n'.server.shared.peers[k]? = some peer') :
    (∃ id, peer' = { id := id }) ∨
      n.links[k]? = some (i, d) ∧ ∃ peer, n.server.shared.peers[k]? = some peer := by
  have hold : n.links[k]? = some (i, d) → (∃ id, peer' = { id := id }) ∨
      n.links[k]? = some (i, d) ∧ ∃ peer, n.server.shared.peers[k]? = some peer := by
    intro hlink
    obtain ⟨peer, hk, -⟩ := hjoined.linked hlink
    exact Or.inr ⟨hlink, peer, hk⟩
  cases h with
  | client | server => exact hold hlink
  | accept hfresh hstep =>
      obtain ⟨g, g', new, -, hs, -⟩ := Program.machine_step_eq hstep
      by_cases hlt : k < n.links.length
      · exact hold (by rwa [List.getElem?_append_left hlt] at hlink)
      · refine Or.inl ⟨n.server.shared.nextConnID, (Server.step_move hs).new_peer ?_ hk'⟩
        rw [List.getElem?_eq_none (by rw [← hjoined.length]; exact Nat.not_lt.mp hlt)]

/-- What the server has written stays written. -/
theorem Move.down (h : Move cfg n act n') (hjoined : Joined cfg n) (i d : Nat) :
    n.down i d <+: n'.down i d := by
  by_cases hdown : n.down i d = []
  · rw [hdown]
    exact List.nil_prefix
  · obtain ⟨k, hlink⟩ := hjoined.link_of_down hdown
    obtain ⟨peer, hk, hold⟩ := hjoined.linked hlink
    have hlink' := getElem?_of_initial h.links hlink
    rw [hold]
    rcases h.onPeer hk with hk' | ⟨j, g, a, g', new, -, -, -, hmove⟩
    · rw [(hjoined.step h).down_eq hlink' hk']
    · obtain ⟨peer', hk', heffect⟩ := hmove.effect hk
      rw [(hjoined.step h).down_eq hlink' hk']
      exact heffect.wire.map _

/-! ## What was read -/

/-- What was read from a peer is what `stream` begins with: the handshake, and then
    frames, of which the first starts right after it. -/
structure Fed (stream : Bytes) (peer : Server.Peer) : Prop where
  received : peer.received <+: stream
  taken : taken peer ≤ stream.length
  first : ∀ f, peer.reads.head? = some f → stream[peer.received.length]? = some f.1.type

theorem Fed.mono {stream stream' : Bytes} (h : Fed stream peer) (hmore : stream <+: stream') :
    Fed stream' peer :=
  ⟨h.received.trans hmore, Nat.le_trans h.taken hmore.length_le,
    fun f hf => getElem?_of_initial hmore (h.first f hf)⟩

theorem fed_new (stream : Bytes) (id : UInt64) : Fed stream { id := id } :=
  ⟨List.nil_prefix, Nat.zero_le _, nofun⟩

theorem nextBytes_initial {stream received : Bytes} (h : nextBytes stream received = true) :
    received <+: stream := by
  unfold nextBytes at h
  split at h
  · rename_i buf rest hread
    exact ⟨rest, by rw [readFull_ok hread, eq_of_beq h]⟩
  · cases h

theorem nextFrame_ok {stream : Bytes} {f : FrameHeader × Bytes} (h : nextFrame stream f = true) :
    ∃ rest, readFrame stream = .ok (f, rest) := by
  unfold nextFrame at h
  split at h
  · rename_i f' rest hread
    rw [← eq_of_beq h]
    exact ⟨rest, hread⟩
  · cases h

/-- A read of the handshake. -/
theorem Fed.receive {stream received : Bytes} {peer' : Server.Peer} (hstream : received <+: stream)
    (hreceived : peer'.received = received) (hreads : peer'.reads = []) : Fed stream peer' := by
  refine ⟨hreceived ▸ hstream, ?_, fun f hf => ?_⟩
  · rw [Net.taken, hreads, hreceived]
    exact hstream.length_le
  · rw [hreads] at hf
    cases hf

/-- A read of a frame. -/
theorem Fed.read {stream : Bytes} {f : FrameHeader × Bytes} {peer' : Server.Peer}
    (h : Fed stream peer) (hnext : nextFrame (stream.drop (Net.taken peer)) f = true)
    (hreceived : peer'.received = peer.received) (hreads : peer'.reads = peer.reads ++ [f]) :
    Fed stream peer' := by
  obtain ⟨rest, hread⟩ := nextFrame_ok hnext
  obtain ⟨hhead, hsize⟩ := readFrame_ok hread
  refine ⟨hreceived ▸ h.received, ?_, fun f' hf' => ?_⟩
  · have htaken := h.taken
    rw [List.length_drop] at hsize
    simp only [Net.taken, hreceived, hreads, List.map_append, List.sum_append, List.map_singleton,
      List.sum_singleton] at htaken hsize ⊢
    omega
  · rw [hreads, List.head?_append] at hf'
    rw [hreceived]
    cases hfirst : peer.reads with
    | nil =>
        rw [hfirst] at hf'
        cases hf'
        rw [List.head?_drop] at hhead
        simpa [Net.taken, hfirst] using hhead
    | cons f₀ reads =>
        rw [hfirst] at hf'
        cases hf'
        exact h.first _ (by rw [hfirst]; rfl)

/-- What each side has read is what the other side has written. -/
structure Streams (n : State) : Prop where
  up : ∀ (k i d : Nat) peer, n.links[k]? = some (i, d) → n.server.shared.peers[k]? = some peer →
    Fed (n.line i d).out.received peer
  down : ∀ i d, (n.line i d).received <+: n.down i d

theorem State.up_eq (hlink : n.links[k]? = some (i, d)) : n.up k = (n.line i d).out.received := by
  rw [State.up, hlink]

theorem State.taken_eq (hk : n.server.shared.peers[k]? = some peer) :
    n.taken k = Net.taken peer := by
  rw [State.taken, hk]

/-- A read of the server. -/
theorem Fed.step {stream : Bytes} {g g' : Server.Goroutine} {a : Server.Action}
    {new : List Server.Goroutine} {peer' : Server.Peer} (h : Fed stream peer)
    (hup : n.up k = stream) (hk : n.server.shared.peers[k]? = some peer)
    (hinput : g.Input cfg.server.handshakeHeader n.server.shared.peers)
    (hreads : n.serverReads g a = true)
    (hmove : Server.Move cfg.server n.server.shared g a n'.server.shared g' new)
    (hk' : n'.server.shared.peers[k]? = some peer') : Fed stream peer' := by
  obtain ⟨next, hnext, hreceived⟩ := hmove.received hk
  cases hk'.symm.trans hnext
  obtain ⟨next, hnext, hread⟩ := hmove.reads hk
  cases hk'.symm.trans hnext
  rcases hreceived with hreceived | ⟨received, rfl, rfl, hreceived⟩
  · rcases hread with hread | ⟨hdr, payload, rfl, rfl, hread, -⟩
    · exact ⟨hreceived ▸ h.received, by rw [Net.taken, hreceived, hread]; exact h.taken,
        by rw [hreceived, hread]; exact h.first⟩
    · simp only [State.serverReads, hup, State.taken_eq hk] at hreads
      exact h.read hreads hreceived hread
  · -- nothing was read before the handshake
    obtain ⟨peer₀, hk₀, hnone, hempty, -⟩ := hinput
    cases hk.symm.trans hk₀
    simp only [State.serverReads, hup, State.taken_eq hk, Net.taken, hnone, hempty, List.map_nil,
      List.sum_nil, List.length_nil, Nat.add_zero, List.drop_zero] at hreads
    rcases hread with hread | ⟨hdr, payload, hbad, -⟩
    · exact .receive (nextBytes_initial hreads) hreceived (hread.trans hempty)
    · cases hbad

theorem Config.client_header (cfg : Config) (i : Nat) : (cfg.client i).handshakeHeader ≠ [] := by
  unfold Config.client Channel.createConfig
  split
  · exact List.cons_ne_nil _ _
  · assumption

theorem Streams.step (h : Streams n) (hjoined : Joined cfg n) (hmove : Move cfg n act n') :
    Streams n' := by
  refine ⟨fun k i d peer' hlink hk' => ?_, fun i d => ?_⟩
  · rcases hmove.linked hjoined hlink hk' with ⟨id, rfl⟩ | ⟨hold, peer, hk⟩
    · exact fed_new _ id
    · have hfed := h.up k i d peer hold hk
      rcases hmove.onPeer hk with hsame | ⟨j, g, a, g', new, rfl, hg, hreads, hserver⟩
      · cases hk'.symm.trans hsame
        exact hfed.mono (hmove.up i d)
      · refine Fed.mono ?_ (hmove.up i d)
        exact hfed.step (State.up_eq hold) hk
          ((Server.reachable_input hjoined.server).2 g (List.mem_of_getElem? hg)) hreads hserver hk'
  · have hkeep : (n'.line i d).received = (n.line i d).received →
        (n'.line i d).received <+: n'.down i d := by
      intro hsame
      rw [hsame]
      exact (h.down i d).trans (hmove.down hjoined i d)
    rcases hmove.line i d with hsame | ⟨g, a, hg, hreads, hline⟩
    · exact hkeep (congrArg _ hsame)
    · generalize hline' : n'.line i d = line' at hline hkeep ⊢
      cases hline with
      | receive k received =>
          have hgreeted : n.line i d = _ :=
            (Channel.reachable_lined (cfg.client_header i) (hjoined.clients i)).2 _ hg
          simp only [State.clientReads, hgreeted, Channel.Line.taken, Channel.Line.greeted,
            List.map_nil, List.sum_nil, List.length_nil, Nat.add_zero, List.drop_zero] at hreads
          exact (nextBytes_initial hreads).trans (hmove.down hjoined i d)
      | _ => exact hkeep rfl

theorem reachable_streams (h : (machine cfg).Reachable initial n) : Streams n := by
  refine Machine.reachable_invariant ⟨?_, ?_⟩ ?_ h
  · intro k i d peer hlink
    cases hlink
  · intro i d
    exact List.nil_prefix
  · intro u act u' hu hold hstep
    exact hold.step (reachable_joined hu) (step_move hstep)

end Protocomm.Go.Net
