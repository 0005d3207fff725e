import Protocomm.Go.Server.Sessions
import Protocomm.Misc.Gate

/-!
# The handshake gate of the Go server

A request is served only on a connection whose handshake was accepted: `handleConn`
has read the header and `onHandshake`, if it is set, has returned true. With an empty
header the whole handshake is left out, and `onHandshake` with it.
-/

namespace Protocomm.Go.Server

open Misc

/-- The gate of a peer. -/
def Peer.gate (peer : Peer) : Gate UInt8 := ⟨peer.out.accepted, peer.received, peer.admitted⟩

/-- The stages of `handleConn`. -/
def Handling.stage : Handling → Gate.Stage
  | .onConnect => .fresh
  | .readHandshake => .reading
  | .onHandshake => .asking
  | .writeHandshake | .read | .acquire _ _ | .spawn _ _ => .passed
  | _ => .gone

/-- The stage of a goroutine at the gate of peer `k`. -/
def Goroutine.stage (k : Nat) : Goroutine → Gate.Stage
  | .acceptLoop (.insert j) | .acceptLoop (.spawn j) => if j = k then .fresh else .gone
  | .handleConn j pc => if j = k then pc.stage else .gone
  | .request j _ _ _ => if j = k then .passed else .gone
  | _ => .gone

/-- What a goroutine knows about the gates. -/
def Goroutine.AtGate (header : Bytes) (peers : List Peer) (g : Goroutine) : Prop :=
  ∀ (k : Nat) (peer : Peer), peers[k]? = some peer → peer.gate.Holds header (g.stage k)

variable {cfg : Config} {s s' : Shared} {g g' : Goroutine} {a : Action} {new rest : List Goroutine}
  {k : Nat} {peer peer' : Peer} {p : Pool Shared Goroutine}

/-- What a step does to the gate of peer `k`. -/
inductive GateMove (cfg : Config) (k : Nat) (peer : Peer) (g : Goroutine) (peer' : Peer)
    (g' : Goroutine) (new : List Goroutine) : Prop
  | keep (hsame : peer'.gate = peer.gate) (hg' : g'.stage k = .gone ∨ g'.stage k = g.stage k)
      (hnew : ∀ v ∈ new, v.stage k = .gone ∨ v.stage k = g.stage k)
  | step (hg : g.handles k = 1) (hnew : new = [])
      (hstep : Gate.Step cfg.handshakeHeader cfg.onHandshake peer.gate (g.stage k) peer'.gate
        (g'.stage k))

theorem WriteMove.gate {hdr : FrameHeader} {payload : Bytes} {pc pc' : Writing}
    (h : WriteMove peer hdr payload pc a peer' pc') : peer'.gate = peer.gate := by
  cases h with
  | _ => simp [Peer.gate, Peer.wrote, Outlet.fail, Outlet.more]

/-- An update of a peer that leaves its gate alone. -/
theorem gateMove_setPeer {j : Nat} {old next : Peer} (hold : s.peers[j]? = some old)
    (hk : s.peers[k]? = some peer) (hsame : next.gate = old.gate)
    (hg' : g'.stage k = .gone ∨ g'.stage k = g.stage k)
    (hnew : ∀ v ∈ new, v.stage k = .gone ∨ v.stage k = g.stage k) :
    ∃ peer', (s.setPeer j next).peers[k]? = some peer' ∧ GateMove cfg k peer g peer' g' new := by
  refine exists_getElem?_set hold hk (fun _ heq => ?_) fun _ => .keep rfl hg' hnew
  exact .keep (heq ▸ hsame) hg' hnew

/-- A step of `handleConn` at the gate of its peer. -/
theorem gateMove_step {j : Nat} {old next : Peer} {pc pc' : Handling}
    (hold : s.peers[j]? = some old) (hk : s.peers[k]? = some peer)
    (hstep : Gate.Step cfg.handshakeHeader cfg.onHandshake old.gate pc.stage next.gate pc'.stage) :
    ∃ peer', (s.setPeer j next).peers[k]? = some peer' ∧
      GateMove cfg k peer (.handleConn j pc) peer' (.handleConn j pc') [] := by
  refine exists_getElem?_set hold hk (fun hj heq => ?_) fun hj => ?_
  · subst hj heq
    refine .step (if_pos rfl) rfl ?_
    simpa [Goroutine.stage] using hstep
  · exact .keep rfl (Or.inl (if_neg hj)) (List.forall_mem_nil _)

theorem Move.gate (h : Move cfg s g a s' g' new) (hk : s.peers[k]? = some peer) :
    ∃ peer', s'.peers[k]? = some peer' ∧ GateMove cfg k peer g peer' g' new := by
  have hnil : ∀ v ∈ ([] : List Goroutine), v.stage k = .gone ∨ v.stage k = g.stage k :=
    List.forall_mem_nil _
  have hgone : ∀ {j : Nat} {pc : Handling}, pc.stage = .gone →
      (Goroutine.handleConn j pc).stage k = .gone := by
    intro j pc hpc
    simp [Goroutine.stage, hpc]
  cases h with
  | accept =>
      have hlt := (List.getElem?_eq_some_iff.mp hk).1
      refine ⟨peer, List.getElem?_append_left hlt ▸ hk, .keep rfl (Or.inl ?_) hnil⟩
      exact if_neg (Nat.ne_of_gt hlt)
  | spawn j => exact ⟨peer, hk, .keep rfl (Or.inl rfl) (List.forall_mem_singleton.mpr (Or.inr rfl))⟩
  | send | broadcast | callShutdown =>
      exact ⟨peer, hk, .keep rfl (Or.inl rfl) (List.forall_mem_singleton.mpr (Or.inl rfl))⟩
  | closePeer hpeer | insert hpeer | read hdr payload hpeer | closeConn hdr payload hpeer
  | reply n hpeer | pushUnlock hdr payload todo err hpeer
  | requestUnlock hdr payload rhdr rpayload err pc hpeer =>
      exact gateMove_setPeer hpeer hk rfl (Or.inr rfl) hnil
  | close hpeer | readOther hdr payload hpeer | replyFailed n e hpeer =>
      exact gateMove_setPeer hpeer hk rfl (Or.inl (hgone rfl)) hnil
  | inflightDone hdr payload hpeer => exact gateMove_setPeer hpeer hk rfl (Or.inl rfl) hnil
  | requestWrite hdr payload rhdr rpayload hpeer hwrite
  | pushWrite hdr payload todo hpeer hwrite =>
      exact gateMove_setPeer hpeer hk hwrite.gate (Or.inr rfl) hnil
  | spawnRequest hdr payload hpeer =>
      exact gateMove_setPeer hpeer hk rfl (Or.inr rfl)
        (List.forall_mem_singleton.mpr (Or.inr rfl))
  | connectNoHeader hpeer hheader => exact gateMove_step hpeer hk (.skip hheader)
  | connect j =>
      by_cases hj : j = k
      · subst hj
        exact ⟨peer, hk, .step (if_pos rfl) rfl (by simpa [Goroutine.stage] using .start)⟩
      · exact ⟨peer, hk, .keep rfl (Or.inl (if_neg hj)) hnil⟩
  | handshakeMismatch received hpeer => exact gateMove_step hpeer hk (.mismatch received)
  | handshakeAsk hpeer => exact gateMove_step hpeer hk .ask
  | handshakeOK hpeer hunset => exact gateMove_step hpeer hk (.pass hunset)
  | answerYes hpeer => exact gateMove_step hpeer hk .approve
  | handshakeFailed | answerNo | readFailed | acquireQuit | wait | onDisconnect | delete =>
      exact ⟨peer, hk, .keep rfl (Or.inl (hgone rfl)) hnil⟩
  | wgDone | acceptDone | pushDone | shutdownAgain | shutdownDone =>
      exact ⟨peer, hk, .keep rfl (Or.inl rfl) hnil⟩
  | sweep =>
      rw [sweep_getElem?, hk]
      split
      · exact ⟨peer.close, rfl, .keep rfl (Or.inl rfl) hnil⟩
      · exact ⟨peer, rfl, .keep rfl (Or.inl rfl) hnil⟩
  | _ => exact ⟨peer, hk, .keep rfl (Or.inr rfl) hnil⟩

/-- Only `handleConn` and the requests it has let in have a stage. -/
theorem stage_inv {v : Goroutine} (h : v.stage k ≠ .gone) :
    v.handles k = 1 ∨ v.stage k = .passed := by
  revert h
  unfold Goroutine.stage Goroutine.handles
  cases v with
  | acceptLoop pc =>
      cases pc with
      | accept => simp
      | insert j | spawn j => by_cases hj : j = k <;> simp [hj]
  | handleConn j pc =>
      by_cases hj : j = k <;> simp [hj]
  | request j hdr payload pc =>
      by_cases hj : j = k <;> simp [hj]
  | _ => simp

theorem exists_peer_of_stage {v : Goroutine} (hv : v.Placed s.peers) (h : v.stage k ≠ .gone) :
    ∃ peer, s.peers[k]? = some peer := by
  have hown : ∀ {j : Nat} {st : Gate.Stage}, (if j = k then st else .gone) ≠ .gone → j = k := by
    intro j st hif
    by_contra hj
    exact hif (if_neg hj)
  have hlisted : ∀ {j : Nat}, Listed s.peers j → j = k → ∃ peer, s.peers[k]? = some peer := by
    rintro j ⟨peer, hpeer, -⟩ rfl
    exact ⟨peer, hpeer⟩
  cases v with
  | acceptLoop pc =>
      cases pc with
      | accept => exact absurd rfl h
      | insert j =>
          obtain ⟨peer, hpeer, -⟩ := hv
          obtain rfl := hown h
          exact ⟨peer, hpeer⟩
      | spawn j => exact hlisted hv (hown h)
  | handleConn j pc => exact hlisted hv (hown h)
  | request j hdr payload pc => exact hlisted hv (hown h)
  | _ => exact absurd rfl h

/-- The handshake of peer `k` was accepted. -/
def Accepted (peers : List Peer) (k : Nat) : Prop :=
  ∃ peer, peers[k]? = some peer ∧ peer.gate.accepted = true

theorem GateMove.accepted_mono (h : GateMove cfg k peer g peer' g' new)
    (haccepted : peer.gate.accepted = true) : peer'.gate.accepted = true := by
  cases h with
  | keep hsame => rw [hsame, haccepted]
  | step _ _ hstep => exact hstep.accepted_mono haccepted

theorem Accepted.mono (hk : Accepted s.peers k) (h : Move cfg s g a s' g' new) :
    Accepted s'.peers k := by
  obtain ⟨peer, hpeer, haccepted⟩ := hk
  obtain ⟨peer', hpeer', hgate⟩ := h.gate hpeer
  exact ⟨peer', hpeer', hgate.accepted_mono haccepted⟩

/-- The gate of a new peer is shut. -/
theorem Move.new_gate (h : Move cfg s g a s' g' new) (hk : s.peers[k]? = none)
    (hk' : s'.peers[k]? = some peer) : peer.gate = ⟨false, [], false⟩ := by
  rw [h.new_peer hk hk']
  rfl

/-- A step of a goroutine establishes what it and the goroutines it starts know about a
    peer, and keeps what the others know. -/
theorem GateMove.holds {header : Bytes} (h : GateMove cfg k peer g peer' g' new)
    (hheader : header = cfg.handshakeHeader) (hg : peer.gate.Holds header (g.stage k)) :
    peer'.gate.Holds header (g'.stage k) ∧ ∀ v ∈ new, peer'.gate.Holds header (v.stage k) := by
  subst hheader
  cases h with
  | keep hsame hg' hnew =>
      have hback : ∀ st : Gate.Stage, st = .gone ∨ st = g.stage k →
          peer'.gate.Holds cfg.handshakeHeader st := by
        rintro st (rfl | rfl)
        · trivial
        · rw [hsame]
          exact hg
      exact ⟨hback _ hg', fun v hv => hback _ (hnew v hv)⟩
  | step _ hnew hstep =>
      subst hnew
      exact ⟨hstep.holds hg, List.forall_mem_nil _⟩

theorem GateMove.holds_other {header : Bytes} {v : Goroutine}
    (h : GateMove cfg k peer g peer' g' new) (hv : peer.gate.Holds header (v.stage k))
    (hunique : v.handles k = 1 → g.handles k = 0) : peer'.gate.Holds header (v.stage k) := by
  cases h with
  | keep hsame =>
      rw [hsame]
      exact hv
  | step hg _ hstep =>
      by_cases hgone : v.stage k = .gone
      · rw [hgone]
        trivial
      · rcases stage_inv hgone with hhandles | hpassed
        · have hzero := hunique hhandles
          omega
        · rw [hpassed] at hv ⊢
          exact hstep.accepted_mono hv

/-- A handler runs only on a connection whose handshake was accepted. -/
theorem Move.runs (h : Move cfg s g a s' g' new) (hg : g.AtGate cfg.handshakeHeader s.peers)
    (hplaced : g.Placed s.peers) (hruns : ∀ r ∈ s.runs, Accepted s.peers r.peer) :
    ∀ r ∈ s'.runs, Accepted s'.peers r.peer := by
  have hold : ∀ r ∈ s.runs, Accepted s'.peers r.peer := fun r hr => (hruns r hr).mono h
  cases h with
  | call k hdr payload handler =>
      intro r hr
      rcases List.mem_append.mp hr with hr | hr
      · exact hold r hr
      · rw [List.mem_singleton.mp hr]
        obtain ⟨peer, hk, -⟩ := hplaced
        have hpassed := hg k peer hk
        rw [Goroutine.stage, if_pos rfl] at hpassed
        exact ⟨peer, hk, hpassed⟩
  | returned k hdr payload run response st =>
      intro r hr
      obtain ⟨i, hi⟩ := List.mem_iff_getElem?.mp hr
      rw [Shared.setResult, List.getElem?_modify] at hi
      obtain ⟨r', hr', rfl⟩ := Option.map_eq_some_iff.mp hi
      have hmem := hold r' (List.mem_of_getElem? hr')
      split <;> exact hmem
  | _ => exact hold

/-- Every accepted handshake has passed the gate. -/
def Shared.Gated (cfg : Config) (s : Shared) : Prop :=
  ∀ (k : Nat) (peer : Peer), s.peers[k]? = some peer → peer.gate.accepted = true →
    peer.gate.Passed cfg.handshakeHeader cfg.onHandshake

theorem Move.gated (h : Move cfg s g a s' g' new)
    (hcfg : cfg.handshakeHeader ≠ [] ∨ cfg.onHandshake = false)
    (hg : g.AtGate cfg.handshakeHeader s.peers) (hgated : s.Gated cfg) : s'.Gated cfg := by
  intro k peer' hk' haccepted
  cases hk : s.peers[k]? with
  | none => simp [h.new_gate hk hk'] at haccepted
  | some peer =>
      obtain ⟨next, hnext, hgate⟩ := h.gate hk
      obtain rfl := Option.some.inj (hnext.symm.trans hk')
      cases hgate with
      | keep hsame =>
          rw [hsame] at haccepted ⊢
          exact hgated k peer hk haccepted
      | step _ _ hstep => exact hstep.passed hcfg (hg k peer hk) (hgated k peer hk) haccepted

theorem Move.atGate (h : Move cfg s g a s' g' new) (hg : g.AtGate cfg.handshakeHeader s.peers) :
    g'.AtGate cfg.handshakeHeader s'.peers ∧
      ∀ v ∈ new, v.AtGate cfg.handshakeHeader s'.peers := by
  have hboth : ∀ (k : Nat) (peer' : Peer), s'.peers[k]? = some peer' →
      peer'.gate.Holds cfg.handshakeHeader (g'.stage k) ∧
        ∀ v ∈ new, peer'.gate.Holds cfg.handshakeHeader (v.stage k) := by
    intro k peer' hk'
    cases hk : s.peers[k]? with
    | some peer =>
        obtain ⟨next, hnext, hgate⟩ := h.gate hk
        obtain rfl := Option.some.inj (hnext.symm.trans hk')
        exact hgate.holds rfl (hg k peer hk)
    | none =>
        have hlt := (List.getElem?_eq_some_iff.mp hk').1
        have hge := List.getElem?_eq_none_iff.mp hk
        rcases h.length_peers with hlen | ⟨-, rfl, rfl, hpeers⟩
        · omega
        · refine ⟨?_, List.forall_mem_nil _⟩
          have hlast : s.peers.length = k := by
            rw [hpeers, List.length_append, List.length_singleton] at hlt
            omega
          rw [Goroutine.stage, if_pos hlast, h.new_gate hk hk']
          exact ⟨rfl, rfl⟩
  exact ⟨fun k peer' hk' => (hboth k peer' hk').1,
    fun v hv k peer' hk' => (hboth k peer' hk').2 v hv⟩

theorem Goroutine.AtGate.frame {v : Goroutine} (hv : v.AtGate cfg.handshakeHeader s.peers)
    (h : Move cfg s g a s' g' new) (hplaced : v.Placed s.peers)
    (hunique : ∀ k, v.handles k = 1 → g.handles k = 0) :
    v.AtGate cfg.handshakeHeader s'.peers := by
  intro k peer' hk'
  cases hk : s.peers[k]? with
  | some peer =>
      obtain ⟨next, hnext, hgate⟩ := h.gate hk
      obtain rfl := Option.some.inj (hnext.symm.trans hk')
      exact hgate.holds_other (hv k peer hk) (hunique k)
  | none =>
      have hgone : v.stage k = .gone := by
        by_contra hne
        obtain ⟨peer, hpeer⟩ := exists_peer_of_stage hplaced hne
        cases hk.symm.trans hpeer
      rw [hgone]
      trivial

/-- Unless the header is empty and `onHandshake` is set, a handler runs only on a
    connection that passed the gate. -/
theorem reachable_gated (hcfg : cfg.handshakeHeader ≠ [] ∨ cfg.onHandshake = false)
    (hreach : (machine cfg).Reachable initial p) :
    ∀ r ∈ p.shared.runs, ∃ peer, p.shared.peers[r.peer]? = some peer ∧
      peer.gate.Passed cfg.handshakeHeader cfg.onHandshake := by
  have hall : (p.shared.Gated cfg ∧ ∀ r ∈ p.shared.runs, Accepted p.shared.peers r.peer) ∧
      ∀ g ∈ p.threads, g.AtGate cfg.handshakeHeader p.shared.peers := by
    refine Program.reachable_local (P := program cfg)
      (I := fun s => s.Gated cfg ∧ ∀ r ∈ s.runs, Accepted s.peers r.peer)
      (J := fun s g => g.AtGate cfg.handshakeHeader s.peers)
      ⟨⟨?_, List.forall_mem_nil _⟩, ?_⟩ ?_ hreach
    · intro k peer hk
      simp [initial] at hk
    · intro g _ k peer hk
      simp [initial] at hk
    · rintro u hu s' g g' new rest a hperm ⟨hgated, hruns⟩ hg hs
      have hmove := step_move hs
      have hplaced := (reachable_placed hu).2
      obtain ⟨hg', hnew⟩ := hmove.atGate hg
      refine ⟨⟨hmove.gated hcfg hg hgated, hmove.runs hg ?_ hruns⟩, hg', hnew,
        fun v hv hold => ?_⟩
      · exact hplaced g (hperm.mem_iff.mpr List.mem_cons_self)
      · have hmem : v ∈ u.threads := hperm.mem_iff.mpr (List.mem_cons_of_mem _ hv)
        exact hold.frame hmove (hplaced v hmem) fun k hk => handles_other hu hperm hv hk
  intro r hr
  obtain ⟨peer, hk, haccepted⟩ := hall.1.2 r hr
  exact ⟨peer, hk, hall.1.1 _ peer hk haccepted⟩

/-- A request gets through as long as none is being served. -/
theorem run_acquire {acts : List (Nat × Action)} {i : Nat} {hdr : FrameHeader} {payload : Bytes}
    (hrun : (machine cfg).run initial acts = some p)
    (hi : p.threads[i]? = some (.handleConn k (.acquire hdr payload)))
    (hk : p.shared.peers[k]? = some peer) (hidle : p.shared.sem = 0) :
    ∃ sem, (machine cfg).run initial (acts ++ [(i, .run)]) =
      some ⟨{ p.shared with sem := sem },
        p.threads.set i (.handleConn k (.spawn hdr payload)) ++ []⟩ := by
  have hstep : ∃ sem, (program cfg).step p.shared (.handleConn k (.acquire hdr payload)) .run =
      some ({ p.shared with sem := sem }, .handleConn k (.spawn hdr payload), []) := by
    simp only [program, step, hk, handleConnStep, Config.sem]
    by_cases hpos : 0 < cfg.maxConcurrent
    · have hroom : p.shared.sem < cfg.maxConcurrent.toNat := by omega
      exact ⟨p.shared.sem + 1, by simp [hpos, hroom]⟩
    · exact ⟨p.shared.sem, by simp [hpos]⟩
  obtain ⟨sem, hstep⟩ := hstep
  exact ⟨sem, Machine.run_concat hrun (Program.machine_step_of hi hstep)⟩

/-- With an empty header: a client connects and sends a request. -/
def noHeaderRun : List (Nat × Action) :=
  [(0, .registerMethod 7), (1, .accepted), (1, .run), (1, .run), (2, .run),
    (2, .readFrame (.ok ({ type := FrameRequest, callID := 1, methodID := 7, payloadSize := 0 },
      []))),
    (2, .run), (2, .run), (3, .run), (3, .run)]

/-- With an empty header the handler runs although `onHandshake` was not called. -/
theorem noHeaderRun_ungated (hheader : cfg.handshakeHeader = []) :
    ∃ p, (machine cfg).run initial noHeaderRun = some p ∧
      p.shared.runs = [⟨0, 1, 7, 0, [], none⟩] ∧
      p.shared.peers.map Peer.admitted = [false] := by
  obtain ⟨header, onHandshake, maxConcurrent⟩ := cfg
  subst hheader
  have hread : (machine ⟨[], onHandshake, maxConcurrent⟩).run initial (noHeaderRun.take 6) =
      some _ := rfl
  obtain ⟨sem, hspawn⟩ := run_acquire (i := 2) hread rfl rfl rfl
  have hsplit : noHeaderRun = noHeaderRun.take 6 ++ [(2, .run)] ++ noHeaderRun.drop 7 := rfl
  exact ⟨_, (congrArg _ hsplit).trans (Machine.run_append hspawn rfl), rfl, rfl⟩

end Protocomm.Go.Server
