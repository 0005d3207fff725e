import Protocomm.Go.Server.Sessions

/-!
# The life of a connection of the Go server

Each accepted connection goes through `onConnect`, the handlers of its requests
and `onDisconnect`, in this order, and is in `sessions` all the while. `wg` counts the
accept loop and the `handleConn`s, so that `Shutdown` returns when the life of every
connection is over.
-/

namespace Protocomm.Go.Server

open Misc

/-- What has been called for a connection. -/
inductive Phase where
  | accepted
  | connected
  | disconnected
  deriving DecidableEq, Repr

/-- The connection of an event. -/
def Event.peer : Event → Nat
  | .onConnect k | .started k | .finished k | .attempted k | .onDisconnect k => k

/-- The event is about a request. -/
def Event.serving : Event → Bool
  | .started _ | .finished _ | .attempted _ => true
  | _ => false

/-- The events of connection `k`. -/
def Shared.eventsOf (s : Shared) (k : Nat) : List Event := s.events.filter fun e => e.peer == k

/-- The events of peer `k` in a phase: `onConnect` once, before any request, and
    `onDisconnect` once, after all of them. -/
def Phase.Log (k : Nat) (events : List Event) : Phase → Prop
  | .accepted => events = []
  | .connected => ∃ served, events = .onConnect k :: served ∧ ∀ e ∈ served, e.serving = true
  | .disconnected =>
      ∃ served, events = .onConnect k :: (served ++ [.onDisconnect k]) ∧
        ∀ e ∈ served, e.serving = true

/-- The phase in which `handleConn` is at a place. -/
def Handling.phase : Handling → Phase
  | .onConnect => .accepted
  | .delete | .close | .wgDone => .disconnected
  | _ => .connected

variable {cfg : Config} {s s' : Shared} {g g' : Goroutine} {a : Action} {new rest : List Goroutine}
  {k : Nat} {peer : Peer} {p : Pool Shared Goroutine}

/-! ## The wait groups -/

/-- The goroutine is counted by `wg`. -/
def Goroutine.counted : Goroutine → Nat
  | .acceptLoop _ | .handleConn _ _ => 1
  | _ => 0

/-- The goroutine serves a request of peer `k`; it is counted by `inflight`. -/
def Goroutine.serves (k : Nat) : Goroutine → Nat
  | .request j _ _ _ => if j = k then 1 else 0
  | _ => 0

theorem reachable_wg (hreach : (machine cfg).Reachable initial p) :
    (p.threads.map Goroutine.counted).sum = p.shared.wg := by
  refine Program.reachable_counted (P := program cfg) Shared.wg _ rfl ?_ hreach
  intro u _ s' g g' new rest a _ hcount hs
  cases step_move hs with
  | acceptDone | wgDone =>
      simp only [Goroutine.counted, List.map_nil, List.sum_nil] at hcount ⊢
      omega
  | requestUnlock hdr payload rhdr rpayload err pc hpeer hpc =>
      rcases hpc with rfl | rfl <;> rfl
  | _ => simp [Goroutine.counted, Shared.setPeer, Shared.log, Shared.setResult, Shared.sweep]

/-- How many requests of peer `k` are being served. -/
def Shared.inflightOf (k : Nat) (s : Shared) : Nat :=
  match s.peers[k]? with
  | some peer => peer.inflight
  | none => 0

theorem WriteMove.inflight {peer' : Peer} {hdr : FrameHeader} {payload : Bytes} {pc pc' : Writing}
    (h : WriteMove peer hdr payload pc a peer' pc') : peer'.inflight = peer.inflight := by
  cases h with
  | _ => rfl

/-- The count of a peer follows the goroutines of its requests. -/
theorem Move.inflight (h : Move cfg s g a s' g' new) (hk : s.peers[k]? = some peer)
    (hpos : g.serves k ≤ peer.inflight) :
    ∃ peer', s'.peers[k]? = some peer' ∧ peer'.inflight + g.serves k =
      peer.inflight + (g'.serves k + (new.map (Goroutine.serves k)).sum) := by
  cases h with
  | accept =>
      exact ⟨peer, List.getElem?_append_left (List.getElem?_eq_some_iff.mp hk).1 ▸ hk, rfl⟩
  | closePeer hpeer | close hpeer | closeConn hdr payload hpeer | insert hpeer
  | readOther hdr payload hpeer | read hdr payload hpeer | handshakeMismatch received hpeer
  | handshakeAsk hpeer | connectNoHeader hpeer | handshakeOK hpeer | answerYes hpeer
  | reply n hpeer | replyFailed n e hpeer | pushUnlock hdr payload todo err hpeer =>
      refine exists_getElem?_set hpeer hk (fun _ hold => ?_) fun _ => rfl
      subst hold
      rfl
  | requestUnlock hdr payload rhdr rpayload err pc hpeer =>
      refine exists_getElem?_set hpeer hk (fun _ hold => ?_) fun _ => rfl
      subst hold
      rfl
  | requestWrite hdr payload rhdr rpayload hpeer hwrite
  | pushWrite hdr payload todo hpeer hwrite =>
      refine exists_getElem?_set hpeer hk (fun _ hold => ?_) fun _ => rfl
      subst hold
      exact congrArg (· + _) hwrite.inflight
  | spawnRequest hdr payload hpeer =>
      refine exists_getElem?_set hpeer hk (fun hj hold => ?_) fun hj => ?_
      · subst hj hold
        simp [Goroutine.serves]
      · simp [Goroutine.serves, hj]
  | inflightDone hdr payload hpeer =>
      refine exists_getElem?_set hpeer hk (fun hj hold => ?_) fun hj => ?_
      · subst hj hold
        simp only [Goroutine.serves, if_pos, List.map_nil, List.sum_nil] at hpos ⊢
        omega
      · simp [Goroutine.serves, hj]
  | sweep =>
      rw [sweep_getElem?, hk]
      split
      · exact ⟨peer.close, rfl, rfl⟩
      · exact ⟨peer, rfl, rfl⟩
  | _ => exact ⟨peer, hk, rfl⟩

/-- Only the `handleConn` of a peer starts goroutines for its requests. -/
theorem Move.serves_le (h : Move cfg s g a s' g' new) (hg : g.handles k = 0) :
    g'.serves k + (new.map (Goroutine.serves k)).sum ≤ g.serves k := by
  cases h with
  | @spawnRequest j _ hdr payload hpeer =>
      have hj : j ≠ k := fun hj => absurd hg (by simp [Goroutine.handles, hj])
      simp [Goroutine.serves, hj]
  | _ => simp [Goroutine.serves]

/-- A peer that does not exist has no `handleConn`. -/
theorem handles_eq_zero (hreach : (machine cfg).Reachable initial p)
    (hk : p.shared.peers[k]? = none) (hg : g ∈ p.threads) : g.handles k = 0 := by
  have hle := (Program.add_le_owned hg).trans (reachable_handles k hreach)
  have hnone : p.shared.accepts k = 0 :=
    if_neg (Nat.not_lt.mpr (List.getElem?_eq_none_iff.mp hk))
  omega

theorem reachable_inflight (k : Nat) (hreach : (machine cfg).Reachable initial p) :
    (p.threads.map (Goroutine.serves k)).sum = p.shared.inflightOf k := by
  refine Program.reachable_counted (P := program cfg) (Shared.inflightOf k) _ rfl ?_ hreach
  intro u hu s' g g' new rest a hperm hcount hs
  have hmove := step_move hs
  cases hk : u.shared.peers[k]? with
  | some peer =>
      simp only [Shared.inflightOf, hk] at hcount ⊢
      obtain ⟨peer', hk', heq⟩ := hmove.inflight hk (by omega)
      simp only [hk']
      exact heq
  | none =>
      have hnone := hmove.serves_le (handles_eq_zero hu hk (hperm.mem_iff.mpr List.mem_cons_self))
      have hafter : s'.inflightOf k = 0 := by
        cases hk' : s'.peers[k]? with
        | none => simp only [Shared.inflightOf, hk']
        | some peer' => simp only [Shared.inflightOf, hk', hmove.new_peer hk hk']
      have hbefore : u.shared.inflightOf k = 0 := by simp only [Shared.inflightOf, hk]
      omega

/-- A peer without requests has no goroutine that serves one. -/
theorem serves_eq_zero (hreach : (machine cfg).Reachable initial p)
    (hk : p.shared.peers[k]? = some peer) (hnone : peer.inflight = 0) :
    ∀ v ∈ p.threads, v.serves k = 0 := by
  intro v hv
  have hle := (le_sum_map hv).trans (reachable_inflight k hreach).le
  simp only [Shared.inflightOf, hk, hnone] at hle
  omega

/-! ## The events of a connection -/

theorem eventsOf_same (h : s'.events = s.events ++ []) (k : Nat) :
    s'.eventsOf k = s.eventsOf k := by
  rw [Shared.eventsOf, h, List.append_nil]
  rfl

theorem eventsOf_own {e : Event} (h : s'.events = s.events ++ [e]) (he : e.peer = k) :
    s'.eventsOf k = s.eventsOf k ++ [e] := by
  simp [Shared.eventsOf, h, he]

theorem eventsOf_other {e : Event} (h : s'.events = s.events ++ [e]) (he : e.peer ≠ k) :
    s'.eventsOf k = s.eventsOf k := by
  simp [Shared.eventsOf, h, he]

/-- The events tell the phase. -/
theorem Phase.Log.unique {ph ph' : Phase} {es : List Event} (h : ph.Log k es)
    (h' : ph'.Log k es) : ph = ph' := by
  -- `onDisconnect` is not the event of a request
  have hlast : ∀ served served' : List Event, (∀ e ∈ served, e.serving = true) →
      served ≠ served' ++ [.onDisconnect k] := by
    rintro served served' hall rfl
    have hserving := hall (.onDisconnect k) (by simp)
    cases hserving
  cases ph <;> cases ph' <;> try rfl
  all_goals simp only [Phase.Log] at h h'
  · subst h
    obtain ⟨served, hnil, -⟩ := h'
    cases hnil
  · subst h
    obtain ⟨served, hnil, -⟩ := h'
    cases hnil
  · subst h'
    obtain ⟨served, hnil, -⟩ := h
    cases hnil
  · obtain ⟨served, rfl, hall⟩ := h
    obtain ⟨served', heq, -⟩ := h'
    exact absurd (List.cons.inj heq).2 (hlast served served' hall)
  · subst h'
    obtain ⟨served, hnil, -⟩ := h
    cases hnil
  · obtain ⟨served, rfl, hall⟩ := h'
    obtain ⟨served', heq, -⟩ := h
    exact absurd (List.cons.inj heq).2 (hlast served served' hall)

theorem Phase.Log.serve {es : List Event} {e : Event} (h : Phase.connected.Log k es)
    (he : e.serving = true) : Phase.connected.Log k (es ++ [e]) := by
  obtain ⟨served, rfl, hall⟩ := h
  refine ⟨served ++ [e], by simp, ?_⟩
  intro e' he'
  rcases List.mem_append.mp he' with hold | hnew
  · exact hall e' hold
  · rw [List.mem_singleton.mp hnew]
    exact he

/-- The peer of a goroutine, and the phase it is in. -/
def Goroutine.life : Goroutine → Option (Nat × Phase)
  | .acceptLoop (.insert k) | .acceptLoop (.spawn k) => some (k, .accepted)
  | .handleConn k pc => some (k, pc.phase)
  | .request k _ _ _ => some (k, .connected)
  | _ => none

/-- What a step adds to the events. -/
inductive LifeMove (s : Shared) : Goroutine → List Event → Goroutine → List Goroutine → Prop
  | keep {g g' : Goroutine} {new : List Goroutine} (hg' : g'.life = none ∨ g'.life = g.life)
      (hnew : ∀ v ∈ new, v.life = none ∨ v.life = g.life) : LifeMove s g [] g' new
  | accept : LifeMove s (.acceptLoop .accept) [] (.acceptLoop (.insert s.peers.length)) []
  | onConnect (k : Nat) {pc : Handling} (hpc : pc.phase = .connected) :
      LifeMove s (.handleConn k .onConnect) [.onConnect k] (.handleConn k pc) []
  | serve (k : Nat) (hdr : FrameHeader) (payload : Bytes) {e : Event} {pc pc' : Serving}
      (hpeer : e.peer = k) (hserving : e.serving = true) :
      LifeMove s (.request k hdr payload pc) [e] (.request k hdr payload pc') []
  | onDisconnect (k : Nat) :
      LifeMove s (.handleConn k .onDisconnect) [.onDisconnect k] (.handleConn k .delete) []

theorem Move.life (h : Move cfg s g a s' g' new) :
    ∃ es, s'.events = s.events ++ es ∧ LifeMove s g es g' new := by
  have hnil : ∀ v ∈ ([] : List Goroutine), v.life = none ∨ v.life = g.life := List.forall_mem_nil _
  have hnone : s.events = s.events ++ [] := (List.append_nil _).symm
  cases h with
  | accept => exact ⟨[], hnone, .accept⟩
  | connectNoHeader | connect => exact ⟨_, rfl, .onConnect _ rfl⟩
  | onDisconnect k => exact ⟨_, rfl, .onDisconnect k⟩
  | call k hdr payload => exact ⟨_, rfl, .serve k hdr payload rfl rfl⟩
  | returned k hdr payload => exact ⟨_, rfl, .serve k hdr payload rfl rfl⟩
  | requestUnlock hdr payload => exact ⟨_, rfl, .serve _ hdr payload rfl rfl⟩
  | send | broadcast | callShutdown =>
      exact ⟨[], hnone, .keep (Or.inl rfl) (List.forall_mem_singleton.mpr (Or.inl rfl))⟩
  | spawn =>
      exact ⟨[], hnone, .keep (Or.inl rfl) (List.forall_mem_singleton.mpr (Or.inr rfl))⟩
  | spawnRequest =>
      exact ⟨[], hnone, .keep (Or.inr rfl) (List.forall_mem_singleton.mpr (Or.inr rfl))⟩
  | _ => exact ⟨[], hnone, .keep (by first | exact Or.inl rfl | exact Or.inr rfl) hnil⟩

/-- The goroutine belongs to the phase its peer is in. -/
def Goroutine.InPhase (s : Shared) (g : Goroutine) : Prop :=
  ∀ k ph, g.life = some (k, ph) → ph.Log k (s.eventsOf k)

theorem life_inv {v : Goroutine} {ph : Phase} (h : v.life = some (k, ph)) :
    v.handles k = 1 ∨ (v.serves k = 1 ∧ ph = .connected) := by
  revert h
  unfold Goroutine.life
  split
  all_goals
    intro h
    cases h
  · exact Or.inl (if_pos rfl)
  · exact Or.inl (if_pos rfl)
  · exact Or.inl (if_pos rfl)
  · exact Or.inr ⟨if_pos rfl, rfl⟩

/-- The events a step adds lead to the phase of the goroutine after it. -/
theorem LifeMove.inPhase {es : List Event} (h : LifeMove s g es g' new)
    (hes : s'.events = s.events ++ es) (hin : ∀ e ∈ s.events, e.peer < s.peers.length)
    (hg : g.InPhase s) : g'.InPhase s' ∧ ∀ v ∈ new, v.InPhase s' := by
  have hnil : ∀ v ∈ ([] : List Goroutine), v.InPhase s' := List.forall_mem_nil _
  cases h with
  | keep hg' hnew =>
      have hback : ∀ v : Goroutine, v.life = none ∨ v.life = g.life → v.InPhase s' := by
        intro v hv k ph hlife
        rw [eventsOf_same hes]
        rcases hv with hnone | heq
        · cases hnone.symm.trans hlife
        · exact hg k ph (heq.symm.trans hlife)
      exact ⟨hback g' hg', fun v hv => hback v (hnew v hv)⟩
  | accept =>
      refine ⟨?_, hnil⟩
      intro k ph hlife
      cases hlife
      rw [eventsOf_same hes]
      refine List.filter_eq_nil_iff.mpr fun e he => ?_
      have hlt := hin e he
      simp only [beq_iff_eq]
      omega
  | onConnect k hpc =>
      refine ⟨?_, hnil⟩
      intro j ph hlife
      cases hlife
      have hold : s.eventsOf k = [] := hg k .accepted rfl
      have hevents : s'.eventsOf k = s.eventsOf k ++ [.onConnect k] := eventsOf_own hes rfl
      rw [hpc, hevents, hold]
      exact ⟨[], rfl, List.forall_mem_nil _⟩
  | serve k hdr payload hpeer hserving =>
      refine ⟨?_, hnil⟩
      intro j ph hlife
      cases hlife
      rw [eventsOf_own hes hpeer]
      exact (hg k .connected rfl).serve hserving
  | onDisconnect k =>
      refine ⟨?_, hnil⟩
      intro j ph hlife
      cases hlife
      obtain ⟨served, hold, hall⟩ := hg k .connected rfl
      have hevents : s'.eventsOf k = s.eventsOf k ++ [.onDisconnect k] := eventsOf_own hes rfl
      rw [hevents, hold]
      exact ⟨served, rfl, hall⟩

/-- Other goroutines stay in their phase: a request does not change the phase, and
    `onDisconnect` is called when no request is being served. -/
theorem LifeMove.inPhase_other {es : List Event} {v : Goroutine} (h : LifeMove s g es g' new)
    (hes : s'.events = s.events ++ es) (hg : g.InPhase s) (hv : v.InPhase s)
    (hunique : ∀ k, v.handles k = 1 → g.handles k = 0)
    (hdrained : ∀ k, g = .handleConn k .onDisconnect → v.serves k = 0) : v.InPhase s' := by
  intro k ph hlife
  have hold := hv k ph hlife
  cases h with
  | keep | accept =>
      rw [eventsOf_same hes]
      exact hold
  | onConnect j =>
      by_cases hj : j = k
      · subst hj
        rcases life_inv hlife with hhandles | ⟨-, rfl⟩
        · have hzero := hunique j hhandles
          simp [Goroutine.handles] at hzero
        · cases (hg j .accepted rfl).unique hold
      · rw [eventsOf_other hes hj]
        exact hold
  | serve j hdr payload hpeer hserving =>
      by_cases hj : j = k
      · subst hj
        obtain rfl := (hg j .connected rfl).unique hold
        rw [eventsOf_own hes hpeer]
        exact hold.serve hserving
      · rw [eventsOf_other hes (hpeer ▸ hj)]
        exact hold
  | onDisconnect j =>
      by_cases hj : j = k
      · subst hj
        rcases life_inv hlife with hhandles | ⟨hserves, -⟩
        · have hzero := hunique j hhandles
          simp [Goroutine.handles] at hzero
        · have hzero := hdrained j rfl
          omega
      · rw [eventsOf_other hes hj]
        exact hold

/-- What the end of `handleConn` has made sure of. -/
def Goroutine.Ending (peers : List Peer) : Goroutine → Prop
  | .handleConn k .onDisconnect => ∃ peer, peers[k]? = some peer ∧ peer.inflight = 0
  | .handleConn k .wgDone => ∃ peer, peers[k]? = some peer ∧ peer.closed = true
  | _ => True

theorem Move.ending (h : Move cfg s g a s' g' new) :
    g'.Ending s'.peers ∧ ∀ v ∈ new, v.Ending s'.peers := by
  have hnil : ∀ v ∈ ([] : List Goroutine), v.Ending s'.peers := List.forall_mem_nil _
  cases h with
  | wait hpeer hnone => exact ⟨⟨_, hpeer, hnone⟩, hnil⟩
  | close hpeer => exact ⟨⟨_, getElem?_set_of_some _ hpeer, rfl⟩, hnil⟩
  | send | broadcast | callShutdown | spawn | spawnRequest =>
      exact ⟨trivial, List.forall_mem_singleton.mpr trivial⟩
  | _ => exact ⟨trivial, hnil⟩

theorem Goroutine.Ending.frame {v : Goroutine} (hv : v.Ending s.peers)
    (hreach : (machine cfg).Reachable initial p) (hp : p.shared = s)
    (hperm : p.threads.Perm (g :: rest)) (h : Move cfg s g a s' g' new)
    (hunique : ∀ k, v.handles k = 1 → g.handles k = 0) : v.Ending s'.peers := by
  subst hp
  cases v with
  | handleConn k pc =>
      cases pc with
      | onDisconnect =>
          obtain ⟨peer, hk, hnone⟩ := hv
          have hidle := serves_eq_zero hreach hk hnone g (hperm.mem_iff.mpr List.mem_cons_self)
          obtain ⟨peer', hk', hcount⟩ := h.inflight hk (by omega)
          have hle := h.serves_le (hunique k (if_pos rfl))
          exact ⟨peer', hk', by omega⟩
      | wgDone =>
          obtain ⟨peer, hk, hclosed⟩ := hv
          obtain ⟨peer', hk', hages⟩ := h.ages hk
          exact ⟨peer', hk', hages.closed hclosed⟩
      | _ => trivial
  | _ => trivial

/-- The peer of a goroutine was accepted. -/
theorem Goroutine.Placed.lt {ph : Phase} (h : g.Placed s.peers) (hlife : g.life = some (k, ph)) :
    k < s.peers.length := by
  have hlt : ∀ {j : Nat}, Listed s.peers j → j < s.peers.length := by
    rintro j ⟨peer, hj, -⟩
    exact (List.getElem?_eq_some_iff.mp hj).1
  revert hlife
  unfold Goroutine.life
  split
  all_goals
    intro hlife
    cases hlife
  · obtain ⟨peer, hk, -⟩ := h
    exact (List.getElem?_eq_some_iff.mp hk).1
  · exact hlt h
  · exact hlt h
  · exact hlt h

theorem LifeMove.peer_lt {es : List Event} (h : LifeMove s g es g' new)
    (hg : g.Placed s.peers) : ∀ e ∈ es, e.peer < s.peers.length := by
  cases h with
  | keep | accept => exact List.forall_mem_nil _
  | onConnect k => exact List.forall_mem_singleton.mpr (hg.lt rfl)
  | serve k hdr payload hpeer => exact List.forall_mem_singleton.mpr (hpeer ▸ hg.lt rfl)
  | onDisconnect k => exact List.forall_mem_singleton.mpr (hg.lt rfl)

/-- Every goroutine is in the phase of its peer. -/
theorem reachable_inPhase (hreach : (machine cfg).Reachable initial p) :
    (∀ e ∈ p.shared.events, e.peer < p.shared.peers.length) ∧
      ∀ g ∈ p.threads, g.InPhase p.shared ∧ g.Ending p.shared.peers := by
  refine Program.reachable_local (P := program cfg)
    (I := fun s => ∀ e ∈ s.events, e.peer < s.peers.length)
    (J := fun s g => g.InPhase s ∧ g.Ending s.peers) ⟨List.forall_mem_nil _, ?_⟩ ?_ hreach
  · simp [initial, Goroutine.InPhase, Goroutine.life, Goroutine.Ending]
  · intro u hu s' g g' new rest a hperm hin hg hs
    have hmove := step_move hs
    obtain ⟨es, hes, hlife⟩ := hmove.life
    obtain ⟨hg', hnew⟩ := hlife.inPhase hes hin hg.1
    obtain ⟨hending', hending⟩ := hmove.ending
    have hmem : g ∈ u.threads := hperm.mem_iff.mpr List.mem_cons_self
    refine ⟨?_, ⟨hg', hending'⟩, fun v hv => ⟨hnew v hv, hending v hv⟩, ?_⟩
    · intro e he
      rw [hes] at he
      refine Nat.lt_of_lt_of_le ?_ hmove.length_le
      rcases List.mem_append.mp he with hold | hadded
      · exact hin e hold
      · exact hlife.peer_lt ((reachable_placed hu).2 g hmem) e hadded
    · intro v hv hold
      have hunique : ∀ k, v.handles k = 1 → g.handles k = 0 := fun k hk =>
        handles_other hu hperm hv hk
      refine ⟨hlife.inPhase_other hes hg.1 hold.1 hunique ?_,
        hold.2.frame hu rfl hperm hmove hunique⟩
      rintro k rfl
      obtain ⟨peer, hk, hnone⟩ := hg.2
      exact serves_eq_zero hu hk hnone v (hperm.mem_iff.mpr (List.mem_cons_of_mem _ hv))

/-! ## The end of a connection -/

/-- The life of peer `k` is over. -/
structure Shared.Over (s : Shared) (k : Nat) : Prop where
  log : Phase.disconnected.Log k (s.eventsOf k)
  closed : ∃ peer, s.peers[k]? = some peer ∧ peer.closed = true

/-- A `handleConn` ends at `wg.Done`. -/
theorem Move.unhandled (h : Move cfg s g a s' g' new) (hg : g.handles k = 1)
    (hg' : g'.handles k = 0) (hnew : ∀ v ∈ new, v.handles k = 0) :
    g = .handleConn k .wgDone ∧ s'.peers = s.peers ∧ s'.events = s.events := by
  cases h with
  | wgDone j =>
      have hj : j = k := by
        by_contra hne
        simp [Goroutine.handles, hne] at hg
      exact ⟨hj ▸ rfl, rfl, rfl⟩
  | spawn j =>
      have hzero := hnew _ List.mem_cons_self
      exact absurd (hg.symm.trans hzero) (by decide)
  | requestUnlock => cases hg
  | _ =>
      first
        | exact absurd (hg.symm.trans hg') (by decide)
        | cases hg

/-- Without its `handleConn` the life of a peer is over. -/
theorem reachable_over (hreach : (machine cfg).Reachable initial p)
    (hk : k < p.shared.peers.length) (hnone : ∀ v ∈ p.threads, v.handles k = 0) :
    p.shared.Over k := by
  revert hk hnone
  refine Program.reachable_bag (P := program cfg) (K := fun s l => k < s.peers.length →
    (∀ v ∈ l, v.handles k = 0) → s.Over k) ?_ ?_ ?_ hreach
  · intro s l l' hl hK hlt hnone
    exact hK hlt fun v hv => hnone v (hl.mem_iff.mp hv)
  · intro hlt
    simp [initial] at hlt
  · intro u hu s' g g' new rest a hperm hK hs hlt hnone
    have hmove := step_move hs
    obtain ⟨es, hes, hlife⟩ := hmove.life
    have hmem : g ∈ u.threads := hperm.mem_iff.mpr List.mem_cons_self
    have hg := (reachable_inPhase hu).2 g hmem
    have hg' := hnone g' List.mem_cons_self
    have hnew : ∀ v ∈ new, v.handles k = 0 := fun v hv =>
      hnone v (List.mem_cons_of_mem _ (List.mem_append_left _ hv))
    have hrest : ∀ v ∈ rest, v.handles k = 0 := fun v hv =>
      hnone v (List.mem_cons_of_mem _ (List.mem_append_right _ hv))
    by_cases hzero : g.handles k = 0
    · have hold : k < u.shared.peers.length := by
        rcases hmove.length_peers with hlen | ⟨-, rfl, -, hpeers⟩
        · omega
        · rw [hpeers, List.length_append, List.length_singleton] at hlt
          by_contra hge
          have heq : u.shared.peers.length = k := by omega
          simp [Goroutine.handles, heq] at hg'
      have hover := hK hold (List.forall_mem_cons.mpr ⟨hzero, hrest⟩)
      obtain ⟨peer, hk, hclosed⟩ := hover.closed
      obtain ⟨peer', hk', hages⟩ := hmove.ages hk
      refine ⟨?_, peer', hk', hages.closed hclosed⟩
      have hquiet : ∀ j, g.handles j = 1 → j ≠ k := by
        rintro j hone rfl
        omega
      cases hlife with
      | keep | accept => exact eventsOf_same hes k ▸ hover.log
      | onConnect j | onDisconnect j =>
          exact eventsOf_other hes (hquiet j (if_pos rfl)) ▸ hover.log
      | serve j hdr payload hpeer =>
          rw [eventsOf_other hes]
          · exact hover.log
          · rintro rfl
            subst hpeer
            cases hover.log.unique (hg.1 _ .connected rfl)
    · obtain ⟨rfl, hpeers, hevents⟩ := hmove.unhandled (handles_eq_one hzero) hg' hnew
      refine ⟨?_, ?_⟩
      · rw [Shared.eventsOf, hevents]
        exact hg.1 k .disconnected rfl
      · rw [hpeers]
        exact hg.2

/-! ## The requests of a connection -/

/-- The goroutine runs a handler for peer `k`. -/
def Goroutine.running (k : Nat) : Goroutine → Nat
  | .request j _ _ (.running _) => if j = k then 1 else 0
  | _ => 0

/-- The goroutine writes a response to peer `k`. -/
def Goroutine.responding (k : Nat) : Goroutine → Nat
  | .request j _ _ (.write _ _ _) => if j = k then 1 else 0
  | _ => 0

/-- The requests of connection `k` for unknown methods. -/
def Shared.missesOf (s : Shared) (k : Nat) : Nat := s.misses.countP fun m => m.peer == k

/-- Every handler that was started for peer `k` has finished, and the write of every
    response was attempted. -/
structure Shared.Served (s : Shared) (k : Nat) : Prop where
  finished : s.events.count (.finished k) = s.events.count (.started k)
  attempted : s.events.count (.attempted k) = s.events.count (.finished k) + s.missesOf k

theorem reachable_finished (k : Nat) (hreach : (machine cfg).Reachable initial p) :
    Program.owned (fun s => s.events.count (.finished k)) (Goroutine.running k) p.shared
      p.threads = p.shared.events.count (.started k) := by
  refine Program.reachable_owned (P := program cfg) (fun s => s.events.count (.finished k))
    (Goroutine.running k) (fun s => s.events.count (.started k)) rfl ?_ hreach
  intro u _ s' g g' new rest a _ _ hs
  cases step_move hs with
  | call j hdr payload handler =>
      refine ⟨if j = k then 1 else 0, ?_, ?_⟩
      · simp [Shared.log, List.count_singleton]
      · simp [Shared.log, Goroutine.running]
  | returned j hdr payload run response st =>
      refine ⟨0, ?_, ?_⟩
      · simp [Shared.log, Shared.setResult]
      · simp [Shared.log, Shared.setResult, Goroutine.running, List.count_singleton]
  | requestUnlock hdr payload rhdr rpayload err pc hpeer hpc =>
      refine ⟨0, ?_, ?_⟩
      · simp [Shared.log, Shared.setPeer]
      · rcases hpc with rfl | rfl <;> simp [Shared.log, Shared.setPeer, Goroutine.running]
  | _ => exact ⟨0, by simp [Shared.log, Shared.setPeer, Shared.sweep],
      by simp [Shared.log, Shared.setPeer, Shared.sweep, Goroutine.running]⟩

theorem reachable_attempted (k : Nat) (hreach : (machine cfg).Reachable initial p) :
    Program.owned (fun s => s.events.count (.attempted k)) (Goroutine.responding k) p.shared
      p.threads = p.shared.events.count (.finished k) + p.shared.missesOf k := by
  refine Program.reachable_owned (P := program cfg) (fun s => s.events.count (.attempted k))
    (Goroutine.responding k) (fun s => s.events.count (.finished k) + s.missesOf k) rfl ?_ hreach
  intro u _ s' g g' new rest a _ _ hs
  cases step_move hs with
  | miss j hdr payload hlookup =>
      refine ⟨if j = k then 1 else 0, ?_, ?_⟩
      · simp [Shared.missesOf, List.countP_cons, Nat.add_assoc]
      · simp [Goroutine.responding]
  | returned j hdr payload run response st =>
      refine ⟨if j = k then 1 else 0, ?_, ?_⟩
      · simp [Shared.log, Shared.setResult, Shared.missesOf, List.count_singleton,
          Nat.add_right_comm]
      · simp [Shared.log, Shared.setResult, Goroutine.responding]
  | requestUnlock hdr payload rhdr rpayload err pc hpeer hpc =>
      refine ⟨0, ?_, ?_⟩
      · simp [Shared.log, Shared.setPeer, Shared.missesOf]
      · rcases hpc with rfl | rfl <;>
          simp [Shared.log, Shared.setPeer, Goroutine.responding, List.count_singleton]
  | _ => exact ⟨0, by simp [Shared.log, Shared.setPeer, Shared.sweep, Shared.missesOf],
      by simp [Shared.log, Shared.setPeer, Shared.sweep, Goroutine.responding]⟩

theorem running_le_serves (v : Goroutine) (k : Nat) :
    v.running k ≤ v.serves k ∧ v.responding k ≤ v.serves k := by
  unfold Goroutine.running Goroutine.responding Goroutine.serves
  cases v with
  | request j hdr payload pc => cases pc <;> simp
  | _ => simp

/-- Without goroutines that serve its requests a peer is served. -/
theorem served_of_idle (hreach : (machine cfg).Reachable initial p)
    (hidle : ∀ v ∈ p.threads, v.serves k = 0) : p.shared.Served k := by
  have hrunning : (p.threads.map (Goroutine.running k)).sum = 0 := by
    refine List.sum_eq_zero (List.forall_mem_map.mpr fun v hv => ?_)
    have hle := (running_le_serves v k).1
    have hzero := hidle v hv
    omega
  have hresponding : (p.threads.map (Goroutine.responding k)).sum = 0 := by
    refine List.sum_eq_zero (List.forall_mem_map.mpr fun v hv => ?_)
    have hle := (running_le_serves v k).2
    have hzero := hidle v hv
    omega
  have hfinished := reachable_finished k hreach
  have hattempted := reachable_attempted k hreach
  simp only [Program.owned, hrunning, hresponding, Nat.add_zero] at hfinished hattempted
  exact ⟨hfinished, hattempted⟩

/-- After `onDisconnect` no request is being served. -/
theorem idle_of_disconnected (hreach : (machine cfg).Reachable initial p)
    (hlog : Phase.disconnected.Log k (p.shared.eventsOf k)) :
    ∀ v ∈ p.threads, v.serves k = 0 := by
  intro v hv
  by_contra hne
  cases v with
  | request j hdr payload pc =>
      have hj : j = k := by
        by_contra hj
        simp [Goroutine.serves, hj] at hne
      subst hj
      cases hlog.unique (((reachable_inPhase hreach).2 _ hv).1 j .connected rfl)
  | _ => exact hne rfl

/-- A connection is in a phase; while it is connected a goroutine keeps it in
    `sessions`. -/
theorem exists_phase (hreach : (machine cfg).Reachable initial p)
    (hk : k < p.shared.peers.length) :
    ∃ ph : Phase, ph.Log k (p.shared.eventsOf k) ∧
      (ph = .connected → ∃ g ∈ p.threads, g.keeps k = 1) := by
  by_cases hnone : ∀ v ∈ p.threads, v.handles k = 0
  · exact ⟨.disconnected, (reachable_over hreach hk hnone).log, nofun⟩
  · simp only [not_forall] at hnone
    obtain ⟨v, hv, hne⟩ := hnone
    have hphase := ((reachable_inPhase hreach).2 v hv).1
    have hown : ∀ {j : Nat} {n : Nat}, ¬ (if j = k then 1 else n) = n → j = k := by
      intro j n hif
      by_contra hj
      exact hif (if_neg hj)
    unfold Goroutine.handles at hne
    split at hne
    · rename_i j
      obtain rfl := hown hne
      exact ⟨.accepted, hphase j _ rfl, nofun⟩
    · rename_i j
      obtain rfl := hown hne
      exact ⟨.accepted, hphase j _ rfl, nofun⟩
    · rename_i j pc
      obtain rfl := hown hne
      refine ⟨pc.phase, hphase j _ rfl, fun hpc => ⟨_, hv, ?_⟩⟩
      cases pc with
      | close | wgDone => cases hpc
      | _ => exact if_pos rfl
    · exact absurd rfl hne

/-- When `wg` is down to 0 the life of every connection is over. -/
theorem over_of_wg_eq_zero (hreach : (machine cfg).Reachable initial p)
    (hlen : p.shared.peers.length ≤ 2 ^ 64) (hwg : p.shared.wg = 0) :
    p.shared.sessions = ∅ ∧ (∀ k < p.shared.peers.length, p.shared.Over k ∧ p.shared.Served k) ∧
      ∀ v ∈ p.threads, v.counted = 0 ∧ ∀ k, v.serves k = 0 := by
  have hcounted : ∀ v ∈ p.threads, v.counted = 0 := by
    intro v hv
    have hle := (le_sum_map hv).trans (reachable_wg hreach).le
    omega
  have hgone : ∀ k, ∀ v ∈ p.threads, v.handles k = 0 := by
    intro k v hv
    have hzero := hcounted v hv
    cases v with
    | acceptLoop | handleConn => cases hzero
    | _ => rfl
  have hover : ∀ k < p.shared.peers.length, p.shared.Over k := fun k hk =>
    reachable_over hreach hk (hgone k)
  have hidle : ∀ k < p.shared.peers.length, ∀ v ∈ p.threads, v.serves k = 0 := fun k hk =>
    idle_of_disconnected hreach (hover k hk).log
  refine ⟨eq_empty_of_lookup fun id => ?_,
    fun k hk => ⟨hover k hk, served_of_idle hreach (hidle k hk)⟩,
    fun v hv => ⟨hcounted v hv, fun k => ?_⟩⟩
  · by_contra hsome
    obtain ⟨k, hlookup⟩ := Option.ne_none_iff_exists'.mp hsome
    obtain ⟨peer, hk, rfl, -⟩ := (reachable_placed hreach).1 id k hlookup
    exact lookup_of_unhandled hreach hlen (hgone k) hk hlookup
  · by_cases hk : k < p.shared.peers.length
    · exact hidle k hk v hv
    · have hle := (le_sum_map hv).trans (reachable_inflight k hreach).le
      simp only [Shared.inflightOf, List.getElem?_eq_none_iff.mpr (Nat.not_lt.mp hk)] at hle
      omega

/-- A peer that was taken out of `sessions` does not come back. -/
theorem never_again (hreach : (machine cfg).Reachable initial p)
    (hlisted : Listed p.shared.peers k)
    (hout : ∀ id, p.shared.sessions.lookup id ≠ some k) {q : Pool Shared Goroutine}
    (hq : (machine cfg).Reachable p q) : ∀ id, q.shared.sessions.lookup id ≠ some k := by
  refine (Machine.reachable_invariant (M := machine cfg)
    (P := fun q => Listed q.shared.peers k ∧ ∀ id, q.shared.sessions.lookup id ≠ some k)
    ⟨hlisted, hout⟩ ?_ hq).2
  rintro u ⟨i, a⟩ u' hu ⟨hlisted, hout⟩ hstep
  obtain ⟨g, g', new, rest, hi, hs, -, -⟩ := Program.machine_step_at hstep
  have hmove : Move cfg u.shared g a u'.shared g' new := step_move hs
  refine ⟨hlisted.mono hmove, fun id hid => ?_⟩
  rcases hmove.sessions.lookup hid with hold | ⟨rfl, -⟩
  · exact hout id hold
  · -- the accept loop inserts only peers that were never in `sessions`
    obtain ⟨peer, hk, hyes⟩ := hlisted
    obtain ⟨peer', hk', hno, -⟩ :=
      (reachable_placed (hreach.trans hu)).2 _ (List.mem_of_getElem? hi)
    obtain rfl := Option.some.inj (hk.symm.trans hk')
    cases hno.symm.trans hyes

/-- The life of the connections of a server that has accepted at most 2^64 of them. A
    connection has `onConnect` called once, before its handlers, and `onDisconnect` once,
    after its handlers have finished and their responses were written or the write
    failed. It is in `sessions` from before `onConnect` until after `onDisconnect` and
    not again, and closed in the end. When the `Shutdown` that closed `done` returns, this
    is over for every connection. -/
theorem connection_lifecycle (hreach : (machine cfg).Reachable initial p)
    (hlen : p.shared.peers.length ≤ 2 ^ 64) :
    (∀ k peer, p.shared.peers[k]? = some peer →
      (∃ ph : Phase, ph.Log k (p.shared.eventsOf k) ∧
        (ph = .connected → p.shared.sessions.lookup peer.id = some k) ∧
        (ph = .disconnected → p.shared.Served k ∧ ∀ v ∈ p.threads, v.serves k = 0)) ∧
      (.handleConn k .onConnect ∈ p.threads ∨ .handleConn k .delete ∈ p.threads →
        p.shared.sessions.lookup peer.id = some k) ∧
      (peer.listed = true → (∀ id, p.shared.sessions.lookup id ≠ some k) →
        ∀ q, (machine cfg).Reachable p q → ∀ id, q.shared.sessions.lookup id ≠ some k) ∧
      ((∀ v ∈ p.threads, v.handles k = 0) →
        p.shared.Over k ∧ p.shared.sessions.lookup peer.id ≠ some k)) ∧
    ∀ i p', p.threads[i]? = some (.shutdown .wait) → (machine cfg).step p (i, .run) = some p' →
      p'.shared.sessions = ∅ ∧
        (∀ k < p'.shared.peers.length, p'.shared.Over k ∧ p'.shared.Served k) ∧
        ∀ v ∈ p'.threads, v.counted = 0 ∧ ∀ k, v.serves k = 0 := by
  refine ⟨fun k peer hk => ⟨?_, ?_, ?_, ?_⟩, ?_⟩
  · obtain ⟨ph, hlog, hkeeps⟩ := exists_phase hreach (List.getElem?_eq_some_iff.mp hk).1
    refine ⟨ph, hlog, fun hconnected => ?_, ?_⟩
    · obtain ⟨g, hg, hone⟩ := hkeeps hconnected
      exact lookup_of_keeps hreach hlen hg hone hk
    · rintro rfl
      have hidle := idle_of_disconnected hreach hlog
      exact ⟨served_of_idle hreach hidle, hidle⟩
  · rintro (hmem | hmem)
    · exact lookup_of_keeps hreach hlen hmem (if_pos rfl) hk
    · exact lookup_of_keeps hreach hlen hmem (if_pos rfl) hk
  · intro hlisted hout q hq
    exact never_again hreach ⟨peer, hk, hlisted⟩ hout hq
  · intro hnone
    exact ⟨reachable_over hreach (List.getElem?_eq_some_iff.mp hk).1 hnone,
      lookup_of_unhandled hreach hlen hnone hk⟩
  · intro i p' hi hstep
    have hreach' := hreach.tail hstep
    obtain ⟨g, g', new, rest, hi', hs, -, -⟩ := Program.machine_step_at hstep
    obtain rfl := Option.some.inj (hi.symm.trans hi')
    have hmove : Move cfg p.shared (.shutdown .wait) .run p'.shared g' new := step_move hs
    have hdone : p'.shared = p.shared ∧ p.shared.wg = 0 := by
      generalize p'.shared = s' at hmove
      cases hmove with
      | shutdownDone hnone => exact ⟨rfl, hnone⟩
    exact over_of_wg_eq_zero hreach' (hdone.1 ▸ hlen) (hdone.1 ▸ hdone.2)

/-- A connection whose one request is answered, and a `Shutdown` that is about to
    return. -/
def servedRun : List (Nat × Action) :=
  [(0, .registerMethod 7), (1, .accepted), (1, .run), (1, .run), (2, .run),
    (2, .readFull (.ok [112, 99, 49])), (2, .wrote 3 none),
    (2, .readFrame (.ok ({ type := FrameRequest, callID := 1, methodID := 7, payloadSize := 1 },
      [5]))),
    (2, .run), (2, .run), (3, .run), (3, .run), (3, .returned [9] statusOK), (3, .run),
    (3, .wrote 16 none), (3, .wrote 1 none), (3, .run), (3, .run), (3, .run), (0, .shutdown),
    (4, .run), (4, .run), (4, .run), (1, .acceptFailed), (2, .readFrame (.error "closed")),
    (2, .run), (2, .run), (2, .run), (2, .run), (2, .run)]

theorem connection_lifecycle_servedRun :
    ∃ p p', (machine {}).run initial servedRun = some p ∧
      (machine {}).step p (4, .run) = some p' ∧ p'.shared.sessions = ∅ ∧
      p'.shared.eventsOf 0 =
        [.onConnect 0, .started 0, .finished 0, .attempted 0, .onDisconnect 0] := by
  have hreach : (machine {}).Reachable initial _ := ⟨servedRun, rfl⟩
  obtain ⟨hempty, -, -⟩ := (connection_lifecycle hreach (by decide)).2 4 _ rfl rfl
  exact ⟨_, _, rfl, rfl, hempty, by decide⟩

/-- The accept loop takes one more connection. -/
theorem reachable_inserted (hreach : (machine {}).Reachable initial
      ⟨s, .app :: .acceptLoop .accept :: rest⟩) (hopen : s.listenerClosed = false) :
    ∃ s', (machine {}).Reachable initial
        ⟨s', .app :: .acceptLoop (.spawn s.peers.length) :: rest⟩ ∧
      s'.peers.length = s.peers.length + 1 ∧ s'.listenerClosed = false ∧
      s'.sessions.lookup s.nextConnID = some s.peers.length := by
  have haccept : (program {}).step s (.acceptLoop .accept) .accepted =
      some ({ s with peers := s.peers ++ [{ id := s.nextConnID }],
                     nextConnID := s.nextConnID + 1 },
        .acceptLoop (.insert s.peers.length), []) := by
    simp [program, step, acceptLoopStep, hopen]
  have hinserting := Program.reachable_at (i := 1) hreach rfl haccept
  have hinsert : (program {}).step
      { s with peers := s.peers ++ [{ id := s.nextConnID }], nextConnID := s.nextConnID + 1 }
      (.acceptLoop (.insert s.peers.length)) .run =
        some ({ s with
            peers := s.peers ++ [{ id := s.nextConnID, listed := true }],
            nextConnID := s.nextConnID + 1,
            sessions := s.sessions.insert s.nextConnID s.peers.length },
          .acceptLoop (.spawn s.peers.length), []) := by
    simp [program, step, acceptLoopStep, Shared.setPeer]
  have hspawning := Program.reachable_at (i := 1) hinserting rfl hinsert
  simp only [List.append_nil, List.set_cons_succ, List.set_cons_zero] at hspawning
  exact ⟨_, hspawning, List.length_append, hopen, AList.lookup_insert _⟩

/-- Any number of connections can be accepted, the first of which is at `onConnect`. -/
theorem exists_accepted (n : Nat) :
    ∃ s rest, (machine {}).Reachable initial ⟨s, .app :: .acceptLoop .accept :: rest⟩ ∧
      s.peers.length = n + 1 ∧ s.listenerClosed = false ∧ .handleConn 0 .onConnect ∈ rest := by
  induction n with
  | zero =>
      obtain ⟨s, hreach, hlen, hopen, -⟩ := reachable_inserted (.refl initial) rfl
      refine ⟨_, _, Program.reachable_at (P := program {}) (i := 1) (a := .run) hreach rfl rfl,
        hlen, hopen, ?_⟩
      simp
  | succ n ih =>
      obtain ⟨s, rest, hreach, hlen, hopen, hmem⟩ := ih
      obtain ⟨s', hreach', hlen', hopen', -⟩ := reachable_inserted hreach hopen
      refine ⟨_, _, Program.reachable_at (P := program {}) (i := 1) (a := .run) hreach' rfl rfl,
        ?_, hopen', List.mem_append_left _ hmem⟩
      exact hlen'.trans (congrArg (· + 1) hlen)

/-- After 2^64 connections the ids come round: the next connection takes the place of the
    first one in `sessions`, whose `onConnect` has not even been called. -/
theorem connection_replaced_after_wrap :
    ∃ p peer, (machine {}).Reachable initial p ∧ p.shared.peers[0]? = some peer ∧
      .handleConn 0 .onConnect ∈ p.threads ∧
      p.shared.sessions.lookup peer.id = some (2 ^ 64) := by
  obtain ⟨s, rest, hreach, hlen, hopen, hmem⟩ := exists_accepted (2 ^ 64 - 1)
  obtain ⟨s', hreach', hlen', -, hlookup⟩ := reachable_inserted hreach hopen
  have hfirst : 0 < s'.peers.length := by omega
  refine ⟨_, s'.peers[0], hreach', List.getElem?_eq_getElem hfirst, ?_, ?_⟩
  · exact List.mem_cons_of_mem _ (List.mem_cons_of_mem _ hmem)
  · have hid := (reachable_numbered hreach').ids 0 _ (List.getElem?_eq_getElem hfirst)
    have hnext := (reachable_numbered hreach).next
    rw [hlen] at hnext hlookup
    rw [hid]
    have hround : UInt64.ofNat (2 ^ 64 - 1 + 1 + 1) = UInt64.ofNat (0 + 1) := by decide
    rw [hround] at hnext
    rw [hnext] at hlookup
    exact hlookup

end Protocomm.Go.Server
