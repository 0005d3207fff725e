import Protocomm.Go.Server.Moves
import Protocomm.Misc.Slots

/-!
# The peers of the Go server

What a step does to the output of one peer, the mutual exclusion of `writeMu`, and
the one `handleConn` of a peer: it accepts the handshake before it replies, and
serves requests after.
-/

namespace Protocomm.Go.Server

open Misc

/-- The frame a goroutine is writing, with the peer and the place. -/
def Goroutine.writing : Goroutine → Option (Nat × FrameHeader × Bytes × Writing)
  | .request k _ _ (.write hdr payload pc) => some (k, hdr, payload, pc)
  | .push hdr payload _ (some (k, pc)) => some (k, hdr, payload, pc)
  | _ => none

/-- The goroutine holds the `writeMu` of peer `k`. -/
def Goroutine.holds (k : Nat) (g : Goroutine) : Nat :=
  match g.writing with
  | some (j, _, _, pc) => if j = k ∧ pc ≠ .lock then 1 else 0
  | none => 0

/-- The goroutine is about to run, or runs, the `handleConn` of peer `k`. -/
def Goroutine.handles (k : Nat) : Goroutine → Nat
  | .acceptLoop (.insert j) | .acceptLoop (.spawn j) | .handleConn j _ => if j = k then 1 else 0
  | _ => 0

/-- What the output of a peer depends on is the same. -/
structure Peer.SameOutput (peer peer' : Peer) : Prop where
  writeMu : peer'.writeMu = peer.writeMu
  out : peer'.out = peer.out

/-- What a step of a goroutine does to the output of peer `k`. -/
inductive Effect (cfg : Config) (k : Nat) (peer : Peer) :
    Goroutine → Action → Peer → Goroutine → Prop
  | keep {g g' : Goroutine} {a : Action} {peer' : Peer} (hsame : peer.SameOutput peer')
      (hg : g.holds k = 0) (hg' : g'.holds k = 0) : Effect cfg k peer g a peer' g'
  | accept {pc pc' : Handling} {a : Action} {peer' : Peer} (hmu : peer'.writeMu = peer.writeMu)
      (hout : peer'.out = peer.out.accept) :
      Effect cfg k peer (.handleConn k pc) a peer' (.handleConn k pc')
  | reply (n : Nat) (hwrite : peer.canWrite cfg.handshakeHeader.length n none = true) :
      Effect cfg k peer (.handleConn k .writeHandshake) (.wrote n none)
        (peer.wrote (peer.out.greet (cfg.handshakeHeader.take n)).reply none) (.handleConn k .read)
  | replyFailed (n : Nat) (e : String)
      (hwrite : peer.canWrite cfg.handshakeHeader.length n (some e) = true) :
      Effect cfg k peer (.handleConn k .writeHandshake) (.wrote n (some e))
        (peer.wrote (peer.out.greet (cfg.handshakeHeader.take n)) (some e)) (.handleConn k .wait)
  | write {g g' : Goroutine} {a : Action} {peer' : Peer} {hdr : FrameHeader} {payload : Bytes}
      {pc pc' : Writing} (hg : g.writing = some (k, hdr, payload, pc))
      (hwrite : WriteMove peer hdr payload pc a peer' pc')
      (hg' : g'.writing = some (k, hdr, payload, pc')) : Effect cfg k peer g a peer' g'
  | unlock {g g' : Goroutine} {a : Action} {hdr : FrameHeader} {payload : Bytes}
      {err : Option String} (hg : g.writing = some (k, hdr, payload, .unlock err))
      (hg' : g'.writing = none) : Effect cfg k peer g a { peer with writeMu := false } g'

variable {cfg : Config} {s s' : Shared} {g g' : Goroutine} {a : Action} {new : List Goroutine}
  {k : Nat} {peer : Peer}

theorem Peer.SameOutput.refl (peer : Peer) : peer.SameOutput peer := ⟨rfl, rfl⟩

theorem Peer.SameOutput.trans {p q r : Peer} (hpq : p.SameOutput q) (hqr : q.SameOutput r) :
    p.SameOutput r :=
  ⟨hqr.writeMu.trans hpq.writeMu, hqr.out.trans hpq.out⟩

/-- `Shutdown` closes connections and writes nothing. -/
theorem sweep_peer (hk : s.peers[k]? = some peer) :
    ∃ peer', s.sweep.peers[k]? = some peer' ∧ peer.SameOutput peer' := by
  simp only [Shared.sweep]
  generalize mapValues s.sessions = ks
  generalize s.peers = peers at hk
  -- over the swept sessions, for any list of peers
  induction ks generalizing peers peer with
  | nil => exact ⟨peer, hk, .refl peer⟩
  | cons j ks ih =>
      simp only [List.foldl_cons]
      have hmodify : ∃ next, (peers.modify j Peer.close)[k]? = some next ∧
          peer.SameOutput next := by
        rw [List.getElem?_modify, hk]
        by_cases hj : j = k
        · exact ⟨peer.close, by simp [hj], ⟨rfl, rfl⟩⟩
        · exact ⟨peer, by simp [hj], .refl peer⟩
      obtain ⟨next, hnext, hsame⟩ := hmodify
      obtain ⟨peer', hpeer', hrest⟩ := ih _ hnext
      exact ⟨peer', hpeer', hsame.trans hrest⟩

theorem length_sweep (s : Shared) : s.sweep.peers.length = s.peers.length := by
  simp only [Shared.sweep]
  generalize mapValues s.sessions = ks
  generalize s.peers = peers
  induction ks generalizing peers with
  | nil => rfl
  | cons j ks ih => rw [List.foldl_cons, ih, List.length_modify]

theorem WriteMove.holds_other {j : Nat} {hdr : FrameHeader} {payload : Bytes} {pc : Writing}
    (hg : g.writing = some (j, hdr, payload, pc)) (hj : j ≠ k) : g.holds k = 0 := by
  simp [Goroutine.holds, hg, hj]

/-- A step has one of the listed effects on each peer. -/
theorem Move.effect (h : Move cfg s g a s' g' new) (hk : s.peers[k]? = some peer) :
    ∃ peer', s'.peers[k]? = some peer' ∧ Effect cfg k peer g a peer' g' := by
  have quiet : ∀ {g g' : Goroutine} {a : Action}, g.holds k = 0 → g'.holds k = 0 →
      Effect cfg k peer g a peer g' := fun hg hg' => .keep (.refl peer) hg hg'
  cases h with
  | accept =>
      exact ⟨peer, List.getElem?_append_left (List.getElem?_eq_some_iff.mp hk).1 ▸ hk,
        quiet rfl rfl⟩
  | closePeer hpeer | close hpeer | closeConn hdr payload hpeer | insert hpeer
  | inflightDone hdr payload hpeer | spawnRequest hdr payload hpeer
  | readOther hdr payload hpeer | read hdr payload hpeer | handshakeMismatch received hpeer
  | handshakeAsk hpeer =>
      refine exists_getElem?_set hpeer hk (fun _ hold => ?_) fun _ => quiet rfl rfl
      subst hold
      exact .keep ⟨rfl, rfl⟩ rfl rfl
  | connectNoHeader hpeer | handshakeOK hpeer | answerYes hpeer =>
      refine exists_getElem?_set hpeer hk (fun hj hold => ?_) fun _ => quiet rfl rfl
      subst hj hold
      exact .accept rfl rfl
  | reply n hpeer hwrite =>
      refine exists_getElem?_set hpeer hk (fun hj hold => ?_) fun _ => quiet rfl rfl
      subst hj hold
      exact .reply n hwrite
  | replyFailed n e hpeer hwrite =>
      refine exists_getElem?_set hpeer hk (fun hj hold => ?_) fun _ => quiet rfl rfl
      subst hj hold
      exact .replyFailed n e hwrite
  | requestWrite hdr payload rhdr rpayload hpeer hwrite
  | pushWrite hdr payload todo hpeer hwrite =>
      refine exists_getElem?_set hpeer hk (fun hj hold => ?_) fun hj => ?_
      · subst hj hold
        exact .write rfl hwrite rfl
      · exact quiet (WriteMove.holds_other rfl hj) (WriteMove.holds_other rfl hj)
  | requestUnlock hdr payload rhdr rpayload err pc hpeer hpc =>
      refine exists_getElem?_set hpeer hk (fun hj hold => ?_) fun hj => ?_
      · subst hj hold
        refine .unlock rfl ?_
        rcases hpc with rfl | rfl <;> rfl
      · refine quiet (WriteMove.holds_other rfl hj) ?_
        rcases hpc with rfl | rfl <;> rfl
  | pushUnlock hdr payload todo err hpeer =>
      refine exists_getElem?_set hpeer hk (fun hj hold => ?_) fun hj => ?_
      · subst hj hold
        exact .unlock rfl rfl
      · exact quiet (WriteMove.holds_other rfl hj) rfl
  | sweep =>
      obtain ⟨peer', hpeer', hsame⟩ := sweep_peer hk
      exact ⟨peer', hpeer', .keep hsame rfl rfl⟩
  | miss | returned | pick =>
      exact ⟨peer, hk, quiet rfl (by simp [Goroutine.holds, Goroutine.writing])⟩
  | _ => exact ⟨peer, hk, quiet rfl rfl⟩

/-- Only `Accept` adds a peer. -/
theorem Move.length_peers (h : Move cfg s g a s' g' new) :
    s'.peers.length = s.peers.length ∨
      (g = .acceptLoop .accept ∧ g' = .acceptLoop (.insert s.peers.length) ∧ new = [] ∧
        s'.peers = s.peers ++ [{ id := s.nextConnID }]) := by
  cases h with
  | accept => exact Or.inr ⟨rfl, rfl, rfl, rfl⟩
  | sweep => exact Or.inl (length_sweep s)
  | _ => exact Or.inl (by simp [Shared.setPeer, Shared.setResult, Shared.log])

/-- A peer that was not there is a new one. -/
theorem Move.new_peer (h : Move cfg s g a s' g' new) (hk : s.peers[k]? = none)
    (hk' : s'.peers[k]? = some peer) : peer = { id := s.nextConnID } := by
  have hle := List.getElem?_eq_none_iff.mp hk
  rcases h.length_peers with hlen | ⟨-, -, -, hpeers⟩
  · have hlt := (List.getElem?_eq_some_iff.mp hk').1
    omega
  · rw [hpeers, List.getElem?_append_right hle, List.getElem?_singleton] at hk'
    split at hk' <;> cases hk'
    rfl

/-! ## One `handleConn` -/

def Shared.accepts (k : Nat) (s : Shared) : Nat := if k < s.peers.length then 1 else 0

/-- Other than `Accept` no step makes a `handleConn`. -/
theorem Move.handles_le (h : Move cfg s g a s' g' new)
    (hlen : s'.peers.length = s.peers.length) (k : Nat) :
    g'.handles k + (new.map (Goroutine.handles k)).sum ≤ g.handles k := by
  cases h with
  | accept => simp at hlen
  | requestUnlock hdr payload rhdr rpayload err pc hpeer hpc =>
      rcases hpc with rfl | rfl <;> exact Nat.le_refl 0
  | _ => simp [Goroutine.handles]

theorem accepts_concat (s : Shared) (peer : Peer) (k : Nat) {s' : Shared}
    (hpeers : s'.peers = s.peers ++ [peer]) :
    s'.accepts k = s.accepts k + if s.peers.length = k then 1 else 0 := by
  simp only [Shared.accepts, hpeers, List.length_append, List.length_singleton]
  split <;> split <;> split <;> omega

theorem reachable_handles {p : Pool Shared Goroutine} (k : Nat)
    (hreach : (machine cfg).Reachable initial p) :
    Program.owned (fun _ => 0) (Goroutine.handles k) p.shared p.threads ≤ p.shared.accepts k := by
  refine Program.reachable_owned_le (P := program cfg) _ _ (Shared.accepts k) ?_ ?_ hreach
  · simp [Program.owned, initial, Goroutine.handles]
  · intro u _ s' g g' new a hs
    have hmove := step_move hs
    rcases hmove.length_peers with hlen | ⟨rfl, rfl, rfl, hpeers⟩
    · refine ⟨0, by simp only [Shared.accepts, hlen, Nat.add_zero], ?_⟩
      have hle := hmove.handles_le hlen k
      omega
    · exact ⟨_, accepts_concat _ _ k hpeers, by simp [Goroutine.handles]⟩

/-- A peer has one `handleConn`. -/
theorem handles_unique {p : Pool Shared Goroutine} {g : Goroutine} {rest : List Goroutine}
    (hreach : (machine cfg).Reachable initial p) (hperm : p.threads.Perm (g :: rest))
    (hg : g.handles k = 1) : ∀ v ∈ rest, v.handles k = 0 := by
  intro v hv
  have hone : p.shared.accepts k ≤ 1 := by
    unfold Shared.accepts
    split <;> omega
  exact Program.owned_unique ((reachable_handles k hreach).trans hone) hperm hg hv

theorem handles_eq_one {v : Goroutine} (h : v.handles k ≠ 0) : v.handles k = 1 := by
  revert h
  unfold Goroutine.handles
  split <;> simp

theorem handles_other {p : Pool Shared Goroutine} {g v : Goroutine} {rest : List Goroutine}
    (hreach : (machine cfg).Reachable initial p) (hperm : p.threads.Perm (g :: rest))
    (hv : v ∈ rest) (hhandles : v.handles k = 1) : g.handles k = 0 := by
  by_contra hne
  have hzero := handles_unique hreach hperm (handles_eq_one hne) v hv
  omega

/-! ## The lock -/

/-- The lock of peer `k` is not held. -/
def Shared.unlocked (k : Nat) (s : Shared) : Nat :=
  match s.peers[k]? with
  | some peer => (!peer.writeMu).toNat
  | none => 1

theorem Move.new_holds (h : Move cfg s g a s' g' new) (k : Nat) : ∀ v ∈ new, v.holds k = 0 := by
  cases h with
  | _ => simp [Goroutine.holds, Goroutine.writing]

theorem Effect.unlocked {peer' : Peer} (h : Effect cfg k peer g a peer' g')
    (hlocked : 0 < g.holds k → peer.writeMu = true) :
    (!peer'.writeMu).toNat + g'.holds k = (!peer.writeMu).toNat + g.holds k := by
  cases h with
  | keep hsame hg hg' => rw [hsame.writeMu, hg, hg']
  | accept hmu => rw [hmu]; rfl
  | reply | replyFailed => rfl
  | write hg hwrite hg' =>
      cases hwrite with
      | lock hopen => simp [Goroutine.holds, hg, hg', hopen]
      | header | headerEnd | payload => simp [Goroutine.holds, hg, hg', Peer.wrote]
  | unlock hg hg' =>
      have hlocked : peer.writeMu = true := hlocked (by simp [Goroutine.holds, hg])
      simp [Goroutine.holds, hg, hg', hlocked]

/-- A peer that does not exist has no writer. -/
theorem Move.holds_none (h : Move cfg s g a s' g' new) (hk : s.peers[k]? = none) :
    g'.holds k = 0 := by
  cases h with
  | requestWrite hdr payload rhdr rpayload hpeer hwrite
  | pushWrite hdr payload todo hpeer hwrite =>
      refine WriteMove.holds_other rfl ?_
      rintro rfl
      cases hk.symm.trans hpeer
  | requestUnlock hdr payload rhdr rpayload err pc hpeer hpc =>
      rcases hpc with rfl | rfl <;> rfl
  | miss | returned | pick => simp [Goroutine.holds, Goroutine.writing]
  | _ => rfl

/-- The lock of a peer is free or held by one goroutine. -/
theorem reachable_holds {p : Pool Shared Goroutine} (k : Nat)
    (hreach : (machine cfg).Reachable initial p) :
    Program.owned (Shared.unlocked k) (Goroutine.holds k) p.shared p.threads = 1 := by
  refine Program.reachable_owned (P := program cfg) _ _ (fun _ => 1) rfl ?_ hreach
  intro u _ s' g g' new rest a _ howned hs
  have hmove := step_move hs
  simp only [Program.owned, List.map_cons, List.sum_cons] at howned
  have hnew : (new.map (Goroutine.holds k)).sum = 0 :=
    List.sum_eq_zero (List.forall_mem_map.mpr (hmove.new_holds k))
  refine ⟨0, rfl, ?_⟩
  rw [hnew, Nat.add_zero, Nat.add_zero]
  cases hk : u.shared.peers[k]? with
  | none =>
      have hfree : s'.unlocked k = 1 := by
        cases hk' : s'.peers[k]? with
        | none => simp only [Shared.unlocked, hk']
        | some peer' =>
            simp only [Shared.unlocked, hk', hmove.new_peer hk hk']
            rfl
      have hbefore : u.shared.unlocked k = 1 := by simp only [Shared.unlocked, hk]
      have hg' := hmove.holds_none hk
      omega
  | some peer =>
      obtain ⟨peer', hk', heffect⟩ := hmove.effect hk
      simp only [Shared.unlocked, hk, hk'] at howned ⊢
      refine heffect.unlocked fun hpos => ?_
      by_contra hfree
      rw [Bool.not_eq_true] at hfree
      simp only [hfree, Bool.not_false, Bool.toNat_true] at howned
      omega

variable {p : Pool Shared Goroutine} {rest : List Goroutine}

/-- The holder of a lock finds it locked. -/
theorem locked_of_holds {v : Goroutine} (hreach : (machine cfg).Reachable initial p)
    (hv : v ∈ p.threads) (hold : v.holds k = 1) (hk : p.shared.peers[k]? = some peer) :
    peer.writeMu = true := by
  have hle := (Program.add_le_owned hv).trans (reachable_holds k hreach).le
  by_contra hfree
  simp [Shared.unlocked, hk, hold, hfree] at hle

/-- No other goroutine holds the lock. -/
theorem holder_unique {v : Goroutine} (hreach : (machine cfg).Reachable initial p)
    (hperm : p.threads.Perm (g :: rest)) (hv : v ∈ rest) (hold : v.holds k = 1) :
    g.holds k = 0 := by
  have hle := (Program.add_add_le_owned hperm hv).trans (reachable_holds k hreach).le
  omega

/-- A lock that is not free has a holder. -/
theorem exists_holder (hreach : (machine cfg).Reachable initial p)
    (hk : p.shared.peers[k]? = some peer) (hlocked : peer.writeMu = true) :
    ∃ g ∈ p.threads, g.holds k = 1 := by
  have howned := reachable_holds k hreach
  simp only [Program.owned, Shared.unlocked, hk, hlocked, Bool.not_true, Bool.toNat_false] at howned
  obtain ⟨g, hg, hpos⟩ := exists_of_sum_pos (f := Goroutine.holds k) (l := p.threads) (by omega)
  have hle := le_sum_map (f := Goroutine.holds k) hg
  exact ⟨g, hg, by omega⟩

/-! ## The handshake -/

/-- The handshake of peer `k` is not over; `accepted` tells how far it is. -/
def Unreplied (peers : List Peer) (k : Nat) (accepted : Bool) : Prop :=
  ∃ peer, peers[k]? = some peer ∧ peer.out.accepted = accepted ∧ peer.out.replied = false

/-- The handshake of peer `k` is over, or there is none. -/
def Ready (header : Bytes) (peers : List Peer) (k : Nat) : Prop :=
  ∃ peer, peers[k]? = some peer ∧ peer.out.ready header = true

/-- What `handleConn` knows about the handshake of its peer. -/
def Handling.Handshake (header : Bytes) (peers : List Peer) (k : Nat) : Handling → Prop
  | .onConnect => Unreplied peers k false
  | .readHandshake | .onHandshake => header ≠ [] ∧ Unreplied peers k false
  | .writeHandshake => header ≠ [] ∧ Unreplied peers k true
  | .read | .acquire _ _ | .spawn _ _ => Ready header peers k
  | _ => True

/-- What `acceptLoop` knows about the handshake of its peer. -/
def Accepting.Handshake (peers : List Peer) : Accepting → Prop
  | .accept => True
  | .insert k | .spawn k => Unreplied peers k false

/-- What a goroutine knows about the handshake of its peer. -/
def Goroutine.Handshake (header : Bytes) (peers : List Peer) : Goroutine → Prop
  | .acceptLoop pc => pc.Handshake peers
  | .handleConn k pc => pc.Handshake header peers k
  | .request k _ _ _ => Ready header peers k
  | _ => True

/-- The flags of a peer change only by its own `handleConn`. -/
theorem Effect.flags {peer' : Peer} (h : Effect cfg k peer g a peer' g')
    (hg : g.handles k = 0) :
    peer'.out.accepted = peer.out.accepted ∧ peer'.out.replied = peer.out.replied := by
  cases h with
  | keep hsame => simp [hsame.out]
  | accept | reply | replyFailed => simp [Goroutine.handles] at hg
  | write hg hwrite => cases hwrite <;> simp [Peer.wrote, Outlet.fail, Outlet.more]
  | unlock => exact ⟨rfl, rfl⟩

theorem Effect.ready_mono {peer' : Peer} {header : Bytes} (h : Effect cfg k peer g a peer' g')
    (hready : peer.out.ready header = true) : peer'.out.ready header = true := by
  cases h with
  | keep hsame => rw [hsame.out, hready]
  | write hg hwrite =>
      cases hwrite with
      | header | headerEnd => exact (Outlet.ready_start ..).trans hready
      | lock | payload => exact hready
  | reply => exact Outlet.ready_of_replied rfl
  | accept _ hout => rw [hout]; exact hready
  | replyFailed | unlock => exact hready

theorem Unreplied.frame {accepted : Bool} (hk : Unreplied s.peers k accepted)
    (h : Move cfg s g a s' g' new) (hg : g.handles k = 0) : Unreplied s'.peers k accepted := by
  obtain ⟨peer, hpeer, haccepted, hreplied⟩ := hk
  obtain ⟨peer', hpeer', heffect⟩ := h.effect hpeer
  obtain ⟨ha, hr⟩ := heffect.flags hg
  exact ⟨peer', hpeer', ha.trans haccepted, hr.trans hreplied⟩

theorem Ready.mono {header : Bytes} (hk : Ready header s.peers k)
    (h : Move cfg s g a s' g' new) : Ready header s'.peers k := by
  obtain ⟨peer, hpeer, hready⟩ := hk
  obtain ⟨peer', hpeer', heffect⟩ := h.effect hpeer
  exact ⟨peer', hpeer', heffect.ready_mono hready⟩

/-- Other goroutines keep what they know. -/
theorem Goroutine.Handshake.frame {v : Goroutine} {header : Bytes}
    (hv : v.Handshake header s.peers) (h : Move cfg s g a s' g' new)
    (hunique : ∀ k, v.handles k = 1 → g.handles k = 0) : v.Handshake header s'.peers := by
  have hkeep : ∀ {k accepted}, v.handles k = 1 → Unreplied s.peers k accepted →
      Unreplied s'.peers k accepted := fun hk hold => hold.frame h (hunique _ hk)
  cases v with
  | acceptLoop pc =>
      cases pc with
      | accept => trivial
      | insert k | spawn k => exact hkeep (if_pos rfl) hv
  | handleConn k pc =>
      cases pc with
      | onConnect => exact hkeep (if_pos rfl) hv
      | readHandshake | onHandshake | writeHandshake => exact ⟨hv.1, hkeep (if_pos rfl) hv.2⟩
      | read | acquire | spawn => exact Ready.mono hv h
      | _ => trivial
  | request k hdr payload pc => exact Ready.mono hv h
  | _ => trivial

/-- A step of a goroutine establishes what it and the goroutines it starts know. -/
theorem Move.handshake (h : Move cfg s g a s' g' new)
    (hg : g.Handshake cfg.handshakeHeader s.peers) :
    g'.Handshake cfg.handshakeHeader s'.peers ∧
      ∀ v ∈ new, v.Handshake cfg.handshakeHeader s'.peers := by
  have hnil : ∀ v ∈ ([] : List Goroutine), v.Handshake cfg.handshakeHeader s'.peers :=
    List.forall_mem_nil _
  have hmono : ∀ {k}, Ready cfg.handshakeHeader s.peers k → Ready cfg.handshakeHeader s'.peers k :=
    fun hk => hk.mono h
  have hset : ∀ {k : Nat} {peer next : Peer}, s.peers[k]? = some peer →
      (s.setPeer k next).peers[k]? = some next := fun hpeer => getElem?_set_of_some _ hpeer
  cases h with
  | accept => exact ⟨⟨_, List.getElem?_concat_length, rfl, rfl⟩, hnil⟩
  | insert hpeer =>
      obtain ⟨peer, hk, haccepted, hreplied⟩ := hg
      obtain rfl := Option.some.inj (hk.symm.trans hpeer)
      exact ⟨⟨_, hset hpeer, haccepted, hreplied⟩, hnil⟩
  | spawn k => exact ⟨trivial, List.forall_mem_singleton.mpr hg⟩
  | connectNoHeader hpeer hnone =>
      exact ⟨⟨_, hset hpeer, by rw [hnone]; rfl⟩, hnil⟩
  | connect hpeer hheader => exact ⟨⟨hheader, hg⟩, hnil⟩
  | handshakeAsk hpeer =>
      obtain ⟨hheader, peer, hk, haccepted, hreplied⟩ := hg
      obtain rfl := Option.some.inj (hk.symm.trans hpeer)
      exact ⟨⟨hheader, _, hset hpeer, haccepted, hreplied⟩, hnil⟩
  | handshakeOK hpeer | answerYes hpeer =>
      obtain ⟨hheader, peer, hk, -, hreplied⟩ := hg
      obtain rfl := Option.some.inj (hk.symm.trans hpeer)
      exact ⟨⟨hheader, _, hset hpeer, rfl, hreplied⟩, hnil⟩
  | reply n hpeer => exact ⟨⟨_, hset hpeer, Outlet.ready_of_replied rfl⟩, hnil⟩
  | spawnRequest => exact ⟨hmono hg, List.forall_mem_singleton.mpr (hmono hg)⟩
  | read | acquire | lookup | miss | call | returned | requestWrite | requestUnlock | closeConn
  | release => exact ⟨hmono hg, hnil⟩
  | send | broadcast | callShutdown => exact ⟨trivial, List.forall_mem_singleton.mpr trivial⟩
  | _ => exact ⟨trivial, hnil⟩

theorem reachable_handshake (hreach : (machine cfg).Reachable initial p) :
    ∀ g ∈ p.threads, g.Handshake cfg.handshakeHeader p.shared.peers := by
  refine (Program.reachable_local (P := program cfg) (I := fun _ => True)
    (J := fun s g => g.Handshake cfg.handshakeHeader s.peers) ⟨trivial, ?_⟩ ?_ hreach).2
  · simp [initial, Goroutine.Handshake, Accepting.Handshake]
  · intro u hu s' g g' new rest a hperm _ hg hs
    have hmove := step_move hs
    obtain ⟨hg', hnew⟩ := hmove.handshake hg
    exact ⟨trivial, hg', hnew, fun v hv hold =>
      hold.frame hmove fun k hk => handles_other hu hperm hv hk⟩

end Protocomm.Go.Server
