import Protocomm.Go.Server.Peers

/-!
# The sessions of the Go server

A peer is put into `sessions` once, by the accept loop, and taken out once, by its
`handleConn`. `Shutdown` closes the connections it finds there and waits for their
`handleConn`s; a connection that the accept loop has accepted but not put into
`sessions` by then is not found.
-/

namespace Protocomm.Go.Server

open Misc

/-- What never changes back in a peer. -/
structure Peer.Ages (peer peer' : Peer) : Prop where
  id : peer'.id = peer.id
  closed : peer.closed = true → peer'.closed = true
  listed : peer.listed = true → peer'.listed = true

/-- Peer `k` was put into `sessions`. -/
def Listed (peers : List Peer) (k : Nat) : Prop :=
  ∃ peer, peers[k]? = some peer ∧ peer.listed = true

/-- Peer `k` was not put into `sessions` yet, and its connection is open. -/
def Fresh (peers : List Peer) (k : Nat) : Prop :=
  ∃ peer, peers[k]? = some peer ∧ peer.listed = false ∧ peer.closed = false

/-- What a goroutine knows about its peer. -/
def Goroutine.Placed (peers : List Peer) : Goroutine → Prop
  | .acceptLoop (.insert k) => Fresh peers k
  | .acceptLoop (.spawn k) | .handleConn k _ | .request k _ _ _ => Listed peers k
  | _ => True

/-- The entries of `sessions` are peers under their own ids. -/
def Shared.Registered (s : Shared) : Prop :=
  ∀ id k, s.sessions.lookup id = some k →
    ∃ peer, s.peers[k]? = some peer ∧ peer.id = id ∧ peer.listed = true

variable {cfg : Config} {s s' : Shared} {g g' : Goroutine} {a : Action} {new rest : List Goroutine}
  {k : Nat} {peer : Peer} {p : Pool Shared Goroutine}

theorem Peer.Ages.refl (peer : Peer) : peer.Ages peer := ⟨rfl, fun h => h, fun h => h⟩

/-- `Shutdown` closes the peers it finds in `sessions` and no other. -/
theorem sweep_getElem? (s : Shared) (k : Nat) :
    s.sweep.peers[k]? =
      if k ∈ mapValues s.sessions then s.peers[k]?.map Peer.close else s.peers[k]? := by
  simp only [Shared.sweep]
  generalize mapValues s.sessions = ks
  generalize s.peers = peers
  induction ks generalizing peers with
  | nil => rfl
  | cons j ks ih =>
      rw [List.foldl_cons, ih, List.getElem?_modify]
      by_cases hj : j = k
      · subst hj
        cases peers[j]? with
        | none => simp
        | some peer => by_cases hmem : j ∈ ks <;> simp [hmem, Peer.close]
      · have hk : k ∈ j :: ks ↔ k ∈ ks := by simp [Ne.symm hj]
        simp [hj, hk]

theorem WriteMove.ages {peer' : Peer} {hdr : FrameHeader} {payload : Bytes} {pc pc' : Writing}
    (h : WriteMove peer hdr payload pc a peer' pc') : peer.Ages peer' := by
  cases h with
  | _ => exact ⟨rfl, id, id⟩

theorem Move.ages (h : Move cfg s g a s' g' new) (hk : s.peers[k]? = some peer) :
    ∃ peer', s'.peers[k]? = some peer' ∧ peer.Ages peer' := by
  cases h with
  | accept =>
      exact ⟨peer, List.getElem?_append_left (List.getElem?_eq_some_iff.mp hk).1 ▸ hk, .refl peer⟩
  | closePeer hpeer | close hpeer | closeConn hdr payload hpeer | insert hpeer
  | inflightDone hdr payload hpeer | spawnRequest hdr payload hpeer
  | readOther hdr payload hpeer | read hdr payload hpeer | handshakeMismatch received hpeer
  | handshakeAsk hpeer | connectNoHeader hpeer | handshakeOK hpeer | answerYes hpeer
  | reply n hpeer | replyFailed n e hpeer | requestUnlock hdr payload rhdr rpayload err pc hpeer
  | pushUnlock hdr payload todo err hpeer =>
      refine exists_getElem?_set hpeer hk (fun _ hold => ?_) fun _ => .refl peer
      subst hold
      exact ⟨rfl, fun hclosed => by first | exact hclosed | rfl,
        fun hlisted => by first | exact hlisted | rfl⟩
  | requestWrite hdr payload rhdr rpayload hpeer hwrite
  | pushWrite hdr payload todo hpeer hwrite =>
      refine exists_getElem?_set hpeer hk (fun _ hold => ?_) fun _ => .refl peer
      subst hold
      exact hwrite.ages
  | sweep =>
      rw [sweep_getElem?, hk]
      split
      · exact ⟨peer.close, rfl, rfl, fun _ => rfl, id⟩
      · exact ⟨peer, rfl, .refl peer⟩
  | _ => exact ⟨peer, hk, .refl peer⟩

theorem Listed.mono (hk : Listed s.peers k) (h : Move cfg s g a s' g' new) : Listed s'.peers k := by
  obtain ⟨peer, hpeer, hlisted⟩ := hk
  obtain ⟨peer', hpeer', hages⟩ := h.ages hpeer
  exact ⟨peer', hpeer', hages.listed hlisted⟩

/-- A peer is put into `sessions` by the accept loop, and taken out by its
    `handleConn`. -/
inductive SessionsMove (s : Shared) : Goroutine → AList (fun _ : UInt64 => Nat) → Goroutine → Prop
  | keep {g g' : Goroutine} : SessionsMove s g s.sessions g'
  | insert {k : Nat} {peer : Peer} (hpeer : s.peers[k]? = some peer) :
      SessionsMove s (.acceptLoop (.insert k)) (s.sessions.insert peer.id k)
        (.acceptLoop (.spawn k))
  | delete {k : Nat} {peer : Peer} (hpeer : s.peers[k]? = some peer) :
      SessionsMove s (.handleConn k .delete) (s.sessions.erase peer.id) (.handleConn k .close)

theorem Move.sessions (h : Move cfg s g a s' g' new) : SessionsMove s g s'.sessions g' := by
  cases h with
  | insert hpeer => exact .insert hpeer
  | delete hpeer => exact .delete hpeer
  | _ => exact .keep

/-- Where a step finds an entry of `sessions` that it did not make itself. -/
theorem SessionsMove.lookup {m : AList fun _ : UInt64 => Nat} (h : SessionsMove s g m g')
    {id : UInt64} (hid : m.lookup id = some k) :
    s.sessions.lookup id = some k ∨
      (g = .acceptLoop (.insert k) ∧ ∃ peer, s.peers[k]? = some peer ∧ peer.id = id) := by
  cases h with
  | keep => exact Or.inl hid
  | @insert j peer hpeer =>
      by_cases heq : id = peer.id
      · subst heq
        rw [AList.lookup_insert] at hid
        cases hid
        exact Or.inr ⟨rfl, peer, hpeer, rfl⟩
      · rw [AList.lookup_insert_ne heq] at hid
        exact Or.inl hid
  | @delete j peer hpeer =>
      by_cases heq : id = peer.id
      · subst heq
        rw [AList.lookup_erase] at hid
        cases hid
      · rw [AList.lookup_erase_ne heq] at hid
        exact Or.inl hid

theorem Move.registered (h : Move cfg s g a s' g' new) (hreg : s.Registered) : s'.Registered := by
  intro id k hid
  rcases h.sessions.lookup hid with hold | ⟨rfl, peer, hpeer, heq⟩
  · obtain ⟨peer, hpeer, heq, hlisted⟩ := hreg id k hold
    obtain ⟨peer', hpeer', hages⟩ := h.ages hpeer
    exact ⟨peer', hpeer', hages.id.trans heq, hages.listed hlisted⟩
  · cases h with
    | insert hat =>
        obtain rfl := Option.some.inj (hat.symm.trans hpeer)
        exact ⟨_, getElem?_set_of_some _ hpeer, heq, rfl⟩

/-- Nobody closes the connection of a peer that is not in `sessions` yet. -/
theorem Fresh.frame (hk : Fresh s.peers k) (h : Move cfg s g a s' g' new) (hreg : s.Registered)
    (hg : g.Placed s.peers) (hne : g ≠ .acceptLoop (.insert k)) : Fresh s'.peers k := by
  obtain ⟨peer, hk, hfresh, hopen⟩ := hk
  have hself : Fresh s.peers k := ⟨peer, hk, hfresh, hopen⟩
  have hclash : ∀ {next : Peer}, s.peers[k]? = some next → next.listed = true → False := by
    intro next hnext hlisted
    obtain rfl := Option.some.inj (hk.symm.trans hnext)
    cases hfresh.symm.trans hlisted
  -- the peer of the moving goroutine is another one
  have hother : ∀ {j next}, s.peers[j]? = some next → next.listed = true → j ≠ k := by
    rintro j next hnext hlisted rfl
    exact hclash hnext hlisted
  have hat : ∀ {j next}, Listed s.peers j → Fresh (s.peers.set j next) k := by
    rintro j next ⟨old, hold, hlisted⟩
    exact ⟨peer, by simp [hother hold hlisted, hk], hfresh, hopen⟩
  cases h with
  | accept =>
      have hlt := (List.getElem?_eq_some_iff.mp hk).1
      exact ⟨peer, List.getElem?_append_left hlt ▸ hk, hfresh, hopen⟩
  | closePeer hpeer hlisted => exact hat ⟨_, hpeer, hlisted⟩
  | insert hpeer =>
      have hj : _ ≠ k := fun hj => hne (hj ▸ rfl)
      exact ⟨peer, by simp [Shared.setPeer, hj, hk], hfresh, hopen⟩
  | connectNoHeader | handshakeMismatch | handshakeAsk | handshakeOK | answerYes | reply
  | replyFailed | readOther | read | spawnRequest | close | requestWrite | requestUnlock
  | closeConn | inflightDone => exact hat hg
  | pushWrite hdr payload todo hpeer hwrite =>
      refine exists_getElem?_set hpeer hk (fun _ hold => ?_) fun _ => ⟨hfresh, hopen⟩
      subst hold
      cases hwrite with
      | _ => exact ⟨hfresh, hopen⟩
  | pushUnlock hdr payload todo err hpeer =>
      refine exists_getElem?_set hpeer hk (fun _ hold => ?_) fun _ => ⟨hfresh, hopen⟩
      subst hold
      exact ⟨hfresh, hopen⟩
  | sweep =>
      have hnot : k ∉ mapValues s.sessions := by
        intro hmem
        obtain ⟨id, hid⟩ := mem_mapValues.mp hmem
        obtain ⟨next, hnext, -, hlisted⟩ := hreg id k hid
        exact hclash hnext hlisted
      exact ⟨peer, by rw [sweep_getElem?, if_neg hnot, hk], hfresh, hopen⟩
  | _ => exact hself

/-- Other goroutines keep what they know. -/
theorem Goroutine.Placed.frame {v : Goroutine} (hv : v.Placed s.peers)
    (h : Move cfg s g a s' g' new) (hreg : s.Registered) (hg : g.Placed s.peers)
    (hunique : ∀ k, v.handles k = 1 → g.handles k = 0) : v.Placed s'.peers := by
  cases v with
  | acceptLoop pc =>
      cases pc with
      | accept => trivial
      | insert k =>
          refine Fresh.frame hv h hreg hg ?_
          rintro rfl
          have hzero := hunique k (if_pos rfl)
          simp [Goroutine.handles] at hzero
      | spawn k => exact Listed.mono hv h
  | handleConn k pc => exact Listed.mono hv h
  | request k hdr payload pc => exact Listed.mono hv h
  | _ => trivial

/-- A step of a goroutine establishes what it and the goroutines it starts know. -/
theorem Move.placed (h : Move cfg s g a s' g' new) (hg : g.Placed s.peers) :
    g'.Placed s'.peers ∧ ∀ v ∈ new, v.Placed s'.peers := by
  have hnil : ∀ v ∈ ([] : List Goroutine), v.Placed s'.peers := List.forall_mem_nil _
  have hmono : ∀ {k}, Listed s.peers k → Listed s'.peers k := fun hk => hk.mono h
  cases h with
  | accept => exact ⟨⟨_, List.getElem?_concat_length, rfl, rfl⟩, hnil⟩
  | insert hpeer => exact ⟨⟨_, getElem?_set_of_some _ hpeer, rfl⟩, hnil⟩
  | spawn k => exact ⟨trivial, List.forall_mem_singleton.mpr hg⟩
  | spawnRequest => exact ⟨hmono hg, List.forall_mem_singleton.mpr (hmono hg)⟩
  | send | broadcast | callShutdown => exact ⟨trivial, List.forall_mem_singleton.mpr trivial⟩
  | connectNoHeader | connect | handshakeFailed | handshakeMismatch | handshakeAsk | handshakeOK
  | answerYes | answerNo | reply | replyFailed | readFailed | readOther | read | acquire
  | acquireQuit | wait | onDisconnect | delete | close | lookup | miss | call | returned
  | requestWrite | requestUnlock | closeConn | release => exact ⟨hmono hg, hnil⟩
  | _ => exact ⟨trivial, hnil⟩

theorem reachable_placed (hreach : (machine cfg).Reachable initial p) :
    p.shared.Registered ∧ ∀ g ∈ p.threads, g.Placed p.shared.peers := by
  refine Program.reachable_local (P := program cfg) (I := Shared.Registered)
    (J := fun s g => g.Placed s.peers) ⟨?_, ?_⟩ ?_ hreach
  · intro id k hid
    cases hid
  · simp [initial, Goroutine.Placed]
  · intro u hu s' g g' new rest a hperm hreg hg hs
    have hmove := step_move hs
    obtain ⟨hg', hnew⟩ := hmove.placed hg
    refine ⟨hmove.registered hreg, hg', hnew, fun v hv hold => ?_⟩
    exact hold.frame hmove hreg hg fun k hk => handles_other hu hperm hv hk

/-! ## Connection ids -/

/-- Ids are given out in turn, from 1 on. -/
structure Shared.Numbered (s : Shared) : Prop where
  next : s.nextConnID = UInt64.ofNat (s.peers.length + 1)
  ids : ∀ k peer, s.peers[k]? = some peer → peer.id = UInt64.ofNat (k + 1)

theorem Move.nextConnID (h : Move cfg s g a s' g' new) :
    (s'.peers.length = s.peers.length ∧ s'.nextConnID = s.nextConnID) ∨
      (s'.peers.length = s.peers.length + 1 ∧ s'.nextConnID = s.nextConnID + 1) := by
  cases h with
  | accept => exact Or.inr ⟨List.length_append, rfl⟩
  | sweep => exact Or.inl ⟨length_sweep s, rfl⟩
  | _ => exact Or.inl ⟨by simp [Shared.setPeer, Shared.setResult, Shared.log], rfl⟩

theorem Move.length_le (h : Move cfg s g a s' g' new) : s.peers.length ≤ s'.peers.length := by
  rcases h.nextConnID with ⟨hlen, -⟩ | ⟨hlen, -⟩ <;> omega

theorem Move.numbered (h : Move cfg s g a s' g' new) (hs : s.Numbered) : s'.Numbered := by
  refine ⟨?_, fun k peer' hk' => ?_⟩
  · rcases h.nextConnID with ⟨hlen, hnext⟩ | ⟨hlen, hnext⟩
    · rw [hnext, hlen, hs.next]
    · rw [hnext, hlen, hs.next]
      exact (UInt64.ofNat_add ..).symm
  · cases hk : s.peers[k]? with
    | some peer =>
        obtain ⟨next, hnext, hages⟩ := h.ages hk
        obtain rfl := Option.some.inj (hnext.symm.trans hk')
        rw [hages.id, hs.ids k peer hk]
    | none =>
        have hlast : k = s.peers.length := by
          have hlt := (List.getElem?_eq_some_iff.mp hk').1
          have hge := List.getElem?_eq_none_iff.mp hk
          rcases h.nextConnID with ⟨hlen, -⟩ | ⟨hlen, -⟩ <;> omega
        rw [h.new_peer hk hk', hlast]
        exact hs.next

theorem reachable_numbered (hreach : (machine cfg).Reachable initial p) : p.shared.Numbered := by
  refine Program.reachable_shared (P := program cfg) (I := Shared.Numbered) ⟨rfl, ?_⟩ ?_ hreach
  · intro k peer hk
    simp [initial] at hk
  · intro u _ s' g g' new a _ hu hs
    exact (step_move hs).numbered hu

/-- Fewer than 2^64 connections have different ids. -/
theorem Shared.Numbered.id_inj (h : s.Numbered) (hlen : s.peers.length ≤ 2 ^ 64) {j : Nat}
    {other : Peer} (hk : s.peers[k]? = some peer) (hj : s.peers[j]? = some other)
    (hid : peer.id = other.id) : k = j := by
  have hkl := (List.getElem?_eq_some_iff.mp hk).1
  have hjl := (List.getElem?_eq_some_iff.mp hj).1
  rw [h.ids k peer hk, h.ids j other hj] at hid
  have heq := congrArg UInt64.toNat hid
  simp only [UInt64.toNat_ofNat'] at heq
  omega

/-! ## Who keeps a peer in `sessions` -/

/-- The goroutine keeps peer `k` in `sessions`. -/
def Goroutine.keeps (k : Nat) : Goroutine → Nat
  | .acceptLoop (.spawn j) => if j = k then 1 else 0
  | .handleConn _ .close | .handleConn _ .wgDone => 0
  | .handleConn j _ => if j = k then 1 else 0
  | _ => 0

/-- Peer `k` is in `sessions`. -/
def Shared.holds (s : Shared) (k : Nat) : Nat :=
  match s.peers[k]? with
  | some peer => if s.sessions.lookup peer.id = some k then 1 else 0
  | none => 0

theorem Move.keeps (h : Move cfg s g a s' g' new) (hinsert : ∀ j, g ≠ .acceptLoop (.insert j))
    (hdelete : ∀ j, g ≠ .handleConn j .delete) (k : Nat) :
    s'.sessions = s.sessions ∧ g'.keeps k + (new.map (Goroutine.keeps k)).sum = g.keeps k := by
  cases h with
  | @insert j => exact absurd rfl (hinsert j)
  | @delete j => exact absurd rfl (hdelete j)
  | requestUnlock hdr payload rhdr rpayload err pc hpeer hpc =>
      rcases hpc with rfl | rfl <;> exact ⟨rfl, rfl⟩
  | _ => exact ⟨rfl, by simp [Goroutine.keeps]⟩

theorem Move.holds (h : Move cfg s g a s' g' new) (hreg : s.Registered)
    (hsame : s'.sessions = s.sessions) : s'.holds k = s.holds k := by
  simp only [Shared.holds, hsame]
  cases hk : s.peers[k]? with
  | some peer =>
      obtain ⟨peer', hk', hages⟩ := h.ages hk
      simp only [hk']
      rw [hages.id]
  | none =>
      cases hk' : s'.peers[k]? with
      | none => rfl
      | some peer' =>
          refine if_neg fun hlookup => ?_
          obtain ⟨peer, hpeer, -⟩ := hreg _ k hlookup
          cases hk.symm.trans hpeer

/-- The accept loop inserts peer `k`, which was not there, and no other. -/
theorem holds_insert {j : Nat} (h : Move cfg s (.acceptLoop (.insert j)) a s' g' new)
    (hreg : s.Registered) (hnum : s.Numbered) (hlen : s.peers.length ≤ 2 ^ 64)
    (hfresh : Fresh s.peers j) (k : Nat) :
    s'.holds k = s.holds k + if j = k then 1 else 0 := by
  obtain ⟨old, hold, hunlisted, -⟩ := hfresh
  cases h with
  | @insert _ other hpeer =>
      obtain rfl := Option.some.inj (hold.symm.trans hpeer)
      by_cases hj : j = k
      · subst hj
        have hout : s.sessions.lookup old.id ≠ some j := by
          intro hlookup
          obtain ⟨peer, hk, -, hlisted⟩ := hreg _ j hlookup
          obtain rfl := Option.some.inj (hold.symm.trans hk)
          cases hunlisted.symm.trans hlisted
        simp [Shared.holds, Shared.setPeer, getElem?_set_of_some _ hold, hold, hout]
      · simp only [Shared.holds, Shared.setPeer, List.getElem?_set_ne hj, if_neg hj, Nat.add_zero]
        cases hk : s.peers[k]? with
        | none => rfl
        | some peer =>
            have hid : peer.id ≠ old.id := fun hid => hj (hnum.id_inj hlen hk hold hid).symm
            simp only [AList.lookup_insert_ne hid]

/-- A `handleConn` deletes its peer and no other. -/
theorem holds_delete {j : Nat} (h : Move cfg s (.handleConn j .delete) a s' g' new)
    (hnum : s.Numbered) (hlen : s.peers.length ≤ 2 ^ 64) (k : Nat) :
    s'.holds k = if j = k then 0 else s.holds k := by
  cases h with
  | @delete _ old hold =>
      by_cases hj : j = k
      · subst hj
        simp [Shared.holds, hold]
      · simp only [Shared.holds, if_neg hj]
        cases hk : s.peers[k]? with
        | none => rfl
        | some peer =>
            have hid : peer.id ≠ old.id := fun hid => hj (hnum.id_inj hlen hk hold hid).symm
            simp only [AList.lookup_erase_ne hid]

theorem Shared.holds_le_one (s : Shared) (k : Nat) : s.holds k ≤ 1 := by
  unfold Shared.holds
  split
  · split <;> omega
  · omega

theorem keeps_le_handles (v : Goroutine) (k : Nat) : v.keeps k ≤ v.handles k := by
  unfold Goroutine.keeps Goroutine.handles
  split <;> simp

/-- A peer is in `sessions` exactly as long as a goroutine keeps it there. -/
theorem reachable_keeps (k : Nat) (hreach : (machine cfg).Reachable initial p)
    (hlen : p.shared.peers.length ≤ 2 ^ 64) :
    (p.threads.map (Goroutine.keeps k)).sum = p.shared.holds k := by
  revert hlen
  refine Program.reachable_bag (P := program cfg)
    (K := fun s l => s.peers.length ≤ 2 ^ 64 → (l.map (Goroutine.keeps k)).sum = s.holds k)
    ?_ ?_ ?_ hreach
  · intro s l l' hl hK hlen
    rw [← (hl.map (Goroutine.keeps k)).sum_eq]
    exact hK hlen
  · intro _
    rfl
  · intro u hu s' g g' new rest a hperm hK hs hlen'
    have hmove := step_move hs
    have hlen : u.shared.peers.length ≤ 2 ^ 64 := hmove.length_le.trans hlen'
    have hcount := hK hlen
    obtain ⟨hreg, hplaced⟩ := reachable_placed hu
    have hnum := reachable_numbered hu
    have hg := hplaced g (hperm.mem_iff.mpr List.mem_cons_self)
    simp only [List.map_cons, List.sum_cons, List.map_append, List.sum_append] at hcount ⊢
    by_cases hinsert : ∃ j, g = .acceptLoop (.insert j)
    · obtain ⟨j, rfl⟩ := hinsert
      rw [holds_insert hmove hreg hnum hlen hg k, ← hcount]
      cases hmove with
      | insert => simp [Goroutine.keeps, Nat.add_comm]
    · by_cases hdelete : ∃ j, g = .handleConn j .delete
      · obtain ⟨j, rfl⟩ := hdelete
        rw [holds_delete hmove hnum hlen k, ← hcount]
        have hone := u.shared.holds_le_one k
        cases hmove with
        | delete =>
            by_cases hj : j = k
            · simp only [Goroutine.keeps, if_pos hj, List.map_nil, List.sum_nil] at hcount ⊢
              omega
            · simp [Goroutine.keeps, hj]
      · rw [not_exists] at hinsert hdelete
        obtain ⟨hsame, hkeeps⟩ := hmove.keeps hinsert hdelete k
        rw [hmove.holds hreg hsame, ← hcount]
        omega

theorem lookup_of_keeps (hreach : (machine cfg).Reachable initial p)
    (hlen : p.shared.peers.length ≤ 2 ^ 64) (hg : g ∈ p.threads) (hkeeps : g.keeps k = 1)
    (hk : p.shared.peers[k]? = some peer) : p.shared.sessions.lookup peer.id = some k := by
  have hle := (le_sum_map hg).trans (reachable_keeps k hreach hlen).le
  by_contra hout
  simp [Shared.holds, hk, hout, hkeeps] at hle

/-- Without its `handleConn` a peer is not in `sessions`. -/
theorem lookup_of_unhandled (hreach : (machine cfg).Reachable initial p)
    (hlen : p.shared.peers.length ≤ 2 ^ 64) (hnone : ∀ v ∈ p.threads, v.handles k = 0)
    (hk : p.shared.peers[k]? = some peer) : p.shared.sessions.lookup peer.id ≠ some k := by
  intro hlookup
  have hsum := reachable_keeps k hreach hlen
  have hzero : (p.threads.map (Goroutine.keeps k)).sum = 0 := by
    refine List.sum_eq_zero (List.forall_mem_map.mpr fun v hv => ?_)
    have hle := keeps_le_handles v k
    have hv := hnone v hv
    omega
  simp [hzero, Shared.holds, hk, hlookup] at hsum

/-! ## `Shutdown` goes through `sessions` -/

/-- Once `Shutdown` went through `sessions`, the connections in it are closed. -/
def Shared.SweptClosed (s : Shared) : Prop :=
  s.swept = true → ∀ id k, s.sessions.lookup id = some k →
    ∃ peer, s.peers[k]? = some peer ∧ peer.closed = true

/-- The accept loop puts no peer into `sessions` after `Shutdown` went through it. -/
def InsertedInTime (p : Pool Shared Goroutine) (ia : Nat × Action) : Prop :=
  ∀ k, p.threads[ia.1]? = some (.acceptLoop (.insert k)) → ia.2 = .run → p.shared.swept = false

theorem Move.swept (h : Move cfg s g a s' g' new) : s'.swept = s.swept ∨ s' = s.sweep := by
  cases h with
  | sweep => exact Or.inr rfl
  | _ => exact Or.inl rfl

theorem sweptClosed_sweep (hreg : s.Registered) : s.sweep.SweptClosed := by
  intro _ id k hid
  obtain ⟨peer, hpeer, -, -⟩ := hreg id k hid
  refine ⟨peer.close, ?_, rfl⟩
  have hmem : k ∈ mapValues s.sessions := mem_mapValues.mpr ⟨id, hid⟩
  rw [sweep_getElem?, if_pos hmem, hpeer]
  rfl

theorem Move.sweptClosed (h : Move cfg s g a s' g' new) (hreg : s.Registered)
    (hclosed : s.SweptClosed) (htime : ∀ k, g = .acceptLoop (.insert k) → s.swept = false) :
    s'.SweptClosed := by
  rcases h.swept with hsame | rfl
  · intro hswept id k hid
    rw [hsame] at hswept
    rcases h.sessions.lookup hid with hold | ⟨hg, -⟩
    · obtain ⟨peer, hpeer, hyes⟩ := hclosed hswept id k hold
      obtain ⟨peer', hpeer', hages⟩ := h.ages hpeer
      exact ⟨peer', hpeer', hages.closed hyes⟩
    · cases hswept.symm.trans (htime k hg)
  · exact sweptClosed_sweep hreg

/-- The section under `sessionsMu` of the accept loop. -/
theorem Move.insert_inv (h : Move cfg s (.acceptLoop (.insert k)) a s' g' new) :
    a = .run ∧ s'.swept = s.swept ∧ ∃ peer, s.peers[k]? = some peer ∧
      s'.peers[k]? = some { peer with listed := true } ∧ s'.sessions.lookup peer.id = some k := by
  cases h with
  | insert hpeer =>
      exact ⟨rfl, rfl, _, hpeer, getElem?_set_of_some _ hpeer, AList.lookup_insert _⟩

/-- A peer put into `sessions` too late is open. -/
theorem late_insert_open (hreach : (machine cfg).Reachable initial p) {i : Nat}
    (hi : p.threads[i]? = some (.acceptLoop (.insert k))) (hswept : p.shared.swept = true)
    {p' : Pool Shared Goroutine} (hstep : (machine cfg).step p (i, .run) = some p') :
    ¬ p'.shared.SweptClosed := by
  intro hclosed
  obtain ⟨g, g', new, rest, hi', hs, -, -⟩ := Program.machine_step_at hstep
  obtain rfl := Option.some.inj (hi.symm.trans hi')
  obtain ⟨peer, hpeer, -, hopen⟩ := (reachable_placed hreach).2 _ (List.mem_of_getElem? hi)
  have hmove : Move cfg p.shared (.acceptLoop (.insert k)) .run p'.shared g' new := step_move hs
  obtain ⟨-, hsame, old, hold, hnew, hlookup⟩ := hmove.insert_inv
  obtain rfl := Option.some.inj (hold.symm.trans hpeer)
  obtain ⟨next, hnext, hyes⟩ := hclosed (hsame.trans hswept) _ k hlookup
  obtain rfl := Option.some.inj (hnew.symm.trans hnext)
  cases hopen.symm.trans hyes

/-- `Shutdown` leaves no open connection in `sessions` exactly in the runs in which
    the accept loop is not between `Accept` and its section under `sessionsMu` when
    `Shutdown` goes through `sessions`. -/
theorem sweptClosed_iff_insertedInTime (cfg : Config) {acts : List (Nat × Action)}
    (hrun : (machine cfg).run initial acts = some p) :
    (∀ u ∈ (machine cfg).visited initial acts, u.shared.SweptClosed) ↔
      (machine cfg).Meets InsertedInTime initial acts := by
  refine Machine.forall_visited_iff_meets (I := (machine cfg).Reachable initial)
    (Q := fun p => p.shared.SweptClosed) ?_ ?_ (fun _ _ h => h) ?_ (.refl _) nofun hrun
  · exact fun _ _ _ hreach hstep => hreach.tail hstep
  · rintro u ⟨i, a⟩ u' hu hclosed hok hstep
    obtain ⟨g, g', new, rest, hi, hs, -, -⟩ := Program.machine_step_at hstep
    have hmove : Move cfg u.shared g a u'.shared g' new := step_move hs
    refine hmove.sweptClosed (reachable_placed hu).1 hclosed ?_
    rintro k rfl
    exact hok k hi hmove.insert_inv.1
  · rintro u ⟨i, a⟩ u' hu _ hbad hstep
    simp only [InsertedInTime, not_forall, Bool.not_eq_false] at hbad
    obtain ⟨k, hi, rfl, hswept⟩ := hbad
    exact late_insert_open hu hi hswept hstep

/-- A connection is accepted, `Shutdown` goes through the empty `sessions` and waits,
    and the accept loop goes on: it starts a `handleConn`, which waits for the bytes of
    the client. -/
def lateInsertRun : List (Nat × Action) :=
  [(1, .accepted), (0, .shutdown), (2, .run), (2, .run), (2, .run), (1, .run), (1, .run),
    (1, .acceptFailed), (3, .run)]

theorem sweptClosed_iff_lateInsertRun :
    ∃ p, (machine {}).run initial lateInsertRun = some p ∧
      ¬ (machine {}).Meets InsertedInTime initial lateInsertRun := by
  refine ⟨_, rfl, fun hmeets => ?_⟩
  have hrun : (machine {}).run initial lateInsertRun = some _ := rfl
  have hall := (sweptClosed_iff_insertedInTime {} hrun).mpr hmeets
  obtain ⟨peer, hpeer, hclosed⟩ := hall _ (List.mem_of_getElem? (i := 9) rfl) rfl 1 0 rfl
  cases hpeer
  cases hclosed

/-- `Shutdown` waits for a `handleConn` that reads from an open connection, which
    nobody will close. -/
theorem shutdown_waits_for_open_connection :
    ∃ p, (machine {}).run initial lateInsertRun = some p ∧
      p.shared.swept = true ∧ p.shared.sessions.lookup 1 = some 0 ∧
      p.shared.peers[0]?.map Peer.closed = some false ∧
      p.threads = [.app, .done, .shutdown .wait, .handleConn 0 .readHandshake] ∧
      p.shared.wg = 1 :=
  ⟨_, rfl, rfl, rfl, rfl, rfl, rfl⟩

end Protocomm.Go.Server
