import Protocomm.Go.Server.Drain
import Protocomm.Misc.Duty

/-!
# What the client of a stream receives from the Go server

While a client sends a stream nothing is pushed to it and no write fails. So when the
connection is over, what the client can receive is the handshake reply and then the bytes
of the frames written, each frame whole.
-/

namespace Protocomm.Go.Server

open Misc

/-- The bytes that the client of peer `k` can receive. -/
def Shared.receivedBy (k : Nat) (s : Shared) : Bytes :=
  (s.peers[k]?.map fun peer => peer.out.received).getD []

variable {cfg : Config} {T : Table} {stream : Bytes} {k : Nat} {s s' : Shared}
  {g g' : Goroutine} {a : Action} {new : List Goroutine} {p : Pool Shared Goroutine} {peer : Peer}

/-- Without pushes the output of every peer is in order. -/
theorem plain_output (hreach : (plainProgram cfg T stream k).machine.Reachable initial p) :
    Output cfg.handshakeHeader p.shared p.threads := by
  refine Machine.reachable_invariant
    (P := fun u : Pool Shared Goroutine => Output cfg.handshakeHeader u.shared u.threads)
    ?_ ?_ hreach
  · exact ⟨by simp [initial], by simp [initial, Goroutine.writing]⟩
  · intro u ia u' hu hQ hstep
    refine output_keep (reachable_of_plain hu) hQ ?_ (Program.machine_step_of_restrict hstep)
    intro hdr payload todo j pc n err peer hpush
    cases (plain_quiet hu).2 _ (List.mem_of_getElem? hpush)

/-- The writes of a response succeed. -/
theorem plain_wrote {hdr : FrameHeader} {payload : Bytes} {pc : Writing} {n : Nat}
    {err : Option String} (hgood : plain cfg T stream k s g a = true) (hquiet : g.quiet = true)
    (hwriting : g.writing = some (k, hdr, payload, pc)) (ha : a = .wrote n err) : err = none := by
  subst ha
  unfold Goroutine.writing at hwriting
  split at hwriting
  · cases hwriting
    simpa [plain] using hgood
  · cases hquiet
  · cases hwriting

theorem plain_unfailed (hreach : (plainProgram cfg T stream k).machine.Reachable initial p) :
    ∀ peer, p.shared.peers[k]? = some peer → peer.out.failed = false := by
  refine Program.reachable_shared (P := plainProgram cfg T stream k)
    (I := fun s => ∀ peer, s.peers[k]? = some peer → peer.out.failed = false)
    (by simp [initial]) ?_ hreach
  intro u hu s' g g' new a hg hI hs peer' hk'
  obtain ⟨hgood, hmove⟩ := plain_step hs
  cases hk : u.shared.peers[k]? with
  | none => rw [hmove.new_peer hk hk']
  | some peer =>
      obtain ⟨next, hnext, heffect⟩ := hmove.effect hk
      cases hk'.symm.trans hnext
      have hopen := hI peer hk
      cases heffect with
      | keep hsame => rw [hsame.out, hopen]
      | accept _ hout => rw [hout]; exact hopen
      | reply n => simpa [Peer.wrote, Outlet.fail, Outlet.reply, Outlet.greet] using hopen
      | replyFailed n e => simp [plain] at hgood
      | write hwriting hwrite =>
          refine (hwrite.fine fun n err ha => ?_).2.1.trans hopen
          exact plain_wrote hgood ((plain_quiet hu).2 g hg) hwriting ha
      | unlock => exact hopen

/-! ## The end of the connection -/

/-- The goroutine has the handshake of peer `k` before it. -/
def Goroutine.greets (k : Nat) : Goroutine → Bool
  | .acceptLoop (.insert j) | .acceptLoop (.spawn j) | .handleConn j .onConnect
  | .handleConn j .readHandshake | .handleConn j .onHandshake | .handleConn j .writeHandshake =>
      j == k
  | _ => false

/-- The handshake that a goroutine has before it succeeds. -/
theorem Move.greets (h : Move cfg s g a s' g' new) (hgood : plain cfg T stream k s g a = true)
    (hg : g.greets k = true) :
    Ready cfg.handshakeHeader s'.peers k ∨ ∃ v ∈ g' :: new, v.greets k = true := by
  cases h with
  | insert | connect | handshakeAsk | handshakeOK | answerYes =>
      exact Or.inr ⟨_, List.mem_cons_self, hg⟩
  | spawn => exact Or.inr ⟨_, List.mem_cons_of_mem _ List.mem_cons_self, hg⟩
  | connectNoHeader hpeer hempty =>
      obtain rfl := beq_iff_eq.mp hg
      exact Or.inl ⟨_, getElem?_set_of_some _ hpeer, by rw [hempty]; rfl⟩
  | handshakeMismatch received _ hne =>
      obtain rfl := beq_iff_eq.mp hg
      exact absurd (by simpa [plain] using hgood) hne
  | handshakeFailed | answerNo | replyFailed =>
      obtain rfl := beq_iff_eq.mp hg
      simp [plain] at hgood
  | reply n hpeer hwrite =>
      obtain rfl := beq_iff_eq.mp hg
      exact Or.inl ⟨_, getElem?_set_of_some _ hpeer, Outlet.ready_of_replied rfl⟩
  | _ => cases hg

theorem plain_ready (hreach : (plainProgram cfg T stream k).machine.Reachable initial p)
    (hend : Settled k p) : Ready cfg.handshakeHeader p.shared.peers k := by
  have hduty := Program.reachable_duty (P := plainProgram cfg T stream k) (ι := Unit)
    (D := fun s _ => k < s.peers.length) (S := fun s _ => Ready cfg.handshakeHeader s.peers k)
    (H := fun g _ => g.greets k = true) (by simp [initial]) ?_ hreach (x := ()) hend.1
  · rcases hduty with hready | ⟨g, hg, hgreets⟩
    · exact hready
    · have hnone := hend.2 g hg
      unfold Goroutine.greets at hgreets
      split at hgreets <;> simp_all [Goroutine.handles]
  · intro u hu s' g g' new a hg hs _
    obtain ⟨hgood, hmove⟩ := plain_step hs
    refine ⟨fun hk => ?_, fun hready => hready.mono hmove, hmove.greets hgood⟩
    rcases hmove.length_peers with hlen | ⟨-, rfl, -, hpeers⟩
    · exact Or.inl (hlen ▸ hk)
    · rw [hpeers, List.length_append, List.length_singleton] at hk
      rcases Nat.lt_succ_iff_lt_or_eq.mp hk with hlt | rfl
      · exact Or.inl hlt
      · exact Or.inr (Or.inr ⟨_, List.mem_cons_self, beq_self_eq_true _⟩)

/-- Nobody writes to a settled peer. -/
theorem Settled.unlocked (hend : Settled k p)
    (hreach : (plainProgram cfg T stream k).machine.Reachable initial p)
    (hk : p.shared.peers[k]? = some peer) : peer.writeMu = false := by
  by_contra hlocked
  rw [Bool.not_eq_false] at hlocked
  have hserver := reachable_of_plain hreach
  obtain ⟨g, hg, hholds⟩ := exists_holder hserver hk hlocked
  have hserves := (hend.idle hserver g hg).2
  have hquiet := (plain_quiet hreach).2 g hg
  cases g with
  | request j req data pc =>
      have hj : j ≠ k := fun hj => by simp [Goroutine.serves, hj] at hserves
      cases pc with
      | write => simp [Goroutine.holds, Goroutine.writing, hj] at hholds
      | _ => cases hholds
  | push => cases hquiet
  | _ => cases hholds

/-- When the connection is over, its client can receive the handshake reply and the frames
    written, each of them whole. -/
theorem plain_received (hreach : (plainProgram cfg T stream k).machine.Reachable initial p)
    (hend : Settled k p) :
    p.shared.receivedBy k = cfg.handshakeHeader ++ (p.shared.framesTo k).flatMap frameBytes := by
  obtain ⟨peer, hk, hready⟩ := plain_ready hreach hend
  simp only [Shared.receivedBy, Shared.framesTo, hk, Option.map_some, Option.getD_some]
  exact (((plain_output hreach).1 k peer hk).between hready (plain_unfailed hreach peer hk)
    (hend.unlocked hreach hk)).received_eq

end Protocomm.Go.Server
