import Protocomm.Go.Server.Drain
import Protocomm.Misc.Rest

/-!
# The Go server winds down

Left alone, the server comes to rest: callbacks and handlers return, a `Write` returns, and
a closed listener or connection answers with an error. At rest no goroutine waits for
another one: not for a `writeMu`, a token, `inflight` or `wg`. What is left waits for a
client, and after a `Shutdown` that closed every connection in `sessions` nothing is left.
-/

namespace Protocomm.Go.Server

open Misc

variable {cfg : Config} {s s' : Shared} {g g' : Goroutine} {a : Action} {new : List Goroutine}
  {k : Nat} {peer : Peer} {p q : Pool Shared Goroutine}

/-- The connection of peer `k` is closed. -/
def Shared.isClosed (s : Shared) (k : Nat) : Bool := s.peers[k]?.any Peer.closed

/-- The steps that come without a client and without the application. -/
def winds (s : Shared) : Goroutine → Action → Bool
  | .app, _ => false
  | .acceptLoop .accept, .acceptFailed => s.listenerClosed && s.done
  | .acceptLoop .accept, _ => false
  | .handleConn k .readHandshake, .readFull (.error _) => s.isClosed k
  | .handleConn _ .readHandshake, _ => false
  | .handleConn k .read, .readFrame (.error _) => s.isClosed k
  | .handleConn _ .read, _ => false
  | _, _ => true

/-- The server while it winds down. -/
def windingProgram (cfg : Config) : Program Shared Goroutine Action := (program cfg).restrict winds

/-- The server left alone. -/
def winding (cfg : Config) : Machine (Pool Shared Goroutine) (Nat × Action) :=
  (windingProgram cfg).machine

theorem reachable_of_winding (hp : (machine cfg).Reachable initial p)
    (hq : (winding cfg).Reachable p q) : (machine cfg).Reachable initial q :=
  hp.trans (Program.reachable_of_restrict hq)

/-! ## Termination -/

def Writing.left : Writing → Nat
  | .lock => 4
  | .header => 3
  | .payload => 2
  | .unlock _ => 1

/-- The steps to the end of a goroutine and of those it starts. -/
def Goroutine.left : Goroutine → Nat
  | .app => 0
  | .acceptLoop .accept => 1
  | .acceptLoop (.insert _) => 13
  | .acceptLoop (.spawn _) => 12
  | .handleConn _ pc => pc.work
  | .request _ _ _ pc => pc.work
  | .push _ _ todo none => 5 * todo.length + 1
  | .push _ _ todo (some (_, pc)) => 5 * todo.length + 1 + pc.left
  | .shutdown .check => 4
  | .shutdown .closeListener => 3
  | .shutdown .sweep => 2
  | .shutdown .wait => 1
  | .done => 0

theorem WriteMove.left {peer' : Peer} {hdr : FrameHeader} {payload : Bytes} {pc pc' : Writing}
    (h : WriteMove peer hdr payload pc a peer' pc') : pc'.left < pc.left := by
  cases h with
  | _ => simp [Writing.left]

theorem work_write (hdr : FrameHeader) (payload : Bytes) (pc : Writing) :
    (Serving.write hdr payload pc).work = pc.left + 3 := by
  cases pc <;> rfl

/-- Every step but the reads of a frame and the accept loop's brings the server closer to
    its end; the accept loop ends when `done` is closed. -/
theorem step_lowers (hs : step cfg s g a = some (s', g', new)) (happ : g ≠ .app)
    (haccept : g = .acceptLoop .accept → a = .acceptFailed ∧ s.done = true)
    (hread : ∀ f, a ≠ .readFrame (.ok f)) :
    g'.left + (new.map Goroutine.left).sum < g.left := by
  by_cases hg : g = .acceptLoop .accept
  · obtain ⟨rfl, hdone⟩ := haccept hg
    subst hg
    simp only [step, acceptLoopStep, hdone, if_true] at hs
    cases hs
    exact Nat.zero_lt_one
  · cases step_move hs with
    | requestWrite hdr payload rhdr rpayload hpeer hwrite =>
        have hlt := hwrite.left
        simp only [Goroutine.left, work_write, List.map_nil, List.sum_nil]
        omega
    | pushWrite hdr payload todo hpeer hwrite =>
        have hlt := hwrite.left
        simp only [Goroutine.left, List.map_nil, List.sum_nil]
        omega
    | requestUnlock hdr payload rhdr rpayload err pc hpeer hpc =>
        rcases hpc with rfl | rfl <;> simp [Goroutine.left, Serving.work]
    | pick hdr payload todo i k hpick =>
        have hlt := (List.getElem?_eq_some_iff.mp hpick).1
        simp only [Goroutine.left, Writing.left, List.length_eraseIdx_of_lt hlt, List.map_nil,
          List.sum_nil]
        omega
    | send | broadcast | closePeer | registerMethod | callShutdown => exact absurd rfl happ
    | accept | acceptDone | acceptRetry => exact absurd rfl hg
    | readOther | read => exact absurd rfl (hread _)
    | _ => simp [Goroutine.left, Handling.work, Serving.work, Writing.left]

/-- An accepted connection is work for the accept loop and a handler. -/
theorem Move.accept_at (h : Move cfg s g .accepted s' g' new) :
    g = .acceptLoop .accept ∧ g'.left + (new.map Goroutine.left).sum ≤ g.left + 12 := by
  cases h with
  | accept => exact ⟨rfl, Nat.le_refl _⟩
  | requestWrite hdr payload rhdr rpayload hpeer hwrite => cases hwrite
  | pushWrite hdr payload todo hpeer hwrite => cases hwrite

/-- A frame is read by a handler, which has to serve it then. -/
theorem Move.read_at {f : FrameHeader × Bytes} (h : Move cfg s g (.readFrame (.ok f)) s' g' new) :
    ∃ k peer, g = .handleConn k .read ∧ s.peers[k]? = some peer ∧
      s'.readsOf k = s.readsOf k ++ [f] ∧ g'.left + (new.map Goroutine.left).sum ≤ g.left + 12 := by
  cases h with
  | readOther hdr payload hpeer | read hdr payload hpeer =>
      refine ⟨_, _, rfl, hpeer, ?_, by simp [Goroutine.left, Handling.work]⟩
      simp [Shared.readsOf, Shared.setPeer, hpeer, getElem?_set_of_some _ hpeer]
  | requestWrite hdr payload rhdr rpayload hpeer hwrite => cases hwrite
  | pushWrite hdr payload todo hpeer hwrite => cases hwrite

theorem winding_terminates (cfg : Config) : (winding cfg).Terminates := by
  refine Program.terminates_of_work (fun _ => 0) Goroutine.left ?_
  intro s g a s' g' new hs
  obtain ⟨hw, hs⟩ := Program.restrict_step.mp hs
  refine Nat.add_lt_add_left (step_lowers hs ?_ ?_ ?_) 0
  · rintro rfl
    cases hw
  · rintro rfl
    cases a with
    | acceptFailed => exact ⟨rfl, (Bool.and_eq_true_iff.mp hw).2⟩
    | _ => cases hw
  · rintro f rfl
    cases step_move hs with
    | readOther | read => cases hw
    | requestWrite hdr payload rhdr rpayload hpeer hwrite => cases hwrite
    | pushWrite hdr payload todo hpeer hwrite => cases hwrite

/-! ## What the goroutines know -/

/-- The peers a push goes to exist. -/
def Goroutine.Known (n : Nat) : Goroutine → Prop
  | .push _ _ todo now => (∀ k ∈ todo, k < n) ∧ ∀ k pc, now = some (k, pc) → k < n
  | _ => True

theorem Goroutine.Known.mono {m n : Nat} (h : g.Known m) (hle : m ≤ n) : g.Known n := by
  cases g with
  | push hdr payload todo now =>
      exact ⟨fun k hk => (h.1 k hk).trans_le hle, fun k pc hk => (h.2 k pc hk).trans_le hle⟩
  | _ => trivial

theorem Move.known (h : Move cfg s g a s' g' new) (hreg : s.Registered)
    (hg : g.Known s.peers.length) :
    g'.Known s.peers.length ∧ ∀ v ∈ new, v.Known s.peers.length := by
  have hnil : ∀ v ∈ ([] : List Goroutine), v.Known s.peers.length := List.forall_mem_nil _
  cases h with
  | send methodID payload hpeer =>
      refine ⟨trivial, List.forall_mem_singleton.mpr ⟨List.forall_mem_nil _, ?_⟩⟩
      rintro k pc ⟨⟩
      exact (List.getElem?_eq_some_iff.mp hpeer).1
  | broadcast =>
      refine ⟨trivial, List.forall_mem_singleton.mpr ⟨fun k hk => ?_, by simp⟩⟩
      obtain ⟨id, hid⟩ := mem_mapValues.mp hk
      obtain ⟨peer, hpeer, -⟩ := hreg id k hid
      exact (List.getElem?_eq_some_iff.mp hpeer).1
  | pick hdr payload todo i k hpick =>
      refine ⟨⟨fun j hj => hg.1 j (List.mem_of_mem_eraseIdx hj), ?_⟩, hnil⟩
      rintro j pc ⟨⟩
      exact hg.1 k (List.mem_of_getElem? hpick)
  | pushWrite hdr payload todo hpeer =>
      refine ⟨⟨hg.1, ?_⟩, hnil⟩
      rintro j pc ⟨⟩
      exact (List.getElem?_eq_some_iff.mp hpeer).1
  | pushUnlock => exact ⟨⟨hg.1, by simp⟩, hnil⟩
  | callShutdown | spawn | spawnRequest => exact ⟨trivial, List.forall_mem_singleton.mpr trivial⟩
  | _ => exact ⟨trivial, hnil⟩

theorem reachable_known (hreach : (machine cfg).Reachable initial p) :
    ∀ g ∈ p.threads, g.Known p.shared.peers.length := by
  refine (Program.reachable_local (P := program cfg) (I := fun _ => True)
    (J := fun s g => g.Known s.peers.length) ⟨trivial, ?_⟩ ?_ hreach).2
  · simp [initial, Goroutine.Known]
  · intro u hu s' g g' new rest a _ _ hg hs
    have hmove := step_move hs
    obtain ⟨hg', hnew⟩ := hmove.known (reachable_placed hu).1 hg
    exact ⟨trivial, hg'.mono hmove.length_le, fun v hv => (hnew v hv).mono hmove.length_le,
      fun v _ hv => hv.mono hmove.length_le⟩

/-- The peer of a frame that is being written exists. -/
theorem peer_of_writing (hreach : (machine cfg).Reachable initial p) (hg : g ∈ p.threads)
    {hdr : FrameHeader} {payload : Bytes} {pc : Writing}
    (hwriting : g.writing = some (k, hdr, payload, pc)) :
    ∃ peer, p.shared.peers[k]? = some peer := by
  unfold Goroutine.writing at hwriting
  split at hwriting
  · cases hwriting
    obtain ⟨peer, hpeer, -⟩ := (reachable_placed hreach).2 _ hg
    exact ⟨peer, hpeer⟩
  · cases hwriting
    exact ⟨_, List.getElem?_eq_getElem ((reachable_known hreach _ hg).2 _ _ rfl)⟩
  · cases hwriting

/-- How far the `Shutdown` that closed `done` has come. -/
structure Stopping.Pending (s : Shared) (l : List Goroutine) : Prop where
  stopped : s.listenerClosed = true ∨ .shutdown .closeListener ∈ l → s.done = true
  closes : s.done = true → s.listenerClosed = true ∨ .shutdown .closeListener ∈ l
  sweeps : s.listenerClosed = true → s.swept = true ∨ .shutdown .sweep ∈ l

/-- Only `Shutdown` touches what it is about. -/
theorem Move.stopping (h : Move cfg s g a s' g' new) (hg : ∀ pc, g ≠ .shutdown pc) :
    (s'.done = s.done ∧ s'.listenerClosed = s.listenerClosed ∧ s'.swept = s.swept) ∧
      ∀ pc ≠ .check, .shutdown pc ∉ g' :: new := by
  cases h with
  | shutdownAgain | shutdownFirst | closeListener | sweep | shutdownDone => exact absurd rfl (hg _)
  | callShutdown => exact ⟨⟨rfl, rfl, rfl⟩, fun pc hpc => by simpa using hpc⟩
  | _ => exact ⟨⟨rfl, rfl, rfl⟩, by simp⟩

theorem Stopping.Pending.step {rest : List Goroutine} (h : Stopping.Pending s (g :: rest))
    (hmove : Move cfg s g a s' g' new) : Stopping.Pending s' (g' :: (new ++ rest)) := by
  by_cases hg : ∀ pc, g ≠ .shutdown pc
  · obtain ⟨⟨hdone, hclosed, hswept⟩, hnone⟩ := hmove.stopping hg
    have hmem : ∀ pc ≠ .check, .shutdown pc ∈ g' :: (new ++ rest) ↔ .shutdown pc ∈ g :: rest := by
      intro pc hpc
      rw [← List.cons_append, List.mem_append, or_iff_right (hnone pc hpc), List.mem_cons,
        or_iff_right (hg pc).symm]
    constructor
    · rw [hdone, hclosed, hmem _ (by simp)]
      exact h.stopped
    · rw [hdone, hclosed, hmem _ (by simp)]
      exact h.closes
    · rw [hclosed, hswept, hmem _ (by simp)]
      exact h.sweeps
  · rw [not_forall] at hg
    obtain ⟨pc, hpc⟩ := hg
    obtain rfl := not_not.mp hpc
    cases hmove with
    | shutdownFirst hopen =>
        refine ⟨fun _ => rfl, fun _ => Or.inr List.mem_cons_self, fun hclosed => ?_⟩
        cases hopen.symm.trans (h.stopped (Or.inl hclosed))
    | closeListener =>
        exact ⟨fun _ => h.stopped (Or.inr List.mem_cons_self), fun _ => Or.inl rfl,
          fun _ => Or.inr List.mem_cons_self⟩
    | sweep =>
        exact ⟨by simpa [Shared.sweep] using h.stopped, by simpa [Shared.sweep] using h.closes,
          fun _ => Or.inl rfl⟩
    | shutdownAgain | shutdownDone =>
        exact ⟨by simpa using h.stopped, by simpa using h.closes, by simpa using h.sweeps⟩

theorem reachable_pending (hreach : (machine cfg).Reachable initial p) :
    Stopping.Pending p.shared p.threads := by
  refine Program.reachable_bag (P := program cfg) (K := Stopping.Pending) ?_ ?_ ?_ hreach
  · intro s l l' hl h
    exact ⟨fun hstop => h.stopped (hstop.imp_right hl.mem_iff.mpr),
      fun hdone => (h.closes hdone).imp_right hl.mem_iff.mp,
      fun hclosed => (h.sweeps hclosed).imp_right hl.mem_iff.mp⟩
  · exact ⟨by simp [initial], by simp [initial], by simp [initial]⟩
  · intro u hu s' g g' new rest a _ h hs
    exact h.step (step_move hs)

/-! ## At rest -/

/-- The connection takes every `Write`, so only the lock can hold up `WriteFrame`. -/
theorem exists_writeStep (peer : Peer) (hdr : FrameHeader) (payload : Bytes) {pc : Writing}
    (hpc : ∀ err, pc ≠ .unlock err) (hlock : pc = .lock → peer.writeMu = false) :
    ∃ a r, writeStep peer hdr payload pc a = some r := by
  cases pc with
  | lock => exact ⟨.run, _, if_neg (Bool.eq_false_iff.mp (hlock rfl))⟩
  | header =>
      obtain ⟨n, err, hwrite, -⟩ := exists_canWrite peer FrameHeaderSize
      exact ⟨.wrote n err, _, if_pos hwrite⟩
  | payload =>
      obtain ⟨n, err, hwrite, -⟩ := exists_canWrite peer payload.length
      exact ⟨.wrote n err, _, if_pos hwrite⟩
  | unlock err => exact absurd rfl (hpc err)

theorem writer_goes_on (cfg : Config) (hk : s.peers[k]? = some peer) {hdr : FrameHeader}
    {payload : Bytes} {pc : Writing} (hwriting : g.writing = some (k, hdr, payload, pc))
    (hlock : pc = .lock → peer.writeMu = false) :
    ∃ a, winds s g a = true ∧ step cfg s g a ≠ none := by
  unfold Goroutine.writing at hwriting
  split at hwriting
  · cases hwriting
    by_cases hpc : ∃ err, pc = .unlock err
    · obtain ⟨err, rfl⟩ := hpc
      exact ⟨.run, rfl, by simp [step, hk, requestStep]⟩
    · rw [not_exists] at hpc
      obtain ⟨a, r, hr⟩ := exists_writeStep peer hdr payload hpc hlock
      refine ⟨a, rfl, ?_⟩
      cases pc with
      | unlock err => exact absurd rfl (hpc err)
      | _ => simp [step, hk, requestStep, hr]
  · cases hwriting
    by_cases hpc : ∃ err, pc = .unlock err
    · obtain ⟨err, rfl⟩ := hpc
      exact ⟨.run, rfl, by simp [step, hk, pushStep]⟩
    · rw [not_exists] at hpc
      obtain ⟨a, r, hr⟩ := exists_writeStep peer hdr payload hpc hlock
      refine ⟨a, rfl, ?_⟩
      cases pc with
      | unlock err => exact absurd rfl (hpc err)
      | _ => simp [step, hk, pushStep, hr]
  · cases hwriting

/-- The goroutine waits for a client: for a connection, or for bytes on an open one. -/
def Goroutine.Awaits (s : Shared) : Goroutine → Prop
  | .acceptLoop .accept => s.listenerClosed = false
  | .handleConn k .readHandshake | .handleConn k .read => s.isClosed k = false
  | _ => False

section

variable (hreach : (machine cfg).Reachable initial p) (hrest : (winding cfg).AtRest p)

include hrest in
theorem stuck (hg : g ∈ p.threads) (hw : winds p.shared g a = true) :
    step cfg p.shared g a = none :=
  Program.restrict_stuck hrest hg hw

include hreach hrest

theorem rest_unlocked (hk : p.shared.peers[k]? = some peer) : peer.writeMu = false := by
  by_contra hlocked
  obtain ⟨g, hg, hholds⟩ := exists_holder hreach hk (Bool.eq_true_of_not_eq_false hlocked)
  unfold Goroutine.holds at hholds
  split at hholds
  · rename_i j hdr payload pc hwriting
    split at hholds
    · rename_i hpc
      obtain ⟨rfl, hpc⟩ := hpc
      obtain ⟨a, hw, hsome⟩ := writer_goes_on cfg hk hwriting fun hlock => absurd hlock hpc
      exact hsome (stuck hrest hg hw)
    · cases hholds
  · cases hholds

/-- Nobody is inside `WriteFrame`. -/
theorem rest_writing (hg : g ∈ p.threads) : g.writing = none := by
  by_contra hsome
  obtain ⟨⟨k, hdr, payload, pc⟩, hwriting⟩ := Option.ne_none_iff_exists'.mp hsome
  obtain ⟨peer, hk⟩ := peer_of_writing hreach hg hwriting
  obtain ⟨a, hw, hstep⟩ :=
    writer_goes_on cfg hk hwriting fun _ => rest_unlocked hreach hrest hk
  exact hstep (stuck hrest hg hw)

theorem rest_request {hdr : FrameHeader} {payload : Bytes} {pc : Serving} :
    .request k hdr payload pc ∉ p.threads := by
  intro hg
  obtain ⟨peer, hk, -⟩ := (reachable_placed hreach).2 _ hg
  have hs := step_request cfg hk hdr payload pc
  cases pc with
  | lookup =>
      have hnone := (hs .run).symm.trans (stuck hrest hg rfl)
      simp only [requestStep] at hnone
      split at hnone <;> cases hnone
  | running run => cases (hs (.returned [] {})).symm.trans (stuck hrest hg rfl)
  | write rhdr rpayload pc => cases rest_writing hreach hrest hg
  | call | close | release | inflightDone => cases (hs .run).symm.trans (stuck hrest hg rfl)

theorem rest_push {hdr : FrameHeader} {payload : Bytes} {todo : List Nat}
    {now : Option (Nat × Writing)} : .push hdr payload todo now ∉ p.threads := by
  intro hg
  cases now with
  | none =>
      cases todo with
      | nil => cases stuck (a := .run) hrest hg rfl
      | cons k todo => cases stuck (a := .pick 0) hrest hg rfl
  | some now => cases rest_writing hreach hrest hg

theorem rest_handleConn {pc : Handling} (hg : .handleConn k pc ∈ p.threads) :
    (Goroutine.handleConn k pc).Awaits p.shared := by
  obtain ⟨peer, hk, -⟩ := (reachable_placed hreach).2 _ hg
  have hs := step_handleConn cfg hk pc
  have hspawn : ∀ j hdr payload, .handleConn j (.spawn hdr payload) ∉ p.threads := by
    intro j hdr payload hj
    obtain ⟨peer, hk, -⟩ := (reachable_placed hreach).2 _ hj
    cases (step_handleConn cfg hk (.spawn hdr payload) .run).symm.trans (stuck hrest hj rfl)
  cases pc with
  | readHandshake =>
      by_contra hclosed
      cases (hs (.readFull (.error ""))).symm.trans
        (stuck hrest hg (Bool.eq_true_of_not_eq_false hclosed))
  | read =>
      by_contra hclosed
      cases (hs (.readFrame (.error ""))).symm.trans
        (stuck hrest hg (Bool.eq_true_of_not_eq_false hclosed))
  | onConnect =>
      have hnone := (hs .run).symm.trans (stuck hrest hg rfl)
      simp only [handleConnStep] at hnone
      split at hnone <;> cases hnone
  | onHandshake => cases (hs (.answer true)).symm.trans (stuck hrest hg rfl)
  | writeHandshake =>
      obtain ⟨n, err, hwrite, -⟩ := exists_canWrite peer cfg.handshakeHeader.length
      have hnone := (hs (.wrote n err)).symm.trans (stuck hrest hg rfl)
      simp only [handleConnStep, hwrite, if_true] at hnone
      split at hnone <;> cases hnone
  | acquire hdr payload =>
      have hnone := (hs .run).symm.trans (stuck hrest hg rfl)
      simp only [handleConnStep] at hnone
      split at hnone
      · cases hnone
      · rename_i cap hcap
        rw [if_pos (sem_lt hcap hreach (fun _ _ _ _ => rest_request hreach hrest) hspawn)] at hnone
        cases hnone
  | wait =>
      have hzero : peer.inflight = 0 := by
        have hcount := reachable_inflight k hreach
        simp only [Shared.inflightOf, hk] at hcount
        rw [← hcount]
        refine List.sum_eq_zero (List.forall_mem_map.mpr fun v hv => ?_)
        cases v with
        | request => exact absurd hv (rest_request hreach hrest)
        | _ => rfl
      have hnone := (hs .run).symm.trans (stuck hrest hg rfl)
      simp only [handleConnStep, hzero, if_true] at hnone
      cases hnone
  | spawn hdr payload => exact absurd hg (hspawn k hdr payload)
  | onDisconnect | delete | close | wgDone =>
      cases (hs .run).symm.trans (stuck hrest hg rfl)

theorem rest_acceptLoop {pc : Accepting} (hg : .acceptLoop pc ∈ p.threads) :
    (Goroutine.acceptLoop pc).Awaits p.shared := by
  cases pc with
  | accept =>
      by_contra hclosed
      have hclosed := Bool.eq_true_of_not_eq_false hclosed
      have hdone := (reachable_pending hreach).stopped (Or.inl hclosed)
      have hnone := stuck (a := .acceptFailed) hrest hg (by simp [winds, hclosed, hdone])
      simp only [step, acceptLoopStep, hdone, if_true] at hnone
      cases hnone
  | insert k =>
      obtain ⟨peer, hk, -⟩ := (reachable_placed hreach).2 _ hg
      have hnone := stuck (a := .run) hrest hg rfl
      simp only [step, acceptLoopStep, hk] at hnone
      cases hnone
  | spawn k => cases stuck (a := .run) hrest hg rfl

/-- `Shutdown` waits only for goroutines that wait for a client. -/
theorem rest_shutdown {pc : Stopping} (hg : .shutdown pc ∈ p.threads) :
    pc = .wait ∧ ∃ v ∈ p.threads, v.Awaits p.shared := by
  cases pc with
  | check =>
      have hnone := stuck (a := .run) hrest hg rfl
      simp only [step, shutdownStep] at hnone
      split at hnone <;> cases hnone
  | closeListener | sweep => cases stuck (a := .run) hrest hg rfl
  | wait =>
      have hwg : p.shared.wg ≠ 0 := by
        intro hzero
        have hnone := stuck (a := .run) hrest hg rfl
        simp only [step, shutdownStep, hzero, if_true] at hnone
        cases hnone
      refine ⟨rfl, ?_⟩
      by_contra hfree
      apply hwg
      rw [← reachable_wg hreach]
      refine List.sum_eq_zero (List.forall_mem_map.mpr fun v hv => ?_)
      cases v with
      | acceptLoop => exact absurd ⟨_, hv, rest_acceptLoop hreach hrest hv⟩ hfree
      | handleConn => exact absurd ⟨_, hv, rest_handleConn hreach hrest hv⟩ hfree
      | _ => rfl

theorem rest_goroutine (hg : g ∈ p.threads) :
    g = .app ∨ g = .done ∨ g.Awaits p.shared ∨
      g = .shutdown .wait ∧ ∃ v ∈ p.threads, v.Awaits p.shared := by
  cases g with
  | app => exact Or.inl rfl
  | done => exact Or.inr (Or.inl rfl)
  | acceptLoop => exact Or.inr (Or.inr (Or.inl (rest_acceptLoop hreach hrest hg)))
  | handleConn => exact Or.inr (Or.inr (Or.inl (rest_handleConn hreach hrest hg)))
  | request => exact absurd hg (rest_request hreach hrest)
  | push => exact absurd hg (rest_push hreach hrest)
  | shutdown =>
      obtain ⟨rfl, hwaits⟩ := rest_shutdown hreach hrest hg
      exact Or.inr (Or.inr (Or.inr ⟨rfl, hwaits⟩))

/-- After `Shutdown` closed the connections in `sessions`, nobody waits for a client. -/
theorem rest_awaits (hlen : p.shared.peers.length ≤ 2 ^ 64) (hdone : p.shared.done = true)
    (hswept : p.shared.SweptClosed) (hg : g ∈ p.threads) : ¬ g.Awaits p.shared := by
  have hpending := reachable_pending hreach
  have hlistener : p.shared.listenerClosed = true :=
    (hpending.closes hdone).resolve_right fun hmem => by
      cases (rest_shutdown hreach hrest hmem).1
  have hsweep : p.shared.swept = true :=
    (hpending.sweeps hlistener).resolve_right fun hmem => by
      cases (rest_shutdown hreach hrest hmem).1
  have hclosed : ∀ k pc, .handleConn k pc ∈ p.threads → (Goroutine.handleConn k pc).keeps k = 1 →
      p.shared.isClosed k = true := by
    intro k pc hmem hkeeps
    obtain ⟨peer, hk, -⟩ := (reachable_placed hreach).2 _ hmem
    obtain ⟨peer', hk', hyes⟩ :=
      hswept hsweep _ k (lookup_of_keeps hreach hlen hmem hkeeps hk)
    simp [Shared.isClosed, hk', hyes]
  intro hawaits
  unfold Goroutine.Awaits at hawaits
  split at hawaits
  · cases hawaits.symm.trans hlistener
  · cases hawaits.symm.trans (hclosed _ _ hg (if_pos rfl))
  · cases hawaits.symm.trans (hclosed _ _ hg (if_pos rfl))
  · exact hawaits

end

/-- A server left alone comes to rest, whatever it was doing. At rest no goroutine waits
    for a lock, a token or another goroutine: each one has ended or waits for a client, or
    is a `Shutdown` that waits for such a one. Once `done` is closed, and the connections in
    `sessions` are closed since `Shutdown` went through it, every goroutine has ended,
    `Shutdown` has returned, and of every connection the handlers that had started have
    finished, their responses were tried to be written, and `onDisconnect` was called. -/
theorem shutdown_returns (cfg : Config) :
    (winding cfg).Terminates ∧
      ∀ p q, (machine cfg).Reachable initial p → (winding cfg).Reachable p q →
        (winding cfg).AtRest q →
        (∀ g ∈ q.threads, g = .app ∨ g = .done ∨ g.Awaits q.shared ∨
          g = .shutdown .wait ∧ ∃ v ∈ q.threads, v.Awaits q.shared) ∧
        (q.shared.peers.length ≤ 2 ^ 64 → q.shared.done = true → q.shared.SweptClosed →
          (∀ g ∈ q.threads, g = .app ∨ g = .done) ∧ q.shared.sessions = ∅ ∧
            ∀ k < q.shared.peers.length, q.shared.Over k ∧ q.shared.Served k) := by
  refine ⟨winding_terminates cfg, fun p q hp hq hrest => ?_⟩
  have hreach := reachable_of_winding hp hq
  refine ⟨fun g hg => rest_goroutine hreach hrest hg, fun hlen hdone hswept => ?_⟩
  have hnobody : ∀ v ∈ q.threads, ¬ v.Awaits q.shared :=
    fun v hv => rest_awaits hreach hrest hlen hdone hswept hv
  have hended : ∀ g ∈ q.threads, g = .app ∨ g = .done := by
    intro g hg
    rcases rest_goroutine hreach hrest hg with happ | hended | hawaits | ⟨-, v, hv, hawaits⟩
    · exact Or.inl happ
    · exact Or.inr hended
    · exact absurd hawaits (hnobody g hg)
    · exact absurd hawaits (hnobody v hv)
  have hwg : q.shared.wg = 0 := by
    rw [← reachable_wg hreach]
    refine List.sum_eq_zero (List.forall_mem_map.mpr fun g hg => ?_)
    rcases hended g hg with rfl | rfl <;> rfl
  obtain ⟨hempty, hover, -⟩ := over_of_wg_eq_zero hreach hlen hwg
  exact ⟨hended, hempty, hover⟩

theorem atRest_of_ended (cfg : Config) (hended : ∀ g ∈ q.threads, g = .app ∨ g = .done) :
    (winding cfg).AtRest q := by
  intro ia
  by_contra hsome
  obtain ⟨q', hstep⟩ := Option.ne_none_iff_exists'.mp hsome
  obtain ⟨g, g', new, hg, hs, -⟩ := Program.machine_step_eq hstep
  obtain ⟨hw, hs⟩ := Program.restrict_step.mp hs
  rcases hended g (List.mem_of_getElem? hg) with rfl | rfl
  · cases hw
  · cases hs

/-- `Shutdown` is called while a handler runs. -/
theorem shutdown_returns_servedRun :
    ∃ p q, (machine {}).run initial (servedRun.take 12 ++ [(0, .shutdown)]) = some p ∧
      (winding {}).run p ((servedRun.drop 12).take 7 ++ servedRun.drop 20 ++ [(4, .run)]) =
        some q ∧
      (∀ g ∈ q.threads, g = .app ∨ g = .done) ∧ q.shared.Served 0 := by
  have hrun : (((machine {}).run initial (servedRun.take 12 ++ [(0, .shutdown)])).bind fun p =>
      ((winding {}).run p ((servedRun.drop 12).take 7 ++ servedRun.drop 20 ++ [(4, .run)])).map
        fun q => (q.threads, q.shared.peers.length, q.shared.done, mapValues q.shared.sessions)) =
      some ([.app, .done, .done, .done, .done], 1, true, []) := by decide +kernel
  obtain ⟨p, hp, hrun⟩ := Option.bind_eq_some_iff.mp hrun
  obtain ⟨q, hq, hobs⟩ := Option.map_eq_some_iff.mp hrun
  simp only [Prod.mk.injEq] at hobs
  obtain ⟨hthreads, hlen, hdone, hempty⟩ := hobs
  have hrest : (winding {}).AtRest q := atRest_of_ended {} (by rw [hthreads]; decide)
  have hswept : q.shared.SweptClosed := by
    intro _ id k hid
    have hmem := mem_mapValues.mpr ⟨id, hid⟩
    rw [hempty] at hmem
    cases hmem
  obtain ⟨hended, -, hover⟩ := ((shutdown_returns {}).2 p q ⟨_, hp⟩ ⟨_, hq⟩ hrest).2
    (by omega) hdone hswept
  exact ⟨p, q, hp, hq, hended, (hover 0 (by omega)).2⟩

end Protocomm.Go.Server
