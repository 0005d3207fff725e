import Protocomm.Go.Server.Answers
import Protocomm.Go.Server.Lifecycle
import Protocomm.Misc.Restrict
import Protocomm.RequestStream

/-!
# A stream of requests to the Go server

The runs of a server in which one client sends a given stream after the handshake. When
its connection is over, every request of the stream was handed to its handler once and
answered once. The goroutines of the requests finish in any order, so that only the
number of the responses of each kind is counted.
-/

namespace Protocomm.Go.Server

open Misc

/-- The steps of a server while the client of peer `k` sends `stream` after a successful
    handshake and the connection accepts all writes. The methods of `T` are registered
    before the peer is accepted; nothing is pushed and the server is not shut down. -/
def plain (cfg : Config) (T : Table) (stream : Bytes) (k : Nat) (s : Shared) :
    Goroutine → Action → Bool
  | .app, .registerMethod _ => decide (s.peers.length ≤ k)
  | .app, .closePeer j => j != k
  | .app, _ => false
  | .acceptLoop .accept, .accepted => s.peers.length != k || T.registered s.handlers
  | .handleConn j .readHandshake, .readFull (.ok received) =>
      j != k || received == cfg.handshakeHeader
  | .handleConn j .readHandshake, .readFull (.error _) => j != k
  | .handleConn j .onHandshake, .answer accept => j != k || accept
  | .handleConn j .writeHandshake, .wrote _ err => j != k || err.isNone
  | .handleConn j .read, .readFrame r =>
      j != k || delivers (readFrame (unread stream (s.readsOf k))) r
  | .request j hdr payload (.running _), .returned response st =>
      j != k || T.returns (hdr, payload) (response, st)
  | .request j _ _ (.write _ _ _), .wrote _ err => j != k || err.isNone
  | _, _ => true

/-- The server with plain steps only. -/
def plainProgram (cfg : Config) (T : Table) (stream : Bytes) (k : Nat) :
    Program Shared Goroutine Action :=
  (program cfg).restrict (plain cfg T stream k)

/-- The `handleConn` of peer `k` has returned. -/
def Settled (k : Nat) (p : Pool Shared Goroutine) : Prop :=
  k < p.shared.peers.length ∧ ∀ g ∈ p.threads, g.handles k = 0

/-- What the handlers were given for peer `k`. -/
def Shared.callsOf (k : Nat) (s : Shared) : List (UInt32 × UInt32 × Bytes) :=
  (s.runs.filter fun r => r.peer == k).map fun r => (r.callID, r.methodID, r.request)

/-- The frames written to peer `k`. -/
def Shared.framesTo (k : Nat) (s : Shared) : List (FrameHeader × Bytes) :=
  (s.peers[k]?.map fun peer => peer.out.frames).getD []

variable {cfg : Config} {T : Table} {stream : Bytes} {k : Nat} {s s' : Shared}
  {g g' : Goroutine} {a : Action} {new : List Goroutine} {p : Pool Shared Goroutine}

theorem plain_step (h : (plainProgram cfg T stream k).step s g a = some (s', g', new)) :
    plain cfg T stream k s g a = true ∧ Move cfg s g a s' g' new :=
  (Program.restrict_step.mp h).imp_right step_move

theorem reachable_of_plain (h : (plainProgram cfg T stream k).machine.Reachable initial p) :
    (machine cfg).Reachable initial p :=
  Program.reachable_of_restrict h

/-! ## The server meanwhile -/

/-- The goroutine belongs to no push and no shutdown. -/
def Goroutine.quiet : Goroutine → Bool
  | .push _ _ _ _ | .shutdown _ => false
  | _ => true

theorem plain_quiet (hreach : (plainProgram cfg T stream k).machine.Reachable initial p) :
    p.shared.done = false ∧ ∀ g ∈ p.threads, g.quiet = true := by
  refine Program.reachable_local (P := plainProgram cfg T stream k)
    (I := fun s => s.done = false) (J := fun _ g => g.quiet = true)
    ⟨rfl, by simp [initial, Goroutine.quiet]⟩ ?_ hreach
  intro u _ s' g g' new rest a _ hdone hquiet hs
  obtain ⟨hgood, hmove⟩ := plain_step hs
  suffices h : s'.done = false ∧ g'.quiet = true ∧ ∀ v ∈ new, v.quiet = true from
    ⟨h.1, h.2.1, h.2.2, fun _ _ hv => hv⟩
  cases hmove with
  | send | broadcast | callShutdown => cases hgood
  | pushDone | pick | pushWrite | pushUnlock | shutdownAgain | shutdownFirst | closeListener
  | sweep | shutdownDone => cases hquiet
  | spawn | spawnRequest => exact ⟨hdone, rfl, List.forall_mem_singleton.mpr rfl⟩
  | _ => exact ⟨hdone, rfl, List.forall_mem_nil _⟩

/-- Once the peer is accepted the methods of `T` are registered. -/
theorem plain_table (hreach : (plainProgram cfg T stream k).machine.Reachable initial p)
    (hk : k < p.shared.peers.length) (m : UInt32) :
    (p.shared.handlers.lookup m).isSome = (T.lookup m).isSome := by
  revert m
  revert hk
  refine Program.reachable_shared (P := plainProgram cfg T stream k)
    (I := fun s => k < s.peers.length → ∀ m, (s.handlers.lookup m).isSome = (T.lookup m).isSome)
    (by simp [initial]) ?_ hreach
  intro u _ s' g g' new a _ hI hs hk
  obtain ⟨hgood, hmove⟩ := plain_step hs
  cases hmove with
  | registerMethod => exact absurd hk (Nat.not_lt.mpr (of_decide_eq_true hgood))
  | accept =>
      by_cases hold : k < u.shared.peers.length
      · exact hI hold
      · have hlength : u.shared.peers.length = k := by
          rw [List.length_append, List.length_singleton] at hk
          omega
        exact Table.isSome_lookup_of_registered (by simpa [plain, hlength] using hgood)
  | sweep => exact hI (by rwa [length_sweep] at hk)
  | _ => exact hI (by simpa [Shared.setPeer, Shared.log, Shared.setResult] using hk)

/-- The method of a request of peer `k` that is given to a handler is in `T`. -/
def Goroutine.Has (T : Table) (k : Nat) : Goroutine → Prop
  | .request j hdr payload (.call _) | .request j hdr payload (.running _) =>
      j = k → T.has (hdr, payload) = true
  | _ => True

theorem plain_has (hreach : (plainProgram cfg T stream k).machine.Reachable initial p) :
    (∀ r ∈ p.shared.runs, r.peer = k → r.methodID ∈ T) ∧
      ∀ g ∈ p.threads, g.Has T k := by
  refine Program.reachable_local (P := plainProgram cfg T stream k)
    (I := fun s => ∀ r ∈ s.runs, r.peer = k → r.methodID ∈ T)
    (J := fun _ g => g.Has T k) ⟨List.forall_mem_nil _, by simp [initial, Goroutine.Has]⟩ ?_ hreach
  intro u hu s' g g' new rest a hperm hruns hhas hs
  obtain ⟨-, hmove⟩ := plain_step hs
  have hg : g ∈ u.threads := hperm.mem_iff.mpr List.mem_cons_self
  suffices h : (∀ r ∈ s'.runs, r.peer = k → r.methodID ∈ T) ∧ g'.Has T k ∧
      ∀ v ∈ new, v.Has T k from ⟨h.1, h.2.1, h.2.2, fun _ _ hv => hv⟩
  cases hmove with
  | lookup j hdr payload handler hlookup =>
      refine ⟨hruns, ?_, List.forall_mem_nil _⟩
      rintro rfl
      have hlt := ((reachable_placed (reachable_of_plain hu)).2 _ hg).lt rfl
      rw [Table.has, ← plain_table hu hlt, hlookup]
      rfl
  | call j hdr payload handler =>
      refine ⟨fun r hr => ?_, hhas, List.forall_mem_nil _⟩
      rcases List.mem_append.mp hr with hr | hr
      · exact hruns r hr
      · rw [List.mem_singleton.mp hr]
        exact fun hj => AList.lookup_isSome.mp (hhas hj)
  | returned j hdr payload i response st =>
      refine ⟨fun r hr => ?_, trivial, List.forall_mem_nil _⟩
      obtain ⟨n, hn⟩ := List.mem_iff_getElem?.mp hr
      simp only [Shared.setResult, Shared.log, List.getElem?_modify, Option.map_eq_map,
        Option.map_eq_some_iff] at hn
      obtain ⟨r₀, hr₀, rfl⟩ := hn
      have hold := hruns r₀ (List.mem_of_getElem? hr₀)
      by_cases hi : i = n
      · simpa only [hi, if_true] using hold
      · simpa only [hi, if_false] using hold
  | requestUnlock hdr payload rhdr rpayload err pc hpeer hpc =>
      refine ⟨hruns, ?_, List.forall_mem_nil _⟩
      rcases hpc with rfl | rfl <;> trivial
  | send | broadcast | callShutdown | spawn | spawnRequest =>
      exact ⟨hruns, trivial, List.forall_mem_singleton.mpr trivial⟩
  | _ => exact ⟨hruns, trivial, List.forall_mem_nil _⟩

/-! ## Reading the stream -/

/-- How much of the stream was read when `handleConn` is at a place. -/
def Handling.Reads (stream : Bytes) (reads : List (FrameHeader × Bytes)) : Handling → Prop
  | .onConnect | .readHandshake | .onHandshake | .writeHandshake => reads = []
  | .read | .acquire _ _ | .spawn _ _ => reads <+: requestsOf stream
  | _ => reads.filter isRequest = requestsOf stream

/-- A goroutine of connection `k` has read a part of the stream. -/
def Goroutine.Reads (stream : Bytes) (k : Nat) (s : Shared) : Goroutine → Prop
  | .acceptLoop (.insert j) | .acceptLoop (.spawn j) => j = k → s.readsOf k = []
  | .handleConn j pc => j = k → pc.Reads stream (s.readsOf k)
  | _ => True

theorem Goroutine.Reads.of_unhandled (h : g.handles k = 0) : g.Reads stream k s := by
  cases g with
  | acceptLoop pc =>
      cases pc with
      | accept => trivial
      | insert j | spawn j => exact fun hj => absurd h (by simp [Goroutine.handles, hj])
  | handleConn j pc => exact fun hj => absurd h (by simp [Goroutine.handles, hj])
  | _ => trivial

/-- A step of a goroutine establishes what it and the goroutines it starts have read. -/
theorem Move.readsStream (h : Move cfg s g a s' g' new)
    (hgood : plain cfg T stream k s g a = true) (hdone : s.done = false)
    (hg : g.Reads stream k s) :
    g'.Reads stream k s' ∧ ∀ v ∈ new, v.Reads stream k s' := by
  have hnil : ∀ v ∈ ([] : List Goroutine), v.Reads stream k s' := List.forall_mem_nil _
  rcases h.readsOf k with hsame | ⟨hdr, payload, rfl, rfl, hadd, rfl, rfl⟩
  · cases h with
    | accept =>
        refine ⟨?_, hnil⟩
        rintro rfl
        simp [Shared.readsOf]
    | insert => exact ⟨fun hj => hsame.trans (hg hj), hnil⟩
    | spawn => exact ⟨trivial, List.forall_mem_singleton.mpr hg⟩
    | connectNoHeader => exact ⟨fun hj => by rw [hsame, hg hj]; exact List.nil_prefix, hnil⟩
    | connect => exact ⟨hg, hnil⟩
    | handshakeFailed j e => exact ⟨fun hj => by simp [plain, hj] at hgood, hnil⟩
    | handshakeMismatch received hpeer hne =>
        exact ⟨fun hj => absurd (by simpa [plain, hj] using hgood) hne, hnil⟩
    | handshakeAsk | handshakeOK | answerYes => exact ⟨fun hj => hsame.trans (hg hj), hnil⟩
    | answerNo j => exact ⟨fun hj => by simp [plain, hj] at hgood, hnil⟩
    | reply => exact ⟨fun hj => by rw [hsame, hg hj]; exact List.nil_prefix, hnil⟩
    | replyFailed n e => exact ⟨fun hj => by simp [plain, hj] at hgood, hnil⟩
    | readFailed j e =>
        refine ⟨fun hj => ?_, hnil⟩
        rcases next_request (hg hj) (by simpa [plain, hj] using hgood) with ⟨f, hf, -⟩ | ⟨-, hall⟩
        · cases hf
        · exact (filter_isRequest (hg hj)).trans hall.symm
    | @readOther j peer hdr payload hpeer | @read j peer hdr payload hpeer =>
        refine ⟨?_, hnil⟩
        rintro rfl
        simp only [Shared.readsOf, Shared.setPeer, getElem?_set_of_some _ hpeer, hpeer,
          Option.map_some, Option.getD_some] at hsame
        simpa using congrArg List.length hsame
    | acquire | onDisconnect | delete => exact ⟨hg, hnil⟩
    | acquireQuit j hdr payload hbad => cases hdone.symm.trans hbad
    | spawnRequest => exact ⟨fun hj => hsame ▸ hg hj, List.forall_mem_singleton.mpr trivial⟩
    | wait => exact ⟨hg, hnil⟩
    | close => exact ⟨fun hj => hsame ▸ hg hj, hnil⟩
    | send | broadcast | callShutdown => exact ⟨trivial, List.forall_mem_singleton.mpr trivial⟩
    | _ => exact ⟨trivial, hnil⟩
  · refine ⟨fun _ => ?_, hnil⟩
    rw [hadd]
    have hnext := next_request (hg rfl) (by simpa [plain] using hgood)
    rcases hnext with ⟨f, hf, hrequest, hinit⟩ | ⟨hother, hall⟩
    · cases hf
      rw [if_pos (by simpa [isRequest] using hrequest)]
      exact hinit
    · have hno := hother _ rfl
      rw [if_neg (by simpa [isRequest] using hno)]
      simp only [Handling.Reads, List.filter_append, filter_isRequest (hg rfl), hall,
        List.filter_cons, hno, List.filter_nil, Bool.false_eq_true, if_false, List.append_nil]

theorem Move.readsOf_same (h : Move cfg s g a s' g' new) (hg : g.handles k = 0) :
    s'.readsOf k = s.readsOf k := by
  rcases h.readsOf k with hsame | ⟨hdr, payload, rfl, -⟩
  · exact hsame
  · simp [Goroutine.handles] at hg

/-- When the `handleConn` of the peer has returned, exactly the requests of the stream
    were read. -/
theorem plain_reads (hreach : (plainProgram cfg T stream k).machine.Reachable initial p) :
    (∀ g ∈ p.threads, g.Reads stream k p.shared) ∧
      (Settled k p → (p.shared.readsOf k).filter isRequest = requestsOf stream) := by
  suffices h : (∀ g ∈ p.threads, g.Reads stream k p.shared) ∧ (k < p.shared.peers.length →
      (∀ g ∈ p.threads, g.handles k = 0) →
        (p.shared.readsOf k).filter isRequest = requestsOf stream) from
    ⟨h.1, fun hsettled => h.2 hsettled.1 hsettled.2⟩
  refine Program.reachable_bag (P := plainProgram cfg T stream k)
    (K := fun s l => (∀ g ∈ l, g.Reads stream k s) ∧ (k < s.peers.length →
      (∀ g ∈ l, g.handles k = 0) → (s.readsOf k).filter isRequest = requestsOf stream))
    ?_ ?_ ?_ hreach
  · rintro s l l' hl ⟨hreads, hend⟩
    exact ⟨fun g hg => hreads g (hl.mem_iff.mpr hg),
      fun hk hnone => hend hk fun g hg => hnone g (hl.mem_iff.mp hg)⟩
  · simp [initial, Goroutine.Reads]
  rintro u hu s' g g' new rest a hperm ⟨hreads, hend⟩ hs
  obtain ⟨hgood, hmove⟩ := plain_step hs
  have hplain := reachable_of_plain hu
  have hg := hreads g List.mem_cons_self
  obtain ⟨hg', hnew⟩ := hmove.readsStream hgood (plain_quiet hu).1 hg
  refine ⟨fun v hv => ?_, fun hk hnone => ?_⟩
  · rcases List.mem_cons.mp hv with rfl | hv
    · exact hg'
    rcases List.mem_append.mp hv with hv | hv
    · exact hnew v hv
    · by_cases hzero : g.handles k = 0
      · have hold := hreads v (List.mem_cons_of_mem g hv)
        unfold Goroutine.Reads at hold ⊢
        rwa [hmove.readsOf_same hzero]
      · exact .of_unhandled (handles_unique hplain hperm (handles_eq_one hzero) v hv)
  · have hg'0 := hnone g' List.mem_cons_self
    have hnew0 : ∀ v ∈ new, v.handles k = 0 := fun v hv =>
      hnone v (List.mem_cons_of_mem _ (List.mem_append_left _ hv))
    by_cases hzero : g.handles k = 0
    · have hold : k < u.shared.peers.length := by
        rcases hmove.length_peers with hlen | ⟨-, rfl, -, hpeers⟩
        · omega
        · rw [hpeers, List.length_append, List.length_singleton] at hk
          by_contra hge
          have heq : u.shared.peers.length = k := by omega
          simp [Goroutine.handles, heq] at hg'0
      rw [hmove.readsOf_same hzero]
      refine hend hold (List.forall_mem_cons.mpr ⟨hzero, fun v hv => ?_⟩)
      exact hnone v (List.mem_cons_of_mem _ (List.mem_append_right _ hv))
    · obtain ⟨rfl, hpeers, -⟩ := hmove.unhandled (handles_eq_one hzero) hg'0 hnew0
      rw [Shared.readsOf, hpeers]
      exact hg rfl

/-! ## Answering the requests -/

section

variable (v : FrameHeader × Bytes → Nat)

/-- The frames written to peer `k`, counted with a weight. -/
def Shared.written (k : Nat) (s : Shared) : Nat := ((s.framesTo k).map v).sum

/-- The answers to the requests read from peer `k`. -/
def Shared.due (T : Table) (k : Nat) (s : Shared) : Nat :=
  (((s.readsOf k).filter isRequest).map fun req => v (T.answer req)).sum

/-- The response to peer `k` that a goroutine has still to begin. -/
def Goroutine.owes (T : Table) (k : Nat) : Goroutine → Nat
  | .handleConn j (.acquire hdr payload) | .handleConn j (.spawn hdr payload)
  | .request j hdr payload .lookup | .request j hdr payload (.call _)
  | .request j hdr payload (.running _) => if j = k then v (T.answer (hdr, payload)) else 0
  | .request j _ _ (.write rhdr rpayload .lock) | .request j _ _ (.write rhdr rpayload .header) =>
      if j = k then v (rhdr, rpayload) else 0
  | _ => 0

end

/-- A frame is added by the first `Write` of a goroutine. -/
theorem Move.framesTo (h : Move cfg s g a s' g' new) (k : Nat) :
    s'.framesTo k = s.framesTo k ∨
      ∃ hdr payload n err, g.writing = some (k, hdr, payload, .header) ∧ a = .wrote n err ∧
        s'.framesTo k = s.framesTo k ++ [(hdr, payload)] := by
  cases hk : s.peers[k]? with
  | none =>
      left
      cases hk' : s'.peers[k]? with
      | none => simp [Shared.framesTo, hk, hk']
      | some peer' => simp [Shared.framesTo, hk, hk', h.new_peer hk hk']
  | some peer =>
      obtain ⟨peer', hk', hframes⟩ := h.frames hk
      simp only [Shared.framesTo, hk, hk', Option.map_some, Option.getD_some]
      rcases hframes with hsame | ⟨hdr, payload, n, err, hwriting, rfl, -, hadd⟩
      · exact Or.inl hsame
      · exact Or.inr ⟨hdr, payload, n, err, hwriting, rfl, hadd⟩

/-- A whole header begins a frame. -/
theorem framesTo_start {peer : Peer} {hdr : FrameHeader} {payload : Bytes} {n : Nat}
    (hk : s.peers[k]? = some peer) (hwrite : peer.canWrite FrameHeaderSize n none = true) :
    (s.setPeer k (peer.wrote (peer.out.start (hdr, payload) ((serialize hdr).toList.take n))
      none)).framesTo k = s.framesTo k ++ [(hdr, payload)] := by
  obtain ⟨hn, -⟩ := (canWrite_inv hwrite).2.1 rfl
  have hne : ((serialize hdr).toList.take n).isEmpty = false := by
    rw [List.isEmpty_eq_false_iff, hn]
    apply List.ne_nil_of_length_pos
    rw [List.length_take, Vector.length_toList]
    decide
  simp [Shared.framesTo, Shared.setPeer, getElem?_set_of_some _ hk, hk, Peer.wrote, Outlet.fail,
    Outlet.start, hne]

/-- What a handler returns becomes the answer to its request. -/
theorem answer_of_respond {hdr : FrameHeader} {payload response : Bytes} {st : Status}
    (hhas : T.has (hdr, payload) = true)
    (hreturns : T.returns (hdr, payload) (response, st) = true) :
    T.answer (hdr, payload) = (responseHeader hdr (respond response st).1 (respond response st).2,
      (respond response st).2) := by
  rw [Table.answer_of_returns hhas hreturns, respond]
  split <;> rfl

section

variable (v : FrameHeader × Bytes → Nat)

/-- A step that writes no frame to peer `k` and reads none from it hands its response
    on. -/
theorem Move.owes_same (h : Move cfg s g a s' g' new)
    (hgood : plain cfg T stream k s g a = true) (hdone : s.done = false) (hhas : g.Has T k)
    (hmiss : ∀ hdr payload, g = .request k hdr payload .lookup →
      s.handlers.lookup hdr.methodID = none → T.has (hdr, payload) = false)
    (hreads : s'.readsOf k = s.readsOf k) (hframes : s'.framesTo k = s.framesTo k) :
    g'.owes v T k + (new.map (Goroutine.owes v T k)).sum = g.owes v T k := by
  -- a header that is written shows in the frames
  have hstart : ∀ {peer : Peer} {rhdr : FrameHeader} {rpayload : Bytes} {n : Nat},
      s.peers[k]? = some peer → peer.canWrite FrameHeaderSize n none = true →
      (s.setPeer k (peer.wrote (peer.out.start (rhdr, rpayload) ((serialize rhdr).toList.take n))
        none)).framesTo k ≠ s.framesTo k := by
    intro peer rhdr rpayload n hk hwrite hbad
    rw [framesTo_start hk hwrite] at hbad
    simpa using congrArg List.length hbad
  cases h with
  | miss j hdr payload hlookup =>
      by_cases hj : j = k
      · subst hj
        simp [Goroutine.owes, Table.answer_of_has_false (hmiss hdr payload rfl hlookup)]
        rfl
      · simp [Goroutine.owes, hj]
  | returned j hdr payload run response st =>
      by_cases hj : j = k
      · subst hj
        simp [Goroutine.owes, answer_of_respond (hhas rfl) (by simpa [plain] using hgood)]
      · simp [Goroutine.owes, hj]
  | acquireQuit j hdr payload hbad => cases hdone.symm.trans hbad
  | @read j peer hdr payload hpeer htype =>
      have hj : j ≠ k := by
        rintro rfl
        simp only [Shared.readsOf, Shared.setPeer, getElem?_set_of_some _ hpeer, hpeer,
          Option.map_some, Option.getD_some] at hreads
        simpa using congrArg List.length hreads
      simp [Goroutine.owes, hj]
  | spawnRequest hdr payload => simp [Goroutine.owes]
  | @requestWrite j peer peer' _ pc pc' hdr payload rhdr rpayload hpeer hwrite =>
      cases hwrite with
      | lock | payload => rfl
      | header n hwrite hpayload =>
          have hj : j ≠ k := by
            rintro rfl
            exact hstart hpeer hwrite hframes
          simp [Goroutine.owes, hj]
      | headerEnd n err hwrite hend =>
          have hj : j ≠ k := by
            rintro rfl
            obtain rfl : err = none := by simpa [plain] using hgood
            exact hstart hpeer hwrite hframes
          simp [Goroutine.owes, hj]
  | requestUnlock hdr payload rhdr rpayload err pc hpeer hpc =>
      rcases hpc with rfl | rfl <;> rfl
  | _ => rfl

/-- A step adds to the frames written and the responses owed what it adds to the requests
    read. -/
theorem Move.owes (h : Move cfg s g a s' g' new)
    (hgood : plain cfg T stream k s g a = true) (hdone : s.done = false)
    (hquiet : g.quiet = true) (hhas : g.Has T k)
    (hmiss : ∀ hdr payload, g = .request k hdr payload .lookup →
      s.handlers.lookup hdr.methodID = none → T.has (hdr, payload) = false) :
    ∃ gain, s'.due v T k = s.due v T k + gain ∧
      s'.written v k + (g'.owes v T k + (new.map (Goroutine.owes v T k)).sum) =
        s.written v k + g.owes v T k + gain := by
  rcases h.readsOf k with hreads | ⟨hdr, payload, rfl, rfl, hadd, rfl, rfl⟩
  · have hdue : s'.due v T k = s.due v T k + 0 := by rw [Shared.due, hreads]; rfl
    refine ⟨0, hdue, ?_⟩
    rcases h.framesTo k with hframes | ⟨rhdr, rpayload, n, err, hwriting, rfl, hadd⟩
    · rw [h.owes_same v hgood hdone hhas hmiss hreads hframes, Shared.written, hframes]
      rfl
    · have hwritten : s'.written v k = s.written v k + v (rhdr, rpayload) := by
        simp [Shared.written, hadd]
      unfold Goroutine.writing at hwriting
      split at hwriting
      · cases hwriting
        rw [hwritten]
        cases h with
        | requestWrite hdr payload rhdr rpayload hpeer hwrite =>
            cases hwrite with
            | header | headerEnd => simp [Goroutine.owes]
      · cases hquiet
      · cases hwriting
  · have hframes : s'.framesTo k = s.framesTo k := by
      rcases h.framesTo k with hframes | ⟨_, _, _, _, hwriting, -⟩
      · exact hframes
      · cases hwriting
    refine ⟨if hdr.type = FrameRequest then v (T.answer (hdr, payload)) else 0, ?_, ?_⟩
    · rw [Shared.due, hadd, List.filter_append, List.map_append, List.sum_append]
      by_cases htype : hdr.type = FrameRequest <;> simp [isRequest, htype, Shared.due]
    · rw [Shared.written, hframes]
      by_cases htype : hdr.type = FrameRequest <;>
        simp [htype, Goroutine.owes, Shared.written]

/-- A request whose method is not registered is not in `T`. -/
theorem has_of_miss (hreach : (plainProgram cfg T stream k).machine.Reachable initial p)
    {hdr : FrameHeader} {payload : Bytes} (hg : .request k hdr payload .lookup ∈ p.threads)
    (hlookup : p.shared.handlers.lookup hdr.methodID = none) : T.has (hdr, payload) = false := by
  have hlt := ((reachable_placed (reachable_of_plain hreach)).2 _ hg).lt rfl
  rw [Table.has, ← plain_table hreach hlt, hlookup]
  rfl

theorem plain_owes (hreach : (plainProgram cfg T stream k).machine.Reachable initial p) :
    Program.owned (Shared.written v k) (Goroutine.owes v T k) p.shared p.threads =
      p.shared.due v T k := by
  refine Program.reachable_owned (P := plainProgram cfg T stream k) _ _ (Shared.due v T k) rfl ?_
    hreach
  intro u hu s' g g' new rest a hg _ hs
  obtain ⟨hgood, hmove⟩ := plain_step hs
  obtain ⟨hdone, hquiet⟩ := plain_quiet hu
  refine hmove.owes v hgood hdone (hquiet g hg) ((plain_has hu).2 g hg) ?_
  rintro hdr payload rfl hlookup
  exact has_of_miss hu hg hlookup

end

/-- A settled peer has no goroutine left. -/
theorem Settled.idle (h : Settled k p) (hreach : (machine cfg).Reachable initial p) :
    ∀ g ∈ p.threads, g.handles k = 0 ∧ g.serves k = 0 := fun g hg =>
  ⟨h.2 g hg, idle_of_disconnected hreach (reachable_over hreach h.1 h.2).log g hg⟩

/-- In the end the frames written are the answers to the requests of the stream. -/
theorem plain_frames (hreach : (plainProgram cfg T stream k).machine.Reachable initial p)
    (hend : Settled k p) : (p.shared.framesTo k).Perm ((requestsOf stream).map T.answer) := by
  refine perm_of_sum_eq fun v => ?_
  have howned := plain_owes v hreach
  have hnone : (p.threads.map (Goroutine.owes v T k)).sum = 0 := by
    refine List.sum_eq_zero (List.forall_mem_map.mpr fun g hg => ?_)
    obtain ⟨hhandles, hserves⟩ := hend.idle (reachable_of_plain hreach) g hg
    unfold Goroutine.owes
    split
    all_goals first
      | rfl
      | exact if_neg fun hj => by simp [Goroutine.handles, Goroutine.serves, hj] at hhandles hserves
  rw [Program.owned, hnone, Shared.written, Shared.due, (plain_reads hreach).2 hend] at howned
  rw [List.map_map]
  exact howned

/-! ## Running the handlers -/

theorem handled_eq (w : UInt32 × UInt32 × Bytes → Nat) :
    s.handled (fun id m request => w (id, m, request)) k = ((s.callsOf k).map w).sum := by
  rw [Shared.callsOf, List.map_map, sum_filter]
  simp [Shared.handled]

/-- In the end the handlers were given the requests of the stream. -/
theorem plain_calls (hreach : (plainProgram cfg T stream k).machine.Reachable initial p)
    (hend : Settled k p) :
    (p.shared.callsOf k).Perm (((requestsOf stream).filter T.has).map callOf) := by
  refine perm_of_sum_eq fun w => ?_
  -- a method that is not in `T` has no weight, so that no request is lost
  let w' : UInt32 → UInt32 → Bytes → Nat := fun id m request =>
    if (T.lookup m).isSome then w (id, m, request) else 0
  have howned : Program.owned (Shared.handled w' k) (Goroutine.carries w' k) p.shared p.threads =
      p.shared.requests w' k := by
    refine Program.reachable_owned (P := plainProgram cfg T stream k) _ _ (Shared.requests w' k)
      rfl ?_ hreach
    intro u hu s' g g' new rest a hg _ hs
    obtain ⟨-, hmove⟩ := plain_step hs
    obtain ⟨gain, lost, hrequests, hsum, hnone⟩ := hmove.carries w' k
    have hkept : lost = 0 := by
      refine hnone (plain_quiet hu).1 ?_
      rintro hdr payload rfl hlookup
      have hhas := has_of_miss hu hg hlookup
      simp only [Table.has] at hhas
      simp only [weigh, w', hhas, Bool.false_eq_true, if_false]
    rw [hkept, Nat.add_zero] at hsum
    exact ⟨gain, hrequests, hsum⟩
  have hnone : (p.threads.map (Goroutine.carries w' k)).sum = 0 := by
    refine List.sum_eq_zero (List.forall_mem_map.mpr fun g hg => ?_)
    obtain ⟨hhandles, hserves⟩ := hend.idle (reachable_of_plain hreach) g hg
    unfold Goroutine.carries
    split
    all_goals first
      | rfl
      | exact if_neg fun hj => by simp [Goroutine.handles, Goroutine.serves, hj] at hhandles hserves
  have hruns : p.shared.handled w' k = ((p.shared.callsOf k).map w).sum := by
    rw [← handled_eq, Shared.handled, Shared.handled]
    refine congrArg List.sum (List.map_congr_left fun r hr => ?_)
    by_cases hk : r.peer = k
    · simp only [hk, if_true, w', AList.lookup_isSome.mpr ((plain_has hreach).1 r hr hk)]
    · simp only [hk, if_false]
  have hreads := (plain_reads hreach).2 hend
  rw [Program.owned, hnone, hruns, Nat.add_zero] at howned
  rw [howned, ← hreads, List.map_map, sum_filter, sum_filter, Shared.requests]
  refine congrArg List.sum (List.map_congr_left fun f _ => ?_)
  by_cases htype : f.1.type = FrameRequest
  · simp only [isRequest, htype, beq_self_eq_true, if_true]
    rfl
  · simp [isRequest, htype]

end Protocomm.Go.Server
