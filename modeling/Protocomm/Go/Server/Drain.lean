import Protocomm.Go.Server.Limit
import Protocomm.Go.Server.Plain

/-!
# The end of a stream to the Go server

A connection to which a stream is sent comes to its end: as long as its `handleConn` has
not returned, some goroutine can take a step that lowers the work left. A goroutine that
waits for a lock or for a token waits for a request of some connection, which can go on.
-/

namespace Protocomm.Go.Server

open Misc

variable {cfg : Config} {T : Table} {stream : Bytes} {k : Nat} {s s' : Shared}
  {g g' : Goroutine} {a : Action} {new : List Goroutine} {p : Pool Shared Goroutine}

/-! ## The connection stays open -/

/-- The connection of peer `k` takes bytes. -/
def Shared.isOpen (k : Nat) (s : Shared) : Prop :=
  ∃ peer, s.peers[k]? = some peer ∧ peer.closed = false ∧ peer.out.failed = false

/-- The goroutine of a request has not met an error. -/
def Serving.fine : Serving → Bool
  | .write _ _ (.unlock err) => err.isNone
  | .close => false
  | _ => true

/-- The goroutines of peer `k` find its connection open. -/
def Goroutine.Open (k : Nat) (s : Shared) : Goroutine → Prop
  | .acceptLoop (.insert j) | .acceptLoop (.spawn j) => j = k → s.isOpen k
  | .handleConn j pc => j = k → pc ≠ .wgDone → s.isOpen k
  | .request j _ _ pc => j = k → s.isOpen k ∧ pc.fine = true
  | _ => True

theorem WriteMove.fine {peer peer' : Peer} {hdr : FrameHeader} {payload : Bytes}
    {pc pc' : Writing} (h : WriteMove peer hdr payload pc a peer' pc')
    (hgood : ∀ n err, a = .wrote n err → err = none) :
    peer'.closed = peer.closed ∧ peer'.out.failed = peer.out.failed ∧
      (Serving.write hdr payload pc').fine = true := by
  cases h with
  | lock => exact ⟨rfl, rfl, rfl⟩
  | header n => exact ⟨rfl, by simp [Peer.wrote, Outlet.fail], rfl⟩
  | headerEnd n err =>
      obtain rfl := hgood n err rfl
      exact ⟨rfl, by simp [Peer.wrote, Outlet.fail], rfl⟩
  | payload n err =>
      obtain rfl := hgood n err rfl
      exact ⟨rfl, by simp [Peer.wrote, Outlet.fail, Outlet.more], rfl⟩

/-- Only the `handleConn` of the peer closes its connection. -/
theorem Move.isOpen (h : Move cfg s g a s' g' new)
    (hgood : plain cfg T stream k s g a = true) (hquiet : g.quiet = true)
    (hg : g.Open k s) (hclose : g ≠ .handleConn k .close) (hopen : s.isOpen k) :
    s'.isOpen k := by
  obtain ⟨peer, hk, hclosed, hfailed⟩ := hopen
  have hset : ∀ {j : Nat} {old next : Peer}, s.peers[j]? = some old →
      (j = k → old = peer → next.closed = false ∧ next.out.failed = false) →
      (s.setPeer j next).isOpen k := fun hold hnext =>
    exists_getElem?_set hold hk hnext fun _ => ⟨hclosed, hfailed⟩
  cases h with
  | accept =>
      exact ⟨peer, List.getElem?_append_left (List.getElem?_eq_some_iff.mp hk).1 ▸ hk, hclosed,
        hfailed⟩
  | closePeer hpeer =>
      refine hset hpeer fun hj _ => ?_
      simp [plain, hj] at hgood
  | closeConn hdr payload hpeer =>
      refine hset hpeer fun hj _ => ?_
      cases (hg hj).2
  | @close j _ hpeer =>
      refine hset hpeer fun hj _ => ?_
      exact absurd (hj ▸ rfl) hclose
  | replyFailed n e hpeer =>
      refine hset hpeer fun hj _ => ?_
      simp [plain, hj] at hgood
  | reply n hpeer =>
      refine hset hpeer fun _ hold => ?_
      subst hold
      exact ⟨hclosed, by simpa [Peer.wrote, Outlet.fail, Outlet.reply, Outlet.greet] using hfailed⟩
  | insert hpeer | connectNoHeader hpeer | handshakeMismatch received hpeer
  | handshakeAsk hpeer | handshakeOK hpeer | answerYes hpeer | readOther hdr payload hpeer
  | read hdr payload hpeer | spawnRequest hdr payload hpeer | inflightDone hdr payload hpeer
  | requestUnlock hdr payload rhdr rpayload err pc hpeer =>
      refine hset hpeer fun _ hold => ?_
      subst hold
      exact ⟨hclosed, hfailed⟩
  | requestWrite hdr payload rhdr rpayload hpeer hwrite =>
      refine hset hpeer fun hj hold => ?_
      subst hold
      have hfine := hwrite.fine fun n err ha => by subst ha; simpa [plain, hj] using hgood
      exact ⟨hfine.1.trans hclosed, hfine.2.1.trans hfailed⟩
  | pushWrite | pushUnlock | sweep => cases hquiet
  | _ => exact ⟨peer, hk, hclosed, hfailed⟩

/-- A step of a goroutine leaves its connection open for itself and the goroutines it
    starts. -/
theorem Move.open (h : Move cfg s g a s' g' new)
    (hgood : plain cfg T stream k s g a = true) (hquiet : g.quiet = true)
    (hg : g.Open k s) : g'.Open k s' ∧ ∀ v ∈ new, v.Open k s' := by
  have hkeep : g ≠ .handleConn k .close → s.isOpen k → s'.isOpen k :=
    fun hclose hopen => h.isOpen hgood hquiet hg hclose hopen
  have hnil : ∀ v ∈ ([] : List Goroutine), v.Open k s' := List.forall_mem_nil _
  cases h with
  | accept =>
      refine ⟨?_, hnil⟩
      rintro rfl
      exact ⟨_, List.getElem?_concat_length, rfl, rfl⟩
  | insert => exact ⟨fun hj => hkeep (by simp) (hg hj), hnil⟩
  | spawn => exact ⟨trivial, List.forall_mem_singleton.mpr fun hj _ => hg hj⟩
  | connectNoHeader | connect | handshakeFailed | handshakeMismatch | handshakeAsk | handshakeOK
  | answerYes | answerNo | reply | replyFailed | readFailed | readOther | read | acquire
  | acquireQuit | wait | onDisconnect | delete =>
      exact ⟨fun hj _ => hkeep (by simp) (hg hj (by simp)), hnil⟩
  | spawnRequest =>
      exact ⟨fun hj _ => hkeep (by simp) (hg hj (by simp)),
        List.forall_mem_singleton.mpr fun hj => ⟨hkeep (by simp) (hg hj (by simp)), rfl⟩⟩
  | close => exact ⟨fun _ hne => absurd rfl hne, hnil⟩
  | requestWrite hdr payload rhdr rpayload hpeer hwrite =>
      refine ⟨fun hj => ⟨hkeep (by simp) (hg hj).1, ?_⟩, hnil⟩
      exact (hwrite.fine fun n err ha => by subst ha; simpa [plain, hj] using hgood).2.2
  | requestUnlock hdr payload rhdr rpayload err pc hpeer hpc hclose =>
      refine ⟨fun hj => ⟨hkeep (by simp) (hg hj).1, ?_⟩, hnil⟩
      rcases hpc with rfl | rfl
      · have hnone := (hg hj).2
        rw [Serving.fine, Option.isNone_iff_eq_none] at hnone
        cases hnone ▸ hclose rfl
      · rfl
  | lookup | miss | call | returned | closeConn | release =>
      exact ⟨fun hj => ⟨hkeep (by simp) (hg hj).1, rfl⟩, hnil⟩
  | send | broadcast | callShutdown => exact ⟨trivial, List.forall_mem_singleton.mpr trivial⟩
  | _ => exact ⟨trivial, hnil⟩

theorem plain_open (hreach : (plainProgram cfg T stream k).machine.Reachable initial p) :
    ∀ g ∈ p.threads, g.Open k p.shared := by
  refine (Program.reachable_local (P := plainProgram cfg T stream k) (I := fun _ => True)
    (J := fun s g => g.Open k s) ⟨trivial, by simp [initial, Goroutine.Open]⟩ ?_ hreach).2
  intro u hu s' g g' new rest a hperm _ hg hs
  obtain ⟨hgood, hmove⟩ := plain_step hs
  have hplain := reachable_of_plain hu
  have hmem : g ∈ u.threads := hperm.mem_iff.mpr List.mem_cons_self
  have hquiet := (plain_quiet hu).2 g hmem
  obtain ⟨hg', hnew⟩ := hmove.open hgood hquiet hg
  refine ⟨trivial, hg', hnew, fun v hv hold => ?_⟩
  by_cases hclose : g = .handleConn k .close
  · -- the connection is closed after its last goroutine
    subst hclose
    have hidle := idle_of_disconnected hplain
      (((reachable_inPhase hplain).2 _ hmem).1 k .disconnected rfl) v
      (hperm.mem_iff.mpr (List.mem_cons_of_mem _ hv))
    have hother := handles_unique hplain hperm (if_pos rfl) v hv
    cases v with
    | acceptLoop pc =>
        cases pc with
        | accept => trivial
        | insert j | spawn j => exact fun hj => by simp [Goroutine.handles, hj] at hother
    | handleConn j pc => exact fun hj => by simp [Goroutine.handles, hj] at hother
    | request j hdr payload pc => exact fun hj => by simp [Goroutine.serves, hj] at hidle
    | _ => trivial
  · have hkeep : u.shared.isOpen k → s'.isOpen k := hmove.isOpen hgood hquiet hg hclose
    cases v with
    | acceptLoop pc =>
        cases pc with
        | accept => trivial
        | insert j | spawn j => exact fun hj => hkeep (hold hj)
    | handleConn j pc => exact fun hj hne => hkeep (hold hj hne)
    | request j hdr payload pc => exact fun hj => ⟨hkeep (hold hj).1, (hold hj).2⟩
    | _ => trivial

/-! ## The work left -/

def Serving.work : Serving → Nat
  | .lookup => 10
  | .call _ => 9
  | .running _ => 8
  | .write _ _ .lock => 7
  | .write _ _ .header => 6
  | .write _ _ .payload => 5
  | .write _ _ (.unlock _) => 4
  | .close => 3
  | .release => 2
  | .inflightDone => 1

/-- Without what is still to be read. -/
def Handling.work : Handling → Nat
  | .acquire _ _ => 18
  | .spawn _ _ => 17
  | .onConnect => 10
  | .readHandshake => 9
  | .onHandshake => 8
  | .writeHandshake => 7
  | .read => 6
  | .wait => 5
  | .onDisconnect => 4
  | .delete => 3
  | .close => 2
  | .wgDone => 1

/-- The steps to the end of peer `k`. Of other peers only the requests that hold a token
    count. -/
def Goroutine.work (k : Nat) : Goroutine → Nat
  | .acceptLoop (.insert j) => if j = k then 12 else 0
  | .acceptLoop (.spawn j) => if j = k then 11 else 0
  | .handleConn j (.spawn _ _) => if j = k then 17 else 11
  | .handleConn j pc => if j = k then pc.work else 0
  | .request _ _ _ pc => pc.work
  | _ => 0

/-- The requests still to be read; each costs the steps up to its goroutine. -/
def Shared.reading (stream : Bytes) (k : Nat) (s : Shared) : Nat :=
  13 * ((requestsOf stream).length - (s.readsOf k).length)

/-- Some goroutine can take a step that lowers the work left. -/
def Advances (cfg : Config) (T : Table) (stream : Bytes) (k : Nat) (p : Pool Shared Goroutine) :
    Prop :=
  (plainProgram cfg T stream k).Lowers (Shared.reading stream k) (Goroutine.work k) p

theorem advances (hg : g ∈ p.threads) (hgood : plain cfg T stream k p.shared g a = true)
    (hs : step cfg p.shared g a = some (s', g', new))
    (hlt : s'.reading stream k + (g'.work k + (new.map (Goroutine.work k)).sum) <
      p.shared.reading stream k + g.work k) : Advances cfg T stream k p :=
  Program.lowers_of_step hg (Program.restrict_step.mpr ⟨hgood, hs⟩) hlt

/-- A step other than a read. -/
theorem advances_of_work (hg : g ∈ p.threads)
    (hgood : plain cfg T stream k p.shared g a = true)
    (hs : step cfg p.shared g a = some (s', g', new)) (hread : g ≠ .handleConn k .read)
    (hlt : g'.work k + (new.map (Goroutine.work k)).sum < g.work k) :
    Advances cfg T stream k p := by
  refine advances hg hgood hs ?_
  rcases (step_move hs).readsOf k with hsame | ⟨hdr, payload, hbad, -⟩
  · rw [Shared.reading, hsame]
    exact Nat.add_lt_add_left hlt _
  · exact absurd hbad hread

/-- A connection can take a `Write`; one that is closed or has failed takes nothing. -/
theorem exists_canWrite (peer : Peer) (len : Nat) :
    ∃ n err, peer.canWrite len n err = true ∧
      (peer.closed = false → peer.out.failed = false → err = none) := by
  by_cases hopen : peer.closed = false ∧ peer.out.failed = false
  · exact ⟨len, none, by simp [Peer.canWrite, hopen.1, hopen.2], fun _ _ => rfl⟩
  · refine ⟨0, some "", by simp [Peer.canWrite], fun hc hf => absurd ⟨hc, hf⟩ hopen⟩

theorem step_request (cfg : Config) {j : Nat} {peer : Peer} (hpeer : s.peers[j]? = some peer)
    (hdr : FrameHeader) (payload : Bytes) (pc : Serving) (a : Action) :
    step cfg s (.request j hdr payload pc) a = requestStep cfg s j peer hdr payload pc a := by
  simp only [step, hpeer]

theorem step_handleConn (cfg : Config) {peer : Peer} (hpeer : s.peers[k]? = some peer)
    (pc : Handling) (a : Action) :
    step cfg s (.handleConn k pc) a = handleConnStep cfg s k peer pc a := by
  simp only [step, hpeer]

theorem work_header_next (hdr : FrameHeader) (payload : Bytes) (err : Option String) :
    (Serving.write hdr payload (Writing.header.next payload err)).work < 6 := by
  unfold Writing.next
  split
  · split <;> simp [Serving.work]
  · simp [Serving.work]

section

variable (hreach : (plainProgram cfg T stream k).machine.Reachable initial p)
include hreach

/-- The goroutine of a request that does not wait for a lock goes on. -/
theorem advances_request {j : Nat} {hdr : FrameHeader} {payload : Bytes} {pc : Serving}
    (hg : .request j hdr payload pc ∈ p.threads)
    (hpc : ∀ rhdr rpayload, pc ≠ .write rhdr rpayload .lock) : Advances cfg T stream k p := by
  obtain ⟨peer, hpeer, -⟩ := (reachable_placed (reachable_of_plain hreach)).2 _ hg
  have hopen : j = k → peer.closed = false ∧ peer.out.failed = false := by
    intro hj
    obtain ⟨peer', hk, hopen⟩ := (plain_open hreach _ hg hj).1
    subst hj
    cases hpeer.symm.trans hk
    exact hopen
  have hs := step_request cfg hpeer hdr payload pc
  cases pc with
  | lookup =>
      have hs := hs .run
      cases hlookup : p.shared.handlers.lookup hdr.methodID with
      | none =>
          simp only [requestStep, hlookup] at hs
          exact advances_of_work hg rfl hs (by simp) (by simp [Goroutine.work, Serving.work])
      | some handler =>
          simp only [requestStep, hlookup] at hs
          exact advances_of_work hg rfl hs (by simp) (by simp [Goroutine.work, Serving.work])
  | call handler =>
      exact advances_of_work hg rfl (hs .run) (by simp) (by simp [Goroutine.work, Serving.work])
  | running run =>
      -- the handler returns what `T` says
      obtain ⟨response, st, hreturns⟩ := T.exists_returns (hdr, payload)
      exact advances_of_work hg (by simp [plain, hreturns]) (hs (.returned response st)) (by simp)
        (by simp [Goroutine.work, Serving.work])
  | write rhdr rpayload pc =>
      have hgood : ∀ n err, (peer.closed = false → peer.out.failed = false → err = none) →
          plain cfg T stream k p.shared (.request j hdr payload (.write rhdr rpayload pc))
            (.wrote n err) = true := by
        intro n err hnone
        by_cases hj : j = k
        · simp [plain, hnone (hopen hj).1 (hopen hj).2]
        · simp [plain, hj]
      cases pc with
      | lock => exact absurd rfl (hpc rhdr rpayload)
      | header =>
          obtain ⟨n, err, hwrite, hnone⟩ := exists_canWrite peer FrameHeaderSize
          have hs := hs (.wrote n err)
          simp only [requestStep, writeStep, hwrite, if_true] at hs
          exact advances_of_work hg (hgood n err hnone) hs (by simp)
            (work_header_next rhdr rpayload err)
      | payload =>
          obtain ⟨n, err, hwrite, hnone⟩ := exists_canWrite peer rpayload.length
          have hs := hs (.wrote n err)
          simp only [requestStep, writeStep, hwrite, if_true] at hs
          exact advances_of_work hg (hgood n err hnone) hs (by simp)
            (by simp [Goroutine.work, Serving.work, Writing.next])
      | unlock err =>
          refine advances_of_work hg rfl (hs .run) (by simp) ?_
          split <;> simp [Goroutine.work, Serving.work]
  | close | release =>
      exact advances_of_work hg rfl (hs .run) (by simp) (by simp [Goroutine.work, Serving.work])
  | inflightDone =>
      exact advances_of_work hg rfl (hs .run) (by simp) (by simp [Goroutine.work, Serving.work])

/-- While a request is served, work is done. -/
theorem advances_of_request {j : Nat} {hdr : FrameHeader} {payload : Bytes} {pc : Serving}
    (hg : .request j hdr payload pc ∈ p.threads) : Advances cfg T stream k p := by
  by_cases hlock : ∃ rhdr rpayload, pc = .write rhdr rpayload .lock
  · obtain ⟨rhdr, rpayload, rfl⟩ := hlock
    have hplain := reachable_of_plain hreach
    obtain ⟨peer, hpeer, -⟩ := (reachable_placed hplain).2 _ hg
    cases hfree : peer.writeMu with
    | false =>
        have hs := step_request cfg hpeer hdr payload (.write rhdr rpayload .lock) .run
        simp only [requestStep, writeStep, hfree, Bool.false_eq_true, if_false] at hs
        exact advances_of_work hg rfl hs (by simp) (by simp [Goroutine.work, Serving.work])
    | true =>
        -- the holder of the lock is inside `WriteFrame` for another request
        obtain ⟨v, hv, hholds⟩ := exists_holder hplain hpeer hfree
        have hquiet := (plain_quiet hreach).2 v hv
        cases v with
        | request i hdr' payload' pc' =>
            refine advances_request hreach hv ?_
            rintro rhdr rpayload rfl
            simp [Goroutine.holds, Goroutine.writing] at hholds
        | push => cases hquiet
        | _ => cases hholds
  · exact advances_request hreach hg fun rhdr rpayload hpc => hlock ⟨rhdr, rpayload, hpc⟩

theorem advances_of_spawn {j : Nat} {hdr : FrameHeader} {payload : Bytes}
    (hg : .handleConn j (.spawn hdr payload) ∈ p.threads) : Advances cfg T stream k p := by
  obtain ⟨peer, hpeer, -⟩ := (reachable_placed (reachable_of_plain hreach)).2 _ hg
  refine advances_of_work hg rfl (step_handleConn cfg hpeer _ .run) (by simp) ?_
  by_cases hj : j = k <;> simp [Goroutine.work, Serving.work, Handling.work, hj]

/-- The `handleConn` of the peer reads on. -/
theorem advances_read (hg : .handleConn k .read ∈ p.threads) : Advances cfg T stream k p := by
  obtain ⟨peer, hpeer, -⟩ := (reachable_placed (reachable_of_plain hreach)).2 _ hg
  obtain ⟨peer', hk, hopen, -⟩ := plain_open hreach _ hg rfl (by simp)
  cases hpeer.symm.trans hk
  obtain ⟨r, hr⟩ := exists_delivers (readFrame (unread stream (p.shared.readsOf k)))
  have hgood : plain cfg T stream k p.shared (.handleConn k .read) (.readFrame r) = true := by
    simp [plain, hr]
  have hs := step_handleConn cfg hpeer .read (.readFrame r)
  have hadd : ∀ {next : Peer} {f : FrameHeader × Bytes}, next.reads = peer.reads ++ [f] →
      (p.shared.setPeer k next).reading stream k =
        13 * ((requestsOf stream).length - ((p.shared.readsOf k).length + 1)) := by
    intro next f hnext
    simp [Shared.reading, Shared.readsOf, Shared.setPeer, getElem?_set_of_some _ hpeer, hpeer,
      hnext]
  rcases next_request ((plain_reads hreach).1 _ hg rfl) hr with
    ⟨⟨hdr, payload⟩, rfl, hrequest, hinit⟩ | ⟨hother, -⟩
  · have htype : hdr.type = FrameRequest := by simpa [isRequest] using hrequest
    simp only [handleConnStep, hopen, Bool.false_eq_true, if_false, htype, ne_eq,
      not_true_eq_false] at hs
    refine advances hg hgood hs ?_
    have hlen := hinit.length_le
    rw [List.length_append, List.length_singleton] at hlen
    rw [hadd rfl, Shared.reading]
    simp only [Goroutine.work, if_true, Handling.work, List.map_nil, List.sum_nil]
    omega
  · cases r with
    | error e => exact advances hg hgood hs (by simp [Goroutine.work, Handling.work])
    | ok f =>
        obtain ⟨hdr, payload⟩ := f
        have htype : hdr.type ≠ FrameRequest := by simpa [isRequest] using hother _ rfl
        simp only [handleConnStep, hopen, Bool.false_eq_true, if_false, htype, ne_eq,
          not_false_eq_true, if_true] at hs
        refine advances hg hgood hs ?_
        rw [hadd rfl, Shared.reading]
        simp only [Goroutine.work, if_true, Handling.work, List.map_nil, List.sum_nil]
        omega

/-- The `handleConn` of the peer goes on when no request is served. -/
theorem advances_handleConn {pc : Handling} (hg : .handleConn k pc ∈ p.threads)
    (hrequests : ∀ j hdr payload pc, .request j hdr payload pc ∉ p.threads)
    (hspawns : ∀ j hdr payload, .handleConn j (.spawn hdr payload) ∉ p.threads) :
    Advances cfg T stream k p := by
  have hplain := reachable_of_plain hreach
  obtain ⟨peer, hpeer, -⟩ := (reachable_placed hplain).2 _ hg
  have hopen : pc ≠ .wgDone → peer.closed = false ∧ peer.out.failed = false := by
    intro hpc
    obtain ⟨peer', hk, hopen⟩ := plain_open hreach _ hg rfl hpc
    cases hpeer.symm.trans hk
    exact hopen
  have hs := step_handleConn cfg hpeer pc
  cases pc with
  | onConnect =>
      have hs := hs .run
      by_cases hheader : cfg.handshakeHeader = []
      · simp only [handleConnStep, hheader, if_true] at hs
        exact advances_of_work hg rfl hs (by simp) (by simp [Goroutine.work, Handling.work])
      · simp only [handleConnStep, hheader, if_false] at hs
        exact advances_of_work hg rfl hs (by simp) (by simp [Goroutine.work, Handling.work])
  | readHandshake =>
      have hs := hs (.readFull (.ok cfg.handshakeHeader))
      cases hset : cfg.onHandshake with
      | true =>
          simp [handleConnStep, hset, (hopen (by simp)).1] at hs
          exact advances_of_work hg (by simp [plain]) hs (by simp)
            (by simp [Goroutine.work, Handling.work])
      | false =>
          simp [handleConnStep, hset, (hopen (by simp)).1] at hs
          exact advances_of_work hg (by simp [plain]) hs (by simp)
            (by simp [Goroutine.work, Handling.work])
  | onHandshake =>
      exact advances_of_work hg (by simp [plain]) (hs (.answer true)) (by simp)
        (by simp [Goroutine.work, Handling.work])
  | writeHandshake =>
      obtain ⟨n, err, hwrite, hnone⟩ := exists_canWrite peer cfg.handshakeHeader.length
      obtain rfl := hnone (hopen (by simp)).1 (hopen (by simp)).2
      have hs := hs (.wrote n none)
      simp only [handleConnStep, hwrite, if_true] at hs
      exact advances_of_work hg (by simp [plain]) hs (by simp)
        (by simp [Goroutine.work, Handling.work])
  | read => exact advances_read hreach hg
  | acquire hdr payload =>
      have hs := hs .run
      cases hcap : cfg.sem with
      | none =>
          simp only [handleConnStep, hcap] at hs
          exact advances_of_work hg rfl hs (by simp) (by simp [Goroutine.work, Handling.work])
      | some cap =>
          simp only [handleConnStep, hcap, sem_lt hcap hplain hrequests hspawns, if_true] at hs
          exact advances_of_work hg rfl hs (by simp) (by simp [Goroutine.work, Handling.work])
  | spawn hdr payload => exact absurd hg (hspawns k hdr payload)
  | wait =>
      have hidle : peer.inflight = 0 := by
        have hsum := reachable_inflight k hplain
        simp only [Shared.inflightOf, hpeer] at hsum
        rw [← hsum]
        refine List.sum_eq_zero (List.forall_mem_map.mpr fun g hg => ?_)
        cases g with
        | request j hdr payload pc => exact absurd hg (hrequests j hdr payload pc)
        | _ => rfl
      have hs := hs .run
      simp only [handleConnStep, hidle, if_true] at hs
      exact advances_of_work hg rfl hs (by simp) (by simp [Goroutine.work, Handling.work])
  | onDisconnect | delete | close | wgDone =>
      exact advances_of_work hg rfl (hs .run) (by simp) (by simp [Goroutine.work, Handling.work])

/-- A peer that is not settled has work that can be done. -/
theorem plain_advances (hk : k < p.shared.peers.length) (hnot : ¬ Settled k p) :
    Advances cfg T stream k p := by
  by_cases hrequests : ∃ j hdr payload pc, .request j hdr payload pc ∈ p.threads
  · obtain ⟨j, hdr, payload, pc, hg⟩ := hrequests
    exact advances_of_request hreach hg
  by_cases hspawns : ∃ j hdr payload, .handleConn j (.spawn hdr payload) ∈ p.threads
  · obtain ⟨j, hdr, payload, hg⟩ := hspawns
    exact advances_of_spawn hreach hg
  -- no request is on its way, so that the goroutine left to the peer waits for nothing
  obtain ⟨g, hg, hhandles⟩ : ∃ g ∈ p.threads, g.handles k ≠ 0 := by
    by_contra hnone
    exact hnot ⟨hk, fun g hg => by_contra fun hne => hnone ⟨g, hg, hne⟩⟩
  have hown : ∀ {j : Nat}, ¬ (if j = k then 1 else 0) = 0 → j = k := by
    intro j hif
    by_contra hj
    exact hif (if_neg hj)
  cases g with
  | acceptLoop pc =>
      cases pc with
      | accept => exact absurd rfl hhandles
      | insert j =>
          obtain rfl := hown hhandles
          have hpeer := List.getElem?_eq_getElem hk
          have hs : step cfg p.shared (.acceptLoop (.insert j)) .run =
              acceptLoopStep p.shared (.insert j) .run := rfl
          simp only [acceptLoopStep, hpeer] at hs
          exact advances_of_work hg rfl hs (by simp) (by simp [Goroutine.work])
      | spawn j =>
          obtain rfl := hown hhandles
          exact advances_of_work (a := .run) hg rfl rfl (by simp)
            (by simp [Goroutine.work, Handling.work])
  | handleConn j pc =>
      obtain rfl := hown hhandles
      exact advances_handleConn hreach hg
        (fun i hdr payload pc hmem => hrequests ⟨i, hdr, payload, pc, hmem⟩)
        fun i hdr payload hmem => hspawns ⟨i, hdr, payload, hmem⟩
  | _ => exact absurd rfl hhandles

/-- Every run in which the peer was accepted can be continued until it is settled. -/
theorem plain_settles (hk : k < p.shared.peers.length) :
    ∃ q, (plainProgram cfg T stream k).machine.Reachable p q ∧ Settled k q := by
  refine Program.reaches_of_lowers (I := fun u =>
    (plainProgram cfg T stream k).machine.Reachable initial u ∧ k < u.shared.peers.length)
    ?_ (fun u hu hnot => plain_advances hu.1 hu.2 hnot) ⟨hreach, hk⟩
  rintro u ia u' ⟨hu, hlt⟩ hstep
  obtain ⟨g, g', new, -, hs, -⟩ := Program.machine_step_eq hstep
  exact ⟨hu.tail hstep, Nat.lt_of_lt_of_le hlt (plain_step hs).2.length_le⟩

end

end Protocomm.Go.Server
