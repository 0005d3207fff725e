import Protocomm.Go.Channel.Duties
import Protocomm.Go.Channel.Rest
import Protocomm.Go.Net.Streams
import Protocomm.Go.Server.Shutdown

/-!
# The channels and the server left alone

The runs in which no application calls a method. Dials and writes may fail at any time; a
read fails only on a connection that is broken, and `Accept` only once the listener is
closed. The calls that were made are carried on, then the server answers what it gets, and
then the channels read the answers: so the net comes to rest.
-/

namespace Protocomm.Go.Net

open Misc

variable {cfg : Config} {N : Nat} {n n' : State} {act : Action} {i d k : Nat}

/-- Connection `d` of channel `i` is broken: one of its sides has closed it or has ended, a
    write on it has failed, or nobody will accept it. -/
def State.broken (n : State) (i d : Nat) : Bool :=
  (n.clients i).shared.1.panicked || (n.clients i).shared.1.closedConns.contains d ||
    (n.line i d).out.failed ||
    match n.server.shared.peers[n.links.idxOf (i, d)]? with
    | some peer => peer.closed || peer.out.failed
    | none => n.server.shared.listenerClosed

/-- The steps of channel `i` that come without its application. A frame comes on an
    accepted connection only, for the server has written nothing on others. -/
def State.clientAlone (n : State) (i : Nat) : Channel.Goroutine → Channel.Action → Bool
  | .app, _ => false
  | .ensureConnected _ (.readHeader conn), .readFull (.error _) => n.broken i conn
  | .readLoop conn _ .read, .readFrame (.error _) => n.broken i conn
  | .readLoop conn _ .read, .readFrame (.ok _) => n.links.contains (i, conn)
  | _, _ => true

/-- The steps of the server that come without its application. -/
def State.serverAlone (n : State) : Server.Goroutine → Server.Action → Bool
  | .app, _ => false
  | .acceptLoop .accept, .acceptFailed => n.server.shared.listenerClosed && n.server.shared.done
  | .handleConn k .readHandshake, .readFull (.error _) =>
      n.links[k]?.any fun c => n.broken c.1 c.2
  | .handleConn k .read, .readFrame (.error _) => n.links[k]?.any fun c => n.broken c.1 c.2
  | _, _ => true

/-- The step is one of the first `N` channels or of the server, and none of an
    application. -/
def State.internal (N : Nat) (n : State) : Action → Bool
  | .client i j a => decide (i < N) && (n.clients i).threads[j]?.any fun g => n.clientAlone i g a
  | .server j a => n.server.threads[j]?.any fun g => n.serverAlone g a
  | .accept _ i d => decide (i < N) && decide (d < (n.clients i).shared.1.dialled)

/-- `N` channels and the server, left alone. -/
def alone (cfg : Config) (N : Nat) : Machine State Action where
  step n act := if n.internal N act then step cfg n act else none

theorem alone_step (h : (alone cfg N).step n act = some n') :
    n.internal N act = true ∧ (machine cfg).step n act = some n' := by
  simp only [alone] at h
  split at h
  · exact ⟨‹_›, h⟩
  · cases h

/-! ## The work left -/

/-- What the goroutines of the calls have to do. -/
def State.callsLeft (N : Nat) (n : State) : Nat :=
  ((List.range N).map fun i =>
    Program.owned (fun _ => 0) Channel.Goroutine.calling (n.clients i).shared
      (n.clients i).threads).sum

/-- The bytes for peer `k` that the server has not read. -/
def State.unreadUp (n : State) (k : Nat) : Nat :=
  (n.up k).length - ((n.server.shared.readsOf k).map frameSize).sum

/-- A connection that is not accepted is work for the accept loop and a handler. -/
def State.unaccepted (n : State) (i d : Nat) : Nat :=
  if n.links.contains (i, d) then 0 else 13 + (n.line i d).out.received.length

/-- What the server has to do. -/
def State.serverLeft (N : Nat) (n : State) : Nat :=
  Program.owned (fun _ => 0) Server.Goroutine.left n.server.shared n.server.threads +
    ((List.range n.links.length).map n.unreadUp).sum +
    ((List.range N).map fun i =>
      ((List.range (n.clients i).shared.1.dialled).map (n.unaccepted i)).sum).sum

/-- The bytes from the server that a channel has not read. -/
def State.unreadDown (n : State) (c : Nat × Nat) : Nat :=
  (n.down c.1 c.2).length - ((n.line c.1 c.2).reads.map frameSize).sum

/-- What the channels have to do besides. -/
def State.clientLeft (N : Nat) (n : State) : Nat :=
  ((List.range N).map fun i =>
    Program.owned (fun s => s.1.left) Channel.Goroutine.left (n.clients i).shared
      (n.clients i).threads).sum +
    (n.links.map n.unreadDown).sum

/-- A frame that can be read is there. -/
theorem size_of_nextFrame {stream : Bytes} {greeting : Nat} {reads : List (FrameHeader × Bytes)}
    {f : FrameHeader × Bytes}
    (h : nextFrame (stream.drop (greeting + (reads.map frameSize).sum)) f = true) :
    ((reads ++ [f]).map frameSize).sum ≤ stream.length := by
  obtain ⟨rest, hread⟩ := nextFrame_ok h
  have hsize := (readFrame_ok hread).2
  have hpos : 0 < frameSize f := Nat.add_pos_left (by decide) _
  rw [List.length_drop] at hsize
  simp only [List.map_append, List.map_singleton, List.sum_append, List.sum_singleton]
  omega

theorem frameSize_ge (f : FrameHeader × Bytes) : 16 ≤ frameSize f := Nat.le_add_right _ _

/-! ## A step of a channel -/

/-- The server has as much to do when nothing was dialled or written. -/
theorem serverLeft_congr (hserver : n'.server = n.server) (hlinks : n'.links = n.links)
    (hout : ∀ i d, (n'.line i d).out = (n.line i d).out)
    (hdialled : ∀ i, (n'.clients i).shared.1.dialled = (n.clients i).shared.1.dialled) :
    n'.serverLeft N = n.serverLeft N := by
  have hup : n'.unreadUp = n.unreadUp := by
    funext k
    simp only [State.unreadUp, State.up, hserver, hlinks, hout]
  have hunaccepted : n'.unaccepted = n.unaccepted := by
    funext i d
    simp only [State.unaccepted, hlinks, hout]
  simp only [State.serverLeft, hserver, hlinks, hdialled, hup, hunaccepted]

/-- Channel `i` has taken a step. -/
def State.setClient (n : State) (i : Nat)
    (client : Pool (Channel.Shared × (Nat → Channel.Line)) Channel.Goroutine) : State :=
  { n with clients := Function.update n.clients i client }

theorem setClient_line (client : Pool (Channel.Shared × (Nat → Channel.Line)) Channel.Goroutine)
    (i' d : Nat) : (n.setClient i client).line i' d =
      if i' = i then client.shared.2 d else n.line i' d := by
  simp only [State.setClient, State.line]
  split
  · rename_i hi
    rw [hi, Function.update_self]
  · rw [Function.update_of_ne ‹_›]

theorem setClient_down (client : Pool (Channel.Shared × (Nat → Channel.Line)) Channel.Goroutine) :
    (n.setClient i client).down = n.down := rfl

/-- What a sum over the channels becomes. -/
theorem sum_setClient (hi : i < N)
    (client : Pool (Channel.Shared × (Nat → Channel.Line)) Channel.Goroutine)
    (w : Pool (Channel.Shared × (Nat → Channel.Line)) Channel.Goroutine → Nat) :
    ((List.range N).map fun i' => w ((n.setClient i client).clients i')).sum + w (n.clients i) =
      ((List.range N).map fun i' => w (n.clients i')).sum + w client :=
  sum_update List.nodup_range (List.mem_range.mpr hi) w n.clients client

section

variable {j : Nat} {a : Channel.Action} {g : Channel.Goroutine}
  {client : Pool (Channel.Shared × (Nat → Channel.Line)) Channel.Goroutine}
  (hi : i < N) (hg : (n.clients i).threads[j]? = some g) (hreads : n.clientReads i g a = true)
  (halone : n.clientAlone i g a = true)
  (hstep : (Channel.lined (cfg.client i)).machine.step (n.clients i) (j, a) = some client)

include hg hstep in
/-- The server sees nothing of a step that neither dials nor writes. -/
theorem serverLeft_setClient (hwrote : ∀ m err, a ≠ .wrote m err)
    (hdialled : client.shared.1.dialled = (n.clients i).shared.1.dialled) :
    (n.setClient i client).serverLeft N = n.serverLeft N := by
  obtain ⟨g', new, hs, -⟩ := Program.machine_step_get hstep hg
  have hrecord := (Program.recorded_step hs).1
  refine serverLeft_congr rfl rfl (fun i' d => ?_) fun i' => ?_
  · rw [setClient_line]
    split
    · rename_i hsame
      subst hsame
      have hline := Channel.record_move hrecord d
      generalize client.shared.2 d = line' at hline
      cases hline with
      | greet | start | more => exact absurd rfl (hwrote _ _)
      | keep | receive | read => rfl
    · rfl
  · by_cases hsame : i' = i
    · subst hsame
      simpa only [State.setClient, Function.update_self] using hdialled
    · simp only [State.setClient, Function.update_of_ne hsame]

include hg hstep in
/-- A step of a channel leaves no more bytes to read. -/
theorem unreadDown_setClient (c : Nat × Nat) :
    (n.setClient i client).unreadDown c ≤ n.unreadDown c := by
  obtain ⟨g', new, hs, -⟩ := Program.machine_step_get hstep hg
  have hrecord := (Program.recorded_step hs).1
  simp only [State.unreadDown, setClient_down, setClient_line]
  split
  · rename_i hsame
    obtain ⟨more, hmore⟩ := (Channel.record_move hrecord c.2).reads
    rw [hsame, ← hmore, List.map_append, List.sum_append]
    simp only [State.line]
    omega
  · exact Nat.le_refl _

include hg hreads halone hstep

/-- A frame that a channel reads is at least its header. -/
theorem unreadDown_read {f : FrameHeader × Bytes} (ha : a = .readFrame (.ok f)) :
    ((n.setClient i client).links.map (n.setClient i client).unreadDown).sum + 16 ≤
      (n.links.map n.unreadDown).sum := by
  subst ha
  obtain ⟨g', new, hs, -⟩ := Program.machine_step_get hstep hg
  obtain ⟨hrecord, hplain⟩ := Program.recorded_step hs
  obtain ⟨conn, gen, rfl, -⟩ := (Channel.step_move hplain).2.read_at
  refine sum_add_le (fun c _ => unreadDown_setClient hg hstep c)
    (List.contains_iff_mem.mp halone) ?_
  have hline : client.shared.2 conn =
      { n.line i conn with reads := (n.line i conn).reads ++ [f] } := by
    rw [← Option.some.inj hrecord]
    exact Function.update_self ..
  have hthere := size_of_nextFrame hreads
  have hsize := frameSize_ge f
  simp only [State.unreadDown, setClient_down, setClient_line, if_pos, hline]
  simp only [List.map_append, List.map_singleton, List.sum_append, List.sum_singleton] at hthere ⊢
  omega

include hi

theorem client_lowers :
    (n.setClient i client).callsLeft N < n.callsLeft N ∨
      (n.setClient i client).callsLeft N ≤ n.callsLeft N ∧
        ((n.setClient i client).serverLeft N < n.serverLeft N ∨
          (n.setClient i client).serverLeft N ≤ n.serverLeft N ∧
            (n.setClient i client).clientLeft N < n.clientLeft N) := by
  obtain ⟨g', new, hs, -⟩ := Program.machine_step_get hstep hg
  have hplain := (Program.recorded_step hs).2
  have happ : g ≠ .app := by
    rintro rfl
    cases halone
  have hcalls := Program.owned_machine_step hstep hg hs (fun _ => 0) Channel.Goroutine.calling
  have hleft := Program.owned_machine_step hstep hg hs (fun s => s.1.left) Channel.Goroutine.left
  have hcallsSum := sum_setClient (n := n) hi client fun p =>
    Program.owned (fun _ => 0) Channel.Goroutine.calling p.shared p.threads
  have hleftSum := sum_setClient (n := n) hi client fun p =>
    Program.owned (fun s => s.1.left) Channel.Goroutine.left p.shared p.threads
  rcases (Channel.step_move hplain).2.calling happ with hlt | ⟨hle, hdialled, hwrote⟩
  · left
    simp only [State.callsLeft]
    omega
  · have hdown : ((n.setClient i client).links.map (n.setClient i client).unreadDown).sum ≤
        (n.links.map n.unreadDown).sum :=
      List.sum_le_sum fun c _ => unreadDown_setClient hg hstep c
    refine Or.inr ⟨by simp only [State.callsLeft]; omega, Or.inr
      ⟨Nat.le_of_eq (serverLeft_setClient hg hstep hwrote hdialled), ?_⟩⟩
    simp only [State.clientLeft]
    by_cases hread : ∃ f, a = .readFrame (.ok f)
    · -- a frame is read
      obtain ⟨f, rfl⟩ := hread
      have hbytes := unreadDown_read hg hreads halone hstep rfl
      obtain ⟨conn, gen, rfl, rfl, hsame, rfl⟩ := (Channel.step_move hplain).2.read_at
      simp only [hsame, Channel.Goroutine.left, Channel.Reading.left, List.map_nil, List.sum_nil]
        at hleft
      omega
    · have hlower := Channel.step_lowers hplain happ (not_exists.mp hread)
      omega

end

/-! ## A step of the server -/

section

variable {j : Nat} {a : Server.Action} {g : Server.Goroutine}
  {server : Pool Server.Shared Server.Goroutine}
  (hg : n.server.threads[j]? = some g) (hreads : n.serverReads g a = true)
  (hstep : (Server.machine cfg.server).step n.server (j, a) = some server)
include hg hstep

theorem unreadUp_setServer (k : Nat) :
    State.unreadUp { n with server := server } k ≤ n.unreadUp k := by
  obtain ⟨g', new, hs, -⟩ := Program.machine_step_get hstep hg
  simp only [State.unreadUp]
  rcases (Server.step_move hs).readsOf k with hsame | ⟨hdr, payload, -, -, hadd, -⟩
  · rw [hsame]
    exact Nat.le_refl _
  · rw [hadd, List.map_append, List.sum_append]
    exact Nat.sub_le_sub_left (Nat.le_add_right _ _) _

include hreads

/-- A request that the server reads is at least its header. -/
theorem unreadUp_read {f : FrameHeader × Bytes} (ha : a = .readFrame (.ok f)) :
    ((List.range n.links.length).map (State.unreadUp { n with server := server })).sum + 16 ≤
      ((List.range n.links.length).map n.unreadUp).sum := by
  subst ha
  obtain ⟨g', new, hs, -⟩ := Program.machine_step_get hstep hg
  obtain ⟨k, peer, rfl, hk, hadd, -⟩ := (Server.step_move hs).read_at
  have hreadsOf : n.server.shared.readsOf k = peer.reads := by
    simp [Server.Shared.readsOf, hk]
  simp only [State.serverReads, State.taken, hk, Net.taken] at hreads
  have hthere := size_of_nextFrame hreads
  have hsize := frameSize_ge f
  have hlt : k < n.links.length := by
    by_contra hge
    have hnone : n.up k = [] := by
      rw [State.up, List.getElem?_eq_none (Nat.not_lt.mp hge)]
    simp only [hnone, List.length_nil, List.map_append, List.map_singleton, List.sum_append,
      List.sum_singleton] at hthere
    omega
  refine sum_add_le (fun k _ => unreadUp_setServer hg hstep k) (List.mem_range.mpr hlt) ?_
  have hup : State.up { n with server := server } k = n.up k := rfl
  simp only [State.unreadUp, hup, hadd, hreadsOf]
  simp only [List.map_append, List.map_singleton, List.sum_append, List.sum_singleton] at hthere ⊢
  omega

theorem server_lowers (halone : n.serverAlone g a = true) :
    State.serverLeft N { n with server := server } < n.serverLeft N := by
  obtain ⟨g', new, hs, -⟩ := Program.machine_step_get hstep hg
  have hleft := Program.owned_machine_step hstep hg hs (fun _ => 0) Server.Goroutine.left
  have hup : ((List.range n.links.length).map (State.unreadUp { n with server := server })).sum ≤
      ((List.range n.links.length).map n.unreadUp).sum :=
    List.sum_le_sum fun k _ => unreadUp_setServer hg hstep k
  have hunaccepted : State.unaccepted { n with server := server } = n.unaccepted := rfl
  simp only [State.serverLeft, hunaccepted]
  by_cases hread : ∃ f, a = .readFrame (.ok f)
  · obtain ⟨f, rfl⟩ := hread
    have hbytes := unreadUp_read hg hreads hstep rfl
    obtain ⟨k, peer, -, -, -, hgain⟩ := (Server.step_move hs).read_at
    omega
  · have hlower := Server.step_lowers hs ?_ ?_ (not_exists.mp hread)
    · omega
    · rintro rfl
      cases halone
    · rintro rfl
      cases a with
      | acceptFailed => exact ⟨rfl, (Bool.and_eq_true_iff.mp halone).2⟩
      | accepted => cases hreads
      | _ => cases hs

end

/-! ## An accepted connection -/

/-- Connection `d` of channel `i` is accepted. -/
def State.accept (n : State) (server : Pool Server.Shared Server.Goroutine) (i d : Nat) : State :=
  { n with server := server, links := n.links ++ [(i, d)] }

/-- What the channel has written is there for the handler. -/
theorem unreadUp_accept {server : Pool Server.Shared Server.Goroutine}
    (hreadsOf : ∀ k, server.shared.readsOf k = n.server.shared.readsOf k) :
    ((List.range (n.accept server i d).links.length).map (n.accept server i d).unreadUp).sum ≤
      ((List.range n.links.length).map n.unreadUp).sum + (n.line i d).out.received.length := by
  have hold : ∀ k ∈ List.range n.links.length,
      (n.accept server i d).unreadUp k = n.unreadUp k := by
    intro k hk
    have hlink : (n.accept server i d).links[k]? = n.links[k]? :=
      List.getElem?_append_left (List.mem_range.mp hk)
    have hup : (n.accept server i d).up k = n.up k := by
      simp only [State.up, hlink]
      rfl
    rw [State.unreadUp, State.unreadUp, hup]
    exact congrArg (fun reads => _ - (reads.map frameSize).sum) (hreadsOf k)
  have hnew : (n.accept server i d).unreadUp n.links.length ≤
      (n.line i d).out.received.length := by
    have hlink : (n.accept server i d).links[n.links.length]? = some (i, d) :=
      List.getElem?_concat_length
    rw [State.unreadUp, State.up_eq hlink]
    exact Nat.sub_le _ _
  rw [show (n.accept server i d).links.length = n.links.length + 1 from List.length_append,
    List.range_succ, List.map_append, List.sum_append, List.map_congr_left hold,
    List.map_singleton, List.sum_singleton]
  exact Nat.add_le_add_left hnew _

/-- The connection is no longer work for the accept loop. -/
theorem unaccepted_accept (server : Pool Server.Shared Server.Goroutine) (hi : i < N)
    (hd : d < (n.clients i).shared.1.dialled) (hfresh : (i, d) ∉ n.links) :
    ((List.range N).map fun i' => ((List.range (n.clients i').shared.1.dialled).map
        ((n.accept server i d).unaccepted i')).sum).sum +
        (13 + (n.line i d).out.received.length) ≤
      ((List.range N).map fun i' => ((List.range (n.clients i').shared.1.dialled).map
        (n.unaccepted i')).sum).sum := by
  have hle : ∀ i' d', (n.accept server i d).unaccepted i' d' ≤ n.unaccepted i' d' := by
    intro i' d'
    simp only [State.unaccepted, List.contains_iff_mem]
    split
    · exact Nat.zero_le _
    · rename_i hnot
      rw [if_neg fun hmem => hnot (List.mem_append_left _ hmem)]
      exact Nat.le_refl _
  have hmine : (n.accept server i d).unaccepted i d + (13 + (n.line i d).out.received.length) ≤
      n.unaccepted i d := by
    have hin : (i, d) ∈ (n.accept server i d).links :=
      List.mem_append_right _ (List.mem_singleton_self _)
    simp only [State.unaccepted, List.contains_iff_mem, if_neg hfresh, if_pos hin, Nat.zero_add]
    exact Nat.le_refl _
  refine sum_add_le (fun i' _ => List.sum_le_sum fun d' _ => hle i' d') (List.mem_range.mpr hi) ?_
  exact sum_add_le (fun d' _ => hle i d') (List.mem_range.mpr hd) hmine

/-- An accepted connection is work for its handler instead of the accept loop. -/
theorem accept_lowers {j : Nat} {server : Pool Server.Shared Server.Goroutine} (hi : i < N)
    (hd : d < (n.clients i).shared.1.dialled) (hfresh : (i, d) ∉ n.links)
    (hstep : (Server.machine cfg.server).step n.server (j, .accepted) = some server) :
    (n.accept server i d).serverLeft N < n.serverLeft N := by
  obtain ⟨g, g', new, hg, hs, -⟩ := Program.machine_step_eq hstep
  have hmove := Server.step_move hs
  have hgain := hmove.accept_at.2
  have hleft := Program.owned_machine_step hstep hg hs (fun _ => 0) Server.Goroutine.left
  have hreadsOf : ∀ k, server.shared.readsOf k = n.server.shared.readsOf k := by
    intro k
    rcases hmove.readsOf k with hsame | ⟨hdr, payload, -, hbad, -⟩
    · exact hsame
    · cases hbad
  have hup := unreadUp_accept (n := n) (i := i) (d := d) hreadsOf
  have hunaccepted := unaccepted_accept server hi hd hfresh
  have hserver : (n.accept server i d).server = server := rfl
  have hclients : (n.accept server i d).clients = n.clients := rfl
  rw [State.serverLeft, State.serverLeft, hserver, hclients]
  omega

theorem alone_lowers (h : (alone cfg N).step n act = some n') :
    n'.callsLeft N < n.callsLeft N ∨
      n'.callsLeft N ≤ n.callsLeft N ∧
        (n'.serverLeft N < n.serverLeft N ∨
          n'.serverLeft N ≤ n.serverLeft N ∧ n'.clientLeft N < n.clientLeft N) := by
  obtain ⟨hinternal, hmachine⟩ := alone_step h
  cases step_move hmachine with
  | @client i j a g client hg hreads hstep =>
      simp only [State.internal, hg, Option.any_some, Bool.and_eq_true, decide_eq_true_eq]
        at hinternal
      exact client_lowers hinternal.1 hg hreads hinternal.2 hstep
  | @server j a g server hg hreads hstep =>
      simp only [State.internal, hg, Option.any_some] at hinternal
      exact Or.inr ⟨Nat.le_refl _, Or.inl (server_lowers hg hreads hstep hinternal)⟩
  | @accept j i d server hfresh hstep =>
      simp only [State.internal, Bool.and_eq_true, decide_eq_true_eq] at hinternal
      exact Or.inr ⟨Nat.le_refl _,
        Or.inl (accept_lowers hinternal.1 hinternal.2 hfresh hstep)⟩

theorem comes_to_rest (cfg : Config) (N : Nat) : (alone cfg N).Terminates :=
  Machine.terminates_of_stages (State.callsLeft N) (State.serverLeft N) (State.clientLeft N)
    fun _ _ _ hstep => alone_lowers hstep

end Protocomm.Go.Net
