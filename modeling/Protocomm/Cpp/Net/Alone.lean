import Protocomm.Cpp.Channel.Work
import Protocomm.Cpp.Net.Order
import Protocomm.Cpp.Server.Work
import Protocomm.Misc.Rest

/-!
# A connection left alone

The runs of a channel and its session in which the application calls no method. Each step
lowers the work left on both sides, or keeps it and moves bytes on: so a connection that is
left alone comes to rest.
-/

namespace Protocomm.Cpp.Net

open Misc

variable {cfg : Config} {n n' : State} {act : Action}

/-- The step is one of the channel or of its session, and none of the application. -/
def State.internal (cfg : Config) (n : State) : Action → Bool
  | .client i a => n.client.threads[i]?.any fun t => t.internal a
  | .server i a => n.server.threads[i]?.any fun t => t.internal cfg.session a

/-- The runs in which the application calls no method. -/
def alone (cfg : Config) : Machine State Action where
  step n act := if n.internal cfg act then step cfg n act else none

theorem alone_step (h : (alone cfg).step n act = some n') :
    n.internal cfg act = true ∧ (machine cfg).step n act = some n' := by
  simp only [alone] at h
  split at h
  · exact ⟨‹_›, h⟩
  · cases h

/-- The bytes from the channel that its session has not read. -/
def State.unreadUp (cfg : Config) (n : State) : Nat :=
  n.link.wrote.length - ((n.session cfg).reads.map Go.frameSize).sum

/-- The bytes from the session that the channel has not read. -/
def State.unreadDown (cfg : Config) (n : State) : Nat :=
  (n.session cfg).out.received.length - (n.link.got.map Go.frameSize).sum

/-- The work left on both sides. -/
def State.work (cfg : Config) (n : State) : Nat :=
  Program.owned (fun s : Channel.Shared × Channel.Link => s.1.work cfg.channel.handshakeHeader)
      (Channel.Thread.work cfg.channel.handshakeHeader) n.client.shared n.client.threads +
    Program.owned (Server.Shared.work cfg.session) (Server.Thread.work cfg.session)
      n.server.shared n.server.threads + n.unreadUp cfg

/-- The bytes on their way to the channel; one that is not written yet counts twice. -/
def State.bytes (cfg : Config) (n : State) : Nat :=
  2 * Program.owned (fun _ => 0) (Server.Thread.owes cfg.server.handshakeHeader cfg.session)
      n.server.shared n.server.threads + n.unreadDown cfg

/-- A frame that can be read is there. -/
theorem size_of_nextFrame {header stream : Bytes} {reads : List (FrameHeader × Bytes)}
    {f : FrameHeader × Bytes} (h : nextFrame header stream reads f = true) :
    (reads.map Go.frameSize).sum + Go.frameSize f ≤ stream.length := by
  rw [nextFrame, delivers_readFrame, unread, List.drop_drop] at h
  obtain ⟨rest, hread⟩ := ok_of_delivers h
  have hsize := (Go.readFrame_ok hread).2
  have hpos : 0 < Go.frameSize f := Nat.add_pos_left (by decide) _
  rw [List.length_drop] at hsize
  omega

theorem client_lowers {client : Pool (Channel.Shared × Channel.Link) Channel.Thread} {i : Nat}
    {a : Channel.Action} {t : Channel.Thread} (ht : n.client.threads[i]? = some t)
    (hreads : n.clientReads cfg t a = true) (hinternal : t.internal a = true)
    (hstep : (Channel.calmProgram cfg.channel).machine.step n.client (i, a) = some client) :
    State.work cfg { n with client := client } < n.work cfg ∨
      State.work cfg { n with client := client } = n.work cfg ∧
        State.bytes cfg { n with client := client } < n.bytes cfg := by
  obtain ⟨t', new, hs, hlink, hmove⟩ := client_step ht hstep
  have howned := Program.owned_machine_step hstep ht hs
    (fun s => s.1.work cfg.channel.handshakeHeader)
    (Channel.Thread.work cfg.channel.handshakeHeader)
  have hwrote := (Channel.wrote_follow n.link cfg.channel.handshakeHeader a t').length_le
  rcases hmove.work hinternal n.link with hlt | ⟨hdr, payload, rfl, rfl, rfl, rfl, hsame⟩
  · left
    simp only [State.work, State.unreadUp, State.link, State.session] at hlink hlt hwrote ⊢
    rw [← hlink] at hlt hwrote
    omega
  · -- a frame is read
    have hsize := size_of_nextFrame hreads
    simp only [Channel.Link.follow] at hlink
    right
    refine ⟨?_, ?_⟩
    · simp only [State.work, State.unreadUp, State.link, State.session, hlink] at howned ⊢
      simp only [List.map_nil, List.sum_nil] at howned
      omega
    · simp only [State.bytes, State.unreadDown, State.link, State.session, hlink, List.map_append,
        List.map_cons, List.map_nil, List.sum_append, List.sum_cons, List.sum_nil]
      simp only [State.link, State.session] at hsize
      have hpos : 0 < Go.frameSize (hdr, payload) := Nat.add_pos_left (by decide) _
      omega

theorem server_lowers {server : Pool Server.Shared Server.Thread} {i : Nat} {a : Server.Action}
    {t : Server.Thread} (ht : n.server.threads[i]? = some t)
    (hreads : n.serverReads cfg t a = true) (hinternal : t.internal cfg.session a = true)
    (hstep : (Server.calmProgram cfg.server cfg.session).machine.step n.server (i, a) =
      some server) :
    State.work cfg { n with server := server } < n.work cfg ∨
      State.work cfg { n with server := server } = n.work cfg ∧
        State.bytes cfg { n with server := server } < n.bytes cfg := by
  obtain ⟨t₀, t', new, ht₀, hs, -⟩ := Program.machine_step_eq hstep
  cases ht.symm.trans ht₀
  have hmove := (Server.step_move (Program.restrict_step.mp hs).2).2
  have howned := Program.owned_machine_step hstep ht hs (Server.Shared.work cfg.session)
    (Server.Thread.work cfg.session)
  rcases hmove.work hinternal with hlt | ⟨f, rfl, rfl, hadd, hle⟩ |
    ⟨heq, hsame, m, hpos, hreceived, hpiece⟩
  · -- what the session has read stays read
    have hmono : ((n.server.shared.session cfg.session).reads.map Go.frameSize).sum ≤
        ((server.shared.session cfg.session).reads.map Go.frameSize).sum := by
      rcases hmove.reads cfg.session with hsame | ⟨hdr, payload, -, -, hadd, -⟩
      · rw [hsame]
      · rw [hadd, List.map_append, List.sum_append]
        exact Nat.le_add_right _ _
    left
    simp only [State.work, State.unreadUp, State.link, State.session]
    omega
  · -- a frame has more bytes than it makes work
    simp only [State.serverReads, bne_self_eq_false, Bool.false_or] at hreads
    have hsize := size_of_nextFrame hreads
    have hlong : 16 ≤ Go.frameSize f := Nat.le_add_right _ _
    left
    simp only [State.work, State.unreadUp, State.link, State.session, hadd, List.map_append,
      List.map_cons, List.map_nil, List.sum_append, List.sum_cons, List.sum_nil] at hsize ⊢
    omega
  · have howes := Program.owned_machine_step hstep ht hs (fun _ => 0)
      (Server.Thread.owes cfg.server.handshakeHeader cfg.session)
    right
    refine ⟨?_, ?_⟩
    · simp only [State.work, State.unreadUp, State.link, State.session, hsame]
      omega
    · simp only [State.bytes, State.unreadDown, State.link, State.session, hreceived]
      omega

theorem alone_lowers (hstep : (alone cfg).step n act = some n') :
    n'.work cfg < n.work cfg ∨ n'.work cfg = n.work cfg ∧ n'.bytes cfg < n.bytes cfg := by
  obtain ⟨hinternal, hstep⟩ := alone_step hstep
  cases step_move hstep with
  | client ht hreads hclient =>
      simp only [State.internal, ht, Option.any_some] at hinternal
      exact client_lowers ht hreads hinternal hclient
  | server ht hreads hserver =>
      simp only [State.internal, ht, Option.any_some] at hinternal
      exact server_lowers ht hreads hinternal hserver

/-- A connection that is left alone comes to rest. -/
theorem alone_terminates (cfg : Config) : (alone cfg).Terminates :=
  Machine.terminates_of_lex (State.work cfg) (State.bytes cfg) fun _ _ _ => alone_lowers

end Protocomm.Cpp.Net
