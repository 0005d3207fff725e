import Protocomm.Cpp.Channel.Rest
import Protocomm.Cpp.Net.Alone
import Protocomm.Cpp.Net.Pushes
import Protocomm.Cpp.Server.Rest

/-!
# Every call is answered

A channel and the session that serves it, left alone while nothing fails: they come to
rest, and then every request was read and answered, every frame was delivered and the
callback of every call was called once. So no call is lost between the two sides and
neither side waits for the other.
-/

namespace Protocomm.Cpp.Net

open Misc

variable {cfg : Config} {n n' : State} {act : Action}

/-- Something fails on the side of the session; the steps of the channel do not fail. -/
def Action.fails : Action → Bool
  | .client _ _ => false
  | .server _ a => a.fails

/-- The runs in which the application calls no method and nothing fails. -/
def smooth (cfg : Config) : Machine State Action where
  step n act := if act.fails then none else (alone cfg).step n act

theorem smooth_step (h : (smooth cfg).step n act = some n') :
    act.fails = false ∧ (alone cfg).step n act = some n' := by
  simp only [smooth] at h
  split at h
  · cases h
  · exact ⟨Bool.eq_false_iff.mpr ‹_›, h⟩

theorem smooth_terminates (cfg : Config) : (smooth cfg).Terminates :=
  Machine.terminates_of_lex (State.work cfg) (State.bytes cfg)
    fun _ _ _ hstep => alone_lowers (smooth_step hstep).2

theorem machine_of_smooth {n₀ : State} (h₀ : (machine cfg).Reachable initial n₀)
    (h : (smooth cfg).Reachable n₀ n) : (machine cfg).Reachable initial n := by
  refine Machine.reachable_invariant (P := (machine cfg).Reachable initial) h₀ ?_ h
  exact fun u act u' _ hu hstep => hu.tail (alone_step (smooth_step hstep).2).2

/-! ## The session stays up -/

/-- The session reads the handshake that the channel writes. -/
theorem handshake_read (hagreed : cfg.channel.handshakeHeader = cfg.server.handshakeHeader)
    (hjoined : Joined cfg n) {received : Bytes} (hreads : received <+: n.link.wrote)
    (hlen : received.length = cfg.server.handshakeHeader.length) :
    received = cfg.server.handshakeHeader := by
  have hwrote := hreads.trans (Channel.calm_wrote hjoined.client)
  rw [hagreed] at hwrote
  exact (List.prefix_of_prefix_length_le hwrote (List.prefix_append _ _)
    (Nat.le_of_eq hlen)).eq_of_length hlen

theorem smooth_of_step (hagreed : cfg.channel.handshakeHeader = cfg.server.handshakeHeader)
    (hjoined : Joined cfg n) (hordered : Ordered cfg n) (hbounded : Bounded cfg n)
    {a : Server.Action} {t t' : Server.Thread} {s' : Server.Shared} {new : List Server.Thread}
    (hreads : n.serverReads cfg t a = true)
    (hs : Server.step cfg.server n.server.shared t a = some (s', t', new))
    (hinternal : t.internal cfg.session a = true) (hok : a.fails = false) :
    Server.Smooth cfg.server cfg.session t a := by
  refine ⟨hinternal, hok, ?_, ?_⟩
  · rintro received rfl
    obtain ⟨rfl, hlen⟩ := Server.handshake_length hinternal hs
    simp only [State.serverReads, bne_self_eq_false, Bool.false_or] at hreads
    exact handshake_read hagreed hjoined (List.isPrefixOf_iff_prefix.mp hreads) hlen
  · rintro f rfl
    obtain rfl := Server.read_at hinternal hs
    simp only [State.serverReads, bne_self_eq_false, Bool.false_or] at hreads
    have hwrote := Channel.calm_wrote hjoined.client
    have hsends := (Channel.calm_sends hjoined.client).requests
    rw [hagreed] at hwrote
    have hnext := next_initial hwrote
      (fun f hf => (hsends f (List.mem_append_left _ hf)).2) hbounded.up hordered.up hreads
    exact (hsends f (List.mem_append_left _
      (hnext.mem (List.mem_append_right _ (List.mem_singleton_self f))))).1

theorem up_step (hagreed : cfg.channel.handshakeHeader = cfg.server.handshakeHeader)
    (hreach : (machine cfg).Reachable initial n) (hbounded : Bounded cfg n)
    (hup : Server.Up cfg.session n.server) (hstep : (smooth cfg).step n act = some n') :
    Server.Up cfg.session n'.server := by
  obtain ⟨hok, halone⟩ := smooth_step hstep
  obtain ⟨hinternal, hmachine⟩ := alone_step halone
  cases step_move hmachine with
  | client => exact hup
  | @server i a t server ht hreads hserver =>
      simp only [State.internal, ht, Option.any_some] at hinternal
      obtain ⟨t₀, t', new, ht₀, hs, -⟩ := Program.machine_step_eq hserver
      cases ht.symm.trans ht₀
      exact hup.step hserver ht (smooth_of_step hagreed (reachable_joined hreach)
        (reachable_ordered hagreed hreach hbounded) hbounded hreads
        (Program.restrict_step.mp hs).2 hinternal hok)

theorem up_of_smooth (hagreed : cfg.channel.handshakeHeader = cfg.server.handshakeHeader)
    {n₀ : State} (h₀ : (machine cfg).Reachable initial n₀) (hup : Server.Up cfg.session n₀.server)
    (h : (smooth cfg).Reachable n₀ n) (hbounded : Bounded cfg n) :
    Server.Up cfg.session n.server := by
  revert hbounded
  refine Machine.reachable_invariant
    (P := fun n => Bounded cfg n → Server.Up cfg.session n.server) (fun _ => hup) ?_ h
  intro u act u' hu hold hstep hbounded'
  have hbounded := hbounded'.before (step_move (alone_step (smooth_step hstep).2).2)
  exact up_step hagreed (machine_of_smooth h₀ hu) hbounded (hold hbounded) hstep

/-! ## At rest -/

section

variable (hrest : (smooth cfg).AtRest n)
include hrest

theorem client_stuck {t : Channel.Thread} {a : Channel.Action} (ht : t ∈ n.client.threads)
    (hinternal : t.internal a = true)
    (hcalm : Channel.calm cfg.channel n.client.shared t a = true)
    (hreads : n.clientReads cfg t a = true) :
    Channel.step cfg.channel n.client.shared.1 t a = none := by
  obtain ⟨i, hi⟩ := List.mem_iff_getElem?.mp ht
  by_contra hsome
  obtain ⟨r, hr⟩ := Option.ne_none_iff_exists'.mp hsome
  have hs : (Channel.calmProgram cfg.channel).step n.client.shared t a =
      some ((r.1, n.link.follow cfg.channel.handshakeHeader a r.2.1), r.2) :=
    Program.restrict_step.mpr ⟨hcalm, Option.map_eq_some_iff.mpr ⟨r, hr, rfl⟩⟩
  have hstep := Program.machine_step_of hi hs
  have hnone := hrest (.client i a)
  simp [smooth, Action.fails, alone, State.internal, hi, hinternal, step, hstep, hreads] at hnone

theorem server_stuck {t : Server.Thread} {a : Server.Action} (ht : t ∈ n.server.threads)
    (hinternal : t.internal cfg.session a = true)
    (hcalm : Server.calm cfg.server cfg.session n.server.shared t a = true)
    (hok : a.fails = false) (hreads : n.serverReads cfg t a = true) :
    Server.step cfg.server n.server.shared t a = none := by
  obtain ⟨i, hi⟩ := List.mem_iff_getElem?.mp ht
  by_contra hsome
  obtain ⟨r, hr⟩ := Option.ne_none_iff_exists'.mp hsome
  have hs : (Server.calmProgram cfg.server cfg.session).step n.server.shared t a = some r :=
    Program.restrict_step.mpr ⟨hcalm, hr⟩
  have hstep := Program.machine_step_of hi hs
  have hnone := hrest (.server i a)
  simp [smooth, Action.fails, hok, alone, State.internal, hi, hinternal, step, hstep, hreads]
    at hnone

theorem client_rests : Channel.AtRest cfg.channel n.client := by
  intro t ht a hinternal hcalm hread
  refine client_stuck hrest ht hinternal hcalm ?_
  unfold State.clientReads
  split
  · cases hread
  · cases hread
  · rfl

theorem server_rests : Server.AtRest cfg.server cfg.session n.server := by
  intro t ht a hinternal hcalm hok hread
  refine server_stuck hrest ht hinternal hcalm hok ?_
  unfold State.serverReads
  split
  · cases hread
  · cases hread
  · rfl

/-- The channel does not wait for a handshake that is there. -/
theorem client_greeted (ht : .connectCoro .readHandshake ∈ n.client.threads) :
    ¬ cfg.channel.handshakeHeader <+: (n.session cfg).out.received := by
  intro hinit
  have hnone := client_stuck hrest ht (a := .readHandshake (.ok cfg.channel.handshakeHeader)) rfl
    (by simp [Channel.calm]) (List.isPrefixOf_iff_prefix.mpr hinit)
  simp [Channel.step, Channel.connectCoroStep] at hnone

/-- The channel does not wait for a frame that is there. -/
theorem client_drained (ht : .readLoop .reading ∈ n.client.threads) {f : FrameHeader × Bytes}
    (hkind : f.1.type = FramePush ∨ f.1.type = FrameResponse) :
    nextFrame cfg.channel.handshakeHeader (n.session cfg).out.received n.link.got f = false := by
  by_contra hnext
  have hnone := client_stuck hrest ht (a := .readFrame (.frame f.1 f.2)) rfl
    (by rcases hkind with htype | htype <;> simp [Channel.calm, Channel.Action.failsReader, htype])
    (Bool.eq_true_of_not_eq_false hnext)
  simp only [Channel.step, Channel.readLoopStep] at hnone
  split at hnone
  · split at hnone <;> cases hnone
  · split at hnone <;> cases hnone

variable (hup : Server.Up cfg.session n.server)
include hup

/-- The session does not wait for a handshake that is there. -/
theorem server_greeted (ht : .wrapped cfg.session .readHandshake ∈ n.server.threads) :
    ¬ cfg.server.handshakeHeader <+: n.link.wrote := by
  intro hinit
  have hnone := server_stuck hrest ht (a := .readHandshake (.ok cfg.server.handshakeHeader))
    (beq_self_eq_true _) rfl rfl (by simpa [State.serverReads] using hinit)
  rw [Server.step_wrapped hup.running _ hup.present] at hnone
  simp only [Server.wrappedStep, hup.unclosed.1] at hnone
  simp at hnone
  split at hnone <;> cases hnone

/-- The session does not wait for a request that is there. -/
theorem server_drained (ht : .wrapped cfg.session .read ∈ n.server.threads)
    (f : FrameHeader × Bytes) :
    nextFrame cfg.server.handshakeHeader n.link.wrote (n.session cfg).reads f = false := by
  by_contra hnext
  have hnone := server_stuck hrest ht (a := .readFrame (.ok f)) (beq_self_eq_true _) rfl rfl
    (by simpa [State.serverReads] using hnext)
  rw [Server.step_wrapped hup.running _ hup.present] at hnone
  simp [Server.wrappedStep, hup.unclosed.1] at hnone

end

/-- The next frame of a stream can be read. -/
theorem nextFrame_there {header : Bytes} {reads more : List (FrameHeader × Bytes)}
    {f : FrameHeader × Bytes} (hsized : Sized f) (hshort : f.2.length < 2 ^ 32) :
    nextFrame header (header ++ (reads ++ f :: more).flatMap fun f => writeFrame f.1 f.2) reads f =
      true := by
  have hbytes : (fun f : FrameHeader × Bytes => writeFrame f.1 f.2) = Go.frameBytes :=
    encodeFrame_eq
  rw [nextFrame, delivers_readFrame, unread, hbytes, List.drop_drop,
    Go.readFrame_there hsized hshort]
  exact decide_eq_true rfl

/-- Whoever can read no more frame of a stream has read all. -/
theorem eq_of_drained {header stream : Bytes} {frames reads : List (FrameHeader × Bytes)}
    (hstream : stream = header ++ frames.flatMap fun f => writeFrame f.1 f.2)
    (hsized : ∀ f ∈ frames, Sized f) (hshort : ∀ f ∈ frames, f.2.length < 2 ^ 32)
    (hreads : reads <+: frames)
    (hdrained : ∀ f ∈ frames, nextFrame header stream reads f = false) : reads = frames := by
  obtain ⟨more, rfl⟩ := hreads
  cases more with
  | nil => exact (List.append_nil reads).symm
  | cons f more =>
      have hf : f ∈ reads ++ f :: more := List.mem_append_right _ List.mem_cons_self
      have hnext := hdrained f hf
      rw [hstream, nextFrame_there (hsized f hf) (hshort f hf)] at hnext
      cases hnext

/-- A session writes responses and pushes. -/
theorem Joined.kinds (h : Joined cfg n) : ∀ f ∈ (n.session cfg).out.frames,
    f.1.type = FramePush ∨ f.1.type = FrameResponse := by
  obtain ⟨taken, -, hline⟩ := Server.calm_line
    (Q := fun _ f => f.1.type = FramePush ∨ f.1.type = FrameResponse) (by
      intro u hu s' t t' new a ht _ _
      have hplain := Server.reachable_of_calm hu
      exact ⟨fun _ hf => hf, Server.posts_kinds (Server.reachable_pushes hplain t ht)
        (Server.reachable_works hplain t ht)⟩) h.server
  exact fun f hf => hline f (List.mem_append_left _ hf)

section

variable (hagreed : cfg.channel.handshakeHeader = cfg.server.handshakeHeader)
  (h : (machine cfg).Reachable initial n) (hup : Server.Up cfg.session n.server)
  (hrest : (smooth cfg).AtRest n)
include hagreed h hup hrest

/-- The handshake is over. -/
theorem rest_greeted : .connectCoro .readHandshake ∉ n.client.threads := by
  intro ht
  have hjoined := reachable_joined h
  have hwrote : n.link.wrote = cfg.channel.handshakeHeader :=
    (Channel.calm_greets hjoined.client).2 _ ht _ rfl
  rcases (server_rests hrest).reading hjoined.server hup with hread | hread
  · refine server_greeted hrest hup hread ?_
    rw [hwrote, hagreed]
  · refine client_greeted hrest ht ?_
    rw [State.session, (server_rests hrest).received hjoined.server hup hread, hagreed]
    exact List.prefix_append _ _

variable (hbounded : Bounded cfg n)
include hbounded

/-- What a connected channel has sent was read and answered, and the channel has read all
    that the session has written. -/
theorem rest_connected (hstate : n.client.shared.1.connState = .connected) :
    (n.session cfg).reads = n.link.sent ∧ n.link.got = (n.session cfg).out.frames ∧
      n.answeredIds cfg = n.registeredIds := by
  have hjoined := reachable_joined h
  have hordered := reachable_ordered hagreed h hbounded
  have hconnected : n.client.shared.1.connected = true :=
    (Channel.reachable_connection (Channel.reachable_of_calm hjoined.client)).up hstate
  have hwrote : n.link.wrote = cfg.channel.handshakeHeader ++ n.link.frames :=
    (Channel.calm_greets hjoined.client).1.after hconnected
  rw [hagreed] at hwrote
  have hread : .wrapped cfg.session .read ∈ n.server.threads := by
    refine ((server_rests hrest).reading hjoined.server hup).resolve_left fun hbad => ?_
    refine server_greeted hrest hup hbad ?_
    rw [hwrote]
    exact List.prefix_append _ _
  have hup' : (n.session cfg).reads = n.link.sent := by
    refine eq_of_drained hwrote (fun f hf => ?_) hbounded.up hordered.up
      fun f _ => server_drained hrest hup hread f
    exact ((Channel.calm_sends hjoined.client).requests f (List.mem_append_left _ hf)).2
  refine ⟨hup', ?_, ?_⟩
  · have hreceived := (server_rests hrest).received hjoined.server hup hread
    refine eq_of_drained hreceived (Server.calm_sized hjoined.server) hbounded.down
      hordered.down fun f hf => ?_
    rw [← hagreed]
    exact client_drained hrest ((client_rests hrest).reader hjoined.client hstate)
      (hjoined.kinds f hf)
  · have hanswers := (server_rests hrest).answers hjoined.server hup hread
    rw [(hjoined.requests hordered.up).1, hup'] at hanswers
    exact hanswers.trans ((client_rests hrest).sent hjoined.client)

/-- Every registered call has its response. -/
theorem rest_responses : n.client.shared.1.registered.length ≤ n.link.responses.length := by
  have hjoined := reachable_joined h
  rcases (client_rests hrest).cases hjoined.client with hbad | ⟨-, hidle | hstate⟩
  · exact absurd hbad (rest_greeted hagreed h hup hrest)
  · rw [Channel.calm_idle hjoined.client hidle]
    exact Nat.zero_le _
  · obtain ⟨-, hgot, hids⟩ := rest_connected hagreed h hup hrest hbounded hstate
    have hlen := congrArg List.length hids
    rw [State.answeredIds, State.registeredIds, List.length_map, List.length_map, ← hgot] at hlen
    exact Nat.le_of_eq hlen.symm

end

/-- A channel and its session that are left alone while nothing fails come to rest, and
    then the callback of every call was called exactly once. -/
theorem calls_answered (hinline : cfg.channel.dispatch = .inline)
    (hagreed : cfg.channel.handshakeHeader = cfg.server.handshakeHeader)
    (h : (machine cfg).Reachable initial n) (hup : Server.Up cfg.session n.server) :
    (smooth cfg).Terminates ∧
      ∀ n', (smooth cfg).Reachable n n' → (smooth cfg).AtRest n' → Bounded cfg n' →
        ∀ c call, n'.client.shared.1.calls[c]? = some call → call.isEmpty = false →
          n'.client.shared.1.out.invocations (only c) = 1 := by
  refine ⟨smooth_terminates cfg, ?_⟩
  intro n' hreach hrest hbounded c call hc hcall
  have h' := machine_of_smooth h hreach
  have hup' := up_of_smooth hagreed h hup hreach hbounded
  have hjoined := reachable_joined h'
  have hordered := reachable_ordered hagreed h' hbounded
  refine (client_rests hrest).answered hinline hjoined.client ?_ hbounded.calls hordered.completes
    (rest_responses hagreed h' hup' hrest hbounded) hc hcall
  rcases (client_rests hrest).cases hjoined.client with hbad | ⟨hcoro, -⟩
  · exact absurd hbad (rest_greeted hagreed h' hup' hrest)
  · exact hcoro

/-- Nothing waits in `cb_queue` when callbacks run inline. -/
theorem Joined.pushes_eq (h : Joined cfg n)
    (hdrained : cfg.channel.dispatch = .inline ∨ n.client.shared.1.out.cbQueue = []) :
    n.client.shared.1.out.pushed = n.client.shared.1.out.pushes := by
  rcases hdrained with hinline | hempty
  · exact Channel.Deliveries.pushed_eq
      (Channel.reachable_cbQueue hinline (Channel.reachable_of_calm h.client))
  · exact Channel.Deliveries.pushed_eq hempty

/-- At rest the pushes that a connected channel has read are those that its session was
    given. -/
theorem rest_pushes {acts : List Action}
    (hagreed : cfg.channel.handshakeHeader = cfg.server.handshakeHeader)
    (h : (machine cfg).run initial acts = some n) (hup : Server.Up cfg.session n.server)
    (hrest : (smooth cfg).AtRest n) (hbounded : Bounded cfg n)
    (hconnected : n.client.shared.1.connected = true) :
    (n.link.got.filter isPush).map pushOf = given cfg acts := by
  have hreach : (machine cfg).Reachable initial n := ⟨acts, h⟩
  have hjoined := reachable_joined hreach
  have hstate : n.client.shared.1.connState = .connected :=
    ((Channel.reachable_connection (Channel.reachable_of_calm hjoined.client)).connected
      hconnected).resolve_right (Channel.calm_open hjoined.client).2
  obtain ⟨-, hgot, -⟩ := rest_connected hagreed hreach hup hrest hbounded hstate
  obtain ⟨taken, hT, hline⟩ := line_given h
  rw [State.session, (server_rests hrest).line hjoined.server hup hT] at hline
  rw [hgot]
  exact hline

/-- At rest a connected channel has for `on_push` all pushes that its session was given, in
    the order in which they were given. It was called with all of them if callbacks run
    inline, or once `RunCallbacks` has emptied `cb_queue`. -/
theorem pushes_complete {acts : List Action}
    (hagreed : cfg.channel.handshakeHeader = cfg.server.handshakeHeader)
    (h : (machine cfg).run initial acts = some n) (hup : Server.Up cfg.session n.server)
    (hrest : (smooth cfg).AtRest n) (hbounded : Bounded cfg n)
    (hconnected : n.client.shared.1.connected = true) :
    n.client.shared.1.out.pushed = (if cfg.channel.onPush then given cfg acts else []) ∧
      (cfg.channel.dispatch = .inline ∨ n.client.shared.1.out.cbQueue = [] →
        n.client.shared.1.out.pushes = if cfg.channel.onPush then given cfg acts else []) := by
  have hjoined := reachable_joined ⟨acts, h⟩
  have hpushed : n.client.shared.1.out.pushed =
      if cfg.channel.onPush then given cfg acts else [] := by
    rw [Channel.calm_pushed hjoined.client, ← rest_pushes hagreed h hup hrest hbounded hconnected]
    rfl
  exact ⟨hpushed, fun hdrained => (hjoined.pushes_eq hdrained).symm.trans hpushed⟩

/-! ## Runs that come to rest -/

/-- The thread waits for the other side or for the application. -/
def clientWaits : Channel.Thread → Bool
  | .app | .runCallbacks _ | .io | .readLoop .reading | .done => true
  | _ => false

/-- The thread waits for the other side or for the application, or serves another session. -/
def serverWaits (k : Nat) : Server.Thread → Bool
  | .acceptLoop (.insert j) | .writePump j _ => j != k
  | .wrapped j pc => j != k || decide (pc = .read)
  | _ => true

/-- All threads wait, and there is nothing to read and nothing on the strands. -/
structure Idle (cfg : Config) (n : State) : Prop where
  client : n.client.threads.all clientWaits = true
  server : n.server.threads.all (serverWaits cfg.session) = true
  clientStrand : n.client.shared.1.strand = []
  serverStrand : (n.session cfg).strand = []
  guard : n.client.shared.1.workGuard = true
  up : n.unreadUp cfg < FrameHeaderSize
  down : n.unreadDown cfg < FrameHeaderSize

instance (cfg : Config) (n : State) : Decidable (Idle cfg n) :=
  decidable_of_iff (n.client.threads.all clientWaits = true ∧
      n.server.threads.all (serverWaits cfg.session) = true ∧ n.client.shared.1.strand = [] ∧
      (n.session cfg).strand = [] ∧ n.client.shared.1.workGuard = true ∧
      n.unreadUp cfg < FrameHeaderSize ∧ n.unreadDown cfg < FrameHeaderSize)
    ⟨fun ⟨h₁, h₂, h₃, h₄, h₅, h₆, h₇⟩ => ⟨h₁, h₂, h₃, h₄, h₅, h₆, h₇⟩,
      fun h => ⟨h.client, h.server, h.clientStrand, h.serverStrand, h.guard, h.up, h.down⟩⟩

theorem Idle.client_stuck (h : Idle cfg n) {t : Channel.Thread} (ht : t ∈ n.client.threads)
    {a : Channel.Action} (hinternal : t.internal a = true)
    (hcalm : Channel.calm cfg.channel n.client.shared t a = true)
    (hreads : n.clientReads cfg t a = true) :
    Channel.step cfg.channel n.client.shared.1 t a = none := by
  have hwaits := List.all_eq_true.mp h.client t ht
  cases t with
  | app | runCallbacks => cases hinternal
  | done => rfl
  | io =>
      cases a with
      | run => simp [Channel.step, Channel.ioStep, h.clientStrand]
      | exit => simp [Channel.step, Channel.ioStep, h.guard]
      | nestedCall | nestedConnect => cases hinternal
      | _ => rfl
  | readLoop pc =>
      cases pc with
      | spawned => cases hwaits
      | reading =>
          cases a with
          | readFrame r =>
              cases r with
              | error | throw => cases hcalm
              | frame hdr payload =>
                  have hsize := size_of_nextFrame hreads
                  have hdown := h.down
                  simp only [State.unreadDown, Go.frameSize] at hdown hsize
                  omega
          | _ => rfl
  | _ => cases hwaits

theorem Idle.server_stuck (h : Idle cfg n) {t : Server.Thread} (ht : t ∈ n.server.threads)
    {a : Server.Action} (hinternal : t.internal cfg.session a = true) (hok : a.fails = false)
    (hreads : n.serverReads cfg t a = true) :
    Server.step cfg.server n.server.shared t a = none := by
  have hwaits := List.all_eq_true.mp h.server t ht
  cases t with
  | app | broadcast => cases hinternal
  | done => rfl
  | io =>
      cases a with
      | handle j =>
          obtain rfl := beq_iff_eq.mp hinternal
          simp only [Server.step, Server.ioStep]
          split
          · rfl
          · split
            · rfl
            · rename_i session hk
              have hstrand := h.serverStrand
              rw [State.session, Server.session_of_some hk] at hstrand
              rw [hstrand]
      | _ => cases hinternal
  | acceptLoop pc =>
      cases pc with
      | accept => cases hinternal
      | insert j =>
          obtain rfl := beq_iff_eq.mp hinternal
          simp [serverWaits] at hwaits
  | writePump j pc =>
      obtain rfl := beq_iff_eq.mp hinternal
      simp [serverWaits] at hwaits
  | wrapped j pc =>
      obtain rfl := beq_iff_eq.mp hinternal
      obtain rfl : pc = .read := by simpa [serverWaits] using hwaits
      simp only [Server.step]
      split
      · rfl
      · split
        · rfl
        · cases a with
          | readFrame r =>
              cases r with
              | error => cases hok
              | ok f =>
                  simp only [State.serverReads, bne_self_eq_false, Bool.false_or] at hreads
                  have hsize := size_of_nextFrame hreads
                  have hup := h.up
                  simp only [State.unreadUp, Go.frameSize] at hup hsize
                  omega
          | threw => cases hok
          | _ => rfl

theorem Idle.atRest (h : Idle cfg n) : (smooth cfg).AtRest n := by
  intro act
  by_contra hsome
  obtain ⟨n', hstep⟩ := Option.ne_none_iff_exists'.mp hsome
  obtain ⟨hok, halone⟩ := smooth_step hstep
  obtain ⟨hinternal, hmachine⟩ := alone_step halone
  cases step_move hmachine with
  | client ht hreads hs =>
      simp only [State.internal, ht, Option.any_some] at hinternal
      obtain ⟨t₀, t', new, ht₀, hs, -⟩ := Program.machine_step_eq hs
      cases ht.symm.trans ht₀
      obtain ⟨hcalm, -, hs⟩ := Channel.calm_step hs
      cases (h.client_stuck (List.mem_of_getElem? ht) hinternal hcalm hreads).symm.trans hs
  | server ht hreads hs =>
      simp only [State.internal, ht, Option.any_some] at hinternal
      obtain ⟨t₀, t', new, ht₀, hs, -⟩ := Program.machine_step_eq hs
      cases ht.symm.trans ht₀
      have hs := (Program.restrict_step.mp hs).2
      cases (h.server_stuck (List.mem_of_getElem? ht) hinternal hok hreads).symm.trans hs

/-- The end of `fifoRun`, after its last call. -/
def fifoRest : List Action := fifoRun.drop 22 ++ [.server 4 .run]

/-- What `Server.Up` says of a session with an empty strand. -/
def isUp (k : Nat) (p : Pool Server.Shared Server.Thread) : Bool :=
  p.shared.running && decide (k < p.shared.made.length) && !(p.shared.session k).closed &&
    !(p.shared.session k).out.failed && (p.shared.session k).strand.isEmpty &&
    p.threads.any (Server.Thread.serves k)

theorem up_of_isUp {k : Nat} {p : Pool Server.Shared Server.Thread} (h : isUp k p = true) :
    Server.Up k p := by
  simp only [isUp, Bool.and_eq_true, decide_eq_true_eq, Bool.not_eq_true', List.isEmpty_iff,
    List.any_eq_true] at h
  obtain ⟨⟨⟨⟨⟨hrunning, hmade⟩, hclosed⟩, hfailed⟩, hstrand⟩, hserved⟩ := h
  exact ⟨hrunning, hmade, ⟨hclosed, hfailed, hstrand ▸ List.not_mem_nil⟩, hserved⟩

theorem calls_answered_fifoRest :
    ∃ n n', (machine ⟨{}, {}, 0⟩).run initial (fifoRun.take 22) = some n ∧
      (smooth ⟨{}, {}, 0⟩).run n fifoRest = some n' ∧ (smooth ⟨{}, {}, 0⟩).AtRest n' ∧
      n'.client.shared.1.out.invocations (only 0) = 1 ∧
      n'.client.shared.1.out.invocations (only 1) = 1 := by
  have hend : (((machine ⟨{}, {}, 0⟩).run initial (fifoRun.take 22)).bind fun n =>
      ((smooth ⟨{}, {}, 0⟩).run n fifoRest).map fun n' => (n, n')).map (fun x =>
        isUp 0 x.1.server && decide (Idle ⟨{}, {}, 0⟩ x.2) &&
        decide (x.2.client.shared.1.calls =
          [⟨sayHelloId, [5], false⟩, ⟨sayHelloId, [6], false⟩]) &&
        decide (x.2.link.sent.map (fun f => f.2) = [[5], [6]]) &&
        decide ((x.2.session ⟨{}, {}, 0⟩).out.frames.map (fun f => f.2) = [[8], [9]])) =
      some true := by
    decide +kernel
  obtain ⟨⟨n, n'⟩, hruns, hobs⟩ := Option.map_eq_some_iff.mp hend
  obtain ⟨n₀, hrun, hruns⟩ := Option.bind_eq_some_iff.mp hruns
  obtain ⟨n₁, hsmooth, heq⟩ := Option.map_eq_some_iff.mp hruns
  cases heq
  simp only [Bool.and_eq_true, decide_eq_true_eq] at hobs
  obtain ⟨⟨⟨⟨hup, hidle⟩, hcalls⟩, hsent⟩, hframes⟩ := hobs
  have hbounded : Bounded ⟨{}, {}, 0⟩ n' :=
    bounded_of_payloads (by rw [hcalls]; decide) hsent hframes (by decide)
  have hall := (calls_answered rfl rfl ⟨_, hrun⟩ (up_of_isUp hup)).2 n' ⟨_, hsmooth⟩ hidle.atRest
    hbounded
  exact ⟨n, n', hrun, hsmooth, hidle.atRest, hall 0 _ (by rw [hcalls]; rfl) rfl,
    hall 1 _ (by rw [hcalls]; rfl) rfl⟩

/-- After `pushRun` the call is answered. -/
def pushRest : List Action :=
  pushRun ++ [.server 5 .run, .client 1 .run, .client 1 .run, .client 2 .run, .client 5 .run,
    .client 5 (.op none),
    .server 3 (.readFrame (.ok (Channel.requestHeader 1 sayHelloId [5], [5]))), .server 3 .run,
    .server 3 (.returned [8] statusOK), .server 3 .run, .server 1 (.handle 0),
    .server 6 .run, .server 6 (.wrote 17), .server 6 .run,
    .client 4 (.readFrame (.frame
      (Server.responseHeader (Channel.requestHeader 1 sayHelloId [5]) StatusCode.OK [8]) [8]))]

theorem pushRest_end :
    ∃ n, (machine ⟨{ onPush := true }, {}, 0⟩).run initial pushRest = some n ∧
      Server.Up 0 n.server ∧ (smooth ⟨{ onPush := true }, {}, 0⟩).AtRest n ∧
      Bounded ⟨{ onPush := true }, {}, 0⟩ n ∧ n.client.shared.1.connected = true ∧
      n.client.shared.1.out.pushes = [(9, [1]), (8, [2])] ∧
      n.server.threads = [.app, .io, .acceptLoop .accept, .wrapped 0 .read,
        .broadcast (Server.pushHeader 8 [2]) [2] [], .done, .done] := by
  have hend : ((machine ⟨{ onPush := true }, {}, 0⟩).run initial pushRest).map (fun n =>
      isUp 0 n.server && decide (Idle ⟨{ onPush := true }, {}, 0⟩ n) &&
      n.client.shared.1.connected &&
      decide (n.client.shared.1.out.pushes = [(9, [1]), (8, [2])]) &&
      decide (n.server.threads = [.app, .io, .acceptLoop .accept, .wrapped 0 .read,
        .broadcast (Server.pushHeader 8 [2]) [2] [], .done, .done]) &&
      decide (n.client.shared.1.calls = [⟨sayHelloId, [5], false⟩]) &&
      decide (n.link.sent.map (fun f => f.2) = [[5]]) &&
      decide ((n.session ⟨{ onPush := true }, {}, 0⟩).out.frames.map (fun f => f.2) =
        [[1], [2], [8]])) = some true := by
    decide +kernel
  obtain ⟨n, hrun, hobs⟩ := Option.map_eq_some_iff.mp hend
  simp only [Bool.and_eq_true, decide_eq_true_eq] at hobs
  obtain ⟨⟨⟨⟨⟨⟨⟨hup, hidle⟩, hconnected⟩, hpushes⟩, hthreads⟩, hcalls⟩, hsent⟩, hframes⟩ := hobs
  exact ⟨n, hrun, up_of_isUp hup, hidle.atRest,
    bounded_of_payloads (by rw [hcalls]; decide) hsent hframes (by decide), hconnected, hpushes,
    hthreads⟩

theorem pushes_complete_pushRest :
    ∃ n, (machine ⟨{ onPush := true }, {}, 0⟩).run initial pushRest = some n ∧
      (smooth ⟨{ onPush := true }, {}, 0⟩).AtRest n ∧
      n.client.shared.1.out.pushes = given ⟨{ onPush := true }, {}, 0⟩ pushRest ∧
      given ⟨{ onPush := true }, {}, 0⟩ pushRest = [(9, [1]), (8, [2])] := by
  obtain ⟨n, hrun, hup, hrest, hbounded, hconnected, hpushes, -⟩ := pushRest_end
  have hall := (pushes_complete rfl hrun hup hrest hbounded hconnected).2 (Or.inl rfl)
  exact ⟨n, hrun, hrest, hall, hall.symm.trans hpushes⟩

end Protocomm.Cpp.Net
