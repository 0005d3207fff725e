import Protocomm.Cpp.Channel.WriteQueue
import Protocomm.Misc.Recorder
import Protocomm.Misc.Restrict
import Protocomm.RequestStream

/-!
# The connection of a C++ channel

What a channel gives to its socket and gets from it, in runs in which the connection does
not fail and the channel is not shut down. There is one connection then, and what is
written on it is the handshake and after it the requests of the registered calls, in the
order of their registration.
-/

namespace Protocomm.Cpp.Channel

open Misc

/-- The connection of a channel: the bytes given to `async_write`, the frames among them,
    and the frames that `ReadLoop` has read. -/
structure Link where
  wrote : Bytes := []
  sent : List (FrameHeader × Bytes) := []
  got : List (FrameHeader × Bytes) := []
  deriving DecidableEq, Repr

/-- What a step that leads to a place does on the connection: the `async_write` of the
    handshake (`channel.cc:193`) or of a frame begins, or a frame was read. -/
def Link.follow (header : Bytes) (l : Link) : Action → Thread → Link
  | _, .connectCoro .writeHandshake => { l with wrote := l.wrote ++ header }
  | _, .writePump (.writing hdr payload) =>
      { l with wrote := l.wrote ++ writeFrame hdr payload, sent := l.sent ++ [(hdr, payload)] }
  | .readFrame (.frame hdr payload), .readLoop .reading =>
      { l with got := l.got ++ [(hdr, payload)] }
  | _, _ => l

/-- A channel with its connection. -/
def linked (cfg : Config) : Program (Shared × Link) Thread Action :=
  (program cfg).traced (Link.follow cfg.handshakeHeader)

/-- The connection does not fail and no `Shutdown` begins. -/
def calm (cfg : Config) (_ : Shared × Link) : Thread → Action → Bool
  | .app, .shutdown => false
  | .connectCoro _, .op err | .writePump _, .op err => err.isNone
  | .connectCoro _, .readHandshake r => decide (r = .ok cfg.handshakeHeader)
  | .readLoop _, .readFrame .throw => false
  | .readLoop _, a => !a.failsReader
  | _, _ => true

/-- The runs of a channel whose connection does not fail. -/
def calmProgram (cfg : Config) : Program (Shared × Link) Thread Action :=
  (linked cfg).restrict (calm cfg)

/-- A new channel and its link. -/
def linkedInitial : Pool (Shared × Link) Thread := ⟨({}, {}), [.app]⟩

variable {cfg : Config} {p : Pool (Shared × Link) Thread} {s s' : Shared × Link} {l : Link}
  {t t' : Thread} {a : Action} {new : List Thread} {header : Bytes}

theorem calm_step (h : (calmProgram cfg).step s t a = some (s', t', new)) :
    calm cfg s t a = true ∧ s'.2 = s.2.follow cfg.handshakeHeader a t' ∧
      step cfg s.1 t a = some (s'.1, t', new) := by
  obtain ⟨hcalm, hs⟩ := Program.restrict_step.mp h
  exact ⟨hcalm, Program.traced_step hs⟩

theorem reachable_of_calm (h : (calmProgram cfg).machine.Reachable linkedInitial p) :
    (machine cfg).Reachable initial p.plain :=
  Program.reachable_plain (fun _ _ _ _ _ _ hs => (calm_step hs).2.2) h

@[simp]
theorem follow_resume (k : Caller) (st : Status) : l.follow header a (k.resume st) = l :=
  resume_const (l.follow header a) rfl (fun _ _ _ => rfl) (fun _ _ => rfl) k st

@[simp]
theorem follow_return (r : Requester) : l.follow header a r.resume = l := by
  cases r <;> rfl

theorem sent_follow (l : Link) (header : Bytes) (a : Action) (t' : Thread) :
    l.sent <+: (l.follow header a t').sent := by
  unfold Link.follow
  split
  · exact List.prefix_refl _
  · exact List.prefix_append _ _
  · exact List.prefix_refl _
  · exact List.prefix_refl _

/-- Only `ReadLoop` gets frames. -/
theorem Move.got {s s' : Shared} (h : Move cfg s t a s' t' new) (l : Link) (header : Bytes) :
    (l.follow header a t').got = l.got ∨
      ∃ hdr payload, t = .readLoop .reading ∧ a = .readFrame (.frame hdr payload) ∧
        (l.follow header a t').got = l.got ++ [(hdr, payload)] := by
  cases h with
  | push hdr payload | skip hdr payload | take hdr payload =>
      exact Or.inr ⟨hdr, payload, rfl, rfl, rfl⟩
  | checkOK | ensureStopped | waitSet | waitBroken =>
      rw [follow_resume]
      exact Or.inl rfl
  | requestStopped | ioThreadMissing | postRequest =>
      rw [follow_return]
      exact Or.inl rfl
  | connectStep pc pc' a hnext => cases hnext <;> exact Or.inl rfl
  | _ => exact Or.inl rfl

/-- Nothing shuts the channel down. -/
theorem calm_open (h : (calmProgram cfg).machine.Reachable linkedInitial p) :
    p.shared.1.stopped = false ∧ p.shared.1.connState ≠ .closed := by
  have hlive : p.shared.1.destroying = false := by
    refine Program.reachable_shared (I := fun s => s.1.destroying = false) rfl ?_ h
    rintro u _ ⟨s', l'⟩ t t' new a _ hI hs
    obtain ⟨hcalm, -, hs⟩ := calm_step hs
    cases step_move hs with
    | destroy => cases hcalm
    | _ => exact hI
  have hplain := reachable_of_calm h
  have hopen : p.shared.1.stopped = false := by
    cases hstopped : p.shared.1.stopped with
    | false => rfl
    | true => cases ((reachable_goingDown hplain).1.destroying hstopped).symm.trans hlive
  refine ⟨hopen, fun hclosed => ?_⟩
  cases ((reachable_connection hplain).closed hclosed).symm.trans hopen

/-- A step of `ConnectCoro` that does not fail. -/
theorem calm_connect {pc : Connecting} {s s' : Shared} {l : Shared × Link}
    (hs : step cfg s (.connectCoro pc) a = some (s', t', new))
    (hcalm : calm cfg l (.connectCoro pc) a = true) :
    (∃ pc', pc.Next cfg a pc' ∧ s' = s ∧ t' = .connectCoro pc' ∧ new = []) ∨
      (pc = .readHandshake ∨ pc = .connect ∧ cfg.handshakeHeader = []) ∧
        connectDone cfg s = (s', t', new) := by
  simp only [step] at hs
  unfold connectCoroStep at hs
  split at hs
  · cases hs
    exact Or.inl ⟨_, .resolve, rfl, rfl, rfl⟩
  · cases hcalm
  · cases hs
    exact Or.inl ⟨_, .connect, rfl, rfl, rfl⟩
  · cases hcalm
  · split at hs
    · exact Or.inr ⟨Or.inr ⟨rfl, ‹_›⟩, Option.some.inj hs⟩
    · cases hs
      exact Or.inl ⟨_, .writeHandshake ‹_›, rfl, rfl, rfl⟩
  · cases hcalm
  · cases hs
    exact Or.inl ⟨_, .readHandshake, rfl, rfl, rfl⟩
  · simp [calm] at hcalm
  · split at hs
    · cases hs
    · split at hs
      · simp_all [calm]
      · exact Or.inr ⟨Or.inl rfl, Option.some.inj hs⟩
  · cases hs

/-! ## What is written -/

/-- The requests sent and those in `write_queue` are the requests of the registered calls,
    in their order. -/
structure Sends (s : Shared) (l : Link) : Prop where
  ids : (l.sent ++ s.writeQueue).map (fun f => f.1.callID) = s.registered.map Registration.callId
  requests : ∀ f ∈ l.sent ++ s.writeQueue, isRequest f = true ∧ Sized f

theorem Sends.submit {s s' : Shared} (h : Sends s l) {call : Nat} {methodId : UInt32}
    {request : Bytes} (hregistered : s'.registered = s.registered ++ [⟨call, s.nextCallId⟩])
    (hqueue : s'.writeQueue =
      s.writeQueue ++ [(requestHeader s.nextCallId methodId request, request)]) : Sends s' l := by
  refine ⟨?_, ?_⟩
  · rw [hqueue, hregistered, ← List.append_assoc, List.map_append, h.ids, List.map_append]
    rfl
  · rw [hqueue, ← List.append_assoc]
    exact List.forall_mem_append.mpr ⟨h.requests, List.forall_mem_singleton.mpr ⟨rfl, rfl⟩⟩

theorem calm_sends (h : (calmProgram cfg).machine.Reachable linkedInitial p) :
    Sends p.shared.1 p.shared.2 := by
  refine Program.reachable_shared (I := fun s => Sends s.1 s.2) ⟨rfl, List.forall_mem_nil _⟩ ?_ h
  rintro u _ ⟨s', l'⟩ t t' new a _ hI hs
  obtain ⟨hcalm, hlink, hs⟩ := calm_step hs
  obtain rfl : l' = _ := hlink
  cases step_move hs with
  | submit | submitSpawn => exact hI.submit rfl rfl
  | pumpNext pc a hdr payload rest hqueue =>
      have hsame : u.shared.2.sent ++ [(hdr, payload)] ++ rest =
          u.shared.2.sent ++ u.shared.1.writeQueue := by
        rw [hqueue, List.append_assoc]
        rfl
      exact ⟨(congrArg _ hsame).trans hI.ids, fun f hf => hI.requests f (hsame ▸ hf)⟩
  | pumpFailed => cases hcalm
  | checkOK | ensureStopped | waitSet | waitBroken =>
      rw [follow_resume]
      exact ⟨hI.ids, hI.requests⟩
  | requestStopped | ioThreadMissing | postRequest =>
      rw [follow_return]
      exact ⟨hI.ids, hI.requests⟩
  | connectStep pc pc' a hnext => cases hnext <;> exact ⟨hI.ids, hI.requests⟩
  | _ => exact ⟨hI.ids, hI.requests⟩

/-- The bytes of `ConnectCoro` so far. -/
def Connecting.wrote (header : Bytes) : Connecting → Bytes
  | .writeHandshake | .readHandshake => header
  | _ => []

/-- The bytes of the frames sent. -/
def Link.frames (l : Link) : Bytes := l.sent.flatMap fun f => writeFrame f.1 f.2

/-- Nothing but the handshake is written before the channel is connected. -/
structure Greets (header : Bytes) (s : Shared) (l : Link) : Prop where
  idle : s.connState = .idle → l.wrote = []
  before : s.connected = false → l.sent = [] ∧ s.writeQueue = [] ∧ l.wrote <+: header
  after : s.connected = true → l.wrote = header ++ l.frames

theorem calm_connector (h : (calmProgram cfg).machine.Reachable linkedInitial p) {pc : Connecting}
    (ht : .connectCoro pc ∈ p.threads) :
    p.shared.1.connState ≠ .idle ∧ p.shared.1.connected = false := by
  have hplain := reachable_of_calm h
  refine ⟨fun hidle => ?_, ?_⟩
  · have hcoroutines := reachable_coroutines hplain
    rw [show p.plain.shared.connState = .idle from hidle] at hcoroutines
    have hle := (le_sum_map (f := Thread.connectors) ht).trans hcoroutines.1.le
    simp [Thread.connectors] at hle
  · cases hconnected : p.shared.1.connected with
    | false => rfl
    | true =>
        rcases (reachable_connection hplain).connected hconnected with hstate | hclosed
        · exact absurd hstate (connState_of_connector hplain ht)
        · exact absurd hclosed (calm_open h).2

/-- There is one `ConnectCoro`. -/
theorem calm_connector_unique (h : (calmProgram cfg).machine.Reachable linkedInitial p)
    {pc pc' : Connecting} {rest : List Thread}
    (hperm : p.threads.Perm (.connectCoro pc :: rest)) : .connectCoro pc' ∉ rest := by
  intro hmem
  have hle := (reachable_coroutines (reachable_of_calm h)).le_one
  obtain ⟨front, back, rfl⟩ := List.append_of_mem hmem
  rw [show p.plain.threads = p.threads from rfl, (hperm.map Thread.connectors).sum_eq] at hle
  simp [Thread.connectors] at hle
  omega

/-- A step of another thread than `ConnectCoro`. -/
theorem Move.greets {s s' : Shared} (h : Move cfg s t a s' t' new)
    (ht : ∀ pc, t ≠ .connectCoro pc) (hI : Greets header s l)
    (hsubmit : ∀ methodId request cb, .submit methodId request cb ∈ s.strand →
      s.connected = true)
    (hstate : s.connected = true → s.connState ≠ .idle) :
    Greets header s' (l.follow header a t') ∧
      (s.connected = false → (l.follow header a t').wrote = l.wrote) := by
  have keep : ∀ {s' : Shared} {l' : Link}, l'.wrote = l.wrote → l'.sent = l.sent →
      s'.connected = s.connected → s'.writeQueue = s.writeQueue →
      (s'.connState = .idle → s.connState = .idle) →
      Greets header s' l' ∧ (s.connected = false → l'.wrote = l.wrote) := by
    intro s' l' hwrote hsent hconnected hqueue hstate
    refine ⟨⟨fun hidle => hwrote.trans (hI.idle (hstate hidle)), fun hdown => ?_, fun hup => ?_⟩,
      fun _ => hwrote⟩
    · rw [hsent, hqueue, hwrote]
      exact hI.before (hconnected ▸ hdown)
    · rw [hwrote, Link.frames, hsent]
      exact hI.after (hconnected ▸ hup)
  cases h with
  | connectStep pc | connectFailed pc | connectClosed pc | connectDone pc =>
      exact absurd rfl (ht pc)
  | submit methodId request cb rest hstrand | submitSpawn methodId request cb rest hstrand =>
      have hup := hsubmit methodId request cb (hstrand ▸ List.mem_cons_self)
      refine ⟨⟨hI.idle, fun hdown => ?_, hI.after⟩, fun _ => rfl⟩
      cases hup.symm.trans hdown
  | pumpNext pc a hdr payload rest hqueue =>
      have hup : s.connected = true := by
        cases hconnected : s.connected with
        | true => rfl
        | false => cases hqueue.symm.trans (hI.before hconnected).2.1
      refine ⟨⟨fun hidle => absurd hidle (hstate hup), fun hdown => ?_, fun _ => ?_⟩,
        fun hdown => ?_⟩
      · cases hup.symm.trans hdown
      · simp only [Link.follow, hI.after hup, Link.frames, List.flatMap_append,
          List.flatMap_singleton, List.append_assoc]
      · cases hup.symm.trans hdown
  | pumpFailed =>
      refine ⟨⟨hI.idle, fun hdown => ?_, hI.after⟩, fun _ => rfl⟩
      obtain ⟨hsent, -, hwrote⟩ := hI.before hdown
      exact ⟨hsent, rfl, hwrote⟩
  | checkOK | ensureStopped | waitSet | waitBroken =>
      rw [follow_resume]
      exact keep rfl rfl rfl rfl id
  | requestStopped | ioThreadMissing | postRequest =>
      rw [follow_return]
      exact keep rfl rfl rfl rfl id
  | connectSpawn | shutdownHandler | closeIdle => exact keep rfl rfl rfl rfl nofun
  | _ => exact keep rfl rfl rfl rfl id

/-- Only an idle channel starts a `ConnectCoro`. -/
theorem Move.connectors {s s' : Shared} (h : Move cfg s t a s' t' new)
    (ht : ∀ pc, t ≠ .connectCoro pc) :
    t'.connectors = 0 ∧ ∀ v ∈ new, v.connectors ≠ 0 →
      v = .connectCoro .spawned ∧ s.connState = .idle := by
  cases h with
  | connectStep pc | connectFailed pc | connectClosed pc | connectDone pc =>
      exact absurd rfl (ht pc)
  | connectSpawn cb rest hstrand hstate =>
      exact ⟨rfl, List.forall_mem_singleton.mpr fun _ => ⟨rfl, hstate⟩⟩
  | checkOK | ensureStopped | waitSet | waitBroken =>
      exact ⟨resume_connectors _ _, List.forall_mem_nil _⟩
  | requestStopped | ioThreadMissing | postRequest =>
      exact ⟨return_connectors _, List.forall_mem_nil _⟩
  | call | connect | connectAsync | runCallbacks | destroy | startIoThread | submitSpawn =>
      exact ⟨rfl, List.forall_mem_singleton.mpr fun hbad => absurd rfl hbad⟩
  | _ => exact ⟨rfl, List.forall_mem_nil _⟩

theorem Connecting.Next.wrote {pc pc' : Connecting} (h : pc.Next cfg a pc')
    (hwrote : l.wrote = pc.wrote cfg.handshakeHeader) :
    (l.follow cfg.handshakeHeader a (.connectCoro pc')).wrote = pc'.wrote cfg.handshakeHeader ∧
      (l.follow cfg.handshakeHeader a (.connectCoro pc')).sent = l.sent := by
  cases h with
  | writeHandshake => exact ⟨congrArg (· ++ cfg.handshakeHeader) hwrote, rfl⟩
  | resolve | connect | readHandshake => exact ⟨hwrote, rfl⟩

theorem wrote_initial (header : Bytes) (pc : Connecting) : pc.wrote header <+: header := by
  cases pc with
  | writeHandshake | readHandshake => exact List.prefix_refl _
  | spawned | resolve | connect => exact List.nil_prefix

theorem calm_greets (h : (calmProgram cfg).machine.Reachable linkedInitial p) :
    Greets cfg.handshakeHeader p.shared.1 p.shared.2 ∧
      ∀ t ∈ p.threads, ∀ pc, t = .connectCoro pc →
        p.shared.2.wrote = pc.wrote cfg.handshakeHeader := by
  refine Program.reachable_local (P := calmProgram cfg)
    (I := fun s => Greets cfg.handshakeHeader s.1 s.2)
    (J := fun s t => ∀ pc, t = .connectCoro pc → s.2.wrote = pc.wrote cfg.handshakeHeader)
    ⟨⟨fun _ => rfl, fun _ => ⟨rfl, rfl, List.nil_prefix⟩, by simp [linkedInitial]⟩,
      by simp [linkedInitial]⟩ ?_ h
  rintro u hu ⟨s', l'⟩ t t' new rest a hperm hI hJ hs
  obtain ⟨hcalm, hlink, hs⟩ := calm_step hs
  obtain rfl : l' = _ := hlink
  have hmem : t ∈ u.threads := hperm.mem_iff.mpr List.mem_cons_self
  have hplain := reachable_of_calm hu
  by_cases hconnector : ∃ pc, t = .connectCoro pc
  · obtain ⟨pc, rfl⟩ := hconnector
    obtain ⟨hnotIdle, hdown⟩ := calm_connector hu hmem
    obtain ⟨hsent, hqueue, -⟩ := hI.before hdown
    have hothers : ∀ v ∈ rest, ∀ pc', v ≠ .connectCoro pc' := by
      rintro v hv pc' rfl
      exact calm_connector_unique hu hperm hv
    rcases calm_connect hs hcalm with ⟨pc', hnext, rfl, rfl, rfl⟩ | ⟨hpc, hdone⟩
    · obtain ⟨hwrote, hsame⟩ := hnext.wrote (hJ pc rfl)
      refine ⟨⟨fun hidle => absurd hidle hnotIdle, fun _ => ⟨hsame.trans hsent, hqueue, ?_⟩,
        fun hup => ?_⟩, ?_, List.forall_mem_nil _,
        fun v hv _ pc' hpc' => absurd hpc' (hothers v hv pc')⟩
      · rw [hwrote]
        exact wrote_initial _ pc'
      · cases hdown.symm.trans hup
      · rintro _ ⟨⟩
        exact hwrote
    · -- the handshake is complete, and nothing else was written
      have hwrote : u.shared.2.wrote = cfg.handshakeHeader := by
        rcases hpc with rfl | ⟨rfl, hheader⟩
        · exact hJ _ rfl
        · exact (hJ _ rfl).trans hheader.symm
      obtain ⟨hopen, hstate⟩ := calm_open hu
      simp only [connectDone, hopen, hstate, decide_false, Bool.or_self, Bool.false_eq_true,
        if_false, Prod.mk.injEq] at hdone
      obtain ⟨rfl, rfl, rfl⟩ := hdone
      refine ⟨⟨nofun, nofun, fun _ => ?_⟩, nofun, by simp,
        fun v hv _ pc' hpc' => absurd hpc' (hothers v hv pc')⟩
      simp [Link.follow, hwrote, Link.frames, hsent]
  · have hother : ∀ pc, t ≠ .connectCoro pc := fun pc hpc => hconnector ⟨pc, hpc⟩
    have hstate : u.shared.1.connected = true → u.shared.1.connState ≠ .idle := by
      intro hup hidle
      rcases (reachable_connection hplain).connected hup with hbad | hbad
      · cases hbad.symm.trans hidle
      · cases hbad.symm.trans hidle
    have hmove := step_move hs
    obtain ⟨hgreets, hsame⟩ := hmove.greets hother hI (reachable_admitted hplain).1.2 hstate
    obtain ⟨hnone, hnew⟩ := hmove.connectors hother
    refine ⟨hgreets, ?_, ?_, fun v hv hold pc hpc => ?_⟩
    · rintro pc rfl
      cases hnone
    · rintro v hv pc rfl
      obtain ⟨hspawned, hidle⟩ := hnew _ hv Nat.one_ne_zero
      cases hspawned
      have hdown : u.shared.1.connected = false := Bool.eq_false_iff.mpr fun hup => hstate hup hidle
      exact (hsame hdown).trans (hI.idle hidle)
    · have hdown := (calm_connector hu (hperm.mem_iff.mpr (List.mem_cons_of_mem t (hpc ▸ hv)))).2
      exact (hsame hdown).trans (hold pc hpc)

/-- The channel writes the handshake and then its requests. -/
theorem calm_wrote (h : (calmProgram cfg).machine.Reachable linkedInitial p) :
    p.shared.2.wrote <+: cfg.handshakeHeader ++ p.shared.2.frames := by
  have hgreets := (calm_greets h).1
  cases hconnected : p.shared.1.connected with
  | true => rw [hgreets.after hconnected]
  | false =>
      obtain ⟨hsent, -, hwrote⟩ := hgreets.before hconnected
      rw [Link.frames, hsent]
      exact hwrote.trans (List.prefix_append _ _)

end Protocomm.Cpp.Channel
