import Protocomm.Cpp.Server.Wire
import Protocomm.Cpp.Server.Work

/-!
# A session at rest

A session that is served, while its connection and the callbacks do not fail, stays so. Once
its threads can do nothing but wait for the other side, every request read was answered,
and all its frames are written.
-/

namespace Protocomm.Cpp.Server

open Misc

/-- The connection fails, a callback throws, or `on_handshake` refuses the connection. -/
def Action.fails : Action → Bool
  | .acceptFailed | .readHandshake (.error _) | .readFrame (.error _) | .writeFailed
  | .answer false | .threw => true
  | _ => false

/-- The result of a read. -/
def Action.reads : Action → Bool
  | .readHandshake _ | .readFrame _ => true
  | _ => false

/-- Session `k` can go on only with a read, with a failure or with a call of the
    application. -/
def AtRest (cfg : Config) (k : Nat) (p : Pool Shared Thread) : Prop :=
  ∀ t ∈ p.threads, ∀ a, t.internal k a = true → calm cfg k p.shared t a = true →
    a.fails = false → a.reads = false → step cfg p.shared t a = none

/-- `Run` is on its way to its end. -/
def Running.leaves : Running → Bool
  | .onDisconnect | .erase | .unwind => true
  | _ => false

/-- The thread runs session `k`, or is about to start it. -/
def Thread.serves (k : Nat) : Thread → Bool
  | .acceptLoop (.insert j) => j == k
  | .wrapped j pc => j == k && !pc.leaves
  | _ => false

/-- Session `k` is served: its `Run` goes on and nobody has asked to close it. -/
structure Up (k : Nat) (p : Pool Shared Thread) : Prop where
  running : p.shared.running = true
  made : k < p.shared.made.length
  unclosed : (p.shared.session k).Open
  served : ∃ t ∈ p.threads, t.serves k = true

variable {cfg : Config} {p : Pool Shared Thread} {s s' : Shared} {t t' : Thread} {a : Action}
  {new : List Thread} {k : Nat} {session : Session}

/-! ## The session stays up -/

/-- A step of the session that does not fail, reads the expected handshake and only
    requests. -/
structure Smooth (cfg : Config) (k : Nat) (t : Thread) (a : Action) : Prop where
  internal : t.internal k a = true
  succeeds : a.fails = false
  handshake : ∀ received, a = .readHandshake (.ok received) → received = cfg.handshakeHeader
  requests : ∀ f, a = .readFrame (.ok f) → isRequest f = true

theorem Move.keeps_open (h : Move cfg s t a s' t' new) (hsmooth : Smooth cfg k t a)
    (hopen : (s.session k).Open) : (s'.session k).Open := by
  have hwrites : a ≠ .writeFailed := by
    rintro rfl
    cases hsmooth.succeeds
  refine h.open ?_ (fun _ _ => hwrites) (fun _ _ => hwrites) hopen
  rintro rfl
  cases hsmooth.internal

theorem Move.keeps_serving (h : Move cfg s t a s' t' new) (hsmooth : Smooth cfg k t a)
    (ht : t.serves k = true) : ∃ v ∈ t' :: new, v.serves k = true := by
  obtain ⟨-, hok, hhandshake, hrequests⟩ := hsmooth
  cases h with
  | insert =>
      exact ⟨_, List.mem_cons_of_mem _ List.mem_cons_self,
        by simpa [Thread.serves, Running.leaves] using ht⟩
  | connectThrow | handshakeFailed | answerNo | answerThrow | replyFailed | readFailed | readThrow
  | callThrow | traceThrow | pumpFailed => cases hok
  | handshakeMismatch received hsession hne => exact absurd (hhandshake received rfl) hne
  | readOther hdr payload hsession htype =>
      have hrequest := hrequests _ rfl
      simp [isRequest, htype] at hrequest
  | connectNoHeader | connect | handshakeAsk | handshakeOK | answerYes | greet | reply | read | miss
  | call | returned | respond =>
      exact ⟨_, List.mem_cons_self, by simpa [Thread.serves, Running.leaves] using ht⟩
  | onDisconnect | erase | unwind => simp [Thread.serves, Running.leaves] at ht
  | _ => cases ht

theorem Move.keeps_running (h : Move cfg s t a s' t' new) (hinternal : t.internal k a = true) :
    s'.running = s.running := by
  cases h with
  | shutdown => cases hinternal
  | _ => rfl

theorem Up.step {p' : Pool Shared Thread} {i : Nat} (hup : Up k p)
    (hstep : (calmProgram cfg k).machine.step p (i, a) = some p') (ht : p.threads[i]? = some t)
    (hsmooth : Smooth cfg k t a) : Up k p' := by
  obtain ⟨t₀, t', new, rest, ht₀, hs, hbefore, hafter⟩ := Program.machine_step_at hstep
  cases ht.symm.trans ht₀
  have hmove := (step_move (Program.restrict_step.mp hs).2).2
  refine ⟨(hmove.keeps_running hsmooth.internal).trans hup.running, ?_,
    hmove.keeps_open hsmooth hup.unclosed, ?_⟩
  · rcases hmove.length_made with hlen | ⟨-, -, -, hmade⟩
    · exact hlen ▸ hup.made
    · rw [hmade, List.length_append]
      exact Nat.lt_add_right _ hup.made
  · obtain ⟨v, hv, hserves⟩ := hup.served
    rcases List.mem_cons.mp (hbefore.mem_iff.mp hv) with rfl | hrest
    · obtain ⟨w, hw, hserves⟩ := hmove.keeps_serving hsmooth hserves
      refine ⟨w, hafter.mem_iff.mpr ?_, hserves⟩
      rw [← List.cons_append]
      exact List.mem_append_left _ hw
    · exact ⟨v, hafter.mem_iff.mpr (List.mem_cons_of_mem _ (List.mem_append_right _ hrest)),
        hserves⟩

/-- The handshake is read by `Run` of the session, and whole. -/
theorem handshake_length {received : Bytes}
    (hinternal : t.internal k (.readHandshake (.ok received)) = true)
    (hs : step cfg s t (.readHandshake (.ok received)) = some (s', t', new)) :
    t = .wrapped k .readHandshake ∧ received.length = cfg.handshakeHeader.length := by
  obtain ⟨j, rfl⟩ : ∃ j, t = .wrapped j .readHandshake := by
    cases (step_move hs).2 with
    | handshakeMismatch | handshakeAsk | handshakeOK => exact ⟨_, rfl⟩
    | erase _ hread => cases hread
  obtain rfl := beq_iff_eq.mp hinternal
  refine ⟨rfl, ?_⟩
  simp only [step] at hs
  split at hs
  · cases hs
  · split at hs
    · cases hs
    · simp only [wrappedStep] at hs
      split at hs
      · cases hs
      · rename_i hguard
        simpa using (not_or.mp (Bool.or_eq_true_iff.not.mp hguard)).2

/-- A frame is read by `Run` of the session. -/
theorem read_at {f : FrameHeader × Bytes} (hinternal : t.internal k (.readFrame (.ok f)) = true)
    (hs : step cfg s t (.readFrame (.ok f)) = some (s', t', new)) : t = .wrapped k .read := by
  cases (step_move hs).2 with
  | readOther | read =>
      obtain rfl := beq_iff_eq.mp hinternal
      rfl
  | erase _ hread => cases hread

/-! ## At rest -/

theorem Up.present (hup : Up k p) : p.shared.made[k]? = some (p.shared.session k) := by
  rw [Shared.session, List.getElem?_eq_getElem hup.made, Option.getD_some]

section

variable (hrest : AtRest cfg k p) (h : (calmProgram cfg k).machine.Reachable initial p)
  (hup : Up k p)
include hrest h hup

theorem AtRest.strand : (p.shared.session k).strand = [] := by
  have hnone :=
    hrest .io (io_mem (reachable_of_calm h)) (.handle k) (beq_self_eq_true k) rfl rfl rfl
  rw [step_io hup.running] at hnone
  cases hstrand : (p.shared.session k).strand with
  | nil => rfl
  | cons x rest => simp [ioStep, hup.present, hstrand] at hnone

theorem AtRest.no_pump (pc : Pumping) : .writePump k pc ∉ p.threads := by
  intro ht
  have stuck : ∀ a, a.fails = false → a.reads = false →
      writePumpStep p.shared k (p.shared.session k) pc a = none := by
    intro a hok hread
    rw [← step_writePump hup.running cfg hup.present]
    refine hrest _ ht a (beq_self_eq_true k) ?_ hok hread
    cases a with
    | writeFailed => cases hok
    | _ => rfl
  cases pc with
  | next => cases stuck .run rfl rfl
  | writing hdr payload sent =>
      have hlt : sent < (writeFrame hdr payload).length :=
        reachable_unfinished (reachable_of_calm h) _ ht
      have hnone := stuck (.wrote ((writeFrame hdr payload).length - sent)) rfl rfl
      simp only [writePumpStep, canWrite_rest hup.unclosed hlt, if_true] at hnone
      cases hnone
  | clear => cases stuck .run rfl rfl

/-- The session waits for the handshake or for a request. -/
theorem AtRest.reading :
    .wrapped k .readHandshake ∈ p.threads ∨ .wrapped k .read ∈ p.threads := by
  obtain ⟨t, ht, hserves⟩ := hup.served
  cases t with
  | acceptLoop pc =>
      cases pc with
      | accept => cases hserves
      | insert j =>
          obtain rfl := beq_iff_eq.mp hserves
          have hnone := hrest _ ht .run (beq_self_eq_true j) rfl rfl rfl
          simp [step, Thread.suspended, acceptLoopStep, hup.present] at hnone
  | wrapped j pc =>
      obtain ⟨hj, hpc⟩ := Bool.and_eq_true_iff.mp hserves
      obtain rfl := beq_iff_eq.mp hj
      have stuck : ∀ a, a.fails = false → a.reads = false →
          wrappedStep cfg p.shared j (p.shared.session j) pc a = none := by
        intro a hok hread
        rw [← step_wrapped hup.running cfg hup.present]
        refine hrest _ ht a (beq_self_eq_true j) ?_ hok hread
        cases pc <;> rfl
      cases pc with
      | readHandshake => exact Or.inl ht
      | read => exact Or.inr ht
      | onConnect =>
          have hnone := stuck .run rfl rfl
          simp only [wrappedStep] at hnone
          split at hnone <;> cases hnone
      | onHandshake => cases stuck (.answer true) rfl rfl
      | writeHandshake sent =>
          have hlt : sent < cfg.handshakeHeader.length :=
            reachable_unfinished (reachable_of_calm h) _ ht
          have hnone := stuck (.wrote (cfg.handshakeHeader.length - sent)) rfl rfl
          simp only [wrappedStep, canWrite_rest hup.unclosed hlt, if_true] at hnone
          split at hnone <;> cases hnone
      | lookup hdr payload =>
          have hnone := stuck .run rfl rfl
          simp only [wrappedStep] at hnone
          split at hnone <;> cases hnone
      | running hdr run => cases stuck (.returned [] {}) rfl rfl
      | respond hdr payload => cases stuck .run rfl rfl
      | onDisconnect | erase | unwind => cases hpc
  | _ => cases hserves

theorem AtRest.inactive : (p.shared.session k).writePumpActive = false := by
  by_contra hactive
  obtain ⟨pc, hpc⟩ := exists_pump (reachable_of_calm h) hup.present
    (Bool.eq_true_of_not_eq_false hactive)
  exact hrest.no_pump h hup pc hpc

/-- All frames given to the session are on the socket. -/
theorem AtRest.line {taken : List (FrameHeader × Bytes)}
    (htaken : Taken k (p.shared.session k) p.threads taken) :
    (p.shared.session k).line taken = (p.shared.session k).out.frames := by
  have hidle := hrest.inactive h hup
  have hqueue : (p.shared.session k).writeQueue = [] := by
    obtain ⟨acts, hrun⟩ := reachable_of_calm h
    have hsound := Pumped.sound (V := pump k) (P := program cfg) rfl rfl
      (by simp [initial, pump, Thread.isPump]) (fun _ _ _ _ _ _ hs => (step_move hs).2.pump) hrun
    by_contra hne
    have hactive := (hsound.served (by simpa [pump, Shared.writeQueue, hup.present] using hne)).1
    simp [pump, Shared.writePumpActive, hup.present, hidle] at hactive
  rw [Session.line, htaken.idle hidle, hqueue, hrest.strand h hup]
  simp

/-- A session that waits for a request has answered all it has read. -/
theorem AtRest.answers (hread : .wrapped k .read ∈ p.threads) :
    ((p.shared.session k).out.frames.filter isResponse).map (fun f => f.1.callID) =
      (p.shared.requestsOf k).map fun f => f.1.callID := by
  obtain ⟨taken, handled, busy, hA⟩ := (calm_serves cfg k).answers h
  have hbusy : busy = [] := hA.hand _ hread rfl
  have hline := hA.line
  rw [hrest.line h hup hA.pumped] at hline
  rw [hline, hA.requests, hbusy, List.append_nil]

/-- The other side can receive the whole handshake and all frames. -/
theorem AtRest.received (hread : .wrapped k .read ∈ p.threads) :
    (p.shared.session k).out.received =
      cfg.handshakeHeader ++ (p.shared.session k).out.frames.flatMap encodeFrame := by
  exact calm_received_idle h (reachable_handshake (reachable_of_calm h) _ hread)
    hup.unclosed.2.1 (hrest.inactive h hup)

end

end Protocomm.Cpp.Server
