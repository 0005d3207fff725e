import Protocomm.Cpp.Channel.Registry

/-!
# The shutdown of a channel

The destructor runs `Shutdown` once. It sets `stopped`, posts the handler that
closes the channel and resets the work guard, so the io thread ends only after
that handler has run; without an io thread it closes the channel itself. A
closed channel has nothing pending.
-/

namespace Protocomm.Cpp.Channel

open Misc

variable {cfg : Config} {p : Pool Shared Thread} {s s' : Shared} {t t' : Thread} {a : Action}
  {new : List Thread}

/-- The channel is closed, or the handler that closes it is on the strand. -/
def Shared.Closing (s : Shared) : Prop := .shutdown ∈ s.strand ∨ s.connState = .closed

theorem Move.started_mono (h : Move cfg s t a s' t' new) (hs : s.ioThreadStarted = true) :
    s'.ioThreadStarted = true := by
  cases h with
  | startIoThread => rfl
  | _ => exact hs

/-- The io thread is not started any more once `stopped` is set. -/
theorem Move.not_started (h : Move cfg s t a s' t' new) (hstopped : s.stopped = true)
    (hs : s.ioThreadStarted = false) : s'.ioThreadStarted = false := by
  cases h with
  | startIoThread r hnew hopen =>
      rw [hopen] at hstopped
      cases hstopped
  | _ => exact hs

theorem Move.done_mono (h : Move cfg s t a s' t' new) (hs : s.ioThreadDone = true) :
    s'.ioThreadDone = true := by
  cases h with
  | exit => rfl
  | _ => exact hs

theorem Move.destroying_mono (h : Move cfg s t a s' t' new) (hs : s.destroying = true) :
    s'.destroying = true := by
  cases h with
  | destroy => rfl
  | _ => exact hs

theorem Move.closed_mono (h : Move cfg s t a s' t' new) (hs : s.connState = .closed) :
    s'.connState = .closed := by
  cases h with
  | shutdownHandler | closeIdle => rfl
  | connectSpawn cb rest hstrand hstate =>
      rw [hstate] at hs
      cases hs
  | connectDone pc a hclosed => exact absurd hs hclosed
  | connectFailed | connectClosed => simp [finish, Shared.coReturn, hs]
  | _ => exact hs

/-- The handler of `Shutdown` stays on the strand until it closes the channel. -/
theorem Move.closing_mono (h : Move cfg s t a s' t' new) (hs : s.Closing) : s'.Closing := by
  rcases hs with hmem | hclosed
  · cases h with
    | shutdownHandler => exact Or.inr rfl
    | connectRefused cb rest hstrand | connectThere cb rest hstrand | connectWait cb rest hstrand
    | connectSpawn cb rest hstrand | submitStopped m r cb rest hstrand
    | submit m r cb rest hstrand | submitSpawn m r cb rest hstrand =>
        rw [hstrand] at hmem
        exact Or.inl ((List.mem_cons.mp hmem).resolve_left nofun)
    | postRequest | postCall | postShutdown | nestedCall | nestedConnect =>
        exact Or.inl (List.mem_append_left _ hmem)
    | _ => exact Or.inl hmem
  · exact Or.inr (h.closed_mono hclosed)

/-- A thread in `Shutdown`, counted. -/
def Thread.shutters : Thread → Nat
  | .shutdown _ => 1
  | _ => 0

theorem resume_shutters (k : Caller) (st : Status) : (k.resume st).shutters = 0 :=
  resume_const Thread.shutters rfl (fun _ _ _ => rfl) (fun _ _ => rfl) k st

theorem Requester.resume_shutters (r : Requester) : r.resume.shutters = 0 := by
  cases r <;> rfl

/-- Only the destructor runs `Shutdown`. -/
theorem reachable_shutters (h : (machine cfg).Reachable initial p) :
    Program.owned (fun _ => 0) Thread.shutters p.shared p.threads =
      if p.shared.destroying then 1 else 0 := by
  refine Program.reachable_owned _ _ (fun s => if s.destroying then 1 else 0) ?_ ?_ h
  · rfl
  · intro u _ s' t t' new rest a _ _ hs
    have hmove := step_move hs
    cases hmove with
    | destroy hlive => exact ⟨1, by simp [hlive], rfl⟩
    | checkOK | ensureStopped | waitSet | waitBroken =>
        exact ⟨0, rfl, by rw [resume_shutters]; rfl⟩
    | requestStopped | ioThreadMissing | postRequest =>
        exact ⟨0, rfl, by rw [Requester.resume_shutters]; rfl⟩
    | _ => exact ⟨0, rfl, rfl⟩

/-- Two threads are not both in `Shutdown`. -/
theorem shutters_rest (h : (machine cfg).Reachable initial p) {rest : List Thread}
    (hperm : p.threads.Perm (t :: rest)) (ht : t.shutters = 1) {v : Thread} (hv : v ∈ rest) :
    v.shutters = 0 := by
  have hle := (Program.add_add_le_owned hperm hv).trans (reachable_shutters h).le
  split at hle <;> omega

/-- The io thread has ended, or never was. -/
def Shared.Joined (s : Shared) : Prop := s.ioThreadDone = true ∨ s.ioThreadStarted = false

/-- What holds while a thread is at a place. -/
def Thread.Phase (s : Shared) : Thread → Prop
  | .io => s.ioThreadStarted = true
  | .connectCoro _ => s.ioThreadStarted = true
  | .shutdown .exchange => s.destroying = true ∧ s.stopped = false
  | .shutdown .post => s.ioThreadStarted = true
  | .shutdown .resetGuard => s.Closing
  | .shutdown .closeIdle => s.ioThreadStarted = false
  | .shutdown .drain => s.connState = .closed ∧ s.Joined
  | .shutdown .returned => s.connState = .closed ∧ s.Joined
  | _ => True

/-- What holds of the channel on its way down. -/
structure GoingDown (s : Shared) : Prop where
  destroying : s.stopped = true → s.destroying = true
  started : s.connected = true → s.ioThreadStarted = true
  guard : s.workGuard = false → s.Closing
  joined : s.ioThreadDone = true → s.connState = .closed
  empty : s.connState = .closed → s.pending = ∅

theorem Move.joined_mono (h : Move cfg s t a s' t' new) (hstopped : s.stopped = true)
    (hs : s.Joined) : s'.Joined := by
  rcases hs with hdone | hstarted
  · exact Or.inl (h.done_mono hdone)
  · exact Or.inr (h.not_started hstopped hstarted)

/-- A step of another thread keeps the phase of a thread. -/
theorem Move.phase_frame (h : Move cfg s t a s' t' new) {v : Thread}
    (hstopping : v.stopping = true → s.stopped = true)
    (halone : t = .shutdown .exchange → v.shutters = 0) (hv : v.Phase s) : v.Phase s' := by
  cases v with
  | io => exact h.started_mono hv
  | connectCoro pc => exact h.started_mono hv
  | shutdown pc =>
      cases pc with
      | exchange =>
          refine ⟨h.destroying_mono hv.1, ?_⟩
          cases h with
          | exchange => cases halone rfl
          | _ => exact hv.2
      | post => exact h.started_mono hv
      | resetGuard => exact h.closing_mono hv
      | closeIdle => exact h.not_started (hstopping rfl) hv
      | drain => exact ⟨h.closed_mono hv.1, h.joined_mono (hstopping rfl) hv.2⟩
      | returned => exact ⟨h.closed_mono hv.1, h.joined_mono (hstopping rfl) hv.2⟩
      | _ => trivial
  | _ => trivial

theorem resume_phase (k : Caller) (st : Status) (s : Shared) : (k.resume st).Phase s :=
  of_eq_true (resume_const (Thread.Phase s) rfl (fun _ _ _ => rfl) (fun _ _ => rfl) k st)

/-- A step brings its thread to its next phase. -/
theorem Move.phase_next (h : Move cfg s t a s' t' new) (hdown : GoingDown s)
    (ht : t.Phase s) : t'.Phase s' := by
  cases h with
  | shutdownAgain hstopped =>
      rw [ht.2] at hstopped
      cases hstopped
  | readStarted hstarted => exact hstarted
  | readIdle hstarted => exact hstarted
  | postShutdown => exact Or.inl (List.mem_append_right _ List.mem_cons_self)
  | join hdone => exact ⟨hdown.joined hdone, Or.inl hdone⟩
  | closeIdle => exact ⟨rfl, Or.inr ht⟩
  | drain => exact ht
  | checkOK | ensureStopped | waitSet | waitBroken => exact resume_phase _ _ _
  | requestStopped r | ioThreadMissing r | postRequest r => cases r <;> trivial
  | _ => trivial

/-- A new thread is in its first phase. -/
theorem Move.phase_new (h : Move cfg s t a s' t' new)
    (hopen : s.stopped = true → s.destroying = true) (ht : t.Phase s) :
    ∀ v ∈ new, v.Phase s' := by
  intro v hv
  cases h with
  | destroy hlive =>
      rw [List.mem_singleton.mp hv]
      refine ⟨rfl, ?_⟩
      by_contra hstopped
      rw [hopen (Bool.not_eq_false _ |>.mp hstopped)] at hlive
      cases hlive
  | startIoThread =>
      rw [List.mem_singleton.mp hv]
      rfl
  | connectSpawn =>
      rw [List.mem_singleton.mp hv]
      exact ht
  | call | connect | connectAsync | runCallbacks | submitSpawn | connectDone =>
      rw [List.mem_singleton.mp hv]
      trivial
  | _ => cases hv

/-- A closed channel takes no further calls. -/
theorem Move.empty_mono (h : Move cfg s t a s' t' new) (hconnection : Connection s)
    (hempty : s.connState = .closed → s.pending = ∅) :
    s'.connState = .closed → s'.pending = ∅ := by
  intro hclosed
  cases h with
  | submit m r cb rest hstrand hopen | submitSpawn m r cb rest hstrand hopen =>
      rw [hconnection.closed hclosed] at hopen
      cases hopen
  | take hdr payload cb htype hlookup =>
      rw [hempty hclosed] at hlookup
      cases hlookup
  | shutdownHandler | closeIdle | readFailed | pumpFailed => rfl
  | connectSpawn | connectDone => cases hclosed
  | connectFailed pc a code message hcode =>
      have hst : (⟨code, message⟩ : Status).isOK = false := by simpa [Status.isOK] using hcode
      rw [Shared.coReturn, finish_connState hst] at hclosed
      split at hclosed
      · exact hempty ‹_›
      · cases hclosed
  | connectClosed =>
      rw [Shared.coReturn, finish_connState rfl] at hclosed
      split at hclosed
      · exact hempty ‹_›
      · cases hclosed
  | _ => exact hempty hclosed

/-- What one step does to the shared state on its way down. -/
theorem GoingDown.move (h : GoingDown s) (hmove : Move cfg s t a s' t' new) (ht : t.Phase s)
    (hconnection : Connection s) : GoingDown s' := by
  have hempty := hmove.empty_mono hconnection h.empty
  have hclosing := hmove.closing_mono
  have hclosed := hmove.closed_mono
  refine ⟨?_, ?_, ?_, ?_, hempty⟩
  · cases hmove with
    | exchange => exact fun _ => ht.1
    | destroy => exact fun _ => rfl
    | _ => exact h.destroying
  · cases hmove with
    | connectDone => exact fun _ => ht
    | startIoThread => exact fun _ => rfl
    | _ => exact h.started
  · cases hmove with
    | resetGuard => exact fun _ => ht
    | _ => exact fun hguard => hclosing (h.guard hguard)
  · cases hmove with
    | exit hguard hstrand hwork =>
        intro _
        rcases h.guard hguard with hmem | hstate
        · rw [hstrand] at hmem
          cases hmem
        · exact hstate
    | _ => exact fun hdone => hclosed (h.joined hdone)

theorem reachable_goingDown (h : (machine cfg).Reachable initial p) :
    GoingDown p.shared ∧ ∀ t ∈ p.threads, t.Phase p.shared := by
  refine Program.reachable_local (I := GoingDown) (J := fun s t => t.Phase s) ⟨?_, ?_⟩ ?_ h
  · exact ⟨nofun, nofun, nofun, nofun, nofun⟩
  · intro t ht
    rw [List.mem_singleton.mp ht]
    trivial
  · intro u hu s' t t' new rest a hperm hI hJ hs
    have hmove := step_move hs
    refine ⟨hI.move hmove hJ (reachable_connection hu), hmove.phase_next hI hJ,
      hmove.phase_new hI.destroying hJ, ?_⟩
    intro v hv hphase
    have hmem : v ∈ u.threads := hperm.mem_iff.mpr (List.mem_cons_of_mem t hv)
    refine hmove.phase_frame ((reachable_stopping hu).2 v hmem) ?_ hphase
    rintro rfl
    exact shutters_rest hu hperm rfl hv

end Protocomm.Cpp.Channel
