import Protocomm.Cpp.Channel.Link
import Protocomm.Misc.Slots

/-!
# The requests of a C++ channel

From `AsyncUnaryCall` to the socket a call keeps its method and its request: each frame
that a channel sends is the request of a registered call, as its caller gave it.
-/

namespace Protocomm.Cpp.Channel

open Misc

/-- The arguments of a call on its way to the strand, with its callback. -/
structure Asked where
  methodId : UInt32
  request : Bytes
  cb : Callback
  deriving DecidableEq, Repr

/-- These are the arguments that the call was made with. -/
def Shared.Made (s : Shared) (x : Asked) : Prop :=
  s.calls[x.cb.call]? = some ⟨x.methodId, x.request, x.cb.isEmpty⟩

def Caller.asked : Caller → Option Asked
  | .connect => none
  | .call methodId request cb => some ⟨methodId, request, cb⟩

def Requester.asked : Requester → Option Asked
  | .ensureConnected k _ => k.asked
  | .connectAsync _ => none

/-- The call that a thread is about to post. -/
def Thread.asked : Thread → Option Asked
  | .ensureConnected k _ => k.asked
  | .requestConnect r _ => r.asked
  | .asyncUnaryCall (.post methodId request cb) => some ⟨methodId, request, cb⟩
  | _ => none

def Handler.asked : Handler → Option Asked
  | .submit methodId request cb => some ⟨methodId, request, cb⟩
  | _ => none

/-- A caller goes on with its call or gives it up. -/
theorem resume_asked {k : Caller} {st : Status} {x : Asked} (h : (k.resume st).asked = some x) :
    k.asked = some x := by
  cases k with
  | connect => cases h
  | call methodId request cb =>
      simp only [Caller.resume] at h
      split at h
      · exact h
      · cases h

theorem Requester.resume_asked (r : Requester) : r.resume.asked = r.asked := by
  cases r <;> rfl

section

variable {cfg : Config} {p : Pool Shared Thread} {s s' : Shared} {t t' : Thread} {a : Action}
  {new : List Thread} {x : Asked}

theorem Move.made (h : Move cfg s t a s' t' new) (hx : s.Made x) : s'.Made x := by
  cases h with
  | call | nestedCall | nestedCallFails => exact getElem?_of_initial (List.prefix_append _ _) hx
  | _ => exact hx

/-- A thread is about to post the call it had, or a new one. -/
theorem Move.asked (h : Move cfg s t a s' t' new) {v : Thread} (hv : v ∈ t' :: new)
    (hx : v.asked = some x) : t.asked = some x ∨ s'.Made x := by
  cases h with
  | call methodId request isEmpty =>
      rcases List.mem_cons.mp hv with rfl | hv
      · cases hx
      · rw [List.mem_singleton.mp hv] at hx
        cases hx
        exact Or.inr List.getElem?_concat_length
  | checkOK | ensureStopped | waitSet | waitBroken =>
      rw [List.mem_singleton.mp hv] at hx
      exact Or.inl (resume_asked hx)
  | requestStopped | ioThreadMissing | postRequest =>
      rw [List.mem_singleton.mp hv, Requester.resume_asked] at hx
      exact Or.inl hx
  | startIoThread =>
      rcases List.mem_cons.mp hv with rfl | hv
      · exact Or.inl hx
      · rw [List.mem_singleton.mp hv] at hx
        cases hx
  | connect | connectAsync | runCallbacks | destroy | connectSpawn | submitSpawn | connectDone =>
      rcases List.mem_cons.mp hv with rfl | hv
      · cases hx
      · rw [List.mem_singleton.mp hv] at hx
        cases hx
  | checkDown | ensureRequest | requestOpen | ioThreadKept | ioThreadThere =>
      rw [List.mem_singleton.mp hv] at hx
      exact Or.inl hx
  | _ =>
      rw [List.mem_singleton.mp hv] at hx
      cases hx

theorem mem_strand_post {x y : Handler} (h : y ∈ (s.post x).strand) : y ∈ s.strand ∨ y = x :=
  (List.mem_append.mp h).imp_right List.mem_singleton.mp

/-- A call comes to the strand from the thread that made it, or from a callback. -/
theorem Move.submits (h : Move cfg s t a s' t' new) {y : Handler} (hy : y ∈ s'.strand)
    (hx : y.asked = some x) : y ∈ s.strand ∨ t.asked = some x ∨ s'.Made x := by
  cases h with
  | nestedCall methodId request isEmpty =>
      rcases mem_strand_post hy with hold | rfl
      · exact Or.inl hold
      · cases hx
        exact Or.inr (Or.inr List.getElem?_concat_length)
  | postCall methodId request cb =>
      rcases mem_strand_post hy with hold | rfl
      · exact Or.inl hold
      · exact Or.inr (Or.inl hx)
  | postRequest | nestedConnect | postShutdown =>
      rcases mem_strand_post hy with hold | rfl
      · exact Or.inl hold
      · cases hx
  | connectRefused cb rest hstrand | connectThere cb rest hstrand | connectWait cb rest hstrand
  | connectSpawn cb rest hstrand | submitStopped m r cb rest hstrand | submit m r cb rest hstrand
  | submitSpawn m r cb rest hstrand | shutdownHandler rest hstrand =>
      exact Or.inl (hstrand ▸ List.mem_cons_of_mem _ hy)
  | _ => exact Or.inl hy

/-- A call on its way keeps the arguments it was made with. -/
theorem reachable_made (h : (machine cfg).Reachable initial p) :
    (∀ y ∈ p.shared.strand, ∀ x, y.asked = some x → p.shared.Made x) ∧
      ∀ t ∈ p.threads, ∀ x, t.asked = some x → p.shared.Made x := by
  refine Program.reachable_local (I := fun s => ∀ y ∈ s.strand, ∀ x, y.asked = some x → s.Made x)
    (J := fun s t => ∀ x, t.asked = some x → s.Made x)
    ⟨List.forall_mem_nil _, by simp [initial, Thread.asked]⟩ ?_ h
  intro u _ s' t t' new rest a _ hI ht hs
  have hmove := step_move hs
  have hthreads : ∀ v ∈ t' :: new, ∀ x, v.asked = some x → s'.Made x := by
    intro v hv x hx
    rcases hmove.asked hv hx with hold | hnew
    · exact hmove.made (ht x hold)
    · exact hnew
  refine ⟨fun y hy x hx => ?_, hthreads t' List.mem_cons_self,
    fun v hv => hthreads v (List.mem_cons_of_mem t' hv), fun v _ hv x hx => hmove.made (hv x hx)⟩
  rcases hmove.submits hy hx with hold | hold | hnew
  · exact hmove.made (hI y hold x hx)
  · exact hmove.made (ht x hold)
  · exact hnew

end

/-! ## Frames -/

/-- The request of a registered call. -/
def Registration.request (r : Registration) (c : Call) : FrameHeader × Bytes :=
  (requestHeader r.callId c.methodId c.request, c.request)

/-- The frame is the request of a registered call. -/
def Shared.Requested (s : Shared) (f : FrameHeader × Bytes) : Prop :=
  ∃ r ∈ s.registered, ∃ c, s.calls[r.call]? = some c ∧ f = r.request c

variable {cfg : Config} {p : Pool (Shared × Link) Thread}

theorem Move.requested {s s' : Shared} {t t' : Thread} {a : Action} {new : List Thread}
    {f : FrameHeader × Bytes} (h : Move cfg s t a s' t' new) (hf : s.Requested f) :
    s'.Requested f := by
  obtain ⟨r, hr, c, hc, rfl⟩ := hf
  cases h with
  | call | nestedCall | nestedCallFails =>
      exact ⟨r, hr, c, getElem?_of_initial (List.prefix_append _ _) hc, rfl⟩
  | submit | submitSpawn => exact ⟨r, List.mem_append_left _ hr, c, hc, rfl⟩
  | _ => exact ⟨r, hr, c, hc, rfl⟩

/-- What a channel sends and is about to send are the requests of its calls. -/
theorem calm_requested (h : (calmProgram cfg).machine.Reachable linkedInitial p) :
    ∀ f ∈ p.shared.2.sent ++ p.shared.1.writeQueue, p.shared.1.Requested f := by
  refine Program.reachable_shared (P := calmProgram cfg)
    (I := fun s => ∀ f ∈ s.2.sent ++ s.1.writeQueue, s.1.Requested f) (List.forall_mem_nil _) ?_ h
  rintro u hu ⟨s', l'⟩ t t' new a _ hI hs
  obtain ⟨hcalm, hlink, hs⟩ := calm_step hs
  obtain rfl : l' = _ := hlink
  have hmove := step_move hs
  have hkeep : ∀ f ∈ u.shared.2.sent ++ u.shared.1.writeQueue, s'.Requested f :=
    fun f hf => hmove.requested (hI f hf)
  cases hmove with
  | submit methodId request cb rest hstrand | submitSpawn methodId request cb rest hstrand =>
      have hmade := (reachable_made (reachable_of_calm hu)).1 _
        (hstrand ▸ List.mem_cons_self) ⟨methodId, request, cb⟩ rfl
      intro f hf
      rcases List.mem_append.mp (List.append_assoc _ _ _ ▸ hf) with hf | hf
      · exact hkeep f hf
      · rw [List.mem_singleton.mp hf]
        exact ⟨_, List.mem_append_right _ List.mem_cons_self, _, hmade, rfl⟩
  | pumpNext pc a hdr payload rest hqueue =>
      have hsame : u.shared.2.sent ++ [(hdr, payload)] ++ rest =
          u.shared.2.sent ++ u.shared.1.writeQueue := by
        rw [hqueue, List.append_assoc]
        rfl
      exact fun f hf => hkeep f (hsame ▸ hf)
  | pumpFailed => cases hcalm
  | checkOK | ensureStopped | waitSet | waitBroken =>
      rw [follow_resume]
      exact hkeep
  | requestStopped | ioThreadMissing | postRequest =>
      rw [follow_return]
      exact hkeep
  | connectStep pc pc' a hnext => cases hnext <;> exact hkeep
  | _ => exact hkeep

end Protocomm.Cpp.Channel
