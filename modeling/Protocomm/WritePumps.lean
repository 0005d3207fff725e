import Protocomm.Cpp.Channel.Lifecycle
import Protocomm.Cpp.Server.Sessions
import Protocomm.Misc.Pumped

/-!
# The write pumps of the C++ channel and session

`Channel::Impl::WritePump` and `Session::WritePump` empty their `write_queue` in the way
of a queue with a pump: frames neither change their order nor are written twice, and a
frame that is not written is still queued or was cleared away by a write failure.
-/

namespace Protocomm

open Misc

namespace Cpp.Channel

variable {cfg : Config} {s s' : Shared} {t t' : Thread} {a : Action} {new : List Thread}

def Thread.isPump : Thread → Bool
  | .writePump _ => true
  | _ => false

/-- The frame whose `WriteFrame` has not returned. -/
def Thread.writes : Thread → Option (FrameHeader × Bytes)
  | .writePump (.writing hdr payload) => some (hdr, payload)
  | _ => none

/-- A failed `WriteFrame` returns (`channel.cc:284-288`). -/
def Thread.clears : Thread → Action → Bool
  | .writePump (.writing _ _), .op (some _) => true
  | _, _ => false

/-- `write_queue` and `WritePump` of a channel. -/
def pump : Pumped Shared Thread Action (FrameHeader × Bytes) where
  queue s := s.writeQueue
  active s := s.writePumpActive
  pump := Thread.isPump
  outstanding := Thread.writes
  took := Thread.writes
  clears := Thread.clears
  pump_of_outstanding t h := by
    unfold Thread.writes at h
    split at h
    · rfl
    · cases h
  outstanding_of_took _ _ h := h
  pump_of_clears t a h := by
    unfold Thread.clears at h
    split at h
    · rfl
    · cases h

@[simp]
theorem resume_isPump (k : Caller) (st : Status) : (k.resume st).isPump = false :=
  resume_const Thread.isPump rfl (fun _ _ _ => rfl) (fun _ _ => rfl) k st

@[simp]
theorem return_isPump (r : Requester) : r.resume.isPump = false := by
  cases r <;> rfl

/-- Each step treats `write_queue` in one of the ways of a queue with a pump. -/
theorem Move.pump (h : Move cfg s t a s' t' new) : pump.Move s t a s' t' new := by
  have hnil : ∀ v ∈ ([] : List Thread), v.isPump = false := List.forall_mem_nil _
  have quiet : ∀ {s' : Shared} {t t' : Thread} {a : Action} {new : List Thread},
      s'.writeQueue = s.writeQueue → s'.writePumpActive = s.writePumpActive → t.isPump = false →
      t'.isPump = false → (∀ v ∈ new, v.isPump = false) → Channel.pump.Move s t a s' t' new :=
    fun hqueue hactive ht ht' hnew => .keep hqueue hactive (ht'.trans ht.symm)
      (Pumped.took_of_not_pump (V := Channel.pump) ht')
      (Pumped.not_clears_of_not_pump (V := Channel.pump) ht) hnew
  have going : ∀ {pc : Pumping} {a : Action}, a = .run ∨ a = .op none →
      Thread.clears (.writePump pc) a = false := by
    rintro pc a (rfl | rfl) <;> cases pc <;> rfl
  cases h with
  | submit methodId request cb rest hstrand hopen hactive =>
      exact .enqueue _ rfl hactive hactive rfl rfl hnil
  | submitSpawn methodId request cb rest hstrand hopen hidle =>
      exact .spawn _ _ rfl hidle rfl rfl rfl rfl rfl
  | pumpDone pc a hempty ha => exact .finish hempty hempty rfl rfl rfl (going ha) hnil
  | pumpNext pc a hdr payload rest hqueue ha =>
      exact .take _ hqueue rfl rfl rfl (going ha) hnil
  | pumpFailed hdr payload what => exact .clear rfl rfl rfl rfl hnil
  | call | connect | connectAsync | runCallbacks | destroy | startIoThread | connectSpawn
  | connectDone => exact quiet rfl rfl rfl rfl (List.forall_mem_singleton.mpr rfl)
  | checkOK | ensureStopped | waitSet | waitBroken =>
      exact quiet rfl rfl rfl (resume_isPump ..) hnil
  | requestStopped | ioThreadMissing | postRequest =>
      exact quiet rfl rfl rfl (return_isPump _) hnil
  | _ => exact quiet rfl rfl rfl rfl hnil

end Cpp.Channel

namespace Cpp.Server

variable {cfg : Config} {s s' : Shared} {t t' : Thread} {a : Action} {new : List Thread} {k : Nat}
  {session : Session}

def Thread.isPump (k : Nat) : Thread → Bool
  | .writePump j _ => j == k
  | _ => false

/-- The frame whose `WriteFrame` has not returned. -/
def Thread.writes (k : Nat) : Thread → Option (FrameHeader × Bytes)
  | .writePump j (.writing hdr payload _) => if j = k then some (hdr, payload) else none
  | _ => none

/-- The frame whose `WriteFrame` has just started. -/
def Thread.startsWrite (k : Nat) : Thread → Option (FrameHeader × Bytes)
  | .writePump j (.writing hdr payload 0) => if j = k then some (hdr, payload) else none
  | _ => none

/-- The clear of a write failure (`session.cc:55-58`). -/
def Thread.clears (k : Nat) : Thread → Action → Bool
  | .writePump j .clear, _ => j == k
  | _, _ => false

/-- `write_queue_` and `write_pump_active_` of session `k`. -/
def Shared.writeQueue (k : Nat) (s : Shared) : List (FrameHeader × Bytes) :=
  (s.made[k]?.map Session.writeQueue).getD []

@[inherit_doc Shared.writeQueue]
def Shared.writePumpActive (k : Nat) (s : Shared) : Bool :=
  (s.made[k]?.map Session.writePumpActive).getD false

/-- `write_queue_` and `WritePump` of session `k`. -/
def pump (k : Nat) : Pumped Shared Thread Action (FrameHeader × Bytes) where
  queue := Shared.writeQueue k
  active := Shared.writePumpActive k
  pump := Thread.isPump k
  outstanding := Thread.writes k
  took := Thread.startsWrite k
  clears := Thread.clears k
  pump_of_outstanding t h := by
    unfold Thread.writes at h
    split at h
    · split at h
      · simpa [Thread.isPump]
      · cases h
    · cases h
  outstanding_of_took t f h := by
    unfold Thread.startsWrite at h
    split at h
    · exact h
    · cases h
  pump_of_clears t a h := by
    unfold Thread.clears at h
    split at h
    · exact h
    · cases h

theorem pump_of_session (hk : s.made[k]? = some session) :
    s.writeQueue k = session.writeQueue ∧ s.writePumpActive k = session.writePumpActive := by
  simp [Shared.writeQueue, Shared.writePumpActive, hk]

/-- A step on session `j` leaves the queue of another session alone. -/
theorem setSession_other {j : Nat} (hj : j ≠ k) (next : Session) :
    (s.setSession j next).writeQueue k = s.writeQueue k ∧
      (s.setSession j next).writePumpActive k = s.writePumpActive k := by
  simp [Shared.writeQueue, Shared.writePumpActive, Shared.setSession, List.getElem?_set_ne hj]

theorem setSession_self (hk : s.made[k]? = some session) (next : Session) :
    (s.setSession k next).writeQueue k = next.writeQueue ∧
      (s.setSession k next).writePumpActive k = next.writePumpActive := by
  have hlt := (List.getElem?_eq_some_iff.mp hk).1
  simp [Shared.writeQueue, Shared.writePumpActive, Shared.setSession, List.getElem?_set_self hlt]

/-- A new session has nothing queued. -/
theorem pump_of_accept (id : UInt64) :
    Shared.writeQueue k { s with made := s.made ++ [{ connectionId := id }],
                                 nextConnectionId := s.nextConnectionId + 1 } = s.writeQueue k ∧
      Shared.writePumpActive k { s with made := s.made ++ [{ connectionId := id }],
                                        nextConnectionId := s.nextConnectionId + 1 } =
        s.writePumpActive k := by
  simp only [Shared.writeQueue, Shared.writePumpActive]
  by_cases hlt : k < s.made.length
  · rw [List.getElem?_append_left hlt]
    exact ⟨rfl, rfl⟩
  · rw [List.getElem?_append_right (Nat.le_of_not_lt hlt),
      List.getElem?_eq_none (Nat.le_of_not_lt hlt), List.getElem?_singleton]
    split <;> exact ⟨rfl, rfl⟩

/-- A step that leaves the queue of its session alone leaves all queues alone. -/
theorem setSession_same {j : Nat} (hj : s.made[j]? = some session) {next : Session}
    (hqueue : next.writeQueue = session.writeQueue)
    (hactive : next.writePumpActive = session.writePumpActive) :
    (s.setSession j next).writeQueue k = s.writeQueue k ∧
      (s.setSession j next).writePumpActive k = s.writePumpActive k := by
  by_cases hjk : j = k
  · subst hjk
    obtain ⟨hqueue', hactive'⟩ := setSession_self hj next
    obtain ⟨hqueue'', hactive''⟩ := pump_of_session hj
    exact ⟨by rw [hqueue', hqueue, hqueue''], by rw [hactive', hactive, hactive'']⟩
  · exact setSession_other hjk next

theorem isPump_other {j : Nat} (hj : j ≠ k) (pc : Option Pumping) :
    (pumpAt j pc).isPump k = false := by
  cases pc with
  | none => rfl
  | some pc => simpa [pumpAt, Thread.isPump] using hj

/-- A step of its own `WritePump`. -/
theorem PumpMove.pump {pc : Pumping} {next : Session} {pc' : Option Pumping}
    (h : PumpMove session pc a next pc') (hk : s.made[k]? = some session) :
    (pump k).Move s (.writePump k pc) a (s.setSession k next) (pumpAt k pc') [] := by
  have hnil : ∀ v ∈ ([] : List Thread), v.isPump k = false := List.forall_mem_nil _
  have hself : ∀ pc, (Thread.writePump k pc).isPump k = true := fun _ => beq_self_eq_true k
  obtain ⟨hqueue, hactive⟩ := pump_of_session hk
  obtain ⟨hqueue', hactive'⟩ := setSession_self hk next
  cases h with
  | finish hempty =>
      exact .finish (hqueue.trans hempty) (hqueue'.trans hempty) hactive' (hself .next) rfl rfl
        hnil
  | next hdr payload rest hfront =>
      exact .take (hdr, payload) (hqueue.trans (hfront.trans (congrArg _ hqueue'.symm)))
        (hactive'.trans hactive.symm) (hself .next) (if_pos rfl) rfl hnil
  | wrote hdr payload sent n hwrite =>
      -- `WriteFrame` goes on with the rest of the frame
      have hsent : sent + n ≠ 0 := by
        simp only [Session.canWrite, Bool.and_eq_true, decide_eq_true_eq] at hwrite
        omega
      refine .keep (hqueue'.trans hqueue.symm) (hactive'.trans hactive.symm) rfl ?_ rfl hnil
      obtain ⟨m, hm⟩ := Nat.exists_eq_succ_of_ne_zero hsent
      rw [hm]
      rfl
  | written =>
      exact .keep (hqueue'.trans hqueue.symm) (hactive'.trans hactive.symm) rfl rfl rfl hnil
  | failed =>
      exact .keep (hqueue'.trans hqueue.symm) (hactive'.trans hactive.symm) rfl rfl rfl hnil
  | clear => exact .clear hqueue' hactive' rfl (hself .clear) hnil

/-- Each step treats the `write_queue_` of each session in one of the ways of a queue
    with a pump. -/
theorem Move.pump (h : Move cfg s t a s' t' new) : (pump k).Move s t a s' t' new := by
  have hnil : ∀ v ∈ ([] : List Thread), v.isPump k = false := List.forall_mem_nil _
  have quiet : ∀ {s' : Shared} {t t' : Thread} {a : Action} {new : List Thread},
      s'.writeQueue k = s.writeQueue k ∧ s'.writePumpActive k = s.writePumpActive k →
      t.isPump k = false → t'.isPump k = false → (∀ v ∈ new, v.isPump k = false) →
      (Server.pump k).Move s t a s' t' new :=
    fun hsame ht ht' hnew => .keep hsame.1 hsame.2 (ht'.trans ht.symm)
      (Pumped.took_of_not_pump (V := Server.pump k) ht')
      (Pumped.not_clears_of_not_pump (V := Server.pump k) ht) hnew
  have pumps : ∀ {j : Nat} {old next : Session} {pc : Pumping} {pc' : Option Pumping} {a : Action},
      s.made[j]? = some old → PumpMove old pc a next pc' →
      (Server.pump k).Move s (.writePump j pc) a (s.setSession j next) (pumpAt j pc') [] := by
    intro j old next pc pc' a hold hmove
    by_cases hj : j = k
    · subst hj
      exact hmove.pump hold
    · exact quiet (setSession_other hj _) (isPump_other hj (some pc)) (isPump_other hj pc') hnil
  cases h with
  | send _ _ hsession | close hsession | pick _ _ _ _ _ hsession
  | closeSocket _ hsession | connectNoHeader hsession | handshakeMismatch _ hsession
  | handshakeAsk hsession | handshakeOK hsession | answerYes hsession | greet _ _ hsession
  | reply _ _ hsession | replyFailed _ hsession | readOther _ _ hsession | read _ _ hsession
  | respond _ _ hsession =>
      exact quiet (setSession_same hsession rfl rfl) rfl rfl hnil
  | insert hsession =>
      exact quiet (setSession_same hsession rfl rfl) rfl rfl (List.forall_mem_singleton.mpr rfl)
  | broadcast => exact quiet ⟨rfl, rfl⟩ rfl rfl (List.forall_mem_singleton.mpr rfl)
  | accept => exact quiet (pump_of_accept _) rfl rfl hnil
  | @enqueue j session hdr payload rest hsession hstrand hactive =>
      by_cases hj : j = k
      · subst hj
        obtain ⟨hqueue, hactive'⟩ := pump_of_session hsession
        refine .enqueue (hdr, payload) ?_ (hactive'.trans hactive) ?_ rfl rfl hnil
        · exact (setSession_self hsession _).1.trans (congrArg (· ++ _) hqueue.symm)
        · exact (setSession_self hsession _).2.trans hactive
      · exact quiet (setSession_other hj _) rfl rfl hnil
  | @enqueueSpawn j session hdr payload rest hsession hstrand hidle =>
      by_cases hj : j = k
      · subst hj
        obtain ⟨hqueue, hactive⟩ := pump_of_session hsession
        refine .spawn (hdr, payload) _ ?_ (hactive.trans hidle) ?_ rfl rfl rfl
          (beq_self_eq_true j)
        · exact (setSession_self hsession _).1.trans (congrArg (· ++ _) hqueue.symm)
        · exact (setSession_self hsession _).2
      · exact quiet (setSession_other hj _) rfl rfl
          (List.forall_mem_singleton.mpr (isPump_other hj (some .next)))
  | pumpEnd hsession hqueue => exact pumps hsession (.finish hqueue)
  | pumpNext hdr payload rest hsession hqueue =>
      exact pumps hsession (.next hdr payload rest hqueue)
  | pumpWrote hdr payload sent n hsession hwrite hleft =>
      exact pumps hsession (.wrote hdr payload sent n hwrite hleft)
  | pumpWritten hdr payload sent n hsession hwrite hend =>
      exact pumps hsession (.written hdr payload sent n hwrite hend)
  | pumpFailed hdr payload sent hsession => exact pumps hsession (.failed hdr payload sent)
  | pumpClear hsession => exact pumps hsession .clear
  | _ => exact quiet ⟨rfl, rfl⟩ rfl rfl hnil

end Cpp.Server

/-- In every run of a C++ channel, and for every session of every run of a C++ server,
    there is at most one `WritePump`, and it is there whenever frames are queued; the frames
    given to `WriteFrame` are an order-preserving subsequence of the frames enqueued; and
    the frames enqueued are, in this order, those given to `WriteFrame` or cleared away by
    a write failure, and then those still queued. The callbacks that `FailAllPending` calls
    in the `WritePump` of a channel are taken not to throw. -/
theorem write_pumps_sound :
    (∀ (cfg : Cpp.Channel.Config) acts p,
        (Cpp.Channel.machine cfg).run Cpp.Channel.initial acts = some p →
        Cpp.Channel.pump.Sound (Cpp.Channel.machine cfg) Cpp.Channel.initial acts p) ∧
      ∀ (cfg : Cpp.Server.Config) k acts p,
        (Cpp.Server.machine cfg).run Cpp.Server.initial acts = some p →
        (Cpp.Server.pump k).Sound (Cpp.Server.machine cfg) Cpp.Server.initial acts p := by
  constructor
  · intro cfg acts p hrun
    refine Pumped.sound rfl rfl ?_ ?_ hrun
    · exact List.forall_mem_singleton.mpr rfl
    · intro s t a s' t' new hs
      exact (Cpp.Channel.step_move hs).pump
  · intro cfg k acts p hrun
    refine Pumped.sound rfl rfl ?_ ?_ hrun
    · simp [Cpp.Server.initial, Cpp.Server.pump, Cpp.Server.Thread.isPump]
    · intro s t a s' t' new hs
      exact (Cpp.Server.step_move hs).2.pump

/-- Two calls are submitted; the first is being written. -/
def Cpp.Channel.queuedRun : List (Nat × Action) :=
  [(0, .call 7 [] false), (1, .run), (1, .run), (1, .run), (1, .run), (1, .run), (1, .run),
    (2, .run), (3, .run), (3, .op none), (3, .op none), (3, .op none),
    (3, .readHandshake (.ok [112, 99, 49])), (1, .run), (1, .run), (2, .run), (5, .run),
    (0, .call 8 [] false), (6, .run), (6, .run), (2, .run)]

/-- Two pushes are sent; the first is being written. -/
def Cpp.Server.queuedRun : List (Nat × Action) :=
  [(2, .accepted), (2, .run), (3, .run), (3, .readHandshake (.ok [112, 99, 49])), (3, .wrote 3),
    (0, .send 0 9 []), (0, .send 0 10 []), (1, .handle 0), (4, .run), (1, .handle 0)]

theorem write_pumps_sound_queuedRun :
    (∃ p, (Cpp.Channel.machine {}).run Cpp.Channel.initial Cpp.Channel.queuedRun = some p ∧
        p.shared.writeQueue = [(Cpp.Channel.requestHeader 2 8 [], [])] ∧
        Cpp.Channel.pump.Sound (Cpp.Channel.machine {}) Cpp.Channel.initial
          Cpp.Channel.queuedRun p) ∧
      ∃ p, (Cpp.Server.machine {}).run Cpp.Server.initial Cpp.Server.queuedRun = some p ∧
        p.shared.writeQueue 0 = [(Cpp.Server.pushHeader 10 [], [])] ∧
        (Cpp.Server.pump 0).Sound (Cpp.Server.machine {}) Cpp.Server.initial
          Cpp.Server.queuedRun p :=
  ⟨⟨_, rfl, rfl, write_pumps_sound.1 {} _ _ rfl⟩, ⟨_, rfl, rfl, write_pumps_sound.2 {} 0 _ _ rfl⟩⟩

end Protocomm
