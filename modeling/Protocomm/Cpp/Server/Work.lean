import Protocomm.Cpp.Server.Drain

/-!
# The work of a session

The steps that a session takes by itself, without a call of the application, and what they
cost: every such step lowers the work left, but for the read of a frame, which makes new
work, and a piece of a write that is not finished, which keeps it.
-/

namespace Protocomm.Cpp.Server

open Misc

/-- The step is one of session `k` and none of the application. -/
def Thread.internal (k : Nat) : Thread → Action → Bool
  | .io, .handle j => j == k
  | .acceptLoop (.insert j), _ => j == k
  | .wrapped j _, _ | .writePump j _, _ => j == k
  | _, _ => false

/-- What the handlers on the strand and the frames in `write_queue_` cost. -/
def Session.work (session : Session) : Nat :=
  10 * session.strand.length + 3 * session.writeQueue.length

def Shared.work (k : Nat) (s : Shared) : Nat := (s.session k).work

/-- The bytes that a write in progress on session `k` has left. -/
def Thread.owes (header : Bytes) (k : Nat) : Thread → Nat
  | .wrapped j (.writeHandshake sent) => if j = k then header.length - sent else 0
  | .writePump j (.writing hdr payload sent) =>
      if j = k then (writeFrame hdr payload).length - sent else 0
  | _ => 0

variable {cfg : Config} {s s' : Shared} {t t' : Thread} {a : Action} {new : List Thread}
  {k : Nat} {session : Session}

theorem work_set (hk : s.made[k]? = some session) (next : Session) :
    (s.setSession k next).work k = next.work := by
  rw [Shared.work, session_set hk]

theorem work_of_some (hk : s.made[k]? = some session) : s.work k = session.work := by
  rw [Shared.work, session_of_some hk]

theorem work_set_same {next : Session} (hk : s.made[k]? = some session)
    (hsame : next.work = session.work) : (s.setSession k next).work k = s.work k := by
  rw [work_set hk, work_of_some hk, hsame]

theorem length_greet {header : Bytes} {sent n : Nat}
    (hwrite : session.canWrite (header.length - sent) n = true) :
    (session.greet header sent n).out.received.length = session.out.received.length + n := by
  obtain ⟨-, hle, -⟩ := canWrite_inv hwrite
  simp only [Session.greet, Outlet.greet, Outlet.received, List.length_map, List.length_append,
    length_tag, List.length_take, List.length_drop]
  omega

theorem length_sendFrame {hdr : FrameHeader} {payload : Bytes} {sent n : Nat}
    (hwrite : session.canWrite ((writeFrame hdr payload).length - sent) n = true) :
    (session.sendFrame hdr payload sent n).out.received.length =
      session.out.received.length + n := by
  obtain ⟨hpos, hle, -⟩ := canWrite_inv hwrite
  have hpiece := piece_ne_nil hpos hle
  simp only [Session.sendFrame]
  split
  · simp only [Outlet.start, List.isEmpty_iff, hpiece, if_false, Outlet.received, List.length_map,
      List.length_append, length_tag, List.length_take, List.length_drop]
    omega
  · simp only [Outlet.more, Outlet.received, List.length_map, List.length_append, length_tag,
      List.length_take, List.length_drop]
    omega

/-- A step of the session lowers the work left, reads a frame, or sends a piece of what it
    owes. -/
theorem Move.work (h : Move cfg s t a s' t' new) (hinternal : t.internal k a = true) :
    (s'.work k + (t'.work k + (new.map (Thread.work k)).sum) < s.work k + t.work k) ∨
      (∃ f, t = .wrapped k .read ∧ a = .readFrame (.ok f) ∧
        (s'.session k).reads = (s.session k).reads ++ [f] ∧
        s'.work k + (t'.work k + (new.map (Thread.work k)).sum) ≤ s.work k + t.work k + 13) ∨
      (s'.work k + (t'.work k + (new.map (Thread.work k)).sum) = s.work k + t.work k ∧
        (s'.session k).reads = (s.session k).reads ∧ ∃ n, 0 < n ∧
          (s'.session k).out.received.length = (s.session k).out.received.length + n ∧
          t'.owes cfg.handshakeHeader k + (new.map (Thread.owes cfg.handshakeHeader k)).sum + n =
            t.owes cfg.handshakeHeader k) := by
  have own : ∀ {j : Nat}, (j == k) = true → j = k := fun hj => beq_iff_eq.mp hj
  cases h with
  | send | close | broadcast | registerMethod | shutdown | broadcastDone | pick | accept
  | acceptFailed => cases hinternal
  | enqueue hdr payload rest hsession hstrand | enqueueSpawn hdr payload rest hsession hstrand =>
      obtain rfl := own hinternal
      left
      rw [work_set hsession, work_of_some hsession]
      simp [Session.work, hstrand, Thread.work, Pumping.work]
      omega
  | closeSocket rest hsession hstrand =>
      obtain rfl := own hinternal
      left
      rw [work_set hsession, work_of_some hsession]
      simp [Session.work, hstrand, Thread.work]
  | insert hsession | connectNoHeader hsession | handshakeMismatch _ hsession
  | handshakeAsk hsession | handshakeOK hsession | answerYes hsession | reply _ _ hsession
  | replyFailed _ hsession | readOther _ _ hsession | pumpWritten _ _ _ _ hsession
  | pumpFailed _ _ _ hsession | pumpEnd hsession =>
      obtain rfl := own hinternal
      left
      refine Nat.add_lt_add_of_le_of_lt (Nat.le_of_eq (work_set_same hsession rfl)) ?_
      simp [Thread.work, Running.work, Pumping.work]
  | connect | connectThrow | handshakeFailed | answerNo | answerThrow | readFailed | readThrow
  | miss | call | returned | callThrow | traceThrow | onDisconnect | erase | unwind =>
      obtain rfl := own hinternal
      left
      refine Nat.add_lt_add_left ?_ _
      simp [Thread.work, Running.work]
  | respond hdr payload hsession =>
      obtain rfl := own hinternal
      left
      rw [work_set hsession, work_of_some hsession]
      simp [Session.work, Session.post, Thread.work, Running.work]
      omega
  | read hdr payload hsession =>
      obtain rfl := own hinternal
      refine Or.inr (Or.inl
        ⟨_, rfl, rfl, by rw [session_set hsession, session_of_some hsession], ?_⟩)
      rw [work_set hsession, work_of_some hsession]
      simp [Session.work, Thread.work, Running.work]
  | greet sent n hsession hwrite =>
      obtain rfl := own hinternal
      obtain ⟨hpos, hle, -⟩ := canWrite_inv hwrite
      refine Or.inr (Or.inr ⟨?_, session_set_same Session.reads hsession rfl, n, hpos, ?_, ?_⟩)
      · exact congrArg (· + _) (work_set_same hsession rfl)
      · rw [session_set hsession, session_of_some hsession, length_greet hwrite]
      · simp only [Thread.owes, if_true, List.map_nil, List.sum_nil]
        omega
  | pumpNext hdr payload rest hsession hqueue =>
      obtain rfl := own hinternal
      left
      rw [work_set hsession, work_of_some hsession]
      simp [Session.work, hqueue, Thread.work, Pumping.work]
      omega
  | pumpWrote hdr payload sent n hsession hwrite =>
      obtain rfl := own hinternal
      obtain ⟨hpos, hle, -⟩ := canWrite_inv hwrite
      refine Or.inr (Or.inr ⟨?_, session_set_same Session.reads hsession rfl, n, hpos, ?_, ?_⟩)
      · exact congrArg (· + _) (work_set_same hsession rfl)
      · rw [session_set hsession, session_of_some hsession, length_sendFrame hwrite]
      · simp only [Thread.owes, if_true, List.map_nil, List.sum_nil]
        omega
  | pumpClear hsession =>
      obtain rfl := own hinternal
      left
      rw [work_set hsession, work_of_some hsession]
      simp only [Session.work, Thread.work, Pumping.work, List.map_nil, List.sum_nil,
        List.length_nil, if_true]
      omega

end Protocomm.Cpp.Server
