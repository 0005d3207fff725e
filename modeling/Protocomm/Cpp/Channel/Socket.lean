import Protocomm.Cpp.Channel.Moves

/-!
# The socket after `Shutdown`

The handler of `Shutdown` closes the socket, and what is started on a closed socket fails
at once. But a close does not cancel a pending `async_resolve`, and `ConnectCoro` looks at
the connection state only at its end: when the resolver answers after the close,
`async_connect` opens the socket again and the handshake waits for the server, and
`Shutdown` with it.
-/

namespace Protocomm.Cpp.Channel

open Misc

/-- An operation on the socket is outstanding. -/
def Thread.operates : Thread → Bool
  | .connectCoro .connect | .connectCoro .writeHandshake | .connectCoro .readHandshake => true
  | .readLoop .reading => true
  | .writePump (.writing _ _) => true
  | _ => false

/-- The socket of a channel: whether it is open, whether the handler of `Shutdown` has
    closed it, and the operations started since then that open it or find it open. -/
structure Socket where
  isOpen : Bool := false
  shut : Bool := false
  late : List Thread := []
  deriving DecidableEq, Repr

/-- The step runs the handler of `Shutdown` (`channel.cc:316-326`). -/
def Thread.shuts (s : Shared) : Thread → Action → Bool
  | .io, .run => s.strand.head? = some .shutdown
  | _, _ => false

/-- What a step of thread `t`, which leaves it at `t'`, does to the socket: the handler of
    `Shutdown` closes it, and `async_connect` opens it (`channel.cc:188`). -/
def Socket.move (k : Socket) (s : Shared) (t : Thread) (a : Action) (t' : Thread) : Socket where
  isOpen := !t.shuts s a && (k.isOpen || t' = .connectCoro .connect)
  shut := k.shut || t.shuts s a
  late :=
    if k.shut && t'.operates && (k.isOpen || t' = .connectCoro .connect) then k.late ++ [t']
    else k.late

/-- The socket follows the steps of the channel. -/
def Socket.follow (k : Socket) (p : Pool Shared Thread) (ia : Nat × Action)
    (p' : Pool Shared Thread) : Socket :=
  match p.threads[ia.1]?, p'.threads[ia.1]? with
  | some t, some t' => k.move p.shared t ia.2 t'
  | _, _ => k

/-- A channel with its socket. -/
def socketed (cfg : Config) : Machine (Pool Shared Thread × Socket) (Nat × Action) :=
  (machine cfg).followed Socket.follow

/-- Since the handler of `Shutdown` has run the socket was closed: no operation opened it or
    was started on an open socket. -/
def StaysShut (x : Pool Shared Thread × Socket) : Prop :=
  (x.2.shut = true → x.2.isOpen = false) ∧ x.2.late = []

/-- The condition on a step: once the handler of `Shutdown` has run, `async_resolve` does
    not succeed. -/
def ResolvesBefore (x : Pool Shared Thread × Socket) (ia : Nat × Action) : Prop :=
  x.2.shut = true → x.1.threads[ia.1]? = some (.connectCoro .resolve) → ia.2 ≠ .op none

variable {cfg : Config} {x x' : Pool Shared Thread × Socket} {s s' : Shared} {t t' : Thread}
  {a : Action} {new : List Thread} {ia : Nat × Action}

/-- `async_connect` starts when `async_resolve` has succeeded. -/
theorem Move.connects (h : Move cfg s t a s' t' new) (ht' : t' = .connectCoro .connect) :
    t = .connectCoro .resolve ∧ a = .op none := by
  cases h with
  | connectStep pc pc' a hnext =>
      cases ht'
      cases hnext with
      | connect => exact ⟨rfl, rfl⟩
  | checkOK k | ensureStopped k | waitSet k | waitBroken k =>
      cases k with
      | connect => cases ht'
      | call =>
          simp only [Caller.resume] at ht'
          split at ht' <;> cases ht'
  | requestStopped r | ioThreadMissing r | postRequest r => cases r <;> cases ht'
  | _ => cases ht'

/-- A step of a channel with its socket. -/
theorem socketed_step (h : (socketed cfg).step x ia = some x') :
    ∃ t t' new, x.1.threads[ia.1]? = some t ∧
      step cfg x.1.shared t ia.2 = some (x'.1.shared, t', new) ∧
      x'.2 = x.2.move x.1.shared t ia.2 t' := by
  obtain ⟨hstep, hfollow⟩ := Machine.followed_step h
  obtain ⟨t, t', new, ht, hs, -⟩ := Program.machine_step_eq hstep
  obtain ⟨t'', new', hs', ht'', -⟩ := Program.machine_step_get hstep ht
  refine ⟨t, t'', new', ht, hs', ?_⟩
  rw [hfollow, Socket.follow, ht, ht'']

theorem staysShut_keep (h : StaysShut x) (hok : ResolvesBefore x ia)
    (hstep : (socketed cfg).step x ia = some x') : StaysShut x' := by
  obtain ⟨t, t', new, ht, hs, hsocket⟩ := socketed_step hstep
  unfold StaysShut
  rw [hsocket]
  cases hshut : x.2.shut with
  | false =>
      refine ⟨?_, ?_⟩
      · simp only [Socket.move, hshut, Bool.false_or]
        intro hshuts
        rw [hshuts]
        rfl
      · simp [Socket.move, hshut, h.2]
  | true =>
      -- the socket is closed, and no resolver answers that would open it
      have hclosed := h.1 hshut
      have hne : t' ≠ .connectCoro .connect := by
        intro ht'
        obtain ⟨rfl, ha⟩ := (step_move hs).connects ht'
        exact hok hshut ht ha
      simp [Socket.move, hclosed, hne, h.2]

theorem not_staysShut_of_resolve (hbad : ¬ ResolvesBefore x ia)
    (hstep : (socketed cfg).step x ia = some x') : ¬ StaysShut x' := by
  obtain ⟨i, a⟩ := ia
  obtain ⟨t, t', new, ht, hs, hsocket⟩ := socketed_step hstep
  simp only [ResolvesBefore, not_forall, not_not] at hbad
  obtain ⟨hshut, hresolve, rfl⟩ := hbad
  obtain rfl := Option.some.inj (ht.symm.trans hresolve)
  have ht' : t' = .connectCoro .connect := by
    simp only [step, connectCoroStep, Option.some.injEq, Prod.mk.injEq] at hs
    exact hs.2.1.symm
  rintro ⟨hclosed, -⟩
  rw [hsocket, ht'] at hclosed
  simp [Socket.move, hshut, Thread.shuts] at hclosed

/-- After the handler of `Shutdown` has run, no step opens the socket or starts an operation
    on an open socket, exactly when from then on `async_resolve` does not succeed. -/
theorem staysShut_iff_resolvesBefore (cfg : Config) {acts : List (Nat × Action)}
    {p : Pool Shared Thread} (hrun : (machine cfg).run initial acts = some p) :
    (∀ x ∈ (socketed cfg).visited (initial, {}) acts, StaysShut x) ↔
      (socketed cfg).Meets ResolvesBefore (initial, {}) acts := by
  have hlift : ∃ k, (socketed cfg).run (initial, {}) acts = some (p, k) :=
    Machine.followed_run hrun ({} : Socket)
  obtain ⟨k, hfollowed⟩ := hlift
  refine Machine.forall_visited_iff_meets (I := fun _ => True) (Q := StaysShut) ?_ ?_ ?_ ?_ trivial
    ⟨nofun, rfl⟩ hfollowed
  · exact fun _ _ _ _ _ => trivial
  · exact fun x ia x' _ hQ hok hstep => staysShut_keep hQ hok hstep
  · exact fun x _ hQ => hQ
  · exact fun x ia x' _ _ hbad hstep => not_staysShut_of_resolve hbad hstep

/-- `Shutdown` closes the channel while `ConnectCoro` waits for the resolver, which answers
    afterwards; the server accepts the connection and reads the handshake. -/
def reopenedRun : List (Nat × Action) :=
  [(0, .connectAsync true), (1, .run), (1, .run), (1, .run), (1, .run), (2, .run), (3, .run),
    (0, .shutdown), (4, .run), (4, .run), (4, .run), (2, .run), (4, .run), (3, .op none),
    (3, .op none), (3, .op none)]

theorem staysShut_iff_reopenedRun :
    ∃ p, (machine {}).run initial reopenedRun = some p ∧
      ((∀ x ∈ (socketed {}).visited (initial, {}) reopenedRun, StaysShut x) ↔
        (socketed {}).Meets ResolvesBefore (initial, {}) reopenedRun) :=
  ⟨_, rfl, staysShut_iff_resolvesBefore {} rfl⟩

/-- The socket is open again and `ConnectCoro` waits for the handshake of the server;
    `Shutdown` waits for the io thread, which cannot return. -/
theorem shutdown_waits_for_server :
    ∃ x, (socketed {}).run (initial, {}) reopenedRun = some x ∧ x.1.shared.connState = .closed ∧
      x.2 = ⟨true, true, [.connectCoro .connect, .connectCoro .writeHandshake,
        .connectCoro .readHandshake]⟩ ∧
      x.1.threads[3]? = some (.connectCoro .readHandshake) ∧
      x.1.threads[4]? = some (.shutdown .join) ∧ (machine {}).step x.1 (4, .run) = none ∧
      (machine {}).step x.1 (2, .exit) = none :=
  ⟨_, rfl, rfl, rfl, rfl, rfl, rfl, rfl⟩

end Protocomm.Cpp.Channel
