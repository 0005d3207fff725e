import Protocomm.Cpp.Channel.Moves

/-!
# Manual dispatch

With `Dispatch::Manual` completions wait in `cb_queue` until the owner of the
channel calls `RunCallbacks` (`channel.h:15-21`). The places that call a callback
without the queue are those of `Shared.Queued`: `RequestConnect` and its handler
when they need no connection attempt, and `Shutdown`.
-/

namespace Protocomm.Cpp.Channel

open Misc

/-- How many callbacks of the user were called. -/
def Deliveries.callsMade (d : Deliveries) : Nat :=
  d.invoked.length + d.connects.length + d.pushes.length

/-- The callback of a `ConnectAsync`. -/
def ConnectCallback.isUser : ConnectCallback → Bool
  | .user _ => true
  | _ => false

/-- What a handler finds when it leaves every callback of the user to the queue. -/
def Handler.Queued (s : Shared) : Handler → Prop
  | .requestConnect cb =>
      cb.isUser = true → s.connState ≠ .closed ∧ s.connState ≠ .connected ∧ s.stopped = false
  | .submit .. => True
  | .shutdown =>
      (∀ cb ∈ mapValues s.pending, cb.isEmpty = true) ∧ ∀ cb ∈ s.connectWaiters, cb.isUser = false

/-- What a step finds when it leaves every callback of the user to the queue: a
    `ConnectAsync` meets a channel that is neither stopped nor connected, and
    `Shutdown` one without pending calls and without waiting `ConnectAsync`s. -/
def Shared.Queued (s : Shared) : Thread → Action → Prop
  | .requestConnect r .checkStopped, _ => s.stopped = true → r.callback.isUser = false
  | .requestConnect r .checkStarted, _ => s.ioThreadStarted = false → r.callback.isUser = false
  | .shutdown .closeIdle, _ => ∀ cb ∈ mapValues s.pending, cb.isEmpty = true
  | .io, .run => ∀ h ∈ s.strand.head?, h.Queued s
  | .io, .nestedConnect isEmpty => s.stopped = true → isEmpty = true
  | _, _ => True

section Calls

variable {cfg : Config} (d : Deliveries) (st : Status) (payload : Bytes) (site : Site)

theorem ConnectCallback.run_callsMade (cb : ConnectCallback) :
    (cb.run d st site).callsMade = d.callsMade + if cb.isUser then 1 else 0 := by
  cases cb with
  | user n =>
      simp only [ConnectCallback.run, Deliveries.callsMade, List.length_append,
        List.length_singleton, ConnectCallback.isUser, if_true]
      omega
  | promise | empty => rfl

theorem waiters_callsMade (waiters : List ConnectCallback) :
    (waiters.foldl (fun d cb => cb.run d st site) d).callsMade =
      d.callsMade + waiters.countP ConnectCallback.isUser := by
  induction waiters generalizing d with
  | nil => rfl
  | cons cb waiters ih =>
      rw [List.foldl_cons, ih, ConnectCallback.run_callsMade, List.countP_cons]
      omega

theorem postResponse_callsMade (hmanual : cfg.dispatch = .manual) (cb : Callback) :
    (postResponse cfg d cb st payload site).callsMade = d.callsMade := by
  simp only [postResponse, hmanual]
  split <;> rfl

theorem postPush_callsMade (hmanual : cfg.dispatch = .manual) (methodId : UInt32) :
    (postPush cfg d methodId payload).callsMade = d.callsMade := by
  simp only [postPush, hmanual]
  rfl

theorem finish_callsMade (hmanual : cfg.dispatch = .manual) (s : Shared) :
    (finish cfg s st).out.callsMade = s.out.callsMade := by
  rw [finish, waiters_manual hmanual]
  rfl

theorem failAll_callsMade (hmanual : cfg.dispatch = .manual) (snapshot : List Callback)
    (defer : Bool) : (failAll cfg d snapshot st defer site).callsMade =
      d.callsMade + if defer then 0 else snapshot.countP fun cb => !cb.isEmpty := by
  rw [failAll_eq]
  cases defer with
  | true =>
      rw [if_pos ⟨rfl, hmanual⟩]
      rfl
  | false =>
      simp [Deliveries.callsMade, List.countP_eq_length_filter]
      omega

end Calls

variable {cfg : Config} {s s' : Shared} {t t' : Thread} {a : Action} {new : List Thread}

theorem run_calls_iff (d : Deliveries) (st : Status) (site : Site) (cb : ConnectCallback) :
    d.callsMade < (cb.run d st site).callsMade ↔ cb.isUser = true := by
  rw [ConnectCallback.run_callsMade]
  split <;> simp [*]

theorem failAllPending_calls_iff (hmanual : cfg.dispatch = .manual) (s : Shared) (st : Status)
    (site : Site) : s.out.callsMade < (failAllPending cfg s st false site).out.callsMade ↔
      ∃ cb ∈ mapValues s.pending, cb.isEmpty = false := by
  simp [failAllPending, failAll_callsMade _ _ _ hmanual, List.countP_pos_iff]

theorem handleShutdown_calls_iff (hmanual : cfg.dispatch = .manual) (s : Shared) :
    s.out.callsMade < (handleShutdown cfg s).out.callsMade ↔ ¬ Handler.shutdown.Queued s := by
  simp only [handleShutdown, failAllPending, waiters_callsMade, failAll_callsMade _ _ _ hmanual,
    Bool.false_eq_true, if_false, Handler.Queued, Nat.add_assoc, Nat.lt_add_right_iff_pos,
    Nat.add_pos_iff_pos_or_pos, List.countP_pos_iff, not_and_or, not_forall]
  simp

/-- Outside `RunCallbacks` a step calls a callback of the user exactly when it
    finds one it does not leave to the queue. -/
theorem Move.calls_iff (hmanual : cfg.dispatch = .manual) (h : Move cfg s t a s' t' new)
    (ht : ∀ left, t ≠ .runCallbacks left) :
    s.out.callsMade < s'.out.callsMade ↔ ¬ s.Queued t a := by
  cases h with
  | requestStopped r hstopped => simp [run_calls_iff, Shared.Queued, hstopped]
  | ioThreadMissing r hstarted => simp [run_calls_iff, Shared.Queued, hstarted]
  | connectRefused cb rest hstrand hclosed =>
      simp only [run_calls_iff, Shared.Queued, hstrand, List.head?_cons, Option.mem_some_iff,
        forall_eq', Handler.Queued]
      rcases hclosed with hclosed | hstopped
      · simp [hclosed]
      · simp [hstopped]
  | connectThere cb rest hstrand hstate =>
      simp [run_calls_iff, Shared.Queued, Handler.Queued, hstrand, hstate]
  | connectWait cb rest hstrand hstate hopen | connectSpawn cb rest hstrand hstate hopen =>
      simp [Shared.Queued, Handler.Queued, hstrand, hstate, hopen, Shared.coSpawn]
  | submitStopped methodId request cb rest hstrand =>
      simp [Shared.Queued, Handler.Queued, hstrand, postResponse_callsMade _ _ _ _ hmanual]
  | submit methodId request cb rest hstrand | submitSpawn methodId request cb rest hstrand =>
      simp [Shared.Queued, Handler.Queued, hstrand, Shared.register, Shared.coSpawn]
  | shutdownHandler rest hstrand =>
      have hcalls := handleShutdown_calls_iff hmanual { s with strand := rest }
      simp only [Shared.Queued, hstrand, List.head?_cons, Option.mem_some_iff, forall_eq']
      exact hcalls
  | closeIdle =>
      have hcalls := failAllPending_calls_iff hmanual { s with connState := .closed }
        statusShutdown .api
      simp only [Shared.Queued, not_forall, Bool.not_eq_true, exists_prop]
      exact hcalls
  | nestedConnectStopped isEmpty cb hlive hstopped hcb =>
      simp only [run_calls_iff, Shared.Queued, hstopped, hcb]
      cases isEmpty <;> simp [ConnectCallback.isUser]
  | nestedConnect isEmpty cb hlive hopen => simp [Shared.Queued, hopen, Shared.post]
  | fail | nestedCallFails | take =>
      simp [Shared.Queued, postResponse_callsMade _ _ _ _ hmanual]
  | connectFailed | connectClosed | connectDone =>
      simp [Shared.Queued, Shared.coReturn, Shared.coSpawn, finish_callsMade _ hmanual]
  | readFailed | pumpFailed =>
      simp [Shared.Queued, Shared.endReadLoop, Shared.coReturn, failAllPending,
        failAll_callsMade _ _ _ hmanual]
  | push => simp [Shared.Queued, postPush_callsMade _ _ hmanual]
  | runStop left | runOne left => exact absurd rfl (ht left)
  | requestOpen r hopen => simp [Shared.Queued, hopen]
  | ioThreadThere r hstarted => simp [Shared.Queued, hstarted]
  | _ => simp [Shared.Queued, Shared.post, Shared.coReturn, Shared.endReadLoop, Shared.newCall,
      Shared.leave, Deliveries.callsMade]

/-- A step that calls a callback of the user is a step of a `RunCallbacks`. -/
def OnlyInRunCallbacks (cfg : Config) (p : Pool Shared Thread) (ia : Nat × Action) : Prop :=
  ∀ p', (machine cfg).step p ia = some p' → p.shared.out.callsMade < p'.shared.out.callsMade →
    ∃ left, p.threads[ia.1]? = some (.runCallbacks left)

/-- The step leaves every callback of the user to the queue. -/
def LeavesToQueue (p : Pool Shared Thread) (ia : Nat × Action) : Prop :=
  ∀ t, p.threads[ia.1]? = some t → p.shared.Queued t ia.2

theorem onlyInRunCallbacks_iff {p p' : Pool Shared Thread} {ia : Nat × Action}
    (hmanual : cfg.dispatch = .manual) (hstep : (machine cfg).step p ia = some p') :
    OnlyInRunCallbacks cfg p ia ↔ LeavesToQueue p ia := by
  obtain ⟨t, t', new, rest, hi, hs, -, -⟩ := Program.machine_step_at hstep
  have hmove : Move cfg p.shared t ia.2 p'.shared t' new := step_move hs
  simp only [OnlyInRunCallbacks, LeavesToQueue, hstep, hi, Option.some.injEq, forall_eq']
  by_cases ht : ∃ left, t = .runCallbacks left
  · obtain ⟨left, rfl⟩ := ht
    simp [Shared.Queued]
  · have hcalls := hmove.calls_iff hmanual (fun left hleft => ht ⟨left, hleft⟩)
    rw [hcalls]
    simp [ht]

/-- With `Dispatch::Manual`, a run calls the callbacks of the user only inside
    `RunCallbacks` exactly when each of its steps leaves them to the queue. -/
theorem manual_calls_iff_queued {acts : List (Nat × Action)} {p : Pool Shared Thread}
    (hmanual : cfg.dispatch = .manual) (hrun : (machine cfg).run initial acts = some p) :
    (machine cfg).Meets (OnlyInRunCallbacks cfg) initial acts ↔
      (machine cfg).Meets LeavesToQueue initial acts :=
  Machine.meets_congr (fun _ _ _ hstep => onlyInRunCallbacks_iff hmanual hstep) hrun

/-- A `ConnectAsync` connects the channel, and `RunCallbacks` calls its callback. -/
def connectAsyncRun : List (Nat × Action) :=
  [(0, .connectAsync false), (1, .run), (1, .run), (1, .run), (1, .run), (2, .run), (3, .run),
    (3, .op none), (3, .op none), (3, .op none), (3, .readHandshake (.ok [112, 99, 49])),
    (0, .runCallbacks 1), (5, .run)]

theorem manual_calls_iff_queued_connectAsyncRun :
    ∃ p, (machine { dispatch := .manual }).run initial connectAsyncRun = some p ∧
      p.shared.out.connects = [⟨0, statusOK, .runCallbacks⟩] ∧
      ((machine { dispatch := .manual }).Meets (OnlyInRunCallbacks { dispatch := .manual }) initial
          connectAsyncRun ↔
        (machine { dispatch := .manual }).Meets LeavesToQueue initial connectAsyncRun) :=
  ⟨_, rfl, rfl, manual_calls_iff_queued rfl rfl⟩

/-- A second `ConnectAsync` on the connected channel. -/
def connectAgainRun : List (Nat × Action) :=
  connectAsyncRun ++ [(0, .connectAsync false), (6, .run), (6, .run), (6, .run), (6, .run)]

/-- A call is pending when the channel is destroyed. -/
def destroyRun : List (Nat × Action) :=
  connectAsyncRun ++ [(0, .call 7 [] false), (6, .run), (6, .run), (2, .run), (0, .shutdown),
    (8, .run), (8, .run), (8, .run)]

/-- The io thread calls the callback of a `ConnectAsync` on a connected channel,
    and the one of a call that `Shutdown` cancels. -/
theorem manual_callbacks_on_io_thread :
    (∃ p p', (machine { dispatch := .manual }).run initial connectAgainRun = some p ∧
      (machine { dispatch := .manual }).step p (2, .run) = some p' ∧
      p'.shared.out.connects = p.shared.out.connects ++ [⟨1, statusOK, .io⟩] ∧
      ¬ OnlyInRunCallbacks { dispatch := .manual } p (2, .run)) ∧
    ∃ p p', (machine { dispatch := .manual }).run initial destroyRun = some p ∧
      (machine { dispatch := .manual }).step p (2, .run) = some p' ∧
      p'.shared.out.invoked = [⟨0, statusShutdown, [], .io⟩] ∧
      ¬ OnlyInRunCallbacks { dispatch := .manual } p (2, .run) := by
  refine ⟨⟨_, _, rfl, rfl, rfl, ?_⟩, ⟨_, _, rfl, rfl, rfl, ?_⟩⟩ <;>
  · intro honly
    obtain ⟨left, hleft⟩ := honly _ rfl (by decide)
    cases hleft

end Protocomm.Cpp.Channel
