import Protocomm.Cpp.Channel.Moves

/-!
# The owner of a channel with Manual dispatch

One thread, the owner, calls `RunCallbacks`; it also calls the other methods,
from its own code or from a callback that its `RunCallbacks` runs. A method that
blocks therefore blocks the queue of completions with it. `EnsureConnected`
waits for a promise whose callback `finish` puts into that queue.
-/

namespace Protocomm.Cpp.Channel

open Misc

/-- A channel and the methods its owner is in, by the positions of their threads,
    the innermost first. -/
structure Owned where
  pool : Pool Shared Thread := initial
  stack : List Nat := []

/-- The owner calls a method, or some thread takes a step; the application's
    steps are then the calls of other threads. -/
inductive OwnedAction where
  | call (a : Action)
  | step (i : Nat) (a : Action)

/-- The owner is outside of all methods or in a callback. -/
def Owned.mayCall (o : Owned) : Bool :=
  match o.stack with
  | [] => true
  | i :: _ =>
      match o.pool.threads[i]? with
      | some (.runCallbacks _) => true
      | _ => false

/-- Only the innermost method of the owner goes on, and nobody else calls
    `RunCallbacks`. -/
def Owned.mayStep (o : Owned) (i : Nat) (a : Action) : Bool :=
  !o.stack.tail.contains i &&
    match a with
    | .runCallbacks _ => false
    | _ => true

/-- The methods that have not returned. -/
def Owned.leave (o : Owned) : Owned :=
  { o with stack := o.stack.filter fun i => o.pool.threads[i]? ≠ some .done }

/-- The runs of a channel with one owner. -/
def ownedMachine (cfg : Config) : Machine Owned OwnedAction where
  step o
    | .call a =>
        if o.mayCall then
          match (machine cfg).step o.pool (0, a) with
          | some p => some ⟨p, o.pool.threads.length :: o.stack⟩
          | none => none
        else none
    | .step i a =>
        if o.mayStep i a then
          match (machine cfg).step o.pool (i, a) with
          | some p => some (Owned.leave ⟨p, o.stack⟩)
          | none => none
        else none

/-- The owner waits for promise `f` in `EnsureConnected`. -/
def Owned.Waits (o : Owned) (f : Nat) : Prop :=
  ∃ i k, o.stack.head? = some i ∧ o.pool.threads[i]? = some (.ensureConnected k (.wait f))

/-- The owner waits for a promise that is to be set by a completion in the queue,
    which only the owner would run. -/
def SelfDeadlock (o : Owned) : Prop :=
  ∃ f st, o.Waits f ∧ .connect (.promise f) st ∈ o.pool.shared.out.cbQueue

/-- The operations whose end is the end of the connection attempt. -/
def connectEnds (cfg : Config) : Connecting → Action → Bool
  | .resolve, .op (some _) => true
  | .connect, .op (some _) => true
  | .connect, .op none => cfg.handshakeHeader = []
  | .writeHandshake, .op (some _) => true
  | .readHandshake, .readHandshake _ => true
  | _, _ => false

/-- No connection attempt ends while the owner itself is among its waiters. -/
def NotAwaited (cfg : Config) (o : Owned) (b : OwnedAction) : Prop :=
  ∀ i a pc, b = .step i a → o.pool.threads[i]? = some (.connectCoro pc) →
    connectEnds cfg pc a = true → ∀ f, o.Waits f → .promise f ∉ o.pool.shared.connectWaiters

/-- The end of a connection attempt runs `finish`; before it, an attempt changes
    nothing. -/
theorem connectCoroStep_ends {cfg : Config} {s s' : Shared} {pc : Connecting} {a : Action}
    {t' : Thread} {new : List Thread} (h : connectCoroStep cfg s pc a = some (s', t', new)) :
    if connectEnds cfg pc a then
      ∃ s₀ st, s' = (finish cfg s₀ st).coReturn ∧ s₀.connectWaiters = s.connectWaiters ∧
        s₀.out = s.out
    else s' = s := by
  have hdone : ∀ {r}, connectDone cfg s = r → ∃ s₀ st, r.1 = (finish cfg s₀ st).coReturn ∧
      s₀.connectWaiters = s.connectWaiters ∧ s₀.out = s.out := by
    rintro r rfl
    unfold connectDone
    split
    · exact ⟨_, _, rfl, rfl, rfl⟩
    · exact ⟨_, _, rfl, rfl, rfl⟩
  unfold connectCoroStep at h
  split at h <;> simp only [connectEnds, Bool.false_eq_true, if_false, if_true, decide_eq_true_eq]
  · cases h
    rfl
  · cases h
    exact ⟨_, _, rfl, rfl, rfl⟩
  · cases h
    rfl
  · cases h
    exact ⟨_, _, rfl, rfl, rfl⟩
  · split at h
    · rw [if_pos ‹_›]
      exact hdone (Option.some.inj h)
    · cases h
      rw [if_neg ‹_›]
  · cases h
    exact ⟨_, _, rfl, rfl, rfl⟩
  · cases h
    rfl
  · cases h
    exact ⟨_, _, rfl, rfl, rfl⟩
  · split at h
    · cases h
    · split at h
      · cases h
        exact ⟨_, _, rfl, rfl, rfl⟩
      · exact hdone (Option.some.inj h)
  · cases h

section Promises

variable (f : Nat)

/-- The thread will give the callback of promise `f` away. -/
def Thread.asks : Thread → Nat
  | .requestConnect r _ => if r.callback = .promise f then 1 else 0
  | _ => 0

def Handler.asks : Handler → Bool
  | .requestConnect (.promise f') => f' = f
  | _ => false

def Completion.sets : Completion → Bool
  | .connect (.promise f') _ => f' = f
  | _ => false

/-- The completions that will set promise `f`. -/
def Deliveries.setters (d : Deliveries) : Nat := d.cbQueue.countP (Completion.sets f)

/-- How often the channel holds the callback of promise `f`. -/
def Shared.setters (s : Shared) : Nat :=
  s.strand.countP (Handler.asks f) + s.connectWaiters.count (.promise f) + s.out.setters f

/-- Promise `f` was made. -/
def Shared.promised (s : Shared) : Nat := if f < s.out.promises.length then 1 else 0

@[simp]
theorem resume_asks (k : Caller) (st : Status) : (k.resume st).asks f = 0 :=
  resume_const (Thread.asks f) rfl (fun _ _ _ => rfl) (fun _ _ => rfl) k st

@[simp]
theorem Requester.resume_asks (r : Requester) : r.resume.asks f = 0 := by
  cases r <;> rfl

/-- What delivering a callback leaves as it was: the promises that were made and
    the completions that will set them. -/
def Deliveries.Same (d d' : Deliveries) : Prop :=
  d'.promises.length = d.promises.length ∧ d'.setters f = d.setters f

variable {f} {cfg : Config} {d d' d'' : Deliveries} {st : Status} {payload : Bytes} {site : Site}

theorem Deliveries.Same.trans (h : d.Same f d') (h' : d'.Same f d'') : d.Same f d'' :=
  ⟨h'.1.trans h.1, h'.2.trans h.2⟩

theorem queue_same {c : Completion} (hc : c.sets f = false) : d.Same f (d.queue c) := by
  refine ⟨rfl, ?_⟩
  simp [Deliveries.setters, Deliveries.queue, hc]

theorem postResponse_same (cb : Callback) : d.Same f (postResponse cfg d cb st payload site) := by
  unfold postResponse
  split
  · exact ⟨rfl, rfl⟩
  · split
    · exact ⟨rfl, rfl⟩
    · exact queue_same rfl

theorem postPush_same (methodId : UInt32) : d.Same f (postPush cfg d methodId payload) := by
  unfold postPush
  split
  · exact ⟨rfl, rfl⟩
  · exact queue_same rfl

theorem ConnectCallback.run_same (cb : ConnectCallback) : d.Same f (cb.run d st site) := by
  cases cb with
  | promise f' => exact ⟨List.length_modify .., rfl⟩
  | user | empty => exact ⟨rfl, rfl⟩

theorem foldl_same {γ : Type} {g : Deliveries → γ → Deliveries}
    (hg : ∀ (d : Deliveries) x, d.Same f (g d x)) (l : List γ) : d.Same f (l.foldl g d) := by
  induction l generalizing d with
  | nil => exact ⟨rfl, rfl⟩
  | cons x l ih => exact (hg d x).trans ih

theorem failAll_same (snapshot : List Callback) (defer : Bool) :
    d.Same f (failAll cfg d snapshot st defer site) := by
  rw [failAll_eq]
  split
  · refine ⟨rfl, ?_⟩
    simp [Deliveries.setters, Completion.sets]
  · exact ⟨rfl, rfl⟩

theorem handleShutdown_same (s : Shared) : s.out.Same f (handleShutdown cfg s).out :=
  (failAll_same _ _).trans (foldl_same (fun _ cb => cb.run_same) _)

/-- `finish` queues the callbacks of all waiters. -/
theorem finish_setters (hmanual : cfg.dispatch = .manual) (s : Shared) :
    (finish cfg s st).out.promises.length = s.out.promises.length ∧
      (finish cfg s st).out.setters f = s.out.setters f + s.connectWaiters.count (.promise f) := by
  rw [finish, waiters_manual hmanual]
  refine ⟨rfl, ?_⟩
  simp only [Deliveries.setters, List.countP_append, List.countP_map, List.count]
  refine congrArg (_ + ·) (List.countP_congr fun cb _ => ?_)
  cases cb <;> simp [Completion.sets]

theorem Completion.run_setters {c : Completion} {rest : List Completion}
    (hqueue : d.cbQueue = c :: rest) :
    (c.run { d with cbQueue := rest }).promises.length = d.promises.length ∧
      (c.run { d with cbQueue := rest }).setters f ≤ d.setters f := by
  have hrest : Deliveries.setters f { d with cbQueue := rest } ≤ d.setters f := by
    simp [Deliveries.setters, hqueue, List.countP_cons]
  have hsame : Deliveries.Same f { d with cbQueue := rest } (c.run { d with cbQueue := rest }) := by
    cases c with
    | response cb st payload =>
        simp only [Completion.run]
        split <;> exact ⟨rfl, rfl⟩
    | connect cb st => exact cb.run_same
    | push => exact ⟨rfl, rfl⟩
  exact ⟨hsame.1, hsame.2.le.trans hrest⟩

end Promises

section Owner

variable {cfg : Config} {s s' : Shared} {t t' : Thread} {a : Action} {new : List Thread}
  {p : Pool Shared Thread} {f : Nat}

theorem asks_requestConnect (cb : ConnectCallback) :
    Handler.asks f (.requestConnect cb) = true ↔ cb = .promise f := by
  cases cb <;> simp [Handler.asks]

theorem addWaiter_count {c : ConnectCallback} (hc : c ≠ .empty) (waiters : List ConnectCallback)
    (cb : ConnectCallback) :
    (addWaiter waiters cb).count c = waiters.count c + if cb = c then 1 else 0 := by
  unfold addWaiter
  split
  · rename_i hempty
    rw [if_neg (hempty.trans_ne hc.symm), Nat.add_zero]
  · simp [List.count_append, List.count_singleton]

/-- A step that makes no promise and hands the callbacks of promises on. -/
theorem setters_handed {x y : Nat} (hlength : s'.out.promises.length = s.out.promises.length)
    (hle : s'.setters f + x ≤ s.setters f + y) :
    s.promised f ≤ s'.promised f ∧
      s'.setters f + x + s.promised f ≤ s.setters f + y + s'.promised f := by
  have hpromised : s'.promised f = s.promised f := by simp only [Shared.promised, hlength]
  omega

/-- A step that delivers callbacks and hands on no callback of a promise. -/
theorem setters_delivered {x y : Nat} (hsame : s.out.Same f s'.out)
    (hstrand : s'.strand = s.strand) (hwaiters : s'.connectWaiters = s.connectWaiters)
    (hle : x ≤ y) :
    s.promised f ≤ s'.promised f ∧
      s'.setters f + x + s.promised f ≤ s.setters f + y + s'.promised f := by
  refine setters_handed hsame.1 ?_
  simp only [Shared.setters, hsame.2, hstrand, hwaiters]
  omega

/-- The callback of a promise is handed on, never copied. -/
theorem Move.setters (hmanual : cfg.dispatch = .manual) (h : Move cfg s t a s' t' new) :
    s.promised f ≤ s'.promised f ∧
      s'.setters f + (t'.asks f + (new.map (Thread.asks f)).sum) + s.promised f ≤
        s.setters f + t.asks f + s'.promised f := by
  cases h with
  | ensureRequest k hopen =>
      simp only [Shared.promised, Shared.setters, Thread.asks, Deliveries.setters,
        Requester.callback, ConnectCallback.promise.injEq, List.length_append,
        List.length_singleton, List.map_nil, List.sum_nil]
      split <;> split <;> split <;> omega
  | connectAsync isEmpty =>
      refine setters_handed rfl ?_
      cases isEmpty <;> simp [Shared.setters, Thread.asks, Requester.callback]
  | checkOK | ensureStopped | waitSet | waitBroken =>
      rw [resume_asks]
      exact setters_delivered ⟨rfl, rfl⟩ rfl rfl (Nat.zero_le _)
  | requestStopped r | ioThreadMissing r =>
      rw [Requester.resume_asks]
      exact setters_delivered r.callback.run_same rfl rfl (Nat.zero_le _)
  | postRequest r =>
      rw [Requester.resume_asks]
      refine setters_handed rfl ?_
      simp only [Shared.setters, Shared.post, Thread.asks, List.countP_append,
        List.countP_singleton, asks_requestConnect, List.map_nil, List.sum_nil]
      omega
  | connectRefused cb rest hstrand | connectThere cb rest hstrand =>
      refine setters_handed (ConnectCallback.run_same (f := f) cb).1 ?_
      simp [Shared.setters, Thread.asks, (ConnectCallback.run_same (f := f) cb).2, hstrand,
        List.countP_cons]
  | connectWait cb rest hstrand | connectSpawn cb rest hstrand =>
      refine setters_handed rfl ?_
      simp only [Shared.setters, Shared.coSpawn, Thread.asks, hstrand, List.countP_cons,
        addWaiter_count (c := .promise f) nofun, asks_requestConnect, List.map_nil, List.map_cons,
        List.sum_nil, List.sum_cons]
      omega
  | submitStopped methodId request cb rest hstrand =>
      refine setters_handed (postResponse_same (f := f) cb).1 ?_
      simp [Shared.setters, Thread.asks, (postResponse_same (f := f) cb).2, hstrand, Handler.asks]
  | submit methodId request cb rest hstrand | submitSpawn methodId request cb rest hstrand =>
      refine setters_handed rfl ?_
      simp [Shared.setters, Thread.asks, hstrand, Handler.asks, Shared.register, Shared.coSpawn]
  | shutdownHandler rest hstrand =>
      have hsame : s.out.Same f (handleShutdown cfg { s with strand := rest }).out :=
        handleShutdown_same _
      refine setters_handed hsame.1 ?_
      simp only [Shared.setters, hsame.2, hstrand]
      simp [handleShutdown, failAllPending, Thread.asks, Handler.asks]
  | closeIdle =>
      have hsame : s.out.Same f (failAllPending cfg { s with connState := .closed } statusShutdown
        false .api).out := failAll_same _ _
      refine setters_handed hsame.1 ?_
      simp only [Shared.setters, hsame.2]
      simp [failAllPending, Thread.asks]
  | readFailed | pumpFailed => exact setters_delivered (failAll_same _ _) rfl rfl (Nat.zero_le _)
  | fail | take | nestedCallFails =>
      exact setters_delivered (postResponse_same _) rfl rfl (Nat.zero_le _)
  | push => exact setters_delivered (postPush_same _) rfl rfl (Nat.zero_le _)
  | nestedConnectStopped isEmpty cb =>
      exact setters_delivered cb.run_same rfl rfl (Nat.zero_le _)
  | nestedConnect isEmpty cb hlive hopen hcb =>
      refine setters_handed rfl ?_
      subst hcb
      cases isEmpty <;> simp [Shared.setters, Thread.asks, Shared.post, Handler.asks]
  | runOne left c rest hqueue =>
      obtain ⟨hlength, hsetters⟩ := Completion.run_setters (f := f) hqueue
      refine setters_handed hlength ?_
      simp only [Shared.setters, Thread.asks, List.map_nil, List.sum_nil]
      omega
  | drain =>
      refine setters_handed rfl ?_
      simp [Shared.setters, Thread.asks, Deliveries.setters]
  | connectFailed | connectClosed | connectDone =>
      -- `finish` moves the callbacks of the waiters to the queue
      refine setters_handed (finish_setters (f := f) hmanual _).1 ?_
      simp only [Shared.setters, Thread.asks, Shared.coReturn,
        (finish_setters (f := f) hmanual _).2]
      simp [finish, Shared.coSpawn, Thread.asks]
      omega
  | _ =>
      refine setters_handed rfl ?_
      simp [Shared.setters, Thread.asks, Shared.post, Shared.newCall, Shared.leave, Handler.asks,
        Shared.coReturn, Shared.endReadLoop]

/-- At most one holder of the callback of a promise. -/
theorem setters_add_asks_le (hmanual : cfg.dispatch = .manual)
    (h : (machine cfg).Reachable initial p) :
    p.shared.setters f + (p.threads.map (Thread.asks f)).sum ≤ 1 := by
  have hle := Program.reachable_owned_le (P := program cfg) (Shared.setters f) (Thread.asks f)
    (Shared.promised f) (p := p) (Nat.zero_le _) (fun u _ s' t t' new a hs => by
      obtain ⟨hmono, hstep⟩ := (step_move hs).setters (f := f) hmanual
      exact ⟨s'.promised f - u.shared.promised f, by omega, by omega⟩) h
  have hone : p.shared.promised f ≤ 1 := by
    unfold Shared.promised
    split <;> omega
  exact hle.trans hone

variable {o o' : Owned}

theorem ownedMachine_call (h : (ownedMachine cfg).step o (.call a) = some o') :
    o.mayCall = true ∧ ∃ p, (machine cfg).step o.pool (0, a) = some p ∧
      o' = ⟨p, o.pool.threads.length :: o.stack⟩ := by
  simp only [ownedMachine] at h
  split at h
  · split at h <;> cases h
    exact ⟨‹_›, _, ‹_›, rfl⟩
  · cases h

theorem ownedMachine_step {i : Nat} (h : (ownedMachine cfg).step o (.step i a) = some o') :
    i ∉ o.stack.tail ∧ ∃ p, (machine cfg).step o.pool (i, a) = some p ∧
      o' = Owned.leave ⟨p, o.stack⟩ := by
  simp only [ownedMachine] at h
  split at h
  · rename_i hmay
    simp only [Owned.mayStep, Bool.and_eq_true, Bool.not_eq_true', List.contains_eq_mem,
      decide_eq_false_iff_not] at hmay
    split at h <;> cases h
    exact ⟨hmay.1, _, ‹_›, rfl⟩
  · cases h

/-- A call starts one thread, which is not waiting. -/
theorem Move.app (h : Move cfg s .app a s' t' new) :
    t' = .app ∧ ∃ v, new = [v] ∧ ∀ k f, v ≠ .ensureConnected k (.wait f) := by
  cases h with
  | call | connect | connectAsync | runCallbacks | destroy => exact ⟨rfl, _, rfl, nofun⟩

/-- The application stays at the position from which the owner calls methods. -/
theorem app_at_zero (h : (machine cfg).Reachable initial p) : p.threads[0]? = some .app := by
  refine Machine.reachable_invariant (P := fun p => p.threads[0]? = some .app) rfl ?_ h
  rintro u ⟨i, a⟩ u' _ hu hstep
  by_cases hi : i = 0
  · subst hi
    obtain ⟨t', new, hs, ht', -⟩ := Program.machine_step_get hstep hu
    have hmove : Move cfg u.shared .app a u'.shared t' new := step_move hs
    rw [← hmove.app.1]
    exact ht'
  · exact Program.machine_step_other hstep hi hu

/-- The methods around the innermost one are `RunCallbacks`. -/
structure Owned.WellNested (cfg : Config) (o : Owned) : Prop where
  reachable : (machine cfg).Reachable initial o.pool
  inside : ∀ i ∈ o.stack, i < o.pool.threads.length
  outer : ∀ i ∈ o.stack.tail, ∃ left, o.pool.threads[i]? = some (.runCallbacks left)

theorem mem_tail_leave {i : Nat} (h : i ∈ o.leave.stack.tail) : i ∈ o.stack.tail := by
  simp only [Owned.leave] at h
  cases hstack : o.stack with
  | nil => simp [hstack] at h
  | cons j outer =>
      rw [hstack, List.filter_cons] at h
      split at h
      · exact List.mem_of_mem_filter h
      · exact List.mem_of_mem_filter (List.mem_of_mem_tail h)

/-- The innermost method after a step was the innermost one before, or the step
    ended that one. -/
theorem head_leave {i : Nat} (h : o.leave.stack.head? = some i) :
    o.stack.head? = some i ∨ i ∈ o.stack.tail := by
  have hmem : i ∈ o.stack := List.mem_of_mem_filter (List.mem_of_head? h)
  cases hstack : o.stack with
  | nil => simp [hstack] at hmem
  | cons j outer =>
      rw [hstack] at hmem
      rcases List.mem_cons.mp hmem with rfl | houter
      · exact Or.inl rfl
      · exact Or.inr houter

theorem Owned.WellNested.step (h : o.WellNested cfg) {b : OwnedAction}
    (hstep : (ownedMachine cfg).step o b = some o') : o'.WellNested cfg := by
  cases b with
  | call a =>
      obtain ⟨hmay, p, hp, rfl⟩ := ownedMachine_call hstep
      have happ := app_at_zero h.reachable
      refine ⟨h.reachable.tail hp, fun i hi => ?_, fun i hi => ?_⟩
      · obtain ⟨t', new, hs, -, hnew⟩ := Program.machine_step_get hp happ
        have hmove : Move cfg o.pool.shared .app a p.shared t' new := step_move hs
        obtain ⟨-, v, rfl, -⟩ := hmove.app
        have hlt : o.pool.threads.length < p.threads.length :=
          (List.getElem?_eq_some_iff.mp ((hnew 0).trans rfl)).1
        rcases List.mem_cons.mp hi with rfl | hi
        · exact hlt
        · exact (h.inside i hi).trans hlt
      have hinside : ∃ left, o.pool.threads[i]? = some (.runCallbacks left) := by
        cases hstack : o.stack with
        | nil => simp [hstack] at hi
        | cons j outer =>
            simp only [hstack, List.tail_cons, List.mem_cons] at hi
            rcases hi with rfl | houter
            · simp only [Owned.mayCall, hstack] at hmay
              split at hmay
              · exact ⟨_, ‹_›⟩
              · cases hmay
            · exact h.outer i (by simp [hstack, houter])
      obtain ⟨left, hleft⟩ := hinside
      have hi0 : 0 ≠ i := by
        rintro rfl
        cases happ.symm.trans hleft
      exact ⟨left, Program.machine_step_other hp hi0 hleft⟩
  | step j a =>
      obtain ⟨hmay, p, hp, rfl⟩ := ownedMachine_step hstep
      refine ⟨h.reachable.tail hp, fun i hi => ?_, fun i hi => ?_⟩
      · exact (h.inside i (List.mem_of_mem_filter hi)).trans_le (Program.machine_step_length hp)
      have hi : i ∈ o.stack.tail := mem_tail_leave (o := ⟨p, o.stack⟩) hi
      obtain ⟨left, hleft⟩ := h.outer i hi
      have hij : j ≠ i := fun hij => hmay (hij ▸ hi)
      exact ⟨left, Program.machine_step_other hp hij hleft⟩

/-- A thread starts to wait for a promise when it gives the callback away. -/
theorem Move.starts_waiting (h : Move cfg s t a s' t' new) {k : Caller} {f : Nat}
    (ht' : t' = .ensureConnected k (.wait f)) :
    t.asks f = 1 ∧ s'.out.setters f = s.out.setters f := by
  cases h with
  | requestStopped r | ioThreadMissing r =>
      cases r with
      | ensureConnected k' f' =>
          cases ht'
          exact ⟨by simp [Thread.asks, Requester.callback], (ConnectCallback.run_same _).2⟩
      | connectAsync => cases ht'
  | postRequest r =>
      cases r with
      | ensureConnected k' f' =>
          cases ht'
          exact ⟨by simp [Thread.asks, Requester.callback], rfl⟩
      | connectAsync => cases ht'
  | checkOK k' | ensureStopped k' | waitSet k' | waitBroken k' =>
      cases k' with
      | connect => cases ht'
      | call methodId request cb =>
          simp only [Caller.resume] at ht'
          split at ht' <;> cases ht'
  | _ => cases ht'

/-- Only the end of a connection attempt queues the callback of a promise. -/
theorem Move.queues (h : Move cfg s t a s' t' new) {f : Nat}
    (hqueued : s.out.setters f < s'.out.setters f) :
    ∃ pc, t = .connectCoro pc ∧ t' = .done := by
  have hnot : ¬ s'.out.setters f ≤ s.out.setters f := Nat.not_le.mpr hqueued
  cases h with
  | connectFailed pc | connectClosed pc | connectDone pc => exact ⟨pc, rfl, rfl⟩
  | requestStopped | ioThreadMissing | connectRefused | connectThere | nestedConnectStopped =>
      exact absurd (ConnectCallback.run_same _).2.le hnot
  | fail | submitStopped | nestedCallFails | take => exact absurd (postResponse_same _).2.le hnot
  | readFailed | closeIdle | pumpFailed => exact absurd (failAll_same _ _).2.le hnot
  | shutdownHandler => exact absurd (handleShutdown_same _).2.le hnot
  | push => exact absurd (postPush_same _).2.le hnot
  | runOne left c rest hqueue => exact absurd (Completion.run_setters hqueue).2 hnot
  | drain => exact absurd (Nat.zero_le _) hnot
  | _ => exact absurd (Nat.le_refl _) hnot

theorem setters_pos {st : Status} (h : .connect (.promise f) st ∈ s.out.cbQueue) :
    0 < s.out.setters f := by
  rw [Deliveries.setters, List.countP_pos_iff]
  exact ⟨_, h, by simp [Completion.sets]⟩

theorem connect_mem_of_setters {d : Deliveries} (h : 0 < d.setters f) :
    ∃ st, .connect (.promise f) st ∈ d.cbQueue := by
  rw [Deliveries.setters, List.countP_pos_iff] at h
  obtain ⟨c, hmem, hc⟩ := h
  cases c with
  | connect cb st =>
      cases cb with
      | promise f' =>
          simp only [Completion.sets, decide_eq_true_eq] at hc
          exact ⟨st, hc ▸ hmem⟩
      | user | empty => cases hc
  | response | push => cases hc

theorem selfDeadlock_iff : SelfDeadlock o ↔ ∃ f, o.Waits f ∧ 0 < o.pool.shared.out.setters f := by
  constructor
  · rintro ⟨f, st, hwaits, hmem⟩
    exact ⟨f, hwaits, setters_pos hmem⟩
  · rintro ⟨f, hwaits, hpos⟩
    obtain ⟨st, hmem⟩ := connect_mem_of_setters hpos
    exact ⟨f, st, hwaits, hmem⟩

/-- The owner still waits after a step of another thread. -/
theorem Owned.Waits.other {i : Nat} (h : o.Waits f) (hp : (machine cfg).step o.pool (i, a) = some p)
    (hi : o.stack.head? ≠ some i) : Owned.Waits (Owned.leave ⟨p, o.stack⟩) f := by
  obtain ⟨j, k, hj, hwait⟩ := h
  have hne : i ≠ j := fun hij => hi (hij ▸ hj)
  have hwait' := Program.machine_step_other hp hne hwait
  refine ⟨j, k, ?_, hwait'⟩
  obtain ⟨outer, hstack⟩ := List.head?_eq_some_iff.mp hj
  simp [Owned.leave, hstack, hwait']

/-- A step of a connection attempt queues the callback of no promise that is not
    waited for. -/
theorem setters_of_attempt (hmanual : cfg.dispatch = .manual) {pc : Connecting}
    (hs : connectCoroStep cfg s pc a = some (s', t', new))
    (hwaiters : connectEnds cfg pc a = true → .promise f ∉ s.connectWaiters) :
    s'.out.setters f = s.out.setters f := by
  have hends := connectCoroStep_ends hs
  split at hends
  · obtain ⟨s₀, st, rfl, hsame, hout⟩ := hends
    have hfinish : (finish cfg s₀ st).coReturn.out.setters f =
        s₀.out.setters f + s₀.connectWaiters.count (.promise f) := (finish_setters hmanual s₀).2
    rw [hfinish, hsame, hout, List.count_eq_zero_of_not_mem (hwaiters ‹_›), Nat.add_zero]
  · rw [hends]

theorem selfDeadlock_keep (hmanual : cfg.dispatch = .manual) {b : OwnedAction}
    (h : o.WellNested cfg) (hfree : ¬ SelfDeadlock o) (hok : NotAwaited cfg o b)
    (hstep : (ownedMachine cfg).step o b = some o') : ¬ SelfDeadlock o' := by
  rw [selfDeadlock_iff] at hfree ⊢
  rintro ⟨f, ⟨i, k, hhead, hwait⟩, hpos⟩
  cases b with
  | call a =>
      obtain ⟨-, p, hp, rfl⟩ := ownedMachine_call hstep
      obtain ⟨t', new, hs, -, hnew⟩ := Program.machine_step_get hp (app_at_zero h.reachable)
      have hmove : Move cfg o.pool.shared .app a p.shared t' new := step_move hs
      obtain ⟨-, v, rfl, hv⟩ := hmove.app
      obtain rfl := Option.some.inj hhead
      exact hv k f (Option.some.inj ((hnew 0).symm.trans hwait))
  | step j a =>
      obtain ⟨hmay, p, hp, rfl⟩ := ownedMachine_step hstep
      obtain ⟨t, t', new, rest, ht, hs, hbefore, -⟩ := Program.machine_step_at hp
      have hmove : Move cfg o.pool.shared t a p.shared t' new := step_move hs
      rcases head_leave hhead with hhead | houter
      · by_cases hji : j = i
        · -- the owner itself starts to wait: it held the callback until now
          subst hji
          obtain ⟨t₁, new₁, hs₁, ht₁, -⟩ := Program.machine_step_get hp ht
          obtain ⟨-, rfl, -⟩ := Prod.mk.inj (Option.some.inj (hs.symm.trans hs₁))
          obtain ⟨hasks, hsame⟩ := hmove.starts_waiting (Option.some.inj (ht₁.symm.trans hwait))
          have hone := setters_add_asks_le (f := f) hmanual h.reachable
          rw [(hbefore.map (Thread.asks f)).sum_eq, List.map_cons, List.sum_cons, hasks,
            Shared.setters] at hone
          simp only [Owned.leave, hsame] at hpos
          omega
        · have hmem : i ∈ o.stack := List.mem_of_head? hhead
          have hbefore : o.pool.threads[i]? = some (.ensureConnected k (.wait f)) :=
            (Program.machine_step_getElem? hp hji (h.inside i hmem)).symm.trans hwait
          have hwaits : o.Waits f := ⟨i, k, hhead, hbefore⟩
          have hnone : o.pool.shared.out.setters f = 0 :=
            Nat.eq_zero_of_not_pos fun hold => hfree ⟨f, hwaits, hold⟩
          have hqueued : o.pool.shared.out.setters f < p.shared.out.setters f := by
            rw [hnone]
            exact hpos
          obtain ⟨pc, rfl, -⟩ := hmove.queues hqueued
          have hwaiters := fun hends => hok j a pc rfl ht hends f hwaits
          rw [setters_of_attempt hmanual hs hwaiters] at hqueued
          exact Nat.lt_irrefl _ hqueued
      · -- a method around the innermost one is a `RunCallbacks`
        obtain ⟨left, hleft⟩ := h.outer i houter
        have hne : j ≠ i := fun hij => hmay (hij ▸ houter)
        cases (Program.machine_step_other hp hne hleft).symm.trans hwait

theorem selfDeadlock_break (hmanual : cfg.dispatch = .manual) {b : OwnedAction}
    (hbad : ¬ NotAwaited cfg o b) (hstep : (ownedMachine cfg).step o b = some o') :
    SelfDeadlock o' := by
  simp only [NotAwaited, not_forall, not_not] at hbad
  obtain ⟨i, a, pc, rfl, hcoro, hends, f, hwaits, hmem⟩ := hbad
  obtain ⟨-, p, hp, rfl⟩ := ownedMachine_step hstep
  obtain ⟨t', new, hs, -, -⟩ := Program.machine_step_get hp hcoro
  have hcoroStep : connectCoroStep cfg o.pool.shared pc a = some (p.shared, t', new) := hs
  have hfinish := connectCoroStep_ends hcoroStep
  rw [if_pos hends] at hfinish
  obtain ⟨s₀, st, hshared, hsame, -⟩ := hfinish
  rw [selfDeadlock_iff]
  refine ⟨f, hwaits.other hp ?_, ?_⟩
  · obtain ⟨j, k, hj, hwait⟩ := hwaits
    rw [hj]
    rintro ⟨⟩
    cases hcoro.symm.trans hwait
  · have hsetters : p.shared.out.setters f =
        s₀.out.setters f + s₀.connectWaiters.count (.promise f) := by
      rw [hshared]
      exact (finish_setters hmanual s₀).2
    have hpos : 0 < o.pool.shared.connectWaiters.count (.promise f) := List.count_pos_iff.mpr hmem
    rw [← hsame] at hpos
    simp only [Owned.leave, hsetters]
    omega

/-- A run in which the owner never blocks itself is one in which no connection
    attempt ends while the owner is among its waiters. -/
theorem selfDeadlock_free_iff {acts : List OwnedAction} {o : Owned}
    (hmanual : cfg.dispatch = .manual) (hrun : (ownedMachine cfg).run {} acts = some o) :
    (∀ u ∈ (ownedMachine cfg).visited {} acts, ¬ SelfDeadlock u) ↔
      (ownedMachine cfg).Meets (NotAwaited cfg) {} acts := by
  refine Machine.forall_visited_iff_meets (I := Owned.WellNested cfg)
    (P := fun u => ¬ SelfDeadlock u) (Q := fun u => ¬ SelfDeadlock u) ?_ ?_ ?_ ?_ ?_ ?_ hrun
  · intro u b u' hu hstep
    exact hu.step hstep
  · intro u b u' hu hfree hok hstep
    exact selfDeadlock_keep hmanual hu hfree hok hstep
  · intro u _ hfree
    exact hfree
  · intro u b u' _ _ hbad hstep hfree
    exact hfree (selfDeadlock_break hmanual hbad hstep)
  · exact ⟨.refl _, nofun, nofun⟩
  · rintro ⟨f, st, -, hmem⟩
    cases hmem

/-- The owner calls `Connect`, and the attempt fails to resolve the host. -/
def blockedRun : List OwnedAction :=
  [.call .connect, .step 1 .run, .step 1 .run, .step 1 .run, .step 1 .run, .step 1 .run,
    .step 1 .run, .step 2 .run, .step 3 .run, .step 3 (.op (some "Host not found"))]

theorem selfDeadlock_free_iff_blockedRun :
    ∃ o, (ownedMachine { dispatch := .manual }).run {} blockedRun = some o ∧
      ((∀ u ∈ (ownedMachine { dispatch := .manual }).visited {} blockedRun, ¬ SelfDeadlock u) ↔
        (ownedMachine { dispatch := .manual }).Meets (NotAwaited { dispatch := .manual }) {}
          blockedRun) :=
  ⟨_, rfl, selfDeadlock_free_iff rfl rfl⟩

/-- The first `Connect` of the owner waits for a completion that only the owner
    could run. -/
theorem owner_blocks_itself :
    ∃ o, (ownedMachine { dispatch := .manual }).run {} blockedRun = some o ∧
      o.pool.threads = [.app, .ensureConnected .connect (.wait 0), .io, .done] ∧
      o.pool.shared.out.cbQueue =
        [.connect (.promise 0) ⟨StatusCode.Unavailable, "connect: Host not found"⟩] ∧
      SelfDeadlock o :=
  ⟨_, rfl, rfl, rfl, 0, _, ⟨1, .connect, rfl, rfl⟩, List.mem_singleton_self _⟩

end Owner

end Protocomm.Cpp.Channel
