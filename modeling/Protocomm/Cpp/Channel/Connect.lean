import Protocomm.Cpp.Channel.Completion
import Protocomm.Cpp.Channel.Owner

/-!
# The connect state machine

A `ConnectCallback` moves from the `RequestConnect` that it is given to onto the
strand, from there to `connect_waiters`, and is called by `finish` or by the
handler of `Shutdown`; a handler that finds the channel connected or closed calls
it at once. Waiters exist only while a `ConnectCoro` runs that will call them.
-/

namespace Protocomm.Cpp.Channel

open Misc

/-- How often a callback given to `RequestConnect` has been called; the one of a promise
    sets it, and a second call would set it again. -/
def Deliveries.ran (d : Deliveries) : ConnectCallback → Nat
  | .promise f => (d.promises[f]?.getD []).length
  | .user n => d.connects.countP fun i => i.n = n
  | .empty => 0

/-- The callback that a step of a thread gives to `RequestConnect`, unless it is
    empty. -/
def Thread.gives (s : Shared) : Thread → Action → List ConnectCallback
  | .app, .connectAsync false => [.user s.connectsAsked]
  | .io, .nestedConnect false => [.user s.connectsAsked]
  | .ensureConnected _ .checkStopped, .run =>
      if s.stopped then [] else [.promise s.out.promises.length]
  | _, _ => []

/-- The connect callbacks that a step of the pool is given. -/
def given (p : Pool Shared Thread) (ia : Nat × Action) (_ : Pool Shared Thread) :
    List ConnectCallback :=
  match p.threads[ia.1]? with
  | some t => t.gives p.shared ia.2
  | none => []

/-- The callback was numbered before. -/
def ConnectCallback.Numbered (s : Shared) : ConnectCallback → Prop
  | .promise f => f < s.out.promises.length
  | .user n => n < s.connectsAsked
  | .empty => False

section Ran

variable {cfg : Config} {d d' : Deliveries} {st : Status} {site : Site} {c cb : ConnectCallback}

theorem ran_congr (hpromises : d'.promises = d.promises) (hconnects : d'.connects = d.connects) :
    d'.ran c = d.ran c := by
  cases c <;> simp only [Deliveries.ran, hpromises, hconnects]

theorem postResponse_ran (cb : Callback) (payload : Bytes) :
    (postResponse cfg d cb st payload site).ran c = d.ran c := by
  unfold postResponse
  split
  · rfl
  · split <;> exact ran_congr rfl rfl

theorem postPush_ran (methodId : UInt32) (payload : Bytes) :
    (postPush cfg d methodId payload).ran c = d.ran c := by
  unfold postPush
  split <;> exact ran_congr rfl rfl

theorem failAll_ran (snapshot : List Callback) (defer : Bool) :
    (failAll cfg d snapshot st defer site).ran c = d.ran c := by
  rw [failAll_eq]
  split <;> exact ran_congr rfl rfl

/-- A new promise is not set. -/
theorem newPromise_ran :
    Deliveries.ran { d with promises := d.promises ++ [[]] } c = d.ran c := by
  cases c with
  | promise f =>
      have hget : (d.promises ++ [[]])[f]?.getD [] = d.promises[f]?.getD [] := by
        rcases Nat.lt_trichotomy f d.promises.length with hlt | rfl | hgt
        · rw [List.getElem?_append_left hlt]
        · simp
        · have hafter : (d.promises ++ [[]]).length ≤ f := by
            rw [List.length_append]
            exact hgt
          rw [List.getElem?_eq_none hafter, List.getElem?_eq_none hgt.le]
      simp only [Deliveries.ran, hget]
  | user | empty => rfl

/-- A callback is called. -/
theorem ConnectCallback.run_ran (hc : c ≠ .empty)
    (hmade : cb = c → ∀ f, c = .promise f → f < d.promises.length) :
    (cb.run d st site).ran c = d.ran c + if cb = c then 1 else 0 := by
  by_cases hcb : cb = c
  · have hlt := hmade hcb
    subst hcb
    rw [if_pos rfl]
    cases cb with
    | promise f =>
        simp [ConnectCallback.run, Deliveries.ran, List.getElem?_eq_getElem (hlt f rfl)]
    | user n => simp [ConnectCallback.run, Deliveries.ran]
    | empty => exact absurd rfl hc
  · rw [if_neg hcb, Nat.add_zero]
    cases cb with
    | promise f =>
        cases c with
        | promise f' =>
            have hne : f ≠ f' := fun h => hcb (congrArg _ h)
            simp only [ConnectCallback.run, Deliveries.ran, List.getElem?_modify_ne _ _ hne]
        | user | empty => rfl
    | user n =>
        cases c with
        | user n' =>
            have hne : n ≠ n' := fun h => hcb (congrArg _ h)
            simp [ConnectCallback.run, Deliveries.ran, List.countP_append, hne]
        | promise | empty => rfl
    | empty => rfl

theorem ConnectCallback.run_promises (cb : ConnectCallback) :
    (cb.run d st site).promises.length = d.promises.length :=
  (cb.run_same (f := 0)).1

theorem finish_promises (s : Shared) :
    (finish cfg s st).out.promises.length = s.out.promises.length := by
  cases hdispatch : cfg.dispatch with
  | inline =>
      refine (foldl_same (f := 0) (fun d cb => ?_) s.connectWaiters).1
      simp only [postConnect, hdispatch]
      exact cb.run_same
  | manual => exact (finish_setters (f := 0) hdispatch s).1

/-- All waiters are called. -/
theorem waiters_ran (hc : c ≠ .empty) (waiters : List ConnectCallback)
    (hpromise : 0 < waiters.count c → ∀ f, c = .promise f → f < d.promises.length) :
    (waiters.foldl (fun d cb => cb.run d st site) d).ran c = d.ran c + waiters.count c := by
  induction waiters generalizing d with
  | nil => rfl
  | cons cb waiters ih =>
      simp only [List.count_cons, beq_iff_eq] at hpromise ⊢
      have hrun : (cb.run d st site).ran c = d.ran c + if cb = c then 1 else 0 := by
        refine ConnectCallback.run_ran hc fun hcb => ?_
        rw [if_pos hcb] at hpromise
        exact hpromise (Nat.succ_pos _)
      rw [List.foldl_cons, ih ?_, hrun]
      · omega
      · intro hpos
        rw [cb.run_promises]
        exact hpromise (Nat.add_pos_left hpos _)

theorem finish_ran (hinline : cfg.dispatch = .inline) (hc : c ≠ .empty) (s : Shared)
    (hpromise : 0 < s.connectWaiters.count c → ∀ f, c = .promise f → f < s.out.promises.length) :
    (finish cfg s st).out.ran c = s.out.ran c + s.connectWaiters.count c := by
  have hpost : postConnect cfg st = fun d cb => cb.run d st .io := by
    funext d cb
    simp only [postConnect, hinline]
  simp only [finish, hpost]
  exact waiters_ran hc _ hpromise

end Ran

variable {cfg : Config} {p : Pool Shared Thread} {s s' : Shared} {t t' : Thread} {a : Action}
  {new : List Thread}

/-- Only while connecting does the channel keep waiters. -/
theorem Move.waiters (h : Move cfg s t a s' t' new)
    (hs : s.connectWaiters ≠ [] → s.connState = .connecting) :
    s'.connectWaiters ≠ [] → s'.connState = .connecting := by
  cases h with
  | connectWait cb rest hstrand hconnecting => exact fun _ => hconnecting
  | connectSpawn => exact fun _ => rfl
  | shutdownHandler | closeIdle | connectFailed | connectClosed | connectDone =>
      exact fun hne => absurd rfl hne
  | _ => exact hs

theorem reachable_waiters (h : (machine cfg).Reachable initial p) :
    p.shared.connectWaiters ≠ [] → p.shared.connState = .connecting :=
  Program.reachable_shared (I := fun s => s.connectWaiters ≠ [] → s.connState = .connecting)
    (fun hne => absurd rfl hne) (fun _ _ _ _ _ _ _ _ hI hs => (step_move hs).waiters hI) h

/-- A connecting channel has its `ConnectCoro`. -/
theorem connector_of_connecting (h : (machine cfg).Reachable initial p)
    (hstate : p.shared.connState = .connecting) : ∃ pc, .connectCoro pc ∈ p.threads := by
  have hone := reachable_coroutines h
  rw [hstate] at hone
  obtain ⟨t, ht, hpos⟩ := exists_of_sum_pos (Nat.lt_of_lt_of_eq Nat.zero_lt_one hone.1.symm)
  cases t with
  | connectCoro pc => exact ⟨pc, ht⟩
  | _ => cases hpos

theorem waiters_of_no_connector (h : (machine cfg).Reachable initial p)
    (hcoro : ∀ pc, .connectCoro pc ∉ p.threads) : p.shared.connectWaiters = [] := by
  by_contra hne
  obtain ⟨pc, hpc⟩ := connector_of_connecting h (reachable_waiters h hne)
  exact hcoro pc hpc

/-- Without an io thread there is nobody to wait for. -/
theorem waiters_of_closeIdle (h : (machine cfg).Reachable initial p)
    (ht : .shutdown .closeIdle ∈ p.threads) : p.shared.connectWaiters = [] := by
  by_contra hne
  obtain ⟨pc, hpc⟩ := connector_of_connecting h (reachable_waiters h hne)
  have hphase := (reachable_goingDown h).2
  have hstarted : p.shared.ioThreadStarted = true := hphase _ hpc
  rw [hphase _ ht] at hstarted
  cases hstarted

section Account

variable (c : ConnectCallback)

/-- The thread is in a `RequestConnect` that still has the callback. -/
def Thread.hands : Thread → Nat
  | .requestConnect r _ => if r.callback = c then 1 else 0
  | _ => 0

/-- The places of a callback in the channel: the strand, the waiters, and the calls
    made. -/
def Shared.account (s : Shared) : Nat :=
  s.strand.count (.requestConnect c) + s.connectWaiters.count c + s.out.ran c

variable {c}

theorem resume_hands (k : Caller) (st : Status) : (k.resume st).hands c = 0 :=
  resume_const (Thread.hands c) rfl (fun _ _ _ => rfl) (fun _ _ => rfl) k st

theorem Requester.resume_hands (r : Requester) : r.resume.hands c = 0 := by
  cases r <;> rfl

theorem account_congr (hstrand : s'.strand = s.strand)
    (hwaiters : s'.connectWaiters = s.connectWaiters) (hran : s'.out.ran c = s.out.ran c) :
    s'.account c = s.account c := by
  simp only [Shared.account, hstrand, hwaiters, hran]

theorem strand_count (cb : ConnectCallback) (rest : List Handler) :
    (Handler.requestConnect cb :: rest).count (.requestConnect c) =
      rest.count (.requestConnect c) + if cb = c then 1 else 0 := by
  simp [List.count_cons]

theorem post_account (cb : ConnectCallback) :
    (s.post (.requestConnect cb)).account c = s.account c + if cb = c then 1 else 0 := by
  simp only [Shared.account, Shared.post, List.count_append, List.count_singleton, beq_iff_eq,
    Handler.requestConnect.injEq]
  omega

theorem post_account_other {x : Handler} (hx : ∀ cb, x ≠ .requestConnect cb) :
    (s.post x).account c = s.account c := by
  simp [Shared.account, Shared.post, List.count_append, hx c]

/-- The callback of a `ConnectAsync` on the io thread. -/
theorem nested_gives (hc : c ≠ .empty) {isEmpty : Bool} {cb : ConnectCallback}
    (hcb : cb = if isEmpty then .empty else .user s.connectsAsked) :
    (Thread.io.gives s (.nestedConnect isEmpty)).count c = if cb = c then 1 else 0 := by
  subst hcb
  cases isEmpty with
  | true => simp [Thread.gives, hc.symm]
  | false =>
      by_cases hcb : ConnectCallback.user s.connectsAsked = c <;> simp [Thread.gives, hcb]

/-- A callback is called. -/
theorem run_account (hc : c ≠ .empty) {cb : ConnectCallback} {st : Status} {site : Site}
    (hstrand : s'.strand = s.strand) (hwaiters : s'.connectWaiters = s.connectWaiters)
    (hout : s'.out = cb.run s.out st site)
    (hmade : cb = c → ∀ f, c = .promise f → f < s.out.promises.length) :
    s'.account c = s.account c + if cb = c then 1 else 0 := by
  simp only [Shared.account, hstrand, hwaiters, hout, ConnectCallback.run_ran hc hmade]
  omega

/-- `finish` calls the waiters. -/
theorem finish_account (hinline : cfg.dispatch = .inline) (hc : c ≠ .empty) {st : Status}
    (hpromise : 0 < s.account c → ∀ f, c = .promise f → f < s.out.promises.length) :
    (finish cfg s st).account c = s.account c := by
  simp only [Shared.account] at hpromise ⊢
  rw [finish_ran hinline hc s fun hpos => hpromise (by omega)]
  simp only [finish, List.count_nil]
  omega

/-- A callback is handed on, or called, and each is given once. -/
theorem Move.account (hinline : cfg.dispatch = .inline) (hc : c ≠ .empty)
    (hqueue : s.out.cbQueue = []) (hidle : t = .shutdown .closeIdle → s.connectWaiters = [])
    (hnumbered : 0 < s.account c + t.hands c → c.Numbered s)
    (h : Move cfg s t a s' t' new) :
    s'.account c + (t'.hands c + (new.map (Thread.hands c)).sum) =
      s.account c + t.hands c + (t.gives s a).count c := by
  have hpromise : 0 < s.account c + t.hands c → ∀ f, c = .promise f →
      f < s.out.promises.length := by
    rintro hpos f rfl
    exact hnumbered hpos
  cases h with
  | connectAsync isEmpty =>
      cases isEmpty with
      | true => simp [Shared.account, Thread.hands, Thread.gives, Requester.callback, hc.symm]
      | false =>
          by_cases hcb : ConnectCallback.user s.connectsAsked = c <;>
            simp [Shared.account, Thread.hands, Thread.gives, Requester.callback, hcb]
  | checkOK | waitSet | waitBroken =>
      rw [resume_hands]
      rfl
  | ensureStopped k hstopped =>
      rw [resume_hands]
      simp [Thread.hands, Thread.gives, hstopped]
  | ensureRequest k hopen =>
      by_cases hcb : ConnectCallback.promise s.out.promises.length = c <;>
        simp [Shared.account, Thread.hands, Thread.gives, hopen, newPromise_ran,
          Requester.callback, hcb]
  | requestStopped r | ioThreadMissing r =>
      rw [r.resume_hands]
      refine run_account hc rfl rfl rfl fun hcb => ?_
      simp only [Thread.hands, if_pos hcb] at hpromise
      exact hpromise (Nat.succ_pos _)
  | postRequest r =>
      rw [post_account, r.resume_hands]
      rfl
  | connectRefused cb rest hstrand | connectThere cb rest hstrand =>
      have hbefore : s.account c = Shared.account c { s with strand := rest } +
          if cb = c then 1 else 0 := by
        simp only [Shared.account, hstrand, strand_count]
        omega
      rw [hbefore] at hpromise ⊢
      refine run_account hc rfl rfl rfl fun hcb => hpromise ?_
      rw [if_pos hcb]
      omega
  | connectWait cb rest hstrand | connectSpawn cb rest hstrand =>
      simp only [Shared.account, Shared.coSpawn, Thread.hands, Thread.gives, hstrand, strand_count,
        addWaiter_count hc, List.count_nil, List.map_nil, List.map_cons, List.sum_nil,
        List.sum_cons]
      omega
  | submitStopped methodId request cb rest hstrand =>
      simp [Shared.account, Thread.hands, Thread.gives, hstrand, postResponse_ran]
  | submit methodId request cb rest hstrand | submitSpawn methodId request cb rest hstrand =>
      simp [Shared.account, Shared.coSpawn, Shared.register, Thread.hands, Thread.gives, hstrand]
  | shutdownHandler rest hstrand =>
      have hstrand' : s.strand.count (.requestConnect c) = rest.count (.requestConnect c) := by
        simp [hstrand]
      simp only [Shared.account, Thread.hands] at hpromise
      simp only [Shared.account, Thread.hands, Thread.gives, handleShutdown, failAllPending]
      rw [waiters_ran hc _ fun hpos => ?_, failAll_ran, hstrand']
      · simp only [List.count_nil, List.map_nil, List.sum_nil]
        omega
      · rw [(failAll_same (f := 0) _ _).1]
        exact hpromise (by omega)
  | closeIdle =>
      simp [Shared.account, Thread.hands, Thread.gives, failAllPending, failAll_ran, hidle rfl]
  | fail | take | nestedCallFails =>
      refine congrArg (· + _) (account_congr rfl rfl ?_)
      exact postResponse_ran _ _
  | readFailed | pumpFailed =>
      refine congrArg (· + _) (account_congr rfl rfl ?_)
      exact failAll_ran _ _
  | push =>
      refine congrArg (· + _) (account_congr rfl rfl ?_)
      exact postPush_ran _ _
  | postCall | postShutdown | nestedCall => exact congrArg (· + _) (post_account_other (by simp))
  | nestedConnectStopped isEmpty cb hlive hstopped hcb =>
      rw [nested_gives hc hcb]
      refine run_account hc rfl rfl rfl fun hsame => ?_
      rintro f rfl
      subst hcb
      cases isEmpty <;> cases hsame
  | nestedConnect isEmpty cb hlive hopen hcb =>
      rw [nested_gives hc hcb]
      exact post_account cb
  | runOne left c rest hcons =>
      rw [hqueue] at hcons
      cases hcons
  | connectFailed | connectClosed | connectDone =>
      exact congrArg (· + _) (finish_account hinline hc hpromise)
  | _ => rfl

theorem Move.promises_mono (h : Move cfg s t a s' t' new) :
    s.out.promises.length ≤ s'.out.promises.length := by
  cases h with
  | ensureRequest => simp
  | requestStopped | ioThreadMissing | connectRefused | connectThere | nestedConnectStopped =>
      exact (ConnectCallback.run_promises _).ge
  | submitStopped | fail | take | nestedCallFails => exact (postResponse_same (f := 0) _).1.ge
  | push => exact (postPush_same (f := 0) _).1.ge
  | readFailed | pumpFailed | closeIdle => exact (failAll_same (f := 0) _ _).1.ge
  | shutdownHandler => exact (handleShutdown_same (f := 0) _).1.ge
  | connectFailed | connectClosed | connectDone => exact (finish_promises _).ge
  | runOne left c rest hqueue => exact (Completion.run_setters (f := 0) hqueue).1.ge
  | _ => exact Nat.le_refl _

theorem Move.connectsAsked_mono (h : Move cfg s t a s' t' new) :
    s.connectsAsked ≤ s'.connectsAsked := by
  cases h with
  | connectAsync | nestedConnectStopped | nestedConnect => exact Nat.le_succ _
  | _ => exact Nat.le_refl _

theorem Move.numbered_mono (h : Move cfg s t a s' t' new) (hc : c.Numbered s) :
    c.Numbered s' := by
  cases c with
  | promise f => exact Nat.lt_of_lt_of_le hc h.promises_mono
  | user n => exact Nat.lt_of_lt_of_le hc h.connectsAsked_mono
  | empty => exact hc

/-- A callback gets its number when it is given. -/
theorem gives_new (hc : c ∈ t.gives s a) : ¬ c.Numbered s := by
  unfold Thread.gives at hc
  split at hc
  · rw [List.mem_singleton.mp hc]
    exact Nat.lt_irrefl _
  · rw [List.mem_singleton.mp hc]
    exact Nat.lt_irrefl _
  · split at hc
    · cases hc
    · rw [List.mem_singleton.mp hc]
      exact Nat.lt_irrefl _
  · cases hc

theorem gives_nodup : (t.gives s a).Nodup := by
  unfold Thread.gives
  split
  · exact List.nodup_singleton _
  · exact List.nodup_singleton _
  · split
    · exact List.nodup_nil
    · exact List.nodup_singleton _
  · exact List.nodup_nil

theorem Move.gives_numbered (h : Move cfg s t a s' t' new) (hc : c ∈ t.gives s a) :
    c.Numbered s' := by
  cases h with
  | connectAsync isEmpty | nestedConnectStopped isEmpty | nestedConnect isEmpty =>
      cases isEmpty with
      | true => cases hc
      | false =>
          rw [List.mem_singleton.mp hc]
          exact Nat.lt_succ_self _
  | ensureStopped k hstopped =>
      simp only [Thread.gives, hstopped, if_true] at hc
      cases hc
  | ensureRequest k hopen =>
      simp only [Thread.gives, hopen, Bool.false_eq_true, if_false] at hc
      rw [List.mem_singleton.mp hc]
      simp [ConnectCallback.Numbered]
  | _ => cases hc

end Account

/-- The callbacks given to `RequestConnect` in a run, the empty ones left out. -/
def callbacks (cfg : Config) (acts : List (Nat × Action)) : List ConnectCallback :=
  (machine cfg).log given initial acts

/-- Each callback given so far is in one place. -/
structure Accounted (cfg : Config) (acts : List (Nat × Action)) (p : Pool Shared Thread) :
    Prop where
  nodup : (callbacks cfg acts).Nodup
  numbered : ∀ c ∈ callbacks cfg acts, c.Numbered p.shared
  account : ∀ c ≠ .empty, Program.owned (Shared.account c) (Thread.hands c) p.shared p.threads =
    (callbacks cfg acts).count c

theorem Accounted.step {acts : List (Nat × Action)} {p' : Pool Shared Thread} {ia : Nat × Action}
    (hinline : cfg.dispatch = .inline) (hrun : (machine cfg).run initial acts = some p)
    (h : Accounted cfg acts p) (hstep : (machine cfg).step p ia = some p') :
    Accounted cfg (acts ++ [ia]) p' := by
  have hreach : (machine cfg).Reachable initial p := ⟨acts, hrun⟩
  obtain ⟨t, t', new, rest, ht, hs, hbefore, hafter⟩ := Program.machine_step_at hstep
  have hmove : Move cfg p.shared t ia.2 p'.shared t' new := step_move hs
  have hlog : callbacks cfg (acts ++ [ia]) = callbacks cfg acts ++ t.gives p.shared ia.2 := by
    rw [callbacks, Machine.log_concat hrun hstep, given, ht]
    rfl
  refine ⟨?_, ?_, ?_⟩
  · rw [hlog, List.nodup_append]
    refine ⟨h.nodup, gives_nodup, ?_⟩
    rintro c hc _ hgives rfl
    exact gives_new hgives (h.numbered c hc)
  · intro c hc
    rw [hlog, List.mem_append] at hc
    rcases hc with hold | hgives
    · exact hmove.numbered_mono (h.numbered c hold)
    · exact hmove.gives_numbered hgives
  · intro c hc
    have hcount := h.account c hc
    rw [Program.owned_perm _ _ _ hbefore] at hcount
    simp only [Program.owned, List.map_cons, List.sum_cons] at hcount
    have hnumbered : 0 < p.shared.account c + t.hands c → c.Numbered p.shared := by
      intro hpos
      exact h.numbered c (List.count_pos_iff.mp (by omega))
    have hidle : t = .shutdown .closeIdle → p.shared.connectWaiters = [] := by
      rintro rfl
      exact waiters_of_closeIdle hreach (List.mem_of_getElem? ht)
    have haccount := hmove.account hinline hc (reachable_cbQueue hinline hreach) hidle hnumbered
    rw [Program.owned_perm _ _ _ hafter, hlog, List.count_append]
    simp only [Program.owned, List.map_cons, List.map_append, List.sum_cons, List.sum_append]
    omega

theorem accounted {acts : List (Nat × Action)} (hinline : cfg.dispatch = .inline)
    (hrun : (machine cfg).run initial acts = some p) : Accounted cfg acts p := by
  refine Machine.run_history (P := Accounted cfg) ⟨List.nodup_nil, nofun, ?_⟩ ?_ hrun
  · intro c hc
    cases c <;> rfl
  · exact fun acts p ia p' hrun h hstep => h.step hinline hrun hstep

/-- `Connected` is left only for `Closed`. -/
theorem connected_left (h : (machine cfg).Reachable initial p) {ia : Nat × Action}
    {p' : Pool Shared Thread} (hstep : (machine cfg).step p ia = some p')
    (hstate : p.shared.connState = .connected) :
    p'.shared.connState = .connected ∨ p'.shared.connState = .closed := by
  obtain ⟨t, t', new, rest, hs, -, -⟩ := Program.machine_step_inv hstep
  refine (reachable_connection (h.tail hstep)).connected ?_
  exact (step_move hs).connected_mono ((reachable_connection h).up hstate)

/-- The callback is no longer on its way: its `RequestConnect` has returned, no
    posted handler waits on the strand and no `ConnectCoro` runs. -/
def Settled (p : Pool Shared Thread) (c : ConnectCallback) : Prop :=
  (∀ r pc, .requestConnect r pc ∈ p.threads → r.callback ≠ c) ∧
    (∀ cb, .requestConnect cb ∉ p.shared.strand) ∧ ∀ pc, .connectCoro pc ∉ p.threads

/-- The states of a connection, its `ConnectCoro`, the waiters and the callbacks
    in every state of a channel with `Inline` dispatch. -/
theorem connect_state_machine {acts : List (Nat × Action)} (hinline : cfg.dispatch = .inline)
    (hrun : (machine cfg).run initial acts = some p) :
    (p.threads.map Thread.connectors).sum ≤ 1 ∧
      (p.shared.connectWaiters ≠ [] →
        p.shared.connState = .connecting ∧ ∃ pc, .connectCoro pc ∈ p.threads) ∧
      (∀ ia p', (machine cfg).step p ia = some p' →
        (p.shared.connState = .closed → p'.shared.connState = .closed) ∧
          (p.shared.connState = .connected →
            p'.shared.connState = .connected ∨ p'.shared.connState = .closed)) ∧
      (callbacks cfg acts).Nodup ∧
      ∀ c ∈ callbacks cfg acts,
        p.shared.out.ran c ≤ 1 ∧ (Settled p c → p.shared.out.ran c = 1) := by
  have hreach : (machine cfg).Reachable initial p := ⟨acts, hrun⟩
  have haccounted := accounted hinline hrun
  refine ⟨?_, ?_, ?_, haccounted.nodup, ?_⟩
  · have hle := (reachable_coroutines hreach).le_one
    omega
  · intro hne
    have hstate := reachable_waiters hreach hne
    exact ⟨hstate, connector_of_connecting hreach hstate⟩
  · intro ia p' hstep
    refine ⟨fun hclosed => ?_, connected_left hreach hstep⟩
    obtain ⟨t, t', new, rest, hs, -, -⟩ := Program.machine_step_inv hstep
    exact (step_move hs).closed_mono hclosed
  · intro c hmem
    have hc : c ≠ .empty := by
      rintro rfl
      exact haccounted.numbered _ hmem
    have hone := haccounted.account c hc
    rw [List.count_eq_one_of_mem haccounted.nodup hmem] at hone
    simp only [Program.owned, Shared.account] at hone
    refine ⟨by omega, ?_⟩
    rintro ⟨hthreads, hstrand, hcoro⟩
    have hwaiters := waiters_of_no_connector hreach hcoro
    have hhands : (p.threads.map (Thread.hands c)).sum = 0 := by
      refine List.sum_eq_zero fun n hn => ?_
      obtain ⟨t, ht, rfl⟩ := List.mem_map.mp hn
      cases t with
      | requestConnect r pc => exact if_neg (hthreads r pc ht)
      | _ => rfl
    rw [List.count_eq_zero_of_not_mem (hstrand c), hwaiters, List.count_nil, hhands] at hone
    omega

/-- Two `ConnectAsync`s share an attempt that fails; a callback asks again, and
    `Shutdown` cancels that attempt. -/
def retryRun : List (Nat × Action) :=
  [(0, .connectAsync false), (1, .run), (1, .run), (1, .run), (1, .run), (0, .connectAsync false),
    (3, .run), (3, .run), (3, .run), (3, .run), (2, .run), (2, .run), (4, .run),
    (4, .op (some "Connection refused")), (2, .nestedConnect false), (2, .run), (0, .shutdown),
    (6, .run), (6, .run), (6, .run), (5, .run), (2, .run), (5, .op (some "Operation canceled"))]

theorem connect_state_machine_retryRun :
    ∃ p, (machine {}).run initial retryRun = some p ∧ p.shared.connState = .closed ∧
      callbacks {} retryRun = [.user 0, .user 1, .user 2] ∧
      ∀ c ∈ callbacks {} retryRun, p.shared.out.ran c = 1 := by
  obtain ⟨p, hrun, hstate, hthreads, hstrand⟩ : ∃ p, (machine {}).run initial retryRun = some p ∧
      p.shared.connState = .closed ∧
      p.threads = [.app, .done, .io, .done, .done, .done, .shutdown .resetGuard] ∧
      p.shared.strand = [] := ⟨_, rfl, rfl, rfl, rfl⟩
  obtain ⟨-, -, -, -, hran⟩ := connect_state_machine rfl hrun
  refine ⟨p, hrun, hstate, by decide, fun c hc => (hran c hc).2 ⟨?_, ?_, ?_⟩⟩
  · intro r pc hmem
    simp [hthreads] at hmem
  · intro cb hmem
    simp [hstrand] at hmem
  · intro pc hmem
    simp [hthreads] at hmem

end Protocomm.Cpp.Channel
