import Protocomm.Cpp.Channel.Moves

/-!
# The life of a connection

The coroutines that go with each connection state: a channel has at most one
`ConnectCoro`, and in its life at most one `ReadLoop`, which is started by the
`ConnectCoro` that connects. A call is submitted only after that.
-/

namespace Protocomm.Cpp.Channel

open Misc

variable {cfg : Config} {p : Pool Shared Thread}

/-- A `ConnectCoro`, counted. -/
def Thread.connectors : Thread → Nat
  | .connectCoro _ => 1
  | _ => 0

/-- A `ReadLoop`, counted. -/
def Thread.readers : Thread → Nat
  | .readLoop _ => 1
  | _ => 0

/-- The numbers of `ConnectCoro`s, `ReadLoop`s and ended `ReadLoop`s that go with
    a connection state. -/
def Coroutines (state : ConnState) (connectors readers ended : Nat) : Prop :=
  match state with
  | .idle => connectors = 0 ∧ readers = 0 ∧ ended = 0
  | .connecting => connectors = 1 ∧ readers = 0 ∧ ended = 0
  | .connected => connectors = 0 ∧ readers + ended = 1
  | .closed => connectors + readers + ended ≤ 1

theorem Coroutines.le_one {state : ConnState} {c r e : Nat} (h : Coroutines state c r e) :
    c + r + e ≤ 1 := by
  cases state <;> simp only [Coroutines] at h <;> omega

@[simp]
theorem resume_connectors (k : Caller) (st : Status) : (k.resume st).connectors = 0 :=
  resume_const Thread.connectors rfl (fun _ _ _ => rfl) (fun _ _ => rfl) k st

@[simp]
theorem resume_readers (k : Caller) (st : Status) : (k.resume st).readers = 0 :=
  resume_const Thread.readers rfl (fun _ _ _ => rfl) (fun _ _ => rfl) k st

@[simp]
theorem return_connectors (r : Requester) : r.resume.connectors = 0 := by
  cases r <;> rfl

@[simp]
theorem return_readers (r : Requester) : r.resume.readers = 0 := by
  cases r <;> rfl

/-- The state after `finish` with a failure. -/
theorem finish_connState {s : Shared} {st : Status} (hst : st.isOK = false) :
    (finish cfg s st).connState = if s.connState = .closed then .closed else .idle := by
  simp only [finish, hst]
  by_cases hclosed : s.connState = .closed <;> simp [hclosed]

/-- A `ConnectCoro` that ends with a failure. -/
theorem Coroutines.failed {s : Shared} {st : Status} {c r : Nat} (hst : st.isOK = false)
    (h : Coroutines s.connState (1 + c) r s.readLoopsEnded) :
    Coroutines (finish cfg s st).connState c r (finish cfg s st).readLoopsEnded := by
  rw [finish_connState hst]
  have hle := h.le_one
  have hended : (finish cfg s st).readLoopsEnded = s.readLoopsEnded := rfl
  split
  · simp only [Coroutines]
    omega
  · simp only [Coroutines]
    omega

theorem Coroutines.reader_ends {state : ConnState} {c r e : Nat}
    (h : Coroutines state c (1 + r) e) : Coroutines state c r (e + 1) := by
  cases state <;> simp only [Coroutines] at h ⊢ <;> omega

/-- What a step does to the coroutines, when `c` and `r` count the other ones. -/
theorem Move.coroutines {s s' : Shared} {t t' : Thread} {a : Action} {new : List Thread}
    (h : Move cfg s t a s' t' new) {c r : Nat}
    (hbefore : Coroutines s.connState (t.connectors + c) (t.readers + r) s.readLoopsEnded) :
    Coroutines s'.connState (t'.connectors + ((new.map Thread.connectors).sum + c))
      (t'.readers + ((new.map Thread.readers).sum + r)) s'.readLoopsEnded := by
  cases h with
  | connectSpawn cb rest hstrand hstate hopen =>
      rw [hstate] at hbefore
      simp only [Thread.connectors, Thread.readers, Nat.zero_add] at hbefore
      obtain ⟨rfl, rfl, hended⟩ := hbefore
      exact ⟨rfl, rfl, hended⟩
  | shutdownHandler rest hstrand =>
      have hle := hbefore.le_one
      simp only [Thread.connectors, Thread.readers, Nat.zero_add] at hle
      simpa [Coroutines, Thread.connectors, Thread.readers, handleShutdown, failAllPending]
        using hle
  | closeIdle =>
      have hle := hbefore.le_one
      simp only [Thread.connectors, Thread.readers, Nat.zero_add] at hle
      simpa [Coroutines, Thread.connectors, Thread.readers, failAllPending] using hle
  | connectFailed pc a code message hcode =>
      have hst : (⟨code, message⟩ : Status).isOK = false := by simpa [Status.isOK] using hcode
      simp only [Thread.readers, Nat.zero_add] at hbefore
      simpa [Thread.connectors, Thread.readers, Shared.coReturn] using
        @Coroutines.failed cfg _ _ _ _ hst hbefore
  | connectClosed pc a hclosed =>
      simp only [Thread.readers, Nat.zero_add] at hbefore
      simpa [Thread.connectors, Thread.readers, Shared.coReturn] using
        @Coroutines.failed cfg _ statusShutdown _ _ rfl hbefore
  | connectDone pc a hclosed hopen =>
      -- a `ConnectCoro` is alive and the channel is not closed, so it was connecting
      simp only [Thread.connectors, Thread.readers] at hbefore
      have hle := hbefore.le_one
      simp [Coroutines, Thread.connectors, Thread.readers, Shared.coReturn, Shared.coSpawn, finish,
        statusOK, Status.isOK]
      omega
  | readFailed | readThrow =>
      simp only [Thread.connectors, Thread.readers, List.map_nil, List.sum_nil,
        Nat.zero_add] at hbefore ⊢
      exact hbefore.reader_ends
  | checkOK | ensureStopped | waitSet | waitBroken =>
      simp only [resume_connectors, resume_readers, List.map_nil, List.sum_nil, Nat.zero_add]
      simpa only [Thread.connectors, Thread.readers, Nat.zero_add] using hbefore
  | requestStopped | ioThreadMissing | postRequest =>
      simp only [return_connectors, return_readers, List.map_nil, List.sum_nil,
        Nat.zero_add]
      simp only [Thread.connectors, Thread.readers, Nat.zero_add] at hbefore
      exact hbefore
  | _ =>
      simp only [Thread.connectors, Thread.readers, List.map_nil, List.map_cons, List.sum_nil,
        List.sum_cons, Nat.zero_add, Nat.add_zero] at hbefore ⊢
      exact hbefore

theorem reachable_coroutines (h : (machine cfg).Reachable initial p) :
    Coroutines p.shared.connState (p.threads.map Thread.connectors).sum
      (p.threads.map Thread.readers).sum p.shared.readLoopsEnded := by
  refine Program.reachable_bag (K := fun s l => Coroutines s.connState
    (l.map Thread.connectors).sum (l.map Thread.readers).sum s.readLoopsEnded) ?_ ?_ ?_ h
  · intro s l l' hperm hl
    rwa [← (hperm.map _).sum_eq, ← (hperm.map Thread.readers).sum_eq]
  · exact ⟨rfl, rfl, rfl⟩
  · intro u _ s' t t' new rest a _ hK hs
    simp only [List.map_cons, List.map_append, List.sum_cons, List.sum_append] at hK ⊢
    exact (step_move hs).coroutines hK

/-- `Shutdown` has set `stopped`. -/
def Thread.stopping : Thread → Bool
  | .shutdown .exchange => false
  | .shutdown _ => true
  | _ => false

theorem resume_stopping (k : Caller) (st : Status) : (k.resume st).stopping = false :=
  resume_const Thread.stopping rfl (fun _ _ _ => rfl) (fun _ _ => rfl) k st

theorem Requester.resume_stopping (r : Requester) : r.resume.stopping = false := by
  cases r <;> rfl

variable {s s' : Shared} {t t' : Thread} {a : Action} {new : List Thread}

/-- `stopped` stays set. -/
theorem Move.stopped_mono (h : Move cfg s t a s' t' new) (hs : s.stopped = true) :
    s'.stopped = true := by
  cases h with
  | exchange => rfl
  | _ => exact hs

/-- `connected` stays set, whatever happens to the connection. -/
theorem Move.connected_mono (h : Move cfg s t a s' t' new) (hs : s.connected = true) :
    s'.connected = true := by
  cases h with
  | connectDone => rfl
  | _ => exact hs

/-- Who posts which handlers. -/
inductive Posts (s : Shared) : Thread → Handler → Prop
  | request (t : Thread) (cb : ConnectCallback) : Posts s t (.requestConnect cb)
  | call (methodId : UInt32) (request : Bytes) (cb : Callback) :
      Posts s (.asyncUnaryCall (.post methodId request cb)) (.submit methodId request cb)
  | nested (methodId : UInt32) (request : Bytes) (cb : Callback) (hconnected : s.connected = true)
      (hlive : s.destroying = false) : Posts s .io (.submit methodId request cb)
  | shutdown : Posts s (.shutdown .post) .shutdown

/-- A handler on the strand was there before the step or was posted by it. -/
theorem Move.posts (h : Move cfg s t a s' t' new) {x : Handler} (hx : x ∈ s'.strand) :
    x ∈ s.strand ∨ Posts s t x := by
  cases h with
  | postRequest | nestedConnect | postCall | postShutdown | nestedCall =>
      simp only [Shared.post, Shared.newCall, Shared.leave] at hx
      rcases List.mem_append.mp hx with hx | hx
      · exact Or.inl hx
      · rw [List.mem_singleton.mp hx]
        first
          | exact Or.inr (.request _ _)
          | exact Or.inr (.call _ _ _)
          | exact Or.inr .shutdown
          | exact Or.inr (.nested _ _ _ ‹_› ‹_›)
  | connectRefused cb rest hstrand | connectThere cb rest hstrand | connectWait cb rest hstrand
  | connectSpawn cb rest hstrand | submitStopped m r cb rest hstrand
  | submit m r cb rest hstrand | submitSpawn m r cb rest hstrand
  | shutdownHandler rest hstrand =>
      rw [hstrand]
      exact Or.inl (List.mem_cons_of_mem _ hx)
  | _ => exact Or.inl hx

/-- The handler of `Shutdown` is posted after `stopped` was set. -/
theorem reachable_stopping (h : (machine cfg).Reachable initial p) :
    (.shutdown ∈ p.shared.strand → p.shared.stopped = true) ∧
      ∀ t ∈ p.threads, t.stopping = true → p.shared.stopped = true := by
  refine Program.reachable_local (I := fun s => .shutdown ∈ s.strand → s.stopped = true)
    (J := fun s t => t.stopping = true → s.stopped = true) ⟨?_, ?_⟩ ?_ h
  · intro hmem
    cases hmem
  · intro t ht hstopping
    rw [List.mem_singleton.mp ht] at hstopping
    cases hstopping
  · intro u _ s' t t' new rest a _ hI hJ hs
    have hmove := step_move hs
    refine ⟨?_, ?_, ?_, fun v _ hv hstopping => hmove.stopped_mono (hv hstopping)⟩
    · intro hmem
      rcases hmove.posts hmem with hold | hposts
      · exact hmove.stopped_mono (hI hold)
      · cases hposts
        exact hmove.stopped_mono (hJ rfl)
    · intro hstopping
      cases hmove with
      | shutdownAgain hstopped => exact hstopped
      | exchange => rfl
      | readStarted | readIdle | postShutdown | resetGuard | join | closeIdle | drain =>
          exact hJ rfl
      | checkOK | ensureStopped | waitSet | waitBroken =>
          rw [resume_stopping] at hstopping
          cases hstopping
      | requestStopped | ioThreadMissing | postRequest =>
          rw [Requester.resume_stopping] at hstopping
          cases hstopping
      | _ => cases hstopping
    · intro v hv hstopping
      cases hmove with
      | call | connect | connectAsync | runCallbacks | destroy | startIoThread | connectSpawn
      | submitSpawn | connectDone =>
          rw [List.mem_singleton.mp hv] at hstopping
          cases hstopping
      | _ => cases hv

/-- How `connState`, `connected` and `stopped` go together. -/
structure Connection (s : Shared) : Prop where
  closed : s.connState = .closed → s.stopped = true
  connected : s.connected = true → s.connState = .connected ∨ s.connState = .closed
  up : s.connState = .connected → s.connected = true

/-- A `ConnectCoro` is gone once the channel is connected. -/
theorem connState_of_connector (h : (machine cfg).Reachable initial p) {pc : Connecting}
    (ht : .connectCoro pc ∈ p.threads) : p.shared.connState ≠ .connected := by
  intro hstate
  have hcoroutines := reachable_coroutines h
  rw [hstate] at hcoroutines
  have hle := (le_sum_map ht).trans hcoroutines.1.le
  simp [Thread.connectors] at hle

/-- `finish` with a failure while a `ConnectCoro` runs. -/
theorem Connection.failed (h : Connection s) (hstate : s.connState ≠ .connected) {st : Status}
    (hst : st.isOK = false) : Connection (finish cfg s st).coReturn := by
  have hnext : (finish cfg s st).coReturn.connState =
      if s.connState = .closed then .closed else .idle := @finish_connState cfg s st hst
  refine ⟨?_, ?_, ?_⟩
  · rw [hnext]
    split
    · exact fun _ => h.closed ‹_›
    · exact nofun
  · intro hconnected
    rcases h.connected hconnected with hup | hclosed
    · exact absurd hup hstate
    · rw [hnext, if_pos hclosed]
      exact Or.inr rfl
  · rw [hnext]
    split
    · exact nofun
    · exact nofun

theorem reachable_connection (h : (machine cfg).Reachable initial p) : Connection p.shared := by
  refine Program.reachable_shared ?_ ?_ h
  · exact ⟨nofun, nofun, nofun⟩
  · intro u hu s' t t' new a ht hI hs
    have hmove := step_move hs
    cases hmove with
    | exchange => exact ⟨fun _ => rfl, hI.connected, hI.up⟩
    | connectSpawn cb rest hstrand hstate =>
        refine ⟨nofun, ?_, nofun⟩
        intro hconnected
        have hbefore := hI.connected hconnected
        rw [hstate] at hbefore
        rcases hbefore with hup | hclosed
        · cases hup
        · cases hclosed
    | shutdownHandler rest hstrand =>
        have hstopped : u.shared.stopped = true :=
          (reachable_stopping hu).1 (by rw [hstrand]; exact List.mem_cons_self)
        exact ⟨fun _ => hstopped, fun _ => Or.inr rfl, nofun⟩
    | closeIdle =>
        have hstopped : u.shared.stopped = true := (reachable_stopping hu).2 _ ht rfl
        exact ⟨fun _ => hstopped, fun _ => Or.inr rfl, nofun⟩
    | connectFailed pc a code message hcode =>
        have hst : (⟨code, message⟩ : Status).isOK = false := by simpa [Status.isOK] using hcode
        exact hI.failed (connState_of_connector hu ht) hst
    | connectClosed pc a => exact hI.failed (connState_of_connector hu ht) rfl
    | connectDone => exact ⟨nofun, fun _ => Or.inl rfl, fun _ => rfl⟩
    | _ => exact ⟨hI.closed, hI.connected, hI.up⟩

/-- Some `EnsureConnected` was or will be told that the channel is connected. -/
def Deliveries.Grants (d : Deliveries) : Prop :=
  (∃ (f : Nat) (set : List Status), d.promises[f]? = some set ∧ ∃ st ∈ set, st.isOK = true) ∨
    ∃ (cb : ConnectCallback) (st : Status), .connect cb st ∈ d.cbQueue ∧ st.isOK = true

section Grants

variable {d : Deliveries} {st : Status} {site : Site}

theorem queue_grants {c : Completion} (h : (d.queue c).Grants) :
    d.Grants ∨ ∃ cb st, c = .connect cb st ∧ st.isOK = true := by
  rcases h with hset | ⟨cb, st, hmem, hst⟩
  · exact Or.inl (Or.inl hset)
  · rcases List.mem_append.mp hmem with hmem | hmem
    · exact Or.inl (Or.inr ⟨cb, st, hmem, hst⟩)
    · exact Or.inr ⟨cb, st, (List.mem_singleton.mp hmem).symm, hst⟩

theorem postResponse_grants {cb : Callback} {payload : Bytes}
    (h : (postResponse cfg d cb st payload site).Grants) : d.Grants := by
  unfold postResponse at h
  split at h
  · exact h
  · split at h
    · exact h
    · rcases queue_grants h with hd | ⟨cb, st, hc, -⟩
      · exact hd
      · cases hc

theorem failAll_grants {snapshot : List Callback} {defer : Bool}
    (h : (failAll cfg d snapshot st defer site).Grants) : d.Grants := by
  rw [failAll_eq] at h
  split at h
  · rcases h with hset | ⟨cb, st, hmem, hst⟩
    · exact Or.inl hset
    · rcases List.mem_append.mp hmem with hmem | hmem
      · exact Or.inr ⟨cb, st, hmem, hst⟩
      · simp at hmem
  · exact h

theorem ConnectCallback.run_grants {cb : ConnectCallback} (h : (cb.run d st site).Grants) :
    d.Grants ∨ st.isOK = true := by
  cases cb with
  | promise f =>
      rcases h with ⟨f', set, hset, st', hmem, hst⟩ | hqueue
      · simp only [ConnectCallback.run, List.getElem?_modify, Option.map_eq_map,
          Option.map_eq_some_iff] at hset
        obtain ⟨set₀, hset₀, rfl⟩ := hset
        split at hmem
        · rcases List.mem_append.mp hmem with hmem | hmem
          · exact Or.inl (Or.inl ⟨f', set₀, hset₀, st', hmem, hst⟩)
          · rw [← List.mem_singleton.mp hmem]
            exact Or.inr hst
        · exact Or.inl (Or.inl ⟨f', set₀, hset₀, st', hmem, hst⟩)
      · exact Or.inl (Or.inr hqueue)
  | user n => exact Or.inl h
  | empty => exact Or.inl h

theorem postConnect_grants {cb : ConnectCallback} (h : (postConnect cfg st d cb).Grants) :
    d.Grants ∨ st.isOK = true := by
  unfold postConnect at h
  split at h
  · exact cb.run_grants h
  · rcases queue_grants h with hd | ⟨cb', st', hc, hst⟩
    · exact Or.inl hd
    · cases hc
      exact Or.inr hst

/-- Telling a list of waiters. -/
theorem waiters_grants {f : Deliveries → ConnectCallback → Deliveries}
    (hf : ∀ d cb, (f d cb).Grants → d.Grants ∨ st.isOK = true) {waiters : List ConnectCallback}
    (h : (waiters.foldl f d).Grants) : d.Grants ∨ st.isOK = true := by
  induction waiters generalizing d with
  | nil => exact Or.inl h
  | cons cb waiters ih =>
      rcases ih h with hnext | hst
      · exact hf d cb hnext
      · exact Or.inr hst

theorem postPush_grants {methodId : UInt32} {payload : Bytes}
    (h : (postPush cfg d methodId payload).Grants) : d.Grants := by
  unfold postPush at h
  split at h
  · exact h
  · rcases queue_grants h with hd | ⟨cb, st, hc, -⟩
    · exact hd
    · cases hc

theorem Completion.run_grants {c : Completion} {rest : List Completion}
    (hqueue : d.cbQueue = c :: rest) (h : (c.run { d with cbQueue := rest }).Grants) :
    d.Grants := by
  have hrest : Deliveries.Grants { d with cbQueue := rest } → d.Grants := by
    rintro (hset | ⟨cb, st, hmem, hst⟩)
    · exact Or.inl hset
    · exact Or.inr ⟨cb, st, hqueue ▸ List.mem_cons_of_mem c hmem, hst⟩
  cases c with
  | response cb st payload =>
      simp only [Completion.run] at h
      split at h
      · exact hrest h
      · exact hrest h
  | connect cb st =>
      rcases cb.run_grants h with hd | hst
      · exact hrest hd
      · exact Or.inr ⟨cb, st, hqueue ▸ List.mem_cons_self, hst⟩
  | push methodId payload => exact hrest h

end Grants

/-- Waiters are told that the channel is connected only when it is. -/
theorem Move.grants (h : Move cfg s t a s' t' new) (hconnection : Connection s)
    (hgrants : s'.out.Grants) : s.out.Grants ∨ s'.connected = true := by
  cases h with
  | ensureRequest =>
      rcases hgrants with ⟨f, set, hset, st, hmem, hst⟩ | hqueue
      · refine Or.inl (Or.inl ⟨f, set, ?_, st, hmem, hst⟩)
        rw [List.getElem?_append] at hset
        split at hset
        · exact hset
        · rw [List.getElem?_singleton] at hset
          split at hset <;> cases hset
          cases hmem
      · exact Or.inl (Or.inr hqueue)
  | requestStopped r | ioThreadMissing r =>
      exact Or.inl ((ConnectCallback.run_grants hgrants).resolve_right nofun)
  | connectRefused cb | nestedConnectStopped isEmpty cb =>
      exact Or.inl ((ConnectCallback.run_grants hgrants).resolve_right nofun)
  | connectThere cb rest hstrand hstate => exact Or.inr (hconnection.up hstate)
  | fail | submitStopped | nestedCallFails | take => exact Or.inl (postResponse_grants hgrants)
  | readFailed | closeIdle | pumpFailed => exact Or.inl (failAll_grants hgrants)
  | runOne left c rest hqueue => exact Or.inl (c.run_grants hqueue hgrants)
  | drain =>
      rcases hgrants with hset | ⟨cb, st, hmem, -⟩
      · exact Or.inl (Or.inl hset)
      · cases hmem
  | shutdownHandler rest hstrand =>
      have hrun : Deliveries.Grants _ ∨ statusShutdown.isOK = true :=
        waiters_grants (fun _ cb => cb.run_grants) hgrants
      exact Or.inl (failAll_grants (hrun.resolve_right nofun))
  | connectFailed pc a code message hcode =>
      have hst : (⟨code, message⟩ : Status).isOK = false := by simpa [Status.isOK] using hcode
      have hrun := waiters_grants (fun _ _ => postConnect_grants) hgrants
      rw [hst] at hrun
      exact Or.inl (hrun.resolve_right nofun)
  | connectClosed =>
      have hrun := waiters_grants (fun _ _ => postConnect_grants) hgrants
      exact Or.inl (hrun.resolve_right nofun)
  | connectDone => exact Or.inr rfl
  | push => exact Or.inl (postPush_grants hgrants)
  | _ => exact Or.inl hgrants

/-- `EnsureConnected` has returned OK to an `AsyncUnaryCall`. -/
def Thread.admitted : Thread → Bool
  | .asyncUnaryCall (.post _ _ _) => true
  | _ => false

theorem resume_admitted {k : Caller} {st : Status} (h : (k.resume st).admitted = true) :
    st.isOK = true := by
  cases k with
  | connect => cases h
  | call methodId request cb =>
      simp only [Caller.resume] at h
      split at h
      · rename_i hst
        exact hst
      · cases h

/-- Calls are submitted to a channel that is or was connected. -/
theorem reachable_admitted (h : (machine cfg).Reachable initial p) :
    ((p.shared.out.Grants → p.shared.connected = true) ∧
        ∀ methodId request cb, .submit methodId request cb ∈ p.shared.strand →
          p.shared.connected = true) ∧
      ∀ t ∈ p.threads, t.admitted = true → p.shared.connected = true := by
  refine Program.reachable_local
    (I := fun s => (s.out.Grants → s.connected = true) ∧
      ∀ methodId request cb, .submit methodId request cb ∈ s.strand → s.connected = true)
    (J := fun s t => t.admitted = true → s.connected = true) ⟨⟨?_, ?_⟩, ?_⟩ ?_ h
  · rintro (⟨f, st, hset, -⟩ | ⟨cb, st, hmem, -⟩)
    · cases hset
    · cases hmem
  · intro methodId request cb hmem
    cases hmem
  · intro t ht hadmitted
    rw [List.mem_singleton.mp ht] at hadmitted
    cases hadmitted
  · intro u hu s' t t' new rest a _ hI hJ hs
    have hmove := step_move hs
    refine ⟨⟨?_, ?_⟩, ?_, ?_, fun v _ hv hadmitted => hmove.connected_mono (hv hadmitted)⟩
    · intro hgrants
      rcases hmove.grants (reachable_connection hu) hgrants with hold | hconnected
      · exact hmove.connected_mono (hI.1 hold)
      · exact hconnected
    · intro methodId request cb hmem
      rcases hmove.posts hmem with hold | hposts
      · exact hmove.connected_mono (hI.2 _ _ _ hold)
      · cases hposts with
        | call => exact hmove.connected_mono (hJ rfl)
        | nested _ _ _ hconnected => exact hmove.connected_mono hconnected
    · intro hadmitted
      cases hmove with
      | checkOK k hconnected => exact hconnected
      | waitSet k f st again hset =>
          exact hI.1 (Or.inl ⟨f, _, hset, st, List.mem_cons_self, resume_admitted hadmitted⟩)
      | ensureStopped | waitBroken => cases resume_admitted hadmitted
      | requestStopped r | ioThreadMissing r | postRequest r => cases r <;> cases hadmitted
      | _ => cases hadmitted
    · intro v hv hadmitted
      cases hmove with
      | call | connect | connectAsync | runCallbacks | destroy | startIoThread | connectSpawn
      | submitSpawn | connectDone =>
          rw [List.mem_singleton.mp hv] at hadmitted
          cases hadmitted
      | _ => cases hv

/-- A call that is about to be registered found the channel connected: its
    `ReadLoop` runs or has ended. -/
theorem readers_of_submit (h : (machine cfg).Reachable initial p) {methodId : UInt32}
    {request : Bytes} {cb : Callback} {rest : List Handler}
    (hstrand : p.shared.strand = .submit methodId request cb :: rest)
    (hopen : p.shared.stopped = false) :
    (p.threads.map Thread.readers).sum + p.shared.readLoopsEnded = 1 := by
  have hconnection := reachable_connection h
  have hconnected : p.shared.connected = true :=
    (reachable_admitted h).1.2 methodId request cb (by rw [hstrand]; exact List.mem_cons_self)
  have hstate : p.shared.connState = .connected := by
    rcases hconnection.connected hconnected with hup | hclosed
    · exact hup
    · rw [hconnection.closed hclosed] at hopen
      cases hopen
  have hcoroutines := reachable_coroutines h
  rw [hstate] at hcoroutines
  exact hcoroutines.2

end Protocomm.Cpp.Channel
