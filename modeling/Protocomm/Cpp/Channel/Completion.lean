import Protocomm.Cpp.Channel.Shutdown

/-!
# Every callback is called exactly once in `Inline` dispatch

A callback handed to `AsyncUnaryCall` moves from its caller to the strand, from
there to `pending`, and is called at the end; it may also be called early with a
failure at each of these places. `Shutdown` leaves nothing pending and nothing on
the strand but what an `AsyncUnaryCall` that was running when it began posts
after the io thread has ended.
-/

namespace Protocomm.Cpp.Channel

open Misc

section Weights

variable (f : Callback → Nat) (w : Nat → Nat)

/-- The weight of a callback; an empty one does not count. -/
def Callback.weight (cb : Callback) : Nat := if cb.isEmpty then 0 else w cb.call

/-- Callbacks in `pending`. -/
def Shared.pendingHolds (s : Shared) : Nat := ((mapValues s.pending).map f).sum

/-- How often callbacks were called. -/
def Deliveries.invocations (d : Deliveries) : Nat := (d.invoked.map fun i => w i.call).sum

/-- The call a completion is about. -/
def Completion.tells : Completion → Nat
  | .response cb _ _ => w cb.call
  | _ => 0

/-- The calls whose callback was called or waits in `cb_queue`. -/
def Deliveries.told (d : Deliveries) : Nat :=
  (d.cbQueue.map (Completion.tells w)).sum + d.invocations w

/-- The callbacks handed to `AsyncUnaryCall`. -/
def Shared.handed (s : Shared) : Nat := sumFrom Call.isEmpty w s.calls 0

variable {f w} {cfg : Config} {d : Deliveries} {st : Status} {payload : Bytes} {site : Site}

theorem weight_of_nonempty (cb : Callback) (hcb : cb.isEmpty = false) :
    cb.weight w = w cb.call := by
  simp [Callback.weight, hcb]

theorem weight_of_empty (cb : Callback) (hcb : cb.isEmpty = true) : cb.weight w = 0 := by
  simp [Callback.weight, hcb]

theorem invoke_told (cb : Callback) :
    (d.invoke cb st payload site).told w = d.told w + w cb.call := by
  simp [Deliveries.told, Deliveries.invocations, Deliveries.invoke, Nat.add_assoc]

/-- `post_response` tells every callback but an empty one. -/
theorem postResponse_told (hf : ∀ cb, cb.isEmpty = false → f cb = w cb.call) (cb : Callback) :
    ∃ lost, (postResponse cfg d cb st payload site).told w + lost = d.told w + f cb ∧
      ((∀ cb, cb.isEmpty = true → f cb = 0) → lost = 0) := by
  unfold postResponse
  split
  · rename_i hcb
    exact ⟨f cb, rfl, fun hzero => hzero cb hcb⟩
  · rename_i hcb
    refine ⟨0, ?_, fun _ => rfl⟩
    rw [hf cb (Bool.eq_false_iff.mpr hcb), Nat.add_zero]
    split
    · exact invoke_told cb
    · simp only [Deliveries.told, Deliveries.queue, Deliveries.invocations, List.map_append,
        List.sum_append, List.map_cons, List.map_nil, List.sum_singleton, Completion.tells]
      omega

theorem failAll_told (hf : ∀ cb, cb.isEmpty = false → f cb = w cb.call)
    (snapshot : List Callback) (defer : Bool) :
    ∃ lost, (failAll cfg d snapshot st defer site).told w + lost =
        d.told w + (snapshot.map f).sum ∧
      ((∀ cb, cb.isEmpty = true → f cb = 0) → lost = 0) := by
  have hsplit : (snapshot.map f).sum =
      ((snapshot.filter fun cb => !cb.isEmpty).map fun cb => w cb.call).sum +
        ((snapshot.filter Callback.isEmpty).map f).sum := by
    induction snapshot with
    | nil => rfl
    | cons cb rest ih => cases hcb : cb.isEmpty <;> simp [hcb, ih, hf cb] <;> omega
  refine ⟨((snapshot.filter Callback.isEmpty).map f).sum, ?_, fun hzero => ?_⟩
  · rw [failAll_eq, hsplit]
    split <;>
    · simp only [Deliveries.told, Deliveries.invocations, List.map_append, List.sum_append,
        List.map_map, Function.comp_def, Completion.tells]
      omega
  · refine List.sum_eq_zero (List.forall_mem_map.mpr fun cb hcb => ?_)
    exact hzero cb (List.mem_filter.mp hcb).2

theorem ConnectCallback.run_told (cb : ConnectCallback) :
    (cb.run d st site).told w = d.told w := by
  cases cb <;> rfl

theorem postConnect_told (cb : ConnectCallback) : (postConnect cfg st d cb).told w = d.told w := by
  unfold postConnect
  split
  · exact cb.run_told
  · simp [Deliveries.told, Deliveries.queue, Deliveries.invocations, Completion.tells]

theorem postPush_told (methodId : UInt32) :
    (postPush cfg d methodId payload).told w = d.told w := by
  unfold postPush
  split
  · rfl
  · simp [Deliveries.told, Deliveries.queue, Deliveries.invocations, Completion.tells]

/-- `RunCallbacks` calls what was queued. -/
theorem Completion.run_told (c : Completion) (rest : List Completion) :
    (c.run { d with cbQueue := rest }).told w ≤
      Deliveries.told w { d with cbQueue := c :: rest } := by
  cases c with
  | response cb st payload =>
      simp only [Completion.run]
      split
      · simp [Deliveries.told, Deliveries.invocations]
      · rw [invoke_told]
        simp [Deliveries.told, Deliveries.invocations, Completion.tells]
        omega
  | connect cb st =>
      simp only [Completion.run, ConnectCallback.run_told]
      simp [Deliveries.told, Deliveries.invocations]
  | push methodId payload => simp [Completion.run, Deliveries.told, Deliveries.invocations]

/-- `emplace` puts a callback into `pending` if its call id is free. -/
theorem emplace_holds (m : Pending) (callId : UInt32) (cb : Callback) :
    ∃ lost, ((mapValues (emplace m callId cb)).map f).sum + lost =
        ((mapValues m).map f).sum + f cb ∧ (m.lookup callId = none → lost = 0) := by
  unfold emplace
  split
  · rename_i hused
    exact ⟨f cb, rfl, fun hfree => by cases hused.symm.trans hfree⟩
  · rename_i hfree
    refine ⟨0, ?_, fun _ => rfl⟩
    rw [mapValues_insert hfree, List.map_cons, List.sum_cons, Nat.add_zero, Nat.add_comm]

end Weights

section Queue

variable {cfg : Config} {d : Deliveries} {st : Status} {payload : Bytes} {site : Site}

theorem postResponse_cbQueue (hinline : cfg.dispatch = .inline) (cb : Callback) :
    (postResponse cfg d cb st payload site).cbQueue = d.cbQueue := by
  simp only [postResponse, hinline]
  split <;> rfl

theorem failAll_cbQueue (hinline : cfg.dispatch = .inline) (snapshot : List Callback)
    (defer : Bool) : (failAll cfg d snapshot st defer site).cbQueue = d.cbQueue := by
  rw [failAll_eq, if_neg (by simp [hinline])]

theorem ConnectCallback.run_cbQueue (cb : ConnectCallback) :
    (cb.run d st site).cbQueue = d.cbQueue := by
  cases cb <;> rfl

end Queue

variable {f : Callback → Nat} {w : Nat → Nat} {cfg : Config} {p : Pool Shared Thread}
  {s s' : Shared} {t t' : Thread} {a : Action} {new : List Thread}

theorem finish_cbQueue (hinline : cfg.dispatch = .inline) (s : Shared) (st : Status) :
    (finish cfg s st).out.cbQueue = s.out.cbQueue := by
  refine foldl_keeps (m := Deliveries.cbQueue) ?_ s.connectWaiters
  intro d cb
  simp only [postConnect, hinline]
  exact cb.run_cbQueue

/-- Nothing is queued in `Inline` dispatch. -/
theorem reachable_cbQueue (hinline : cfg.dispatch = .inline)
    (h : (machine cfg).Reachable initial p) : p.shared.out.cbQueue = [] := by
  refine Program.reachable_shared (I := fun s => s.out.cbQueue = []) rfl ?_ h
  intro u _ s' t t' new a _ hI hs
  have hmove := step_move hs
  cases hmove with
  | fail | submitStopped | nestedCallFails | take =>
      exact (postResponse_cbQueue hinline _).trans hI
  | readFailed | closeIdle | pumpFailed => exact (failAll_cbQueue hinline _ _).trans hI
  | requestStopped | ioThreadMissing | connectRefused | connectThere | nestedConnectStopped =>
      exact (ConnectCallback.run_cbQueue _).trans hI
  | runOne left c rest hqueue =>
      rw [hI] at hqueue
      cases hqueue
  | drain => rfl
  | shutdownHandler =>
      refine (foldl_keeps (m := Deliveries.cbQueue) (fun _ cb => cb.run_cbQueue) _).trans ?_
      exact (failAll_cbQueue hinline _ _).trans hI
  | connectFailed | connectClosed | connectDone => exact (finish_cbQueue hinline _ _).trans hI
  | push =>
      simp only [postPush, hinline]
      exact hI
  | _ => exact hI

theorem finish_told (s : Shared) (st : Status) : (finish cfg s st).out.told w = s.out.told w :=
  foldl_keeps (fun _ cb => postConnect_told cb) s.connectWaiters

variable (f w) in
/-- The callbacks on the strand, in `pending` and told. -/
def Shared.entrusted (s : Shared) : Nat := s.strandHolds f + s.pendingHolds f + s.out.told w

theorem Move.calls_le (h : Move cfg s t a s' t' new) : s.calls.length ≤ s'.calls.length := by
  cases h with
  | call | nestedCall | nestedCallFails => simp [Shared.newCall, Shared.post]
  | _ => exact Nat.le_refl _

/-- The next call id is free for the call at the head of the strand. -/
def Shared.NextFree (s : Shared) : Prop :=
  ∀ methodId request cb rest, s.strand = .submit methodId request cb :: rest →
    s.pending.lookup s.nextCallId = none

/-- Each step keeps the callbacks, with the new one of a new call. It can lose empty ones, one
    whose call id is in use, and those in `cb_queue`. -/
theorem Move.entrusted (hf : ∀ cb, cb.isEmpty = false → f cb = w cb.call)
    (h : Move cfg s t a s' t' new) :
    ∃ gain lost, (s'.calls = s.calls ∧ gain = 0 ∨
        ∃ call, s'.calls = s.calls ++ [call] ∧ gain = f ⟨s.calls.length, call.isEmpty⟩) ∧
      s'.entrusted f w + (t'.holds f + (new.map (Thread.holds f)).sum) + lost =
        s.entrusted f w + t.holds f + gain ∧
      ((∀ cb, cb.isEmpty = true → f cb = 0) → s.out.cbQueue = [] → s.NextFree → lost = 0) := by
  cases h with
  | call methodId request isEmpty =>
      refine ⟨_, 0, Or.inr ⟨_, rfl, rfl⟩, ?_, fun _ _ _ => rfl⟩
      simp [Shared.entrusted, Shared.strandHolds, Shared.pendingHolds, Shared.newCall,
        Thread.holds, Caller.holds]
  | nestedCall methodId request isEmpty =>
      refine ⟨_, 0, Or.inr ⟨_, rfl, rfl⟩, ?_, fun _ _ _ => rfl⟩
      simp [Shared.entrusted, Shared.strandHolds, Shared.pendingHolds, Shared.newCall,
        Shared.post, Thread.holds, Handler.holds]
      omega
  | nestedCallFails methodId request isEmpty =>
      obtain ⟨lost, htold, hexact⟩ := @postResponse_told f w cfg s.out statusOnIoThread [] .io hf
        ⟨s.calls.length, isEmpty⟩
      refine ⟨_, lost, Or.inr ⟨_, rfl, rfl⟩, ?_, fun hzero _ _ => hexact hzero⟩
      simp only [Shared.entrusted, Shared.strandHolds, Shared.pendingHolds, Shared.newCall,
        Thread.holds, List.map_nil, List.sum_nil]
      omega
  | fail st cb =>
      obtain ⟨lost, htold, hexact⟩ := @postResponse_told f w cfg s.out st [] .api hf cb
      refine ⟨0, lost, Or.inl ⟨rfl, rfl⟩, ?_, fun hzero _ _ => hexact hzero⟩
      simp only [Shared.entrusted, Shared.strandHolds, Shared.pendingHolds, Shared.leave,
        Thread.holds, List.map_nil, List.sum_nil]
      omega
  | postCall methodId request cb =>
      refine ⟨0, 0, Or.inl ⟨rfl, rfl⟩, ?_, fun _ _ _ => rfl⟩
      simp [Shared.entrusted, Shared.strandHolds, Shared.pendingHolds, Shared.leave, Shared.post,
        Thread.holds, Handler.holds]
      omega
  | submitStopped methodId request cb rest hstrand =>
      obtain ⟨lost, htold, hexact⟩ := @postResponse_told f w cfg s.out statusShutdown [] .io hf cb
      refine ⟨0, lost, Or.inl ⟨rfl, rfl⟩, ?_, fun hzero _ _ => hexact hzero⟩
      rw [Shared.entrusted, Shared.entrusted, strandHolds_cons _ hstrand]
      simp only [Shared.strandHolds, Shared.pendingHolds, Thread.holds, Handler.holds,
        List.map_nil, List.sum_nil]
      omega
  | submit methodId request cb rest hstrand | submitSpawn methodId request cb rest hstrand =>
      obtain ⟨lost, hpending, hexact⟩ := @emplace_holds f s.pending s.nextCallId cb
      refine ⟨0, lost, Or.inl ⟨rfl, rfl⟩, ?_, fun _ _ hfree => hexact (hfree _ _ _ _ hstrand)⟩
      rw [Shared.entrusted, Shared.entrusted, strandHolds_cons _ hstrand]
      simp [Shared.strandHolds, Shared.pendingHolds, Shared.register, Shared.coSpawn,
        Thread.holds, Handler.holds]
      omega
  | take hdr payload cb htype hlookup =>
      have hperm := ((mapValues_erase hlookup).map f).sum_eq
      obtain ⟨lost, htold, hexact⟩ := @postResponse_told f w cfg s.out (responseStatus hdr)
        (responsePayload hdr payload) .io hf cb
      refine ⟨0, lost, Or.inl ⟨rfl, rfl⟩, ?_, fun hzero _ _ => hexact hzero⟩
      rw [List.map_cons, List.sum_cons] at hperm
      simp only [Shared.entrusted, Shared.strandHolds, Shared.pendingHolds, Thread.holds, hperm,
        List.map_nil, List.sum_nil]
      omega
  | readFailed | closeIdle | pumpFailed =>
      obtain ⟨lost, htold, hexact⟩ := failAll_told hf (mapValues s.pending) _
      refine ⟨0, lost, Or.inl ⟨rfl, rfl⟩, ?_, fun hzero _ _ => hexact hzero⟩
      simp only [Shared.entrusted, Shared.strandHolds, Shared.pendingHolds, Thread.holds,
        failAllPending, Shared.endReadLoop, Shared.coReturn, mapValues_empty, List.map_nil,
        List.sum_nil, Nat.add_zero, Nat.add_assoc, Nat.add_left_cancel_iff]
      exact htold.trans (Nat.add_comm _ _)
  | shutdownHandler rest hstrand =>
      obtain ⟨lost, htold, hexact⟩ := @failAll_told f w cfg s.out statusShutdown .io hf
        (mapValues s.pending) false
      refine ⟨0, lost, Or.inl ⟨rfl, rfl⟩, ?_, fun hzero _ _ => hexact hzero⟩
      have hwaiters : (handleShutdown cfg s).out.told w = _ :=
        foldl_keeps (fun _ cb => cb.run_told) _
      rw [Shared.entrusted, Shared.entrusted, strandHolds_cons _ hstrand]
      simp only [Shared.strandHolds, Shared.pendingHolds, handleShutdown, failAllPending,
        Thread.holds, Handler.holds, mapValues_empty, List.map_nil, List.sum_nil] at hwaiters ⊢
      omega
  | connectRefused cb rest hstrand | connectThere cb rest hstrand
  | connectWait cb rest hstrand | connectSpawn cb rest hstrand =>
      refine ⟨0, 0, Or.inl ⟨rfl, rfl⟩, ?_, fun _ _ _ => rfl⟩
      rw [Shared.entrusted, Shared.entrusted, strandHolds_cons _ hstrand]
      simp [Shared.strandHolds, Shared.pendingHolds, Shared.coSpawn, Thread.holds, Handler.holds,
        ConnectCallback.run_told]
  | checkOK | ensureStopped | waitSet | waitBroken =>
      refine ⟨0, 0, Or.inl ⟨rfl, rfl⟩, ?_, fun _ _ _ => rfl⟩
      rw [resume_holds]
      simp [Thread.holds]
  | requestStopped | ioThreadMissing | postRequest =>
      refine ⟨0, 0, Or.inl ⟨rfl, rfl⟩, ?_, fun _ _ _ => rfl⟩
      rw [Requester.resume_holds]
      simp [Shared.entrusted, Shared.strandHolds, Shared.pendingHolds, Shared.post, Thread.holds,
        Handler.holds, ConnectCallback.run_told]
  | runOne left c rest hqueue =>
      obtain ⟨lost, hlost⟩ := Nat.exists_eq_add_of_le (@Completion.run_told w s.out c rest)
      rw [← hqueue] at hlost
      refine ⟨0, lost, Or.inl ⟨rfl, rfl⟩, ?_, fun _ hnone => by cases hnone.symm.trans hqueue⟩
      simp only [Shared.entrusted, Shared.strandHolds, Shared.pendingHolds, Thread.holds,
        List.map_nil, List.sum_nil, Nat.add_zero, Nat.add_assoc, Nat.add_left_cancel_iff]
      exact hlost.symm
  | drain =>
      refine ⟨0, (s.out.cbQueue.map (Completion.tells w)).sum, Or.inl ⟨rfl, rfl⟩, ?_,
        fun _ hnone _ => by simp [hnone]⟩
      simp [Shared.entrusted, Shared.strandHolds, Shared.pendingHolds, Thread.holds,
        Deliveries.told, Deliveries.invocations]
      omega
  | connectFailed | connectClosed | connectDone =>
      refine ⟨0, 0, Or.inl ⟨rfl, rfl⟩, ?_, fun _ _ _ => rfl⟩
      simp only [Shared.entrusted, Shared.coReturn, finish_told]
      rfl
  | nestedConnectStopped | push =>
      refine ⟨0, 0, Or.inl ⟨rfl, rfl⟩, ?_, fun _ _ _ => rfl⟩
      simp [Shared.entrusted, Shared.strandHolds, Shared.pendingHolds, Thread.holds,
        ConnectCallback.run_told, postPush_told]
  | _ =>
      refine ⟨0, 0, Or.inl ⟨rfl, rfl⟩, ?_, fun _ _ _ => rfl⟩
      simp [Shared.entrusted, Shared.strandHolds, Shared.pendingHolds, Shared.post,
        Shared.coReturn, Shared.endReadLoop, Thread.holds, Caller.holds, Requester.holds,
        Handler.holds, Deliveries.told, Deliveries.invocations]

/-- In `Inline` dispatch a callback is told by being called. -/
theorem told_inline (hinline : cfg.dispatch = .inline) (h : (machine cfg).Reachable initial p) :
    p.shared.out.told w = p.shared.out.invocations w := by
  simp [Deliveries.told, reachable_cbQueue hinline h]

/-- While fewer than 2^32 calls were made, every callback handed to
    `AsyncUnaryCall` is in one place. -/
theorem reachable_holds (hinline : cfg.dispatch = .inline)
    (h : (machine cfg).Reachable initial p) (hcalls : p.shared.calls.length < 2 ^ 32) :
    Program.owned (Shared.entrusted (Callback.weight w) w) (Thread.holds (Callback.weight w))
      p.shared p.threads = p.shared.handed w := by
  refine Program.reachable_owned_while _ _ (Shared.handed w) (fun s => s.calls.length < 2 ^ 32) rfl
    ?_ h hcalls
  intro u hu s' t t' new rest a _ _ hs hafter
  have hmove := step_move hs
  have hbefore : u.shared.calls.length < 2 ^ 32 := Nat.lt_of_le_of_lt hmove.calls_le hafter
  obtain ⟨gain, lost, hcall, hsum, hexact⟩ := hmove.entrusted (@weight_of_nonempty w)
  obtain rfl := hexact weight_of_empty (reachable_cbQueue hinline hu)
    fun _ _ _ _ hstrand => lookup_next_eq_none hu hbefore hstrand
  refine ⟨hbefore, gain, ?_, hsum⟩
  rcases hcall with ⟨hsame, rfl⟩ | ⟨call, hnew, rfl⟩
  · rw [Shared.handed, hsame]
    rfl
  · rw [Shared.handed, hnew]
    exact sumFrom_concat Call.isEmpty w _ _

/-- The thread is in the `AsyncUnaryCall` of call `c`. -/
def Thread.Runs (c : Nat) (t : Thread) : Prop := 0 < t.holds fun cb => only c cb.call

/-- No two threads are in the same call. -/
theorem runs_rest (h : (machine cfg).Reachable initial p) {rest : List Thread}
    (hperm : p.threads.Perm (t :: rest)) {v : Thread} (hv : v ∈ rest) {c : Nat}
    (hruns : v.Runs c) : ¬ t.Runs c := by
  intro ht
  have hle := (Program.add_add_le_owned hperm hv).trans (reachable_tickets (w := only c) h)
  have hmade : p.shared.made (only c) ≤ 1 := sum_range_only_le c _
  simp only [Thread.Runs] at hruns ht
  omega

/-- A call is in `inCall` until its `AsyncUnaryCall` returns. -/
theorem Move.inCall_mono (h : Move cfg s t a s' t' new) {c : Nat} (hc : c ∈ s.inCall)
    (hstays : ¬ t.Runs c ∨ t'.Runs c) : c ∈ s'.inCall := by
  cases h with
  | call => exact List.mem_append_left _ hc
  | fail st cb | postCall methodId request cb =>
      have hne : c ≠ cb.call := by
        rintro rfl
        rcases hstays with hidle | hruns
        · exact hidle (by simp [Thread.Runs, Thread.holds])
        · cases hruns
      exact (List.mem_erase_of_ne hne).mpr hc
  | _ => exact hc

/-- The calls running when `stopped` is set are in `atStop`. -/
theorem Move.atStop_mono (h : Move cfg s t a s' t' new) {c : Nat} (hc : c ∈ s.inCall)
    (hstop : s.stopped = true → c ∈ s.atStop) : s'.stopped = true → c ∈ s'.atStop := by
  cases h with
  | exchange => exact fun _ => hc
  | _ => exact hstop

/-- A thread stays in its call or leaves it. -/
theorem Move.runs_back (h : Move cfg s t a s' t' new) {c : Nat} (hruns : t'.Runs c) :
    t.Runs c := by
  simp only [Thread.Runs] at hruns ⊢
  cases h with
  | checkOK | ensureStopped | waitSet | waitBroken => rwa [resume_holds] at hruns
  | requestStopped | ioThreadMissing | postRequest => rwa [Requester.resume_holds] at hruns
  | fail | postCall => cases hruns
  | _ => exact hruns

theorem only_pos {c i : Nat} (h : 0 < only c i) : i = c := by
  by_contra hne
  rw [only_of_ne hne] at h
  cases h

/-- A new thread that is in a call has just been given it. -/
theorem Move.runs_new (h : Move cfg s t a s' t' new) {v : Thread} (hv : v ∈ new) {c : Nat}
    (hruns : v.Runs c) : c ∈ s'.inCall ∧ s.destroying = false ∧ s'.stopped = s.stopped := by
  cases h with
  | call methodId request isEmpty hlive =>
      rw [List.mem_singleton.mp hv] at hruns
      have hcall : s.calls.length = c := only_pos hruns
      exact ⟨List.mem_append_right _ (by simp [hcall]), hlive, rfl⟩
  | connect | connectAsync | runCallbacks | destroy | startIoThread | connectSpawn | submitSpawn
  | connectDone =>
      rw [List.mem_singleton.mp hv] at hruns
      cases hruns
  | _ => cases hv

/-- `atStop` is not written any more once `stopped` is set. -/
theorem Move.atStop_stays (h : Move cfg s t a s' t' new) (hstopped : s.stopped = true) :
    s'.atStop = s.atStop := by
  cases h with
  | exchange hopen =>
      rw [hopen] at hstopped
      cases hstopped
  | _ => rfl

/-- What the strand holds once the io thread has ended. -/
theorem Move.strand_done (h : Move cfg s t a s' t' new) (hs : s.ioThreadDone = false)
    (hdone : s'.ioThreadDone = true) : s'.strand = [] := by
  cases h with
  | exit hguard hstrand => exact hstrand
  | _ => cases hs.symm.trans hdone

/-- Every running call is in `inCall`, and in `atStop` once `stopped` is set;
    what is posted after the io thread has ended belongs to such a call. -/
theorem reachable_atStop (h : (machine cfg).Reachable initial p) :
    (p.shared.ioThreadDone = true → ∀ methodId request cb,
        .submit methodId request cb ∈ p.shared.strand → cb.call ∈ p.shared.atStop) ∧
      ∀ t ∈ p.threads, ∀ c, t.Runs c →
        c ∈ p.shared.inCall ∧ (p.shared.stopped = true → c ∈ p.shared.atStop) := by
  refine Program.reachable_local
    (I := fun s => s.ioThreadDone = true → ∀ methodId request cb,
      .submit methodId request cb ∈ s.strand → cb.call ∈ s.atStop)
    (J := fun s t => ∀ c, t.Runs c → c ∈ s.inCall ∧ (s.stopped = true → c ∈ s.atStop))
    ⟨nofun, ?_⟩ ?_ h
  · intro t ht c hruns
    rw [List.mem_singleton.mp ht] at hruns
    cases hruns
  · intro u hu s' t t' new rest a hperm hI hJ hs
    have hmove := step_move hs
    have hdown := (reachable_goingDown hu).1
    refine ⟨?_, ?_, ?_, ?_⟩
    · intro hdone methodId request cb hmem
      by_cases hbefore : u.shared.ioThreadDone = true
      · have hstopped := (reachable_connection hu).closed (hdown.joined hbefore)
        rw [hmove.atStop_stays hstopped]
        rcases hmove.posts hmem with hold | hposts
        · exact hI hbefore methodId request cb hold
        · cases hposts with
          | call => exact (hJ cb.call (by simp [Thread.Runs, Thread.holds])).2 hstopped
          | nested _ _ _ _ hlive =>
              rw [hdown.destroying hstopped] at hlive
              cases hlive
      · rw [hmove.strand_done (Bool.eq_false_iff.mpr hbefore) hdone] at hmem
        cases hmem
    · intro c hruns
      obtain ⟨hin, hstop⟩ := hJ c (hmove.runs_back hruns)
      exact ⟨hmove.inCall_mono hin (Or.inr hruns), hmove.atStop_mono hin hstop⟩
    · intro v hv c hruns
      obtain ⟨hin, hlive, hsame⟩ := hmove.runs_new hv hruns
      refine ⟨hin, fun hstopped => ?_⟩
      rw [hsame] at hstopped
      rw [hdown.destroying hstopped] at hlive
      cases hlive
    · intro v hv hold c hruns
      obtain ⟨hin, hstop⟩ := hold c hruns
      exact ⟨hmove.inCall_mono hin (Or.inl (runs_rest hu hperm hv hruns)),
        hmove.atStop_mono hin hstop⟩

/-- The `AsyncUnaryCall` of call `c` has not posted it, or posted it after the io
    thread had ended. -/
def Unserved (c : Nat) (p : Pool Shared Thread) : Prop :=
  (∃ t ∈ p.threads, t.Runs c) ∨
    ∃ methodId request cb, .submit methodId request cb ∈ p.shared.strand ∧ cb.call = c

/-- A single call with a callback is handed over once. -/
theorem handed_only {c : Nat} {call : Call} (hc : s.calls[c]? = some call)
    (hcall : call.isEmpty = false) : s.handed (only c) = 1 :=
  sumFrom_only Call.isEmpty s.calls (Nat.zero_le c) hc hcall

theorem weight_le (w : Nat → Nat) (cb : Callback) : cb.weight w ≤ w cb.call := by
  unfold Callback.weight
  split
  · exact Nat.zero_le _
  · exact Nat.le_refl _

theorem holds_mono {f g : Callback → Nat} (hfg : ∀ cb, f cb ≤ g cb) (t : Thread) :
    t.holds f ≤ t.holds g := by
  cases t with
  | ensureConnected k pc =>
      cases k with
      | connect => exact Nat.le_refl 0
      | call methodId request cb => exact hfg cb
  | requestConnect r pc =>
      cases r with
      | ensureConnected k f =>
          cases k with
          | connect => exact Nat.le_refl 0
          | call methodId request cb => exact hfg cb
      | connectAsync cb => exact Nat.le_refl 0
  | asyncUnaryCall pc =>
      cases pc with
      | fail st cb => exact hfg cb
      | post methodId request cb => exact hfg cb
  | _ => exact Nat.le_refl 0

/-- A call that is served holds no callback with a caller or on the strand. -/
theorem holds_of_served {c : Nat} (h : ¬ Unserved c p) :
    (p.threads.map (Thread.holds (Callback.weight (only c)))).sum = 0 ∧
      p.shared.strandHolds (Callback.weight (only c)) = 0 := by
  refine ⟨List.sum_eq_zero ?_, List.sum_eq_zero ?_⟩
  · intro n hn
    obtain ⟨t, ht, rfl⟩ := List.mem_map.mp hn
    by_contra hpos
    refine h (Or.inl ⟨t, ht, ?_⟩)
    have hle := holds_mono (weight_le (only c)) t
    simp only [Thread.Runs]
    omega
  · intro n hn
    obtain ⟨x, hx, rfl⟩ := List.mem_map.mp hn
    cases x with
    | submit methodId request cb =>
        by_contra hpos
        refine h (Or.inr ⟨methodId, request, cb, hx, ?_⟩)
        have hle := weight_le (only c) cb
        have hheld : 0 < cb.weight (only c) := Nat.pos_of_ne_zero hpos
        exact only_pos (by omega)
    | _ => rfl

/-- In `Inline` dispatch, while fewer than 2^32 calls were made, a callback is
    called at most once; when `Shutdown` has returned nothing is pending, and it
    was called exactly once unless its `AsyncUnaryCall` was running when
    `Shutdown` began and has not posted it or posted it after the io thread had
    ended. -/
theorem inline_exactly_once (hinline : cfg.dispatch = .inline)
    (h : (machine cfg).Reachable initial p) (hcalls : p.shared.calls.length < 2 ^ 32) {c : Nat}
    {call : Call} (hc : p.shared.calls[c]? = some call) (hcall : call.isEmpty = false) :
    p.shared.out.invocations (only c) ≤ 1 ∧
      (.shutdown .returned ∈ p.threads → p.shared.pending = ∅ ∧
        (p.shared.out.invocations (only c) = 1 ∨ (c ∈ p.shared.atStop ∧ Unserved c p))) := by
  have hholds := reachable_holds (w := only c) hinline h hcalls
  rw [handed_only hc hcall, Program.owned, Shared.entrusted, told_inline hinline h] at hholds
  refine ⟨by omega, ?_⟩
  intro hreturned
  obtain ⟨hdown, hphase⟩ := reachable_goingDown h
  obtain ⟨hclosed, hjoined⟩ := hphase _ hreturned
  have hpending := hdown.empty hclosed
  have hstopped := (reachable_connection h).closed hclosed
  refine ⟨hpending, ?_⟩
  by_cases hserved : Unserved c p
  · right
    refine ⟨?_, hserved⟩
    rcases hserved with ⟨t, ht, hruns⟩ | ⟨methodId, request, cb, hmem, rfl⟩
    · exact ((reachable_atStop h).2 t ht c hruns).2 hstopped
    · -- the channel was connected, so there was an io thread and it has ended
      have hstarted := hdown.started ((reachable_admitted h).1.2 methodId request cb hmem)
      have hdone : p.shared.ioThreadDone = true := by
        rcases hjoined with hdone | hnever
        · exact hdone
        · rw [hstarted] at hnever
          cases hnever
      exact (reachable_atStop h).1 hdone methodId request cb hmem
  · left
    obtain ⟨hthreads, hstrand⟩ := holds_of_served hserved
    have hnone : p.shared.pendingHolds (Callback.weight (only c)) = 0 := by
      simp [Shared.pendingHolds, hpending, mapValues_empty]
    omega

/-- A call is sent and `Shutdown` cancels it. -/
def cancelledRun : List (Nat × Action) :=
  [(0, .call 7 [] false), (1, .run), (1, .run), (1, .run), (1, .run), (1, .run), (1, .run),
    (2, .run), (3, .run), (3, .op none), (3, .op none), (3, .op none),
    (3, .readHandshake (.ok [112, 99, 49])), (1, .run), (1, .run), (2, .run), (5, .run),
    (5, .op none), (0, .shutdown), (6, .run), (6, .run), (6, .run), (6, .run), (2, .run),
    (4, .run), (4, .readFrame (.error "Operation canceled")), (2, .exit), (6, .run), (6, .run)]

theorem inline_exactly_once_cancelledRun :
    ∃ p, (machine {}).run initial cancelledRun = some p ∧ .shutdown .returned ∈ p.threads ∧
      p.shared.pending = ∅ ∧ p.shared.out.invocations (only 0) = 1 := by
  have hall := (@inline_exactly_once {} _ rfl ⟨cancelledRun, rfl⟩ (by decide) 0 ⟨7, [], false⟩
    rfl rfl).2 (by decide)
  exact ⟨_, rfl, by decide, hall.1, hall.2.resolve_right (fun hstop => by cases hstop.1)⟩

/-- `EnsureConnected` returns OK to a call, then `Shutdown` runs to its end, and
    only then the call is posted. -/
def lostRun : List (Nat × Action) :=
  [(0, .call 7 [] false), (1, .run), (1, .run), (1, .run), (1, .run), (1, .run), (1, .run),
    (2, .run), (3, .run), (3, .op none), (3, .op none), (3, .op none),
    (3, .readHandshake (.ok [112, 99, 49])), (1, .run), (0, .shutdown), (5, .run), (5, .run),
    (5, .run), (5, .run), (2, .run), (4, .run), (4, .readFrame (.error "Operation canceled")),
    (2, .exit), (5, .run), (5, .run), (1, .run)]

/-- Every thread of the channel is done and the callback was never called. -/
theorem callback_lost_after_shutdown :
    ∃ p, (machine {}).run initial lostRun = some p ∧
      p.shared.calls = [⟨7, [], false⟩] ∧ p.shared.out.invocations (only 0) = 0 ∧
      p.threads = [.app, .done, .done, .done, .done, .shutdown .returned] ∧
      p.shared.destroying = true :=
  ⟨_, rfl, rfl, rfl, rfl, rfl⟩

end Protocomm.Cpp.Channel
