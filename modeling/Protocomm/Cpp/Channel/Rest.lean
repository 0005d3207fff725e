import Protocomm.Cpp.Channel.Connect
import Protocomm.Cpp.Channel.Replies
import Protocomm.Cpp.Channel.Work
import Protocomm.WritePumps

/-!
# A C++ channel at rest

A channel whose threads can do nothing but wait for the connection or for the application.
Its strand is empty then and no frame waits to be written; and once it is connected no
call is on its way any more: its callback was called or is in `pending`.
-/

namespace Protocomm.Cpp.Channel

open Misc

/-- The result of a read. -/
def Action.reads : Action → Bool
  | .readHandshake _ | .readFrame _ => true
  | _ => false

/-- The channel can go on only with a read or with a call of the application. -/
def AtRest (cfg : Config) (p : Pool (Shared × Link) Thread) : Prop :=
  ∀ t ∈ p.threads, ∀ a, t.internal a = true → calm cfg p.shared t a = true → a.reads = false →
    step cfg p.shared.1 t a = none

/-- What a thread waits for. -/
def Thread.Waits (s : Shared) : Thread → Prop
  | .app | .runCallbacks _ | .shutdown _ | .done => True
  | .io => s.strand = []
  | .ensureConnected _ (.wait f) => ∀ st again, s.out.promises[f]? ≠ some (st :: again)
  | .connectCoro .readHandshake | .readLoop .reading => True
  | _ => False

section

variable {cfg : Config} {p : Pool (Shared × Link) Thread} {t : Thread}

theorem AtRest.waits (h : AtRest cfg p) (ht : t ∈ p.threads) : t.Waits p.shared.1 := by
  have stuck := h t ht
  cases t with
  | app | runCallbacks | shutdown | done => trivial
  | io =>
      cases hstrand : p.shared.1.strand with
      | nil => exact hstrand
      | cons x rest =>
          have hnone := stuck .run rfl rfl rfl
          simp [step, ioStep, hstrand] at hnone
  | ensureConnected k pc =>
      have hnone := stuck .run rfl rfl rfl
      cases pc with
      | check | checkStopped =>
          simp only [step, ensureConnectedStep] at hnone
          split at hnone <;> cases hnone
      | wait f =>
          intro st again hset
          simp [step, ensureConnectedStep, hset] at hnone
  | requestConnect r pc =>
      have hnone := stuck .run rfl rfl rfl
      cases pc with
      | post => cases hnone
      | checkStopped | ensureIoThread | checkStarted =>
          simp only [step, requestConnectStep] at hnone
          split at hnone <;> cases hnone
  | asyncUnaryCall pc =>
      have hnone := stuck .run rfl rfl rfl
      cases pc <;> cases hnone
  | connectCoro pc =>
      cases pc with
      | spawned => cases stuck .run rfl rfl rfl
      | resolve | writeHandshake => cases stuck (.op none) rfl rfl rfl
      | connect =>
          have hnone := stuck (.op none) rfl rfl rfl
          simp only [step, connectCoroStep] at hnone
          split at hnone <;> cases hnone
      | readHandshake => trivial
  | readLoop pc =>
      cases pc with
      | spawned => cases stuck .run rfl rfl rfl
      | reading => trivial
  | writePump pc =>
      cases pc with
      | spawned => cases stuck .run rfl rfl rfl
      | writing => cases stuck (.op none) rfl rfl rfl

end

/-! ## The io thread -/

section

variable {cfg : Config} {p : Pool Shared Thread} {s s' : Shared} {t t' : Thread} {a : Action}
  {new : List Thread}

/-- The io thread runs until the channel is closed. -/
theorem reachable_io (h : (machine cfg).Reachable initial p) :
    p.shared.ioThreadStarted = true → p.shared.ioThreadDone = true ∨ .io ∈ p.threads := by
  refine Program.reachable_bag (P := program cfg)
    (K := fun s l => s.ioThreadStarted = true → s.ioThreadDone = true ∨ .io ∈ l) ?_
    (by simp [initial]) ?_ h
  · exact fun s l l' hl hK hstarted => (hK hstarted).imp_right hl.mem_iff.mp
  · intro u _ s' t t' new rest a _ hK hs hstarted
    have hmove : Move cfg u.shared t a s' t' new := step_move hs
    have keep : u.shared.ioThreadStarted = true → t' = t →
        s'.ioThreadDone = true ∨ .io ∈ t' :: (new ++ rest) := by
      rintro hold rfl
      rcases hK hold with hdone | hmem
      · exact Or.inl (hmove.done_mono hdone)
      · rcases List.mem_cons.mp hmem with rfl | hmem
        · exact Or.inr List.mem_cons_self
        · exact Or.inr (List.mem_cons_of_mem _ (List.mem_append_right _ hmem))
    have other : t ≠ .io → u.shared.ioThreadStarted = true →
        s'.ioThreadDone = true ∨ .io ∈ t' :: (new ++ rest) := by
      intro hne hold
      rcases hK hold with hdone | hmem
      · exact Or.inl (hmove.done_mono hdone)
      · have hmem := (List.mem_cons.mp hmem).resolve_left (Ne.symm hne)
        exact Or.inr (List.mem_cons_of_mem _ (List.mem_append_right _ hmem))
    cases hmove with
    | startIoThread => exact Or.inr (by simp)
    | exit => exact Or.inl rfl
    | connectRefused | connectThere | connectWait | connectSpawn | submitStopped | submit
    | submitSpawn | shutdownHandler | nestedCall | nestedCallFails | nestedConnectStopped
    | nestedConnect => exact keep hstarted rfl
    | _ => exact other (by simp) hstarted

/-- Handlers are posted once there is an io thread. -/
theorem reachable_posted (h : (machine cfg).Reachable initial p) :
    (p.shared.strand ≠ [] → p.shared.ioThreadStarted = true) ∧
      ∀ t ∈ p.threads, ∀ r, t = .requestConnect r .post → p.shared.ioThreadStarted = true := by
  refine Program.reachable_local (P := program cfg)
    (I := fun s => s.strand ≠ [] → s.ioThreadStarted = true)
    (J := fun s t => ∀ r, t = .requestConnect r .post → s.ioThreadStarted = true)
    ⟨fun hne => absurd rfl hne, by simp [initial]⟩ ?_ h
  intro u hu s' t t' new rest a hperm hI hJ hs
  have ht : t ∈ u.threads := hperm.mem_iff.mpr List.mem_cons_self
  have hmove : Move cfg u.shared t a s' t' new := step_move hs
  obtain ⟨hdown, hphase⟩ := reachable_goingDown hu
  refine ⟨fun hne => ?_, ?_, ?_, fun v _ hv r hr => hmove.started_mono (hv r hr)⟩
  · cases hmove with
    | postRequest r => exact hJ r rfl
    | postCall => exact hdown.started ((reachable_admitted hu).2 _ ht rfl)
    | postShutdown | nestedCall | nestedConnect => exact hphase _ ht
    | connectRefused cb rest hstrand | connectThere cb rest hstrand | connectWait cb rest hstrand
    | connectSpawn cb rest hstrand | submitStopped m r cb rest hstrand | submit m r cb rest hstrand
    | submitSpawn m r cb rest hstrand | shutdownHandler rest hstrand =>
        exact hI (hstrand ▸ List.cons_ne_nil _ _)
    | startIoThread => rfl
    | _ => exact hI hne
  · intro r hr
    cases hmove with
    | ioThreadThere r' hstarted => exact hstarted
    | checkOK k | ensureStopped k | waitSet k | waitBroken k =>
        cases k with
        | connect => cases hr
        | call methodId request cb =>
            simp only [Caller.resume] at hr
            split at hr <;> cases hr
    | requestStopped r' | ioThreadMissing r' | postRequest r' => cases r' <;> cases hr
    | _ => cases hr
  · intro v hv r hr
    cases hmove with
    | startIoThread => rfl
    | call | connect | connectAsync | runCallbacks | destroy | connectSpawn | submitSpawn
    | connectDone =>
        rw [List.mem_singleton.mp hv] at hr
        cases hr
    | _ => cases hv

/-! ## Promises -/

/-- The promise that a requester waits for. -/
def Requester.awaits : Requester → Option Nat
  | .ensureConnected _ f => some f
  | .connectAsync _ => none

/-- The promise that the caller in a thread waits for, or will wait for. -/
def Thread.awaits : Thread → Option Nat
  | .ensureConnected _ (.wait f) => some f
  | .requestConnect r _ => r.awaits
  | _ => none

theorem resume_awaits (k : Caller) (st : Status) : (k.resume st).awaits = none :=
  resume_const Thread.awaits rfl (fun _ _ _ => rfl) (fun _ _ => rfl) k st

theorem Requester.resume_awaits (r : Requester) : r.resume.awaits = r.awaits := by
  cases r <;> rfl

/-- A caller waits for the promise that it gave to `RequestConnect`. -/
theorem Move.awaits (h : Move cfg s t a s' t' new) {v : Thread} (hv : v ∈ t' :: new) {f : Nat}
    (hf : v.awaits = some f) : t.awaits = some f ∨ .promise f ∈ t.gives s a := by
  cases h with
  | ensureRequest k hopen =>
      rw [List.mem_singleton.mp hv] at hf
      cases hf
      exact Or.inr (by simp [Thread.gives, hopen])
  | checkOK | ensureStopped | waitSet | waitBroken =>
      rw [List.mem_singleton.mp hv, resume_awaits] at hf
      cases hf
  | requestStopped r | ioThreadMissing r | postRequest r =>
      rw [List.mem_singleton.mp hv, r.resume_awaits] at hf
      exact Or.inl hf
  | requestOpen | ioThreadKept | ioThreadThere =>
      rw [List.mem_singleton.mp hv] at hf
      exact Or.inl hf
  | startIoThread =>
      rcases List.mem_cons.mp hv with rfl | hv
      · exact Or.inl hf
      · rw [List.mem_singleton.mp hv] at hf
        cases hf
  | call | connect | connectAsync | runCallbacks | destroy | connectSpawn | submitSpawn
  | connectDone =>
      rcases List.mem_cons.mp hv with rfl | hv
      · cases hf
      · rw [List.mem_singleton.mp hv] at hf
        cases hf
  | _ =>
      rw [List.mem_singleton.mp hv] at hf
      cases hf

theorem kept_of_ran {d : Deliveries} {f : Nat} (h : d.ran (.promise f) = 1) :
    ∃ st again, d.promises[f]? = some (st :: again) := by
  simp only [Deliveries.ran] at h
  cases hset : d.promises[f]? with
  | none => simp [hset] at h
  | some set =>
      cases set with
      | nil => simp [hset] at h
      | cons st again => exact ⟨st, again, rfl⟩

theorem awaits_given {acts : List (Nat × Action)} (hrun : (machine cfg).run initial acts = some p) :
    ∀ t ∈ p.threads, ∀ f, t.awaits = some f → .promise f ∈ callbacks cfg acts := by
  refine Machine.run_history (P := fun acts (p : Pool Shared Thread) => ∀ t ∈ p.threads, ∀ f,
    t.awaits = some f → .promise f ∈ callbacks cfg acts) ?_ ?_ hrun
  · simp [initial, Thread.awaits]
  · intro acts u ia u' hrun hu hstep v hv f hf
    obtain ⟨t, t', new, rest, ht, hs, hbefore, hafter⟩ := Program.machine_step_at hstep
    have hlog : callbacks cfg (acts ++ [ia]) = callbacks cfg acts ++ t.gives u.shared ia.2 := by
      rw [callbacks, Machine.log_concat hrun hstep, given, ht]
      rfl
    rw [hlog, List.mem_append]
    have hv : v ∈ t' :: new ∨ v ∈ rest := by
      rw [← List.mem_append, List.cons_append]
      exact hafter.mem_iff.mp hv
    rcases hv with hnew | hrest
    · exact ((step_move hs).awaits hnew hf).imp_left (hu t (List.mem_of_getElem? ht) f)
    · exact Or.inl (hu v (hbefore.mem_iff.mpr (List.mem_cons_of_mem t hrest)) f hf)

end

/-! ## Calls -/

section

variable {cfg : Config} {p : Pool (Shared × Link) Thread}

theorem AtRest.strand (hrest : AtRest cfg p)
    (h : (calmProgram cfg).machine.Reachable linkedInitial p) : p.shared.1.strand = [] := by
  have hplain := reachable_of_calm h
  by_contra hne
  have hstarted := (reachable_posted hplain).1 hne
  rcases reachable_io hplain hstarted with hdone | hio
  · exact (calm_open h).2 ((reachable_goingDown hplain).1.joined hdone)
  · exact hne (hrest.waits hio)

/-- A promise is kept once there is no `ConnectCoro`. -/
theorem AtRest.not_waiting (hinline : cfg.dispatch = .inline) (hrest : AtRest cfg p)
    (h : (calmProgram cfg).machine.Reachable linkedInitial p)
    (hcoro : ∀ pc, .connectCoro pc ∉ p.threads) {k : Caller} {pc : Ensuring} :
    .ensureConnected k pc ∉ p.threads := by
  intro hmem
  have hplain := reachable_of_calm h
  obtain ⟨acts, hrun⟩ := hplain
  have hreach : (machine cfg).Reachable initial p.plain := ⟨acts, hrun⟩
  have hwaits := hrest.waits hmem
  cases pc with
  | check | checkStopped => exact hwaits
  | wait f =>
      have hgiven := awaits_given hrun _ hmem f rfl
      have haccounted := accounted hinline hrun
      have hwaiters : p.shared.1.connectWaiters = [] := waiters_of_no_connector hreach hcoro
      have hhands : (p.threads.map (Thread.hands (.promise f))).sum = 0 := by
        refine List.sum_eq_zero fun n hn => ?_
        obtain ⟨t, ht, rfl⟩ := List.mem_map.mp hn
        cases t with
        | requestConnect r pc => exact (hrest.waits ht).elim
        | _ => rfl
      have hone : p.shared.1.strand.count (.requestConnect (.promise f)) +
          p.shared.1.connectWaiters.count (.promise f) + p.shared.1.out.ran (.promise f) +
          (p.threads.map (Thread.hands (.promise f))).sum = 1 :=
        (haccounted.account (.promise f) nofun).trans
          (List.count_eq_one_of_mem haccounted.nodup hgiven)
      rw [hrest.strand h, hwaiters, hhands, List.count_nil, List.count_nil] at hone
      obtain ⟨st, again, hset⟩ := kept_of_ran (d := p.shared.1.out) (f := f) (by omega)
      exact hwaits st again hset

/-- No call is on its way to the strand or on it. -/
theorem AtRest.served (hinline : cfg.dispatch = .inline) (hrest : AtRest cfg p)
    (h : (calmProgram cfg).machine.Reachable linkedInitial p)
    (hcoro : ∀ pc, .connectCoro pc ∉ p.threads) (c : Nat) : ¬ Unserved c p.plain := by
  rintro (⟨t, ht, hruns⟩ | ⟨methodId, request, cb, hmem, -⟩)
  · have hwaits := hrest.waits ht
    cases t with
    | ensureConnected k pc => exact hrest.not_waiting hinline h hcoro ht
    | requestConnect | asyncUnaryCall => exact hwaits
    | _ => cases hruns
  · rw [show p.plain.shared.strand = [] from hrest.strand h] at hmem
    cases hmem

/-- Every callback was called or is in `pending`. -/
theorem AtRest.settled (hinline : cfg.dispatch = .inline) (hrest : AtRest cfg p)
    (h : (calmProgram cfg).machine.Reachable linkedInitial p)
    (hcoro : ∀ pc, .connectCoro pc ∉ p.threads) (hcalls : p.shared.1.calls.length < 2 ^ 32)
    {c : Nat} {call : Call} (hc : p.shared.1.calls[c]? = some call)
    (hcall : call.isEmpty = false) :
    p.shared.1.pendingHolds (Callback.weight (only c)) +
      p.shared.1.out.invocations (only c) = 1 := by
  have hholds := reachable_holds (w := only c) hinline (reachable_of_calm h) hcalls
  rw [handed_only (s := p.plain.shared) hc hcall, Program.owned, Shared.entrusted,
    told_inline hinline (reachable_of_calm h)] at hholds
  obtain ⟨hthreads, hstrand⟩ := holds_of_served (hrest.served hinline h hcoro c)
  rw [hthreads, hstrand] at hholds
  simpa [Pool.plain] using hholds

/-- When all registered calls have a response, every callback was called once. -/
theorem AtRest.answered (hinline : cfg.dispatch = .inline) (hrest : AtRest cfg p)
    (h : (calmProgram cfg).machine.Reachable linkedInitial p)
    (hcoro : ∀ pc, .connectCoro pc ∉ p.threads) (hcalls : p.shared.1.calls.length < 2 ^ 32)
    {responses : List (FrameHeader × Bytes)} (hcompletes : Completes p.shared.1 responses)
    (hall : p.shared.1.registered.length ≤ responses.length) {c : Nat} {call : Call}
    (hc : p.shared.1.calls[c]? = some call) (hcall : call.isEmpty = false) :
    p.shared.1.out.invocations (only c) = 1 := by
  have hplain := reachable_of_calm h
  have hone := hrest.settled hinline h hcoro hcalls hc hcall
  by_contra hne
  -- the callback is in `pending`, so the call is registered, and has a response
  have hpos : 0 < p.shared.1.pendingHolds (Callback.weight (only c)) := by omega
  obtain ⟨cb, hcb, hweight⟩ := exists_of_sum_pos hpos
  have hcb_call : cb.call = c := only_pos (Nat.lt_of_lt_of_le hweight (weight_le (only c) cb))
  obtain ⟨id, hlookup⟩ := mem_mapValues.mp hcb
  have hregistered := registered_of_pending hplain hlookup
  have hzip : ⟨cb.call, id⟩ ∈ (p.shared.1.registered.zip responses).map Prod.fst := by
    rw [List.map_fst_zip hall]
    exact hregistered
  have hmine : c ∈ (p.shared.1.out.replies.map Reply.call).filter p.shared.1.isRegistered := by
    rw [hcompletes.calls]
    refine List.mem_filter.mpr ⟨hcb_call ▸ List.mem_map_of_mem hzip, ?_⟩
    rw [Shared.hasCallback, hc, Option.any_some, hcall]
    rfl
  obtain ⟨x, hx, hxc⟩ := List.mem_map.mp (List.mem_filter.mp hmine).1
  have hcbQueue : p.shared.1.out.cbQueue = [] := reachable_cbQueue hinline hplain
  have hx : x ∈ p.shared.1.out.invoked.map Invocation.reply := by
    have hx : x ∈ repliesView.all p.shared.1.out := hx
    rwa [View.all, hcbQueue, List.flatMap_nil, List.append_nil] at hx
  obtain ⟨i, hi, rfl⟩ := List.mem_map.mp hx
  have hnone : p.shared.1.out.invocations (only c) = 0 := by omega
  exact ne_of_sum_eq_zero hnone hi hxc

end

/-! ## The connection -/

section

variable {cfg : Config} {p : Pool (Shared × Link) Thread}

theorem AtRest.writeQueue (hrest : AtRest cfg p)
    (h : (calmProgram cfg).machine.Reachable linkedInitial p) : p.shared.1.writeQueue = [] := by
  obtain ⟨acts, hrun⟩ := reachable_of_calm h
  have hsound := Pumped.sound (V := pump) (P := program cfg) rfl rfl
    (by simp [initial, pump, Thread.isPump]) (fun _ _ _ _ _ _ hs => (step_move hs).pump) hrun
  by_contra hne
  obtain ⟨-, t, ht, hpump⟩ := hsound.served hne
  cases t with
  | writePump pc => exact hrest.waits ht
  | _ => cases hpump

/-- The requests of all registered calls are sent. -/
theorem AtRest.sent (hrest : AtRest cfg p)
    (h : (calmProgram cfg).machine.Reachable linkedInitial p) :
    p.shared.2.sent.map (fun f => f.1.callID) = p.shared.1.registered.map Registration.callId := by
  have hids := (calm_sends h).ids
  rwa [hrest.writeQueue h, List.append_nil] at hids

/-- The `ReadLoop` does not end. -/
theorem calm_reading (h : (calmProgram cfg).machine.Reachable linkedInitial p) :
    p.shared.1.readLoopsEnded = 0 := by
  refine Program.reachable_shared (P := calmProgram cfg) (I := fun s => s.1.readLoopsEnded = 0) rfl
    ?_ h
  rintro u _ ⟨s', l'⟩ t t' new a _ hI hs
  obtain ⟨hcalm, -, hs⟩ := calm_step hs
  cases step_move hs with
  | readFailed a st ha =>
      have hok : (!a.failsReader) = true := by
        cases a with
        | readFrame r => cases r <;> simp_all [calm]
        | _ => exact hcalm
      rw [ha] at hok
      cases hok
  | readThrow => cases hcalm
  | _ => exact hI

theorem AtRest.reader (hrest : AtRest cfg p)
    (h : (calmProgram cfg).machine.Reachable linkedInitial p)
    (hstate : p.shared.1.connState = .connected) : .readLoop .reading ∈ p.threads := by
  have hcoroutines := reachable_coroutines (reachable_of_calm h)
  rw [show p.plain.shared.connState = .connected from hstate] at hcoroutines
  have hone : 0 < (p.threads.map Thread.readers).sum := by
    have hsum : (p.threads.map Thread.readers).sum + p.shared.1.readLoopsEnded = 1 := hcoroutines.2
    rw [calm_reading h] at hsum
    omega
  obtain ⟨t, ht, hpos⟩ := exists_of_sum_pos hone
  have hwaits := hrest.waits ht
  cases t with
  | readLoop pc =>
      cases pc with
      | spawned => exact hwaits.elim
      | reading => exact ht
  | _ => cases hpos

/-- An idle channel has registered no call. -/
theorem calm_idle (h : (calmProgram cfg).machine.Reachable linkedInitial p)
    (hstate : p.shared.1.connState = .idle) : p.shared.1.registered = [] := by
  have hdown : p.shared.1.connected = false := by
    refine Bool.eq_false_iff.mpr fun hup => ?_
    rcases (reachable_connection (reachable_of_calm h)).connected hup with hbad | hbad
    · cases hbad.symm.trans hstate
    · cases hbad.symm.trans hstate
  obtain ⟨hsent, hqueue, -⟩ := (calm_greets h).1.before hdown
  have hids := (calm_sends h).ids
  rw [hsent, hqueue] at hids
  exact List.map_eq_nil_iff.mp hids.symm

/-- A channel at rest waits for the handshake, is idle, or reads frames. -/
theorem AtRest.cases (hrest : AtRest cfg p)
    (h : (calmProgram cfg).machine.Reachable linkedInitial p) :
    .connectCoro .readHandshake ∈ p.threads ∨
      (∀ pc, .connectCoro pc ∉ p.threads) ∧
        (p.shared.1.connState = .idle ∨ p.shared.1.connState = .connected) := by
  by_cases hcoro : ∃ pc, .connectCoro pc ∈ p.threads
  · obtain ⟨pc, hpc⟩ := hcoro
    have hwaits := hrest.waits hpc
    cases pc with
    | readHandshake => exact Or.inl hpc
    | spawned | resolve | connect | writeHandshake => exact hwaits.elim
  · refine Or.inr ⟨not_exists.mp hcoro, ?_⟩
    cases hstate : p.shared.1.connState with
    | idle => exact Or.inl rfl
    | connected => exact Or.inr rfl
    | connecting => exact absurd (connector_of_connecting (reachable_of_calm h) hstate) hcoro
    | closed => exact absurd hstate (calm_open h).2

end

end Protocomm.Cpp.Channel
