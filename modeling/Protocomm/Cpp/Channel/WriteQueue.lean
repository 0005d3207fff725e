import Protocomm.Cpp.Channel.Completion

/-!
# Queued requests of failed calls

`FailAllPending` tells all pending calls that they failed, but only a failed write also
empties `write_queue`. So a request may be written after its caller was told that the
call failed, exactly when the reader or `Shutdown` fails the calls, or a response ends
one, while requests are queued.
-/

namespace Protocomm.Cpp.Channel

open Misc

variable {w : Nat → Nat} {cfg : Config} {p p' : Pool Shared Thread} {s s' : Shared} {t t' : Thread}
  {a : Action} {new : List Thread}

/-- No call is in two places, whatever becomes of its callback. -/
theorem reachable_entrusted (h : (machine cfg).Reachable initial p) :
    Program.owned (Shared.entrusted (fun cb => w cb.call) w) (Thread.holds fun cb => w cb.call)
      p.shared p.threads ≤ p.shared.made w := by
  refine Program.reachable_owned_le _ _ (Shared.made w) ?_ ?_ h
  · exact Nat.le_refl 0
  · intro u _ s' t t' new a hs
    obtain ⟨gain, lost, hcall, hsum, -⟩ :=
      (step_move hs).entrusted (f := fun cb => w cb.call) fun _ _ => rfl
    refine ⟨gain, ?_, Nat.le_of_add_right_le (Nat.le_of_eq hsum)⟩
    rcases hcall with ⟨hsame, rfl⟩ | ⟨call, hnew, rfl⟩
    · simp [Shared.made, hsame]
    · simp [Shared.made, hnew, List.range_succ]

/-! ## The calls whose request is queued -/

/-- The registrations whose requests are in `write_queue`: the last ones. -/
def Shared.queued (s : Shared) : List Registration :=
  s.registered.drop (s.registered.length - s.writeQueue.length)

/-- What a step does to `write_queue` and to the registrations. -/
inductive QueueMove (s s' : Shared) : Prop
  | keep (hregistered : s'.registered = s.registered) (hqueue : s'.writeQueue = s.writeQueue)
  | submit (methodId : UInt32) (request : Bytes) (cb : Callback) (rest : List Handler)
      (hstrand : s.strand = .submit methodId request cb :: rest)
      (hregistered : s'.registered = s.registered ++ [⟨cb.call, s.nextCallId⟩])
      (hqueue : s'.writeQueue =
        s.writeQueue ++ [(requestHeader s.nextCallId methodId request, request)])
  | next (f : FrameHeader × Bytes) (hregistered : s'.registered = s.registered)
      (hqueue : s.writeQueue = f :: s'.writeQueue)
  | clear (hregistered : s'.registered = s.registered) (hqueue : s'.writeQueue = [])

theorem Move.queue (h : Move cfg s t a s' t' new) : QueueMove s s' := by
  cases h with
  | submit methodId request cb rest hstrand | submitSpawn methodId request cb rest hstrand =>
      exact .submit methodId request cb rest hstrand rfl rfl
  | pumpNext pc a hdr payload rest hqueue => exact .next (hdr, payload) rfl hqueue
  | pumpFailed => exact .clear rfl rfl
  | _ => exact .keep rfl rfl

/-- The queued requests are those of the last registrations, in their order. -/
def Shared.Tail (s : Shared) : Prop :=
  ∃ front, s.registered = front ++ s.queued ∧
    s.writeQueue.map (fun f => f.1.callID) = s.queued.map Registration.callId

theorem queued_eq {front back : List Registration} (hregistered : s.registered = front ++ back)
    (hlen : s.writeQueue.length = back.length) : s.queued = back := by
  rw [Shared.queued, hregistered, List.length_append, hlen, Nat.add_sub_cancel,
    List.drop_left]

theorem tail_of_split (front back : List Registration) (hregistered : s.registered = front ++ back)
    (hids : s.writeQueue.map (fun f => f.1.callID) = back.map Registration.callId) :
    s.Tail ∧ s.queued = back := by
  have hqueued : s.queued = back :=
    queued_eq hregistered (by simpa using congrArg List.length hids)
  exact ⟨⟨front, by rw [hqueued]; exact hregistered, by rw [hqueued]; exact hids⟩, hqueued⟩

/-- A step keeps the queued registrations together and adds only the one it makes. -/
theorem QueueMove.tail (h : QueueMove s s') (htail : s.Tail) :
    s'.Tail ∧ ∀ r ∈ s'.queued, r ∈ s.queued ∨ ∃ methodId request cb rest,
      s.strand = .submit methodId request cb :: rest ∧ r.call = cb.call := by
  obtain ⟨front, hregistered, hids⟩ := htail
  cases h with
  | keep hregistered' hqueue' =>
      obtain ⟨htail', hqueued⟩ := tail_of_split _ _ (hregistered'.trans hregistered)
        (by rw [hqueue', hids])
      exact ⟨htail', fun r hr => Or.inl (hqueued ▸ hr)⟩
  | submit methodId request cb rest hstrand hregistered' hqueue' =>
      obtain ⟨htail', hqueued⟩ := tail_of_split (s := s') front
        (s.queued ++ [⟨cb.call, s.nextCallId⟩])
        (by rw [hregistered', hregistered, List.append_assoc])
        (by rw [hqueue', List.map_append, hids, List.map_append]; rfl)
      refine ⟨htail', fun r hr => ?_⟩
      rw [hqueued] at hr
      rcases List.mem_append.mp hr with hr | hr
      · exact Or.inl hr
      · rw [List.mem_singleton.mp hr]
        exact Or.inr ⟨methodId, request, cb, rest, hstrand, rfl⟩
  | next f hregistered' hqueue =>
      rw [hqueue, List.map_cons] at hids
      cases hq : s.queued with
      | nil =>
          rw [hq] at hids
          cases hids
      | cons r back =>
          rw [hq, List.map_cons] at hids
          obtain ⟨htail', hqueued⟩ := tail_of_split (s := s') (front ++ [r]) back
            (by rw [hregistered', hregistered, hq]; simp)
            (List.cons.inj hids).2
          exact ⟨htail', fun x hx => Or.inl (List.mem_cons_of_mem _ (hqueued ▸ hx))⟩
  | clear hregistered' hqueue' =>
      obtain ⟨htail', hqueued⟩ := tail_of_split (s := s') s'.registered []
        (List.append_nil _).symm (by rw [hqueue']; rfl)
      refine ⟨htail', fun r hr => ?_⟩
      rw [hqueued] at hr
      cases hr

theorem reachable_tail (h : (machine cfg).Reachable initial p) : p.shared.Tail := by
  refine Program.reachable_shared (I := Shared.Tail) ?_ ?_ h
  · exact ⟨[], rfl, rfl⟩
  · intro u _ s' t t' new a _ hI hs
    exact ((step_move hs).queue.tail hI).1

/-! ## Who tells a call its end -/

/-- The step empties `pending` and leaves `write_queue` as it is: the reader fails, or
    `Shutdown` closes the channel. -/
def Thread.failsAll (s : Shared) : Thread → Action → Bool
  | .readLoop .reading, a => a.failsReader
  | .io, .run => s.strand.head? = some .shutdown
  | .shutdown .closeIdle, .run => true
  | _, _ => false

/-- A step that tells call `c` its end. -/
inductive Tells (s : Shared) (c : Nat) : Thread → Action → Shared → Prop
  | fail (st : Status) (cb : Callback) (s' : Shared) (hc : cb.call = c) :
      Tells s c (.asyncUnaryCall (.fail st cb)) .run s'
  | submit (methodId : UInt32) (request : Bytes) (cb : Callback) (rest : List Handler)
      (s' : Shared) (hstrand : s.strand = .submit methodId request cb :: rest)
      (hc : cb.call = c) : Tells s c .io .run s'
  | nested (a : Action) (s' : Shared) (hc : s.calls.length = c) : Tells s c .io a s'
  | take (hdr : FrameHeader) (payload : Bytes) (cb : Callback) (s' : Shared)
      (htype : hdr.type = FrameResponse) (hlookup : s.pending.lookup hdr.callID = some cb)
      (hc : cb.call = c) : Tells s c (.readLoop .reading) (.readFrame (.frame hdr payload)) s'
  | failsAll (t : Thread) (a : Action) (s' : Shared) (hfails : t.failsAll s a = true) :
      Tells s c t a s'
  | clear (t : Thread) (a : Action) (s' : Shared) (hqueue : s'.writeQueue = []) : Tells s c t a s'

theorem postResponse_tells {d : Deliveries} {st : Status} {payload : Bytes} {site : Site}
    (cb : Callback) (c : Nat) :
    (postResponse cfg d cb st payload site).told (only c) ≤ d.told (only c) ∨ cb.call = c := by
  by_cases hc : cb.call = c
  · exact Or.inr hc
  · obtain ⟨lost, htold, -⟩ := @postResponse_told (fun cb => only c cb.call) (only c) cfg d st
      payload site (fun _ _ => rfl) cb
    rw [only_of_ne hc] at htold
    exact Or.inl (by omega)

theorem Move.tells (h : Move cfg s t a s' t' new) (c : Nat) :
    s'.out.told (only c) ≤ s.out.told (only c) ∨
      (Tells s c t a s' ∧ s'.registered = s.registered) := by
  cases h with
  | fail st cb => exact (postResponse_tells cb c).imp id fun hc => ⟨.fail st cb _ hc, rfl⟩
  | submitStopped methodId request cb rest hstrand =>
      exact (postResponse_tells cb c).imp id
        fun hc => ⟨.submit methodId request cb rest _ hstrand hc, rfl⟩
  | nestedCallFails methodId request isEmpty =>
      exact (postResponse_tells ⟨s.calls.length, isEmpty⟩ c).imp id
        fun hc => ⟨.nested _ _ hc, rfl⟩
  | take hdr payload cb htype hlookup =>
      exact (postResponse_tells cb c).imp id
        fun hc => ⟨.take hdr payload cb _ htype hlookup hc, rfl⟩
  | readFailed a st ha => exact Or.inr ⟨.failsAll _ _ _ ha, rfl⟩
  | closeIdle => exact Or.inr ⟨.failsAll _ _ _ rfl, rfl⟩
  | shutdownHandler rest hstrand =>
      exact Or.inr ⟨.failsAll _ _ _ (by simp [Thread.failsAll, hstrand]), rfl⟩
  | pumpFailed => exact Or.inr ⟨.clear _ _ _ rfl, rfl⟩
  | runOne left d rest hqueue =>
      have htold := @Completion.run_told (only c) s.out d rest
      rw [← hqueue] at htold
      exact Or.inl htold
  | drain =>
      refine Or.inl ?_
      simp [Deliveries.told, Deliveries.invocations]
  | requestStopped | ioThreadMissing | connectRefused | connectThere | nestedConnectStopped =>
      exact Or.inl (ConnectCallback.run_told _).le
  | connectFailed | connectClosed | connectDone => exact Or.inl (finish_told _ _).le
  | push => exact Or.inl (postPush_told _).le
  | _ => exact Or.inl (Nat.le_refl _)

/-! ## Where a registered call is -/

section Registered

variable {r r' : Registration}

theorem registered_sum (hr : r ∈ s.registered) :
    1 ≤ (s.registered.map fun x => only r.call x.call).sum := by
  have hle := le_sum_map (f := fun x : Registration => only r.call x.call) hr
  rwa [only_self] at hle

variable (h : (machine cfg).Reachable initial p) (hr : r ∈ p.shared.registered)
include h hr

/-- A registered call was made, and no caller and no handler has it. -/
theorem registered_elsewhere :
    r.call < p.shared.calls.length ∧
      (∀ t ∈ p.threads, t.holds (fun cb => only r.call cb.call) = 0) ∧
      ∀ methodId request cb, .submit methodId request cb ∈ p.shared.strand → cb.call ≠ r.call := by
  have htickets := reachable_tickets (w := only r.call) h
  have hsum := registered_sum hr
  have hmade : p.shared.made (only r.call) ≤ 1 := sum_range_only_le ..
  rw [Program.owned, Shared.tickets] at htickets
  refine ⟨?_, ?_, ?_⟩
  · exact lt_of_sum_range_only (show 0 < p.shared.made (only r.call) by omega)
  · intro t ht
    have hle := le_sum_map (f := Thread.holds fun cb => only r.call cb.call) ht
    omega
  · intro methodId request cb hmem hcall
    have hle := le_sum_map (f := Handler.holds fun cb => only r.call cb.call) hmem
    simp only [Handler.holds, hcall, only_self] at hle
    rw [Shared.strandHolds] at htickets
    omega

theorem registered_unique (hr' : r' ∈ p.shared.registered) (hcall : r'.call = r.call) : r' = r := by
  have htickets := reachable_tickets (w := only r.call) h
  have hmade : p.shared.made (only r.call) ≤ 1 := sum_range_only_le ..
  rw [Program.owned, Shared.tickets] at htickets
  have hle : (p.shared.registered.map fun x => only r.call x.call).sum ≤ 1 := by omega
  exact eq_of_sum_le_one hle hr' hr (by rw [hcall]; exact only_self _) (only_self _)

end Registered

/-- A call on the strand was not told anything. -/
theorem untold_of_strand (h : (machine cfg).Reachable initial p) {methodId : UInt32}
    {request : Bytes} {cb : Callback} (hmem : .submit methodId request cb ∈ p.shared.strand) :
    p.shared.out.told (only cb.call) = 0 := by
  have hentrusted := reachable_entrusted (w := only cb.call) h
  have hmade : p.shared.made (only cb.call) ≤ 1 := sum_range_only_le ..
  have hle := le_sum_map (f := Handler.holds fun cb' => only cb.call cb'.call) hmem
  simp only [Handler.holds, only_self] at hle
  simp only [Program.owned, Shared.entrusted, Shared.strandHolds] at hentrusted
  omega

/-- A pending call was registered under its id. -/
theorem registered_of_pending (h : (machine cfg).Reachable initial p) {id : UInt32} {cb : Callback}
    (hlookup : p.shared.pending.lookup id = some cb) :
    ⟨cb.call, id⟩ ∈ p.shared.registered := by
  have hknown := (reachable_numbered h).known id cb.call (by simp [Shared.callTable, hlookup])
  obtain ⟨r, hr, heq⟩ := List.mem_map.mp hknown
  obtain ⟨hcall, hid⟩ := Prod.mk.inj heq
  rw [← hcall, ← hid]
  exact hr

/-! ## Queued requests are awaited -/

/-- Every queued request is that of a call that is pending; and none is that of a call
    whose callback was called. -/
def QueuedAwaited (p : Pool Shared Thread) : Prop :=
  (∀ f ∈ p.shared.writeQueue, f.1.callID ∈ p.shared.pending) ∧
    ∀ r ∈ p.shared.queued, ∀ i ∈ p.shared.out.invoked, i.call ≠ r.call

/-- The condition on a step: it empties `pending` only while nothing is queued, and the
    response it reads is not to a queued request. -/
def FailsUnqueued (p : Pool Shared Thread) (ia : Nat × Action) : Prop :=
  (∀ t, p.threads[ia.1]? = some t → t.failsAll p.shared ia.2 = true → p.shared.writeQueue = []) ∧
    ∀ hdr payload, p.threads[ia.1]? = some (.readLoop .reading) →
      ia.2 = .readFrame (.frame hdr payload) → hdr.type = FrameResponse →
      ∀ f ∈ p.shared.writeQueue, f.1.callID ≠ hdr.callID

/-- What the condition keeps. -/
def Untold (p : Pool Shared Thread) : Prop :=
  (∀ f ∈ p.shared.writeQueue, f.1.callID ∈ p.shared.pending) ∧
    ∀ r ∈ p.shared.queued, p.shared.out.told (only r.call) = 0

theorem mem_emplace (m : Pending) (callId : UInt32) (cb : Callback) :
    callId ∈ emplace m callId cb ∧ ∀ id ∈ m, id ∈ emplace m callId cb := by
  unfold emplace
  split
  · rename_i hlookup
    exact ⟨AList.mem_keys.mp (AList.lookup_isSome.mp (by rw [hlookup]; rfl)), fun _ h => h⟩
  · exact ⟨AList.mem_insert _ |>.mpr (Or.inl rfl), fun _ h => AList.mem_insert _ |>.mpr (Or.inr h)⟩

theorem Move.awaited (h : Move cfg s t a s' t' new)
    (hqueue : ∀ f ∈ s.writeQueue, f.1.callID ∈ s.pending)
    (hfails : t.failsAll s a = true → s.writeQueue = [])
    (htake : ∀ hdr payload, t = .readLoop .reading → a = .readFrame (.frame hdr payload) →
      hdr.type = FrameResponse → ∀ f ∈ s.writeQueue, f.1.callID ≠ hdr.callID) :
    ∀ f ∈ s'.writeQueue, f.1.callID ∈ s'.pending := by
  have hnone : ∀ {q : List (FrameHeader × Bytes)} {m : Pending}, q = [] →
      ∀ f ∈ q, f.1.callID ∈ m := by
    rintro q m rfl f hf
    cases hf
  cases h with
  | submit methodId request cb rest | submitSpawn methodId request cb rest =>
      intro f hf
      rcases List.mem_append.mp hf with hf | hf
      · exact (mem_emplace ..).2 _ (hqueue f hf)
      · rw [List.mem_singleton.mp hf]
        exact (mem_emplace ..).1
  | take hdr payload cb htype hlookup =>
      intro f hf
      exact AList.mem_erase.mpr ⟨htake hdr payload rfl rfl htype f hf, hqueue f hf⟩
  | readFailed a st ha => exact hnone (hfails ha)
  | closeIdle => exact hnone (hfails rfl)
  | shutdownHandler rest hstrand => exact hnone (hfails (by simp [Thread.failsAll, hstrand]))
  | pumpFailed => exact hnone rfl
  | pumpNext pc a hdr payload rest hq =>
      intro f hf
      exact hqueue f (by rw [hq]; exact List.mem_cons_of_mem _ hf)
  | _ => exact hqueue

/-- A step that tells a registered call its end leaves no queued request of it. -/
theorem Tells.not_queued {c : Nat} (h : Tells p.shared c t a s')
    (hreach : (machine cfg).Reachable initial p) (ht : t ∈ p.threads)
    (hfails : t.failsAll p.shared a = true → p.shared.writeQueue = [])
    (htake : ∀ hdr payload, t = .readLoop .reading → a = .readFrame (.frame hdr payload) →
      hdr.type = FrameResponse → ∀ f ∈ p.shared.writeQueue, f.1.callID ≠ hdr.callID)
    {r : Registration} (hr : r ∈ p.shared.queued) (hc : r.call = c) : s'.writeQueue = [] := by
  obtain ⟨front, hregistered, hids⟩ := reachable_tail hreach
  have hmem : r ∈ p.shared.registered := by
    rw [hregistered]
    exact List.mem_append_right _ hr
  obtain ⟨hmade, hthreads, hstrand⟩ := registered_elsewhere hreach hmem
  cases h with
  | fail st cb _ hcb =>
      have hzero := hthreads _ ht
      simp [Thread.holds, hcb, hc] at hzero
  | submit methodId request cb rest _ hhead hcb =>
      exact absurd (hcb.trans hc.symm)
        (hstrand methodId request cb (by rw [hhead]; exact List.mem_cons_self))
  | nested _ _ hnew => omega
  | take hdr payload cb _ htype hlookup hcb =>
      have heq := registered_unique hreach hmem (registered_of_pending hreach hlookup)
        (hcb.trans hc.symm)
      have hid : r.callId ∈ p.shared.writeQueue.map fun f => f.1.callID := by
        rw [hids]
        exact List.mem_map_of_mem hr
      obtain ⟨f, hf, hfid⟩ := List.mem_map.mp hid
      rw [← heq] at hfid
      exact absurd hfid (htake hdr payload rfl rfl htype f hf)
  | failsAll _ _ _ hall =>
      have hempty := hfails hall
      simp [Shared.queued, hempty] at hr
  | clear _ _ _ hqueue => exact hqueue

theorem untold_keep (hreach : (machine cfg).Reachable initial p) (h : Untold p)
    {ia : Nat × Action} (hok : FailsUnqueued p ia) (hstep : (machine cfg).step p ia = some p') :
    Untold p' := by
  obtain ⟨i, a⟩ := ia
  obtain ⟨t, t', new, ht, hs, -⟩ := Program.machine_step_eq hstep
  have hmove : Move cfg p.shared t a p'.shared t' new := step_move hs
  have hfails := hok.1 t ht
  have htake : ∀ hdr payload, t = .readLoop .reading → a = .readFrame (.frame hdr payload) →
      hdr.type = FrameResponse → ∀ f ∈ p.shared.writeQueue, f.1.callID ≠ hdr.callID :=
    fun hdr payload hreading => hok.2 hdr payload (hreading ▸ ht)
  refine ⟨hmove.awaited h.1 hfails htake, ?_⟩
  intro r hr
  obtain ⟨front, hregistered', -⟩ := reachable_tail (hreach.tail hstep)
  have hmem' : r ∈ p'.shared.registered := by
    rw [hregistered']
    exact List.mem_append_right _ hr
  -- the request was queued before, or its call is the first on the strand
  have hbefore : p.shared.out.told (only r.call) = 0 := by
    rcases (hmove.queue.tail (reachable_tail hreach)).2 r hr with hold |
      ⟨methodId, request, cb, rest, hstrand, hcall⟩
    · exact h.2 r hold
    · rw [hcall]
      exact untold_of_strand hreach (by rw [hstrand]; exact List.mem_cons_self)
  rcases hmove.tells r.call with hle | ⟨htells, hsame⟩
  · exact Nat.le_zero.mp (hbefore ▸ hle)
  · have hold : r ∈ p.shared.queued := by
      rcases (hmove.queue.tail (reachable_tail hreach)).2 r hr with hold |
        ⟨methodId, request, cb, rest, hstrand, hcall⟩
      · exact hold
      · exact absurd hcall.symm ((registered_elsewhere hreach (hsame ▸ hmem')).2.2 methodId request
          cb (by rw [hstrand]; exact List.mem_cons_self))
    have hempty := htells.not_queued hreach (List.mem_of_getElem? ht) hfails htake hold rfl
    simp [Shared.queued, hempty] at hr

theorem untold_awaited (h : Untold p) : QueuedAwaited p := by
  refine ⟨h.1, ?_⟩
  intro r hr i hi
  have htold := h.2 r hr
  rw [Deliveries.told, Deliveries.invocations] at htold
  exact ne_of_sum_eq_zero (by omega) hi

/-- `FailAllPending` without the clear of `write_queue`. -/
theorem Move.failsAll (h : Move cfg s t a s' t' new) (hfails : t.failsAll s a = true) :
    s'.pending = ∅ ∧ s'.writeQueue = s.writeQueue := by
  cases h with
  | readFailed | closeIdle | shutdownHandler => exact ⟨rfl, rfl⟩
  | push hdr payload htype => simp [Thread.failsAll, Action.failsReader, htype] at hfails
  | skip hdr payload hskip =>
      rcases hskip with htype | ⟨htype, -⟩ <;>
        simp [Thread.failsAll, Action.failsReader, htype] at hfails
  | take hdr payload cb htype => simp [Thread.failsAll, Action.failsReader, htype] at hfails
  | connectRefused cb rest hstrand | connectThere cb rest hstrand | connectWait cb rest hstrand
  | connectSpawn cb rest hstrand | submitStopped methodId request cb rest hstrand
  | submit methodId request cb rest hstrand | submitSpawn methodId request cb rest hstrand =>
      simp [Thread.failsAll, hstrand] at hfails
  | _ => cases hfails

/-- A response to a pending call ends it. -/
theorem Move.response (h : Move cfg s (.readLoop .reading) a s' t' new) {hdr : FrameHeader}
    {payload : Bytes} (ha : a = .readFrame (.frame hdr payload)) (htype : hdr.type = FrameResponse)
    (hpending : hdr.callID ∈ s.pending) :
    hdr.callID ∉ s'.pending ∧ s'.writeQueue = s.writeQueue := by
  subst ha
  cases h with
  | readFailed _ st hfails => simp [Action.failsReader, htype] at hfails
  | push _ _ hpush => cases htype.symm.trans hpush
  | skip _ _ hskip =>
      rcases hskip with hpush | ⟨-, hnone⟩
      · cases htype.symm.trans hpush
      · exact absurd hpending (AList.lookup_eq_none.mp hnone)
  | take _ _ cb _ hlookup => exact ⟨fun hmem => (AList.mem_erase.mp hmem).1 rfl, rfl⟩

theorem not_awaited_of_fails {ia : Nat × Action} (h : Untold p) (hbad : ¬ FailsUnqueued p ia)
    (hstep : (machine cfg).step p ia = some p') : ¬ QueuedAwaited p' := by
  obtain ⟨i, a⟩ := ia
  obtain ⟨t, t', new, ht, hs, -⟩ := Program.machine_step_eq hstep
  have hmove : Move cfg p.shared t a p'.shared t' new := step_move hs
  intro hawaited
  refine hbad ⟨?_, ?_⟩
  · intro t₁ ht₁ hfails
    obtain rfl := Option.some.inj (ht.symm.trans ht₁)
    obtain ⟨hpending, hqueue⟩ := hmove.failsAll hfails
    apply List.eq_nil_iff_forall_not_mem.mpr
    intro f hf
    have hmem := hawaited.1 f (hqueue ▸ hf)
    rw [hpending] at hmem
    exact AList.notMem_empty _ hmem
  · intro hdr payload hreading ha htype f hf hid
    obtain rfl := Option.some.inj (ht.symm.trans hreading)
    have hpending : hdr.callID ∈ p.shared.pending := hid ▸ h.1 f hf
    obtain ⟨hgone, hqueue⟩ := hmove.response ha htype hpending
    exact hgone (hid ▸ hawaited.1 f (hqueue ▸ hf))

/-- In every state of a run the queued requests are those of the last registrations, in
    their order. Every queued request is that of a pending call, and none is that of a call
    whose callback was called, in every state of a run, exactly when in each of its steps
    the reader and `Shutdown` fail the calls only while nothing is queued and the response
    read is not to a queued request. -/
theorem queuedAwaited_iff_failsUnqueued (cfg : Config) {acts : List (Nat × Action)}
    (hrun : (machine cfg).run initial acts = some p) :
    (∀ q, (machine cfg).Reachable initial q → q.shared.Tail) ∧
      ((∀ u ∈ (machine cfg).visited initial acts, QueuedAwaited u) ↔
        (machine cfg).Meets FailsUnqueued initial acts) := by
  refine ⟨fun q hq => reachable_tail hq, ?_⟩
  refine Machine.forall_visited_iff_meets (I := fun u => (machine cfg).Reachable initial u)
    (Q := Untold) ?_ ?_ ?_ ?_ (.refl initial) ?_ hrun
  · exact fun u a u' hu hstep => hu.tail hstep
  · exact fun u a u' hu hQ hok hstep => untold_keep hu hQ hok hstep
  · exact fun u _ hQ => untold_awaited hQ
  · exact fun u a u' _ hQ hbad hstep => not_awaited_of_fails hQ hbad hstep
  · exact ⟨nofun, nofun⟩

/-- Two calls are submitted; while the first is being written the reader reads a frame of
    an unexpected type. -/
def unexpectedFrameRun : List (Nat × Action) :=
  [(0, .call 7 [] false), (1, .run), (1, .run), (1, .run), (1, .run), (1, .run), (1, .run),
    (2, .run), (3, .run), (3, .op none), (3, .op none), (3, .op none),
    (3, .readHandshake (.ok [112, 99, 49])), (1, .run), (1, .run), (2, .run), (5, .run),
    (0, .call 8 [] false), (6, .run), (6, .run), (2, .run), (4, .run),
    (4, .readFrame (.frame { type := 9, callID := 0, methodID := 0, payloadSize := 0 } []))]

theorem queuedAwaited_iff_unexpectedFrameRun :
    ∃ p, (machine {}).run initial unexpectedFrameRun = some p ∧
      ((∀ u ∈ (machine {}).visited initial unexpectedFrameRun, QueuedAwaited u) ↔
        (machine {}).Meets FailsUnqueued initial unexpectedFrameRun) :=
  ⟨_, rfl, (queuedAwaited_iff_failsUnqueued {} rfl).2⟩

/-- The request of the second call is queued, but no longer pending; its caller is told
    that the call failed, and then `WriteFrame` starts for it. -/
theorem request_written_after_failure :
    ∃ p p', (machine {}).run initial unexpectedFrameRun = some p ∧
      (machine {}).step p (5, .op none) = some p' ∧
      p.shared.writeQueue = [(requestHeader 2 8 [], [])] ∧ p.shared.pending = ∅ ∧
      ⟨1, ⟨StatusCode.Internal, "unexpected frame type"⟩, [], .io⟩ ∈ p.shared.out.invoked ∧
      p'.threads[5]? = some (.writePump (.writing (requestHeader 2 8 []) [])) :=
  ⟨_, _, rfl, rfl, rfl, rfl, by decide, rfl⟩

end Protocomm.Cpp.Channel
