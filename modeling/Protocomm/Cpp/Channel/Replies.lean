import Protocomm.Cpp.Channel.Link
import Protocomm.Misc.Slots

/-!
# The order of the callbacks of a C++ channel

When the responses that a channel reads are those to its calls in the order of their
registration, each finds the callback of its call in `pending`, and the callbacks are
called, or leave `cb_queue`, in the same order.
-/

namespace Protocomm.Cpp.Channel

open Misc

/-! ## Callbacks that were called -/

/-- What the callback of a call is called with. -/
structure Reply where
  call : Nat
  status : Status
  payload : Bytes
  deriving DecidableEq, Repr

/-- The call of a callback, unless it is empty. -/
def Callback.replies (cb : Callback) (st : Status) (payload : Bytes) : List Reply :=
  if cb.isEmpty then [] else [⟨cb.call, st, payload⟩]

/-- The call that a completion makes. -/
def Completion.replies : Completion → List Reply
  | .response cb st payload => cb.replies st payload
  | _ => []

/-- What an invocation hands to its callback. -/
def Invocation.reply (i : Invocation) : Reply := ⟨i.call, i.status, i.payload⟩

/-- A way to look at what callbacks get: `called` tells it of the callbacks called so far
    and `waits` of a completion that waits in `cb_queue`. Connect callbacks are left out. -/
structure View (β : Type) where
  called : Deliveries → List β
  waits : Completion → List β
  queue : ∀ d q, called { d with cbQueue := q } = called d
  invoke : ∀ d cb st payload site, cb.isEmpty = false →
    called (d.invoke cb st payload site) = called d ++ waits (.response cb st payload)
  empty : ∀ cb st payload, cb.isEmpty = true → waits (.response cb st payload) = []
  push : ∀ d methodId payload, called { d with pushes := d.pushes ++ [(methodId, payload)] } =
    called d ++ waits (.push methodId payload)
  connected : ∀ (cb : ConnectCallback) d st site, called (cb.run d st site) = called d
  connect : ∀ cb st, waits (.connect cb st) = []

/-- What callbacks were called with, and then what waits. -/
def View.all {β : Type} (V : View β) (d : Deliveries) : List β :=
  V.called d ++ d.cbQueue.flatMap V.waits

section View

variable {β : Type} (V : View β) {cfg : Config} {d : Deliveries} {st : Status} {payload : Bytes}
  {site : Site}

theorem View.called_initial (d : Deliveries) : V.called d <+: V.all d := List.prefix_append _ _

theorem View.all_queue (c : Completion) : V.all (d.queue c) = V.all d ++ V.waits c := by
  simp [View.all, Deliveries.queue, V.queue]

theorem View.all_postResponse (hqueue : cfg.dispatch = .inline → d.cbQueue = [])
    (cb : Callback) : V.all (postResponse cfg d cb st payload site) =
      V.all d ++ V.waits (.response cb st payload) := by
  unfold postResponse
  split
  · rename_i hcb
    rw [V.empty _ _ _ hcb, List.append_nil]
  · rename_i hcb
    split
    · rename_i hinline
      rw [View.all, V.invoke _ _ _ _ _ (Bool.eq_false_iff.mpr hcb), View.all,
        show (d.invoke cb st payload site).cbQueue = d.cbQueue from rfl, hqueue hinline]
      simp
    · exact V.all_queue _

theorem View.all_postPush (hqueue : cfg.dispatch = .inline → d.cbQueue = [])
    (methodId : UInt32) : V.all (postPush cfg d methodId payload) =
      V.all d ++ V.waits (.push methodId payload) := by
  unfold postPush
  split
  · rename_i hinline
    rw [View.all, V.push, View.all, hqueue hinline]
    simp
  · exact V.all_queue _

theorem View.all_connected (cb : ConnectCallback) : V.all (cb.run d st site) = V.all d := by
  rw [View.all, V.connected, View.all]
  cases cb <;> rfl

theorem View.all_finish (s : Shared) : V.all (finish cfg s st).out = V.all s.out := by
  refine foldl_keeps (m := V.all) (fun d cb => ?_) s.connectWaiters
  rw [postConnect]
  split
  · exact V.all_connected cb
  · rw [V.all_queue, V.connect, List.append_nil]

/-- `RunCallbacks` calls the first completion of the queue. -/
theorem View.all_run {c : Completion} {rest : List Completion} (hqueue : d.cbQueue = c :: rest) :
    V.all (c.run { d with cbQueue := rest }) = V.all d := by
  have hfirst : V.all d = V.called d ++ (V.waits c ++ rest.flatMap V.waits) := by
    rw [View.all, hqueue, List.flatMap_cons]
  rw [hfirst, ← List.append_assoc, ← V.queue d rest]
  cases c with
  | response cb st payload =>
      simp only [Completion.run]
      split
      · rename_i hcb
        rw [V.empty _ _ _ hcb, List.append_nil]
        rfl
      · rename_i hcb
        rw [View.all, V.invoke _ _ _ _ _ (Bool.eq_false_iff.mpr hcb)]
        rfl
  | connect cb st =>
      rw [Completion.run, V.all_connected, V.connect, List.append_nil]
      rfl
  | push methodId payload =>
      rw [Completion.run, View.all, V.push { d with cbQueue := rest }]

end View

/-- The replies to calls. -/
def repliesView : View Reply where
  called d := d.invoked.map Invocation.reply
  waits := Completion.replies
  queue _ _ := rfl
  invoke d cb st payload site hcb := by
    simp [Deliveries.invoke, Invocation.reply, Completion.replies, Callback.replies, hcb]
  empty cb st payload hcb := by simp [Completion.replies, Callback.replies, hcb]
  push _ _ _ := (List.append_nil _).symm
  connected cb _ _ _ := by cases cb <;> rfl
  connect _ _ := rfl

/-- The callbacks that were called, and then those that wait in `cb_queue`. -/
def Deliveries.replies (d : Deliveries) : List Reply := repliesView.all d

variable {cfg : Config} {p : Pool Shared Thread} {s s' : Shared} {t t' : Thread} {a : Action}
  {new : List Thread}

/-- A call that was told nothing has no reply. -/
theorem ne_of_untold {c : Nat} {d : Deliveries} (h : d.told (only c) = 0) :
    ∀ x ∈ d.replies, x.call ≠ c := by
  rintro x hx rfl
  obtain ⟨hqueue, hinvoked⟩ := Nat.add_eq_zero_iff.mp h
  rcases List.mem_append.mp hx with hx | hx
  · obtain ⟨i, hi, rfl⟩ := List.mem_map.mp hx
    exact ne_of_sum_eq_zero hinvoked hi rfl
  · obtain ⟨c, hc, hx⟩ := List.mem_flatMap.mp hx
    have htells : c.tells (only x.call) = 0 :=
      Nat.eq_zero_of_le_zero ((le_sum_map hc).trans hqueue.le)
    cases c with
    | response cb st payload =>
        simp only [repliesView, Completion.replies, Callback.replies] at hx
        split at hx
        · cases hx
        · rw [List.mem_singleton.mp hx] at htells
          simp [Completion.tells] at htells
    | connect | push => cases hx

/-! ## Callbacks of calls -/

/-- The callback is that of a call. -/
def Shared.Knows (s : Shared) (cb : Callback) : Prop :=
  ∃ c, s.calls[cb.call]? = some c ∧ c.isEmpty = cb.isEmpty

/-- The callback that a caller carries. -/
def Caller.callback : Caller → Option Callback
  | .connect => none
  | .call _ _ cb => some cb

/-- The response callback that a requester carries. -/
def Requester.callCallback : Requester → Option Callback
  | .ensureConnected k _ => k.callback
  | _ => none

/-- The callback that a thread has. -/
def Thread.callback : Thread → Option Callback
  | .ensureConnected k _ => k.callback
  | .requestConnect r _ => r.callCallback
  | .asyncUnaryCall (.fail _ cb) => some cb
  | .asyncUnaryCall (.post _ _ cb) => some cb
  | _ => none

theorem resume_callback (k : Caller) (st : Status) : (k.resume st).callback = k.callback := by
  cases k with
  | connect => rfl
  | call methodId request cb =>
      simp only [Caller.resume]
      split <;> rfl

theorem Requester.resume_callback (r : Requester) : r.resume.callback = r.callCallback := by
  cases r <;> rfl

theorem Move.calls_initial (h : Move cfg s t a s' t' new) : s.calls <+: s'.calls := by
  cases h with
  | call | nestedCall | nestedCallFails => exact List.prefix_append _ _
  | _ => exact List.prefix_refl _

theorem Shared.Knows.mono {cb : Callback} (h : s.Knows cb) (hmove : Move cfg s t a s' t' new) :
    s'.Knows cb := by
  obtain ⟨c, hc, hempty⟩ := h
  exact ⟨c, getElem?_of_initial hmove.calls_initial hc, hempty⟩

/-- The callback is on the strand or in `pending`. -/
def Shared.Keeps (s : Shared) (cb : Callback) : Prop :=
  (∃ methodId request, .submit methodId request cb ∈ s.strand) ∨
    ∃ id, s.pending.lookup id = some cb

theorem Shared.Keeps.of {cb : Callback} (h : s'.Keeps cb)
    (hstrand : ∀ x ∈ s'.strand, x ∈ s.strand)
    (hpending : ∀ id, s'.pending.lookup id = some cb → s.pending.lookup id = some cb) :
    s.Keeps cb := by
  rcases h with ⟨methodId, request, hmem⟩ | ⟨id, hlookup⟩
  · exact Or.inl ⟨methodId, request, hstrand _ hmem⟩
  · exact Or.inr ⟨id, hpending id hlookup⟩

theorem keeps_post {cb : Callback} {x : Handler} (h : (s.post x).Keeps cb) :
    s.Keeps cb ∨ ∃ methodId request, x = .submit methodId request cb := by
  rcases h with ⟨methodId, request, hmem⟩ | hlookup
  · rcases List.mem_append.mp hmem with hmem | hmem
    · exact Or.inl (Or.inl ⟨methodId, request, hmem⟩)
    · exact Or.inr ⟨methodId, request, (List.mem_singleton.mp hmem).symm⟩
  · exact Or.inl (Or.inr hlookup)

theorem lookup_emplace_some {m : Pending} {callId id : UInt32} {cb cb' : Callback}
    (h : (emplace m callId cb).lookup id = some cb') : m.lookup id = some cb' ∨ cb' = cb := by
  unfold emplace at h
  split at h
  · exact Or.inl h
  · by_cases hid : id = callId
    · subst hid
      rw [AList.lookup_insert] at h
      exact Or.inr (Option.some.inj h).symm
    · rw [AList.lookup_insert_ne hid] at h
      exact Or.inl h

/-- A step keeps callbacks where they are, hands them on, or makes a new call. -/
theorem Move.keeps (h : Move cfg s t a s' t' new) {cb : Callback} (hcb : s'.Keeps cb) :
    s.Keeps cb ∨ t.callback = some cb ∨ s'.Knows cb := by
  have same : s.Keeps cb → s.Keeps cb ∨ t.callback = some cb ∨ s'.Knows cb := Or.inl
  have hempty : ∀ id, (∅ : Pending).lookup id = some cb → s.pending.lookup id = some cb := by
    intro id hlookup
    rw [AList.lookup_empty] at hlookup
    cases hlookup
  cases h with
  | nestedCall methodId request isEmpty =>
      rcases keeps_post hcb with hold | ⟨_, _, hnew⟩
      · exact Or.inl hold
      · cases hnew
        exact Or.inr (Or.inr ⟨_, List.getElem?_concat_length, rfl⟩)
  | postRequest | nestedConnect | postShutdown =>
      rcases keeps_post hcb with hold | ⟨_, _, hnew⟩
      · exact Or.inl hold
      · cases hnew
  | postCall methodId request cb' =>
      rcases keeps_post hcb with hold | ⟨_, _, hnew⟩
      · exact Or.inl hold
      · cases hnew
        exact Or.inr (Or.inl rfl)
  | connectRefused cb rest hstrand | connectThere cb rest hstrand | connectWait cb rest hstrand
  | connectSpawn cb rest hstrand | submitStopped m r cb rest hstrand =>
      exact same (hcb.of (fun x hx => hstrand ▸ List.mem_cons_of_mem _ hx) fun _ h => h)
  | submit methodId request cb' rest hstrand | submitSpawn methodId request cb' rest hstrand =>
      rcases hcb with ⟨m, r, hmem⟩ | ⟨id, hlookup⟩
      · exact Or.inl (Or.inl ⟨m, r, hstrand ▸ List.mem_cons_of_mem _ hmem⟩)
      · rcases lookup_emplace_some hlookup with hold | rfl
        · exact Or.inl (Or.inr ⟨id, hold⟩)
        · exact Or.inl (Or.inl ⟨methodId, request, hstrand ▸ List.mem_cons_self⟩)
  | take hdr payload cb' htype hlookup =>
      refine same (hcb.of (fun x hx => hx) fun id hid => ?_)
      by_cases hne : id = hdr.callID
      · subst hne
        rw [AList.lookup_erase] at hid
        cases hid
      · rwa [AList.lookup_erase_ne hne] at hid
  | shutdownHandler rest hstrand =>
      exact same (hcb.of (fun x hx => hstrand ▸ List.mem_cons_of_mem _ hx) hempty)
  | closeIdle | readFailed | pumpFailed => exact same (hcb.of (fun x hx => hx) hempty)
  | _ => exact same hcb

/-- A thread has the callback it had, or is given that of a new call. -/
theorem Move.callback (h : Move cfg s t a s' t' new) {cb : Callback} {v : Thread}
    (hv : v ∈ t' :: new) (hcb : v.callback = some cb) : t.callback = some cb ∨ s'.Knows cb := by
  cases h with
  | call methodId request isEmpty =>
      rcases List.mem_cons.mp hv with rfl | hv
      · cases hcb
      · rw [List.mem_singleton.mp hv] at hcb
        cases hcb
        exact Or.inr ⟨_, List.getElem?_concat_length, rfl⟩
  | checkOK | ensureStopped | waitSet | waitBroken =>
      rw [List.mem_singleton.mp hv, resume_callback] at hcb
      exact Or.inl hcb
  | requestStopped | ioThreadMissing | postRequest =>
      rw [List.mem_singleton.mp hv, Requester.resume_callback] at hcb
      exact Or.inl hcb
  | startIoThread =>
      rcases List.mem_cons.mp hv with rfl | hv
      · exact Or.inl hcb
      · rw [List.mem_singleton.mp hv] at hcb
        cases hcb
  | connect | connectAsync | runCallbacks | destroy | connectSpawn | submitSpawn | connectDone =>
      rcases List.mem_cons.mp hv with rfl | hv
      · cases hcb
      · rw [List.mem_singleton.mp hv] at hcb
        cases hcb
  | checkDown | ensureRequest | requestOpen | ioThreadKept | ioThreadThere =>
      rw [List.mem_singleton.mp hv] at hcb
      exact Or.inl hcb
  | _ =>
      rw [List.mem_singleton.mp hv] at hcb
      cases hcb

/-- Every callback that is still to be called is that of a call. -/
theorem reachable_knows (h : (machine cfg).Reachable initial p) :
    (∀ cb, p.shared.Keeps cb → p.shared.Knows cb) ∧
      ∀ t ∈ p.threads, ∀ cb, t.callback = some cb → p.shared.Knows cb := by
  refine Program.reachable_local (I := fun s => ∀ cb, s.Keeps cb → s.Knows cb)
    (J := fun s t => ∀ cb, t.callback = some cb → s.Knows cb)
    ⟨by simp [initial, Shared.Keeps], by simp [initial, Thread.callback]⟩ ?_ h
  intro u _ s' t t' new rest a _ hI ht hs
  have hmove := step_move hs
  have hthreads : ∀ v ∈ t' :: new, ∀ cb, v.callback = some cb → s'.Knows cb := by
    intro v hv cb hcb
    rcases hmove.callback hv hcb with hold | hnew
    · exact (ht cb hold).mono hmove
    · exact hnew
  refine ⟨fun cb hcb => ?_, hthreads t' List.mem_cons_self,
    fun v hv => hthreads v (List.mem_cons_of_mem t' hv),
    fun v _ hv cb hcb => (hv cb hcb).mono hmove⟩
  rcases hmove.keeps hcb with hold | hold | hnew
  · exact (hI cb hold).mono hmove
  · exact (ht cb hold).mono hmove
  · exact hnew

/-! ## Callbacks in the order of the responses -/

/-- The call has a callback. -/
def Shared.hasCallback (s : Shared) (call : Nat) : Bool := s.calls[call]?.any (!·.isEmpty)

/-- The call has a call id. -/
def Shared.isRegistered (s : Shared) (call : Nat) : Bool := s.registered.any (·.call == call)

/-- The responses read. -/
def Link.responses (l : Link) : List (FrameHeader × Bytes) := l.got.filter isResponse

/-- The reply that a response is to a registered call. -/
def Registration.reply (r : Registration) (f : FrameHeader × Bytes) : Reply :=
  ⟨r.call, responseStatus f.1, responsePayload f.1 f.2⟩

/-- The responses are those to the first registered calls. The callbacks of these calls were
    called with them or are queued, in this order, and those of the others are in
    `pending`. -/
structure Completes (s : Shared) (responses : List (FrameHeader × Bytes)) : Prop where
  replies : s.out.replies.filter (fun x => s.isRegistered x.call) =
    ((s.registered.zip responses).filter fun x => s.hasCallback x.1.call).map
      fun x => x.1.reply x.2
  live : ∀ r ∈ s.registered.drop responses.length,
    ∃ cb, s.pending.lookup r.callId = some cb ∧ cb.call = r.call

theorem isRegistered_eq_false {call : Nat} :
    s.isRegistered call = false ↔ ∀ r ∈ s.registered, r.call ≠ call := by
  simp [Shared.isRegistered]

theorem hasCallback_of_knows {cb : Callback} (h : s.Knows cb) :
    s.hasCallback cb.call = !cb.isEmpty := by
  obtain ⟨c, hc, hempty⟩ := h
  rw [Shared.hasCallback, hc, Option.any_some, hempty]

theorem call_of_mem_replies {cb : Callback} {st : Status} {payload : Bytes} {x : Reply}
    (h : x ∈ cb.replies st payload) : x.call = cb.call := by
  unfold Callback.replies at h
  split at h
  · cases h
  · rw [List.mem_singleton.mp h]

theorem registered_le (h : (machine cfg).Reachable initial p) :
    p.shared.registered.length ≤ p.shared.calls.length := by
  have htickets := reachable_tickets (w := fun _ => 1) h
  simp only [Program.owned, Shared.tickets, Shared.made, List.map_const', List.sum_replicate_nat,
    Nat.mul_one, List.length_range] at htickets
  omega

/-- The ids of fewer than 2^32 calls ascend. -/
theorem registered_ascending (h : (machine cfg).Reachable initial p)
    (hcalls : p.shared.calls.length < 2 ^ 32) :
    p.shared.registered.Pairwise fun r r' => r.callId.toNat < r'.callId.toNat := by
  have hlen : p.shared.callTable.issued.length < 2 ^ 32 := by
    have hle := registered_le h
    rw [Shared.callTable, List.length_map]
    omega
  have hids := (reachable_numbered h).ascending hlen
  rwa [Shared.callTable, List.pairwise_map] at hids

theorem registered_nodup (h : (machine cfg).Reachable initial p)
    (hcalls : p.shared.calls.length < 2 ^ 32) :
    (p.shared.registered.map Registration.callId).Nodup := by
  refine List.pairwise_map.mpr ((registered_ascending h hcalls).imp ?_)
  intro r r' hlt heq
  rw [heq] at hlt
  exact Nat.lt_irrefl _ hlt

/-- The id after some of the first ids is that of the next registration. -/
theorem exists_registered {ids : List UInt32} {id : UInt32}
    (h : ids ++ [id] <+: s.registered.map Registration.callId) :
    ∃ r, s.registered[ids.length]? = some r ∧ r.callId = id := by
  have hget := getElem?_of_initial h List.getElem?_concat_length
  rwa [List.getElem?_map, Option.map_eq_some_iff] at hget

/-- The registered calls have the callbacks they had. -/
theorem filter_hasCallback {l : List (Registration × (FrameHeader × Bytes))}
    (hl : ∀ x ∈ l, x.1.call < s.calls.length) (hcalls : s.calls <+: s'.calls) :
    (l.filter fun x => s'.hasCallback x.1.call) = l.filter fun x => s.hasCallback x.1.call := by
  refine List.filter_congr fun x hx => ?_
  obtain ⟨more, hmore⟩ := hcalls
  rw [Shared.hasCallback, ← hmore, List.getElem?_append_left (hl x hx)]
  rfl

variable {responses : List (FrameHeader × Bytes)}

/-- The calls that have a reply. -/
theorem Completes.calls (h : Completes s responses) :
    (s.out.replies.map Reply.call).filter s.isRegistered =
      (((s.registered.zip responses).map Prod.fst).map Registration.call).filter
        s.hasCallback := by
  have hmap := congrArg (List.map Reply.call) h.replies
  rw [List.map_map] at hmap
  rw [List.filter_map, List.map_map, List.filter_map]
  exact hmap

/-- A step that registers no call and takes none from `pending`. -/
theorem Completes.keep (h : Completes s responses) {extra : List Reply}
    (hregistered : s'.registered = s.registered) (hpending : s'.pending = s.pending)
    (hcalls : s.calls <+: s'.calls) (hmade : ∀ r ∈ s.registered, r.call < s.calls.length)
    (hreplies : s'.out.replies = s.out.replies ++ extra)
    (hextra : ∀ x ∈ extra, s.isRegistered x.call = false) : Completes s' responses := by
  refine ⟨?_, ?_⟩
  · have hsame : s'.isRegistered = s.isRegistered := by
      funext call
      rw [Shared.isRegistered, hregistered, Shared.isRegistered]
    have hnone : extra.filter (fun x => s.isRegistered x.call) = [] :=
      List.filter_eq_nil_iff.mpr fun x hx => Bool.eq_false_iff.mp (hextra x hx)
    rw [hsame, hreplies, List.filter_append, hnone, List.append_nil, h.replies, hregistered,
      filter_hasCallback (fun x hx => hmade x.1 (List.of_mem_zip hx).1) hcalls]
  · rw [hregistered, hpending]
    exact h.live

/-- The next call is registered. -/
theorem Completes.submit (h : Completes s responses) {cb : Callback}
    (hlen : responses.length ≤ s.registered.length)
    (hfree : s.pending.lookup s.nextCallId = none)
    (huntold : ∀ x ∈ s.out.replies, x.call ≠ cb.call)
    (hregistered : s'.registered = s.registered ++ [⟨cb.call, s.nextCallId⟩])
    (hpending : s'.pending = emplace s.pending s.nextCallId cb) (hcalls : s'.calls = s.calls)
    (hout : s'.out = s.out) : Completes s' responses := by
  refine ⟨?_, ?_⟩
  · have hold : s'.out.replies.filter (fun x => s'.isRegistered x.call) =
        s.out.replies.filter fun x => s.isRegistered x.call := by
      rw [hout]
      refine List.filter_congr fun x hx => ?_
      simp [Shared.isRegistered, hregistered, (huntold x hx).symm]
    have hsame : s'.hasCallback = s.hasCallback := by
      funext call
      rw [Shared.hasCallback, hcalls, Shared.hasCallback]
    rw [hold, h.replies, hregistered, zip_append_of_le hlen, hsame]
  · intro r hr
    rw [hregistered, List.drop_append_of_le_length hlen] at hr
    rw [hpending, emplace, hfree]
    rcases List.mem_append.mp hr with hr | hr
    · obtain ⟨cb', hlookup, hcall⟩ := h.live r hr
      have hne : r.callId ≠ s.nextCallId := by
        intro heq
        rw [heq, hfree] at hlookup
        cases hlookup
      exact ⟨cb', (AList.lookup_insert_ne hne).trans hlookup, hcall⟩
    · rw [List.mem_singleton.mp hr]
      exact ⟨cb, AList.lookup_insert _, rfl⟩

theorem Completes.awaits (h : Completes s responses) {r : Registration}
    (hr : s.registered[responses.length]? = some r) :
    s.registered.drop responses.length = r :: s.registered.drop (responses.length + 1) ∧
      ∃ cb, s.pending.lookup r.callId = some cb ∧ cb.call = r.call := by
  obtain ⟨hlt, hget⟩ := List.getElem?_eq_some_iff.mp hr
  have hdrop : s.registered.drop responses.length =
      r :: s.registered.drop (responses.length + 1) := by
    rw [List.drop_eq_getElem_cons hlt, hget]
  exact ⟨hdrop, h.live r (hdrop ▸ List.mem_cons_self)⟩

/-- The response to the next call takes its callback. -/
theorem Completes.take (h : Completes s responses) {r : Registration} {f : FrameHeader × Bytes}
    {cb : Callback} (hr : s.registered[responses.length]? = some r) (hid : r.callId = f.1.callID)
    (hlookup : s.pending.lookup f.1.callID = some cb) (hknows : s.Knows cb)
    (hnodup : (s.registered.map Registration.callId).Nodup)
    (hregistered : s'.registered = s.registered) (hcalls : s'.calls = s.calls)
    (hpending : s'.pending = s.pending.erase f.1.callID)
    (hreplies : s'.out.replies =
      s.out.replies ++ cb.replies (responseStatus f.1) (responsePayload f.1 f.2)) :
    Completes s' (responses ++ [f]) := by
  obtain ⟨hdrop, cb', hlookup', hcall⟩ := h.awaits hr
  rw [hid, hlookup] at hlookup'
  cases hlookup'
  refine ⟨?_, ?_⟩
  · have hsame : s'.isRegistered = s.isRegistered := by
      funext call
      rw [Shared.isRegistered, hregistered, Shared.isRegistered]
    have hcallback : s'.hasCallback = s.hasCallback := by
      funext call
      rw [Shared.hasCallback, hcalls, Shared.hasCallback]
    have hmine : s.isRegistered cb.call = true :=
      List.any_eq_true.mpr ⟨r, List.mem_of_getElem? hr, beq_iff_eq.mpr hcall.symm⟩
    have hnew : (cb.replies (responseStatus f.1) (responsePayload f.1 f.2)).filter
        (fun x => s.isRegistered x.call) =
          cb.replies (responseStatus f.1) (responsePayload f.1 f.2) :=
      List.filter_eq_self.mpr fun x hx => (call_of_mem_replies hx) ▸ hmine
    have hlast : ([(r, f)].filter fun x => s.hasCallback x.1.call).map (fun x => x.1.reply x.2) =
        cb.replies (responseStatus f.1) (responsePayload f.1 f.2) := by
      rw [List.filter_singleton, ← hcall, hasCallback_of_knows hknows, Callback.replies]
      cases cb.isEmpty
      · simp [Registration.reply, hcall]
      · rfl
    rw [hsame, hreplies, List.filter_append, hnew, h.replies, hregistered, hcallback,
      zip_concat hr, List.filter_append, List.map_append, hlast]
  · intro r' hr'
    rw [hregistered, List.length_append] at hr'
    obtain ⟨cb', hlookup', hcall'⟩ := h.live r' (hdrop ▸ List.mem_cons_of_mem r hr')
    have hne : r'.callId ≠ f.1.callID := by
      intro heq
      have hids := hnodup.sublist
        ((List.drop_sublist responses.length s.registered).map Registration.callId)
      rw [hdrop, List.map_cons, List.nodup_cons] at hids
      exact hids.1 (hid.trans heq.symm ▸ List.mem_map_of_mem hr')
    rw [hpending, AList.lookup_erase_ne hne]
    exact ⟨cb', hlookup', hcall'⟩

section Calm

variable {p : Pool (Shared × Link) Thread}

theorem responses_push {l : Link} (header : Bytes) {payload : Bytes} {hdr : FrameHeader}
    (htype : hdr.type = FramePush) :
    (l.follow header (.readFrame (.frame hdr payload)) (.readLoop .reading)).responses =
      l.responses := by
  simp [Link.follow, Link.responses, isResponse, htype, FramePush, FrameResponse]

theorem responses_response {l : Link} (header : Bytes) {payload : Bytes} {hdr : FrameHeader}
    (htype : hdr.type = FrameResponse) :
    (l.follow header (.readFrame (.frame hdr payload)) (.readLoop .reading)).responses =
      l.responses ++ [(hdr, payload)] := by
  simp [Link.follow, Link.responses, isResponse, htype]

/-- The ids of the responses read. -/
def Link.answered (l : Link) : List UInt32 := l.responses.map fun f => f.1.callID

/-- The response after those that were read is to the next registered call. -/
theorem Link.next_registered {l l' : Link} {f : FrameHeader × Bytes}
    (hids : l'.answered <+: s.registered.map Registration.callId)
    (hadd : l'.responses = l.responses ++ [f]) :
    ∃ r, s.registered[l.responses.length]? = some r ∧ r.callId = f.1.callID := by
  rw [Link.answered, hadd, List.map_append] at hids
  obtain ⟨r, hr, hid⟩ := exists_registered hids
  rw [List.length_map] at hr
  exact ⟨r, hr, hid⟩

/-- When the responses are those to the registered calls in their order, the callbacks are
    called with them in that order. -/
theorem completes_step (h : (calmProgram cfg).machine.Reachable linkedInitial p)
    {s' : Shared × Link} (ht : t ∈ p.threads)
    (hs : (calmProgram cfg).step p.shared t a = some (s', t', new))
    (hcalls : p.shared.1.calls.length < 2 ^ 32)
    (hids : s'.2.answered <+: s'.1.registered.map Registration.callId)
    (hold : p.shared.2.answered <+: p.shared.1.registered.map Registration.callId)
    (hI : Completes p.shared.1 p.shared.2.responses) : Completes s'.1 s'.2.responses := by
  obtain ⟨s', l'⟩ := s'
  obtain ⟨hcalm, hlink, hs⟩ := calm_step hs
  obtain rfl : l' = _ := hlink
  have hplain := reachable_of_calm h
  obtain ⟨hopen, -⟩ := calm_open h
  have hmove := step_move hs
  have hinitial := hmove.calls_initial
  have hmade : ∀ r ∈ p.shared.1.registered, r.call < p.shared.1.calls.length :=
    fun r hr => (registered_elsewhere hplain hr).1
  have hqueue : cfg.dispatch = .inline → p.shared.1.out.cbQueue = [] :=
    fun hinline => reachable_cbQueue hinline hplain
  have hlen : p.shared.2.responses.length ≤ p.shared.1.registered.length := by
    simpa [Link.answered] using hold.length_le
  have keep : ∀ {extra : List Reply}, s'.registered = p.shared.1.registered →
      s'.pending = p.shared.1.pending → s'.out.replies = p.shared.1.out.replies ++ extra →
      (∀ x ∈ extra, p.shared.1.isRegistered x.call = false) →
      Completes s' p.shared.2.responses :=
    fun hregistered hpending hreplies hextra =>
      hI.keep hregistered hpending hinitial hmade hreplies hextra
  have same : s'.registered = p.shared.1.registered → s'.pending = p.shared.1.pending →
      s'.out.replies = p.shared.1.out.replies → Completes s' p.shared.2.responses :=
    fun hregistered hpending hreplies =>
      keep hregistered hpending (hreplies.trans (List.append_nil _).symm) (List.forall_mem_nil _)
  cases hmove with
  | submit methodId request cb rest hstrand | submitSpawn methodId request cb rest hstrand =>
      have hmem : .submit methodId request cb ∈ p.plain.shared.strand :=
        hstrand ▸ List.mem_cons_self
      exact hI.submit hlen (lookup_next_eq_none hplain hcalls hstrand)
        (ne_of_untold (untold_of_strand hplain hmem)) rfl rfl rfl rfl
  | take hdr payload cb htype hlookup =>
      obtain ⟨r, hr, hid⟩ :=
        Link.next_registered hids (responses_response cfg.handshakeHeader htype)
      rw [responses_response cfg.handshakeHeader htype]
      exact hI.take hr hid hlookup ((reachable_knows hplain).1 cb (Or.inr ⟨_, hlookup⟩))
        (registered_nodup hplain hcalls) rfl rfl rfl (repliesView.all_postResponse hqueue cb)
  | skip hdr payload hskip =>
      rcases hskip with htype | ⟨htype, hlookup⟩
      · rw [responses_push cfg.handshakeHeader htype]
        exact same rfl rfl rfl
      · -- the response is to a call that is still awaited
        obtain ⟨r, hr, hid⟩ :=
          Link.next_registered hids (responses_response cfg.handshakeHeader htype)
        obtain ⟨-, cb, hsome, -⟩ := hI.awaits hr
        rw [hid] at hsome
        cases hsome.symm.trans hlookup
  | push hdr payload htype =>
      rw [responses_push cfg.handshakeHeader htype]
      exact same rfl rfl ((repliesView.all_postPush hqueue _).trans (List.append_nil _))
  | fail st cb =>
      refine keep rfl rfl (repliesView.all_postResponse hqueue cb) fun x hx => ?_
      rw [call_of_mem_replies hx, isRegistered_eq_false]
      intro r hr heq
      have hnone := (registered_elsewhere hplain hr).2.1 _ ht
      simp [Thread.holds, heq] at hnone
  | nestedCallFails methodId request isEmpty =>
      refine keep rfl rfl (repliesView.all_postResponse hqueue _) fun x hx => ?_
      rw [call_of_mem_replies hx, isRegistered_eq_false]
      intro r hr
      exact Nat.ne_of_lt (hmade r hr)
  | runOne left c rest hcb => exact same rfl rfl (repliesView.all_run hcb)
  | requestStopped | ioThreadMissing =>
      rw [follow_return]
      exact same rfl rfl (repliesView.all_connected _)
  | postRequest =>
      rw [follow_return]
      exact same rfl rfl rfl
  | checkOK | ensureStopped | waitSet | waitBroken =>
      rw [follow_resume]
      exact same rfl rfl rfl
  | connectRefused | connectThere | nestedConnectStopped =>
      exact same rfl rfl (repliesView.all_connected _)
  | connectFailed | connectClosed | connectDone => exact same rfl rfl (repliesView.all_finish _)
  | connectStep pc pc' a hnext => cases hnext <;> exact same rfl rfl rfl
  | readFailed a st ha =>
      -- a failure of the connection
      cases a with
      | readFrame r =>
          cases r with
          | error | throw => cases hcalm
          | frame hdr payload => simp [calm, ha] at hcalm
      | _ => cases ha
  | readThrow | pumpFailed => cases hcalm
  | submitStopped methodId request cb rest hstrand hstopped => cases hopen.symm.trans hstopped
  | shutdownHandler rest hstrand =>
      cases hopen.symm.trans ((reachable_stopping hplain).1 (hstrand ▸ List.mem_cons_self))
  | closeIdle | drain => cases hopen.symm.trans ((reachable_stopping hplain).2 _ ht rfl)
  | _ => exact same rfl rfl rfl

end Calm

end Protocomm.Cpp.Channel
