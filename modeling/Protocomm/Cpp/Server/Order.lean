import Protocomm.Cpp.Server.Line
import Protocomm.Misc.Restrict
import Protocomm.RequestStream

/-!
# The order of the responses of the C++ server

`Run` reads, handles and answers one request at a time, and its responses keep their
order in the line of the session. So the responses written on a session are those to the
requests read from it, in the same order, with pushes in between, and the handlers run
in this order too.
-/

namespace Protocomm.Cpp.Server

open Misc

variable {cfg : Config} {s s' : Shared} {t t' : Thread} {a : Action} {new rest : List Thread}
  {k : Nat} {taken : List (FrameHeader × Bytes)}

/-! ## Reading and calling -/

/-- What the handlers were given for session `k`. -/
def Shared.callsOf (k : Nat) (s : Shared) : List (UInt32 × UInt32 × Bytes) :=
  (s.runs.filter fun r => r.session == k).map fun r => (r.callId, r.methodId, r.request)

/-- The requests read from session `k`. -/
def Shared.requestsOf (k : Nat) (s : Shared) : List (FrameHeader × Bytes) :=
  (s.session k).reads.filter isRequest

/-- A step reads a frame from a session or leaves its frames alone. -/
theorem Move.reads (h : Move cfg s t a s' t' new) (k : Nat) :
    (s'.session k).reads = (s.session k).reads ∨
      ∃ hdr payload, t = .wrapped k .read ∧ a = .readFrame (.ok (hdr, payload)) ∧
        (s'.session k).reads = (s.session k).reads ++ [(hdr, payload)] ∧ new = [] ∧
        t' = .wrapped k
          (if hdr.type = FrameRequest then .lookup hdr payload else .onDisconnect) := by
  cases h with
  | @readOther j session hdr payload hsession htype =>
      by_cases hj : j = k
      · subst hj
        rw [session_set hsession, session_of_some hsession]
        exact Or.inr ⟨hdr, payload, rfl, rfl, rfl, rfl, by rw [if_neg htype]⟩
      · exact Or.inl (congrArg Session.reads (session_set_other hj _))
  | @read j session hdr payload hsession htype =>
      by_cases hj : j = k
      · subst hj
        rw [session_set hsession, session_of_some hsession]
        exact Or.inr ⟨hdr, payload, rfl, rfl, rfl, rfl, by rw [if_pos htype]⟩
      · exact Or.inl (congrArg Session.reads (session_set_other hj _))
  | accept => exact Or.inl (session_accept Session.reads (fun _ => rfl) rfl)
  | send _ _ hsession | close hsession | pick _ _ _ _ _ hsession | enqueue _ _ _ hsession
  | enqueueSpawn _ _ _ hsession | closeSocket _ hsession | insert hsession
  | connectNoHeader hsession | handshakeMismatch _ hsession | handshakeAsk hsession
  | handshakeOK hsession | answerYes hsession | greet _ _ hsession | reply _ _ hsession
  | replyFailed _ hsession | respond _ _ hsession | pumpEnd hsession | pumpNext _ _ _ hsession
  | pumpWrote _ _ _ _ hsession | pumpWritten _ _ _ _ hsession | pumpFailed _ _ _ hsession
  | pumpClear hsession => exact Or.inl (session_set_same Session.reads hsession rfl)
  | _ => exact Or.inl rfl

/-- A step calls a handler for session `k` or leaves its calls alone. -/
theorem Move.callsOf (h : Move cfg s t a s' t' new) (k : Nat) :
    s'.callsOf k = s.callsOf k ∨
      ∃ hdr payload handler, t = .wrapped k (.lookup hdr payload) ∧
        s.handlers.lookup hdr.methodID = some handler ∧
        s'.callsOf k = s.callsOf k ++ [callOf (hdr, payload)] := by
  cases h with
  | call j hdr payload handler hlookup =>
      by_cases hj : j = k
      · subst hj
        exact Or.inr ⟨hdr, payload, handler, rfl, hlookup, by simp [Shared.callsOf, callOf]⟩
      · exact Or.inl (by simp [Shared.callsOf, hj])
  | returned j hdr run response st =>
      -- the result of a run is not part of its call
      have hsplit : ∀ u : Shared, u.callsOf k =
          ((u.runs.map fun r => (r.session, r.callId, r.methodId, r.request)).filter
            fun x => x.1 == k).map Prod.snd := by
        intro u
        simp [Shared.callsOf, List.filter_map, Function.comp_def]
      have hsame : (s.setResult run (response, st)).runs.map
          (fun r => (r.session, r.callId, r.methodId, r.request)) =
          s.runs.map fun r => (r.session, r.callId, r.methodId, r.request) := by
        refine map_modify ?_ s.runs run
        exact fun _ => rfl
      left
      rw [hsplit, hsplit, hsame]
  | _ => exact Or.inl rfl

/-- Only the read of a request leads to its lookup. -/
theorem Move.lookup_new {hdr : FrameHeader} {payload : Bytes} (h : Move cfg s t a s' t' new)
    (hreads : (s'.session k).reads = (s.session k).reads) :
    t' ≠ .wrapped k (.lookup hdr payload) ∧ Thread.wrapped k (.lookup hdr payload) ∉ new := by
  cases h with
  | read hdr payload hsession =>
      refine ⟨?_, List.not_mem_nil⟩
      rintro ⟨⟩
      rw [session_set hsession, session_of_some hsession] at hreads
      simpa using congrArg List.length hreads
  | _ => simp

section

variable (k) (C : List (FrameHeader × Bytes) → List (UInt32 × UInt32 × Bytes) → Prop)

/-- The handlers of the requests `called` were looked up; `wait` is the request whose
    lookup is next. -/
structure Calls (s : Shared) (threads : List Thread) (called wait : List (FrameHeader × Bytes)) :
    Prop where
  requests : s.requestsOf k = called ++ wait
  calls : C called (s.callsOf k)
  atLookup : ∀ hdr payload, Thread.wrapped k (.lookup hdr payload) ∈ threads →
    wait = [(hdr, payload)]
  elsewhere : (∀ hdr payload, Thread.wrapped k (.lookup hdr payload) ∉ threads) → wait = []

end

variable {C : List (FrameHeader × Bytes) → List (UInt32 × UInt32 × Bytes) → Prop}
  {called wait : List (FrameHeader × Bytes)}

theorem Move.calls (h : Move cfg s t a s' t' new) (hC : Calls k C s (t :: rest) called wait)
    (halone : t.wraps k = 1 → ∀ v ∈ rest, v.wraps k = 0)
    (hmiss : ∀ hdr payload, t = .wrapped k (.lookup hdr payload) →
      s.handlers.lookup hdr.methodID = none → ∀ l c, C l c → C (l ++ [(hdr, payload)]) c)
    (hcall : ∀ hdr payload handler, t = .wrapped k (.lookup hdr payload) →
      s.handlers.lookup hdr.methodID = some handler →
      ∀ l c, C l c → C (l ++ [(hdr, payload)]) (c ++ [callOf (hdr, payload)])) :
    ∃ called' wait', Calls k C s' (t' :: (new ++ rest)) called' wait' := by
  have hrest : t.wraps k = 1 → ∀ hdr payload, Thread.wrapped k (.lookup hdr payload) ∉ rest := by
    intro hone hdr payload hmem
    simpa [Thread.wraps] using halone hone _ hmem
  rcases h.reads k with hreads | ⟨hdr, payload, rfl, rfl, hadd, rfl, rfl⟩
  · have hrequests : s'.requestsOf k = s.requestsOf k := congrArg (List.filter _) hreads
    have hafter : ∀ hdr payload, Thread.wrapped k (.lookup hdr payload) ∈ t' :: (new ++ rest) →
        Thread.wrapped k (.lookup hdr payload) ∈ rest := by
      intro hdr payload hmem
      obtain ⟨ht', hnew⟩ := h.lookup_new hreads
      rcases List.mem_cons.mp hmem with hmem | hmem
      · exact absurd hmem.symm ht'
      · exact (List.mem_append.mp hmem).resolve_left hnew
    by_cases hlook : ∃ hdr payload, t = .wrapped k (.lookup hdr payload)
    · -- the request that waits is looked up
      obtain ⟨hdr, payload, rfl⟩ := hlook
      have hnone := hrest (if_pos rfl)
      have hwait := hC.atLookup hdr payload List.mem_cons_self
      refine ⟨called ++ [(hdr, payload)], [], ?_, ?_, fun hdr' payload' hmem => ?_, fun _ => rfl⟩
      · rw [hrequests, hC.requests, hwait, List.append_nil]
      · cases h with
        | miss j hdr payload hlookup => exact hmiss hdr payload rfl hlookup _ _ hC.calls
        | call j hdr payload handler hlookup =>
            have hcalled := hcall hdr payload handler rfl hlookup _ _ hC.calls
            simpa [Shared.callsOf, callOf] using hcalled
      · exact absurd (hafter hdr' payload' hmem) (hnone hdr' payload')
    · have hcalls : s'.callsOf k = s.callsOf k := by
        rcases h.callsOf k with hcalls | ⟨hdr, payload, -, rfl, -⟩
        · exact hcalls
        · exact absurd ⟨hdr, payload, rfl⟩ hlook
      refine ⟨called, wait, hrequests.trans hC.requests, hcalls ▸ hC.calls,
        fun hdr payload hmem => ?_, fun hnone => hC.elsewhere fun hdr payload hmem => ?_⟩
      · exact hC.atLookup hdr payload (List.mem_cons_of_mem t (hafter hdr payload hmem))
      · rcases List.mem_cons.mp hmem with hmem | hmem
        · exact hlook ⟨hdr, payload, hmem.symm⟩
        · exact hnone hdr payload (List.mem_cons_of_mem _ (List.mem_append_right _ hmem))
  · -- a frame is read
    have hnone := hrest (if_pos rfl)
    have hcalls : s'.callsOf k = s.callsOf k := by
      rcases h.callsOf k with hcalls | ⟨_, _, _, hbad, -⟩
      · exact hcalls
      · cases hbad
    have hwait : wait = [] := by
      refine hC.elsewhere fun hdr' payload' hmem => ?_
      rcases List.mem_cons.mp hmem with hmem | hmem
      · cases hmem
      · exact hnone hdr' payload' hmem
    subst hwait
    by_cases htype : hdr.type = FrameRequest
    · refine ⟨called, [(hdr, payload)], ?_, hcalls ▸ hC.calls, fun hdr' payload' hmem => ?_,
        fun hbad => ?_⟩
      · have hrequests := hC.requests
        rw [Shared.requestsOf, List.append_nil] at hrequests
        rw [Shared.requestsOf, hadd, List.filter_append, hrequests]
        simp [isRequest, htype]
      · rw [if_pos htype] at hmem
        rcases List.mem_cons.mp hmem with hmem | hmem
        · cases hmem
          rfl
        · exact absurd hmem (hnone hdr' payload')
      · rw [if_pos htype] at hbad
        exact absurd List.mem_cons_self (hbad hdr payload)
    · refine ⟨called, [], ?_, hcalls ▸ hC.calls, fun hdr' payload' hmem => ?_, fun _ => rfl⟩
      · rw [Shared.requestsOf, hadd, List.filter_append]
        simpa [isRequest, htype, Shared.requestsOf] using hC.requests
      · rw [if_neg htype] at hmem
        rcases List.mem_cons.mp hmem with hmem | hmem
        · cases hmem
        · exact absurd hmem (hnone hdr' payload')

/-! ## Answering -/

section

variable {β : Type} (k) (keep : FrameHeader × Bytes → Bool) (key key' : FrameHeader × Bytes → β)
  (calm : Prop)

/-- `busy` is the request in the hands of `Run`. What is looked at of a request and of its
    response is the same: `key'` of the one is `key` of the other. In a `calm` run no
    exception leaves `Run`. -/
def Running.Holds (runs : List Run) (busy : List (FrameHeader × Bytes)) : Running → Prop
  | .lookup hdr payload => busy = [(hdr, payload)]
  | .running hdr run => ∃ r, runs[run]? = some r ∧ busy = [(hdr, r.request)]
  | .respond hdr payload =>
      ∃ req, busy = [req] ∧ hdr.type = FrameResponse ∧ key (hdr, payload) = key' req
  | .unwind => ¬ calm
  | _ => busy = []

def Thread.Holds (runs : List Run) (busy : List (FrameHeader × Bytes)) : Thread → Prop
  | .acceptLoop (.insert j) => j = k → busy = []
  | .wrapped j pc => j = k → pc.Holds key key' calm runs busy
  | _ => True

/-- What a step gives session `k` to send is what its request asks for. -/
structure Fits (s : Shared) (t : Thread) (a : Action) : Prop where
  keeps : ∀ f : FrameHeader × Bytes, f.1.type = FrameResponse → keep f = true
  others : t.wraps k = 0 → (t.posts k a).filter keep = []
  calm : t.wraps k = 1 → calm → a ≠ .threw
  miss : ∀ hdr payload, t = .wrapped k (.lookup hdr payload) →
    s.handlers.lookup hdr.methodID = none →
    key (responseHeader hdr StatusCode.Unimplemented [], []) = key' (hdr, payload)
  returned : ∀ hdr run response st r, t = .wrapped k (.running hdr run) →
    a = .returned response st → s.runs[run]? = some r →
    key (responseHeader hdr (Server.respond response st).1 (Server.respond response st).2,
      (Server.respond response st).2) = key' (hdr, r.request)

/-- The requests `handled` of session `k` were given their responses, which are the frames
    to `keep`. -/
structure Answers (s : Shared) (threads : List Thread)
    (taken handled busy : List (FrameHeader × Bytes)) : Prop where
  pumped : Taken k (s.session k) threads taken
  requests : s.requestsOf k = handled ++ busy
  line : (((s.session k).line taken).filter keep).map key = handled.map key'
  hand : ∀ t ∈ threads, t.Holds k key key' calm s.runs busy
  free : calm → (∀ t ∈ threads, t.wraps k = 0) → busy = []

end

variable {β : Type} {keep : FrameHeader × Bytes → Bool} {key key' : FrameHeader × Bytes → β}
  {calm : Prop}
  {handled busy : List (FrameHeader × Bytes)} {runs : List Run}

theorem Thread.Holds.of_unwrapped (h : t.wraps k = 0) : t.Holds k key key' calm runs busy := by
  cases t with
  | acceptLoop pc =>
      cases pc with
      | accept => trivial
      | insert j => exact fun hj => absurd h (by simp [Thread.wraps, hj])
  | wrapped j pc => exact fun hj => absurd h (by simp [Thread.wraps, hj])
  | _ => trivial

/-- A run keeps its request. -/
theorem Move.run_request {run : Nat} {r : Run} (h : Move cfg s t a s' t' new)
    (hr : s.runs[run]? = some r) : ∃ r', s'.runs[run]? = some r' ∧ r'.request = r.request := by
  cases h with
  | call => exact ⟨r, getElem?_of_initial (List.prefix_append _ _) hr, rfl⟩
  | returned j hdr run' =>
      refine ⟨_, by rw [Shared.setResult, List.getElem?_modify, hr]; rfl, ?_⟩
      split <;> rfl
  | _ => exact ⟨r, hr, rfl⟩

theorem Thread.Holds.frame {v : Thread} (hv : v.Holds k key key' calm s.runs busy)
    (h : Move cfg s t a s' t' new) : v.Holds k key key' calm s'.runs busy := by
  cases v with
  | wrapped j pc =>
      intro hj
      have hpc := hv hj
      cases pc with
      | running hdr run =>
          obtain ⟨r, hr, hbusy⟩ := hpc
          obtain ⟨r', hr', hsame⟩ := h.run_request hr
          exact ⟨r', hr', hsame ▸ hbusy⟩
      | _ => exact hpc
  | acceptLoop pc => cases pc <;> exact hv
  | _ => trivial

/-- A step of `Run` for session `k`: it reads `added`, answers `answered` and goes on with
    `busy'`. -/
theorem Move.serve (h : Move cfg s t a s' t' new) (hwraps : t.wraps k = 1)
    (ht : t.Holds k key key' calm s.runs busy) (hfits : Fits k keep key key' calm s t a) :
    ∃ added answered busy', s'.requestsOf k = s.requestsOf k ++ added ∧
      busy ++ added = answered ++ busy' ∧
      ((t.posts k a).filter keep).map key = answered.map key' ∧
      t'.Holds k key key' calm s'.runs busy' ∧
      (∀ v ∈ new, v.Holds k key key' calm s'.runs busy') ∧
      (calm → t'.wraps k = 0 → (∀ v ∈ new, v.wraps k = 0) → busy' = []) := by
  have hnil : ∀ v ∈ ([] : List Thread), v.Holds k key key' calm s'.runs busy :=
    List.forall_mem_nil _
  rcases h.reads k with hreads | ⟨hdr, payload, rfl, rfl, hadd, rfl, rfl⟩
  · have hrequests : s'.requestsOf k = s.requestsOf k ++ [] := by
      rw [List.append_nil]
      exact congrArg (List.filter _) hreads
    have hsame : busy ++ [] = [] ++ busy := List.append_nil busy
    cases h with
    | insert hsession =>
        exact ⟨[], [], busy, hrequests, hsame, rfl, trivial, List.forall_mem_singleton.mpr ht,
          fun _ _ hnone =>
            absurd (hnone _ List.mem_cons_self) (by simpa [Thread.wraps] using hwraps)⟩
    | connectNoHeader | connect | handshakeFailed | handshakeMismatch | handshakeAsk | handshakeOK
    | answerYes | answerNo | greet | reply | replyFailed | readFailed | onDisconnect =>
        have hk := eq_of_wraps hwraps
        exact ⟨[], [], busy, hrequests, hsame, rfl, ht, hnil, fun _ hbad =>
          absurd hbad (by simp [Thread.wraps, hk])⟩
    | connectThrow | erase =>
        exact ⟨[], [], busy, hrequests, hsame, rfl, trivial, hnil, fun _ _ _ =>
          ht (eq_of_wraps hwraps)⟩
    | unwind =>
        exact ⟨[], [], busy, hrequests, hsame, rfl, trivial, hnil, fun hcalm _ _ =>
          absurd hcalm (ht (eq_of_wraps hwraps))⟩
    | answerThrow | readThrow | callThrow | traceThrow =>
        exact ⟨[], [], busy, hrequests, hsame, rfl, fun _ hc => hfits.calm hwraps hc rfl, hnil,
          fun hc => absurd rfl (hfits.calm hwraps hc)⟩
    | readOther hdr payload hsession | read hdr payload hsession =>
        obtain rfl := eq_of_wraps hwraps
        rw [session_set hsession, session_of_some hsession] at hreads
        simpa using congrArg List.length hreads
    | miss j hdr payload hlookup =>
        obtain rfl := eq_of_wraps hwraps
        refine ⟨[], [], busy, hrequests, hsame, rfl, fun _ => ?_, hnil, fun _ hbad =>
          absurd hbad (by simp [Thread.wraps])⟩
        exact ⟨_, ht rfl, rfl, hfits.miss hdr payload rfl hlookup⟩
    | call j hdr payload handler =>
        obtain rfl := eq_of_wraps hwraps
        refine ⟨[], [], busy, hrequests, hsame, rfl, fun _ => ?_, hnil, fun _ hbad =>
          absurd hbad (by simp [Thread.wraps])⟩
        exact ⟨_, List.getElem?_concat_length, ht rfl⟩
    | returned j hdr run response st =>
        obtain rfl := eq_of_wraps hwraps
        obtain ⟨r, hr, hbusy⟩ := ht rfl
        refine ⟨[], [], busy, hrequests, hsame, rfl, fun _ => ?_, hnil, fun _ hbad =>
          absurd hbad (by simp [Thread.wraps])⟩
        exact ⟨_, hbusy, rfl, hfits.returned hdr run response st r rfl rfl hr⟩
    | respond hdr payload hsession =>
        obtain rfl := eq_of_wraps hwraps
        obtain ⟨req, rfl, htype, hkey⟩ := ht rfl
        refine ⟨[], [req], [], hrequests, rfl, ?_, fun _ => rfl, List.forall_mem_nil _,
          fun _ _ _ => rfl⟩
        simp [Thread.posts, hfits.keeps (hdr, payload) htype, hkey]
    | _ => simp [Thread.wraps] at hwraps
  · -- a frame is read while no request is in hand
    have hbusy : busy = [] := ht rfl
    subst hbusy
    have hrequests : s'.requestsOf k = s.requestsOf k ++ [(hdr, payload)].filter isRequest := by
      rw [Shared.requestsOf, hadd, List.filter_append, Shared.requestsOf]
    refine ⟨_, [], _, hrequests, rfl, rfl, fun _ => ?_, List.forall_mem_nil _, ?_⟩
    · by_cases htype : hdr.type = FrameRequest
      · simp [htype, Running.Holds, isRequest]
      · simp [htype, Running.Holds, isRequest]
    · intro _ hbad
      simp [Thread.wraps] at hbad

/-- `Broadcast` sends pushes. -/
def Thread.Pushes : Thread → Prop
  | .broadcast hdr _ _ => hdr.type = FramePush
  | _ => True

theorem reachable_pushes {p : Pool Shared Thread} (hreach : (machine cfg).Reachable initial p) :
    ∀ t ∈ p.threads, t.Pushes := by
  refine (Program.reachable_local (P := program cfg) (I := fun _ => True)
    (J := fun _ t => t.Pushes) ⟨trivial, by simp [initial, Thread.Pushes]⟩ ?_ hreach).2
  intro u _ s' t t' new rest a _ _ ht hs
  suffices h : t'.Pushes ∧ ∀ v ∈ new, v.Pushes from ⟨trivial, h.1, h.2, fun _ _ hv => hv⟩
  cases (step_move hs).2 with
  | pick => exact ⟨ht, List.forall_mem_nil _⟩
  | broadcast => exact ⟨trivial, List.forall_mem_singleton.mpr rfl⟩
  | enqueueSpawn | insert => exact ⟨trivial, List.forall_mem_singleton.mpr trivial⟩
  | _ => exact ⟨trivial, List.forall_mem_nil _⟩

/-- Only `Run` gives responses to its session. -/
theorem filter_posts (ht : t.Pushes) (hwraps : t.wraps k = 0) :
    (t.posts k a).filter isResponse = [] := by
  unfold Thread.posts
  split
  · split <;> rfl
  · rename_i hdr payload todo i
    have hpush : hdr.type = FramePush := ht
    split
    · simp [isResponse, hpush, FramePush, FrameResponse]
    · rfl
  · rename_i j hdr payload
    have hj : j ≠ k := by
      rintro rfl
      simp [Thread.wraps] at hwraps
    rw [if_neg hj]
    rfl
  · rfl

/-- Another thread may at most accept the session, of which nothing was read yet. -/
theorem Move.holds_other (h : Move cfg s t a s' t' new) (hwraps : t.wraps k = 0)
    (hnew : k = s.made.length → busy = []) :
    (t'.Holds k key key' calm s'.runs busy ∧ ∀ v ∈ new, v.Holds k key key' calm s'.runs busy) := by
  rcases h.length_made with hlen | ⟨-, rfl, rfl, -⟩
  · have hle := h.wraps_le hlen k
    rw [hwraps] at hle
    refine ⟨.of_unwrapped (by omega), fun v hv => .of_unwrapped ?_⟩
    have hsum := le_sum_map (f := Thread.wraps k) hv
    omega
  · exact ⟨fun hk => hnew hk.symm, List.forall_mem_nil _⟩

theorem Move.answers (h : Move cfg s t a s' t' new)
    (hA : Answers k keep key key' calm s (t :: rest) taken handled busy)
    (hpump : t.pumps k = 1 → a ≠ .writeFailed ∧ (s.session k).writePumpActive = true ∧
      ∀ v ∈ rest, v.pumps k = 0)
    (halone : t.wraps k = 1 → ∀ v ∈ rest, v.wraps k = 0)
    (hfits : Fits k keep key key' calm s t a) :
    ∃ taken' handled' busy',
      Answers k keep key key' calm s' (t' :: (new ++ rest)) taken' handled' busy' := by
  obtain ⟨taken', hT, hline⟩ := h.line hA.pumped hpump
  have ht := hA.hand t List.mem_cons_self
  have hrest : ∀ v ∈ rest, v.Holds k key key' calm s'.runs busy := fun v hv =>
    (hA.hand v (List.mem_cons_of_mem t hv)).frame h
  by_cases hwraps : t.wraps k = 0
  · have hreads : s'.requestsOf k = s.requestsOf k := by
      rcases h.reads k with hreads | ⟨hdr, payload, rfl, -⟩
      · exact congrArg (List.filter _) hreads
      · simp [Thread.wraps] at hwraps
    have hnew : k = s.made.length → busy = [] := by
      intro hk
      have hrequests := hA.requests
      rw [Shared.requestsOf, Shared.session, List.getElem?_eq_none (Nat.le_of_eq hk.symm)]
        at hrequests
      exact (List.append_eq_nil_iff.mp hrequests.symm).2
    obtain ⟨ht', hnew'⟩ := h.holds_other hwraps hnew
    refine ⟨taken', handled, busy, hT, hreads.trans hA.requests, ?_,
      List.forall_mem_cons.mpr ⟨ht', List.forall_mem_append.mpr ⟨hnew', hrest⟩⟩,
      fun hc hnone => hA.free hc (List.forall_mem_cons.mpr ⟨hwraps, fun v hv => ?_⟩)⟩
    · rw [hline, List.filter_append, hfits.others hwraps, List.append_nil, hA.line]
    · exact hnone v (List.mem_cons_of_mem _ (List.mem_append_right _ hv))
  · have hone := wraps_eq_one hwraps
    obtain ⟨added, answered, busy', hrequests, hbusy, hposts, ht', hnew, hover⟩ :=
      h.serve hone ht hfits
    refine ⟨taken', handled ++ answered, busy', hT, ?_, ?_, List.forall_mem_cons.mpr
      ⟨ht', List.forall_mem_append.mpr ⟨hnew, fun v hv => .of_unwrapped (halone hone v hv)⟩⟩,
      fun hc hnone => hover hc ?_ fun v hv => ?_⟩
    · rw [hrequests, hA.requests, List.append_assoc, hbusy, List.append_assoc]
    · rw [hline, List.filter_append, List.map_append, hA.line, hposts, List.map_append]
    · exact hnone t' List.mem_cons_self
    · exact hnone v (List.mem_cons_of_mem _ (List.mem_append_left _ hv))

/-! ## Whole runs -/

/-- In the runs whose steps are `good`, the `WritePump` of session `k` does not fail, only
    its `Run` gives it frames to `keep`, and what is looked at of a response is what its
    request asks for. -/
structure Serves {β : Type} (cfg : Config) (good : Shared → Thread → Action → Bool) (k : Nat)
    (keep : FrameHeader × Bytes → Bool) (key key' : FrameHeader × Bytes → β) (calm : Prop) :
    Prop where
  keeps : ∀ f : FrameHeader × Bytes, f.1.type = FrameResponse → keep f = true
  others : ∀ p, ((program cfg).restrict good).machine.Reachable initial p →
    ∀ t ∈ p.threads, ∀ a, good p.shared t a = true → t.wraps k = 0 →
      (t.posts k a).filter keep = []
  writes : ∀ s pc, good s (.writePump k pc) .writeFailed = false
  calm : calm → ∀ s pc, good s (.wrapped k pc) .threw = false
  miss : ∀ p, ((program cfg).restrict good).machine.Reachable initial p →
    ∀ hdr payload, .wrapped k (.lookup hdr payload) ∈ p.threads →
      p.shared.handlers.lookup hdr.methodID = none →
      key (responseHeader hdr StatusCode.Unimplemented [], []) = key' (hdr, payload)
  returned : ∀ p, ((program cfg).restrict good).machine.Reachable initial p →
    ∀ hdr run response st r, .wrapped k (.running hdr run) ∈ p.threads →
      p.shared.runs[run]? = some r →
      good p.shared (.wrapped k (.running hdr run)) (.returned response st) = true →
      key (responseHeader hdr (Server.respond response st).1 (Server.respond response st).2,
        (Server.respond response st).2) = key' (hdr, r.request)

variable {good : Shared → Thread → Action → Bool} {p : Pool Shared Thread}

theorem pumps_alone (hreach : (machine cfg).Reachable initial p)
    (hperm : p.threads.Perm (t :: rest)) (ht : t.pumps k = 1) :
    (p.shared.session k).writePumpActive = true ∧ ∀ v ∈ rest, v.pumps k = 0 := by
  have howned := reachable_pumps k hreach
  refine ⟨?_, fun v hv => Program.owned_unique (Nat.le_of_eq howned) hperm ht hv⟩
  have hmem : t ∈ p.threads := hperm.mem_iff.mpr List.mem_cons_self
  cases hk : p.shared.made[k]? with
  | none =>
      have hle := (Program.add_le_owned hmem).trans howned.le
      simp [Shared.inactive, hk, ht] at hle
  | some session =>
      rw [session_of_some hk]
      exact active_of_pumps hreach hmem ht hk

/-- The responses given to session `k` are those to the first requests read from it, in
    their order. -/
theorem Serves.answers (hserves : Serves cfg good k keep key key' calm)
    (hreach : ((program cfg).restrict good).machine.Reachable initial p) :
    ∃ taken handled busy, Answers k keep key key' calm p.shared p.threads taken handled busy := by
  refine Program.reachable_bag (P := (program cfg).restrict good) (K := fun s l =>
    ∃ taken handled busy, Answers k keep key key' calm s l taken handled busy) ?_ ?_ ?_ hreach
  · rintro s l l' hl ⟨taken, handled, busy, hA⟩
    exact ⟨taken, handled, busy,
      ⟨hA.pumped.idle, fun pc hpc => hA.pumped.pump pc (hl.mem_iff.mpr hpc)⟩, hA.requests, hA.line,
      fun t ht => hA.hand t (hl.mem_iff.mpr ht),
      fun hc hnone => hA.free hc fun t ht => hnone t (hl.mem_iff.mp ht)⟩
  · exact ⟨[], [], [], ⟨fun _ => rfl, by simp [initial]⟩, rfl, rfl,
      by simp [initial, Thread.Holds], fun _ _ => rfl⟩
  · rintro u hu s' t t' new rest a hperm ⟨taken, handled, busy, hA⟩ hs
    obtain ⟨hgood, hs⟩ := Program.restrict_step.mp hs
    have hplain := Program.reachable_of_restrict hu
    have ht : t ∈ u.threads := hperm.mem_iff.mpr List.mem_cons_self
    have hmove : Move cfg u.shared t a s' t' new := (step_move hs).2
    refine hmove.answers hA (fun hone => ⟨?_, pumps_alone hplain hperm hone⟩)
      (fun hone => wraps_unique hplain hperm hone)
      ⟨hserves.keeps, hserves.others u hu t ht a hgood, ?_, ?_, ?_⟩
    · rintro rfl
      cases t with
      | writePump j pc =>
          obtain rfl := eq_of_pumps hone
          cases (hserves.writes _ _).symm.trans hgood
      | _ => cases hone
    · rintro hone hc rfl
      cases t with
      | wrapped j pc =>
          obtain rfl := eq_of_wraps hone
          cases (hserves.calm hc _ _).symm.trans hgood
      | acceptLoop pc => cases hmove
      | _ => cases hone
    · rintro hdr payload rfl hlookup
      exact hserves.miss u hu hdr payload ht hlookup
    · rintro hdr run response st r rfl rfl hr
      exact hserves.returned u hu hdr run response st r ht hr hgood

/-- The handlers are called for the first requests read from session `k`, in their
    order. -/
theorem reachable_calls (hempty : C [] [])
    (hmiss : ∀ p, ((program cfg).restrict good).machine.Reachable initial p →
      ∀ hdr payload, .wrapped k (.lookup hdr payload) ∈ p.threads →
        p.shared.handlers.lookup hdr.methodID = none →
        ∀ l c, C l c → C (l ++ [(hdr, payload)]) c)
    (hcall : ∀ p, ((program cfg).restrict good).machine.Reachable initial p →
      ∀ hdr payload handler, .wrapped k (.lookup hdr payload) ∈ p.threads →
        p.shared.handlers.lookup hdr.methodID = some handler →
        ∀ l c, C l c → C (l ++ [(hdr, payload)]) (c ++ [callOf (hdr, payload)]))
    (hreach : ((program cfg).restrict good).machine.Reachable initial p) :
    ∃ called wait, Calls k C p.shared p.threads called wait := by
  refine Program.reachable_bag (P := (program cfg).restrict good) (K := fun s l =>
    ∃ called wait, Calls k C s l called wait) ?_ ?_ ?_ hreach
  · rintro s l l' hl ⟨called, wait, hC⟩
    exact ⟨called, wait, hC.requests, hC.calls,
      fun hdr payload hmem => hC.atLookup hdr payload (hl.mem_iff.mpr hmem),
      fun hnone => hC.elsewhere fun hdr payload hmem => hnone hdr payload (hl.mem_iff.mp hmem)⟩
  · exact ⟨[], [], rfl, hempty, by simp [initial], fun _ => rfl⟩
  · rintro u hu s' t t' new rest a hperm ⟨called, wait, hC⟩ hs
    obtain ⟨-, hs⟩ := Program.restrict_step.mp hs
    have ht : t ∈ u.threads := hperm.mem_iff.mpr List.mem_cons_self
    refine (step_move hs).2.calls hC
      (fun hone => wraps_unique (Program.reachable_of_restrict hu) hperm hone) ?_ ?_
    · rintro hdr payload rfl
      exact hmiss u hu hdr payload ht
    · rintro hdr payload handler rfl
      exact hcall u hu hdr payload handler ht

end Protocomm.Cpp.Server
