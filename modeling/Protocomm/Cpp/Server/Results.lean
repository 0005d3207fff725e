import Protocomm.Cpp.Server.Wire

/-!
# The responses of the C++ server

Every response given to a session is what the handler returned for a request of this
session, or says that the method of a request has no handler.
-/

namespace Protocomm.Cpp.Server

open Misc

/-- The header of the request that a handler was called for. -/
def Run.header (run : Run) : FrameHeader :=
  { type := FrameRequest, callID := run.callId, methodID := run.methodId,
    payloadSize := UInt32.ofNat run.request.length }

/-- The response when the handler has returned. -/
def Run.response (run : Run) (response : Bytes) (st : Status) : FrameHeader × Bytes :=
  (responseHeader run.header (respond response st).1 (respond response st).2,
    (respond response st).2)

/-- The response to a request without a handler. -/
def Miss.response (miss : Miss) : FrameHeader × Bytes :=
  (responseHeader ⟨FrameRequest, 0, miss.callId, miss.methodId, 0⟩ StatusCode.Unimplemented [], [])

/-- A frame is the response of a handler for session `k`, or says that there is none. -/
def Explained (k : Nat) (s : Shared) (f : FrameHeader × Bytes) : Prop :=
  (∃ run ∈ s.runs, run.session = k ∧
    ∃ response st, run.result = some (response, st) ∧ f = run.response response st) ∨
  ∃ miss ∈ s.misses, miss.session = k ∧ f = miss.response

/-- What a coroutine that handles a request knows about it. -/
def Thread.Works (s : Shared) : Thread → Prop
  | .wrapped k (.running hdr run) => ∃ r, s.runs[run]? = some r ∧ r.session = k ∧
      r.callId = hdr.callID ∧ r.methodId = hdr.methodID ∧ r.result = none
  | .wrapped k (.respond hdr payload) => Explained k s (hdr, payload)
  | _ => True

variable {cfg : Config} {p : Pool Shared Thread} {s s' : Shared} {t t' : Thread} {a : Action}
  {new : List Thread} {k : Nat}

/-- A run that has returned stays as it is. -/
theorem Move.run_mem {run : Run} (h : Move cfg s t a s' t' new) (ht : t.Works s)
    (hrun : run ∈ s.runs) (hresult : run.result ≠ none) : run ∈ s'.runs := by
  cases h with
  | call => exact List.mem_append_left _ hrun
  | returned j hdr i response st =>
      obtain ⟨r, hr, -, -, -, hnone⟩ := ht
      obtain ⟨i', hi'⟩ := List.mem_iff_getElem?.mp hrun
      have hne : i ≠ i' := by
        rintro rfl
        cases hr.symm.trans hi'
        exact hresult hnone
      refine List.mem_of_getElem? (i := i') ?_
      rw [Shared.setResult, List.getElem?_modify, hi', Option.map_eq_map, Option.map_some,
        if_neg hne]
  | _ => exact hrun

theorem Move.explained {f : FrameHeader × Bytes} (h : Move cfg s t a s' t' new) (ht : t.Works s)
    (hf : Explained k s f) : Explained k s' f := by
  rcases hf with ⟨run, hrun, hk, response, st, hresult, rfl⟩ | ⟨miss, hmiss, hk, rfl⟩
  · exact Or.inl ⟨run, h.run_mem ht hrun (by simp [hresult]), hk, response, st, hresult, rfl⟩
  · refine Or.inr ⟨miss, ?_, hk, rfl⟩
    cases h with
    | miss => exact List.mem_append_left _ hmiss
    | _ => exact hmiss

/-- A handler that runs is not disturbed by another. -/
theorem Move.running_mem {run : Nat} {r : Run} (h : Move cfg s t a s' t' new)
    (hother : ∀ hdr, t ≠ .wrapped r.session (.running hdr run)) (ht : t.Works s)
    (hr : s.runs[run]? = some r) : s'.runs[run]? = some r := by
  cases h with
  | call => exact getElem?_of_initial (List.prefix_append _ _) hr
  | returned j hdr i response st =>
      obtain ⟨r', hr', hj, -, -, -⟩ := ht
      have hne : i ≠ run := by
        rintro rfl
        cases hr.symm.trans hr'
        exact hother hdr (by rw [hj])
      rw [Shared.setResult, List.getElem?_modify, hr, Option.map_eq_map, Option.map_some,
        if_neg hne]
  | _ => exact hr

/-- What a step knows of its own request. -/
theorem Move.works (h : Move cfg s t a s' t' new) (ht : t.Works s) :
    ∀ v ∈ t' :: new, v.Works s' := by
  have one : ∀ {v : Thread}, v.Works s' → ∀ v' ∈ [v], v'.Works s' :=
    fun hv => List.forall_mem_singleton.mpr hv
  have two : ∀ {v w : Thread}, v.Works s' → w.Works s' → ∀ v' ∈ [v, w], v'.Works s' :=
    fun hv hw => List.forall_mem_cons.mpr ⟨hv, List.forall_mem_singleton.mpr hw⟩
  cases h with
  | call k hdr payload handler hlookup =>
      exact one ⟨_, List.getElem?_concat_length, rfl, rfl, rfl, rfl⟩
  | miss k hdr payload hlookup =>
      exact one (Or.inr ⟨_, List.mem_append_right _ List.mem_cons_self, rfl, rfl⟩)
  | returned k hdr run response st =>
      obtain ⟨r, hr, hk, hcall, hmethod, -⟩ := ht
      refine one (Or.inl ⟨{ r with result := some (response, st) }, ?_, hk, response, st, rfl, ?_⟩)
      · refine List.mem_of_getElem? (i := run) ?_
        rw [Shared.setResult, List.getElem?_modify, hr, Option.map_eq_map, Option.map_some,
          if_pos rfl]
      · simp only [Run.response, Run.header, responseHeader, hcall, hmethod]
  | broadcast | enqueueSpawn | insert => exact two trivial trivial
  | _ => exact one trivial

theorem reachable_works (h : (machine cfg).Reachable initial p) :
    ∀ t ∈ p.threads, t.Works p.shared := by
  refine (Program.reachable_local (P := program cfg) (I := fun _ => True)
    (J := fun s t => t.Works s) ⟨trivial, by simp [initial, Thread.Works]⟩ ?_ h).2
  intro u hu s' t t' new rest a hperm _ ht hs
  have hmove : Move cfg u.shared t a s' t' new := (step_move hs).2
  have hmine := hmove.works ht
  refine ⟨trivial, hmine t' List.mem_cons_self,
    fun v hv => hmine v (List.mem_cons_of_mem t' hv), fun v hv hold => ?_⟩
  cases v with
  | wrapped j pc =>
      cases pc with
      | running hdr run =>
          obtain ⟨r, hr, hj, hrun⟩ := hold
          refine ⟨r, hmove.running_mem ?_ ht hr, hj, hrun⟩
          rintro hdr' rfl
          -- one coroutine for each session
          have hother := wraps_other hu hperm hv (k := j) (by simp [Thread.wraps])
          simp [Thread.wraps, hj] at hother
      | respond hdr payload => exact hmove.explained ht hold
      | _ => trivial
  | _ => trivial

/-- The responses among the frames that a step gives to session `k` are explained. -/
theorem posts_explained (ht : t.Works s) (hpushes : t.Pushes) {f : FrameHeader × Bytes}
    (hf : f ∈ t.posts k a) (hresponse : isResponse f = true) : Explained k s f := by
  by_cases hwraps : t.wraps k = 0
  · have hmem := List.mem_filter.mpr ⟨hf, hresponse⟩
    rw [filter_posts hpushes hwraps] at hmem
    cases hmem
  · unfold Thread.posts at hf
    split at hf
    · exact absurd rfl hwraps
    · exact absurd rfl hwraps
    · split at hf
      · rename_i hj
        subst hj
        rw [List.mem_singleton.mp hf]
        exact ht
      · cases hf
    · cases hf

/-- Every response written on session `k` is explained. -/
theorem calm_explained (h : (calmProgram cfg k).machine.Reachable initial p) :
    ∀ f ∈ (p.shared.session k).out.frames, isResponse f = true → Explained k p.shared f := by
  obtain ⟨taken, -, hline⟩ := calm_line (Q := fun s f => isResponse f = true → Explained k s f)
    (by
      intro u hu s' t t' new a ht hgood hmove
      have hplain := reachable_of_calm hu
      have hworks := reachable_works hplain t ht
      refine ⟨fun f hf hresponse => hmove.explained hworks (hf hresponse), ?_⟩
      intro f hf hresponse
      exact hmove.explained hworks
        (posts_explained hworks (reachable_pushes hplain t ht) hf hresponse)) h
  exact fun f hf => hline f (List.mem_append_left _ hf)

/-! ## Requests without a handler -/

theorem Move.requestsOf_mono (h : Move cfg s t a s' t' new) (k : Nat) :
    s.requestsOf k <+: s'.requestsOf k := by
  rcases h.reads k with hreads | ⟨hdr, payload, -, -, hadd, -, -⟩
  · rw [Shared.requestsOf, Shared.requestsOf, hreads]
  · rw [Shared.requestsOf, Shared.requestsOf, hadd, List.filter_append]
    exact List.prefix_append _ _

/-- The miss is one of a request that was read. -/
def Miss.IsRead (s : Shared) (miss : Miss) : Prop :=
  ∃ f ∈ s.requestsOf miss.session, f.1.callID = miss.callId ∧ f.1.methodID = miss.methodId

theorem Move.isRead {miss : Miss} (h : Move cfg s t a s' t' new) (hmiss : miss.IsRead s) :
    miss.IsRead s' := by
  obtain ⟨f, hf, hids⟩ := hmiss
  exact ⟨f, (h.requestsOf_mono _).mem hf, hids⟩

theorem reachable_isRead (h : (machine cfg).Reachable initial p) :
    ∀ miss ∈ p.shared.misses, miss.IsRead p.shared := by
  refine (Program.reachable_local (P := program cfg)
    (I := fun s => ∀ miss ∈ s.misses, miss.IsRead s)
    (J := fun s t => ∀ k hdr payload, t = .wrapped k (.lookup hdr payload) →
      (hdr, payload) ∈ s.requestsOf k)
    ⟨List.forall_mem_nil _, by simp [initial]⟩ ?_ h).1
  intro u _ s' t t' new rest a _ hI ht hs
  have hmove : Move cfg u.shared t a s' t' new := (step_move hs).2
  have hold : ∀ miss ∈ u.shared.misses, miss.IsRead s' := fun miss hmiss =>
    hmove.isRead (hI miss hmiss)
  have hlookup : ∀ v ∈ t' :: new, ∀ k hdr payload, v = .wrapped k (.lookup hdr payload) →
      (hdr, payload) ∈ s'.requestsOf k := by
    rintro v hv k hdr payload rfl
    rcases hmove.reads k with hreads | ⟨hdr', payload', -, -, hadd, rfl, rfl⟩
    · obtain ⟨ht', hnew⟩ := hmove.lookup_new hreads
      rcases List.mem_cons.mp hv with hv | hv
      · exact absurd hv.symm ht'
      · exact absurd hv hnew
    · rw [List.mem_singleton, Thread.wrapped.injEq] at hv
      have hpc := hv.2
      split at hpc
      · rename_i htype
        cases hpc
        rw [Shared.requestsOf, hadd]
        exact List.mem_filter.mpr ⟨List.mem_append_right _ List.mem_cons_self, by
          simp [isRequest, htype]⟩
      · cases hpc
  refine ⟨?_, hlookup t' List.mem_cons_self, fun v hv => hlookup v (List.mem_cons_of_mem t' hv),
    fun v _ hv k hdr payload hpc => (hmove.requestsOf_mono k).mem (hv k hdr payload hpc)⟩
  cases hmove with
  | miss k hdr payload hnone =>
      refine List.forall_mem_append.mpr ⟨hold, List.forall_mem_singleton.mpr ?_⟩
      exact ⟨(hdr, payload), ht k hdr payload rfl, rfl, rfl⟩
  | _ => exact hold

/-! ## Handlers -/

/-- A run is one of the handler that was registered for its method. -/
theorem reachable_registered (h : (machine cfg).Reachable initial p) :
    ∀ run ∈ p.shared.runs, p.shared.registrations[run.handler]? = some run.methodId := by
  refine Program.reachable_shared (P := program cfg)
    (I := fun s => ∀ run ∈ s.runs, s.registrations[run.handler]? = some run.methodId)
    (List.forall_mem_nil _) ?_ h
  intro u hu s' t t' new a _ hI hs
  cases (step_move hs).2 with
  | registerMethod methodId =>
      exact fun run hrun => getElem?_of_initial (List.prefix_append _ _) (hI run hrun)
  | call k hdr payload handler hlookup =>
      refine List.forall_mem_append.mpr ⟨hI, List.forall_mem_singleton.mpr ?_⟩
      exact (reachable_filed hu).entry _ _ hlookup
  | returned k hdr i response st =>
      intro run hrun
      obtain ⟨j, hj⟩ := List.mem_iff_getElem?.mp hrun
      rw [Shared.setResult, List.getElem?_modify] at hj
      obtain ⟨r, hr, rfl⟩ := Option.map_eq_some_iff.mp hj
      have hsame := hI r (List.mem_of_getElem? hr)
      split <;> exact hsame
  | _ => exact hI

end Protocomm.Cpp.Server
