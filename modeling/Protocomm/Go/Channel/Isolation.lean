import Protocomm.Go.Channel.Generations

/-!
# Responses and connections

`readLoop` does not look at its generation when it dispatches a response: a frame
that it read before its connection was dropped may find a call of the next
connection under its id.
-/

namespace Protocomm.Go.Channel

open Misc

variable {cfg : Config} {p p' : Pool Shared Goroutine} {s s' : Shared} {g g' : Goroutine}
  {a : Action} {new : List Goroutine}

/-- The call a `readLoop` has taken out of `pending`, with its connection and
    generation. -/
def Goroutine.completing : Goroutine → Option (Nat × Nat × UInt64)
  | .readLoop conn gen (.complete cb _ _) => some (cb.call, conn, gen)
  | _ => none

@[simp]
theorem resume_completing (k : Caller) (st : Status) : (k.resume st).completing = none :=
  resume_const Goroutine.completing rfl (fun _ _ _ => rfl) (fun _ _ => rfl) k st

/-- A response was read from connection `conn` and completes call `c`, or has done
    so. -/
def Completes (p : Pool Shared Goroutine) (c conn : Nat) (gen : UInt64) : Prop :=
  (∃ i ∈ p.shared.invoked, i.call = c ∧ ∃ hdr payload, i.cause = .response conn gen hdr payload) ∨
    ∃ g ∈ p.threads, g.completing = some (c, conn, gen)

/-- A response completes only calls of the connection it was read from. -/
def Isolated (p : Pool Shared Goroutine) : Prop :=
  ∀ c conn gen, Completes p c conn gen →
    ∀ r ∈ p.shared.registered, r.call = c → r.conn = conn ∧ r.gen = gen

/-- A `readLoop` that takes a call out of `pending` reads from the installed
    connection. -/
def ReadsInstalled (p : Pool Shared Goroutine) (ia : Nat × Action) : Prop :=
  ∀ conn gen hdr payload cb,
    p.threads[ia.1]? = some (.readLoop conn gen (.dispatch hdr payload)) → ia.2 = .run →
    hdr.type = FrameResponse → p.shared.pending.lookup hdr.callID = some cb → cb.isNil = false →
    p.shared.conn = some conn

/-- Call `c` was registered on connection `conn`. -/
def Shared.RegisteredOn (s : Shared) (c conn : Nat) (gen : UInt64) : Prop :=
  ∃ r ∈ s.registered, r.call = c ∧ r.conn = conn ∧ r.gen = gen

theorem Shared.RegisteredOn.mono {c conn : Nat} {gen : UInt64} (h : s.RegisteredOn c conn gen)
    (hgrows : s.registered <+: s'.registered) : s'.RegisteredOn c conn gen := by
  obtain ⟨r, hr, hcall⟩ := h
  exact ⟨r, hgrows.mem hr, hcall⟩

/-- What a step does to the calls that responses complete. -/
inductive CompleteMove (s : Shared) : Goroutine → Action → Shared → Goroutine → Prop
  | keep {g g' : Goroutine} {a : Action} {s' : Shared}
      (hinvoked : ∀ i ∈ s'.invoked, i ∈ s.invoked ∨ ∀ conn gen hdr payload,
        i.cause ≠ .response conn gen hdr payload)
      (hg' : g'.completing = none) : CompleteMove s g a s' g'
  | take (conn : Nat) (gen : UInt64) (hdr : FrameHeader) (payload : Bytes) (cb : Callback)
      (htype : hdr.type = FrameResponse) (hlookup : s.pending.lookup hdr.callID = some cb)
      (hnil : cb.isNil = false) :
      CompleteMove s (.readLoop conn gen (.dispatch hdr payload)) .run
        { s with pending := s.pending.erase hdr.callID }
        (.readLoop conn gen (.complete cb hdr payload))
  | complete (conn : Nat) (gen : UInt64) (cb : Callback) (hdr : FrameHeader) (payload : Bytes) :
      CompleteMove s (.readLoop conn gen (.complete cb hdr payload)) .run
        (cb.invoke (responseStatus hdr) (responsePayload hdr payload)
          (.response conn gen hdr payload) s)
        (.readLoop conn gen .read)

theorem Move.completing (h : Move cfg s g a s' g' new) :
    CompleteMove s g a s' g' ∧ ∀ v ∈ new, v.completing = none := by
  have hnil : ∀ v ∈ ([] : List Goroutine), v.completing = none := List.forall_mem_nil _
  have hsame : ∀ i ∈ s.invoked, i ∈ s.invoked ∨ ∀ conn gen hdr payload,
      i.cause ≠ .response conn gen hdr payload := fun i hi => Or.inl hi
  have hother : ∀ x : Invocation, (∀ conn gen hdr payload,
      x.cause ≠ .response conn gen hdr payload) → ∀ i ∈ s.invoked ++ [x], i ∈ s.invoked ∨
        ∀ conn gen hdr payload, i.cause ≠ .response conn gen hdr payload := by
    intro x hx i hi
    rcases List.mem_append.mp hi with hold | hnew
    · exact Or.inl hold
    · rw [List.mem_singleton.mp hnew]
      exact Or.inr hx
  cases h with
  | take conn gen hdr payload cb htype hlookup hcb =>
      exact ⟨.take conn gen hdr payload cb htype hlookup hcb, hnil⟩
  | complete conn gen cb hdr payload => exact ⟨.complete conn gen cb hdr payload, hnil⟩
  | callBack | teardownCall | closeCall => exact ⟨.keep (hother _ nofun) rfl, hnil⟩
  | call | connect | close | spawn =>
      exact ⟨.keep hsame rfl, List.forall_mem_singleton.mpr rfl⟩
  | checkClosed | checkOK | unlockConnect => exact ⟨.keep hsame (resume_completing ..), hnil⟩
  | _ => exact ⟨.keep hsame rfl, hnil⟩

/-- A call that a response completes was registered on the connection of the
    response. -/
def Traced (p : Pool Shared Goroutine) : Prop :=
  ∀ c conn gen, Completes p c conn gen → p.shared.RegisteredOn c conn gen

theorem traced_isolated (hreach : (machine cfg).Reachable initial p) (h : Traced p) :
    Isolated p := by
  intro c conn gen hcompletes r hr hcall
  obtain ⟨r', hr', hcall', hconn, hgen⟩ := h c conn gen hcompletes
  obtain rfl := registered_unique hreach hr hr' (hcall.trans hcall'.symm)
  exact ⟨hconn, hgen⟩

/-- What is taken from `pending` by the reader of the installed connection was
    registered on it. -/
theorem registeredOn_of_pending (hreach : (machine cfg).Reachable initial p) {conn : Nat}
    {gen : UInt64} {pc : Reading} (hmem : .readLoop conn gen pc ∈ p.threads)
    (hconn : p.shared.conn = some conn) {id : UInt32} {cb : Callback}
    (hlookup : p.shared.pending.lookup id = some cb) : p.shared.RegisteredOn cb.call conn gen := by
  obtain ⟨r, hr, -, hcall, hgen, hinstalled⟩ := reachable_pending hreach id cb hlookup
  obtain rfl := Option.some.inj (hconn.symm.trans hinstalled)
  obtain ⟨hpublished, hreaders⟩ := reachable_onConn hreach
  refine ⟨r, hr, hcall, rfl, hgen.trans ?_⟩
  exact published_unique hreach (hpublished _ hconn) (hreaders _ hmem _ rfl)

/-- The dispatch of a response to a pending call. -/
theorem step_take {conn : Nat} {gen : UInt64} {hdr : FrameHeader} {payload : Bytes} {cb : Callback}
    (hs : step cfg s (.readLoop conn gen (.dispatch hdr payload)) .run = some (s', g', new))
    (htype : hdr.type = FrameResponse) (hlookup : s.pending.lookup hdr.callID = some cb)
    (hnil : cb.isNil = false) :
    s' = { s with pending := s.pending.erase hdr.callID } ∧
      g' = .readLoop conn gen (.complete cb hdr payload) := by
  have hpush : FrameResponse ≠ FramePush := by decide
  simp only [step, readLoopStep, htype, hpush, hlookup, hnil, Bool.false_eq_true, if_false,
    if_true] at hs
  split at hs
  · cases hs
  · cases hs
    exact ⟨rfl, rfl⟩

theorem traced_keep (hreach : (machine cfg).Reachable initial p) (h : Traced p)
    {ia : Nat × Action} (hok : ReadsInstalled p ia)
    (hstep : (machine cfg).step p ia = some p') : Traced p' := by
  obtain ⟨i, a⟩ := ia
  obtain ⟨g, g', new, rest, hi, hs, hbefore, hafter⟩ := Program.machine_step_at hstep
  have hmove : Move cfg p.shared g a p'.shared g' new := (step_move hs).2
  have hregistered := hmove.registered_initial
  obtain ⟨hcomplete, hnew⟩ := hmove.completing
  have hmem : g ∈ p.threads := List.mem_of_getElem? hi
  have hback : ∀ {c conn gen}, Completes p c conn gen → p'.shared.RegisteredOn c conn gen :=
    fun hold => (h _ _ _ hold).mono hregistered
  rintro c conn gen (⟨x, hx, rfl, hdr, payload, hcause⟩ | ⟨v, hv, hcompleting⟩)
  · -- a callback that was called
    generalize hs' : p'.shared = s' at hcomplete
    rw [hs'] at hx
    cases hcomplete with
    | keep hinvoked =>
        rcases hinvoked x hx with hold | hother
        · exact hs' ▸ hback (Or.inl ⟨x, hold, rfl, hdr, payload, hcause⟩)
        · exact absurd hcause (hother conn gen hdr payload)
    | take => exact hs' ▸ hback (Or.inl ⟨x, hx, rfl, hdr, payload, hcause⟩)
    | complete conn' gen' cb hdr' payload' =>
        rcases List.mem_append.mp hx with hold | hlast
        · exact hs' ▸ hback (Or.inl ⟨x, hold, rfl, hdr, payload, hcause⟩)
        · rw [List.mem_singleton.mp hlast] at hcause ⊢
          cases hcause
          exact hs' ▸ hback (Or.inr ⟨_, hmem, rfl⟩)
  · -- a callback that is about to be called
    rcases List.mem_cons.mp (hafter.mem_iff.mp hv) with rfl | hv
    · generalize hs' : p'.shared = s' at hcomplete
      cases hcomplete with
      | keep _ hnone => cases hnone.symm.trans hcompleting
      | complete => cases hcompleting
      | take conn' gen' hdr payload cb htype hlookup hnil =>
          cases hcompleting
          have hconn := hok conn gen hdr payload cb hi rfl htype hlookup hnil
          have hon := registeredOn_of_pending hreach hmem hconn hlookup
          exact hs' ▸ hon.mono hregistered
    · rcases List.mem_append.mp hv with hv | hrest
      · cases (hnew v hv).symm.trans hcompleting
      · exact hback (Or.inr ⟨v, hbefore.mem_iff.mpr (List.mem_cons_of_mem _ hrest), hcompleting⟩)

/-- A response that finds a call of another connection completes it. -/
theorem not_isolated_of_stale (hreach : (machine cfg).Reachable initial p) {ia : Nat × Action}
    (hbad : ¬ ReadsInstalled p ia) (hstep : (machine cfg).step p ia = some p') :
    ¬ Isolated p' := by
  obtain ⟨i, a⟩ := ia
  simp only [ReadsInstalled, not_forall] at hbad
  obtain ⟨conn, gen, hdr, payload, cb, hi, rfl, htype, hlookup, hnil, hne⟩ := hbad
  obtain ⟨g, g', new, rest, hi', hs, -, hafter⟩ := Program.machine_step_at hstep
  cases hi'.symm.trans hi
  obtain ⟨htake, rfl⟩ := step_take hs htype hlookup hnil
  have hregistered : p'.shared.registered = p.shared.registered := by rw [htake]
  intro hisolated
  obtain ⟨r, hr, -, hcall, -, hinstalled⟩ := reachable_pending hreach _ cb hlookup
  have hcompletes : Completes p' cb.call conn gen :=
    Or.inr ⟨_, hafter.mem_iff.mpr List.mem_cons_self, rfl⟩
  obtain ⟨hconn, -⟩ := hisolated _ _ _ hcompletes r (hregistered ▸ hr) hcall
  exact hne (hconn ▸ hinstalled)

/-- Responses complete only calls of their own connection, in all states of a run, exactly
    when every `readLoop` of the run that finds a pending call for a response reads from the
    installed connection. -/
theorem isolated_iff_readsInstalled (cfg : Config) {acts : List (Nat × Action)}
    (hrun : (machine cfg).run initial acts = some p) :
    (∀ u ∈ (machine cfg).visited initial acts, Isolated u) ↔
      (machine cfg).Meets ReadsInstalled initial acts := by
  refine Machine.forall_visited_iff_meets (I := (machine cfg).Reachable initial) (Q := Traced)
    ?_ ?_ (fun u hu h => traced_isolated hu h) ?_ (.refl _) ?_ hrun
  · exact fun _ _ _ hreach hstep => hreach.tail hstep
  · exact fun u ia u' hu h hok hstep => traced_keep hu h hok hstep
  · exact fun u ia u' hu _ hbad hstep => not_isolated_of_stale hu hbad hstep
  · rintro c conn gen (⟨i, hi, -⟩ | ⟨g, hg, hcompleting⟩)
    · cases hi
    · rw [List.mem_singleton.mp hg] at hcompleting
      cases hcompleting

/-- A call is registered on connection 0, whose reader receives a response with the next
    id. The write of the call fails and `teardown` drops the connection; the second call
    connects again and is registered on connection 1. Then the first reader goes on. -/
def staleReaderRun : List (Nat × Action) :=
  [(0, .call 7 [] false), (1, .run), (1, .run), (1, .run), (1, .dial none), (1, .wrote 3 none),
    (1, .readFull (.ok [112, 99, 49])), (1, .run), (1, .run), (1, .run), (1, .run),
    (2, .readFrame (.ok ({ type := FrameResponse, callID := 2, methodID := 8, payloadSize := 1 },
      [5]))),
    (1, .run), (1, .wrote 0 (some "broken pipe")), (1, .run), (1, .run), (1, .run), (1, .pick 0),
    (1, .run),
    (0, .call 8 [] false), (3, .run), (3, .run), (3, .run), (3, .dial none), (3, .wrote 3 none),
    (3, .readFull (.ok [112, 99, 49])), (3, .run), (3, .run), (3, .run), (3, .run),
    (2, .run), (2, .run)]

theorem isolated_iff_staleReaderRun :
    ∃ p, (machine (createConfig {})).run initial staleReaderRun = some p ∧
      ¬ (machine (createConfig {})).Meets ReadsInstalled initial staleReaderRun := by
  refine ⟨_, rfl, fun hmeets => ?_⟩
  have hrun : (machine (createConfig {})).run initial staleReaderRun = some _ := rfl
  have hall := (isolated_iff_readsInstalled (createConfig {}) hrun).mpr hmeets
  have hlast := hall _ (List.mem_of_getElem? (i := 32) rfl)
  have hconn := hlast 1 0 1 (Or.inl ⟨_, List.mem_of_getElem? (i := 1) rfl, rfl, _, _, rfl⟩)
    ⟨1, 2, 3, 1⟩ (List.mem_of_getElem? (i := 1) rfl) rfl
  exact absurd hconn.1 (by decide)

/-- The second call, registered on connection 1 under generation 3, is completed by the
    response read from connection 0. -/
theorem completed_by_older_connection :
    ∃ p, (machine (createConfig {})).run initial staleReaderRun = some p ∧
      p.shared.registered = [⟨0, 1, 1, 0⟩, ⟨1, 2, 3, 1⟩] ∧
      p.shared.invoked.map (fun i => (i.call, i.payload, i.cause)) =
        [(0, [], .teardown 1),
          (1, [5], .response 0 1
            { type := FrameResponse, callID := 2, methodID := 8, payloadSize := 1 } [5])] :=
  ⟨_, rfl, rfl, rfl⟩

end Protocomm.Go.Channel
