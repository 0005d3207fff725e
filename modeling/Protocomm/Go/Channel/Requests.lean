import Protocomm.Go.Channel.Lines
import Protocomm.Misc.Slots

/-!
# Calls and frames

Each frame a channel writes is the request of a call registered on that connection,
and each callback called with a response is called with a frame that was read and
that carries the id of the call. All other callbacks are called with an error.
-/

namespace Protocomm.Go.Channel

open Misc

/-- `f` is the request of a call registered on connection `conn`. -/
def Shared.Asks (s : Shared) (conn : Nat) (f : FrameHeader × Bytes) : Prop :=
  ∃ r ∈ s.registered, ∃ call, s.calls[r.call]? = some call ∧ r.conn = conn ∧
    f = (requestHeader r.callID call.methodID call.request, call.request)

/-- The call of a goroutine that has not registered it was made. -/
def Caller.Made (s : Shared) : Caller → Prop
  | .connect => True
  | .call methodID request cb => s.calls[cb.call]? = some ⟨methodID, request, cb.isNil⟩

/-- What a goroutine knows about the request it is to write. -/
def Goroutine.Asks (s : Shared) : Goroutine → Prop
  | .ensureConnected k _ => k.Made s
  | .asyncUnaryCall (.register methodID request cb) => (Caller.call methodID request cb).Made s
  | .asyncUnaryCall (.lockWrite conn _ hdr request) => s.Asks conn (hdr, request)
  | .asyncUnaryCall (.writeHeader conn _ hdr request) => s.Asks conn (hdr, request)
  | .asyncUnaryCall (.writePayload conn _ hdr request) => s.Asks conn (hdr, request)
  | _ => True

variable {cfg : Config} {s s' : Shared} {lines lines' : Nat → Line} {g g' : Goroutine} {a : Action}
  {new rest : List Goroutine} {p : Pool (Shared × (Nat → Line)) Goroutine} {conn : Nat}
  {f : FrameHeader × Bytes}

theorem Move.calls (h : Move cfg s g a s' g' new) : s.calls <+: s'.calls := by
  cases h with
  | call => exact List.prefix_append ..
  | _ => exact List.prefix_refl _

/-- A connection is installed by `ensureConnected`, which writes and reads nothing then. -/
theorem Move.published (h : Move cfg s g a s' g' new) :
    s'.published = s.published ∨
      ∃ k conn, g = .ensureConnected k (.publish conn) ∧ a = .run ∧
        s'.published = s.published ++ [(conn, s.gen + 1)] := by
  cases h with
  | publish k conn => exact Or.inr ⟨k, conn, rfl, rfl, rfl⟩
  | _ => exact Or.inl rfl

/-- Frames are added by the first `Write` of a request. -/
theorem LineMove.frames {d : Nat} {line line' : Line} (h : LineMove cfg d line g a line') :
    line'.out.frames = line.out.frames ∨
      ∃ gen hdr request, g = .asyncUnaryCall (.writeHeader d gen hdr request) ∧
        line'.out.frames = line.out.frames ++ [(hdr, request)] := by
  cases h with
  | greet k n err => cases err <;> exact Or.inl rfl
  | start gen hdr request n err =>
      simp only [Outlet.fail, Outlet.start]
      split
      · exact Or.inl rfl
      · exact Or.inr ⟨gen, hdr, request, rfl, rfl⟩
  | _ => exact Or.inl rfl

/-- Nothing is taken off the wire. -/
theorem LineMove.wire {d : Nat} {line line' : Line} (h : LineMove cfg d line g a line') :
    line.out.wire <+: line'.out.wire := by
  cases h with
  | greet k n err => cases err <;> exact List.prefix_append ..
  | start gen hdr request n err =>
      simp only [Outlet.fail, Outlet.start]
      split
      · exact List.prefix_refl _
      · exact List.prefix_append ..
  | more => exact List.prefix_append ..
  | _ => exact List.prefix_refl _

/-- What was read stays read. -/
theorem LineMove.reads {d : Nat} {line line' : Line} (h : LineMove cfg d line g a line') :
    line.reads <+: line'.reads := by
  cases h with
  | read => exact List.prefix_append ..
  | _ => exact List.prefix_refl _

theorem Shared.Asks.mono (h : s.Asks conn f) (hmove : Move cfg s g a s' g' new) :
    s'.Asks conn f := by
  obtain ⟨r, hr, call, hcall, hconn, rfl⟩ := h
  exact ⟨r, hmove.registered_initial.mem hr, call,
    getElem?_of_initial hmove.calls hcall, hconn, rfl⟩

theorem Caller.Made.mono {k : Caller} (h : k.Made s) (hmove : Move cfg s g a s' g' new) :
    k.Made s' := by
  cases k with
  | connect => trivial
  | call methodID request cb => exact getElem?_of_initial hmove.calls h

theorem Goroutine.Asks.mono {v : Goroutine} (h : v.Asks s) (hmove : Move cfg s g a s' g' new) :
    v.Asks s' := by
  cases v with
  | ensureConnected k pc => exact Caller.Made.mono h hmove
  | asyncUnaryCall pc =>
      cases pc with
      | register methodID request cb =>
          exact Caller.Made.mono (k := .call methodID request cb) h hmove
      | lockWrite | writeHeader | writePayload => exact Shared.Asks.mono h hmove
      | _ => trivial
  | _ => trivial

theorem resume_asks {k : Caller} (h : k.Made s) (st : Status) : (k.resume st).Asks s := by
  cases k with
  | connect => trivial
  | call methodID request cb =>
      simp only [Caller.resume]
      split
      · exact h
      · trivial

/-- A step of a goroutine establishes what it knows about its request. -/
theorem Move.asks (h : Move cfg s g a s' g' new) (hg : g.Asks s) :
    g'.Asks s' ∧ ∀ v ∈ new, v.Asks s' := by
  have hnil : ∀ v ∈ ([] : List Goroutine), v.Asks s' := List.forall_mem_nil _
  cases h with
  | call methodID request isNil =>
      refine ⟨trivial, List.forall_mem_singleton.mpr ?_⟩
      exact List.getElem?_concat_length
  | connect | close => exact ⟨trivial, List.forall_mem_singleton.mpr trivial⟩
  | spawn => exact ⟨hg, List.forall_mem_singleton.mpr trivial⟩
  | checkClosed k | checkOK k | unlockConnect k => exact ⟨resume_asks hg _, hnil⟩
  | register methodID request cb conn =>
      refine ⟨?_, hnil⟩
      exact ⟨_, List.mem_append_right _ List.mem_cons_self, _, hg, rfl, rfl⟩
  | _ =>
      refine ⟨?_, hnil⟩
      first
        | exact hg
        | trivial

/-- Every frame a channel writes is the request of a call registered on that
    connection. -/
theorem reachable_asks (h : (lined cfg).machine.Reachable linedInitial p) :
    (∀ d, ∀ f ∈ (p.shared.2 d).out.frames, p.shared.1.Asks d f) ∧
      ∀ g ∈ p.threads, g.Asks p.shared.1 := by
  refine Program.reachable_local (I := fun s => ∀ d, ∀ f ∈ (s.2 d).out.frames, s.1.Asks d f)
    (J := fun s g => g.Asks s.1) ⟨?_, by simp [linedInitial, Goroutine.Asks]⟩ ?_ h
  · intro d f hf
    cases hf
  intro u _ s' g g' new rest a _ hI hJ hs
  obtain ⟨hrecord, hstep⟩ := Program.recorded_step hs
  obtain ⟨-, hmove⟩ := step_move hstep
  obtain ⟨hg', hnew⟩ := hmove.asks hJ
  refine ⟨fun d f hf => ?_, hg', hnew, fun v _ hv => hv.mono hmove⟩
  rcases (record_move hrecord d).frames with hsame | ⟨gen, hdr, request, rfl, hadd⟩
  · rw [hsame] at hf
    exact (hI d f hf).mono hmove
  · rw [hadd] at hf
    rcases List.mem_append.mp hf with hf | hf
    · exact (hI d f hf).mono hmove
    · rw [List.mem_singleton.mp hf]
      exact Shared.Asks.mono hJ hmove

/-! ## Frames and ids -/

/-- The goroutine is to write a request with the given id. -/
def Goroutine.sends (conn : Nat) (id : UInt32) : Goroutine → Nat
  | .asyncUnaryCall (.lockWrite d _ hdr _) => if d = conn ∧ hdr.callID = id then 1 else 0
  | .asyncUnaryCall (.writeHeader d _ hdr _) => if d = conn ∧ hdr.callID = id then 1 else 0
  | _ => 0

/-- The frames with the given id. -/
def Line.sent (id : UInt32) (line : Line) : Nat :=
  line.out.frames.countP fun f => f.1.callID == id

/-- The calls registered on connection `conn` under the given id. -/
def Shared.issued (conn : Nat) (id : UInt32) (s : Shared) : Nat :=
  s.registered.countP fun r => r.conn == conn && r.callID == id

@[simp]
theorem resume_sends (k : Caller) (st : Status) (id : UInt32) : (k.resume st).sends conn id = 0 :=
  resume_const (Goroutine.sends conn id) rfl (fun _ _ _ => rfl) (fun _ _ => rfl) k st

/-- A step registers what its goroutine is to write. -/
theorem Move.sends (h : Move cfg s g a s' g' new) (id : UInt32) :
    ∃ gain, s'.issued conn id = s.issued conn id + gain ∧
      g'.sends conn id + (new.map (Goroutine.sends conn id)).sum ≤ g.sends conn id + gain := by
  cases h with
  | register methodID request cb d =>
      refine ⟨if d = conn ∧ s.nextCallID = id then 1 else 0, ?_, ?_⟩
      · simp [Shared.issued, List.countP_append, List.countP_singleton]
      · simp only [Goroutine.sends, requestHeader, List.map_nil, List.sum_nil, Nat.add_zero]
        exact Nat.le_trans (Nat.le_of_eq (if_congr Iff.rfl rfl rfl)) (Nat.le_add_left ..)
  | checkClosed | checkOK | unlockConnect =>
      exact ⟨0, rfl, by rw [resume_sends]; exact Nat.zero_le _⟩
  | _ => exact ⟨0, rfl, by simp [Goroutine.sends]⟩

/-- No more frames carry an id than calls were registered under it. -/
theorem reachable_sends (h : (lined cfg).machine.Reachable linedInitial p) (conn : Nat)
    (id : UInt32) :
    Program.owned (fun s => (s.2 conn).sent id) (Goroutine.sends conn id) p.shared p.threads ≤
      p.shared.1.issued conn id := by
  refine Program.reachable_owned_le (P := lined cfg) _ _
    (fun s => Shared.issued conn id s.1) ?_ ?_ h
  · rfl
  intro u _ s' g g' new a hs
  obtain ⟨s', lines'⟩ := s'
  obtain ⟨hrecord, hstep⟩ := Program.recorded_step hs
  obtain ⟨-, hmove⟩ := step_move hstep
  rcases (record_move hrecord conn).frames with hsame | ⟨gen, hdr, request, rfl, hadd⟩
  · obtain ⟨gain, hissued, hle⟩ := @Move.sends cfg u.shared.1 s' g g' a new conn hmove id
    refine ⟨gain, hissued, ?_⟩
    have hsent : (lines' conn).sent id = (u.shared.2 conn).sent id :=
      congrArg (List.countP _) hsame
    simp only [hsent]
    omega
  · -- the frame takes the place of its writer
    have hsent : (lines' conn).sent id =
        (u.shared.2 conn).sent id + if hdr.callID = id then 1 else 0 := by
      rw [Line.sent, hadd, List.countP_append, List.countP_singleton]
      simp only [beq_iff_eq]
      rfl
    cases hmove with
    | wroteHeader | wroteEmpty | wroteHeaderFailed =>
        refine ⟨0, rfl, ?_⟩
        simp only [hsent, Goroutine.sends, true_and, List.map_nil, List.sum_nil]
        omega

theorem registered_length_le {p : Pool Shared Goroutine} (h : (machine cfg).Reachable initial p) :
    p.shared.registered.length ≤ p.shared.calls.length := by
  have htickets := reachable_tickets (w := fun _ => 1) h
  simp only [Program.owned, Shared.tickets, Shared.made, List.map_const', List.sum_replicate_nat,
    Nat.mul_one, List.length_range] at htickets
  omega

/-- With fewer than 2^32 calls no id is issued twice. -/
theorem callIDs_nodup {p : Pool Shared Goroutine} (h : (machine cfg).Reachable initial p)
    (hcalls : p.shared.calls.length < 2 ^ 32) :
    (p.shared.registered.map Registration.callID).Nodup := by
  have hle := registered_length_le h
  have hnodup := (reachable_numbered h).nodup
    (by simp only [Shared.callTable, List.length_map]; omega)
  rwa [Shared.callTable, List.map_map] at hnodup

theorem callID_unique {p : Pool Shared Goroutine} (h : (machine cfg).Reachable initial p)
    (hcalls : p.shared.calls.length < 2 ^ 32) {r r' : Registration} (hr : r ∈ p.shared.registered)
    (hr' : r' ∈ p.shared.registered) (hid : r.callID = r'.callID) : r = r' :=
  List.inj_on_of_nodup_map (callIDs_nodup h hcalls) hr hr' hid

/-- With fewer than 2^32 calls an id is on at most one frame. -/
theorem sent_le_one (h : (lined cfg).machine.Reachable linedInitial p)
    (hcalls : p.shared.1.calls.length < 2 ^ 32) (conn : Nat) (id : UInt32) :
    (p.shared.2 conn).sent id ≤ 1 := by
  have hsends := reachable_sends h conn id
  have hcount := List.nodup_iff_count_le_one.mp (callIDs_nodup (lined_plain h) hcalls) id
  have hissued : p.shared.1.issued conn id ≤
      (p.shared.1.registered.map Registration.callID).count id := by
    rw [List.count, List.countP_map]
    refine List.countP_mono_left fun r _ hr => ?_
    simpa using (Bool.and_eq_true_iff.mp hr).2
  rw [Program.owned] at hsends
  have hplain : (p.plain.shared.registered.map Registration.callID) =
    (p.shared.1.registered.map Registration.callID) := rfl
  rw [hplain] at hcount
  omega

/-! ## Responses -/

/-- A response to call `c` was read from connection `conn`. -/
structure Responds (s : Shared) (lines : Nat → Line) (conn : Nat) (f : FrameHeader × Bytes)
    (c : Nat) : Prop where
  read : f ∈ (lines conn).reads
  type : f.1.type = FrameResponse
  registered : ∃ r ∈ s.registered, r.call = c ∧ r.callID = f.1.callID

/-- A callback was called with a response to its call or with an error. -/
def Invocation.Justified (s : Shared) (lines : Nat → Line) (i : Invocation) : Prop :=
  match i.cause with
  | .response conn _ hdr payload =>
      Responds s lines conn (hdr, payload) i.call ∧ i.status = responseStatus hdr ∧
        i.payload = responsePayload hdr payload
  | _ => i.status.isOK = false

/-- What a goroutine knows about the callbacks it is to call. -/
def Goroutine.Justified (s : Shared) (lines : Nat → Line) : Goroutine → Prop
  | .asyncUnaryCall (.callBack st _) => st.isOK = false
  | .readLoop conn _ (.dispatch hdr payload) => (hdr, payload) ∈ (lines conn).reads
  | .readLoop conn _ (.complete cb hdr payload) => Responds s lines conn (hdr, payload) cb.call
  | .teardown _ _ st _ => st.isOK = false
  | _ => True

section

variable (hmove : Move cfg s g a s' g' new) (hrecord : record cfg lines g a = some lines')
include hmove hrecord

theorem Responds.mono {c : Nat} (h : Responds s lines conn f c) : Responds s' lines' conn f c := by
  obtain ⟨r, hr, hcall⟩ := h.registered
  exact ⟨(record_move hrecord conn).reads.mem h.read, h.type, r,
    hmove.registered_initial.mem hr, hcall⟩

theorem Invocation.Justified.mono {i : Invocation} (h : i.Justified s lines) :
    i.Justified s' lines' := by
  unfold Invocation.Justified at h ⊢
  split
  · rename_i hcause
    simp only [hcause] at h
    exact ⟨h.1.mono hmove hrecord, h.2⟩
  · rename_i hcause
    split at h
    · exact absurd ‹_› (hcause _ _ _ _)
    · exact h

theorem Goroutine.Justified.mono {v : Goroutine} (h : v.Justified s lines) :
    v.Justified s' lines' := by
  cases v with
  | asyncUnaryCall pc =>
      cases pc with
      | callBack => exact h
      | _ => trivial
  | readLoop d gen pc =>
      cases pc with
      | read => trivial
      | dispatch hdr payload => exact (record_move hrecord d).reads.mem h
      | complete cb hdr payload => exact Responds.mono hmove hrecord h
  | teardown => exact h
  | _ => trivial

end

theorem resume_justified (k : Caller) (st : Status) : (k.resume st).Justified s lines := by
  cases k with
  | connect => trivial
  | call methodID request cb =>
      simp only [Caller.resume]
      split
      · trivial
      · exact Bool.eq_false_iff.mpr ‹_›

/-- What a step does to the callbacks that were called. -/
theorem Move.justified (h : Move cfg s g a s' g' new) (hrecord : record cfg lines g a = some lines')
    (hpending : ∀ id cb, s.pending.lookup id = some cb →
      ∃ r ∈ s.registered, r.call = cb.call ∧ r.callID = id)
    (hI : ∀ i ∈ s.invoked, i.Justified s lines) (hg : g.Justified s lines) :
    (∀ i ∈ s'.invoked, i.Justified s' lines') ∧ g'.Justified s' lines' ∧
      ∀ v ∈ new, v.Justified s' lines' := by
  have hnil : ∀ v ∈ ([] : List Goroutine), v.Justified s' lines' := List.forall_mem_nil _
  have hold : ∀ i ∈ s.invoked, i.Justified s' lines' := fun i hi => (hI i hi).mono h hrecord
  have hkeep : g.Justified s' lines' := hg.mono h hrecord
  have hinvoke : ∀ {i : Invocation}, i.Justified s' lines' →
      ∀ j ∈ s.invoked ++ [i], j.Justified s' lines' := by
    intro i hi j hj
    rcases List.mem_append.mp hj with hj | hj
    · exact hold j hj
    · rwa [List.mem_singleton.mp hj]
  cases h with
  | call | connect | close | spawn => exact ⟨hold, trivial, List.forall_mem_singleton.mpr trivial⟩
  | checkClosed | checkOK | unlockConnect => exact ⟨hold, resume_justified .., hnil⟩
  | registerClosed | registerDown | unlockWriteFailed | readFailed | badType =>
      exact ⟨hold, rfl, hnil⟩
  | callBack => exact ⟨hinvoke hg, trivial, hnil⟩
  | teardownCall => exact ⟨hinvoke hg, hg, hnil⟩
  | closeCall => exact ⟨hinvoke rfl, trivial, hnil⟩
  | read conn gen hdr payload =>
      refine ⟨hold, ?_, hnil⟩
      cases hrecord
      simp [Goroutine.Justified]
  | take conn gen hdr payload cb htype hlookup =>
      exact ⟨hold, ⟨hkeep, htype, hpending _ _ hlookup⟩, hnil⟩
  | complete conn gen cb hdr payload => exact ⟨hinvoke ⟨hkeep, rfl, rfl⟩, trivial, hnil⟩
  | _ =>
      refine ⟨hold, ?_, hnil⟩
      first
        | exact hkeep
        | trivial

/-- Every callback is called with a response to its call, or with an error. -/
theorem reachable_justified (h : (lined cfg).machine.Reachable linedInitial p) :
    ∀ i ∈ p.shared.1.invoked, i.Justified p.shared.1 p.shared.2 := by
  refine (Program.reachable_local
    (I := fun s => ∀ i ∈ s.1.invoked, i.Justified s.1 s.2)
    (J := fun s g => g.Justified s.1 s.2)
    ⟨by simp [linedInitial], by simp [linedInitial, Goroutine.Justified]⟩ ?_ h).1
  intro u hu s' g g' new rest a _ hI hJ hs
  obtain ⟨hrecord, hstep⟩ := Program.recorded_step hs
  obtain ⟨-, hmove⟩ := step_move hstep
  have hpending : ∀ id cb, u.shared.1.pending.lookup id = some cb →
      ∃ r ∈ u.shared.1.registered, r.call = cb.call ∧ r.callID = id := by
    intro id cb hlookup
    obtain ⟨r, hr, hid, hcall, -⟩ := reachable_pending (lined_plain hu) id cb hlookup
    exact ⟨r, hr, hcall, hid⟩
  obtain ⟨hI', hg', hnew⟩ := hmove.justified hrecord hpending hI hJ
  exact ⟨hI', hg', hnew, fun v _ hv => hv.mono hmove hrecord⟩

end Protocomm.Go.Channel
