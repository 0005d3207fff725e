import Protocomm.Frame
import Protocomm.Misc.MapValues

/-!
# What a client's reader is for

A reader hands pushes to the user, completes pending calls with the responses
that carry their ids, and in the end fails the calls that are left. `report` is
this purpose as a function of the pending calls and the frames; `outcome` says
for one call id how its call must end, whatever happens to the others.
-/

namespace Protocomm

open Misc

/-- What a reader does for its user; the texts of statuses are left out. -/
inductive ReaderEvent where
  | push (methodID : UInt32) (payload : Bytes)
  | complete (call : Nat) (code : StatusCode) (payload : Bytes)
  deriving DecidableEq, Repr

/-- The event is a callback of a call. -/
def ReaderEvent.isComplete : ReaderEvent → Bool
  | .push .. => false
  | .complete .. => true

/-- The events in their order, then the calls that fail together. -/
structure ReaderReport where
  events : List ReaderEvent := []
  code : StatusCode
  failed : List Nat

/-- The callbacks of the calls that fail when the reader ends. -/
def ReaderReport.failures (r : ReaderReport) : List ReaderEvent :=
  r.failed.map fun call => .complete call r.code []

/-- A trace shows a report, the failed calls in any order. -/
def ReaderReport.Shown (r : ReaderReport) (trace : List ReaderEvent) : Prop :=
  ∃ last, trace = r.events ++ last ∧ last.Perm r.failures

/-- Only failures: the calls of `values` in any order. -/
theorem shown_of_perm {β : Type} {call : β → Nat} {code : StatusCode} {values : List β}
    {trace : List ReaderEvent} (h : trace.Perm (values.map fun cb => .complete (call cb) code [])) :
    ReaderReport.Shown { code := code, failed := values.map call } trace := by
  refine ⟨trace, rfl, ?_⟩
  rw [ReaderReport.failures, List.map_map]
  exact h

/-- The report of a reader that has reported `events` before. -/
def ReaderReport.after (events : List ReaderEvent) (r : ReaderReport) : ReaderReport :=
  { r with events := events ++ r.events }

theorem ReaderReport.Shown.after {r : ReaderReport} {trace : List ReaderEvent}
    (events : List ReaderEvent) (h : r.Shown trace) : (r.after events).Shown (events ++ trace) := by
  obtain ⟨last, rfl, hlast⟩ := h
  exact ⟨last, (List.append_assoc _ _ _).symm, hlast⟩

/-- The payload of a response that is handed on. -/
def answerPayload (hdr : FrameHeader) (payload : Bytes) : Bytes :=
  if (hdr.statusCode.toNat : StatusCode) = StatusCode.OK then payload else []

variable {β : Type} (call : β → Nat) (onPush : Bool)

/-- What a reader is to do with the frames that come before the connection
    breaks. -/
def report : (AList fun _ : UInt32 => β) → List (FrameHeader × Bytes) → ReaderReport
  | pending, [] => { code := StatusCode.Unavailable, failed := (mapValues pending).map call }
  | pending, (hdr, payload) :: frames =>
      if hdr.type = FramePush then
        (report pending frames).after (if onPush then [.push hdr.methodID payload] else [])
      else if hdr.type = FrameResponse then
        match pending.lookup hdr.callID with
        | none => report pending frames
        | some cb =>
            (report (pending.erase hdr.callID) frames).after
              [.complete (call cb) hdr.statusCode.toNat (answerPayload hdr payload)]
      else { code := StatusCode.Internal, failed := (mapValues pending).map call }

/-- A frame of a type that a server sends. -/
def isServerFrame (frame : FrameHeader × Bytes) : Bool :=
  frame.1.type = FramePush || frame.1.type = FrameResponse

/-- The first response with the given id, before any frame of another type. -/
def responseTo (frames : List (FrameHeader × Bytes)) (id : UInt32) :
    Option (FrameHeader × Bytes) :=
  (frames.takeWhile isServerFrame).find? fun frame =>
    frame.1.type = FrameResponse && frame.1.callID = id

/-- The code of the calls that fail in the end. -/
def finalCode (frames : List (FrameHeader × Bytes)) : StatusCode :=
  if frames.all isServerFrame then StatusCode.Unavailable else StatusCode.Internal

/-- How the call with the given id ends. -/
def outcome (frames : List (FrameHeader × Bytes)) (id : UInt32) (n : Nat) : ReaderEvent :=
  match responseTo frames id with
  | some (hdr, payload) => .complete n hdr.statusCode.toNat (answerPayload hdr payload)
  | none => .complete n (finalCode frames) []

section Frames

variable {hdr : FrameHeader} {payload : Bytes} {frames : List (FrameHeader × Bytes)}

theorem responseTo_other {id : UInt32} (hserver : isServerFrame (hdr, payload) = true)
    (hother : hdr.type = FrameResponse → hdr.callID ≠ id) :
    responseTo ((hdr, payload) :: frames) id = responseTo frames id := by
  simp only [responseTo, List.takeWhile_cons, hserver, if_true]
  rw [List.find?_cons_of_neg]
  simpa using hother

theorem responseTo_self (htype : hdr.type = FrameResponse) :
    responseTo ((hdr, payload) :: frames) hdr.callID = some (hdr, payload) := by
  have hserver : isServerFrame (hdr, payload) = true := by simp [isServerFrame, htype]
  simp [responseTo, hserver, htype]

theorem finalCode_server (hserver : isServerFrame (hdr, payload) = true) :
    finalCode ((hdr, payload) :: frames) = finalCode frames := by
  rw [finalCode, finalCode, List.all_cons, hserver, Bool.true_and]

theorem outcome_other {id : UInt32} (hserver : isServerFrame (hdr, payload) = true)
    (hother : hdr.type = FrameResponse → hdr.callID ≠ id) (n : Nat) :
    outcome ((hdr, payload) :: frames) id n = outcome frames id n := by
  simp only [outcome, responseTo_other hserver hother, finalCode_server hserver]

theorem outcome_self (htype : hdr.type = FrameResponse) (n : Nat) :
    outcome ((hdr, payload) :: frames) hdr.callID n =
      .complete n hdr.statusCode.toNat (answerPayload hdr payload) := by
  simp only [outcome, responseTo_self htype]

end Frames

variable {call onPush}

/-- No response with the id of the call comes in time. -/
def unanswered (frames : List (FrameHeader × Bytes)) (id : UInt32) : Bool :=
  (responseTo frames id).isNone

/-- The report ends every pending call as it must end. -/
structure ReaderReport.Settles (call : β → Nat) (r : ReaderReport)
    (frames : List (FrameHeader × Bytes)) (pending : List (Sigma fun _ : UInt32 => β)) : Prop where
  code : r.code = finalCode frames
  failed : r.failed.Perm ((pending.filter fun e => unanswered frames e.1).map fun e => call e.2)
  outcomes : ((r.events ++ r.failures).filter ReaderEvent.isComplete).Perm
    (pending.map fun e => outcome frames e.1 (call e.2))

section Settles

variable {hdr : FrameHeader} {payload : Bytes} {frames : List (FrameHeader × Bytes)}
  {pending rest : List (Sigma fun _ : UInt32 => β)} {r : ReaderReport}

theorem failures_complete (r : ReaderReport) :
    r.failures.filter ReaderEvent.isComplete = r.failures := by
  rw [List.filter_eq_self]
  intro x hx
  obtain ⟨n, -, rfl⟩ := List.mem_map.mp hx
  rfl

/-- No response at all: every call fails. -/
theorem settles_of_unanswered (hnone : ∀ id, responseTo frames id = none) :
    ReaderReport.Settles call
      { code := finalCode frames, failed := (pending.map Sigma.snd).map call } frames pending := by
  have hall : ∀ e ∈ pending, unanswered frames e.1 = true := by
    intro e _
    simp [unanswered, hnone]
  refine ⟨rfl, ?_, ?_⟩
  · rw [List.filter_eq_self.mpr hall, List.map_map]
    exact .refl _
  · rw [List.nil_append, failures_complete, ReaderReport.failures, List.map_map, List.map_map]
    refine .of_eq (List.map_congr_left fun e _ => ?_)
    simp [outcome, hnone]

/-- A frame that answers none of the calls. -/
theorem ReaderReport.Settles.skip (h : r.Settles call frames pending)
    (hserver : isServerFrame (hdr, payload) = true)
    (hother : hdr.type = FrameResponse → ∀ e ∈ pending, hdr.callID ≠ e.1)
    (events : List ReaderEvent) (hevents : events.filter ReaderEvent.isComplete = []) :
    (r.after events).Settles call ((hdr, payload) :: frames) pending := by
  refine ⟨?_, ?_, ?_⟩
  · rw [finalCode_server hserver]
    exact h.code
  · have hsame : ∀ e ∈ pending,
        unanswered ((hdr, payload) :: frames) e.1 = unanswered frames e.1 := by
      intro e he
      rw [unanswered, responseTo_other hserver fun htype => hother htype e he]
      rfl
    rw [List.filter_congr hsame]
    exact h.failed
  · have hsame : ∀ e ∈ pending, outcome ((hdr, payload) :: frames) e.1 (call e.2) =
        outcome frames e.1 (call e.2) :=
      fun e he => outcome_other hserver (fun htype => hother htype e he) _
    have hevents : ((r.after events).events ++ (r.after events).failures).filter
        ReaderEvent.isComplete = (r.events ++ r.failures).filter ReaderEvent.isComplete := by
      simp only [ReaderReport.after, List.filter_append, hevents, List.nil_append]
      rfl
    rw [List.map_congr_left hsame, hevents]
    exact h.outcomes

/-- The first response to a call. -/
theorem ReaderReport.Settles.answer (h : r.Settles call frames rest)
    (htype : hdr.type = FrameResponse) {cb : β} (hpending : pending.Perm (⟨hdr.callID, cb⟩ :: rest))
    (hother : ∀ e ∈ rest, hdr.callID ≠ e.1) :
    (r.after [.complete (call cb) hdr.statusCode.toNat (answerPayload hdr payload)]).Settles call
      ((hdr, payload) :: frames) pending := by
  have hserver : isServerFrame (hdr, payload) = true := by simp [isServerFrame, htype]
  obtain ⟨hcode, hfailed, houtcomes⟩ := h.skip hserver (fun _ => hother) [] rfl
  refine ⟨hcode, ?_, ?_⟩
  · refine hfailed.trans (((hpending.filter _).map _).trans ?_).symm
    rw [List.filter_cons_of_neg (by simp [unanswered, responseTo_self htype])]
  · refine ((houtcomes.cons _).trans ?_).trans (hpending.map _).symm
    rw [List.map_cons, outcome_self htype]

end Settles

theorem report_settles (pending : AList fun _ : UInt32 => β) (frames : List (FrameHeader × Bytes)) :
    (report call onPush pending frames).Settles call frames pending.entries := by
  fun_induction report call onPush pending frames with
  | case1 pending =>
      have hnone : ∀ id, responseTo [] id = none := fun _ => rfl
      exact settles_of_unanswered hnone
  | case2 pending hdr payload frames htype ih =>
      refine ih.skip (by simp [isServerFrame, htype]) (fun hresponse => ?_) _ ?_
      · rw [htype] at hresponse
        cases hresponse
      · cases onPush <;> rfl
  | case3 pending hdr payload frames hpush htype hnone ih =>
      exact ih.skip (by simp [isServerFrame, htype])
        (fun _ _ he => ne_of_mem_entries hnone he) [] rfl
  | case4 pending hdr payload frames hpush htype cb hcb ih =>
      exact ih.answer htype (entries_erase hcb)
        (fun _ he => ne_of_mem_entries (AList.lookup_erase _ _) he)
  | case5 pending hdr payload frames hpush hresponse =>
      have hbad : isServerFrame (hdr, payload) = false := by
        simp [isServerFrame, hpush, hresponse]
      have hcode : finalCode ((hdr, payload) :: frames) = StatusCode.Internal := by
        simp only [finalCode, List.all_cons, hbad, Bool.false_and, Bool.false_eq_true, if_false]
      rw [← hcode]
      refine settles_of_unanswered fun id => ?_
      simp [responseTo, hbad]

/-- Readers that know the same calls have the same report. -/
theorem report_congr {γ : Type} {call' : γ → Nat} {pending : AList fun _ : UInt32 => β}
    {pending' : AList fun _ : UInt32 => γ} (frames : List (FrameHeader × Bytes))
    (h : ∀ id, (pending.lookup id).map call = (pending'.lookup id).map call') :
    (report call onPush pending frames).events = (report call' onPush pending' frames).events ∧
      (report call onPush pending frames).failures.Perm
        (report call' onPush pending' frames).failures := by
  induction frames generalizing pending pending' with
  | nil => exact ⟨rfl, (mapValues_perm h).map _⟩
  | cons frame frames ih =>
      obtain ⟨hdr, payload⟩ := frame
      have hafter : ∀ (events : List ReaderEvent) {r r' : ReaderReport},
          r.events = r'.events ∧ r.failures.Perm r'.failures →
          (r.after events).events = (r'.after events).events ∧
            (r.after events).failures.Perm (r'.after events).failures :=
        fun events _ _ hsame => ⟨congrArg (events ++ ·) hsame.1, hsame.2⟩
      simp only [report]
      split
      · exact hafter _ (ih h)
      · split
        · have hid := h hdr.callID
          cases hcb : pending.lookup hdr.callID with
          | none =>
              rw [hcb, Option.map_none, eq_comm, Option.map_eq_none_iff] at hid
              rw [hid]
              exact ih h
          | some cb =>
              rw [hcb, Option.map_some, eq_comm, Option.map_eq_some_iff] at hid
              obtain ⟨cb', hcb', hcall⟩ := hid
              simp only [hcb', hcall]
              refine hafter _ (ih fun id => ?_)
              by_cases heq : id = hdr.callID
              · rw [heq, AList.lookup_erase, AList.lookup_erase]
                rfl
              · rw [AList.lookup_erase_ne heq, AList.lookup_erase_ne heq, h id]
        · exact ⟨rfl, (mapValues_perm h).map _⟩

end Protocomm
