import Protocomm.Cpp.Channel.Moves
import Protocomm.Misc.Alone
import Protocomm.ReaderReport

/-!
# The C++ reader shows the report

`ReadLoop` alone with `Dispatch::Inline`, over any pending calls and any frames.
A frame is one segment of the coroutine, and so is `FailAllPending` at its end.
-/

namespace Protocomm.Cpp.Channel

open Misc

/-- What the user sees of a step. -/
def shown (p p' : Pool Shared Thread) : List ReaderEvent :=
  ((p'.shared.out.pushes.drop p.shared.out.pushes.length).map fun x => .push x.1 x.2) ++
    (p'.shared.out.invoked.drop p.shared.out.invoked.length).map fun i =>
      .complete i.call i.status.code i.payload

/-- What the user sees of the replay of `acts`. -/
def trace (cfg : Config) (p : Pool Shared Thread) (acts : List (Nat × Action)) :
    List ReaderEvent :=
  (machine cfg).observed shown p acts

/-- What an action reads. -/
def readOf : Action → Option ReadOutcome
  | .readFrame r => some r
  | _ => none

/-- A whole run of the reader alone: it reads from `frames` and then the error,
    as far as it reads, and returns. -/
def Reads (cfg : Config) (s : Shared) (frames : List (FrameHeader × Bytes)) (what : String)
    (acts : List (Nat × Action)) (u : Pool Shared Thread) : Prop :=
  (program cfg).Alone readOf s (.readLoop .reading)
    ((frames.map fun frame => .frame frame.1 frame.2) ++ [.error what]) .done acts u

/-- No pending callback is empty. -/
def Shared.Callable (s : Shared) : Prop :=
  ∀ id cb, s.pending.lookup id = some cb → cb.isEmpty = false

variable {cfg : Config} {s s' : Shared} {u : Pool Shared Thread} {acts : List (Nat × Action)}
  {frames : List (FrameHeader × Bytes)} {what : String}

/-- With `Dispatch::Inline` the callbacks of a snapshot are called at once. -/
theorem failAll_invoked (hinline : cfg.dispatch = .inline) (d : Deliveries)
    {snapshot : List Callback} (hcalls : ∀ cb ∈ snapshot, cb.isEmpty = false) (st : Status) :
    (failAll cfg d snapshot st true .io).invoked =
        d.invoked ++ snapshot.map (fun cb => ⟨cb.call, st, [], .io⟩) ∧
      (failAll cfg d snapshot st true .io).pushes = d.pushes := by
  have hall : (snapshot.filter fun cb => !cb.isEmpty) = snapshot :=
    List.filter_eq_self.mpr fun cb hcb => by rw [hcalls cb hcb]; rfl
  rw [failAll_eq, if_neg (by simp [hinline]), hall]
  exact ⟨rfl, rfl⟩

/-- What the user sees of `FailAllPending` at the end of the reader. -/
theorem failAllPending_shown (hinline : cfg.dispatch = .inline) (hs : s.Callable) (st : Status)
    (l l' : List Thread) :
    shown ⟨s, l⟩ ⟨(failAllPending cfg s st true .io).endReadLoop, l'⟩ =
      (mapValues s.pending).map fun cb => .complete cb.call st.code [] := by
  have hcalls : ∀ cb ∈ mapValues s.pending, cb.isEmpty = false := by
    intro cb hcb
    obtain ⟨id, hid⟩ := mem_mapValues.mp hcb
    exact hs id cb hid
  obtain ⟨hinvoked, hpushes⟩ := failAll_invoked hinline s.out hcalls st
  simp [shown, failAllPending, Shared.endReadLoop, Shared.coReturn, hinvoked, hpushes]

/-- What the reader does with one frame: the state and place it goes on from and
    what the user sees. -/
def afterFrame (cfg : Config) (s : Shared) (hdr : FrameHeader) (payload : Bytes) :
    Shared × Thread × List ReaderEvent :=
  if hdr.type = FramePush then
    if cfg.onPush then
      ({ s with out := postPush cfg s.out hdr.methodID payload }, .readLoop .reading,
        [.push hdr.methodID payload])
    else (s, .readLoop .reading, [])
  else if hdr.type = FrameResponse then
    (takeResponse cfg s hdr payload, .readLoop .reading,
      match s.pending.lookup hdr.callID with
      | none => []
      | some cb => [.complete cb.call hdr.statusCode.toNat (answerPayload hdr payload)])
  else
    ((failAllPending cfg s ⟨StatusCode.Internal, "unexpected frame type"⟩ true .io).endReadLoop,
      .done, (mapValues s.pending).map fun cb => .complete cb.call StatusCode.Internal [])

theorem step_frame (s : Shared) (hdr : FrameHeader) (payload : Bytes) :
    (program cfg).step s (.readLoop .reading) (.readFrame (.frame hdr payload)) =
      some ((afterFrame cfg s hdr payload).1, (afterFrame cfg s hdr payload).2.1, []) := by
  simp only [program, step, readLoopStep, afterFrame]
  split
  · split <;> rfl
  · split <;> rfl

theorem frame_shown (hinline : cfg.dispatch = .inline) (hs : s.Callable) (hdr : FrameHeader)
    (payload : Bytes) (l l' : List Thread) :
    shown ⟨s, l⟩ ⟨(afterFrame cfg s hdr payload).1, l'⟩ = (afterFrame cfg s hdr payload).2.2 := by
  unfold afterFrame
  split
  · split
    · simp [shown, postPush, hinline]
    · simp [shown]
  · split
    · cases hcb : s.pending.lookup hdr.callID with
      | none => simp [shown, takeResponse, hcb]
      | some cb =>
          simp [shown, takeResponse, hcb, postResponse, hs _ _ hcb, hinline, Deliveries.invoke,
            responseStatus, Status.code_ofWire, responsePayload, answerPayload]
    · exact failAllPending_shown hinline hs _ _ _

theorem afterFrame_callable (hs : s.Callable) (hdr : FrameHeader) (payload : Bytes) :
    (afterFrame cfg s hdr payload).1.Callable := by
  unfold afterFrame
  split
  · split <;> exact hs
  · split
    · intro id cb hid
      simp only [takeResponse] at hid
      split at hid
      · exact hs id cb hid
      · by_cases heq : id = hdr.callID
        · rw [heq, AList.lookup_erase] at hid
          cases hid
        · rw [AList.lookup_erase_ne heq] at hid
          exact hs id cb hid
    · intro id cb hid
      cases hid

theorem step_done (s : Shared) (a : Action) : (program cfg).step s .done a = none := rfl

/-- What the user sees of the reader. -/
theorem readLoop_shows (hinline : cfg.dispatch = .inline) (hs : s.Callable)
    (h : Reads cfg s frames what acts u) :
    (report Callback.call cfg.onPush s.pending frames).Shown
      (trace cfg ⟨s, [.readLoop .reading]⟩ acts) := by
  induction frames generalizing s acts with
  | nil =>
      obtain ⟨a, s', t', new, rest, later, hread, hlater, hnext⟩ := h.inv shown nofun
      cases a with
      | readFrame r =>
          obtain ⟨rfl, rfl⟩ := List.cons.inj hlater
          cases hread
          obtain ⟨hrest, htrace⟩ := hnext rfl
          rw [trace, machine, htrace, failAllPending_shown hinline hs,
            hrest.observed_last step_done, List.append_nil]
          exact shown_of_perm (.refl _)
      | _ => cases hread
  | cons frame frames ih =>
      obtain ⟨hdr, payload⟩ := frame
      obtain ⟨a, s', t', new, rest, later, hread, hlater, hnext⟩ := h.inv shown nofun
      cases a with
      | readFrame r =>
          obtain ⟨rfl, rfl⟩ := List.cons.inj hlater
          rw [step_frame] at hread
          cases hread
          obtain ⟨hrest, htrace⟩ := hnext rfl
          have hcallable : (afterFrame cfg s hdr payload).1.Callable :=
            afterFrame_callable hs hdr payload
          rw [trace, machine, htrace, frame_shown hinline hs]
          simp only [report]
          unfold afterFrame at hrest hcallable ⊢
          split
          · rw [if_pos ‹_›] at hrest hcallable
            split
            · rw [if_pos ‹_›] at hrest hcallable
              exact (ih hcallable hrest).after _
            · rw [if_neg ‹_›] at hrest hcallable
              exact (ih hcallable hrest).after []
          · rw [if_neg ‹_›] at hrest hcallable
            split
            · rw [if_pos ‹_›] at hrest hcallable
              have hshows := ih hcallable hrest
              unfold takeResponse at hshows ⊢
              cases hcb : s.pending.lookup hdr.callID with
              | none =>
                  simp only [hcb] at hshows
                  exact hshows
              | some cb =>
                  simp only [hcb] at hshows
                  exact hshows.after _
            · rw [if_neg ‹_›] at hrest
              rw [hrest.observed_last step_done, List.append_nil]
              exact shown_of_perm (.refl _)
      | _ => cases hread

/-- The reader comes to its end. -/
theorem readLoop_returns (s : Shared) (frames : List (FrameHeader × Bytes)) (what : String) :
    (program cfg).Returns readOf s (.readLoop .reading)
      ((frames.map fun frame => .frame frame.1 frame.2) ++ [.error what]) .done := by
  induction frames generalizing s with
  | nil =>
      have hstep : (program cfg).step s (.readLoop .reading) (.readFrame (.error what)) =
          some (_, .done, []) := rfl
      exact (Program.returns_last _ _ _).of_step hstep
  | cons frame frames ih =>
      have hstep := @step_frame cfg s frame.1 frame.2
      have hplace : (afterFrame cfg s frame.1 frame.2).2.1 = .readLoop .reading ∨
          (afterFrame cfg s frame.1 frame.2).2.1 = .done := by
        unfold afterFrame
        split
        · split <;> exact Or.inl rfl
        · split
          · exact Or.inl rfl
          · exact Or.inr rfl
      rcases hplace with hplace | hplace
      · rw [hplace] at hstep
        exact (ih _).of_step hstep
      · rw [hplace] at hstep
        exact (Program.returns_last _ _ _).of_step hstep

end Protocomm.Cpp.Channel
