import Protocomm.Go.Channel.Model
import Protocomm.Misc.Alone
import Protocomm.ReaderReport

/-!
# The Go reader shows the report

`readLoop` alone, with the `teardown` it ends in, over any pending calls and any
frames: what the user sees is the report of these frames, with the failed calls
in whatever order `range` visits them.
-/

namespace Protocomm.Go.Channel

open Misc

/-- What the user sees of a step. -/
def shown (p p' : Pool Shared Goroutine) : List ReaderEvent :=
  ((p'.shared.pushes.drop p.shared.pushes.length).map fun x => .push x.2.1 x.2.2) ++
    (p'.shared.invoked.drop p.shared.invoked.length).map fun i =>
      .complete i.call i.status.code i.payload

/-- What the user sees of the replay of `acts`. -/
def trace (cfg : Config) (p : Pool Shared Goroutine) (acts : List (Nat × Action)) :
    List ReaderEvent :=
  (machine cfg).observed shown p acts

/-- What an action reads. -/
def readOf : Action → Option (Except String (FrameHeader × Bytes))
  | .readFrame r => some r
  | _ => none

/-- A whole run of the current reader alone: it reads from `frames` and then the
    error, as far as it reads, and returns. -/
def Reads (cfg : Config) (s : Shared) (conn : Nat) (frames : List (FrameHeader × Bytes))
    (e : String) (acts : List (Nat × Action)) (u : Pool Shared Goroutine) : Prop :=
  (program cfg).Alone readOf s (.readLoop conn s.gen .read) (frames.map .ok ++ [.error e]) .done
    acts u

/-- No pending callback is nil, and the process runs. -/
structure Shared.Callable (s : Shared) : Prop where
  running : s.panicked = false
  notNil : ∀ id cb, s.pending.lookup id = some cb → cb.isNil = false

theorem Shared.Callable.snapshot {s : Shared} (h : s.Callable) :
    ∀ cb ∈ s.snapshot, cb.isNil = false := by
  intro cb hcb
  obtain ⟨id, hid⟩ := mem_mapValues.mp hcb
  exact h.notNil id cb hid

variable {cfg : Config} {s s' : Shared} {g : Goroutine} {u : Pool Shared Goroutine}
  {acts : List (Nat × Action)} {available : List (Except String (FrameHeader × Bytes))}

theorem step_readLoop (hpanicked : s.panicked = false) (conn : Nat) (gen : UInt64) (pc : Reading)
    (a : Action) :
    (program cfg).step s (.readLoop conn gen pc) a = readLoopStep cfg s conn gen pc a := by
  simp [program, step, hpanicked]

theorem step_teardown (hpanicked : s.panicked = false) (origin : Origin) (gen : UInt64)
    (st : Status) (pc : Draining) (a : Action) :
    (program cfg).step s (.teardown origin gen st pc) a = teardownStep s origin gen st pc a := by
  simp [program, step, hpanicked]

theorem step_done (s : Shared) (a : Action) : (program cfg).step s .done a = none := by
  simp only [program, step]
  split <;> rfl

theorem shown_eq_nil (s s' : Shared) (hpushes : s'.pushes = s.pushes)
    (hinvoked : s'.invoked = s.invoked) (l l' : List Goroutine) : shown ⟨s, l⟩ ⟨s', l'⟩ = [] := by
  simp [shown, hpushes, hinvoked]

theorem shown_invoke (cb : Callback) (st : Status) (payload : Bytes) (cause : Cause)
    (l l' : List Goroutine) :
    shown ⟨s, l⟩ ⟨cb.invoke st payload cause s, l'⟩ = [.complete cb.call st.code payload] := by
  simp [shown, Callback.invoke]

section Teardown

variable {origin : Origin} {gen : UInt64} {st : Status}

/-- `range` visits the snapshot in some order. -/
theorem drain_shows {snapshot : List Callback}
    (h : (program cfg).Alone readOf s (.teardown origin gen st (.drain snapshot)) available .done
      acts u)
    (hpanicked : s.panicked = false) (hnil : ∀ cb ∈ snapshot, cb.isNil = false) :
    (trace cfg ⟨s, [.teardown origin gen st (.drain snapshot)]⟩ acts).Perm
      (snapshot.map fun cb => .complete cb.call st.code []) := by
  induction hlength : snapshot.length generalizing s snapshot available acts with
  | zero =>
      obtain rfl := List.eq_nil_of_length_eq_zero hlength
      obtain ⟨a, s', g', new, rest, later, hs, -, hnext⟩ := h.inv shown nofun
      rw [step_teardown hpanicked] at hs
      cases a with
      | run =>
          cases hs
          obtain ⟨hrest, htrace⟩ := hnext rfl
          rw [trace, machine, htrace, shown_eq_nil s s rfl rfl, hrest.observed_last step_done]
          exact .refl _
      | pick i => simp [teardownStep, drainStep] at hs
      | _ => cases hs
  | succ n ih =>
      obtain ⟨a, s', g', new, rest, later, hs, -, hnext⟩ := h.inv shown nofun
      rw [step_teardown hpanicked] at hs
      cases a with
      | pick i =>
          simp only [teardownStep, drainStep] at hs
          split at hs
          · cases hs
          · rename_i cb hcb
            obtain ⟨hlt, hget⟩ := List.getElem?_eq_some_iff.mp hcb
            have hperm : snapshot.Perm (cb :: snapshot.eraseIdx i) := by
              rw [← hget]
              exact (List.getElem_cons_eraseIdx_perm hlt).symm
            rw [if_neg (by simp [hnil cb (hperm.mem_iff.mpr List.mem_cons_self)])] at hs
            cases hs
            obtain ⟨hrest, htrace⟩ := hnext rfl
            have hlater := ih hrest hpanicked
              (fun cb' hcb' => hnil cb' (hperm.mem_iff.mpr (List.mem_cons_of_mem _ hcb')))
              (by rw [List.length_eraseIdx_of_lt hlt, hlength, Nat.add_sub_cancel])
            have hall := hperm.map fun cb => ReaderEvent.complete cb.call st.code []
            rw [trace, machine, htrace, shown_invoke]
            exact (hlater.cons _).trans hall.symm
      | run =>
          simp only [teardownStep, drainStep] at hs
          split at hs <;> cases hs
          rename_i hempty
          rw [List.isEmpty_iff.mp hempty] at hlength
          cases hlength
      | _ => cases hs

/-- What the user sees of `teardown` by the current reader. -/
theorem teardown_shows (hs : s.Callable)
    (h : (program cfg).Alone readOf s (.teardown origin s.gen st .swap) available .done acts u) :
    (trace cfg ⟨s, [.teardown origin s.gen st .swap]⟩ acts).Perm
      ((mapValues s.pending).map fun cb => .complete cb.call st.code []) := by
  obtain ⟨a, s', g', new, rest, later, hswap, -, hnext⟩ := h.inv shown nofun
  rw [step_teardown hs.running] at hswap
  cases a with
  | run =>
      simp only [teardownStep, ne_eq, not_true_eq_false, if_false] at hswap
      cases hswap
      obtain ⟨hclosing, htrace⟩ := hnext rfl
      obtain ⟨a, s', g', new, rest, later, hclose, -, hnext⟩ := hclosing.inv shown nofun
      have hdetached : s.detach.panicked = false := hs.running
      rw [step_teardown hdetached] at hclose
      cases a with
      | run =>
          cases hclose
          obtain ⟨hdraining, htrace'⟩ := hnext rfl
          rw [trace, machine, htrace, htrace', shown_eq_nil s s.detach rfl rfl, List.nil_append,
            shown_eq_nil, List.nil_append]
          · exact drain_shows hdraining hs.running hs.snapshot
          · rfl
          · rfl
      | _ => cases hclose
  | _ => cases hswap

theorem drain_returns {snapshot : List Callback} (hpanicked : s.panicked = false)
    (hnil : ∀ cb ∈ snapshot, cb.isNil = false) :
    (program cfg).Returns readOf s (.teardown origin gen st (.drain snapshot)) available .done := by
  induction snapshot generalizing s with
  | nil =>
      have hdone : (program cfg).Returns readOf s .done available .done :=
        Program.returns_last _ _ _
      have hstep : (program cfg).step s (.teardown origin gen st (.drain [])) .run =
          some (s, .done, []) := step_teardown hpanicked _ _ _ _ _
      exact hdone.of_step hstep
  | cons cb snapshot ih =>
      have hrest : (program cfg).Returns readOf (cb.invoke st [] (.teardown gen) s)
          (.teardown origin gen st (.drain snapshot)) available .done :=
        ih hpanicked fun cb' hcb' => hnil cb' (List.mem_cons_of_mem _ hcb')
      refine hrest.of_step (a := .pick 0) ?_
      rw [step_teardown hpanicked]
      simp [teardownStep, drainStep, hnil cb List.mem_cons_self]

theorem teardown_returns (hs : s.Callable) :
    (program cfg).Returns readOf s (.teardown origin s.gen st .swap) available .done := by
  have hdrain : (program cfg).Returns readOf
      { s.detach with closedConns := s.closedConns ++ s.conn.toList }
      (.teardown origin s.gen st (.drain s.snapshot)) available .done :=
    drain_returns hs.running hs.snapshot
  have hdetached : s.detach.panicked = false := hs.running
  have hclose : (program cfg).Returns readOf s.detach
      (.teardown origin s.gen st (.closeConn s.conn s.snapshot)) available .done :=
    hdrain.of_step (a := .run) (by rw [step_teardown hdetached]; rfl)
  refine hclose.of_step (a := .run) ?_
  rw [step_teardown hs.running]
  simp [teardownStep]

end Teardown

variable {conn : Nat} {frames : List (FrameHeader × Bytes)} {e : String}

/-- What the reader does with one frame: the state and place it goes on from and
    what the user sees. -/
def afterFrame (cfg : Config) (s : Shared) (conn : Nat) (hdr : FrameHeader) (payload : Bytes) :
    Shared × Goroutine × List ReaderEvent :=
  if hdr.type = FramePush then
    if cfg.onPush then
      ({ s with pushes := s.pushes ++ [(conn, hdr.methodID, payload)] },
        .readLoop conn s.gen .read, [.push hdr.methodID payload])
    else (s, .readLoop conn s.gen .read, [])
  else if hdr.type = FrameResponse then
    match s.pending.lookup hdr.callID with
    | none => (s, .readLoop conn s.gen .read, [])
    | some cb =>
        (cb.invoke (responseStatus hdr) (responsePayload hdr payload)
            (.response conn s.gen hdr payload) { s with pending := s.pending.erase hdr.callID },
          .readLoop conn s.gen .read,
          [.complete cb.call hdr.statusCode.toNat (answerPayload hdr payload)])
  else (s, .teardown (.reader conn) s.gen ⟨StatusCode.Internal, "unexpected frame type"⟩ .swap, [])

theorem frame_shows (hs : s.Callable) {hdr : FrameHeader} {payload : Bytes}
    (h : (program cfg).Alone readOf s (.readLoop conn s.gen (.dispatch hdr payload)) available .done
      acts u) :
    ∃ rest, (program cfg).Alone readOf (afterFrame cfg s conn hdr payload).1
        (afterFrame cfg s conn hdr payload).2.1 available .done rest u ∧
      trace cfg ⟨s, [.readLoop conn s.gen (.dispatch hdr payload)]⟩ acts =
        (afterFrame cfg s conn hdr payload).2.2 ++ trace cfg
          ⟨(afterFrame cfg s conn hdr payload).1, [(afterFrame cfg s conn hdr payload).2.1]⟩
          rest := by
  obtain ⟨a, s', g', new, rest, later, hdispatch, hlater, hnext⟩ := h.inv shown nofun
  rw [step_readLoop hs.running] at hdispatch
  cases a with
  | run =>
      obtain rfl : available = later := hlater
      simp only [readLoopStep] at hdispatch
      unfold afterFrame
      split at hdispatch
      · rw [if_pos ‹_›]
        split at hdispatch
        · rw [if_pos ‹_›]
          cases hdispatch
          obtain ⟨hrest, htrace⟩ := hnext rfl
          refine ⟨rest, hrest, htrace.trans ?_⟩
          simp [shown, trace, machine]
        · rw [if_neg ‹_›]
          cases hdispatch
          obtain ⟨hrest, htrace⟩ := hnext rfl
          exact ⟨rest, hrest, htrace.trans (by rw [shown_eq_nil s s rfl rfl]; rfl)⟩
      · rw [if_neg ‹_›]
        split at hdispatch
        · rw [if_pos ‹_›]
          cases hcb : s.pending.lookup hdr.callID with
          | none =>
              rw [hcb] at hdispatch
              cases hdispatch
              obtain ⟨hrest, htrace⟩ := hnext rfl
              exact ⟨rest, hrest, htrace.trans (by rw [shown_eq_nil s s rfl rfl]; rfl)⟩
          | some cb =>
              simp only [hcb, hs.notNil _ _ hcb, Bool.false_eq_true, if_false] at hdispatch
              cases hdispatch
              obtain ⟨hcompleting, htrace⟩ := hnext rfl
              obtain ⟨a, s', g', new, rest, later, hcomplete, hlater, hnext⟩ :=
                hcompleting.inv shown nofun
              have herased : { s with pending := s.pending.erase hdr.callID }.panicked = false :=
                hs.running
              rw [step_readLoop herased] at hcomplete
              cases a with
              | run =>
                  obtain rfl : available = later := hlater
                  cases hcomplete
                  obtain ⟨hrest, htrace'⟩ := hnext rfl
                  refine ⟨rest, hrest, htrace.trans ?_⟩
                  rw [htrace', shown_invoke, responseStatus, Status.code_ofWire,
                    shown_eq_nil s { s with pending := s.pending.erase hdr.callID } rfl rfl]
                  rfl
              | _ => cases hcomplete
        · rw [if_neg ‹_›]
          cases hdispatch
          obtain ⟨hrest, htrace⟩ := hnext rfl
          exact ⟨rest, hrest, htrace.trans (by rw [shown_eq_nil s s rfl rfl]; rfl)⟩
  | _ => cases hdispatch

theorem afterFrame_callable (hs : s.Callable) (hdr : FrameHeader) (payload : Bytes) :
    (afterFrame cfg s conn hdr payload).1.Callable := by
  unfold afterFrame
  split
  · split
    · exact ⟨hs.running, hs.notNil⟩
    · exact hs
  · split
    · split
      · exact hs
      · refine ⟨hs.running, fun id cb hid => ?_⟩
        simp only [Callback.invoke] at hid
        by_cases heq : id = hdr.callID
        · rw [heq, AList.lookup_erase] at hid
          cases hid
        · rw [AList.lookup_erase_ne heq] at hid
          exact hs.notNil id cb hid
    · exact hs

/-- What the user sees of the reader. -/
theorem readLoop_shows (hs : s.Callable) (h : Reads cfg s conn frames e acts u) :
    (report Callback.call cfg.onPush s.pending frames).Shown
      (trace cfg ⟨s, [.readLoop conn s.gen .read]⟩ acts) := by
  induction frames generalizing s acts with
  | nil =>
      obtain ⟨a, s', g', new, rest, later, hread, hlater, hnext⟩ := h.inv shown nofun
      rw [step_readLoop hs.running] at hread
      cases a with
      | readFrame r =>
          obtain ⟨rfl, rfl⟩ := List.cons.inj hlater
          cases hread
          obtain ⟨hrest, htrace⟩ := hnext rfl
          rw [trace, machine, htrace, shown_eq_nil s s rfl rfl]
          exact shown_of_perm (teardown_shows hs hrest)
      | _ => cases hread
  | cons frame frames ih =>
      obtain ⟨hdr, payload⟩ := frame
      obtain ⟨a, s', g', new, rest, later, hread, hlater, hnext⟩ := h.inv shown nofun
      rw [step_readLoop hs.running] at hread
      cases a with
      | readFrame r =>
          obtain ⟨rfl, rfl⟩ := List.cons.inj hlater
          cases hread
          obtain ⟨hdispatching, htrace⟩ := hnext rfl
          obtain ⟨rest', hrest, htrace'⟩ := frame_shows hs hdispatching
          have hcallable : (afterFrame cfg s conn hdr payload).1.Callable :=
            afterFrame_callable hs hdr payload
          rw [trace, machine, htrace, shown_eq_nil s s rfl rfl]
          rw [trace, machine] at htrace'
          rw [List.nil_append, htrace']
          simp only [report]
          unfold afterFrame at hrest hcallable ⊢
          split
          · rw [if_pos ‹_›] at hrest hcallable
            split
            · rw [if_pos ‹_›] at hrest hcallable
              exact (ih hcallable hrest).after _
            · rw [if_neg ‹_›] at hrest hcallable
              exact (ih hcallable hrest).after []
          · rw [if_neg ‹_›] at hrest hcallable
            split
            · rw [if_pos ‹_›] at hrest hcallable
              cases hcb : s.pending.lookup hdr.callID with
              | none =>
                  simp only [hcb] at hrest hcallable
                  exact ih hcallable hrest
              | some cb =>
                  simp only [hcb] at hrest hcallable
                  exact (ih hcallable hrest).after _
            · rw [if_neg ‹_›] at hrest
              exact shown_of_perm (teardown_shows hs hrest)
      | _ => cases hread

/-- The reader comes to its end. -/
theorem readLoop_returns (hs : s.Callable) (conn : Nat) (frames : List (FrameHeader × Bytes))
    (e : String) :
    (program cfg).Returns readOf s (.readLoop conn s.gen .read) (frames.map .ok ++ [.error e])
      .done := by
  induction frames generalizing s with
  | nil =>
      have hfail : (program cfg).Returns readOf s (.teardown (.reader conn) s.gen
          ⟨StatusCode.Unavailable, "read: " ++ e⟩ .swap) [] .done := teardown_returns hs
      have hstep := @step_readLoop cfg s hs.running conn s.gen .read (.readFrame (.error e))
      exact hfail.of_step hstep
  | cons frame frames ih =>
      obtain ⟨hdr, payload⟩ := frame
      have hread :=
        @step_readLoop cfg s hs.running conn s.gen .read (.readFrame (.ok (hdr, payload)))
      suffices hdispatch : (program cfg).Returns readOf s
          (.readLoop conn s.gen (.dispatch hdr payload)) (frames.map .ok ++ [.error e]) .done from
        hdispatch.of_step hread
      have hcallable : (afterFrame cfg s conn hdr payload).1.Callable :=
        afterFrame_callable hs hdr payload
      have hstep := @step_readLoop cfg s hs.running conn s.gen (.dispatch hdr payload) .run
      simp only [readLoopStep] at hstep
      unfold afterFrame at hcallable
      split at hstep
      · rw [if_pos ‹_›] at hcallable
        split at hstep
        · rw [if_pos ‹_›] at hcallable
          exact (ih hcallable).of_step hstep
        · exact (ih hs).of_step hstep
      · rw [if_neg ‹_›] at hcallable
        split at hstep
        · rw [if_pos ‹_›] at hcallable
          split at hstep
          · exact (ih hs).of_step hstep
          · rename_i cb hcb
            simp only [hcb] at hcallable
            rw [if_neg (by simp [hs.notNil _ _ hcb])] at hstep
            have herased : { s with pending := s.pending.erase hdr.callID }.panicked = false :=
              hs.running
            have hcomplete : (program cfg).Returns readOf
                { s with pending := s.pending.erase hdr.callID }
                (.readLoop conn s.gen (.complete cb hdr payload)) (frames.map .ok ++ [.error e])
                .done :=
              (ih hcallable).of_step (a := .run) (by rw [step_readLoop herased]; rfl)
            exact hcomplete.of_step hstep
        · exact (teardown_returns hs).of_step hstep

end Protocomm.Go.Channel
