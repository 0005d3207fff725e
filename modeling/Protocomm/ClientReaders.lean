import Protocomm.Cpp.Channel.ReadLoop
import Protocomm.Go.Channel.ReadLoop

/-!
# The two client readers

`readLoop` of `go/channel.go` and `ReadLoop` of `c++/src/channel.cc` show the
user the same report.
-/

namespace Protocomm

open Misc

section

variable {goCfg : Go.Channel.Config} {cppCfg : Cpp.Channel.Config} {s : Go.Channel.Shared}
  {t : Cpp.Channel.Shared}

/-- Both readers return, and what their users see is the same up to the order of
    the calls that fail together, which are those without a response; every
    pending call is completed once, as the frames say. -/
theorem client_readers_agree (conn : Nat) (frames : List (FrameHeader × Bytes)) (e what : String)
    (hinline : cppCfg.dispatch = .inline) (hpush : goCfg.onPush = cppCfg.onPush)
    (hgo : s.Callable) (hcpp : t.Callable)
    (hsame : ∀ id, (s.pending.lookup id).map Go.Channel.Callback.call =
      (t.pending.lookup id).map Cpp.Channel.Callback.call) :
    (∃ acts u, Go.Channel.Reads goCfg s conn frames e acts u) ∧
    (∃ acts u, Cpp.Channel.Reads cppCfg t frames what acts u) ∧
    ∀ acts u acts' u', Go.Channel.Reads goCfg s conn frames e acts u →
      Cpp.Channel.Reads cppCfg t frames what acts' u' →
      ∃ events last last',
        Go.Channel.trace goCfg ⟨s, [.readLoop conn s.gen .read]⟩ acts = events ++ last ∧
        Cpp.Channel.trace cppCfg ⟨t, [.readLoop .reading]⟩ acts' = events ++ last' ∧
        last.Perm last' ∧
        last.Perm ((s.pending.entries.filter fun c => unanswered frames c.1).map fun c =>
          .complete c.2.call (finalCode frames) []) ∧
        ((events ++ last).filter ReaderEvent.isComplete).Perm
          (s.pending.entries.map fun c => outcome frames c.1 c.2.call) := by
  refine ⟨Go.Channel.readLoop_returns hgo conn frames e,
    Cpp.Channel.readLoop_returns t frames what, ?_⟩
  intro acts u acts' u' hreads hreads'
  obtain ⟨last, htrace, hlast⟩ := Go.Channel.readLoop_shows hgo hreads
  obtain ⟨last', htrace', hlast'⟩ := Cpp.Channel.readLoop_shows hinline hcpp hreads'
  rw [← hpush] at htrace' hlast'
  obtain ⟨hevents, hfailures⟩ := @report_congr _ Go.Channel.Callback.call goCfg.onPush _
    Cpp.Channel.Callback.call s.pending t.pending frames hsame
  have hsettles : (report Go.Channel.Callback.call goCfg.onPush s.pending frames).Settles
      Go.Channel.Callback.call frames s.pending.entries := report_settles s.pending frames
  refine ⟨_, last, last', htrace, htrace'.trans (by rw [hevents]), ?_, ?_, ?_⟩
  · exact (hlast.trans hfailures).trans hlast'.symm
  · refine hlast.trans ?_
    have hfailed := hsettles.failed.map fun n => ReaderEvent.complete n (finalCode frames) []
    rw [List.map_map] at hfailed
    rw [ReaderReport.failures, hsettles.code]
    exact hfailed
  · have hall := (hlast.append_left
      (report Go.Channel.Callback.call goCfg.onPush s.pending frames).events).filter
      ReaderEvent.isComplete
    exact hall.trans hsettles.outcomes

end

/-- Calls 0 and 1 wait under the ids 1 and 2. -/
def goWaiting : Go.Channel.Shared :=
  { pending := ((∅ : Go.Channel.Pending).insert 1 ⟨0, false⟩).insert 2 ⟨1, false⟩ }

def cppWaiting : Cpp.Channel.Shared :=
  { pending := ((∅ : Cpp.Channel.Pending).insert 1 ⟨0, false⟩).insert 2 ⟨1, false⟩ }

/-- A push, a response to an unknown call, the response to call 1 twice. -/
def serverFrames : List (FrameHeader × Bytes) :=
  [({ type := FramePush, methodID := 7, payloadSize := 1 }, [9]),
    ({ type := FrameResponse, callID := 5, methodID := 7, payloadSize := 0 }, []),
    ({ type := FrameResponse, callID := 2, methodID := 7, payloadSize := 1 }, [3]),
    ({ type := FrameResponse, statusCode := 12, callID := 2, methodID := 7, payloadSize := 0 }, [])]

theorem client_readers_agree_waiting :
    ∃ acts u acts' u', Go.Channel.Reads { onPush := true } goWaiting 0 serverFrames "EOF" acts u ∧
      Cpp.Channel.Reads { onPush := true } cppWaiting serverFrames "End of file" acts' u' ∧
      ∃ events last last',
        Go.Channel.trace { onPush := true } ⟨goWaiting, [.readLoop 0 goWaiting.gen .read]⟩ acts =
          events ++ last ∧
        Cpp.Channel.trace { onPush := true } ⟨cppWaiting, [.readLoop .reading]⟩ acts' =
          events ++ last' ∧
        last.Perm last' ∧ last.Perm [.complete 0 StatusCode.Unavailable []] ∧
        ((events ++ last).filter ReaderEvent.isComplete).Perm
          [.complete 1 StatusCode.OK [3], .complete 0 StatusCode.Unavailable []] := by
  have hgo : goWaiting.Callable := by
    have hnil : ∀ cb ∈ mapValues goWaiting.pending, cb.isNil = false := by decide
    exact ⟨rfl, fun id cb hid => hnil cb (mem_mapValues.mpr ⟨id, hid⟩)⟩
  have hcpp : cppWaiting.Callable := by
    have hempty : ∀ cb ∈ mapValues cppWaiting.pending, cb.isEmpty = false := by decide
    exact fun id cb hid => hempty cb (mem_mapValues.mpr ⟨id, hid⟩)
  have hsame : ∀ id, (goWaiting.pending.lookup id).map Go.Channel.Callback.call =
      (cppWaiting.pending.lookup id).map Cpp.Channel.Callback.call := by
    intro id
    by_cases htwo : id = 2
    · rw [htwo]
      rfl
    · by_cases hone : id = 1
      · rw [hone]
        rfl
      · simp only [goWaiting, cppWaiting, AList.lookup_insert_ne htwo, AList.lookup_insert_ne hone]
        rfl
  obtain ⟨⟨acts, u, hreads⟩, ⟨acts', u', hreads'⟩, hall⟩ :=
    @client_readers_agree { onPush := true } { onPush := true } _ _ 0 serverFrames
      "EOF" "End of file" rfl rfl hgo hcpp hsame
  obtain ⟨events, last, last', htrace, htrace', hperm, hlast, houtcomes⟩ :=
    hall acts u acts' u' hreads hreads'
  exact ⟨acts, u, acts', u', hreads, hreads', events, last, last', htrace, htrace', hperm, hlast,
    houtcomes⟩

end Protocomm
