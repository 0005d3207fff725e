import Protocomm.Cpp.Server.Output
import Protocomm.Go.Server.Output

/-!
# Handshake first, then whole frames

Both servers put a connection into `sessions` before its handshake, so a push may
overtake the handshake reply. This is the only way in which their output is ill
framed.
-/

namespace Protocomm

open Misc

/-- For both servers, the output of every connection is the handshake reply and then
    whole frames in all states of a run exactly when every push of the run is written
    after the reply of its connection. -/
theorem servers_framed_iff (goCfg : Go.Server.Config) (cppCfg : Cpp.Server.Config)
    (hgo : goCfg.handshakeHeader ≠ []) (hcpp : cppCfg.handshakeHeader ≠ []) :
    (∀ acts p, (Go.Server.machine goCfg).run Go.Server.initial acts = some p →
      ((∀ u ∈ (Go.Server.machine goCfg).visited Go.Server.initial acts,
          Go.Server.OutputFramed goCfg.handshakeHeader u) ↔
        (Go.Server.machine goCfg).Meets Go.Server.AfterReply Go.Server.initial acts)) ∧
    (∀ acts p, (Cpp.Server.machine cppCfg).run Cpp.Server.initial acts = some p →
      ((∀ u ∈ (Cpp.Server.machine cppCfg).visited Cpp.Server.initial acts,
          Cpp.Server.OutputFramed cppCfg.handshakeHeader u) ↔
        (Cpp.Server.machine cppCfg).Meets Cpp.Server.AfterReply Cpp.Server.initial acts)) := by
  constructor
  · intro acts p hrun
    exact Go.Server.outputFramed_iff_afterReply hgo hrun
  · intro acts p hrun
    exact Cpp.Server.outputFramed_iff_afterReply hcpp hrun

/-- A connection is accepted and put into `sessions`; then a `Broadcast` runs. -/
def earlyPushGo : List (Nat × Go.Server.Action) :=
  [(1, .accepted), (1, .run), (0, .broadcast 9 [7]), (2, .pick 0), (2, .run), (2, .wrote 16 none),
    (2, .wrote 1 none), (2, .run)]

def earlyPushCpp : List (Nat × Cpp.Server.Action) :=
  [(2, .accepted), (2, .run), (0, .broadcast 9 [7]), (4, .pick 0), (1, .handle 0), (5, .run),
    (5, .wrote 17)]

theorem servers_framed_iff_earlyPush :
    ((∀ u ∈ (Go.Server.machine {}).visited Go.Server.initial earlyPushGo,
        Go.Server.OutputFramed [112, 99, 49] u) ↔
      (Go.Server.machine {}).Meets Go.Server.AfterReply Go.Server.initial earlyPushGo) ∧
    ((∀ u ∈ (Cpp.Server.machine {}).visited Cpp.Server.initial earlyPushCpp,
        Cpp.Server.OutputFramed [112, 99, 49] u) ↔
      (Cpp.Server.machine {}).Meets Cpp.Server.AfterReply Cpp.Server.initial earlyPushCpp) := by
  have hboth := servers_framed_iff {} {} (by decide) (by decide)
  exact ⟨hboth.1 earlyPushGo _ rfl, hboth.2 earlyPushCpp _ rfl⟩

/-- The bytes of the push of the two runs. -/
def earlyPushBytes : Bytes := [3, 0, 0, 0, 0, 0, 0, 0, 0, 0, 0, 9, 0, 0, 0, 1, 7]

/-- In both runs the peer, whose handshake was not accepted, receives a frame before any
    handshake reply. -/
theorem push_before_handshake :
    (∃ p peer, (Go.Server.machine {}).run Go.Server.initial earlyPushGo = some p ∧
      p.shared.peers[0]? = some peer ∧ peer.out.accepted = false ∧
      peer.out.received = earlyPushBytes ∧ ¬ Go.Server.OutputFramed [112, 99, 49] p) ∧
    (∃ p session, (Cpp.Server.machine {}).run Cpp.Server.initial earlyPushCpp = some p ∧
      p.shared.made[0]? = some session ∧ session.out.accepted = false ∧
      session.out.received = earlyPushBytes ∧ ¬ Cpp.Server.OutputFramed [112, 99, 49] p) := by
  constructor
  · refine ⟨_, _, rfl, rfl, rfl, by decide, fun hall => ?_⟩
    have hempty := (hall 0 _ rfl).1 rfl
    exact absurd hempty (by decide)
  · refine ⟨_, _, rfl, rfl, rfl, by decide, fun hall => ?_⟩
    have hempty := (hall 0 _ rfl).1 rfl
    exact absurd hempty (by decide)

end Protocomm
