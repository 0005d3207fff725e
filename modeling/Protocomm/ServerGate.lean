import Protocomm.Cpp.Server.Gate
import Protocomm.Go.Server.Gate

/-!
# The handshake gate

Both servers serve requests only behind the handshake. The gate is not there when the
header is empty: then `onHandshake` is not called either, although it may be set.
-/

namespace Protocomm

open Misc

/-- For both servers and every configuration: a handler runs only on connections whose
    first bytes are the header and that `onHandshake` has admitted, if it is set, exactly
    when the header is not empty or `onHandshake` is not set. -/
theorem servers_gated_iff (goCfg : Go.Server.Config) (cppCfg : Cpp.Server.Config) :
    ((∀ p, (Go.Server.machine goCfg).Reachable Go.Server.initial p → ∀ r ∈ p.shared.runs,
        ∃ peer, p.shared.peers[r.peer]? = some peer ∧
          peer.received = goCfg.handshakeHeader ∧
          (goCfg.onHandshake = true → peer.admitted = true)) ↔
      (goCfg.handshakeHeader ≠ [] ∨ goCfg.onHandshake = false)) ∧
    ((∀ p, (Cpp.Server.machine cppCfg).Reachable Cpp.Server.initial p → ∀ r ∈ p.shared.runs,
        ∃ session, p.shared.made[r.session]? = some session ∧
          session.received = cppCfg.handshakeHeader ∧
          (cppCfg.onHandshake = true → session.admitted = true)) ↔
      (cppCfg.handshakeHeader ≠ [] ∨ cppCfg.onHandshake = false)) := by
  refine ⟨⟨fun hall => ?_, fun hcfg p hreach r hr => ?_⟩,
    ⟨fun hall => ?_, fun hcfg p hreach r hr => ?_⟩⟩
  · by_contra hbad
    simp only [not_or, not_not, Bool.not_eq_false] at hbad
    obtain ⟨p, hrun, hruns, hadmitted⟩ := Go.Server.noHeaderRun_ungated hbad.1
    obtain ⟨peer, hk, -, hyes⟩ := hall p ⟨_, hrun⟩ ⟨0, 1, 7, 0, [], none⟩ (by simp [hruns])
    have hflag := congrArg (·[0]?) hadmitted
    simp [hk, hyes hbad.2] at hflag
  · obtain ⟨peer, hk, hpassed⟩ := Go.Server.reachable_gated hcfg hreach r hr
    exact ⟨peer, hk, hpassed.received, hpassed.admitted⟩
  · by_contra hbad
    simp only [not_or, not_not, Bool.not_eq_false] at hbad
    obtain ⟨p, hrun, hruns, hadmitted⟩ := Cpp.Server.noHeaderRun_ungated hbad.1
    obtain ⟨session, hk, -, hyes⟩ := hall p ⟨_, hrun⟩ ⟨0, 1, 7, 0, [], none⟩ (by simp [hruns])
    have hflag := congrArg (·[0]?) hadmitted
    simp [hk, hyes hbad.2] at hflag
  · obtain ⟨session, hk, hpassed⟩ := Cpp.Server.reachable_gated hcfg hreach r hr
    exact ⟨session, hk, hpassed.received, hpassed.admitted⟩

/-- With an empty header and `onHandshake` set, both servers run a handler for a client
    that `onHandshake` has not seen. -/
theorem handler_without_onHandshake :
    (∃ p peer, (Go.Server.machine { handshakeHeader := [], onHandshake := true }).run
        Go.Server.initial Go.Server.noHeaderRun = some p ∧
      p.shared.runs.map Go.Server.Run.peer = [0] ∧ p.shared.peers[0]? = some peer ∧
      peer.admitted = false) ∧
    (∃ p session, (Cpp.Server.machine { handshakeHeader := [], onHandshake := true }).run
        Cpp.Server.initial Cpp.Server.noHeaderRun = some p ∧
      p.shared.runs.map Cpp.Server.Run.session = [0] ∧ p.shared.made[0]? = some session ∧
      session.admitted = false) :=
  ⟨⟨_, _, rfl, rfl, rfl, rfl⟩, ⟨_, _, rfl, rfl, rfl, rfl⟩⟩

end Protocomm
