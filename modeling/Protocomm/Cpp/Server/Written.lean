import Protocomm.Cpp.Server.Drain
import Protocomm.Cpp.Server.Wire
import Protocomm.Misc.Duty

/-!
# What the client of a stream receives from the C++ server

While a client sends a stream nothing is pushed to its session and no write fails. So when
the session is over, what the client can receive is the handshake reply and then the bytes
of the frames written, each frame whole.
-/

namespace Protocomm.Cpp.Server

open Misc

/-- The bytes that the client of session `k` can receive. -/
def Shared.receivedBy (k : Nat) (s : Shared) : Bytes := (s.session k).out.received

/-- The thread has the handshake of session `k` before it. -/
def Thread.greets (k : Nat) : Thread → Bool
  | .acceptLoop (.insert j) | .wrapped j .onConnect | .wrapped j .readHandshake
  | .wrapped j .onHandshake | .wrapped j (.writeHandshake _) => j == k
  | _ => false

variable {cfg : Config} {T : Table} {stream : Bytes} {k : Nat} {s s' : Shared}
  {t t' : Thread} {a : Action} {new : List Thread} {p : Pool Shared Thread}

theorem calm_of_plain (h : (plainProgram cfg T stream k).machine.Reachable initial p) :
    (calmProgram cfg k).machine.Reachable initial p := by
  refine Program.reachable_restrict_mono (fun u hu t ht a hgood => ?_) h
  have hquiet := (plain_quiet hu).2 t ht
  unfold calm
  split
  · cases hgood
  · cases hquiet
  · exact hgood
  · rfl

/-- The handshake that a thread has before it succeeds. -/
theorem Move.greets (h : Move cfg s t a s' t' new) (hgood : plain cfg T stream k s t a = true)
    (ht : t.greets k = true) :
    Ready cfg.handshakeHeader s'.made k ∨ ∃ v ∈ t' :: new, v.greets k = true := by
  cases h with
  | insert => exact Or.inr ⟨_, List.mem_cons_of_mem _ List.mem_cons_self, ht⟩
  | connect | handshakeAsk | handshakeOK | answerYes | greet =>
      exact Or.inr ⟨_, List.mem_cons_self, ht⟩
  | connectNoHeader hsession hempty =>
      obtain rfl := beq_iff_eq.mp ht
      exact Or.inl ⟨_, getElem?_set_of_some _ hsession, by rw [hempty]; rfl⟩
  | handshakeMismatch received _ hne =>
      obtain rfl := beq_iff_eq.mp ht
      exact absurd (by simpa [plain] using hgood) hne
  | connectThrow | handshakeFailed | answerNo | answerThrow | replyFailed =>
      obtain rfl := beq_iff_eq.mp ht
      simp [plain] at hgood
  | reply sent n hsession =>
      obtain rfl := beq_iff_eq.mp ht
      exact Or.inl ⟨_, getElem?_set_of_some _ hsession, Outlet.ready_of_replied rfl⟩
  | _ => cases ht

theorem plain_ready (hreach : (plainProgram cfg T stream k).machine.Reachable initial p)
    (hend : Settled k p) : Ready cfg.handshakeHeader p.shared.made k := by
  have hduty := Program.reachable_duty (P := plainProgram cfg T stream k) (ι := Unit)
    (D := fun s _ => k < s.made.length) (S := fun s _ => Ready cfg.handshakeHeader s.made k)
    (H := fun t _ => t.greets k = true) (by simp [initial]) ?_ hreach (x := ()) hend.1
  · rcases hduty with hready | ⟨t, ht, hgreets⟩
    · exact hready
    · have hnone := (hend.2.2 t ht).1
      unfold Thread.greets at hgreets
      split at hgreets <;> simp_all [Thread.wraps]
  · intro u hu s' t t' new a ht hs _
    obtain ⟨hgood, hmove⟩ := plain_step hs
    refine ⟨fun hk => ?_, fun hready => hready.mono hmove, hmove.greets hgood⟩
    rcases hmove.length_made with hlen | ⟨-, rfl, -, hmade⟩
    · exact Or.inl (hlen ▸ hk)
    · rw [hmade, List.length_append, List.length_singleton] at hk
      rcases Nat.lt_succ_iff_lt_or_eq.mp hk with hlt | rfl
      · exact Or.inl hlt
      · exact Or.inr (Or.inr ⟨_, List.mem_cons_self, beq_self_eq_true _⟩)

/-- When the session is over, its client can receive the handshake reply and the frames
    written, each of them whole. -/
theorem plain_received (hreach : (plainProgram cfg T stream k).machine.Reachable initial p)
    (hend : Settled k p) :
    p.shared.receivedBy k = cfg.handshakeHeader ++ (p.shared.framesTo k).flatMap encodeFrame := by
  exact calm_received_idle (calm_of_plain hreach) (plain_ready hreach hend)
    (plain_open hreach).2.1 (hend.inactive (reachable_of_plain hreach))

end Protocomm.Cpp.Server
