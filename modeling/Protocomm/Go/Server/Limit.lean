import Mathlib.Algebra.Order.BigOperators.Group.List
import Mathlib.Algebra.Order.Group.Nat
import Protocomm.Go.Server.Lifecycle

/-!
# The concurrency limit of the Go server

With a positive `maxConcurrent` a request takes a token of `s.sem` in the read loop of
its connection and gives it back at the end of its own goroutine. The tokens in the
channel are exactly those of the requests in between, over all connections.
-/

namespace Protocomm.Go.Server

open Misc

variable {cfg : Config} {p : Pool Shared Goroutine} {k : Nat}

/-- The request in the hands of the goroutine has taken a token and not given it back. -/
def Goroutine.holdsToken : Goroutine → Nat
  | .handleConn _ (.spawn _ _) => 1
  | .request _ _ _ .inflightDone => 0
  | .request _ _ _ _ => 1
  | _ => 0

/-- The goroutine is inside a handler. -/
def Goroutine.inHandler : Goroutine → Nat
  | .request _ _ _ (.running _) => 1
  | _ => 0

theorem inHandler_le_holdsToken (g : Goroutine) : g.inHandler ≤ g.holdsToken := by
  cases g with
  | request k hdr payload pc => cases pc <;> simp [Goroutine.inHandler, Goroutine.holdsToken]
  | _ => exact Nat.zero_le _

section

variable {cap : Nat} (hcap : cfg.sem = some cap)
include hcap

/-- The tokens are those of the requests that hold one. -/
theorem reachable_sem (hreach : (machine cfg).Reachable initial p) :
    (p.threads.map Goroutine.holdsToken).sum = p.shared.sem := by
  refine Program.reachable_counted (P := program cfg) Shared.sem _ rfl ?_ hreach
  intro u _ s' g g' new rest a _ hcount hs
  cases step_move hs with
  | acquire k hdr payload sem hsem =>
      simp [(hsem cap hcap).2, Goroutine.holdsToken]
  | release k hdr payload sem hsem =>
      simp only [Goroutine.holdsToken] at hcount
      simp only [hsem cap hcap, Goroutine.holdsToken, List.map_nil, List.sum_nil]
      omega
  | requestUnlock hdr payload rhdr rpayload err pc hpeer hpc =>
      rcases hpc with rfl | rfl <;> rfl
  | _ => simp [Goroutine.holdsToken, Shared.setPeer, Shared.log, Shared.setResult, Shared.sweep]

theorem reachable_sem_le (hreach : (machine cfg).Reachable initial p) : p.shared.sem ≤ cap := by
  refine Program.reachable_shared (P := program cfg) (I := fun s => s.sem ≤ cap)
    (Nat.zero_le _) ?_ hreach
  intro u _ s' g g' new a _ hle hs
  cases step_move hs with
  | acquire k hdr payload sem hsem =>
      obtain ⟨hlt, rfl⟩ := hsem cap hcap
      exact hlt
  | release k hdr payload sem hsem =>
      rw [hsem cap hcap]
      exact Nat.le_trans (Nat.sub_le _ _) hle
  | _ => exact hle

/-- A token is free when no request is served or about to be. -/
theorem sem_lt (hreach : (machine cfg).Reachable initial p)
    (hrequests : ∀ j hdr payload pc, .request j hdr payload pc ∉ p.threads)
    (hspawns : ∀ j hdr payload, .handleConn j (.spawn hdr payload) ∉ p.threads) :
    p.shared.sem < cap := by
  have hzero : (p.threads.map Goroutine.holdsToken).sum = 0 := by
    refine List.sum_eq_zero (List.forall_mem_map.mpr fun g hg => ?_)
    cases g with
    | handleConn j pc =>
        cases pc with
        | spawn hdr payload => exact absurd hg (hspawns j hdr payload)
        | _ => rfl
    | request j hdr payload pc => exact absurd hg (hrequests j hdr payload pc)
    | _ => rfl
  rw [← reachable_sem hcap hreach, hzero]
  unfold Config.sem at hcap
  split at hcap <;> cases hcap
  omega

end

/-- A request is served only while the `handleConn` of its connection runs. -/
theorem exists_handleConn {hdr : FrameHeader} {payload : Bytes} {pc : Serving}
    (hreach : (machine cfg).Reachable initial p)
    (hg : .request k hdr payload pc ∈ p.threads) : ∃ pc', .handleConn k pc' ∈ p.threads := by
  have hphases := (reachable_inPhase hreach).2
  have hconnected := (hphases _ hg).1 k .connected rfl
  have hlt := ((reachable_placed hreach).2 _ hg).lt rfl
  by_contra hnone
  -- nobody else handles a connection that is in use
  have hgone : ∀ v ∈ p.threads, v.handles k = 0 := by
    intro v hv
    by_contra hne
    unfold Goroutine.handles at hne
    split at hne
    · rename_i j
      by_cases hj : j = k
      · subst hj
        cases hconnected.unique ((hphases _ hv).1 j .accepted rfl)
      · exact hne (if_neg hj)
    · rename_i j
      by_cases hj : j = k
      · subst hj
        cases hconnected.unique ((hphases _ hv).1 j .accepted rfl)
      · exact hne (if_neg hj)
    · rename_i j pc'
      by_cases hj : j = k
      · subst hj
        exact hnone ⟨pc', hv⟩
      · exact hne (if_neg hj)
    · exact hne rfl
  cases hconnected.unique (reachable_over hreach hlt hgone).log

/-- A token is held only while some `handleConn` runs. -/
theorem exists_handleConn_of_holdsToken {g : Goroutine}
    (hreach : (machine cfg).Reachable initial p) (hg : g ∈ p.threads)
    (hholds : g.holdsToken ≠ 0) : ∃ k pc, .handleConn k pc ∈ p.threads := by
  cases g with
  | handleConn k pc => exact ⟨k, pc, hg⟩
  | request k hdr payload pc =>
      obtain ⟨pc', hpc'⟩ := exists_handleConn hreach hg
      exact ⟨k, pc', hpc'⟩
  | _ => exact absurd rfl hholds

/-- A request that is given up at `s.done` takes no token and starts no goroutine. -/
theorem abandoned {j : Nat} {hdr : FrameHeader} {payload : Bytes} {p' : Pool Shared Goroutine}
    (hj : p.threads[j]? = some (.handleConn k (.acquire hdr payload)))
    (hstep : (machine cfg).step p (j, .quit) = some p') :
    p'.shared.sem = p.shared.sem ∧ p'.threads = p.threads.set j (.handleConn k .wait) := by
  obtain ⟨g, g', new, hg, hs, hthreads⟩ := Program.machine_step_eq hstep
  cases hj.symm.trans hg
  have hmove : Move cfg p.shared (.handleConn k (.acquire hdr payload)) .quit p'.shared g' new :=
    step_move hs
  generalize p'.shared = s' at hmove
  cases hmove with
  | acquireQuit => exact ⟨rfl, by rw [hthreads, List.append_nil]⟩

/-- The concurrency limit is exact: the tokens are those of the requests that took one
    and have not given it back, no more handlers run than there are tokens, a request that
    is given up holds none, and without a `handleConn` there are none. -/
theorem concurrency_limit (hpos : 0 < cfg.maxConcurrent)
    (hreach : (machine cfg).Reachable initial p) :
    (p.threads.map Goroutine.holdsToken).sum = p.shared.sem ∧
      p.shared.sem ≤ cfg.maxConcurrent.toNat ∧
      (p.threads.map Goroutine.inHandler).sum ≤ cfg.maxConcurrent.toNat ∧
      (∀ (j k : Nat) hdr payload p',
        p.threads[j]? = some (.handleConn k (.acquire hdr payload)) →
        (machine cfg).step p (j, .quit) = some p' →
        p'.shared.sem = p.shared.sem ∧ p'.threads = p.threads.set j (.handleConn k .wait)) ∧
      ((∀ k pc, .handleConn k pc ∉ p.threads) → p.shared.sem = 0) := by
  have hcap : cfg.sem = some cfg.maxConcurrent.toNat := if_pos hpos
  have hsum := reachable_sem hcap hreach
  have hle := reachable_sem_le hcap hreach
  have hhandlers : (p.threads.map Goroutine.inHandler).sum ≤
      (p.threads.map Goroutine.holdsToken).sum :=
    List.sum_le_sum fun g _ => inHandler_le_holdsToken g
  refine ⟨hsum, hle, by omega, fun j k hdr payload p' => abandoned, fun hnone => ?_⟩
  rw [← hsum]
  refine List.sum_eq_zero (List.forall_mem_map.mpr fun g hg => ?_)
  by_contra hholds
  obtain ⟨k, pc, hmem⟩ := exists_handleConn_of_holdsToken hreach hg hholds
  exact hnone k pc hmem

/-- With a limit of 1 a handler runs and the next request waits for its token. -/
def limitedRun : List (Nat × Action) :=
  [(0, .registerMethod 7), (1, .accepted), (1, .run), (1, .run), (2, .run),
    (2, .readFull (.ok [112, 99, 49])), (2, .wrote 3 none),
    (2, .readFrame (.ok ({ type := FrameRequest, callID := 1, methodID := 7, payloadSize := 0 },
      []))),
    (2, .run), (2, .run), (3, .run), (3, .run),
    (2, .readFrame (.ok ({ type := FrameRequest, callID := 2, methodID := 7, payloadSize := 0 },
      [])))]

theorem concurrency_limit_limitedRun :
    ∃ p, (machine { maxConcurrent := 1 }).run initial limitedRun = some p ∧
      (p.threads.map Goroutine.inHandler).sum = 1 ∧ p.shared.sem = 1 ∧
      (p.threads.map Goroutine.holdsToken).sum = 1 := by
  have hreach : (machine { maxConcurrent := 1 }).Reachable initial _ := ⟨limitedRun, rfl⟩
  exact ⟨_, rfl, rfl, rfl, (concurrency_limit (by decide) hreach).1⟩

end Protocomm.Go.Server
