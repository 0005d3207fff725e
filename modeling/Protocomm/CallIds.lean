import Protocomm.Cpp.Channel.Registry
import Protocomm.Go.Channel.Registry

/-!
# Call ids and live calls

Both channels take call ids from a 32-bit counter and do not look whether the
id is in use. A call that stays pending while 2^32 others are registered meets
its own id again: the Go channel replaces its callback, the C++ channel drops
the callback of the new call.
-/

namespace Protocomm

open Misc

namespace Go.Channel

variable {cfg : Config} {p p' : Pool Shared Goroutine} {ia : Nat × Action} {r : Registration}

/-- The registration of a call as a step of the table. -/
theorem callTable_of_registered (hstep : (machine cfg).step p ia = some p')
    (hr : p'.shared.registered = p.shared.registered ++ [r]) :
    p'.shared.callTable = p.shared.callTable.put r.call := by
  obtain ⟨g, g', new, rest, hs, -⟩ := Program.machine_step_inv hstep
  rcases (step_move hs).2.callTable with hdrops | ⟨r', hr', hput⟩
  · have hlength := congrArg List.length hdrops.issued
    simp [Shared.callTable, hr] at hlength
  · rw [hr'] at hr
    obtain ⟨-, hr⟩ := List.append_inj' hr rfl
    cases hr
    exact hput

end Go.Channel

namespace Cpp.Channel

variable {cfg : Config} {p p' : Pool Shared Thread} {ia : Nat × Action} {r : Registration}

@[inherit_doc Go.Channel.callTable_of_registered]
theorem callTable_of_registered (hstep : (machine cfg).step p ia = some p')
    (hr : p'.shared.registered = p.shared.registered ++ [r]) :
    p'.shared.callTable = p.shared.callTable.putNew r.call := by
  obtain ⟨t, t', new, rest, hs, -⟩ := Program.machine_step_inv hstep
  rcases (step_move hs).callTable with hdrops | ⟨r', hr', hput⟩
  · have hlength := congrArg List.length hdrops.issued
    simp [Shared.callTable, hr] at hlength
  · rw [hr'] at hr
    obtain ⟨-, hr⟩ := List.append_inj' hr rfl
    cases hr
    exact hput

end Cpp.Channel

/-- Whenever a channel registers a call, the id is free and every callback is
    kept exactly when no call that was registered a positive multiple of 2^32
    registrations earlier is still pending. -/
theorem callId_clean_iff (goCfg : Go.Channel.Config)
    (p p' : Pool Go.Channel.Shared Go.Channel.Goroutine) (ia : Nat × Go.Channel.Action)
    (r : Go.Channel.Registration) (cppCfg : Cpp.Channel.Config)
    (q q' : Pool Cpp.Channel.Shared Cpp.Channel.Thread) (ib : Nat × Cpp.Channel.Action)
    (r' : Cpp.Channel.Registration) :
    ((Go.Channel.machine goCfg).Reachable Go.Channel.initial p →
        (Go.Channel.machine goCfg).step p ia = some p' →
        p'.shared.registered = p.shared.registered ++ [r] →
        (p.shared.callTable.Clean r.call p'.shared.callTable ↔ ¬ p.shared.callTable.Wraps)) ∧
      ((Cpp.Channel.machine cppCfg).Reachable Cpp.Channel.initial q →
        (Cpp.Channel.machine cppCfg).step q ib = some q' →
        q'.shared.registered = q.shared.registered ++ [r'] →
        (q.shared.callTable.Clean r'.call q'.shared.callTable ↔ ¬ q.shared.callTable.Wraps)) := by
  refine ⟨?_, ?_⟩
  · intro hreach hstep hr
    rw [Go.Channel.callTable_of_registered hstep hr, IdTable.clean_put_iff,
      ← (Go.Channel.reachable_numbered hreach).live_next_iff, not_not]
  · intro hreach hstep hr
    rw [Cpp.Channel.callTable_of_registered hstep hr, IdTable.clean_putNew_iff,
      ← (Cpp.Channel.reachable_numbered hreach).live_next_iff, not_not]

/-- The first call of a Go channel connects it. -/
def Go.Channel.connectedRun : List (Nat × Go.Channel.Action) :=
  [(0, .call 7 [] false), (1, .run), (1, .run), (1, .run), (1, .dial none), (1, .wrote 3 none),
    (1, .readFull (.ok [112, 99, 49])), (1, .run), (1, .run), (1, .run)]

/-- The first call of a C++ channel connects it. -/
def Cpp.Channel.connectedRun : List (Nat × Cpp.Channel.Action) :=
  [(0, .call 7 [] false), (1, .run), (1, .run), (1, .run), (1, .run), (1, .run), (1, .run),
    (2, .run), (3, .run), (3, .op none), (3, .op none), (3, .op none),
    (3, .readHandshake (.ok [112, 99, 49])), (1, .run), (1, .run)]

theorem callId_clean_iff_connectedRun :
    ∃ p p' r q q' r',
      (Go.Channel.machine (Go.Channel.createConfig {})).run Go.Channel.initial
        Go.Channel.connectedRun = some p ∧
      (Go.Channel.machine (Go.Channel.createConfig {})).step p (1, .run) = some p' ∧
      p'.shared.registered = p.shared.registered ++ [r] ∧
      (p.shared.callTable.Clean r.call p'.shared.callTable ↔ ¬ p.shared.callTable.Wraps) ∧
      (Cpp.Channel.machine {}).run Cpp.Channel.initial Cpp.Channel.connectedRun = some q ∧
      (Cpp.Channel.machine {}).step q (2, .run) = some q' ∧
      q'.shared.registered = q.shared.registered ++ [r'] ∧
      (q.shared.callTable.Clean r'.call q'.shared.callTable ↔ ¬ q.shared.callTable.Wraps) :=
  have hboth := callId_clean_iff (Go.Channel.createConfig {}) _ _ (1, .run) ⟨0, 1, 1, 0⟩ {} _ _
    (2, .run) ⟨0, 1⟩
  ⟨_, _, _, _, _, _, rfl, rfl, rfl, hboth.1 ⟨Go.Channel.connectedRun, rfl⟩ rfl rfl, rfl, rfl, rfl,
    hboth.2 ⟨Cpp.Channel.connectedRun, rfl⟩ rfl rfl⟩

namespace Go.Channel

/-- The state after `n` registrations on one connection when the server has
    answered all calls but the first. -/
structure OnePending (n : Nat) (s : Shared) : Prop where
  opened : s.closed = false
  connected : s.connected = true
  conn : s.conn = some 0
  writeFree : s.writeMu = false
  alive : s.panicked = false
  first : s.pending.lookup 1 = some ⟨0, false⟩
  next : s.nextCallID = UInt32.ofNat (n + 1)
  calls : s.calls.length = n

/-- The application, the finished first call, the reader, and the finished later
    calls. -/
def waiting (rest : List Goroutine) : List Goroutine :=
  .app :: .done :: .readLoop 0 1 .read :: rest

variable {s : Shared} {n : Nat} {rest : List Goroutine}

/-- Another call reaches its registration. -/
theorem OnePending.enter {p₀ : Pool Shared Goroutine} (h : OnePending n s)
    (hreach : (machine cfg).Reachable p₀ ⟨s, waiting rest⟩) :
    (machine cfg).Reachable p₀ ⟨{ s with calls := s.calls ++ [⟨7, [], false⟩] },
      waiting rest ++ [.asyncUnaryCall (.register 7 [] ⟨n, false⟩)]⟩ := by
  have hcall : step cfg s .app (.call 7 [] false) =
      some ({ s with calls := s.calls ++ [⟨7, [], false⟩] }, .app,
        [.ensureConnected (.call 7 [] ⟨n, false⟩) .check]) := by
    simp [step, appStep, h.alive, h.calls]
  have hcheck : step cfg { s with calls := s.calls ++ [⟨7, [], false⟩] }
      (.ensureConnected (.call 7 [] ⟨n, false⟩) .check) .run =
      some ({ s with calls := s.calls ++ [⟨7, [], false⟩] },
        .asyncUnaryCall (.register 7 [] ⟨n, false⟩), []) := by
    simp [step, ensureConnectedStep, Caller.resume, h.alive, h.opened, h.connected, h.conn,
      statusOK, Status.isOK]
  have hstart := Program.reachable_at (P := program cfg) (i := 0) hreach rfl hcall
  exact Program.reachable_last (l := waiting rest) hstart hcheck

/-- The registration overwrites what is pending under the next id. -/
theorem OnePending.register (cfg : Config) (h : OnePending n s) :
    step cfg { s with calls := s.calls ++ [⟨7, [], false⟩] }
      (.asyncUnaryCall (.register 7 [] ⟨n, false⟩)) .run =
      some ({ s with calls := s.calls ++ [⟨7, [], false⟩], nextCallID := s.nextCallID + 1,
                     pending := s.pending.insert s.nextCallID ⟨n, false⟩,
                     registered := s.registered ++ [⟨n, s.nextCallID, s.gen, 0⟩] },
        .asyncUnaryCall (.lockWrite 0 s.gen (requestHeader s.nextCallID 7 []) []), []) := by
  simp [step, asyncUnaryCallStep, h.alive, h.opened, h.connected, h.conn]

/-- A registered call is sent. -/
theorem reachable_sent {p₀ : Pool Shared Goroutine} {l : List Goroutine} {gen : UInt64}
    {hdr : FrameHeader}
    (hreach : (machine cfg).Reachable p₀ ⟨s, l ++ [.asyncUnaryCall (.lockWrite 0 gen hdr [])]⟩)
    (hfree : s.writeMu = false) (halive : s.panicked = false) :
    (machine cfg).Reachable p₀ ⟨s, l ++ [.done]⟩ := by
  have hlock : step cfg s (.asyncUnaryCall (.lockWrite 0 gen hdr [])) .run =
      some ({ s with writeMu := true }, .asyncUnaryCall (.writeHeader 0 gen hdr []), []) := by
    simp [step, asyncUnaryCallStep, hfree, halive]
  have hwrite : step cfg { s with writeMu := true }
      (.asyncUnaryCall (.writeHeader 0 gen hdr [])) (.wrote 16 none) =
      some ({ s with writeMu := true }, .asyncUnaryCall (.unlockWrite 0 gen none), []) := by
    simp [step, asyncUnaryCallStep, afterWrite, writeOk, FrameHeaderSize, halive]
  have hunlock : step cfg { s with writeMu := true } (.asyncUnaryCall (.unlockWrite 0 gen none))
      .run = some ({ s with writeMu := false }, .done, []) := by
    simp [step, asyncUnaryCallStep, halive]
  have hsame : { s with writeMu := false } = s := by rw [← hfree]
  rw [hsame] at hunlock
  exact Program.reachable_last (P := program cfg)
    (Program.reachable_last (Program.reachable_last hreach hlock) hwrite) hunlock

/-- The reader takes the response to a pending call. -/
theorem reachable_answered {p₀ : Pool Shared Goroutine} {callID : UInt32} {cb : Callback}
    (hreach : (machine cfg).Reachable p₀ ⟨s, waiting rest⟩)
    (hlookup : s.pending.lookup callID = some cb) (hnil : cb.isNil = false)
    (halive : s.panicked = false) :
    ∃ invoked, (machine cfg).Reachable p₀
      ⟨{ s with pending := s.pending.erase callID, invoked := invoked }, waiting rest⟩ := by
  let hdr : FrameHeader := { type := FrameResponse, callID := callID, methodID := 7,
                             payloadSize := 0 }
  have hread : step cfg s (.readLoop 0 1 .read) (.readFrame (.ok (hdr, []))) =
      some (s, .readLoop 0 1 (.dispatch hdr []), []) := by
    simp [step, readLoopStep, halive]
  have hdispatch : step cfg s (.readLoop 0 1 (.dispatch hdr [])) .run =
      some ({ s with pending := s.pending.erase callID }, .readLoop 0 1 (.complete cb hdr []),
        []) := by
    simp [step, readLoopStep, halive, hdr, FrameResponse, FramePush, hlookup, hnil]
  have hcomplete : step cfg { s with pending := s.pending.erase callID }
      (.readLoop 0 1 (.complete cb hdr [])) .run =
      some (cb.invoke (responseStatus hdr) (responsePayload hdr []) (.response 0 1 hdr [])
        { s with pending := s.pending.erase callID }, .readLoop 0 1 .read, []) := by
    simp [step, readLoopStep, halive]
  have hone := Program.reachable_at (P := program cfg) (i := 2) hreach rfl hread
  have htwo := Program.reachable_at (P := program cfg) (i := 2) hone rfl hdispatch
  have hthree := Program.reachable_at (P := program cfg) (i := 2) htwo rfl hcomplete
  refine ⟨s.invoked ++ [⟨cb.call, responseStatus hdr, responsePayload hdr [],
    .response 0 1 hdr []⟩], ?_⟩
  simpa [waiting, Callback.invoke, machine] using hthree

/-- One more call is made and answered. -/
theorem OnePending.succ {p₀ : Pool Shared Goroutine} (h : OnePending n s) (hpos : 0 < n)
    (hn : n < 2 ^ 32) (hreach : (machine cfg).Reachable p₀ ⟨s, waiting rest⟩) :
    ∃ s', OnePending (n + 1) s' ∧
      (machine cfg).Reachable p₀ ⟨s', waiting (rest ++ [.done])⟩ := by
  have hregister := Program.reachable_last (P := program cfg) (h.enter hreach) (h.register cfg)
  have hsent : (machine cfg).Reachable p₀ ⟨_, waiting (rest ++ [.done])⟩ :=
    reachable_sent hregister h.writeFree h.alive
  obtain ⟨invoked, hanswered⟩ :=
    reachable_answered hsent (AList.lookup_insert s.pending) rfl h.alive
  refine ⟨_, ?_, hanswered⟩
  have hid : (1 : UInt32) ≠ s.nextCallID := by
    intro heq
    have hval := congrArg UInt32.toNat (heq.trans h.next)
    simp only [UInt32.toNat_ofNat', UInt32.toNat_one] at hval
    omega
  refine ⟨h.opened, h.connected, h.conn, h.writeFree, h.alive, ?_, ?_, ?_⟩
  · rw [AList.lookup_erase_ne hid, AList.lookup_insert_ne hid]
    exact h.first
  · simp only [h.next]
    exact (UInt32.ofNat_add ..).symm
  · simp [h.calls]

/-- A call connects the channel and is sent. -/
def sentRun : List (Nat × Action) :=
  connectedRun ++ [(1, .run), (1, .run), (1, .wrote 16 none), (1, .run)]

/-- The first call can stay pending while any number of others, up to 2^32 in
    all, are made and answered. -/
theorem exists_onePending {n : Nat} (hpos : 0 < n) (hn : n ≤ 2 ^ 32) :
    ∃ s rest, OnePending n s ∧
      (machine (createConfig {})).Reachable initial ⟨s, waiting rest⟩ := by
  induction n, hpos using Nat.le_induction with
  | base =>
      refine ⟨_, [], ?_, sentRun, rfl⟩
      exact ⟨rfl, rfl, rfl, rfl, rfl, rfl, rfl, rfl⟩
  | succ n hpos ih =>
      obtain ⟨s, rest, hone, hreach⟩ := ih (by omega)
      obtain ⟨s', hone', hreach'⟩ := hone.succ hpos (by omega) hreach
      exact ⟨s', _, hone', hreach'⟩

end Go.Channel

/-- The first call stays pending while 2^32 - 1 others are made and answered;
    the next call gets its id and replaces its callback. -/
theorem callback_replaced_after_wrap :
    ∃ (p p' : Pool Go.Channel.Shared Go.Channel.Goroutine) (ia : Nat × Go.Channel.Action)
      (r : Go.Channel.Registration),
      (Go.Channel.machine (Go.Channel.createConfig {})).Reachable Go.Channel.initial p ∧
      (Go.Channel.machine (Go.Channel.createConfig {})).step p ia = some p' ∧
      p'.shared.registered = p.shared.registered ++ [r] ∧
      p.shared.pending.lookup r.callID = some ⟨0, false⟩ ∧
      p'.shared.pending.lookup r.callID = some ⟨2 ^ 32, false⟩ ∧
      ¬ p.shared.callTable.Clean r.call p'.shared.callTable := by
  obtain ⟨s, rest, hone, hreach⟩ :=
    Go.Channel.exists_onePending (n := 2 ^ 32) (by decide) (Nat.le_refl _)
  have hnext : s.nextCallID = 1 := by
    rw [hone.next]
    decide
  refine ⟨_, _, _, ⟨2 ^ 32, s.nextCallID, s.gen, 0⟩, hone.enter hreach,
    Program.machine_step_last (P := Go.Channel.program _)
      (hone.register (Go.Channel.createConfig {})), rfl, ?_, ?_, ?_⟩
  · rw [hnext]
    exact hone.first
  · exact AList.lookup_insert s.pending
  · intro hclean
    have hfree := hclean.free
    simp [Go.Channel.Shared.callTable, hnext, hone.first] at hfree

end Protocomm
