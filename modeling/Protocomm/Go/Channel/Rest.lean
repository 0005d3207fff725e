import Protocomm.Go.Channel.Connections
import Protocomm.Go.Channel.Lines
import Protocomm.Misc.Rest

/-!
# The Go channel left alone

Nobody calls the channel and the server sends nothing: dials and writes return, and a
connection that the channel closed answers reads with an error. Then the channel comes to
rest, and no goroutine waits for another one but for the handshake of a new connection. A
call whose callback was not called by then waits for the server: for its response on the
installed connection, or for the handshake.
-/

namespace Protocomm.Go.Channel

open Misc

variable {cfg : Config} {p q : Pool Shared Goroutine} {s s' : Shared} {g g' : Goroutine}
  {a : Action} {new : List Goroutine}

/-- The steps that come without the server and without the application. -/
def winds (s : Shared) : Goroutine → Action → Bool
  | .app, _ => false
  | .ensureConnected _ (.readHeader _), _ => false
  | .readLoop conn _ .read, .readFrame (.error _) => s.closedConns.contains conn
  | .readLoop _ _ .read, _ => false
  | _, _ => true

/-- The channel left alone. -/
def winding (cfg : Config) : Machine (Pool Shared Goroutine) (Nat × Action) :=
  ((program cfg).restrict winds).machine

theorem reachable_of_winding (hp : (machine cfg).Reachable initial p)
    (hq : (winding cfg).Reachable p q) : (machine cfg).Reachable initial q :=
  hp.trans (Program.reachable_of_restrict hq)

/-! ## Termination -/

def Connecting.left : Connecting → Nat
  | .check => 22
  | .lock => 21
  | .recheck => 20
  | .dial => 19
  | .writeHeader _ => 18
  | .readHeader _ => 17
  | .publish _ => 16
  | .spawn _ _ => 15
  | .close _ _ => 11
  | .unlock _ => 10

def Calling.left : Calling → Nat
  | .register _ _ _ => 9
  | .lockWrite _ _ _ _ => 7
  | .writeHeader _ _ _ _ => 6
  | .writePayload _ _ _ _ => 5
  | .unlockWrite _ _ _ => 4
  | .callBack _ _ => 1

def Reading.left : Reading → Nat
  | .dispatch _ _ => 6
  | .complete _ _ _ => 5
  | .read => 4

def Draining.left : Draining → Nat
  | .swap => 3
  | .closeConn _ snapshot => snapshot.length + 2
  | .drain snapshot => snapshot.length + 1

/-- The steps to the end of a goroutine and of those it starts. -/
def Goroutine.left : Goroutine → Nat
  | .app => 0
  | .ensureConnected _ pc => pc.left
  | .asyncUnaryCall pc => pc.left
  | .readLoop _ _ pc => pc.left
  | .teardown _ _ _ pc => pc.left
  | .close pc => pc.left
  | .done => 0

/-- Every pending call is one step of a `teardown` or `Close`; a panic is the last step. -/
def Shared.left (s : Shared) : Nat := s.snapshot.length + (!s.panicked).toNat

theorem resume_left (k : Caller) (st : Status) : (k.resume st).left < 10 := by
  cases k with
  | connect => exact Nat.succ_pos _
  | call methodID request cb =>
      simp only [Caller.resume]
      split <;> simp [Goroutine.left, Calling.left]

/-- Every step but a read of a frame brings the channel closer to its end. -/
theorem step_lowers (hs : step cfg s g a = some (s', g', new)) (happ : g ≠ .app)
    (hread : ∀ f, a ≠ .readFrame (.ok f)) :
    s'.left + (g'.left + (new.map Goroutine.left).sum) < s.left + g.left := by
  obtain ⟨halive, hmove⟩ := step_move hs
  cases hmove with
  | call | connect | close => exact absurd rfl happ
  | checkClosed k | checkOK k | unlockConnect k st =>
      refine Nat.add_lt_add_left (Nat.lt_of_lt_of_le (resume_left k _) ?_) _
      simp [Goroutine.left, Connecting.left]
  | register methodID request cb conn =>
      have hle := length_mapValues_insert_le s.pending s.nextCallID cb
      simp only [Shared.left, Shared.snapshot, Goroutine.left, Calling.left, List.map_nil,
        List.sum_nil]
      omega
  | take conn gen hdr payload cb htype hlookup =>
      have hlen := (mapValues_erase hlookup).length_eq
      simp only [Shared.left, Shared.snapshot, Goroutine.left, Reading.left, List.length_cons,
        List.map_nil, List.sum_nil] at hlen ⊢
      omega
  | callBackNil | teardownNil | closeNil =>
      simp [Shared.left, Shared.snapshot, Shared.panic, halive]
  | teardown | closeFirst =>
      simp only [Shared.left, Shared.snapshot, Shared.detach, mapValues_empty, Goroutine.left,
        Draining.left, List.length_nil, List.map_nil, List.sum_nil]
      omega
  | teardownCall origin gen st snapshot i cb hpick | closeCall snapshot i cb hpick =>
      have hlt := (List.getElem?_eq_some_iff.mp hpick).1
      simp only [Shared.left, Shared.snapshot, Callback.invoke, Goroutine.left, Draining.left,
        List.length_eraseIdx_of_lt hlt, List.map_nil, List.sum_nil]
      omega
  | read => exact absurd rfl (hread _)
  | _ =>
      simp [Shared.left, Shared.snapshot, Callback.invoke, Goroutine.left, Connecting.left,
        Calling.left, Reading.left, Draining.left]

/-- The steps to the end of a goroutine in which it may dial and write. -/
def Goroutine.calling : Goroutine → Nat
  | .ensureConnected _ pc => pc.left
  | .asyncUnaryCall pc => pc.left
  | _ => 0

theorem resume_calling (k : Caller) (st : Status) : (k.resume st).calling < 10 := by
  cases k with
  | connect => exact Nat.succ_pos _
  | call methodID request cb =>
      simp only [Caller.resume]
      split <;> simp [Goroutine.calling, Calling.left]

/-- Only the goroutines of calls dial and write, and every such step brings them closer to
    their end. -/
theorem Move.calling (h : Move cfg s g a s' g' new) (happ : g ≠ .app) :
    g'.calling + (new.map Goroutine.calling).sum < g.calling ∨
      g'.calling + (new.map Goroutine.calling).sum ≤ g.calling ∧ s'.dialled = s.dialled ∧
        ∀ n err, a ≠ .wrote n err := by
  cases h with
  | call | connect | close => exact absurd rfl happ
  | checkClosed k | checkOK k | unlockConnect k st =>
      refine Or.inl (Nat.lt_of_lt_of_le (resume_calling k _) ?_)
      simp [Goroutine.calling, Connecting.left]
  | dialNoHeader | dialHeader | headerWritten | headerFailed =>
      exact Or.inl (by simp [Goroutine.calling, Connecting.left])
  | wroteHeader | wroteEmpty | wroteHeaderFailed | wrotePayload =>
      exact Or.inl (by simp [Goroutine.calling, Calling.left])
  | _ => exact Or.inr ⟨by simp [Goroutine.calling, Connecting.left, Calling.left], rfl, by simp⟩

theorem winding_terminates (cfg : Config) : (winding cfg).Terminates := by
  refine Program.terminates_of_work Shared.left Goroutine.left ?_
  intro s g a s' g' new hs
  obtain ⟨hw, hs⟩ := Program.restrict_step.mp hs
  refine step_lowers hs ?_ ?_
  · rintro rfl
    cases hw
  · rintro f rfl
    cases (step_move hs).2 with
    | read => cases hw

/-! ## At rest -/

/-- What a connection can answer at any time: a `Write` may always accept nothing. -/
def Action.free : Action → Bool
  | .wrote n err => n == 0 && err.isSome
  | _ => true

/-- A connection takes every step that is free. -/
theorem exists_record (cfg : Config) (lines : Nat → Line) (g : Goroutine)
    (hfree : a.free = true) : ∃ lines', record cfg lines g a = some lines' := by
  have hwrite : ∀ {n : Nat} {err : Option String}, a = .wrote n err → ∀ (line : Line) out,
      line.write n err out = some { line with out := out.fail err.isSome } := by
    rintro n err rfl line out
    refine if_neg ?_
    rw [show (n == 0 && err.isSome) = true from hfree]
    simp
  unfold record
  split
  · rw [hwrite rfl]
    exact ⟨_, rfl⟩
  · exact ⟨_, rfl⟩
  · rw [hwrite rfl]
    exact ⟨_, rfl⟩
  · rw [hwrite rfl]
    exact ⟨_, rfl⟩
  · exact ⟨_, rfl⟩
  · exact ⟨_, rfl⟩

theorem exists_drainStep (s : Shared) (st : Status) (cause : Cause) (back : Draining → Goroutine)
    {pc : Draining} (hpc : pc ≠ .swap) :
    ∃ a, a.free = true ∧ drainStep s st cause back pc a ≠ none := by
  cases pc with
  | swap => exact absurd rfl hpc
  | closeConn conn snapshot => exact ⟨.run, rfl, by simp [drainStep]⟩
  | drain snapshot =>
      cases snapshot with
      | nil => exact ⟨.run, rfl, by simp [drainStep]⟩
      | cons cb snapshot =>
          refine ⟨.pick 0, rfl, ?_⟩
          simp only [drainStep, List.getElem?_cons_zero]
          split <;> simp

/-- No goroutine can go on without the server and without the application. -/
def Resting (cfg : Config) (p : Pool Shared Goroutine) : Prop :=
  ∀ g ∈ p.threads, ∀ a, winds p.shared g a = true → a.free = true → step cfg p.shared g a = none

theorem resting_of_atRest (h : (winding cfg).AtRest p) : Resting cfg p :=
  fun _ hg _ hw _ => Program.restrict_stuck h hg hw

/-- The goroutine waits for the server, or for a goroutine that waits for the handshake. -/
def Goroutine.Awaits (s : Shared) (l : List Goroutine) : Goroutine → Prop
  | .ensureConnected _ (.readHeader _) => True
  | .ensureConnected _ .lock => ∃ k conn, .ensureConnected k (.readHeader conn) ∈ l
  | .readLoop conn gen .read => s.conn = some conn ∧ s.gen = gen
  | _ => False

section

variable (hreach : (machine cfg).Reachable initial p) (hrest : Resting cfg p)
  (halive : p.shared.panicked = false)

section

include hrest halive

/-- A writer that holds `writeMu` goes on. -/
theorem rest_inWrite (hg : g ∈ p.threads) : g.inWrite = 0 := by
  cases g with
  | asyncUnaryCall pc =>
      cases pc with
      | writeHeader conn gen hdr request =>
          have hnone := hrest _ hg (.wrote 0 (some "")) rfl rfl
          simp [step, halive, asyncUnaryCallStep, writeOk] at hnone
      | writePayload conn gen hdr request =>
          have hnone := hrest _ hg (.wrote 0 (some "")) rfl rfl
          simp [step, halive, asyncUnaryCallStep, writeOk] at hnone
      | unlockWrite conn gen err =>
          have hnone := hrest _ hg .run rfl rfl
          cases err <;> simp [step, halive, asyncUnaryCallStep] at hnone
      | _ => rfl
  | _ => rfl

theorem rest_teardown {origin : Origin} {gen : UInt64} {st : Status} {pc : Draining} :
    .teardown origin gen st pc ∉ p.threads := by
  intro hg
  have hnone : ∀ a, a.free = true → teardownStep p.shared origin gen st pc a = none := by
    intro a hfree
    simpa [step, halive] using hrest _ hg a rfl hfree
  by_cases hpc : pc = .swap
  · subst hpc
    have hrun := hnone .run rfl
    simp only [teardownStep] at hrun
    split at hrun <;> cases hrun
  · obtain ⟨a, hfree, hsome⟩ :=
      exists_drainStep p.shared st (.teardown gen) (.teardown origin gen st) hpc
    apply hsome
    rw [← hnone a hfree]
    cases pc with
    | swap => exact absurd rfl hpc
    | _ => rfl

theorem rest_close {pc : Draining} : .close pc ∉ p.threads := by
  intro hg
  have hnone : ∀ a, a.free = true → closeStep p.shared pc a = none := by
    intro a hfree
    simpa [step, halive] using hrest _ hg a rfl hfree
  by_cases hpc : pc = .swap
  · subst hpc
    have hrun := hnone .run rfl
    simp only [closeStep] at hrun
    split at hrun <;> cases hrun
  · obtain ⟨a, hfree, hsome⟩ :=
      exists_drainStep p.shared ⟨StatusCode.Cancelled, "channel closed"⟩ .close .close hpc
    apply hsome
    rw [← hnone a hfree]
    cases pc with
    | swap => exact absurd rfl hpc
    | _ => rfl

/-- A reader waits for a frame on a connection that is not closed. -/
theorem rest_read {conn : Nat} {gen : UInt64} {pc : Reading}
    (hg : .readLoop conn gen pc ∈ p.threads) : pc = .read ∧ conn ∉ p.shared.closedConns := by
  cases pc with
  | read =>
      refine ⟨rfl, fun hclosed => ?_⟩
      have hnone := hrest _ hg (.readFrame (.error "")) (List.contains_iff_mem.mpr hclosed) rfl
      simp [step, halive, readLoopStep] at hnone
  | dispatch hdr payload =>
      have hnone := hrest _ hg .run rfl rfl
      simp only [step, halive, Bool.false_eq_true, if_false, readLoopStep] at hnone
      split at hnone
      · split at hnone <;> cases hnone
      · split at hnone
        · split at hnone
          · cases hnone
          · split at hnone <;> cases hnone
        · cases hnone
  | complete cb hdr payload =>
      have hnone := hrest _ hg .run rfl rfl
      simp [step, halive, readLoopStep] at hnone

/-- Inside the section under `connectMu` only the handshake waits. -/
theorem rest_inSection (hg : g ∈ p.threads) (hin : 0 < g.inSection) :
    ∃ k conn, g = .ensureConnected k (.readHeader conn) := by
  cases g with
  | ensureConnected k pc =>
      cases pc with
      | readHeader conn => exact ⟨k, conn, rfl⟩
      | check | lock => exact absurd hin (Nat.lt_irrefl 0)
      | dial =>
          have hnone := hrest _ hg (.dial (some "")) rfl rfl
          simp [step, halive, ensureConnectedStep] at hnone
      | writeHeader conn =>
          have hnone := hrest _ hg (.wrote 0 (some "")) rfl rfl
          simp [step, halive, ensureConnectedStep, writeOk] at hnone
      | recheck =>
          have hnone := hrest _ hg .run rfl rfl
          simp only [step, halive, Bool.false_eq_true, if_false, ensureConnectedStep] at hnone
          split at hnone
          · cases hnone
          · split at hnone <;> cases hnone
      | publish conn =>
          have hnone := hrest _ hg .run rfl rfl
          simp only [step, halive, Bool.false_eq_true, if_false, ensureConnectedStep] at hnone
          split at hnone <;> cases hnone
      | spawn | close | unlock =>
          have hnone := hrest _ hg .run rfl rfl
          simp [step, halive, ensureConnectedStep] at hnone
  | _ => exact absurd hin (Nat.lt_irrefl 0)

end

include hreach hrest halive

theorem rest_writeMu : p.shared.writeMu = false := by
  have hcount := reachable_writeMu hreach
  have hzero : (p.threads.map Goroutine.inWrite).sum = 0 :=
    List.sum_eq_zero (List.forall_mem_map.mpr fun g hg => rest_inWrite hrest halive hg)
  rw [Program.owned, hzero, Nat.add_zero] at hcount
  cases hmu : p.shared.writeMu with
  | false => rfl
  | true => simp [hmu] at hcount

theorem rest_asyncUnaryCall {pc : Calling} : .asyncUnaryCall pc ∉ p.threads := by
  intro hg
  cases pc with
  | register methodID request cb =>
      have hnone := hrest _ hg .run rfl rfl
      simp only [step, halive, Bool.false_eq_true, if_false, asyncUnaryCallStep] at hnone
      split at hnone
      · cases hnone
      · split at hnone <;> cases hnone
  | callBack st cb =>
      have hnone := hrest _ hg .run rfl rfl
      simp only [step, halive, Bool.false_eq_true, if_false, asyncUnaryCallStep] at hnone
      split at hnone <;> cases hnone
  | lockWrite conn gen hdr request =>
      have hnone := hrest _ hg .run rfl rfl
      simp [step, halive, asyncUnaryCallStep, rest_writeMu hreach hrest halive] at hnone
  | writeHeader | writePayload | unlockWrite => cases rest_inWrite hrest halive hg

/-- A connection that a reader still reads is the installed one: nobody is about to close
    it, and it is not closed. -/
theorem rest_readLoop {conn : Nat} {gen : UInt64} {pc : Reading}
    (hg : .readLoop conn gen pc ∈ p.threads) :
    pc = .read ∧ p.shared.conn = some conn ∧ p.shared.gen = gen := by
  obtain ⟨rfl, hopen⟩ := rest_read hrest halive hg
  obtain ⟨hinstalled, hon⟩ := reachable_onConn hreach
  have hpublished : (conn, gen) ∈ p.shared.published := hon _ hg _ rfl
  have hlt := (reachable_published hreach).1.1 _ hpublished
  have hplaces : connPlaces conn p = 1 := by
    rw [connPlaces_eq_owned, reachable_conns (only conn) hreach, sum_range_only hlt]
  have hclosed : p.shared.closedConns.count conn = 0 := List.count_eq_zero.mpr hopen
  have hdialled : p.threads.countP (fun g => g.dialledConn = some conn) = 0 := by
    rw [List.countP_eq_zero]
    intro v hv hconn
    have hfresh := ((reachable_published hreach).2 v hv conn (of_decide_eq_true hconn)).2
    exact hfresh (List.mem_map_of_mem hpublished)
  have htaken : p.threads.countP (fun g => g.takenConn = some conn) = 0 := by
    rw [List.countP_eq_zero]
    intro v hv hconn
    have hconn := of_decide_eq_true hconn
    cases v with
    | teardown => exact rest_teardown hrest halive hv
    | close => exact rest_close hrest halive hv
    | _ => cases hconn
  have hconn : p.shared.conn = some conn := by
    by_contra hother
    simp only [connPlaces, hclosed, if_neg hother, hdialled, htaken] at hplaces
    omega
  exact ⟨rfl, hconn, published_unique hreach (hinstalled conn hconn) hpublished⟩

theorem rest_ensureConnected {k : Caller} {pc : Connecting}
    (hg : .ensureConnected k pc ∈ p.threads) :
    (Goroutine.ensureConnected k pc).Awaits p.shared p.threads := by
  cases pc with
  | check =>
      have hnone := hrest _ hg .run rfl rfl
      simp only [step, halive, Bool.false_eq_true, if_false, ensureConnectedStep] at hnone
      split at hnone
      · cases hnone
      · split at hnone <;> cases hnone
  | lock =>
      have hlocked : p.shared.connectMu = true := by
        by_contra hfree
        have hnone := hrest _ hg .run rfl rfl
        simp [step, halive, ensureConnectedStep, hfree] at hnone
      have hcount := reachable_connectMu hreach
      simp only [Program.owned, hlocked, Bool.not_true, Bool.toNat_false, Nat.zero_add] at hcount
      obtain ⟨v, hv, hin⟩ := exists_of_sum_pos (Nat.lt_of_lt_of_eq Nat.zero_lt_one hcount.symm)
      obtain ⟨k', conn, rfl⟩ := rest_inSection hrest halive hv hin
      exact ⟨k', conn, hv⟩
  | readHeader conn => trivial
  | _ =>
      obtain ⟨k', conn, heq⟩ := rest_inSection hrest halive hg Nat.zero_lt_one
      cases heq

theorem rest_goroutine (hg : g ∈ p.threads) :
    g = .app ∨ g = .done ∨ g.Awaits p.shared p.threads := by
  cases g with
  | app => exact Or.inl rfl
  | done => exact Or.inr (Or.inl rfl)
  | ensureConnected => exact Or.inr (Or.inr (rest_ensureConnected hreach hrest halive hg))
  | readLoop conn gen pc =>
      obtain ⟨rfl, hconn⟩ := rest_readLoop hreach hrest halive hg
      exact Or.inr (Or.inr hconn)
  | asyncUnaryCall => exact absurd hg (rest_asyncUnaryCall hreach hrest halive)
  | teardown => exact absurd hg (rest_teardown hrest halive)
  | close => exact absurd hg (rest_close hrest halive)

/-- Only callers in `ensureConnected` hold callbacks. -/
theorem rest_holds {c : Nat} (hg : g ∈ p.threads) (hpos : 0 < g.holds (only c)) :
    ∃ methodID request pc, g = .ensureConnected (.call methodID request ⟨c, false⟩) pc := by
  cases g with
  | ensureConnected k pc =>
      cases k with
      | connect => exact absurd hpos (Nat.lt_irrefl 0)
      | call methodID request cb =>
          obtain ⟨call, isNil⟩ := cb
          simp only [Goroutine.holds, Goroutine.callerHolds, Goroutine.snapshotHolds,
            Goroutine.readerHolds, Caller.holds, Callback.weight, only] at hpos
          cases isNil with
          | true => simp at hpos
          | false =>
              by_cases hc : call = c
              · exact ⟨methodID, request, pc, by rw [hc]⟩
              · simp [hc] at hpos
  | readLoop conn gen pc =>
      obtain ⟨rfl, -⟩ := rest_readLoop hreach hrest halive hg
      exact absurd hpos (Nat.lt_irrefl 0)
  | asyncUnaryCall => exact absurd hg (rest_asyncUnaryCall hreach hrest halive)
  | teardown => exact absurd hg (rest_teardown hrest halive)
  | close => exact absurd hg (rest_close hrest halive)
  | _ => exact absurd hpos (Nat.lt_irrefl 0)

/-- The reader of the installed connection waits for a frame. -/
theorem rest_reader {conn : Nat} (hconn : p.shared.conn = some conn) :
    .readLoop conn p.shared.gen .read ∈ p.threads := by
  obtain ⟨g, hg, hreader⟩ := reachable_reader hreach conn hconn
  cases g with
  | readLoop conn' gen pc =>
      obtain ⟨rfl, -⟩ := rest_readLoop hreach hrest halive hg
      cases hreader
      exact hg
  | ensureConnected k pc =>
      cases pc with
      | spawn =>
          obtain ⟨k', conn', heq⟩ := rest_inSection hrest halive hg Nat.zero_lt_one
          cases heq
      | _ => cases hreader
  | teardown => exact absurd hg (rest_teardown hrest halive)
  | _ => cases hreader

theorem rest_call (hcalls : p.shared.calls.length < 2 ^ 32) {c : Nat} {call : Call}
    (hc : p.shared.calls[c]? = some call) (hnil : call.isNil = false) :
    p.shared.invocations (only c) = 1 ∨
      p.shared.invocations (only c) = 0 ∧
        ((∃ id conn, p.shared.pending.lookup id = some ⟨c, false⟩ ∧ p.shared.conn = some conn ∧
            .readLoop conn p.shared.gen .read ∈ p.threads) ∨
          (∃ methodID request pc,
              .ensureConnected (.call methodID request ⟨c, false⟩) pc ∈ p.threads) ∧
            ∃ k conn, .ensureConnected k (.readHeader conn) ∈ p.threads) := by
  have hone := reachable_holds (w := only c) hreach hcalls
  rw [handed_only hc hnil, Program.owned] at hone
  by_cases hinvoked : p.shared.invocations (only c) = 1
  · exact Or.inl hinvoked
  refine Or.inr ⟨by omega, ?_⟩
  by_cases hpending : 0 < p.shared.pendingHolds (only c)
  · -- the callback is in `pending`, so its connection is installed and has a reader
    obtain ⟨cb, hcb, hpos⟩ := exists_of_sum_pos hpending
    obtain ⟨id, hid⟩ := mem_mapValues.mp hcb
    obtain ⟨r, -, -, -, -, hconn⟩ := reachable_pending hreach id cb hid
    obtain ⟨call', isNil⟩ := cb
    have heq : call' = c ∧ isNil = false := by
      simp only [Callback.weight, only] at hpos
      cases isNil with
      | true => simp at hpos
      | false =>
          refine ⟨?_, rfl⟩
          by_contra hne
          simp [hne] at hpos
    obtain ⟨rfl, rfl⟩ := heq
    exact Or.inl ⟨id, r.conn, hid, hconn, rest_reader hreach hrest halive hconn⟩
  · have hholds : 0 < (p.threads.map (Goroutine.holds (only c))).sum := by omega
    obtain ⟨g, hg, hpos⟩ := exists_of_sum_pos hholds
    obtain ⟨methodID, request, pc, rfl⟩ := rest_holds hreach hrest halive hg hpos
    refine Or.inr ⟨⟨methodID, request, pc, hg⟩, ?_⟩
    have hawaits := rest_ensureConnected hreach hrest halive hg
    cases pc with
    | lock => exact hawaits
    | readHeader conn => exact ⟨_, conn, hg⟩
    | _ => cases hawaits

end

/-- A channel left alone comes to rest, unless a nil callback ended the process. At rest no
    goroutine waits for a lock that another one could release: each one has ended or waits
    for the server, be it for a frame on the installed connection or for the handshake of a
    new one. A callback that was not called exactly once by then was not called at all and
    belongs to a call that waits for the server in one of these two ways. So after `Close`,
    when no handshake is open, every callback was called and every goroutine has ended. -/
theorem calls_settled (cfg : Config) :
    (winding cfg).Terminates ∧
      ∀ p q, (machine cfg).Reachable initial p → (winding cfg).Reachable p q →
        (winding cfg).AtRest q → q.shared.panicked = false →
        (∀ g ∈ q.threads, g = .app ∨ g = .done ∨ g.Awaits q.shared q.threads) ∧
        (q.shared.calls.length < 2 ^ 32 → ∀ c call, q.shared.calls[c]? = some call →
          call.isNil = false →
          q.shared.invocations (only c) = 1 ∨
            q.shared.invocations (only c) = 0 ∧
              ((∃ id conn, q.shared.pending.lookup id = some ⟨c, false⟩ ∧
                  q.shared.conn = some conn ∧ .readLoop conn q.shared.gen .read ∈ q.threads) ∨
                (∃ methodID request pc,
                    .ensureConnected (.call methodID request ⟨c, false⟩) pc ∈ q.threads) ∧
                  ∃ k conn, .ensureConnected k (.readHeader conn) ∈ q.threads)) ∧
        (q.shared.closed = true → (∀ k conn, .ensureConnected k (.readHeader conn) ∉ q.threads) →
          (∀ g ∈ q.threads, g = .app ∨ g = .done) ∧
            (q.shared.calls.length < 2 ^ 32 → ∀ c call, q.shared.calls[c]? = some call →
              call.isNil = false → q.shared.invocations (only c) = 1)) := by
  refine ⟨winding_terminates cfg, fun p q hp hq hrest halive => ?_⟩
  have hreach := reachable_of_winding hp hq
  have hrest := resting_of_atRest hrest
  refine ⟨fun g hg => rest_goroutine hreach hrest halive hg,
    fun hcalls c call hc hnil => rest_call hreach hrest halive hcalls hc hnil, ?_⟩
  intro hclosed hshake
  have hconn := (reachable_closed_conn hreach hclosed).2
  refine ⟨fun g hg => ?_, fun hcalls c call hc hnil => ?_⟩
  · rcases rest_goroutine hreach hrest halive hg with happ | hended | hawaits
    · exact Or.inl happ
    · exact Or.inr hended
    · unfold Goroutine.Awaits at hawaits
      split at hawaits
      · exact absurd hg (hshake _ _)
      · obtain ⟨k, conn, hmem⟩ := hawaits
        exact absurd hmem (hshake k conn)
      · cases hconn.symm.trans hawaits.1
      · exact absurd hawaits id
  · rcases rest_call hreach hrest halive hcalls hc hnil with
      hcalled | ⟨-, ⟨id, conn, -, hsome, -⟩ | ⟨-, k, conn, hmem⟩⟩
    · exact hcalled
    · cases hconn.symm.trans hsome
    · exact absurd hmem (hshake k conn)

theorem atRest_of_ended (cfg : Config) (hended : ∀ g ∈ q.threads, g = .app ∨ g = .done) :
    (winding cfg).AtRest q := by
  intro ia
  by_contra hsome
  obtain ⟨q', hstep⟩ := Option.ne_none_iff_exists'.mp hsome
  obtain ⟨g, g', new, hg, hs, -⟩ := Program.machine_step_eq hstep
  obtain ⟨hw, hs⟩ := Program.restrict_step.mp hs
  rcases hended g (List.mem_of_getElem? hg) with rfl | rfl
  · cases hw
  · simp [program, step] at hs

/-- `Close` comes while a call waits for its response. -/
theorem calls_settled_closedRun :
    ∃ p q, (machine (createConfig {})).run initial (closedRun.take 15) = some p ∧
      (winding (createConfig {})).run p (closedRun.drop 15) = some q ∧
      p.shared.snapshot = [⟨0, false⟩] ∧ q.shared.invocations (only 0) = 1 := by
  have hrun : (((machine (createConfig {})).run initial (closedRun.take 15)).bind fun p =>
      ((winding (createConfig {})).run p (closedRun.drop 15)).map
        fun q => (p.shared.snapshot, q.threads, q.shared.panicked, q.shared.closed,
          q.shared.calls)) =
      some ([⟨0, false⟩], [.app, .done, .done, .done], false, true, [⟨7, [], false⟩]) := by
    decide +kernel
  obtain ⟨p, hp, hrun⟩ := Option.bind_eq_some_iff.mp hrun
  obtain ⟨q, hq, hobs⟩ := Option.map_eq_some_iff.mp hrun
  simp only [Prod.mk.injEq] at hobs
  obtain ⟨hwaits, hthreads, halive, hclosed, hcalls⟩ := hobs
  have hrest : (winding (createConfig {})).AtRest q :=
    atRest_of_ended _ (by rw [hthreads]; decide)
  obtain ⟨-, -, hend⟩ :=
    (calls_settled (createConfig {})).2 p q ⟨_, hp⟩ ⟨_, hq⟩ hrest halive
  have hcalled := (hend hclosed (by simp [hthreads])).2 (by simp [hcalls]) 0 ⟨7, [], false⟩
    (by simp [hcalls]) rfl
  exact ⟨p, q, hp, hq, hwaits, hcalled⟩

end Protocomm.Go.Channel
