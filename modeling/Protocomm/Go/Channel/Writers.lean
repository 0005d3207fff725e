import Protocomm.Go.Channel.Generations

/-!
# Requests of failed calls

A goroutine writes the request of the call it registered, and only on the
connection it found installed then. `teardown` and `Close` close that connection
before they fail the call, so no byte of the request follows its failure.
-/

namespace Protocomm.Go.Channel

open Misc

variable {cfg : Config} {p p' q : Pool Shared Goroutine} {s s' : Shared} {g g' : Goroutine}
  {a : Action} {new : List Goroutine} {acts : List (Nat × Action)}

/-- The connection and the frame a goroutine is writing or about to write. -/
def Goroutine.writing : Goroutine → Option (Nat × FrameHeader × Bytes)
  | .asyncUnaryCall (.lockWrite conn _ hdr request) => some (conn, hdr, request)
  | .asyncUnaryCall (.writeHeader conn _ hdr request) => some (conn, hdr, request)
  | .asyncUnaryCall (.writePayload conn _ hdr request) => some (conn, hdr, request)
  | _ => none

@[simp]
theorem resume_writing (k : Caller) (st : Status) : (k.resume st).writing = none :=
  resume_const Goroutine.writing rfl (fun _ _ _ => rfl) (fun _ _ => rfl) k st

/-- A goroutine that is to write a frame has just registered the call, or was to
    write it before. -/
theorem Move.writing (h : Move cfg s g a s' g' new) {conn : Nat} {hdr : FrameHeader}
    {request : Bytes} (hg' : g'.writing = some (conn, hdr, request)) :
    g.writing = some (conn, hdr, request) ∨
      ∃ methodID cb r, g = .asyncUnaryCall (.register methodID request cb) ∧ a = .run ∧
        s'.registered = s.registered ++ [r] ∧ r.call = cb.call ∧ r.conn = conn ∧
        hdr = requestHeader r.callID methodID request := by
  cases h with
  | register methodID request cb conn =>
      cases hg'
      exact Or.inr ⟨methodID, cb, _, rfl, rfl, rfl, rfl, rfl, rfl⟩
  | lockWrite | wroteHeader => exact Or.inl hg'
  | checkClosed | checkOK | unlockConnect => simp at hg'
  | _ => cases hg'

theorem Move.new_writing (h : Move cfg s g a s' g' new) : ∀ v ∈ new, v.writing = none := by
  cases h with
  | call | connect | close | spawn => exact List.forall_mem_singleton.mpr rfl
  | _ => exact List.forall_mem_nil _

/-- In the run `acts`, goroutine `k` registered its call as `r`. -/
def Writer (cfg : Config) (acts : List (Nat × Action)) (k : Nat) (methodID : UInt32)
    (request : Bytes) (r : Registration) : Prop :=
  ∃ front back p p' cb, acts = front ++ (k, .run) :: back ∧
    (machine cfg).run initial front = some p ∧ (machine cfg).step p (k, .run) = some p' ∧
    p.threads[k]? = some (.asyncUnaryCall (.register methodID request cb)) ∧
    p'.shared.registered = p.shared.registered ++ [r] ∧ r.call = cb.call

theorem Writer.append {k : Nat} {methodID : UInt32} {request : Bytes} {r : Registration}
    (h : Writer cfg acts k methodID request r) (later : List (Nat × Action)) :
    Writer cfg (acts ++ later) k methodID request r := by
  obtain ⟨front, back, p, p', cb, rfl, hrest⟩ := h
  exact ⟨front, back ++ later, p, p', cb, by simp, hrest⟩

theorem reachable_grows (h : (machine cfg).Reachable p q) :
    p.shared.registered <+: q.shared.registered ∧
      p.shared.closedConns <+: q.shared.closedConns := by
  refine Program.reachable_shared (I := fun s => p.shared.registered <+: s.registered ∧
    p.shared.closedConns <+: s.closedConns) ⟨List.prefix_refl _, List.prefix_refl _⟩ ?_ h
  intro u _ s' g g' new a _ hI hs
  obtain ⟨-, hmove⟩ := step_move hs
  exact ⟨hI.1.trans hmove.registered_initial, hI.2.trans hmove.closedConns_initial⟩

theorem Writer.registered {k : Nat} {methodID : UInt32} {request : Bytes} {r : Registration}
    (h : Writer cfg acts k methodID request r) (hrun : (machine cfg).run initial acts = some q) :
    r ∈ q.shared.registered := by
  obtain ⟨front, back, p, p', cb, rfl, hfront, hstep, -, hregistered, -⟩ := h
  have hback := Machine.run_of_run_append hfront hrun
  rw [Machine.run_cons hstep] at hback
  refine (reachable_grows ⟨back, hback⟩).1.mem ?_
  rw [hregistered]
  exact List.mem_append_right _ List.mem_cons_self

/-- Whoever writes a frame registered the call itself, on the connection it writes
    to. -/
theorem writer_of_writing (hrun : (machine cfg).run initial acts = some p) :
    ∀ k g conn hdr request, p.threads[k]? = some g → g.writing = some (conn, hdr, request) →
      ∃ methodID r, Writer cfg acts k methodID request r ∧ r.conn = conn ∧
        hdr = requestHeader r.callID methodID request := by
  refine Machine.run_history (P := fun acts p => ∀ k g conn hdr request,
    p.threads[k]? = some g → g.writing = some (conn, hdr, request) →
      ∃ methodID r, Writer cfg acts k methodID request r ∧ r.conn = conn ∧
        hdr = requestHeader r.callID methodID request) ?_ ?_ hrun
  · intro k g conn hdr request hk hwriting
    have hg : g ∈ initial.threads := List.mem_of_getElem? hk
    rw [List.mem_singleton.mp hg] at hwriting
    cases hwriting
  · intro acts u ia u' hacts ih hstep k v conn hdr request hk hwriting
    obtain ⟨i, a⟩ := ia
    obtain ⟨g, g', new, hg, hs, hthreads⟩ := Program.machine_step_eq hstep
    have hmove : Move cfg u.shared g a u'.shared g' new := (step_move hs).2
    by_cases hlt : k < u.threads.length
    · by_cases hik : i = k
      · subst hik
        rw [hthreads, List.getElem?_append_left (by simpa using hlt),
          List.getElem?_set_self hlt] at hk
        cases hk
        rcases hmove.writing hwriting with hbefore | ⟨methodID, cb, r, rfl, rfl, hr, hcall, hrest⟩
        · obtain ⟨methodID, r, hwriter, hsame⟩ := ih _ g conn hdr request hg hbefore
          exact ⟨methodID, r, hwriter.append _, hsame⟩
        · exact ⟨methodID, r, ⟨acts, [], u, u', cb, rfl, hacts, hstep, hg, hr, hcall⟩, hrest⟩
      · rw [Program.machine_step_getElem? hstep hik hlt] at hk
        obtain ⟨methodID, r, hwriter, hsame⟩ := ih k v conn hdr request hk hwriting
        exact ⟨methodID, r, hwriter.append _, hsame⟩
    · rw [hthreads, List.getElem?_append_right (by simpa using hlt)] at hk
      rw [hmove.new_writing v (List.mem_of_getElem? hk)] at hwriting
      cases hwriting

/-- Who calls a callback in a step: `teardown` and `Close` do so on a closed
    connection. -/
theorem Move.failing (h : Move cfg s g a s' g' new) (hg : g.Severs s) {i : Invocation}
    (hinvoked : s'.invoked = s.invoked ++ [i])
    (hcause : i.cause = .close ∨ ∃ gen, i.cause = .teardown gen) :
    s.Severed (fun r => ∀ gen, i.cause = .teardown gen → r.gen = gen) i.call := by
  cases h with
  | teardownCall origin gen st snapshot n cb hpick =>
      obtain rfl := List.singleton_inj.mp (List.append_cancel_left hinvoked)
      obtain ⟨r, hr, hcall, hgen, hclosed⟩ := hg cb (List.mem_of_getElem? hpick)
      refine ⟨r, hr, hcall, ?_, hclosed⟩
      intro gen' hcause'
      cases hcause'
      exact hgen
  | closeCall snapshot n cb hpick =>
      obtain rfl := List.singleton_inj.mp (List.append_cancel_left hinvoked)
      obtain ⟨r, hr, hcall, -, hclosed⟩ := hg cb (List.mem_of_getElem? hpick)
      exact ⟨r, hr, hcall, nofun, hclosed⟩
  | callBack | complete =>
      obtain rfl := List.singleton_inj.mp (List.append_cancel_left hinvoked)
      rcases hcause with hcause | ⟨gen, hcause⟩ <;> cases hcause
  | _ => exact absurd hinvoked.symm (by simp [Shared.panic, Shared.detach])

/-- A closed connection takes no bytes: a `Write` on it writes none. -/
def ClosedRefuses (q : Pool Shared Goroutine) (k n : Nat) : Prop :=
  ∀ g conn frame, q.threads[k]? = some g → g.writing = some (conn, frame) →
    conn ∈ q.shared.closedConns → n = 0

/-- When `teardown` or `Close` fails a call, the connection the call was registered on is
    closed. From then on every goroutine that writes a request writes that of the call it
    registered itself, on the connection of its registration; for the failed call this is
    the closed one, which takes no byte. -/
theorem failed_call_writes_nothing (hrun : (machine cfg).run initial acts = some p)
    {ia : Nat × Action} (hstep : (machine cfg).step p ia = some p') {i : Invocation}
    (hinvoked : p'.shared.invoked = p.shared.invoked ++ [i])
    (hcause : i.cause = .close ∨ ∃ gen, i.cause = .teardown gen) :
    ∃ r ∈ p.shared.registered, r.call = i.call ∧ (∀ gen, i.cause = .teardown gen → r.gen = gen) ∧
      (r.conn, r.gen) ∈ p.shared.published ∧ r.conn ∈ p.shared.closedConns ∧
      ∀ later q, (machine cfg).run p' later = some q →
        ∀ k g conn hdr request, q.threads[k]? = some g → g.writing = some (conn, hdr, request) →
          ∃ methodID r', Writer cfg (acts ++ ia :: later) k methodID request r' ∧
            r'.conn = conn ∧ hdr = requestHeader r'.callID methodID request ∧
            (r'.call = i.call → conn = r.conn ∧ conn ∈ q.shared.closedConns ∧
              ∀ n, ClosedRefuses q k n → n = 0) := by
  have hreach : (machine cfg).Reachable initial p := ⟨acts, hrun⟩
  obtain ⟨g, g', new, hg, hs, -⟩ := Program.machine_step_eq hstep
  have hsevers := (reachable_severed hreach).2 g (List.mem_of_getElem? hg)
  obtain ⟨r, hr, hcall, hgen, hclosed⟩ := (step_move hs).2.failing hsevers hinvoked hcause
  refine ⟨r, hr, hcall, hgen, reachable_registered hreach r hr, hclosed, ?_⟩
  intro later q hlater k v conn hdr request hk hwriting
  have hall : (machine cfg).run initial (acts ++ ia :: later) = some q :=
    Machine.run_append hrun (by rw [Machine.run_cons hstep, hlater])
  obtain ⟨methodID, r', hwriter, hconn, hhdr⟩ :=
    writer_of_writing hall k v conn hdr request hk hwriting
  refine ⟨methodID, r', hwriter, hconn, hhdr, ?_⟩
  intro hsame
  -- the call was registered once, so its writer writes to the connection that was closed
  have hlast : (machine cfg).Reachable p q :=
    ⟨ia :: later, by rw [Machine.run_cons hstep, hlater]⟩
  have hgrows := reachable_grows hlast
  have heq : r' = r := registered_unique ⟨_, hall⟩ (hwriter.registered hall) (hgrows.1.mem hr)
    (hsame.trans hcall.symm)
  subst heq
  have hmem : conn ∈ q.shared.closedConns := hconn ▸ hgrows.2.mem hclosed
  exact ⟨hconn.symm, hmem, fun n hrefuses => hrefuses v conn _ hk hwriting hmem⟩

/-- A call is registered and about to be written when `Close` takes its connection. -/
def failingRun : List (Nat × Action) :=
  [(0, .call 7 [] false), (1, .run), (1, .run), (1, .run), (1, .dial none), (1, .wrote 3 none),
    (1, .readFull (.ok [112, 99, 49])), (1, .run), (1, .run), (1, .run), (1, .run), (0, .close),
    (3, .run), (3, .run)]

theorem failed_call_writes_nothing_failingRun :
    ∃ p p', (machine (createConfig {})).run initial failingRun = some p ∧
      (machine (createConfig {})).step p (3, .pick 0) = some p' ∧
      p'.shared.invoked.map Invocation.call = [0] ∧ 0 ∈ p.shared.closedConns ∧
      ∃ r', Writer (createConfig {}) (failingRun ++ [(3, .pick 0)]) 1 7 [] r' ∧ r'.call = 0 ∧
        r'.conn = 0 ∧ ∀ n, ClosedRefuses p' 1 n → n = 0 := by
  have hall := @failed_call_writes_nothing (createConfig {}) _ _ failingRun rfl (3, .pick 0) rfl
    _ rfl (Or.inl rfl)
  obtain ⟨r, hr, -, -, -, hclosed, hlater⟩ := hall
  obtain rfl := List.mem_singleton.mp hr
  obtain ⟨methodID, r', hwriter, hconn, hhdr, hrefuses⟩ :=
    hlater [] _ rfl 1 _ 0 (requestHeader 1 7 []) [] rfl rfl
  cases congrArg FrameHeader.methodID hhdr
  obtain rfl := List.mem_singleton.mp (hwriter.registered rfl)
  exact ⟨_, _, rfl, rfl, rfl, hclosed, _, hwriter, rfl, rfl, (hrefuses rfl).2.2⟩

end Protocomm.Go.Channel
