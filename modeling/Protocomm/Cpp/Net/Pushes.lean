import Protocomm.Cpp.Net.Calls

/-!
# Pushes to a C++ channel

What the application gives to a session with `Send` and `Broadcast` reaches `on_push` of
the channel: each push once, whole, and in the order in which they were given.
-/

namespace Protocomm.Cpp

open Misc

/-- A push frame. -/
def isPush (f : FrameHeader × Bytes) : Bool := f.1.type == FramePush

/-- What `on_push` is called with for a push. -/
def pushOf (f : FrameHeader × Bytes) : UInt32 × Bytes := (f.1.methodID, f.2)

/-! ## The channel -/

namespace Channel

/-- The pushes. -/
def pushesView : View (UInt32 × Bytes) where
  called d := d.pushes
  waits
    | .push methodId payload => [(methodId, payload)]
    | _ => []
  queue _ _ := rfl
  invoke _ _ _ _ _ _ := (List.append_nil _).symm
  empty _ _ _ _ := rfl
  push _ _ _ := rfl
  connected cb _ _ _ := by cases cb <;> rfl
  connect _ _ := rfl

/-- The pushes that `on_push` was called with, and then those that wait in `cb_queue`. -/
def Deliveries.pushed (d : Deliveries) : List (UInt32 × Bytes) := pushesView.all d

/-- When nothing waits in `cb_queue`, `on_push` was called with all of them. -/
theorem Deliveries.pushed_eq {d : Deliveries} (h : d.cbQueue = []) : d.pushed = d.pushes := by
  simp [Deliveries.pushed, View.all, h, pushesView]

variable {cfg : Config} {p : Pool (Shared × Link) Thread}

/-- `on_push` gets the pushes that were read. -/
theorem calm_pushed (h : (calmProgram cfg).machine.Reachable linkedInitial p) :
    p.shared.1.out.pushed =
      if cfg.onPush then (p.shared.2.got.filter isPush).map pushOf else [] := by
  refine Program.reachable_shared (P := calmProgram cfg)
    (I := fun s => s.1.out.pushed = if cfg.onPush then (s.2.got.filter isPush).map pushOf else [])
    (by simp [linkedInitial, Deliveries.pushed, View.all, pushesView]) ?_ h
  rintro u hu ⟨s', l'⟩ t t' new a ht hI hs
  obtain ⟨hcalm, hlink, hs⟩ := calm_step hs
  obtain rfl : l' = _ := hlink
  have hplain := reachable_of_calm hu
  have hqueue : cfg.dispatch = .inline → u.shared.1.out.cbQueue = [] :=
    fun hinline => reachable_cbQueue hinline hplain
  obtain ⟨hopen, -⟩ := calm_open hu
  have same : ∀ {d' : Deliveries} {l' : Link}, d'.pushed = u.shared.1.out.pushed →
      l'.got = u.shared.2.got →
      d'.pushed = if cfg.onPush then (l'.got.filter isPush).map pushOf else [] := by
    intro d' l' hpushed hgot
    rw [hpushed, hgot, hI]
  have reply : ∀ {cb : Callback} {st : Status} {payload : Bytes} {site : Site},
      (postResponse cfg u.shared.1.out cb st payload site).pushed = u.shared.1.out.pushed :=
    (pushesView.all_postResponse hqueue _).trans (List.append_nil _)
  cases step_move hs with
  | push hdr payload htype hset =>
      simp only [hset, if_true] at hI ⊢
      refine (pushesView.all_postPush hqueue _).trans ?_
      rw [← Deliveries.pushed, hI]
      simp [Link.follow, isPush, htype, pushOf, pushesView]
  | skip hdr payload hskip =>
      rcases hskip with htype | ⟨htype, -⟩
      · -- `on_push` is not set
        by_cases hset : cfg.onPush = true
        · simp only [step, readLoopStep, htype, hset, if_true, Option.some.injEq,
            Prod.mk.injEq] at hs
          have hsame : postPush cfg u.shared.1.out hdr.methodID payload = u.shared.1.out :=
            congrArg Shared.out hs.1
          have hmore := @View.all_postPush _ pushesView cfg _ payload hqueue hdr.methodID
          rw [hsame] at hmore
          simp [pushesView] at hmore
        · simp only [hset] at hI ⊢
          exact hI
      · simp [Link.follow, isPush, htype, FramePush, FrameResponse, hI]
  | take hdr payload cb htype hlookup =>
      refine reply.trans ?_
      simp [Link.follow, isPush, htype, FramePush, FrameResponse, hI]
  | fail | nestedCallFails => exact same reply rfl
  | runOne left c rest hcb => exact same (pushesView.all_run hcb) rfl
  | requestStopped | ioThreadMissing =>
      rw [follow_return]
      exact same (pushesView.all_connected _) rfl
  | postRequest =>
      rw [follow_return]
      exact same rfl rfl
  | checkOK | ensureStopped | waitSet | waitBroken =>
      rw [follow_resume]
      exact same rfl rfl
  | connectRefused | connectThere | nestedConnectStopped =>
      exact same (pushesView.all_connected _) rfl
  | connectFailed | connectClosed | connectDone => exact same (pushesView.all_finish _) rfl
  | connectStep pc pc' a hnext => cases hnext <;> exact same rfl rfl
  | readFailed a st ha =>
      cases a with
      | readFrame r =>
          cases r with
          | error | throw => cases hcalm
          | frame hdr payload => simp [calm, ha] at hcalm
      | _ => cases ha
  | readThrow | pumpFailed => cases hcalm
  | submitStopped methodId request cb rest hstrand hstopped => cases hopen.symm.trans hstopped
  | shutdownHandler rest hstrand =>
      cases hopen.symm.trans ((reachable_stopping hplain).1 (hstrand ▸ List.mem_cons_self))
  | closeIdle | drain => cases hopen.symm.trans ((reachable_stopping hplain).2 _ ht rfl)
  | _ => exact same rfl rfl

end Channel

/-! ## The server -/

namespace Server

/-- The push that a step gives to session `k`. -/
def Thread.gives (k : Nat) : Thread → Action → List (UInt32 × Bytes)
  | .app, .send j methodId payload => if j = k then [(methodId, payload)] else []
  | .broadcast hdr payload todo, .pick i =>
      if todo[i]? = some k then [(hdr.methodID, payload)] else []
  | _, _ => []

variable {s : Shared} {t : Thread} {a : Action} {k : Nat}

theorem Explained.isPush {f : FrameHeader × Bytes} (h : Explained k s f) :
    Cpp.isPush f = false := by
  rcases h with ⟨run, -, -, response, st, -, rfl⟩ | ⟨miss, -, -, rfl⟩ <;> rfl

/-- What is given to a session are pushes and responses. -/
theorem posts_kinds (ht : t.Pushes) (hworks : t.Works s) :
    ∀ f ∈ t.posts k a, f.1.type = FramePush ∨ f.1.type = FrameResponse := by
  have one : ∀ {f : FrameHeader × Bytes} {P : Prop} [Decidable P],
      (f.1.type = FramePush ∨ f.1.type = FrameResponse) →
      ∀ f' ∈ (if P then [f] else []), f'.1.type = FramePush ∨ f'.1.type = FrameResponse := by
    intro f P _ hf f' hmem
    split at hmem
    · rw [List.mem_singleton.mp hmem]
      exact hf
    · cases hmem
  unfold Thread.posts
  split
  · exact one (Or.inl rfl)
  · exact one (Or.inl ht)
  · refine one (Or.inr ?_)
    rcases hworks with ⟨run, -, -, response, st, -, heq⟩ | ⟨miss, -, -, heq⟩
    · rw [heq]; rfl
    · rw [heq]; rfl
  · exact List.forall_mem_nil _

/-- The pushes among the frames given to a session. -/
theorem posts_pushes (ht : t.Pushes) (hworks : t.Works s) :
    ((t.posts k a).filter isPush).map pushOf = t.gives k a := by
  unfold Thread.posts
  split
  · simp only [Thread.gives]
    split <;> rfl
  · rename_i hdr payload todo i
    have hpush : Cpp.isPush (hdr, payload) = true := beq_iff_eq.mpr ht
    simp only [Thread.gives]
    split
    · rw [List.filter_singleton, hpush]
      rfl
    · rfl
  · simp only [Thread.gives]
    split
    · rw [List.filter_singleton, hworks.isPush]
      rfl
    · rfl
  · rename_i hsend hpick _
    unfold Thread.gives
    split
    · exact absurd rfl (hsend _ _ _ rfl)
    · exact absurd rfl (hpick _ _ _ _ rfl)
    · rfl

end Server

/-! ## The connection -/

namespace Net

variable {cfg : Config} {n : State} {acts : List Action}

/-- The push that a step gives to the session of the channel. -/
def State.gives (cfg : Config) (n : State) : Action → List (UInt32 × Bytes)
  | .client _ _ => []
  | .server i a =>
      match n.server.threads[i]? with
      | some t => t.gives cfg.session a
      | none => []

/-- The pushes that a run gives to the session of the channel. -/
def given (cfg : Config) (acts : List Action) : List (UInt32 × Bytes) :=
  (machine cfg).log (fun n act _ => n.gives cfg act) initial acts

/-- The line of the session has the pushes given to it. -/
theorem line_given (h : (machine cfg).run initial acts = some n) :
    ∃ taken, Server.Taken cfg.session (n.session cfg) n.server.threads taken ∧
      (((n.session cfg).line taken).filter isPush).map pushOf = given cfg acts := by
  refine Machine.run_history (P := fun acts n =>
    ∃ taken, Server.Taken cfg.session (n.session cfg) n.server.threads taken ∧
      (((n.session cfg).line taken).filter isPush).map pushOf = given cfg acts) ?_ ?_ h
  · exact ⟨[], ⟨fun _ => rfl, by simp [initial, Server.initial]⟩, rfl⟩
  · rintro acts u act u' hrun ⟨taken, hT, hline⟩ hstep
    have hlog : given cfg (acts ++ [act]) = given cfg acts ++ u.gives cfg act :=
      Machine.log_concat hrun hstep
    rw [hlog]
    have hjoined := reachable_joined ⟨acts, hrun⟩
    cases step_move hstep with
    | client => exact ⟨taken, hT, by rw [State.gives, List.append_nil]; exact hline⟩
    | server ht hreads hserver =>
        obtain ⟨t, taken', ht', hT', hline'⟩ := Server.calm_line_step hjoined.server hserver hT
        have hplain := Server.reachable_of_calm hjoined.server
        have hmem := List.mem_of_getElem? ht'
        refine ⟨taken', hT', ?_⟩
        rw [State.session, hline', List.filter_append, List.map_append,
          Server.posts_pushes (Server.reachable_pushes hplain t hmem)
            (Server.reachable_works hplain t hmem), State.gives, ht']
        exact congrArg (· ++ _) hline

/-- `on_push` of a channel gets the pushes given to its session, each once and in the order
    in which they were given; without `on_push` it gets none. -/
theorem pushes_delivered (hagreed : cfg.channel.handshakeHeader = cfg.server.handshakeHeader)
    (h : (machine cfg).run initial acts = some n) (hbounded : Bounded cfg n) :
    n.client.shared.1.out.pushed <+: if cfg.channel.onPush then given cfg acts else [] := by
  have hjoined := reachable_joined ⟨acts, h⟩
  have hordered := reachable_ordered hagreed ⟨acts, h⟩ hbounded
  rw [Channel.calm_pushed hjoined.client]
  split
  · obtain ⟨taken, -, hline⟩ := line_given h
    rw [← hline]
    have hframes : n.link.got <+: (n.session cfg).line taken :=
      hordered.down.trans (List.prefix_append _ _)
    exact (hframes.filter isPush).map pushOf
  · exact List.prefix_refl _

/-- When the channel is connected, `[1]` is sent to it and then `[2]` to all. -/
def pushRun : List Action :=
  fifoRun.take 19 ++
    [.server 0 (.send 0 9 [1]), .server 0 (.broadcast 8 [2]), .server 4 (.pick 0),
      .server 1 (.handle 0), .server 1 (.handle 0), .server 5 .run, .server 5 (.wrote 17),
      .server 5 .run, .server 5 (.wrote 17), .client 4 .run,
      .client 4 (.readFrame (.frame (Server.pushHeader 9 [1]) [1])),
      .client 4 (.readFrame (.frame (Server.pushHeader 8 [2]) [2]))]

theorem pushes_delivered_pushRun :
    ∃ n, (machine ⟨{ onPush := true }, {}, 0⟩).run initial pushRun = some n ∧
      n.client.shared.1.out.pushed = [(9, [1]), (8, [2])] ∧
      n.client.shared.1.out.pushed <+: given ⟨{ onPush := true }, {}, 0⟩ pushRun := by
  have hend : ((machine ⟨{ onPush := true }, {}, 0⟩).run initial pushRun).map (fun n =>
      decide (n.client.shared.1.out.pushed = [(9, [1]), (8, [2])]) &&
      decide (n.client.shared.1.calls = [⟨sayHelloId, [5], false⟩]) &&
      decide (n.link.sent.map (fun f => f.2) = []) &&
      decide ((n.session ⟨{ onPush := true }, {}, 0⟩).out.frames.map (fun f => f.2) =
        [[1], [2]])) = some true := by
    decide +kernel
  obtain ⟨n, hrun, hobs⟩ := Option.map_eq_some_iff.mp hend
  simp only [Bool.and_eq_true, decide_eq_true_eq] at hobs
  obtain ⟨⟨⟨hpushed, hcalls⟩, hsent⟩, hframes⟩ := hobs
  refine ⟨n, hrun, hpushed, pushes_delivered rfl hrun ?_⟩
  exact bounded_of_payloads (by rw [hcalls]; decide) hsent hframes (by decide)

end Net

end Protocomm.Cpp
