import Protocomm.Go.Server.Requests

/-!
# Answers

Every frame a server writes is a push or the answer to a request of that connection:
what a handler returned for it, or that its method has no handler.
-/

namespace Protocomm.Go.Server

open Misc

variable {cfg : Config} {s s' : Shared} {g g' : Goroutine} {a : Action} {new rest : List Goroutine}
  {k : Nat} {peer : Peer} {p : Pool Shared Goroutine}

/-! ## Runs of handlers -/

/-- The run with number `i` has started. -/
def Shared.started (i : Nat) (s : Shared) : Nat := if i < s.runs.length then 1 else 0

/-- The handler of the run with number `i` has returned. -/
def Shared.finished (i : Nat) (s : Shared) : Nat := (s.runs[i]?.bind Run.result).isSome.toNat

/-- The goroutine waits for the handler of the run with number `i`. -/
def Goroutine.awaits (i : Nat) : Goroutine → Nat
  | .request _ _ _ (.running j) => if j = i then 1 else 0
  | _ => 0

theorem started_concat (s : Shared) (run : Run) (i : Nat) {s' : Shared}
    (hruns : s'.runs = s.runs ++ [run]) :
    s'.started i = s.started i + if s.runs.length = i then 1 else 0 := by
  simp only [Shared.started, hruns, List.length_append, List.length_singleton]
  split <;> split <;> split <;> omega

theorem finished_concat (s : Shared) (run : Run) (i : Nat) {s' : Shared}
    (hruns : s'.runs = s.runs ++ [run]) (hnone : run.result = none) :
    s'.finished i = s.finished i := by
  by_cases hlt : i < s.runs.length
  · simp only [Shared.finished, hruns, List.getElem?_append_left hlt]
  · have hold : s.runs[i]? = none := List.getElem?_eq_none (Nat.not_lt.mp hlt)
    simp only [Shared.finished, hruns, hold,
      List.getElem?_append_right (Nat.not_lt.mp hlt), List.getElem?_singleton]
    split <;> simp [hnone]

theorem finished_setResult (s : Shared) {i j : Nat} (result : Bytes × Status) :
    (s.setResult j result).finished i =
      if j = i ∧ i < s.runs.length then 1 else s.finished i := by
  simp only [Shared.finished, Shared.setResult, List.getElem?_modify]
  by_cases hj : j = i
  · subst hj
    by_cases hlt : j < s.runs.length
    · simp [hlt]
    · simp [hlt]
  · simp [hj]

/-- A run that has started has returned or is awaited by one goroutine. -/
theorem reachable_awaits (i : Nat) (hreach : (machine cfg).Reachable initial p) :
    Program.owned (Shared.finished i) (Goroutine.awaits i) p.shared p.threads =
      p.shared.started i := by
  refine Program.reachable_owned (P := program cfg) _ _ (Shared.started i) rfl ?_ hreach
  intro u _ s' g g' new rest a _ howned hs
  have hmove := step_move hs
  cases hmove with
  | call k hdr payload handler =>
      refine ⟨_, started_concat _ _ i rfl, ?_⟩
      rw [finished_concat u.shared _ i rfl rfl]
      simp [Goroutine.awaits]
  | returned k hdr payload run response st =>
      refine ⟨0, by simp [Shared.started, Shared.setResult, Shared.log], ?_⟩
      rw [finished_setResult]
      simp only [Program.owned, List.map_cons, List.sum_cons, Goroutine.awaits, List.map_nil,
        List.sum_nil] at howned ⊢
      by_cases hrun : run = i
      · -- the awaited run has started and not returned
        subst hrun
        have hstarted : run < u.shared.runs.length ∧ u.shared.started run = 1 := by
          by_cases hlt : run < u.shared.runs.length
          · exact ⟨hlt, if_pos hlt⟩
          · rw [Shared.started, if_neg hlt, if_pos rfl] at howned
            omega
        simp only [hstarted.2, if_true] at howned
        simp only [Shared.log, hstarted.1, and_self, if_true]
        omega
      · simp [hrun, Shared.finished, Shared.log]
  | requestUnlock hdr payload rhdr rpayload err pc hpeer hpc =>
      refine ⟨0, rfl, ?_⟩
      rcases hpc with rfl | rfl <;> rfl
  | _ => exact ⟨0, rfl, rfl⟩

/-- The run a goroutine waits for has not returned. -/
theorem result_of_awaits {i : Nat} (hreach : (machine cfg).Reachable initial p)
    (hg : g ∈ p.threads) (hawaits : g.awaits i = 1) {run : Run}
    (hrun : p.shared.runs[i]? = some run) : run.result = none := by
  have hle := (Program.add_le_owned hg).trans (reachable_awaits i hreach).le
  have hstarted : p.shared.started i ≤ 1 := by
    unfold Shared.started
    split <;> omega
  simp only [Shared.finished, hrun, Option.bind_some, hawaits] at hle
  cases hresult : run.result with
  | none => rfl
  | some result =>
      simp only [hresult, Option.isSome_some, Bool.toNat_true] at hle
      omega

/-! ## Answers -/

/-- The run is of the request `req` of peer `k`. -/
structure Run.Of (run : Run) (k : Nat) (req : FrameHeader × Bytes) : Prop where
  peer : run.peer = k
  callID : run.callID = req.1.callID
  methodID : run.methodID = req.1.methodID
  request : run.request = req.2

/-- `f` answers the request `req` of peer `k`: with what a handler registered for its
    method returned for it, or because there was no handler. -/
inductive Shared.Answers (s : Shared) (k : Nat) (req f : FrameHeader × Bytes) : Prop
  | run (run : Run) (response : Bytes) (st : Status) (hrun : run ∈ s.runs) (hof : run.Of k req)
      (hhandler : s.registrations[run.handler]? = some run.methodID)
      (hresult : run.result = some (response, st))
      (hframe : f = (responseHeader req.1 (respond response st).1 (respond response st).2,
        (respond response st).2))
  | miss (hmiss : ⟨k, req.1.callID, req.1.methodID⟩ ∈ s.misses)
      (hframe : f = (responseHeader req.1 StatusCode.Unimplemented [], []))

/-- A frame written to peer `k` is a push or the answer to a request that was read. -/
def Shared.Explains (s : Shared) (k : Nat) (peer : Peer) (f : FrameHeader × Bytes) : Prop :=
  (f.1.type = FramePush ∧ Sized f) ∨
    ∃ req ∈ peer.reads, req.1.type = FrameRequest ∧ s.Answers k req f

/-- What a goroutine knows about the answer it is to write. -/
def Goroutine.Answers (s : Shared) : Goroutine → Prop
  | .request _ hdr _ (.call handler) => s.registrations[handler]? = some hdr.methodID
  | .request k hdr payload (.running i) =>
      ∃ run, s.runs[i]? = some run ∧ run.Of k (hdr, payload) ∧
        s.registrations[run.handler]? = some run.methodID
  | .request k hdr payload (.write rhdr rpayload _) =>
      s.Answers k (hdr, payload) (rhdr, rpayload)
  | .push hdr payload _ _ => hdr.type = FramePush ∧ Sized (hdr, payload)
  | _ => True

/-- `handlers` holds registered methods. -/
def Shared.HandlersKnown (s : Shared) : Prop :=
  ∀ m handler, s.handlers.lookup m = some handler → s.registrations[handler]? = some m

theorem Move.registrations (h : Move cfg s g a s' g' new) :
    s.registrations <+: s'.registrations := by
  cases h with
  | registerMethod => exact List.prefix_append ..
  | _ => exact List.prefix_refl _

theorem Move.misses (h : Move cfg s g a s' g' new) : s.misses <+: s'.misses := by
  cases h with
  | miss => exact List.prefix_append ..
  | _ => exact List.prefix_refl _

/-- A run keeps its place, and its result once it has one. -/
theorem Move.run_kept (h : Move cfg s g a s' g' new) {i : Nat} {run : Run}
    (hrun : s.runs[i]? = some run) :
    ∃ result, s'.runs[i]? = some { run with result := result } ∧
      (g.awaits i = 0 → result = run.result) := by
  cases h with
  | call =>
      have hlt := (List.getElem?_eq_some_iff.mp hrun).1
      exact ⟨run.result, List.getElem?_append_left hlt ▸ hrun, fun _ => rfl⟩
  | returned k hdr payload j response st =>
      by_cases hj : j = i
      · subst hj
        exact ⟨some (response, st), by simp [Shared.setResult, Shared.log, hrun],
          fun hbad => by simp [Goroutine.awaits] at hbad⟩
      · exact ⟨run.result, by simp [Shared.setResult, Shared.log, hrun, hj], fun _ => rfl⟩
  | _ => exact ⟨run.result, hrun, fun _ => rfl⟩

/-- A frame is added by the first `Write` of a goroutine. -/
theorem Move.frames (h : Move cfg s g a s' g' new) (hk : s.peers[k]? = some peer) :
    ∃ peer', s'.peers[k]? = some peer' ∧ (peer'.out.frames = peer.out.frames ∨
      ∃ hdr payload n err, g.writing = some (k, hdr, payload, .header) ∧ a = .wrote n err ∧ 0 < n ∧
        peer'.out.frames = peer.out.frames ++ [(hdr, payload)]) := by
  obtain ⟨peer', hk', heffect⟩ := h.effect hk
  refine ⟨peer', hk', ?_⟩
  have hstart : ∀ (hdr : FrameHeader) (payload : Bytes) (n : Nat) (err : Option String),
      (peer.wrote (peer.out.start (hdr, payload) ((serialize hdr).toList.take n)) err).out.frames =
          peer.out.frames ∨
        0 < n ∧ (peer.wrote (peer.out.start (hdr, payload) ((serialize hdr).toList.take n))
          err).out.frames = peer.out.frames ++ [(hdr, payload)] := by
    intro hdr payload n err
    simp only [Peer.wrote, Outlet.fail, Outlet.start]
    split
    · exact Or.inl rfl
    · rename_i hne
      refine Or.inr ⟨?_, rfl⟩
      by_contra hzero
      simp [Nat.eq_zero_of_not_pos hzero] at hne
  cases heffect with
  | keep hsame => exact Or.inl (by rw [hsame.out])
  | accept _ hout => exact Or.inl (by rw [hout]; rfl)
  | reply | replyFailed | unlock => exact Or.inl rfl
  | @write g g' a peer' hdr payload pc pc' hg hwrite =>
      cases hwrite with
      | lock | payload => exact Or.inl rfl
      | header n | headerEnd n err =>
          rcases hstart hdr payload n _ with hsame | ⟨hpos, hadd⟩
          · exact Or.inl hsame
          · exact Or.inr ⟨hdr, payload, n, _, hg, rfl, hpos, hadd⟩

section

variable {req f : FrameHeader × Bytes} (h : Move cfg s g a s' g' new)
  (hawaits : ∀ i run, g.awaits i = 1 → s.runs[i]? = some run → run.result = none)
include h hawaits

/-- A run that has returned stays as it is. -/
theorem Move.returned_kept {run : Run} {result : Bytes × Status} (hrun : run ∈ s.runs)
    (hresult : run.result = some result) : run ∈ s'.runs := by
  obtain ⟨i, hi⟩ := List.mem_iff_getElem?.mp hrun
  obtain ⟨result', hi', hkept⟩ := h.run_kept hi
  have hidle : g.awaits i = 0 := by
    by_contra hne
    have hone : g.awaits i = 1 := by
      revert hne
      unfold Goroutine.awaits
      split
      · split <;> simp
      · simp
    cases hresult.symm.trans (hawaits i run hone hi)
  obtain rfl := hkept hidle
  exact List.mem_of_getElem? hi'

theorem Shared.Answers.mono (hold : s.Answers k req f) : s'.Answers k req f := by
  cases hold with
  | run run response st hrun hof hhandler hresult hframe =>
      exact .run run response st (h.returned_kept hawaits hrun hresult) hof
        (getElem?_of_initial h.registrations hhandler) hresult hframe
  | miss hmiss hframe => exact .miss (h.misses.mem hmiss) hframe

theorem Shared.Explains.mono {peer' : Peer} (hold : s.Explains k peer f)
    (hreads : peer.reads <+: peer'.reads) : s'.Explains k peer' f := by
  rcases hold with hpush | ⟨req, hreq, htype, hanswers⟩
  · exact Or.inl hpush
  · exact Or.inr ⟨req, hreads.mem hreq, htype, hanswers.mono h hawaits⟩

theorem Goroutine.Answers.mono {v : Goroutine} (hv : v.Answers s) : v.Answers s' := by
  cases v with
  | request j hdr payload pc =>
      cases pc with
      | call handler => exact getElem?_of_initial h.registrations hv
      | running i =>
          obtain ⟨run, hrun, hof, hhandler⟩ := hv
          obtain ⟨result, hrun', -⟩ := h.run_kept hrun
          exact ⟨_, hrun', ⟨hof.peer, hof.callID, hof.methodID, hof.request⟩,
            getElem?_of_initial h.registrations hhandler⟩
      | write rhdr rpayload pc => exact Shared.Answers.mono h hawaits hv
      | _ => trivial
  | push => exact hv
  | _ => trivial

end

/-- A step of a goroutine establishes what it and the goroutines it starts know. -/
theorem Move.answers (h : Move cfg s g a s' g' new)
    (hawaits : ∀ i run, g.awaits i = 1 → s.runs[i]? = some run → run.result = none)
    (hknown : s.HandlersKnown) (hg : g.Answers s) :
    g'.Answers s' ∧ ∀ v ∈ new, v.Answers s' := by
  have hnil : ∀ v ∈ ([] : List Goroutine), v.Answers s' := List.forall_mem_nil _
  have hkeep : g.Answers s' := hg.mono h hawaits
  cases h with
  | send | broadcast => exact ⟨trivial, List.forall_mem_singleton.mpr ⟨rfl, rfl⟩⟩
  | callShutdown | spawn | spawnRequest => exact ⟨trivial, List.forall_mem_singleton.mpr trivial⟩
  | lookup k hdr payload handler hlookup => exact ⟨hknown _ _ hlookup, hnil⟩
  | miss k hdr payload =>
      exact ⟨.miss (List.mem_append_right _ List.mem_cons_self) rfl, hnil⟩
  | call k hdr payload handler =>
      exact ⟨⟨_, List.getElem?_concat_length, ⟨rfl, rfl, rfl, rfl⟩, hg⟩, hnil⟩
  | returned k hdr payload i response st =>
      obtain ⟨run, hrun, hof, hhandler⟩ := hg
      have hrun' : ((s.log (.finished k)).setResult i (response, st)).runs[i]? =
          some { run with result := some (response, st) } := by
        simp [Shared.setResult, Shared.log, hrun]
      exact ⟨.run _ response st (List.mem_of_getElem? hrun')
        ⟨hof.peer, hof.callID, hof.methodID, hof.request⟩ hhandler rfl rfl, hnil⟩
  | requestWrite | pick | pushWrite | pushUnlock => exact ⟨hkeep, hnil⟩
  | requestUnlock hdr payload rhdr rpayload err pc hpeer hpc =>
      refine ⟨?_, hnil⟩
      rcases hpc with rfl | rfl <;> trivial
  | _ => exact ⟨trivial, hnil⟩

theorem Move.handlersKnown (h : Move cfg s g a s' g' new) (hknown : s.HandlersKnown) :
    s'.HandlersKnown := by
  cases h with
  | registerMethod methodID =>
      intro m handler hlookup
      by_cases hm : m = methodID
      · subst hm
        rw [AList.lookup_insert] at hlookup
        cases hlookup
        exact List.getElem?_concat_length
      · rw [AList.lookup_insert_ne hm] at hlookup
        exact getElem?_of_initial (List.prefix_append ..) (hknown m handler hlookup)
  | _ => exact hknown

/-- A goroutine that writes to peer `k` writes a push or the answer to a request. -/
theorem explains_of_writing {hdr : FrameHeader} {payload : Bytes} {pc : Writing}
    (hwriting : g.writing = some (k, hdr, payload, pc)) (hg : g.Answers s)
    (hinput : g.Input cfg.handshakeHeader s.peers) (hk : s.peers[k]? = some peer) :
    s.Explains k peer (hdr, payload) := by
  unfold Goroutine.writing at hwriting
  split at hwriting <;> cases hwriting
  · obtain ⟨peer', hk', hmem, htype⟩ := hinput
    cases hk.symm.trans hk'
    exact Or.inr ⟨_, hmem, htype, hg⟩
  · exact Or.inl hg

/-- Every frame of the server is a push or the answer to a request it has read. -/
theorem reachable_explains (hreach : (machine cfg).Reachable initial p) :
    ((∀ (k : Nat) peer, p.shared.peers[k]? = some peer →
      ∀ f ∈ peer.out.frames, p.shared.Explains k peer f) ∧ p.shared.HandlersKnown) ∧
      ∀ g ∈ p.threads, g.Answers p.shared := by
  refine Program.reachable_local (P := program cfg)
    (I := fun s => (∀ (k : Nat) peer, s.peers[k]? = some peer →
      ∀ f ∈ peer.out.frames, s.Explains k peer f) ∧ s.HandlersKnown)
    (J := fun s g => g.Answers s) ⟨⟨by simp [initial], ?_⟩, by simp [initial, Goroutine.Answers]⟩
    ?_ hreach
  · intro m handler hlookup
    cases hlookup
  · rintro u hu s' g g' new rest a hperm ⟨hI, hknown⟩ hJ hs
    have hmove := step_move hs
    have hmem : g ∈ u.threads := hperm.mem_iff.mpr List.mem_cons_self
    have hawaits : ∀ i run, g.awaits i = 1 → u.shared.runs[i]? = some run → run.result = none :=
      fun i run hone hrun => result_of_awaits hu hmem hone hrun
    obtain ⟨hg', hnew⟩ := hmove.answers hawaits hknown hJ
    refine ⟨⟨fun k peer' hk' f hf => ?_, hmove.handlersKnown hknown⟩, hg', hnew,
      fun v _ hv => hv.mono hmove hawaits⟩
    cases hk : u.shared.peers[k]? with
    | none => simp [hmove.new_peer hk hk'] at hf
    | some peer =>
        obtain ⟨next, hnext, hinit⟩ := hmove.reads_initial hk
        cases hk'.symm.trans hnext
        obtain ⟨next, hnext, hframes⟩ := hmove.frames hk
        cases hk'.symm.trans hnext
        have hold : f ∈ peer.out.frames → s'.Explains k peer' f :=
          fun hf => (hI k peer hk f hf).mono hmove hawaits hinit
        rcases hframes with hsame | ⟨hdr, payload, -, -, hwriting, -, -, hadd⟩
        · exact hold (hsame ▸ hf)
        · rw [hadd] at hf
          rcases List.mem_append.mp hf with hf | hf
          · exact hold hf
          · rw [List.mem_singleton.mp hf]
            exact (explains_of_writing hwriting hJ ((reachable_input hu).2 g hmem) hk).mono hmove
              hawaits hinit

/-! ## Servers without pushes -/

/-- The action starts a `Send` or a `Broadcast`. -/
def Action.pushes : Action → Bool
  | .send _ _ _ => true
  | .broadcast _ _ => true
  | _ => false

/-- A `Send` or `Broadcast`. -/
def Goroutine.isPush : Goroutine → Bool
  | .push _ _ _ _ => true
  | _ => false

/-- Only `Send` and `Broadcast` start a push. -/
theorem Move.isPush (h : Move cfg s g a s' g' new) (hg : g.isPush = false)
    (ha : a.pushes = false) : g'.isPush = false ∧ ∀ v ∈ new, v.isPush = false := by
  cases h with
  | send | broadcast => cases ha
  | pick | pushWrite | pushUnlock => cases hg
  | callShutdown | spawn | spawnRequest => exact ⟨rfl, List.forall_mem_singleton.mpr rfl⟩
  | _ => exact ⟨rfl, List.forall_mem_nil _⟩

/-- Nothing is taken off the wire. -/
theorem Effect.wire {peer' : Peer} (h : Effect cfg k peer g a peer' g') :
    peer.out.wire <+: peer'.out.wire := by
  have hstart : ∀ (f : FrameHeader × Bytes) (bytes : Bytes),
      peer.out.wire <+: (peer.out.start f bytes).wire := by
    intro f bytes
    unfold Outlet.start
    split
    · exact List.prefix_refl _
    · exact List.prefix_append ..
  cases h with
  | keep hsame => rw [hsame.out]
  | accept _ hout =>
      rw [hout]
      exact List.prefix_refl _
  | reply | replyFailed => exact List.prefix_append ..
  | write _ hwrite =>
      cases hwrite with
      | lock => exact List.prefix_refl _
      | header | headerEnd => exact hstart ..
      | payload => exact List.prefix_append ..
  | unlock => exact List.prefix_refl _

end Protocomm.Go.Server
