import Protocomm.Cpp.Net.Rest
import Protocomm.Cpp.Server.Registry

/-!
# Broadcasts

`Broadcast` takes a snapshot of `sessions` and then gives its push to one session after the
other, while sessions come and go and other pushes are given. What the application asks to
be pushed to a session, while that is in `sessions`, is given to it exactly once; the
channel at its other end gets it exactly once when both have come to rest.
-/

namespace Protocomm.Cpp.Server

open Misc

/-- What the application asks to be pushed to session `k`: a `Send` to the session, or a
    `Broadcast` while the session is in `sessions`. -/
def Thread.asks (k : Nat) (s : Shared) : Thread → Action → List (UInt32 × Bytes)
  | .app, .send j methodId payload => if j = k then [(methodId, payload)] else []
  | .app, .broadcast methodId payload =>
      if k ∈ mapValues s.sessions then [(methodId, payload)] else []
  | _, _ => []

/-- The pushes that a `Broadcast` has yet to give to session `k`. -/
def Thread.holds (k : Nat) : Thread → List (UInt32 × Bytes)
  | .broadcast hdr payload todo => List.replicate (todo.count k) (hdr.methodID, payload)
  | _ => []

variable {cfg : Config} {p : Pool Shared Thread} {s s' : Shared} {t t' : Thread} {a : Action}
  {new : List Thread} {k : Nat}

/-- The sessions in `sessions` are there under their ids. -/
theorem reachable_ids (h : (machine cfg).Reachable initial p) :
    ∀ id k, p.shared.sessions.lookup id = some k →
      ∃ session, p.shared.made[k]? = some session ∧ session.connectionId = id := by
  refine Program.reachable_shared (P := program cfg) (I := fun s => ∀ id k,
    s.sessions.lookup id = some k →
      ∃ session, s.made[k]? = some session ∧ session.connectionId = id) (by simp [initial]) ?_ h
  intro u _ s' t t' new a _ hI hs id k hid
  have hmove : Move cfg u.shared t a s' t' new := (step_move hs).2
  have hold : ∀ {id : UInt64} {k : Nat},
      (∃ session, u.shared.made[k]? = some session ∧ session.connectionId = id) →
      ∃ session, s'.made[k]? = some session ∧ session.connectionId = id := by
    rintro id k ⟨session, hk, hsame⟩
    obtain ⟨session', hk', hsame'⟩ := hmove.connectionId hk
    exact ⟨session', hk', hsame'.trans hsame⟩
  have hregistry := hmove.registry
  generalize hsessions : s'.sessions = sessions at hid hregistry
  cases hregistry with
  | keep | throw => exact hold (hI id k hid)
  | @insert j session v t'' hsession =>
      by_cases hkey : id = session.connectionId
      · subst hkey
        rw [AList.lookup_insert, Option.some.injEq] at hid
        subst hid
        exact hold ⟨session, hsession, rfl⟩
      · rw [AList.lookup_insert_ne hkey] at hid
        exact hold (hI id k hid)
  | @erase j erased =>
      by_cases hkey : id = erased
      · subst hkey
        rw [AList.lookup_erase] at hid
        cases hid
      · rw [AList.lookup_erase_ne hkey] at hid
        exact hold (hI id k hid)

/-- No session is twice in `sessions`. -/
theorem sessions_nodup (h : (machine cfg).Reachable initial p) :
    (mapValues p.shared.sessions).Nodup := by
  refine p.shared.sessions.nodupKeys.of_map.map_on ?_
  rintro ⟨id, k⟩ hx ⟨id', k'⟩ hy rfl
  obtain ⟨session, hk, hid⟩ := reachable_ids h id k (AList.mem_lookup_iff.mpr hx)
  obtain ⟨session', hk', hid'⟩ := reachable_ids h id' k (AList.mem_lookup_iff.mpr hy)
  cases hk.symm.trans hk'
  rw [← hid, ← hid']

/-- What is asked for in a step is given in it or held. -/
theorem Move.accounts (h : Move cfg s t a s' t' new) (hnodup : (mapValues s.sessions).Nodup) :
    (t.holds k ++ t.asks k s a).Perm
      (t.gives k a ++ (t'.holds k ++ new.flatMap (Thread.holds k))) := by
  cases h with
  | send methodId payload =>
      simp [Thread.holds, Thread.asks, Thread.gives]
  | broadcast methodId payload =>
      simp only [Thread.holds, Thread.asks, Thread.gives, List.nil_append, List.flatMap_cons,
        List.flatMap_nil, List.append_nil]
      by_cases hk : k ∈ mapValues s.sessions
      · rw [if_pos hk, List.count_eq_one_of_mem hnodup hk]
        rfl
      · rw [if_neg hk, List.count_eq_zero_of_not_mem hk]
        rfl
  | broadcastDone => exact .refl _
  | @pick j _ hdr payload todo i hpick =>
      have hcount : todo.count k = (todo.eraseIdx i).count k + if j = k then 1 else 0 := by
        obtain ⟨hi, rfl⟩ := List.getElem?_eq_some_iff.mp hpick
        rw [← (List.getElem_cons_eraseIdx_perm hi).count_eq, List.count_cons]
        simp
      simp only [Thread.holds, Thread.asks, Thread.gives, hpick, Option.some.injEq, hcount,
        List.append_nil, List.flatMap_nil]
      split
      · rw [List.replicate_succ]
        rfl
      · rfl
  | _ => exact .refl _

end Protocomm.Cpp.Server

namespace Protocomm.Cpp.Net

open Misc

variable {cfg : Config} {n : State} {acts : List Action}

/-- What a step asks to be pushed to the session of the channel. -/
def State.asks (cfg : Config) (n : State) : Action → List (UInt32 × Bytes)
  | .client _ _ => []
  | .server i a =>
      match n.server.threads[i]? with
      | some t => t.asks cfg.session n.server.shared a
      | none => []

/-- What the application asks to be pushed to the session of the channel in a run. -/
def asked (cfg : Config) (acts : List Action) : List (UInt32 × Bytes) :=
  (machine cfg).log (fun n act _ => n.asks cfg act) initial acts

/-- The pushes that `Broadcast`s have yet to give to the session of the channel. -/
def State.held (cfg : Config) (n : State) : List (UInt32 × Bytes) :=
  n.server.threads.flatMap (Server.Thread.holds cfg.session)

/-- What was asked for was given or is held. -/
theorem asked_perm (h : (machine cfg).run initial acts = some n) :
    (asked cfg acts).Perm (given cfg acts ++ n.held cfg) := by
  refine Machine.run_history (P := fun acts n =>
    (asked cfg acts).Perm (given cfg acts ++ n.held cfg)) ?_ ?_ h
  · exact .refl _
  · intro acts u act u' hrun hold hstep
    have hasked : asked cfg (acts ++ [act]) = asked cfg acts ++ u.asks cfg act :=
      Machine.log_concat hrun hstep
    have hgiven : given cfg (acts ++ [act]) = given cfg acts ++ u.gives cfg act :=
      Machine.log_concat hrun hstep
    rw [hasked, hgiven]
    cases step_move hstep with
    | client =>
        simp only [State.asks, State.gives, List.append_nil]
        exact hold
    | @server i a t server ht hreads hserver =>
        obtain ⟨t₀, t', new, rest, ht₀, hs, hbefore, hafter⟩ := Program.machine_step_at hserver
        cases ht.symm.trans ht₀
        have hplain := Server.reachable_of_calm (reachable_joined ⟨acts, hrun⟩).server
        have hmove := (Server.step_move (Program.restrict_step.mp hs).2).2
        have haccounts := hmove.accounts (k := cfg.session) (Server.sessions_nodup hplain)
        have hheld := hbefore.flatMap_right (Server.Thread.holds cfg.session)
        have hheld' := hafter.flatMap_right (Server.Thread.holds cfg.session)
        simp only [State.asks, State.gives, ht]
        refine List.perm_iff_count.mpr fun v => ?_
        have h₁ := hold.count_eq v
        have h₂ := haccounts.count_eq v
        have h₃ := hheld.count_eq v
        have h₄ := hheld'.count_eq v
        simp only [State.held, List.flatMap_cons, List.flatMap_append, List.count_append]
          at h₁ h₂ h₃ h₄ ⊢
        omega

/-- Whatever the application asks to be pushed to the session of a channel is given to the
    session exactly once or held by a `Broadcast` that goes on. Once the channel is
    connected, both sides are at rest, no `Broadcast` goes on and nothing waits in
    `cb_queue`, `on_push` was called with all of it, each push exactly once. -/
theorem broadcasts_delivered (h : (machine cfg).run initial acts = some n) :
    (asked cfg acts).Perm (given cfg acts ++ n.held cfg) ∧
    (cfg.channel.handshakeHeader = cfg.server.handshakeHeader → cfg.channel.onPush = true →
      Server.Up cfg.session n.server → (smooth cfg).AtRest n → Bounded cfg n →
      n.client.shared.1.connected = true → n.held cfg = [] →
      cfg.channel.dispatch = .inline ∨ n.client.shared.1.out.cbQueue = [] →
      n.client.shared.1.out.pushes.Perm (asked cfg acts)) := by
  refine ⟨asked_perm h, fun hagreed hset hup hrest hbounded hconnected hheld hdrained => ?_⟩
  have hjoined := reachable_joined ⟨acts, h⟩
  have hasked := asked_perm h
  rw [hheld, List.append_nil] at hasked
  rw [← hjoined.pushes_eq hdrained, Channel.calm_pushed hjoined.client, if_pos hset]
  exact (List.Perm.of_eq (rest_pushes hagreed h hup hrest hbounded hconnected)).trans hasked.symm

theorem broadcasts_delivered_pushRest :
    ∃ n, (machine ⟨{ onPush := true }, {}, 0⟩).run initial pushRest = some n ∧
      (smooth ⟨{ onPush := true }, {}, 0⟩).AtRest n ∧
      asked ⟨{ onPush := true }, {}, 0⟩ pushRest = [(9, [1]), (8, [2])] ∧
      n.client.shared.1.out.pushes.Perm [(9, [1]), (8, [2])] := by
  obtain ⟨n, hrun, hup, hrest, hbounded, hconnected, -, hthreads⟩ := pushRest_end
  have hasked : asked ⟨{ onPush := true }, {}, 0⟩ pushRest = [(9, [1]), (8, [2])] := by
    decide +kernel
  have hall := (broadcasts_delivered hrun).2 rfl rfl hup hrest hbounded hconnected
    (by rw [State.held, hthreads]; rfl) (Or.inl rfl)
  exact ⟨n, hrun, hrest, hasked, hasked ▸ hall⟩

end Protocomm.Cpp.Net
