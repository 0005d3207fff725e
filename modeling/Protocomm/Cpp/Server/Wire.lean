import Protocomm.Cpp.Server.Order
import Protocomm.FrameStream

/-!
# The connection of a session

The runs of a server in which the connection of one session takes what is written and
nothing is pushed to the session before its handshake is over. What the other side
receives is the handshake reply and then whole frames, each with the size of its payload,
and the responses among them are those to the requests read from the session.
-/

namespace Protocomm.Cpp.Server

open Misc

/-- The `WritePump` of session `k` does not fail and its pushes follow the handshake. -/
def calm (cfg : Config) (k : Nat) (s : Shared) : Thread → Action → Bool
  | .app, .send j _ _ => j != k || (s.session k).out.ready cfg.handshakeHeader
  | .broadcast _ _ todo, .pick i =>
      todo[i]? != some k || (s.session k).out.ready cfg.handshakeHeader
  | .writePump j _, .writeFailed => j != k
  | _, _ => true

/-- The server with calm steps only. -/
def calmProgram (cfg : Config) (k : Nat) : Program Shared Thread Action :=
  (program cfg).restrict (calm cfg k)

variable {cfg : Config} {p : Pool Shared Thread} {s s' : Shared} {t t' : Thread} {a : Action}
  {new rest : List Thread} {k : Nat} {session session' : Session} {header : Bytes}

theorem reachable_of_calm (h : (calmProgram cfg k).machine.Reachable initial p) :
    (machine cfg).Reachable initial p :=
  Program.reachable_of_restrict h

/-- The `WritePump` of the session moves on. -/
theorem calm_pump (hgood : calm cfg k s t a = true) (ht : t.pumps k = 1) : a ≠ .writeFailed := by
  rintro rfl
  cases t with
  | writePump j pc =>
      by_cases hj : j = k
      · simp [calm, hj] at hgood
      · simp [Thread.pumps, hj] at ht
  | _ => cases ht

/-! ## The frames of the session -/

/-- The frame a thread is about to give to a session has the size of its payload. -/
def Thread.Sized : Thread → Prop
  | .broadcast hdr payload _ => Protocomm.Sized (hdr, payload)
  | .wrapped _ (.respond hdr payload) => Protocomm.Sized (hdr, payload)
  | _ => True

theorem reachable_sized (hreach : (machine cfg).Reachable initial p) :
    ∀ t ∈ p.threads, t.Sized := by
  refine (Program.reachable_local (P := program cfg) (I := fun _ => True)
    (J := fun _ t => t.Sized) ⟨trivial, by simp [initial, Thread.Sized]⟩ ?_ hreach).2
  intro u _ s' t t' new rest a _ _ ht hs
  suffices h : t'.Sized ∧ ∀ v ∈ new, v.Sized from ⟨trivial, h.1, h.2, fun _ _ hv => hv⟩
  cases (step_move hs).2 with
  | pick => exact ⟨ht, List.forall_mem_nil _⟩
  | miss | returned => exact ⟨rfl, List.forall_mem_nil _⟩
  | broadcast => exact ⟨trivial, List.forall_mem_singleton.mpr rfl⟩
  | enqueueSpawn | insert => exact ⟨trivial, List.forall_mem_singleton.mpr trivial⟩
  | _ => exact ⟨trivial, List.forall_mem_nil _⟩

theorem posts_sized (ht : t.Sized) : ∀ f ∈ t.posts k a, Protocomm.Sized f := by
  have one : ∀ {f : FrameHeader × Bytes} {P : Prop} [Decidable P], Protocomm.Sized f →
      ∀ f' ∈ (if P then [f] else []), Protocomm.Sized f' := by
    intro f P _ hf f' hmem
    split at hmem
    · rw [List.mem_singleton.mp hmem]
      exact hf
    · cases hmem
  unfold Thread.posts
  split
  · exact one rfl
  · exact one ht
  · exact one ht
  · exact List.forall_mem_nil _

/-- A session that is not there yet. -/
theorem session_new (h : Move cfg s t a s' t' new) (hk : s.made[k]? = none) :
    (s'.session k).out = (s.session k).out ∧
      (s'.session k).writePumpActive = (s.session k).writePumpActive := by
  cases hk' : s'.made[k]? with
  | none => rw [Shared.session, hk', Shared.session, hk]; exact ⟨rfl, rfl⟩
  | some session =>
      rw [session_of_some hk', h.new_session hk hk', Shared.session, hk]
      exact ⟨rfl, rfl⟩

/-- Only after the handshake a frame is given to the session. -/
theorem posts_eq_nil (hgood : calm cfg k s t a = true)
    (ht : t.Handshake cfg.handshakeHeader s.made)
    (hnot : (s.session k).out.ready cfg.handshakeHeader = false) : t.posts k a = [] := by
  unfold Thread.posts
  split
  · rename_i j methodId payload
    split
    · simp_all [calm]
    · rfl
  · split
    · simp_all [calm]
    · rfl
  · split
    · rename_i hj
      subst hj
      obtain ⟨session, hsession, hready⟩ := ht
      rw [session_of_some hsession, hready] at hnot
      cases hnot
    · rfl
  · rfl

theorem Move.ready_mono (h : Move cfg s t a s' t' new)
    (hready : (s.session k).out.ready header = true) :
    (s'.session k).out.ready header = true := by
  cases hk : s.made[k]? with
  | none =>
      rw [(session_new h hk).1]
      exact hready
  | some session =>
      obtain ⟨session', hk', heffect⟩ := h.effect hk
      rw [session_of_some hk] at hready
      rw [session_of_some hk']
      exact heffect.ready_mono hready

theorem Taken.perm {taken : List (FrameHeader × Bytes)} {l l' : List Thread}
    (h : Taken k session l taken) (hl : l.Perm l') : Taken k session l' taken :=
  ⟨h.idle, fun pc hpc => h.pump pc (hl.mem_iff.mpr hpc)⟩

/-- A step of a pool lets the line of session `k` grow by the frame it gives to the
    session. -/
theorem calm_line_step {u u' : Pool Shared Thread} {i : Nat} {taken : List (FrameHeader × Bytes)}
    (hu : (calmProgram cfg k).machine.Reachable initial u)
    (hstep : (calmProgram cfg k).machine.step u (i, a) = some u')
    (hT : Taken k (u.shared.session k) u.threads taken) :
    ∃ t taken', u.threads[i]? = some t ∧ Taken k (u'.shared.session k) u'.threads taken' ∧
      (u'.shared.session k).line taken' = (u.shared.session k).line taken ++ t.posts k a := by
  obtain ⟨t, t', new, rest, ht, hs, hperm, hperm'⟩ := Program.machine_step_at hstep
  obtain ⟨hgood, hs⟩ := Program.restrict_step.mp hs
  obtain ⟨taken', hT', hline⟩ := (step_move hs).2.line (hT.perm hperm) fun hone =>
    ⟨calm_pump hgood hone, pumps_alone (reachable_of_calm hu) hperm hone⟩
  exact ⟨t, taken', ht, hT'.perm hperm'.symm, hline⟩

/-- What holds of each frame when it is given to session `k`, and from then on, holds of
    all frames given to the session. -/
theorem calm_line {Q : Shared → FrameHeader × Bytes → Prop}
    (hstep : ∀ u, (calmProgram cfg k).machine.Reachable initial u → ∀ s' t t' new a,
      t ∈ u.threads → calm cfg k u.shared t a = true → Move cfg u.shared t a s' t' new →
      (∀ f, Q u.shared f → Q s' f) ∧ ∀ f ∈ t.posts k a, Q s' f)
    (h : (calmProgram cfg k).machine.Reachable initial p) :
    ∃ taken, Taken k (p.shared.session k) p.threads taken ∧
      ∀ f ∈ (p.shared.session k).line taken, Q p.shared f := by
  refine Machine.reachable_invariant (P := fun p : Pool Shared Thread =>
    ∃ taken, Taken k (p.shared.session k) p.threads taken ∧
      ∀ f ∈ (p.shared.session k).line taken, Q p.shared f) ?_ ?_ h
  · exact ⟨[], ⟨fun _ => rfl, by simp [initial]⟩, by simp [initial, Shared.session, Session.line]⟩
  · rintro u ⟨i, a⟩ u' hu ⟨taken, hT, hQ⟩ hstep'
    obtain ⟨t, taken', ht, hT', hline⟩ := calm_line_step hu hstep' hT
    obtain ⟨t₀, t', new, ht₀, hs, -⟩ := Program.machine_step_eq hstep'
    cases ht.symm.trans ht₀
    obtain ⟨hgood, hs⟩ := Program.restrict_step.mp hs
    obtain ⟨hkeep, hposts⟩ := hstep u hu u'.shared t t' new a (List.mem_of_getElem? ht) hgood
      (step_move hs).2
    refine ⟨taken', hT', ?_⟩
    rw [hline]
    exact List.forall_mem_append.mpr ⟨fun f hf => hkeep f (hQ f hf), hposts⟩

/-- The frames given to session `k` have the size of their payloads, and there is none
    before the handshake is over. -/
theorem calm_lined (h : (calmProgram cfg k).machine.Reachable initial p) :
    ∃ taken, Taken k (p.shared.session k) p.threads taken ∧
      ∀ f ∈ (p.shared.session k).line taken,
        Protocomm.Sized f ∧ (p.shared.session k).out.ready cfg.handshakeHeader = true := by
  refine calm_line (Q := fun s f => Protocomm.Sized f ∧
    (s.session k).out.ready cfg.handshakeHeader = true) ?_ h
  intro u hu s' t t' new a ht hgood hmove
  have hplain := reachable_of_calm hu
  refine ⟨fun f hf => ⟨hf.1, hmove.ready_mono hf.2⟩, fun f hf => ?_⟩
  refine ⟨posts_sized (reachable_sized hplain t ht) f hf, hmove.ready_mono ?_⟩
  by_contra hready
  rw [posts_eq_nil hgood (reachable_handshake hplain t ht) (Bool.eq_false_iff.mpr hready)] at hf
  cases hf

theorem calm_sized (h : (calmProgram cfg k).machine.Reachable initial p) :
    ∀ f ∈ (p.shared.session k).out.frames, Protocomm.Sized f := by
  obtain ⟨taken, -, hline⟩ := calm_lined h
  exact fun f hf => (hline f (List.mem_append_left _ hf)).1

/-- The frames on the socket stay. -/
theorem Move.frames (h : Move cfg s t a s' t' new) (k : Nat) :
    (s.session k).out.frames <+: (s'.session k).out.frames := by
  cases hk : s.made[k]? with
  | none =>
      rw [Shared.session, hk]
      exact List.nil_prefix
  | some session =>
      obtain ⟨session', hk', heffect⟩ := h.effect hk
      rw [session_of_some hk, session_of_some hk']
      cases heffect with
      | keep hsame => rw [hsame.out]
      | spawn _ _ hout => rw [hout]
      | accept _ hout =>
          rw [hout]
          exact List.prefix_refl _
      | greet | reply | replyFailed => exact List.prefix_refl _
      | pump hpump =>
          cases hpump with
          | wrote hdr payload sent n hwrite | written hdr payload sent n hwrite =>
              rw [frames_sendFrame session hwrite]
              exact List.prefix_append _ _
          | finish | next | failed | clear => exact List.prefix_refl _

/-! ## The bytes of the session -/

/-- The `WritePump` of the session writes after the handshake. -/
theorem calm_ready (h : (calmProgram cfg k).machine.Reachable initial p)
    (hQ : OutputAt cfg.handshakeHeader k p.shared p.threads) {pc : Pumping} {n : Nat}
    (ht : .writePump k pc ∈ p.threads)
    (hmove : Move cfg p.shared (.writePump k pc) (.wrote n) s' t' new)
    (hk : p.shared.made[k]? = some session) :
    session.out.ready cfg.handshakeHeader = true := by
  obtain ⟨hdr, payload, sent, rfl⟩ : ∃ hdr payload sent, pc = .writing hdr payload sent := by
    cases hmove with
    | pumpWrote hdr payload sent | pumpWritten hdr payload sent =>
        exact ⟨hdr, payload, sent, rfl⟩
  obtain ⟨session', hk', hmid⟩ := hQ.pump _ ht
  cases hk.symm.trans hk'
  cases sent with
  | succ sent => exact hmid.ready rfl
  | zero =>
      -- the frame to be written is in the line
      obtain ⟨taken, hT, hline⟩ := calm_lined h
      obtain ⟨-, rfl⟩ := hT.pump _ ht
      have hready := (hline (hdr, payload) (by simp [Session.line, Pumping.taken])).2
      rwa [session_of_some hk] at hready

theorem calm_output (h : (calmProgram cfg k).machine.Reachable initial p) :
    OutputAt cfg.handshakeHeader k p.shared p.threads := by
  refine Program.reachable_bag (P := calmProgram cfg k)
    (K := OutputAt cfg.handshakeHeader k) (fun s l l' hl hQ => hQ.perm hl) ?_ ?_ h
  · exact ⟨by simp [initial], by simp [initial], by simp [initial]⟩
  · rintro u hu s' t t' new rest a hperm hQ hs
    obtain ⟨-, hs⟩ := Program.restrict_step.mp hs
    have hmove : Move cfg u.shared t a s' t' new := (step_move hs).2
    have hQ' : OutputAt cfg.handshakeHeader k u.shared u.threads := hQ.perm hperm.symm
    refine outputAt_keep (reachable_of_calm hu) hQ' hperm hmove ?_
    rintro session hk pc n rfl rfl
    exact calm_ready hu hQ' (hperm.mem_iff.mpr List.mem_cons_self) hmove hk

/-- The other side receives the handshake reply and then frames. -/
theorem calm_received (h : (calmProgram cfg k).machine.Reachable initial p) :
    (p.shared.session k).out.received <+:
      cfg.handshakeHeader ++ (p.shared.session k).out.frames.flatMap encodeFrame := by
  cases hk : p.shared.made[k]? with
  | none =>
      rw [Shared.session, hk]
      exact List.nil_prefix
  | some session =>
      rw [session_of_some hk]
      exact ((calm_output h).session session hk).out.received_initial

/-- When the handshake is over and nothing is being written, the other side can receive the
    whole reply and all frames. -/
theorem calm_received_idle (h : (calmProgram cfg k).machine.Reachable initial p)
    (hready : Ready cfg.handshakeHeader p.shared.made k)
    (hopen : (p.shared.session k).out.failed = false)
    (hidle : (p.shared.session k).writePumpActive = false) :
    (p.shared.session k).out.received =
      cfg.handshakeHeader ++ (p.shared.session k).out.frames.flatMap encodeFrame := by
  obtain ⟨session, hk, hready⟩ := hready
  rw [session_of_some hk] at hopen hidle ⊢
  exact (((calm_output h).session session hk).between hready hopen hidle).received_eq

/-! ## The order of the session -/

theorem calm_serves (cfg : Config) (k : Nat) :
    Serves cfg (calm cfg k) k isResponse (fun f => f.1.callID) (fun f => f.1.callID) False where
  keeps f htype := by simp [isResponse, htype]
  others p h t ht a _ hwraps := filter_posts (reachable_pushes (reachable_of_calm h) t ht) hwraps
  writes s pc := by simp [calm]
  calm := False.elim
  miss _ _ _ _ _ _ := rfl
  returned _ _ _ _ _ _ _ _ _ _ := rfl

/-- The responses written on session `k` are those to the first requests read from it, in
    their order. -/
theorem calm_answers (h : (calmProgram cfg k).machine.Reachable initial p) :
    ((p.shared.session k).out.frames.filter isResponse).map (fun f => f.1.callID) <+:
      (p.shared.requestsOf k).map fun f => f.1.callID := by
  obtain ⟨taken, handled, busy, hA⟩ := (calm_serves cfg k).answers h
  have hline : (p.shared.session k).out.frames <+: (p.shared.session k).line taken :=
    List.prefix_append _ _
  have hanswered := (hline.filter isResponse).map fun f => f.1.callID
  rw [hA.line] at hanswered
  rw [hA.requests, List.map_append]
  exact hanswered.trans (List.prefix_append _ _)

/-- A request of session `k` was handed to its handler, or had none, or is about to be
    looked up. -/
def Handled (k : Nat) (s : Shared) (threads : List Thread) (f : FrameHeader × Bytes) : Prop :=
  callOf f ∈ s.callsOf k ∨ ⟨k, f.1.callID, f.1.methodID⟩ ∈ s.misses ∨
    Thread.wrapped k (.lookup f.1 f.2) ∈ threads

theorem Move.handled {f : FrameHeader × Bytes} (h : Move cfg s t a s' t' new)
    (hf : Handled k s (t :: rest) f) : Handled k s' (t' :: (new ++ rest)) f := by
  rcases hf with hcalled | hmissed | hmem
  · rcases h.callsOf k with hsame | ⟨_, _, _, -, -, hadd⟩
    · exact Or.inl (hsame ▸ hcalled)
    · exact Or.inl (hadd ▸ List.mem_append_left _ hcalled)
  · refine Or.inr (Or.inl ?_)
    cases h with
    | miss => exact List.mem_append_left _ hmissed
    | _ => exact hmissed
  · rcases List.mem_cons.mp hmem with rfl | hmem
    · cases h with
      | miss => exact Or.inr (Or.inl (List.mem_append_right _ List.mem_cons_self))
      | call => exact Or.inl (by simp [Shared.callsOf, callOf])
    · exact Or.inr (Or.inr (List.mem_cons_of_mem _ (List.mem_append_right _ hmem)))

theorem reachable_handled (h : (machine cfg).Reachable initial p) :
    ∀ f ∈ p.shared.requestsOf k, Handled k p.shared p.threads f := by
  refine Program.reachable_bag (P := program cfg)
    (K := fun s l => ∀ f ∈ s.requestsOf k, Handled k s l f) ?_ ?_ ?_ h
  · exact fun s l l' hl hH f hf => (hH f hf).imp_right (Or.imp_right hl.mem_iff.mp)
  · simp [initial, Shared.requestsOf, Shared.session]
  · intro u _ s' t t' new rest a _ hH hs f hf
    have hmove : Move cfg u.shared t a s' t' new := (step_move hs).2
    rcases hmove.reads k with hreads | ⟨hdr, payload, rfl, rfl, hadd, rfl, rfl⟩
    · rw [Shared.requestsOf, hreads] at hf
      exact hmove.handled (hH f hf)
    · rw [Shared.requestsOf, hadd, List.filter_append] at hf
      rcases List.mem_append.mp hf with hf | hf
      · exact hmove.handled (hH f hf)
      · obtain ⟨hmem, htype⟩ := List.mem_filter.mp hf
        cases List.mem_singleton.mp hmem
        have hrequest : hdr.type = FrameRequest := by simpa [isRequest] using htype
        exact Or.inr (Or.inr (by simp [hrequest]))

/-- The handlers run for the first requests read from session `k`, in their order. -/
theorem calm_calls (h : (calmProgram cfg k).machine.Reachable initial p) :
    ∃ called wait, p.shared.requestsOf k = called ++ wait ∧
      (p.shared.callsOf k).Sublist (called.map callOf) ∧
      ∀ f ∈ p.shared.requestsOf k, callOf f ∈ p.shared.callsOf k ∨
        ⟨k, f.1.callID, f.1.methodID⟩ ∈ p.shared.misses ∨ wait = [f] := by
  obtain ⟨called, wait, hC⟩ : ∃ called wait,
      Calls k (fun l c => c.Sublist (l.map callOf)) p.shared p.threads called wait := by
    refine reachable_calls List.Sublist.slnil ?_ ?_ h
    · rintro _ _ hdr payload _ _ l c hsub
      rw [List.map_append]
      exact hsub.trans (List.sublist_append_left _ _)
    · rintro _ _ hdr payload _ _ _ l c hsub
      rw [List.map_append]
      exact hsub.append (List.Sublist.refl _)
  refine ⟨called, wait, hC.requests, hC.calls, fun f hf => ?_⟩
  exact (reachable_handled (reachable_of_calm h) f hf).imp_right
    (Or.imp_right (hC.atLookup f.1 f.2))

end Protocomm.Cpp.Server
