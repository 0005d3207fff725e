import Protocomm.Cpp.Server.Sessions
import Protocomm.Misc.Gate

/-!
# The handshake gate of the C++ server

The gate of `Session::Run`, as in the Go server: with an empty header the handshake is
left out, and `on_handshake` with it.
-/

namespace Protocomm.Cpp.Server

open Misc

/-- The gate of a session. -/
def Session.gate (session : Session) : Gate UInt8 :=
  ⟨session.out.accepted, session.received, session.admitted⟩

/-- The stages of `Run`. -/
def Running.stage : Running → Gate.Stage
  | .onConnect => .fresh
  | .readHandshake => .reading
  | .onHandshake => .asking
  | .writeHandshake _ | .read | .lookup _ _ | .running _ _ | .respond _ _ => .passed
  | _ => .gone

/-- The stage of a thread at the gate of session `k`. -/
def Thread.stage (k : Nat) : Thread → Gate.Stage
  | .acceptLoop (.insert j) => if j = k then .fresh else .gone
  | .wrapped j pc => if j = k then pc.stage else .gone
  | _ => .gone

/-- What a thread knows about the gates. -/
def Thread.AtGate (header : Bytes) (made : List Session) (t : Thread) : Prop :=
  ∀ (k : Nat) (session : Session), made[k]? = some session →
    session.gate.Holds header (t.stage k)

variable {cfg : Config} {s s' : Shared} {t t' : Thread} {a : Action} {new rest : List Thread}
  {k : Nat} {session session' : Session} {p : Pool Shared Thread}

/-- What a step does to the gate of session `k`. -/
inductive GateMove (cfg : Config) (k : Nat) (session : Session) (t : Thread) (session' : Session)
    (t' : Thread) (new : List Thread) : Prop
  | keep (hsame : session'.gate = session.gate)
      (ht' : t'.stage k = .gone ∨ t'.stage k = t.stage k)
      (hnew : ∀ v ∈ new, v.stage k = .gone ∨ v.stage k = t.stage k)
  | step (ht : t.wraps k = 1) (hnew : new = [])
      (hstep : Gate.Step cfg.handshakeHeader cfg.onHandshake session.gate (t.stage k)
        session'.gate (t'.stage k))

theorem gate_sendFrame (session : Session) (hdr : FrameHeader) (payload : Bytes) (sent n : Nat) :
    (session.sendFrame hdr payload sent n).gate = session.gate := by
  unfold Session.sendFrame Session.gate
  split <;> simp [Outlet.more]

/-- An update of a session that leaves its gate alone. -/
theorem gateMove_setSession {j : Nat} {old next : Session} (hold : s.made[j]? = some old)
    (hk : s.made[k]? = some session) (hsame : next.gate = old.gate)
    (ht' : t'.stage k = .gone ∨ t'.stage k = t.stage k)
    (hnew : ∀ v ∈ new, v.stage k = .gone ∨ v.stage k = t.stage k) :
    ∃ session', (s.setSession j next).made[k]? = some session' ∧
      GateMove cfg k session t session' t' new := by
  refine exists_getElem?_set hold hk (fun _ heq => ?_) fun _ => .keep rfl ht' hnew
  exact .keep (heq ▸ hsame) ht' hnew

/-- A step of `Run` at the gate of its session. -/
theorem gateMove_step {j : Nat} {old next : Session} {pc pc' : Running}
    (hold : s.made[j]? = some old) (hk : s.made[k]? = some session)
    (hstep : Gate.Step cfg.handshakeHeader cfg.onHandshake old.gate pc.stage next.gate pc'.stage) :
    ∃ session', (s.setSession j next).made[k]? = some session' ∧
      GateMove cfg k session (.wrapped j pc) session' (.wrapped j pc') [] := by
  refine exists_getElem?_set hold hk (fun hj heq => ?_) fun hj => ?_
  · subst hj heq
    refine .step (if_pos rfl) rfl ?_
    simpa [Thread.stage] using hstep
  · exact .keep rfl (Or.inl (if_neg hj)) (List.forall_mem_nil _)

theorem Move.gate (h : Move cfg s t a s' t' new) (hk : s.made[k]? = some session) :
    ∃ session', s'.made[k]? = some session' ∧ GateMove cfg k session t session' t' new := by
  have hnil : ∀ v ∈ ([] : List Thread), v.stage k = .gone ∨ v.stage k = t.stage k :=
    List.forall_mem_nil _
  have hgone : ∀ {j : Nat} {pc : Running}, pc.stage = .gone →
      (Thread.wrapped j pc).stage k = .gone := by
    intro j pc hpc
    simp [Thread.stage, hpc]
  cases h with
  | accept =>
      have hlt := (List.getElem?_eq_some_iff.mp hk).1
      refine ⟨session, List.getElem?_append_left hlt ▸ hk, .keep rfl (Or.inl ?_) hnil⟩
      exact if_neg (Nat.ne_of_gt hlt)
  | insert hsession =>
      exact gateMove_setSession hsession hk rfl (Or.inl rfl)
        (List.forall_mem_singleton.mpr (Or.inr rfl))
  | broadcast =>
      exact ⟨session, hk, .keep rfl (Or.inl rfl) (List.forall_mem_singleton.mpr (Or.inl rfl))⟩
  | send _ _ hsession | close hsession | pick _ _ _ _ _ hsession | enqueue _ _ _ hsession
  | closeSocket _ hsession | read _ _ hsession | respond _ _ hsession | greet _ _ hsession
  | reply _ _ hsession | pumpEnd hsession | pumpNext _ _ _ hsession | pumpFailed _ _ _ hsession
  | pumpClear hsession =>
      exact gateMove_setSession hsession hk rfl (Or.inr rfl) hnil
  | enqueueSpawn _ _ _ hsession =>
      exact gateMove_setSession hsession hk rfl (Or.inr rfl)
        (List.forall_mem_singleton.mpr (Or.inl rfl))
  | readOther _ _ hsession | replyFailed _ hsession =>
      exact gateMove_setSession hsession hk rfl (Or.inl (hgone rfl)) hnil
  | pumpWrote _ _ _ _ hsession | pumpWritten _ _ _ _ hsession =>
      exact gateMove_setSession hsession hk (gate_sendFrame ..) (Or.inr rfl) hnil
  | connectNoHeader hsession hheader => exact gateMove_step hsession hk (.skip hheader)
  | connect j =>
      by_cases hj : j = k
      · subst hj
        exact ⟨session, hk, .step (if_pos rfl) rfl (by simpa [Thread.stage] using .start)⟩
      · exact ⟨session, hk, .keep rfl (Or.inl (if_neg hj)) hnil⟩
  | handshakeMismatch received hsession => exact gateMove_step hsession hk (.mismatch received)
  | handshakeAsk hsession => exact gateMove_step hsession hk .ask
  | handshakeOK hsession hunset => exact gateMove_step hsession hk (.pass hunset)
  | answerYes hsession => exact gateMove_step hsession hk .approve
  | handshakeFailed | answerNo | answerThrow | readFailed | readThrow | callThrow | traceThrow
  | onDisconnect => exact ⟨session, hk, .keep rfl (Or.inl (hgone rfl)) hnil⟩
  | connectThrow | erase | unwind | acceptFailed | broadcastDone =>
      exact ⟨session, hk, .keep rfl (Or.inl rfl) hnil⟩
  | _ => exact ⟨session, hk, .keep rfl (Or.inr rfl) hnil⟩

/-- Only `wrapped` has a stage. -/
theorem wraps_of_stage {v : Thread} (h : v.stage k ≠ .gone) : v.wraps k = 1 := by
  revert h
  unfold Thread.stage Thread.wraps
  cases v with
  | acceptLoop pc =>
      cases pc with
      | accept => simp
      | insert j => by_cases hj : j = k <;> simp [hj]
  | wrapped j pc => by_cases hj : j = k <;> simp [hj]
  | _ => simp

/-- The handshake of session `k` was accepted. -/
def Accepted (made : List Session) (k : Nat) : Prop :=
  ∃ session, made[k]? = some session ∧ session.gate.accepted = true

theorem Accepted.mono (hk : Accepted s.made k) (h : Move cfg s t a s' t' new) :
    Accepted s'.made k := by
  obtain ⟨session, hsession, haccepted⟩ := hk
  obtain ⟨session', hsession', hgate⟩ := h.gate hsession
  refine ⟨session', hsession', ?_⟩
  cases hgate with
  | keep hsame => rw [hsame, haccepted]
  | step _ _ hstep => exact hstep.accepted_mono haccepted

/-- The gate of a new session is shut. -/
theorem Move.new_gate (h : Move cfg s t a s' t' new) (hk : s.made[k]? = none)
    (hk' : s'.made[k]? = some session) : session.gate = ⟨false, [], false⟩ := by
  rw [h.new_session hk hk']
  rfl

theorem GateMove.holds (h : GateMove cfg k session t session' t' new)
    (ht : session.gate.Holds cfg.handshakeHeader (t.stage k)) :
    session'.gate.Holds cfg.handshakeHeader (t'.stage k) ∧
      ∀ v ∈ new, session'.gate.Holds cfg.handshakeHeader (v.stage k) := by
  cases h with
  | keep hsame ht' hnew =>
      have hback : ∀ st : Gate.Stage, st = .gone ∨ st = t.stage k →
          session'.gate.Holds cfg.handshakeHeader st := by
        rintro st (rfl | rfl)
        · trivial
        · rw [hsame]
          exact ht
      exact ⟨hback _ ht', fun v hv => hback _ (hnew v hv)⟩
  | step _ hnew hstep =>
      subst hnew
      exact ⟨hstep.holds ht, List.forall_mem_nil _⟩

/-- A handler runs only on a connection whose handshake was accepted. -/
theorem Move.runs (h : Move cfg s t a s' t' new) (ht : t.AtGate cfg.handshakeHeader s.made)
    (hmade : ∀ k, t.wraps k = 1 → ∃ session, s.made[k]? = some session)
    (hruns : ∀ r ∈ s.runs, Accepted s.made r.session) :
    ∀ r ∈ s'.runs, Accepted s'.made r.session := by
  have hold : ∀ r ∈ s.runs, Accepted s'.made r.session := fun r hr => (hruns r hr).mono h
  cases h with
  | call k hdr payload handler =>
      intro r hr
      rcases List.mem_append.mp hr with hr | hr
      · exact hold r hr
      · rw [List.mem_singleton.mp hr]
        obtain ⟨session, hk⟩ := hmade k (if_pos rfl)
        have hpassed := ht k session hk
        rw [Thread.stage, if_pos rfl] at hpassed
        exact ⟨session, hk, hpassed⟩
  | returned k hdr run response st =>
      intro r hr
      obtain ⟨i, hi⟩ := List.mem_iff_getElem?.mp hr
      rw [Shared.setResult, List.getElem?_modify] at hi
      obtain ⟨r', hr', rfl⟩ := Option.map_eq_some_iff.mp hi
      have hmem := hold r' (List.mem_of_getElem? hr')
      split <;> exact hmem
  | _ => exact hold

/-- Every accepted handshake has passed the gate. -/
def Shared.Gated (cfg : Config) (s : Shared) : Prop :=
  ∀ (k : Nat) (session : Session), s.made[k]? = some session → session.gate.accepted = true →
    session.gate.Passed cfg.handshakeHeader cfg.onHandshake

theorem Move.gated (h : Move cfg s t a s' t' new)
    (hcfg : cfg.handshakeHeader ≠ [] ∨ cfg.onHandshake = false)
    (ht : t.AtGate cfg.handshakeHeader s.made) (hgated : s.Gated cfg) : s'.Gated cfg := by
  intro k session' hk' haccepted
  cases hk : s.made[k]? with
  | none => simp [h.new_gate hk hk'] at haccepted
  | some session =>
      obtain ⟨next, hnext, hgate⟩ := h.gate hk
      obtain rfl := Option.some.inj (hnext.symm.trans hk')
      cases hgate with
      | keep hsame =>
          rw [hsame] at haccepted ⊢
          exact hgated k session hk haccepted
      | step _ _ hstep => exact hstep.passed hcfg (ht k session hk) (hgated k session hk) haccepted

theorem Move.atGate (h : Move cfg s t a s' t' new) (ht : t.AtGate cfg.handshakeHeader s.made) :
    t'.AtGate cfg.handshakeHeader s'.made ∧
      ∀ v ∈ new, v.AtGate cfg.handshakeHeader s'.made := by
  have hboth : ∀ (k : Nat) (session' : Session), s'.made[k]? = some session' →
      session'.gate.Holds cfg.handshakeHeader (t'.stage k) ∧
        ∀ v ∈ new, session'.gate.Holds cfg.handshakeHeader (v.stage k) := by
    intro k session' hk'
    cases hk : s.made[k]? with
    | some session =>
        obtain ⟨next, hnext, hgate⟩ := h.gate hk
        obtain rfl := Option.some.inj (hnext.symm.trans hk')
        exact hgate.holds (ht k session hk)
    | none =>
        have hlt := (List.getElem?_eq_some_iff.mp hk').1
        have hge := List.getElem?_eq_none_iff.mp hk
        rcases h.length_made with hlen | ⟨-, rfl, rfl, hmade⟩
        · omega
        · refine ⟨?_, List.forall_mem_nil _⟩
          have hlast : s.made.length = k := by
            rw [hmade, List.length_append, List.length_singleton] at hlt
            omega
          rw [Thread.stage, if_pos hlast, h.new_gate hk hk']
          exact ⟨rfl, rfl⟩
  exact ⟨fun k session' hk' => (hboth k session' hk').1,
    fun v hv k session' hk' => (hboth k session' hk').2 v hv⟩

theorem Thread.AtGate.frame {v : Thread} (hv : v.AtGate cfg.handshakeHeader s.made)
    (h : Move cfg s t a s' t' new)
    (hmade : ∀ k, v.wraps k = 1 → ∃ session, s.made[k]? = some session)
    (hunique : ∀ k, v.wraps k = 1 → t.wraps k = 0) : v.AtGate cfg.handshakeHeader s'.made := by
  intro k session' hk'
  by_cases hgone : v.stage k = .gone
  · rw [hgone]
    trivial
  · obtain ⟨session, hk⟩ := hmade k (wraps_of_stage hgone)
    obtain ⟨next, hnext, hgate⟩ := h.gate hk
    obtain rfl := Option.some.inj (hnext.symm.trans hk')
    cases hgate with
    | keep hsame =>
        rw [hsame]
        exact hv k session hk
    | step ht =>
        have hzero := hunique k (wraps_of_stage hgone)
        omega

/-- Unless the header is empty and `on_handshake` is set, only those who pass a gate open it,
    and handlers run behind it. -/
theorem reachable_atGate (hcfg : cfg.handshakeHeader ≠ [] ∨ cfg.onHandshake = false)
    (hreach : (machine cfg).Reachable initial p) :
    (p.shared.Gated cfg ∧ ∀ r ∈ p.shared.runs, Accepted p.shared.made r.session) ∧
      ∀ t ∈ p.threads, t.AtGate cfg.handshakeHeader p.shared.made := by
  refine Program.reachable_local (P := program cfg)
    (I := fun s => s.Gated cfg ∧ ∀ r ∈ s.runs, Accepted s.made r.session)
    (J := fun s t => t.AtGate cfg.handshakeHeader s.made)
    ⟨⟨?_, List.forall_mem_nil _⟩, ?_⟩ ?_ hreach
  · intro k session hk
    simp [initial] at hk
  · intro t _ k session hk
    simp [initial] at hk
  · rintro u hu s' t t' new rest a hperm ⟨hgated, hruns⟩ ht hs
    have hmove := (step_move hs).2
    have hmade : ∀ v ∈ t :: rest, ∀ k, v.wraps k = 1 →
        ∃ session, u.shared.made[k]? = some session := by
      intro v hv k hwraps
      cases hk : u.shared.made[k]? with
      | some session => exact ⟨session, rfl⟩
      | none =>
          have hzero := wraps_eq_zero hu hk (hperm.mem_iff.mpr hv)
          omega
    obtain ⟨ht', hnew⟩ := hmove.atGate ht
    exact ⟨⟨hmove.gated hcfg ht hgated, hmove.runs ht (hmade t List.mem_cons_self) hruns⟩,
      ht', hnew, fun v hv hold => hold.frame hmove (hmade v (List.mem_cons_of_mem _ hv))
        fun k hk => wraps_other hu hperm hv hk⟩

/-- Unless the header is empty and `on_handshake` is set, a handler runs only on a
    connection that passed the gate. -/
theorem reachable_gated (hcfg : cfg.handshakeHeader ≠ [] ∨ cfg.onHandshake = false)
    (hreach : (machine cfg).Reachable initial p) :
    ∀ r ∈ p.shared.runs, ∃ session, p.shared.made[r.session]? = some session ∧
      session.gate.Passed cfg.handshakeHeader cfg.onHandshake := by
  obtain ⟨⟨hgated, hruns⟩, -⟩ := reachable_atGate hcfg hreach
  intro r hr
  obtain ⟨session, hk, haccepted⟩ := hruns r hr
  exact ⟨session, hk, hgated _ session hk haccepted⟩

/-- With an empty header: a client connects and sends a request. -/
def noHeaderRun : List (Nat × Action) :=
  [(0, .registerMethod 7), (2, .accepted), (2, .run), (3, .run),
    (3, .readFrame (.ok ({ type := FrameRequest, callID := 1, methodID := 7, payloadSize := 0 },
      []))),
    (3, .run)]

/-- With an empty header the handler runs although `on_handshake` was not called. -/
theorem noHeaderRun_ungated (hheader : cfg.handshakeHeader = []) :
    ∃ p, (machine cfg).run initial noHeaderRun = some p ∧
      p.shared.runs = [⟨0, 1, 7, 0, [], none⟩] ∧
      p.shared.made.map Session.admitted = [false] := by
  obtain ⟨header, onHandshake, interceptor⟩ := cfg
  subst hheader
  exact ⟨_, rfl, rfl, rfl⟩

end Protocomm.Cpp.Server
