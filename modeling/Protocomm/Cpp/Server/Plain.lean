import Protocomm.Cpp.Server.Order
import Protocomm.WritePumps

/-!
# A stream of requests to the C++ server

The runs of a server in which one client sends a given stream after the handshake. When
`Run` has returned and all frames of the session are written, every request of the stream
was handed to its handler and answered, in the order of the stream.
-/

namespace Protocomm.Cpp.Server

open Misc

/-- The steps of a server while the client of session `k` sends `stream` after a successful
    handshake and the connection accepts all writes. The methods of `T` are registered
    before the session is accepted, and no callback throws; nothing is pushed and the
    server is not shut down. -/
def plain (cfg : Config) (T : Table) (stream : Bytes) (k : Nat) (s : Shared) :
    Thread → Action → Bool
  | .app, .registerMethod _ => decide (s.made.length ≤ k)
  | .app, .close j => j != k
  | .app, _ => false
  | .acceptLoop .accept, .accepted => s.made.length != k || T.registered s.handlers
  | .wrapped j .readHandshake, .readHandshake (.ok received) =>
      j != k || received == cfg.handshakeHeader
  | .wrapped j .readHandshake, .readHandshake (.error _) => j != k
  | .wrapped j .onHandshake, .answer accept => j != k || accept
  | .wrapped j .read, .readFrame r =>
      j != k || delivers (readFrame "" (unread stream (s.session k).reads)) r
  | .wrapped j (.running hdr run), .returned response st =>
      j != k || s.runs[run]?.all fun r => T.returns (hdr, r.request) (response, st)
  | .wrapped j _, .threw => j != k
  | .wrapped j _, .writeFailed => j != k
  | .writePump j _, .writeFailed => j != k
  | _, _ => true

/-- The server with plain steps only. -/
def plainProgram (cfg : Config) (T : Table) (stream : Bytes) (k : Nat) :
    Program Shared Thread Action :=
  (program cfg).restrict (plain cfg T stream k)

/-- `Run` of session `k` has returned, and its strand and its `WritePump` have nothing left
    to do. -/
def Settled (k : Nat) (p : Pool Shared Thread) : Prop :=
  k < p.shared.made.length ∧ (p.shared.session k).strand = [] ∧
    ∀ t ∈ p.threads, t.wraps k = 0 ∧ t.pumps k = 0

/-- The frames written to session `k`. -/
def Shared.framesTo (k : Nat) (s : Shared) : List (FrameHeader × Bytes) :=
  (s.session k).out.frames

variable {cfg : Config} {T : Table} {stream : Bytes} {k : Nat} {s s' : Shared}
  {t t' : Thread} {a : Action} {new : List Thread} {p : Pool Shared Thread}

theorem plain_step (h : (plainProgram cfg T stream k).step s t a = some (s', t', new)) :
    plain cfg T stream k s t a = true ∧ Move cfg s t a s' t' new :=
  (Program.restrict_step.mp h).imp_right fun hs => (step_move hs).2

theorem reachable_of_plain (h : (plainProgram cfg T stream k).machine.Reachable initial p) :
    (machine cfg).Reachable initial p :=
  Program.reachable_of_restrict h

/-! ## The server meanwhile -/

/-- The thread is no `Broadcast`. -/
def Thread.quiet : Thread → Bool
  | .broadcast _ _ _ => false
  | _ => true

theorem plain_quiet (hreach : (plainProgram cfg T stream k).machine.Reachable initial p) :
    p.shared.running = true ∧ ∀ t ∈ p.threads, t.quiet = true := by
  refine Program.reachable_local (P := plainProgram cfg T stream k)
    (I := fun s => s.running = true) (J := fun _ t => t.quiet = true)
    ⟨rfl, by simp [initial, Thread.quiet]⟩ ?_ hreach
  intro u _ s' t t' new rest a _ hrunning hquiet hs
  obtain ⟨hgood, hmove⟩ := plain_step hs
  suffices h : s'.running = true ∧ t'.quiet = true ∧ ∀ v ∈ new, v.quiet = true from
    ⟨h.1, h.2.1, h.2.2, fun _ _ hv => hv⟩
  cases hmove with
  | send | broadcast | shutdown => cases hgood
  | broadcastDone | pick => cases hquiet
  | enqueueSpawn | insert => exact ⟨hrunning, rfl, List.forall_mem_singleton.mpr rfl⟩
  | _ => exact ⟨hrunning, rfl, List.forall_mem_nil _⟩

/-- Once the session is accepted the methods of `T` are registered. -/
theorem plain_table (hreach : (plainProgram cfg T stream k).machine.Reachable initial p)
    (hk : k < p.shared.made.length) (m : UInt32) :
    (p.shared.handlers.lookup m).isSome = (T.lookup m).isSome := by
  revert m
  revert hk
  refine Program.reachable_shared (P := plainProgram cfg T stream k)
    (I := fun s => k < s.made.length → ∀ m, (s.handlers.lookup m).isSome = (T.lookup m).isSome)
    (by simp [initial]) ?_ hreach
  intro u _ s' t t' new a _ hI hs hk
  obtain ⟨hgood, hmove⟩ := plain_step hs
  cases hmove with
  | registerMethod => exact absurd hk (Nat.not_lt.mpr (of_decide_eq_true hgood))
  | accept =>
      by_cases hold : k < u.shared.made.length
      · exact hI hold
      · have hlength : u.shared.made.length = k := by
          rw [List.length_append, List.length_singleton] at hk
          omega
        exact Table.isSome_lookup_of_registered (by simpa [plain, hlength] using hgood)
  | _ => exact hI (by simpa [Shared.setSession, Shared.setResult] using hk)

theorem wrapped_lt {pc : Running}
    (hreach : (plainProgram cfg T stream k).machine.Reachable initial p)
    (ht : .wrapped k pc ∈ p.threads) : k < p.shared.made.length := by
  by_contra hge
  have hzero := wraps_eq_zero (reachable_of_plain hreach)
    (List.getElem?_eq_none (Nat.le_of_not_lt hge)) ht
  simp [Thread.wraps] at hzero

/-- The method of a request of session `k` is in `T` if and only if a handler is found. -/
theorem plain_lookup (hreach : (plainProgram cfg T stream k).machine.Reachable initial p)
    {hdr : FrameHeader} {payload : Bytes} {pc : Running} (ht : .wrapped k pc ∈ p.threads) :
    T.has (hdr, payload) = (p.shared.handlers.lookup hdr.methodID).isSome := by
  rw [Table.has, ← plain_table hreach (wrapped_lt hreach ht)]

/-- A request of session `k` that is given to a handler has its method in `T`. -/
def Thread.Has (T : Table) (k : Nat) : Thread → Prop
  | .wrapped j (.running hdr _) => j = k → (T.lookup hdr.methodID).isSome = true
  | _ => True

theorem plain_has (hreach : (plainProgram cfg T stream k).machine.Reachable initial p) :
    ∀ t ∈ p.threads, t.Has T k := by
  refine (Program.reachable_local (P := plainProgram cfg T stream k) (I := fun _ => True)
    (J := fun _ t => t.Has T k) ⟨trivial, by simp [initial, Thread.Has]⟩ ?_ hreach).2
  intro u hu s' t t' new rest a hperm _ _ hs
  obtain ⟨-, hmove⟩ := plain_step hs
  have ht : t ∈ u.threads := hperm.mem_iff.mpr List.mem_cons_self
  suffices h : t'.Has T k ∧ ∀ v ∈ new, v.Has T k from
    ⟨trivial, h.1, h.2, fun _ _ hv => hv⟩
  cases hmove with
  | call j hdr payload handler hlookup =>
      refine ⟨?_, List.forall_mem_nil _⟩
      rintro rfl
      rw [← plain_table hu (wrapped_lt hu ht), hlookup]
      rfl
  | broadcast | enqueueSpawn | insert => exact ⟨trivial, List.forall_mem_singleton.mpr trivial⟩
  | _ => exact ⟨trivial, List.forall_mem_nil _⟩

/-! ## Answering and calling -/

/-- What a handler returns becomes the answer to its request. -/
theorem answer_of_respond {hdr : FrameHeader} {payload response : Bytes} {st : Status}
    (hhas : T.has (hdr, payload) = true)
    (hreturns : T.returns (hdr, payload) (response, st) = true) :
    T.answer (hdr, payload) = (responseHeader hdr (respond response st).1 (respond response st).2,
      (respond response st).2) := by
  rw [Table.answer_of_returns hhas hreturns, respond]
  split <;> rfl

theorem plain_serves (cfg : Config) (T : Table) (stream : Bytes) (k : Nat) :
    Serves cfg (plain cfg T stream k) k (fun _ => true) id T.answer True where
  keeps _ _ := rfl
  others p hreach t ht a hgood hwraps := by
    have hquiet := (plain_quiet hreach).2 t ht
    unfold Thread.posts
    split
    · cases hgood
    · cases hquiet
    · rename_i j hdr payload
      have hj : j ≠ k := by
        rintro rfl
        simp [Thread.wraps] at hwraps
      rw [if_neg hj]
      rfl
    · rfl
  writes s pc := by simp [plain]
  calm _ s pc := by cases pc <;> simp [plain]
  miss p hreach hdr payload ht hlookup := by
    have hhas : T.has (hdr, payload) = false := by
      rw [plain_lookup hreach ht, hlookup]
      rfl
    exact (Table.answer_of_has_false hhas).symm
  returned p hreach hdr run response st r ht hr hgood := by
    have hreturns : T.returns (hdr, r.request) (response, st) = true := by
      simpa [plain, hr] using hgood
    exact (answer_of_respond (plain_has hreach _ ht rfl) hreturns).symm

/-- The handlers called so far. -/
theorem plain_calls (hreach : (plainProgram cfg T stream k).machine.Reachable initial p) :
    ∃ called wait, Calls k (fun l c => c = (l.filter T.has).map callOf) p.shared p.threads called
      wait := by
  refine reachable_calls rfl ?_ ?_ hreach
  · rintro u hu hdr payload ht hlookup l c rfl
    have hhas : T.has (hdr, payload) = false := by
      rw [plain_lookup hu ht, hlookup]
      rfl
    simp [hhas]
  · rintro u hu hdr payload handler ht hlookup l c rfl
    have hhas : T.has (hdr, payload) = true := by
      rw [plain_lookup hu ht, hlookup]
      rfl
    simp [hhas]

/-! ## Reading the stream -/

/-- How much of the stream was read when `Run` is at a place. -/
def Running.Reads (stream : Bytes) (reads : List (FrameHeader × Bytes)) : Running → Prop
  | .onConnect | .readHandshake | .onHandshake | .writeHandshake _ => reads = []
  | .read | .lookup _ _ | .running _ _ | .respond _ _ => reads <+: Protocomm.requestsOf stream
  | _ => reads.filter isRequest = Protocomm.requestsOf stream

/-- A thread of session `k` has read a part of the stream. -/
def Thread.Reads (stream : Bytes) (k : Nat) (s : Shared) : Thread → Prop
  | .acceptLoop (.insert j) => j = k → (s.session k).reads = []
  | .wrapped j pc => j = k → pc.Reads stream (s.session k).reads
  | _ => True

theorem Thread.Reads.of_unwrapped (h : t.wraps k = 0) : t.Reads stream k s := by
  cases t with
  | acceptLoop pc =>
      cases pc with
      | accept => trivial
      | insert j => exact fun hj => absurd h (by simp [Thread.wraps, hj])
  | wrapped j pc => exact fun hj => absurd h (by simp [Thread.wraps, hj])
  | _ => trivial

/-- The next frame of the stream is delivered, as to any reader of it. -/
theorem delivers_of_plain {r : Except String (FrameHeader × Bytes)}
    (hgood : plain cfg T stream k s (.wrapped k .read) (.readFrame r) = true) :
    delivers (Go.readFrame (unread stream (s.session k).reads)) r = true := by
  rw [← delivers_readFrame ""]
  simpa [plain] using hgood

/-- A step of a thread establishes what it and the threads it starts have read. -/
theorem Move.readsStream (h : Move cfg s t a s' t' new)
    (hgood : plain cfg T stream k s t a = true) (ht : t.Reads stream k s) :
    t'.Reads stream k s' ∧ ∀ v ∈ new, v.Reads stream k s' := by
  have hnil : ∀ v ∈ ([] : List Thread), v.Reads stream k s' := List.forall_mem_nil _
  rcases h.reads k with hsame | ⟨hdr, payload, rfl, rfl, hadd, rfl, rfl⟩
  · cases h with
    | accept =>
        refine ⟨?_, hnil⟩
        rintro rfl
        rw [hsame, Shared.session, List.getElem?_eq_none (Nat.le_refl _)]
        rfl
    | insert => exact ⟨trivial, List.forall_mem_singleton.mpr fun hj => hsame.trans (ht hj)⟩
    | connectNoHeader | reply =>
        exact ⟨fun hj => by rw [hsame, ht hj]; exact List.nil_prefix, hnil⟩
    | connect | handshakeAsk | handshakeOK | answerYes | greet =>
        exact ⟨fun hj => hsame.trans (ht hj), hnil⟩
    | handshakeFailed j e => exact ⟨fun hj => by simp [plain, hj] at hgood, hnil⟩
    | handshakeMismatch received hsession hne =>
        exact ⟨fun hj => absurd (by simpa [plain, hj] using hgood) hne, hnil⟩
    | answerNo j => exact ⟨fun hj => by simp [plain, hj] at hgood, hnil⟩
    | answerThrow | readThrow | callThrow | traceThrow | replyFailed =>
        exact ⟨fun hj => by simp [plain, hj] at hgood, hnil⟩
    | readFailed j e =>
        refine ⟨fun hj => ?_, hnil⟩
        rcases next_request (ht hj) (delivers_of_plain (hj ▸ hgood)) with ⟨f, hf, -⟩ | ⟨-, hall⟩
        · cases hf
        · exact (filter_isRequest (ht hj)).trans hall.symm
    | readOther hdr payload hsession | read hdr payload hsession =>
        refine ⟨?_, hnil⟩
        rintro rfl
        rw [session_set hsession, session_of_some hsession] at hsame
        simpa using congrArg List.length hsame
    | miss | call | returned => exact ⟨fun hj => hsame ▸ ht hj, hnil⟩
    | respond => exact ⟨fun hj => hsame ▸ ht hj, hnil⟩
    | onDisconnect => exact ⟨ht, hnil⟩
    | broadcast | enqueueSpawn => exact ⟨trivial, List.forall_mem_singleton.mpr trivial⟩
    | _ => exact ⟨trivial, hnil⟩
  · refine ⟨fun _ => ?_, hnil⟩
    rw [hadd]
    rcases next_request (ht rfl) (delivers_of_plain hgood) with
      ⟨f, hf, hrequest, hinit⟩ | ⟨hother, hall⟩
    · cases hf
      rw [if_pos (by simpa [isRequest] using hrequest)]
      exact hinit
    · have hno := hother _ rfl
      rw [if_neg (by simpa [isRequest] using hno)]
      simp only [Running.Reads, List.filter_append, filter_isRequest (ht rfl), hall,
        List.filter_cons, hno, List.filter_nil, Bool.false_eq_true, if_false, List.append_nil]

/-- `wrapped` ends after `Run` or with an exception. -/
theorem Move.unwrapped (h : Move cfg s t a s' t' new) (ht : t.wraps k = 1)
    (ht' : t'.wraps k = 0) (hnew : ∀ v ∈ new, v.wraps k = 0) :
    s'.made = s.made ∧ (t = .wrapped k .erase ∨ t = .wrapped k .unwind ∨
      t = .wrapped k .onConnect ∧ a = .threw) := by
  cases h with
  | insert => exact absurd ((hnew _ List.mem_cons_self).symm.trans ht) Nat.zero_ne_one
  | connectThrow =>
      obtain rfl := eq_of_wraps ht
      exact ⟨rfl, Or.inr (Or.inr ⟨rfl, rfl⟩)⟩
  | erase =>
      obtain rfl := eq_of_wraps ht
      exact ⟨rfl, Or.inl rfl⟩
  | unwind =>
      obtain rfl := eq_of_wraps ht
      exact ⟨rfl, Or.inr (Or.inl rfl)⟩
  | connectNoHeader | connect | handshakeFailed | handshakeMismatch | handshakeAsk | handshakeOK
  | answerYes | answerNo | answerThrow | greet | reply | replyFailed | readFailed | readOther
  | read | readThrow | miss | call | returned | callThrow | traceThrow | respond | onDisconnect =>
      exact absurd (ht'.symm.trans ht) Nat.zero_ne_one
  | _ => simp [Thread.wraps] at ht

/-- When `Run` has returned, exactly the requests of the stream were read. -/
theorem plain_reads (hreach : (plainProgram cfg T stream k).machine.Reachable initial p) :
    (∀ t ∈ p.threads, t.Reads stream k p.shared) ∧ (k < p.shared.made.length →
      (∀ t ∈ p.threads, t.wraps k = 0) →
        p.shared.requestsOf k = Protocomm.requestsOf stream) := by
  refine Program.reachable_bag (P := plainProgram cfg T stream k)
    (K := fun s l => (∀ t ∈ l, t.Reads stream k s) ∧ (k < s.made.length →
      (∀ t ∈ l, t.wraps k = 0) → s.requestsOf k = Protocomm.requestsOf stream))
    ?_ ?_ ?_ hreach
  · rintro s l l' hl ⟨hreads, hend⟩
    exact ⟨fun t ht => hreads t (hl.mem_iff.mpr ht),
      fun hk hnone => hend hk fun t ht => hnone t (hl.mem_iff.mp ht)⟩
  · simp [initial, Thread.Reads]
  rintro u hu s' t t' new rest a hperm ⟨hreads, hend⟩ hs
  obtain ⟨hgood, hmove⟩ := plain_step hs
  have hplain := reachable_of_plain hu
  have ht := hreads t List.mem_cons_self
  obtain ⟨ht', hnew⟩ := hmove.readsStream hgood ht
  have hsame : t.wraps k = 0 → (s'.session k).reads = (u.shared.session k).reads := by
    intro hzero
    rcases hmove.reads k with hsame | ⟨hdr, payload, rfl, -⟩
    · exact hsame
    · simp [Thread.wraps] at hzero
  refine ⟨fun v hv => ?_, fun hk hnone => ?_⟩
  · rcases List.mem_cons.mp hv with rfl | hv
    · exact ht'
    rcases List.mem_append.mp hv with hv | hv
    · exact hnew v hv
    · by_cases hzero : t.wraps k = 0
      · have hold := hreads v (List.mem_cons_of_mem t hv)
        unfold Thread.Reads at hold ⊢
        rwa [hsame hzero]
      · exact .of_unwrapped (wraps_unique hplain hperm (wraps_eq_one hzero) v hv)
  · have ht'0 := hnone t' List.mem_cons_self
    have hnew0 : ∀ v ∈ new, v.wraps k = 0 := fun v hv =>
      hnone v (List.mem_cons_of_mem _ (List.mem_append_left _ hv))
    by_cases hzero : t.wraps k = 0
    · have hold : k < u.shared.made.length := by
        rcases hmove.length_made with hlen | ⟨-, rfl, -, hmade⟩
        · omega
        · rw [hmade, List.length_append, List.length_singleton] at hk
          by_contra hge
          have heq : u.shared.made.length = k := by omega
          simp [Thread.wraps, heq] at ht'0
      rw [Shared.requestsOf, hsame hzero]
      refine hend hold (List.forall_mem_cons.mpr ⟨hzero, fun v hv => ?_⟩)
      exact hnone v (List.mem_cons_of_mem _ (List.mem_append_right _ hv))
    · obtain ⟨hmade, hpc⟩ := hmove.unwrapped (wraps_eq_one hzero) ht'0 hnew0
      have hrequests : s'.requestsOf k = u.shared.requestsOf k := by
        rw [Shared.requestsOf, Shared.session, hmade]
        rfl
      rw [hrequests]
      rcases hpc with rfl | rfl | ⟨rfl, rfl⟩
      · exact ht rfl
      · exact ht rfl
      · simp [plain] at hgood

/-! ## In the end -/

theorem Settled.present (h : Settled k p) :
    p.shared.made[k]? = some (p.shared.session k) := by
  rw [Shared.session, List.getElem?_eq_getElem h.1, Option.getD_some]

theorem Settled.inactive (h : Settled k p) (hreach : (machine cfg).Reachable initial p) :
    (p.shared.session k).writePumpActive = false := by
  by_contra hactive
  obtain ⟨pc, hpc⟩ := exists_pump hreach h.present (Bool.eq_true_of_not_eq_false hactive)
  simpa [Thread.pumps] using (h.2.2 _ hpc).2

/-- A settled session has written its whole line. -/
theorem Settled.line (h : Settled k p) (hreach : (machine cfg).Reachable initial p)
    {taken : List (FrameHeader × Bytes)} (htaken : Taken k (p.shared.session k) p.threads taken) :
    (p.shared.session k).line taken = p.shared.framesTo k := by
  have hk := h.present
  have hidle := h.inactive hreach
  have hqueue : (p.shared.session k).writeQueue = [] := by
    obtain ⟨acts, hrun⟩ := hreach
    have hsound := Pumped.sound (V := pump k) (P := program cfg) rfl rfl
      (by simp [initial, pump, Thread.isPump]) (fun _ _ _ _ _ _ hs => (step_move hs).2.pump) hrun
    by_contra hne
    have hactive := (hsound.served (by simpa [pump, Shared.writeQueue, hk] using hne)).1
    simp [pump, Shared.writePumpActive, hk, hidle] at hactive
  rw [Session.line, htaken.idle hidle, hqueue, h.2.1]
  simp [Shared.framesTo]

/-- In the end the frames written are the answers to the requests of the stream. -/
theorem plain_frames (hreach : (plainProgram cfg T stream k).machine.Reachable initial p)
    (hend : Settled k p) :
    p.shared.framesTo k = (Protocomm.requestsOf stream).map T.answer := by
  obtain ⟨taken, handled, busy, hA⟩ := (plain_serves cfg T stream k).answers hreach
  have hnone : ∀ t ∈ p.threads, t.wraps k = 0 := fun t ht => (hend.2.2 t ht).1
  have hrequests := hA.requests
  rw [hA.free trivial hnone, List.append_nil, (plain_reads hreach).2 hend.1 hnone] at hrequests
  have hline := hA.line
  rw [hend.line (reachable_of_plain hreach) hA.pumped, List.map_id, ← hrequests] at hline
  simpa using hline

/-- In the end the handlers were given the requests of the stream. -/
theorem plain_callsOf (hreach : (plainProgram cfg T stream k).machine.Reachable initial p)
    (hend : Settled k p) :
    p.shared.callsOf k = ((Protocomm.requestsOf stream).filter T.has).map callOf := by
  obtain ⟨called, wait, hC⟩ := plain_calls hreach
  have hnone : ∀ t ∈ p.threads, t.wraps k = 0 := fun t ht => (hend.2.2 t ht).1
  have hwait : wait = [] := by
    refine hC.elsewhere fun hdr payload ht => ?_
    simpa [Thread.wraps] using hnone _ ht
  have hrequests := hC.requests
  rw [hwait, List.append_nil, (plain_reads hreach).2 hend.1 hnone] at hrequests
  rw [hC.calls, hrequests]

end Protocomm.Cpp.Server
