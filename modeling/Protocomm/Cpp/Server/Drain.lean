import Protocomm.Cpp.Server.Plain

/-!
# The end of a stream to the C++ server

A session to which a stream is sent comes to its end: as long as its `Run` has not
returned or frames wait to be written, some thread can take a step that lowers the work
left.
-/

namespace Protocomm.Cpp.Server

open Misc

variable {cfg : Config} {T : Table} {stream : Bytes} {k : Nat} {s s' : Shared}
  {t t' : Thread} {a : Action} {new : List Thread} {p : Pool Shared Thread} {session : Session}

/-! ## The session stays open -/

/-- The socket takes bytes, and no `close` is on its way. -/
def Session.Open (session : Session) : Prop :=
  session.closed = false ∧ session.out.failed = false ∧ Handler.close ∉ session.strand

/-- A session stays open as long as nobody closes it and no write to it fails. -/
theorem Move.open (h : Move cfg s t a s' t' new) (hclose : t = .app → a ≠ .close k)
    (hwrapped : ∀ pc, t = .wrapped k pc → a ≠ .writeFailed)
    (hpump : ∀ pc, t = .writePump k pc → a ≠ .writeFailed) (hopen : (s.session k).Open) :
    (s'.session k).Open := by
  have hset : ∀ {j : Nat} {old next : Session}, s.made[j]? = some old →
      (j = k → old.Open → next.Open) → ((s.setSession j next).session k).Open := by
    intro j old next hold hnext
    by_cases hj : j = k
    · subst hj
      rw [session_set hold]
      exact hnext rfl (session_of_some hold ▸ hopen)
    · rwa [session_set_other hj]
  have hpost : ∀ {old : Session} {hdr : FrameHeader} {payload : Bytes}, old.Open →
      (old.post (.enqueueWrite hdr payload)).Open := by
    rintro old hdr payload ⟨hclosed, hfailed, hstrand⟩
    exact ⟨hclosed, hfailed, by simpa [Session.post] using hstrand⟩
  cases h with
  | accept => exact (session_accept Session.Open (fun _ => by simp [Session.Open]) rfl).mpr hopen
  | close hsession => exact hset hsession fun hj => absurd (hj ▸ rfl) (hclose rfl)
  | send _ _ hsession | pick _ _ _ _ _ hsession | respond _ _ hsession =>
      exact hset hsession fun _ => hpost
  | enqueue hdr payload rest hsession hstrand | enqueueSpawn hdr payload rest hsession hstrand =>
      refine hset hsession fun _ hold => ⟨hold.1, hold.2.1, fun hmem => hold.2.2 ?_⟩
      rw [hstrand]
      exact List.mem_cons_of_mem _ hmem
  | closeSocket rest hsession hstrand =>
      refine hset hsession fun _ hold => absurd ?_ hold.2.2
      rw [hstrand]
      exact List.mem_cons_self
  | replyFailed sent hsession => exact hset hsession fun hj => absurd rfl (hwrapped _ (by rw [hj]))
  | pumpFailed hdr payload sent hsession =>
      exact hset hsession fun hj => absurd rfl (hpump _ (by rw [hj]))
  | pumpWrote hdr payload sent n hsession | pumpWritten hdr payload sent n hsession =>
      refine hset hsession fun _ hold => ⟨hold.1, ?_, hold.2.2⟩
      have hfailed := hold.2.1
      simp only [Session.sendFrame]
      split <;> simpa [Outlet.more] using hfailed
  | insert hsession | connectNoHeader hsession | handshakeMismatch _ hsession
  | handshakeAsk hsession | handshakeOK hsession | answerYes hsession | greet _ _ hsession
  | reply _ _ hsession | readOther _ _ hsession | read _ _ hsession | pumpEnd hsession
  | pumpNext _ _ _ hsession | pumpClear hsession => exact hset hsession fun _ hold => hold
  | _ => exact hopen

theorem plain_open (hreach : (plainProgram cfg T stream k).machine.Reachable initial p) :
    (p.shared.session k).Open := by
  refine Program.reachable_shared (P := plainProgram cfg T stream k)
    (I := fun s => (s.session k).Open) ⟨rfl, rfl, List.not_mem_nil⟩ ?_ hreach
  intro u _ s' t t' new a _ hopen hs
  obtain ⟨hgood, hmove⟩ := plain_step hs
  refine hmove.open ?_ ?_ ?_ hopen
  · rintro rfl rfl
    simp [plain] at hgood
  all_goals
    rintro pc rfl rfl
    cases pc <;> simp [plain] at hgood

/-- Something of a write in progress is left. -/
def Thread.Unfinished (cfg : Config) : Thread → Prop
  | .wrapped _ .readHandshake | .wrapped _ .onHandshake => cfg.handshakeHeader ≠ []
  | .wrapped _ (.writeHandshake sent) => sent < cfg.handshakeHeader.length
  | .writePump _ (.writing hdr payload sent) => sent < (writeFrame hdr payload).length
  | _ => True

theorem length_writeFrame_pos (hdr : FrameHeader) (payload : Bytes) :
    0 < (writeFrame hdr payload).length := by
  rw [writeFrame, List.length_append, Vector.length_toList]
  exact Nat.lt_of_lt_of_le (by decide) (Nat.le_add_right _ _)

theorem reachable_unfinished (hreach : (machine cfg).Reachable initial p) :
    ∀ t ∈ p.threads, t.Unfinished cfg := by
  refine (Program.reachable_local (P := program cfg) (I := fun _ => True)
    (J := fun _ t => t.Unfinished cfg) ⟨trivial, by simp [initial, Thread.Unfinished]⟩ ?_ hreach).2
  intro u _ s' t t' new rest a _ _ ht hs
  suffices h : t'.Unfinished cfg ∧ ∀ v ∈ new, v.Unfinished cfg from
    ⟨trivial, h.1, h.2, fun _ _ hv => hv⟩
  have hnil : ∀ v ∈ ([] : List Thread), v.Unfinished cfg := List.forall_mem_nil _
  cases (step_move hs).2 with
  | connect k hheader => exact ⟨hheader, hnil⟩
  | handshakeAsk => exact ⟨ht, hnil⟩
  | handshakeOK | answerYes => exact ⟨List.length_pos_iff.mpr ht, hnil⟩
  | greet sent n hsession hwrite hleft =>
      obtain ⟨-, hle, -⟩ := canWrite_inv hwrite
      have hlt : sent < cfg.handshakeHeader.length := ht
      refine ⟨?_, hnil⟩
      simp only [Thread.Unfinished]
      omega
  | pumpNext hdr payload => exact ⟨length_writeFrame_pos hdr payload, hnil⟩
  | pumpWrote hdr payload sent n hsession hwrite hleft =>
      obtain ⟨-, hle, -⟩ := canWrite_inv hwrite
      have hlt : sent < (writeFrame hdr payload).length := ht
      refine ⟨?_, hnil⟩
      simp only [Thread.Unfinished]
      omega
  | broadcast | enqueueSpawn | insert => exact ⟨trivial, List.forall_mem_singleton.mpr trivial⟩
  | _ => exact ⟨trivial, hnil⟩

/-- There is always an io thread. -/
theorem io_mem (hreach : (machine cfg).Reachable initial p) : Thread.io ∈ p.threads := by
  refine Program.reachable_bag (P := program cfg) (K := fun _ l => Thread.io ∈ l)
    (fun _ _ _ hl hmem => hl.mem_iff.mp hmem) (by simp [initial]) ?_ hreach
  intro u _ s' t t' new rest a _ hmem hs
  have hmove : Move cfg u.shared t a s' t' new := (step_move hs).2
  rcases List.mem_cons.mp hmem with rfl | hmem
  · cases hmove <;> exact List.mem_cons_self
  · exact List.mem_cons_of_mem _ (List.mem_append_right _ hmem)

/-! ## The work left -/

def Running.work : Running → Nat
  | .lookup _ _ => 18
  | .running _ _ => 17
  | .respond _ _ => 16
  | .onConnect => 9
  | .readHandshake => 8
  | .onHandshake => 7
  | .writeHandshake _ => 6
  | .read => 5
  | .onDisconnect => 4
  | .erase => 3
  | .unwind => 1

def Pumping.work : Pumping → Nat
  | .writing _ _ _ => 4
  | .next => 2
  | .clear => 1

/-- The steps to the end of session `k`. -/
def Thread.work (k : Nat) : Thread → Nat
  | .acceptLoop (.insert j) => if j = k then 10 else 0
  | .wrapped j pc => if j = k then pc.work else 0
  | .writePump j pc => if j = k then pc.work else 0
  | _ => 0

/-- What the requests still to be read, the handlers on the strand and the frames in
    `write_queue_` cost. -/
def Session.left (stream : Bytes) (session : Session) : Nat :=
  14 * ((Protocomm.requestsOf stream).length - session.reads.length) +
    10 * session.strand.length + 3 * session.writeQueue.length

def Shared.left (stream : Bytes) (k : Nat) (s : Shared) : Nat := (s.session k).left stream

/-- Some thread can take a step that lowers the work left. -/
def Advances (cfg : Config) (T : Table) (stream : Bytes) (k : Nat) (p : Pool Shared Thread) :
    Prop :=
  (plainProgram cfg T stream k).Lowers (Shared.left stream k) (Thread.work k) p

theorem advances (ht : t ∈ p.threads) (hgood : plain cfg T stream k p.shared t a = true)
    (hs : step cfg p.shared t a = some (s', t', new))
    (hlt : s'.left stream k + (t'.work k + (new.map (Thread.work k)).sum) <
      p.shared.left stream k + t.work k) : Advances cfg T stream k p :=
  Program.lowers_of_step ht (Program.restrict_step.mpr ⟨hgood, hs⟩) hlt

/-- A step that does not touch what is left of the session. -/
theorem advances_of_work (ht : t ∈ p.threads) (hgood : plain cfg T stream k p.shared t a = true)
    (hs : step cfg p.shared t a = some (s', t', new))
    (hleft : s'.left stream k = p.shared.left stream k)
    (hlt : t'.work k + (new.map (Thread.work k)).sum < t.work k) : Advances cfg T stream k p := by
  refine advances ht hgood hs ?_
  rw [hleft]
  exact Nat.add_lt_add_left hlt _

theorem left_set (hk : s.made[k]? = some session) (next : Session) :
    (s.setSession k next).left stream k = next.left stream := by
  rw [Shared.left, session_set hk]

theorem left_of_some (hk : s.made[k]? = some session) : s.left stream k = session.left stream := by
  rw [Shared.left, session_of_some hk]

theorem left_set_same {next : Session} (hk : s.made[k]? = some session)
    (hsame : next.left stream = session.left stream) :
    (s.setSession k next).left stream k = s.left stream k := by
  rw [left_set hk, left_of_some hk, hsame]

section

variable (hrunning : s.running = true)
include hrunning

theorem step_wrapped (cfg : Config) (hk : s.made[k]? = some session) (pc : Running) (a : Action) :
    step cfg s (.wrapped k pc) a = wrappedStep cfg s k session pc a := by
  simp only [step, hrunning, Bool.not_true, Bool.and_false, Bool.false_eq_true, if_false, hk]

theorem step_writePump (cfg : Config) (hk : s.made[k]? = some session) (pc : Pumping)
    (a : Action) : step cfg s (.writePump k pc) a = writePumpStep s k session pc a := by
  simp only [step, hrunning, Bool.not_true, Bool.and_false, Bool.false_eq_true, if_false, hk]

theorem step_io (cfg : Config) (a : Action) : step cfg s .io a = ioStep s a := by
  simp only [step, hrunning, Bool.not_true, Bool.and_false, Bool.false_eq_true, if_false]

end

/-- An open session takes what is left of a write. -/
theorem canWrite_rest {len sent : Nat} (hopen : session.Open) (hlt : sent < len) :
    session.canWrite (len - sent) (len - sent) = true := by
  simp only [Session.canWrite, hopen.1, hopen.2.1, Bool.or_self, Bool.not_false, Bool.and_true,
    decide_eq_true_eq, Nat.le_refl, and_true]
  omega

section

variable (hreach : (plainProgram cfg T stream k).machine.Reachable initial p)
  (hk : p.shared.made[k]? = some session)
include hreach hk

theorem open_of_some : session.Open := session_of_some hk ▸ plain_open hreach

/-- The strand of the session runs its next handler. -/
theorem advances_strand (hstrand : session.strand ≠ []) : Advances cfg T stream k p := by
  have hplain := reachable_of_plain hreach
  obtain ⟨-, -, hclose⟩ := open_of_some hreach hk
  have hs := step_io (plain_quiet hreach).1 cfg (.handle k)
  obtain ⟨h, rest, hcons⟩ := List.exists_cons_of_ne_nil hstrand
  cases h with
  | close => exact absurd (hcons ▸ List.mem_cons_self) hclose
  | enqueueWrite hdr payload =>
      cases hactive : session.writePumpActive with
      | true =>
          simp only [ioStep, hk, hcons, Session.handle, hactive, if_true] at hs
          refine advances (io_mem hplain) rfl hs ?_
          rw [left_set hk, left_of_some hk]
          simp [Session.left, Thread.work, hcons]
          omega
      | false =>
          simp only [ioStep, hk, hcons, Session.handle, hactive, Bool.false_eq_true, if_false] at hs
          refine advances (io_mem hplain) rfl hs ?_
          rw [left_set hk, left_of_some hk]
          simp [Session.left, Thread.work, Pumping.work, hcons]
          omega

/-- The `WritePump` of the session goes on. -/
theorem advances_writePump {pc : Pumping} (ht : .writePump k pc ∈ p.threads) :
    Advances cfg T stream k p := by
  have hplain := reachable_of_plain hreach
  have hs := step_writePump (plain_quiet hreach).1 cfg hk pc
  cases pc with
  | next =>
      have hs := hs .run
      cases hqueue : session.writeQueue with
      | nil =>
          simp only [writePumpStep, pumpNext, hqueue] at hs
          exact advances_of_work ht rfl hs (left_set_same hk (by simp [Session.left, hqueue]))
            (by simp [Thread.work, Pumping.work])
      | cons f rest =>
          simp only [writePumpStep, pumpNext, hqueue] at hs
          refine advances ht rfl hs ?_
          rw [left_set hk, left_of_some hk]
          simp [Session.left, Thread.work, Pumping.work, hqueue]
          omega
  | writing hdr payload sent =>
      have hlt : sent < (writeFrame hdr payload).length := reachable_unfinished hplain _ ht
      have hwrite := canWrite_rest (open_of_some hreach hk) hlt
      have hs := hs (.wrote ((writeFrame hdr payload).length - sent))
      have hend : sent + ((writeFrame hdr payload).length - sent) =
          (writeFrame hdr payload).length := by omega
      simp only [writePumpStep, hwrite, hend, if_true] at hs
      exact advances_of_work ht rfl hs (left_set_same hk rfl) (by simp [Thread.work, Pumping.work])
  | clear =>
      refine advances ht rfl (hs .run) ?_
      rw [left_set hk, left_of_some hk]
      simp only [Session.left, Thread.work, if_true, Pumping.work, List.map_nil, List.sum_nil,
        List.length_nil]
      omega

/-- `Run` reads on. -/
theorem advances_read (ht : .wrapped k .read ∈ p.threads) : Advances cfg T stream k p := by
  obtain ⟨hclosed, -, -⟩ := open_of_some hreach hk
  obtain ⟨r, hr⟩ := exists_delivers (readFrame "" (unread stream (p.shared.session k).reads))
  have hgood : plain cfg T stream k p.shared (.wrapped k .read) (.readFrame r) = true := by
    simp [plain, hr]
  have hs := step_wrapped (plain_quiet hreach).1 cfg hk .read (.readFrame r)
  have hreads := (plain_reads hreach).1 _ ht rfl
  rw [session_of_some hk] at hreads
  rcases next_request hreads (session_of_some hk ▸ delivers_of_plain hgood) with
    ⟨⟨hdr, payload⟩, rfl, hrequest, hinit⟩ | ⟨hother, -⟩
  · have htype : hdr.type = FrameRequest := by simpa [isRequest] using hrequest
    simp only [wrappedStep, hclosed, Bool.false_eq_true, if_false, htype, ne_eq,
      not_true_eq_false] at hs
    refine advances ht hgood hs ?_
    have hlen := hinit.length_le
    rw [List.length_append, List.length_singleton] at hlen
    rw [left_set hk, left_of_some hk]
    simp only [Session.left, Thread.work, if_true, Running.work, List.map_nil, List.sum_nil,
      List.length_append, List.length_singleton]
    omega
  · cases r with
    | error e =>
        exact advances_of_work ht hgood hs rfl (by simp [Thread.work, Running.work])
    | ok f =>
        obtain ⟨hdr, payload⟩ := f
        have htype : hdr.type ≠ FrameRequest := by simpa [isRequest] using hother _ rfl
        simp only [wrappedStep, hclosed, Bool.false_eq_true, if_false, htype, ne_eq,
          not_false_eq_true, if_true] at hs
        refine advances ht hgood hs ?_
        rw [left_set hk, left_of_some hk]
        simp only [Session.left, Thread.work, if_true, Running.work, List.map_nil, List.sum_nil,
          List.length_append, List.length_singleton]
        omega

/-- `Run` goes on. -/
theorem advances_wrapped {pc : Running} (ht : .wrapped k pc ∈ p.threads) :
    Advances cfg T stream k p := by
  have hplain := reachable_of_plain hreach
  have hopen := open_of_some hreach hk
  have hs := step_wrapped (plain_quiet hreach).1 cfg hk pc
  cases pc with
  | onConnect =>
      have hs := hs .run
      by_cases hheader : cfg.handshakeHeader = []
      · simp only [wrappedStep, hheader, if_true] at hs
        exact advances_of_work ht rfl hs (left_set_same hk rfl)
          (by simp [Thread.work, Running.work])
      · simp only [wrappedStep, hheader, if_false] at hs
        exact advances_of_work ht rfl hs rfl (by simp [Thread.work, Running.work])
  | readHandshake =>
      have hs := hs (.readHandshake (.ok cfg.handshakeHeader))
      have hgood : plain cfg T stream k p.shared (.wrapped k .readHandshake)
          (.readHandshake (.ok cfg.handshakeHeader)) = true := by simp [plain]
      cases hset : cfg.onHandshake with
      | true =>
          simp [wrappedStep, hset, hopen.1] at hs
          exact advances_of_work ht hgood hs (left_set_same hk rfl)
            (by simp [Thread.work, Running.work])
      | false =>
          simp [wrappedStep, hset, hopen.1] at hs
          exact advances_of_work ht hgood hs (left_set_same hk rfl)
            (by simp [Thread.work, Running.work])
  | onHandshake =>
      exact advances_of_work ht (by simp [plain]) (hs (.answer true)) (left_set_same hk rfl)
        (by simp [Thread.work, Running.work])
  | writeHandshake sent =>
      have hlt : sent < cfg.handshakeHeader.length := reachable_unfinished hplain _ ht
      have hwrite := canWrite_rest hopen hlt
      have hs := hs (.wrote (cfg.handshakeHeader.length - sent))
      have hend : sent + (cfg.handshakeHeader.length - sent) = cfg.handshakeHeader.length := by
        omega
      simp only [wrappedStep, hwrite, hend, if_true] at hs
      exact advances_of_work ht rfl hs (left_set_same hk rfl) (by simp [Thread.work, Running.work])
  | read => exact advances_read hreach hk ht
  | lookup hdr payload =>
      have hs := hs .run
      cases hlookup : p.shared.handlers.lookup hdr.methodID with
      | none =>
          simp only [wrappedStep, hlookup] at hs
          exact advances_of_work ht rfl hs rfl (by simp [Thread.work, Running.work])
      | some handler =>
          simp only [wrappedStep, hlookup] at hs
          exact advances_of_work ht rfl hs rfl (by simp [Thread.work, Running.work])
  | running hdr run =>
      -- the handler returns what `T` says
      obtain ⟨response, st, hreturns⟩ : ∃ response st, (p.shared.runs[run]?.all fun r =>
          T.returns (hdr, r.request) (response, st)) = true := by
        cases p.shared.runs[run]? with
        | none => exact ⟨[], {}, rfl⟩
        | some r => exact T.exists_returns (hdr, r.request)
      exact advances_of_work ht (by simp [plain, hreturns]) (hs (.returned response st)) rfl
        (by simp [Thread.work, Running.work])
  | respond hdr payload =>
      refine advances ht rfl (hs .run) ?_
      rw [left_set hk, left_of_some hk]
      simp [Session.left, Session.post, Thread.work, Running.work]
      omega
  | onDisconnect | unwind =>
      exact advances_of_work ht rfl (hs .run) rfl (by simp [Thread.work, Running.work])
  | erase =>
      -- whatever is in the place of `conn_id`, something is erased
      obtain ⟨a, id, hread, hgood⟩ : ∃ a id, p.shared.readConnId a = some id ∧
          plain cfg T stream k p.shared (.wrapped k .erase) a = true := by
        cases hcaptured : p.shared.captured with
        | none => exact ⟨.freed 0, 0, by simp [Shared.readConnId, hcaptured], rfl⟩
        | some id => exact ⟨.run, id, hcaptured, rfl⟩
      have hs := hs a
      simp only [wrappedStep, hread] at hs
      exact advances_of_work ht hgood hs rfl (by simp [Thread.work, Running.work])

end

/-- A session that is not settled has work that can be done. -/
theorem plain_advances (hreach : (plainProgram cfg T stream k).machine.Reachable initial p)
    (hlt : k < p.shared.made.length) (hnot : ¬ Settled k p) : Advances cfg T stream k p := by
  have hk := List.getElem?_eq_getElem hlt
  by_cases hstrand : (p.shared.session k).strand = []
  · obtain ⟨t, ht, hbusy⟩ : ∃ t ∈ p.threads, ¬ (t.wraps k = 0 ∧ t.pumps k = 0) := by
      by_contra hnone
      exact hnot ⟨hlt, hstrand, fun t ht => by_contra fun hne => hnone ⟨t, ht, hne⟩⟩
    have hown : ∀ {j : Nat}, ¬ (if j = k then 1 else 0) = 0 → j = k := by
      intro j hif
      by_contra hj
      exact hif (if_neg hj)
    cases t with
    | acceptLoop pc =>
        cases pc with
        | accept => exact absurd ⟨rfl, rfl⟩ hbusy
        | insert j =>
            obtain rfl := hown fun hzero => hbusy ⟨hzero, rfl⟩
            have hs : step cfg p.shared (.acceptLoop (.insert j)) .run =
                acceptLoopStep p.shared (.insert j) .run := rfl
            simp only [acceptLoopStep, hk] at hs
            refine advances_of_work ht rfl hs (left_set_same hk rfl) ?_
            simp [Thread.work, Running.work]
    | wrapped j pc =>
        obtain rfl := hown fun hzero => hbusy ⟨hzero, rfl⟩
        exact advances_wrapped hreach hk ht
    | writePump j pc =>
        obtain rfl := hown fun hzero => hbusy ⟨rfl, hzero⟩
        exact advances_writePump hreach hk ht
    | _ => exact absurd ⟨rfl, rfl⟩ hbusy
  · exact advances_strand hreach hk (session_of_some hk ▸ hstrand)

/-- Every run in which the session was accepted can be continued until it is settled. -/
theorem plain_settles (hreach : (plainProgram cfg T stream k).machine.Reachable initial p)
    (hlt : k < p.shared.made.length) :
    ∃ q, (plainProgram cfg T stream k).machine.Reachable p q ∧ Settled k q := by
  refine Program.reaches_of_lowers (I := fun u =>
    (plainProgram cfg T stream k).machine.Reachable initial u ∧ k < u.shared.made.length)
    ?_ (fun u hu hnot => plain_advances hu.1 hu.2 hnot) ⟨hreach, hlt⟩
  rintro u ia u' ⟨hu, hlt⟩ hstep
  obtain ⟨t, t', new, -, hs, -⟩ := Program.machine_step_eq hstep
  refine ⟨hu.tail hstep, Nat.lt_of_lt_of_le hlt ?_⟩
  rcases (plain_step hs).2.length_made with hlen | ⟨-, -, -, hmade⟩
  · exact Nat.le_of_eq hlen.symm
  · rw [hmade, List.length_append]
    exact Nat.le_add_right _ _

end Protocomm.Cpp.Server
