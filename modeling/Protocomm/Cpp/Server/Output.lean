import Protocomm.Cpp.Server.Sessions

/-!
# The output of the C++ server

`Broadcast` and `Send` reach a session as soon as it is in `sessions`, and the
handshake reply is not written by the `WritePump` that writes the frames. The output
of every session is the reply and then whole frames exactly as long as no
`WritePump` puts bytes on a socket whose reply has not been written.
-/

namespace Protocomm.Cpp.Server

open Misc

variable {header : Bytes} {session session' : Session} {hdr : FrameHeader} {payload : Bytes}
  {a : Action}

/-- The bytes of `WriteFrame`. -/
def encodeFrame (f : FrameHeader × Bytes) : Bytes := writeFrame f.1 f.2

/-- The output of a session, seen from outside its `WritePump`. -/
structure Session.Framed (header : Bytes) (session : Session) : Prop where
  out : session.out.Framed encodeFrame header
  between : session.out.ready header = true → session.out.failed = false →
    session.writePumpActive = false → session.out.Owes encodeFrame header []

/-- What is missing of the frame being written. -/
def Pumping.rest : Pumping → Bytes
  | .writing hdr payload sent => if sent = 0 then [] else (writeFrame hdr payload).drop sent
  | _ => []

/-- The `WritePump` is inside a frame. -/
def Pumping.midFrame : Pumping → Bool
  | .writing _ _ sent => sent != 0
  | _ => false

/-- The output of a session inside its `WritePump`. -/
structure Midway (header : Bytes) (session : Session) (pc : Pumping) : Prop where
  ready : pc.midFrame = true → session.out.ready header = true
  owes : session.out.ready header = true → session.out.failed = false →
    session.out.Owes encodeFrame header pc.rest

/-- The output of a session inside its handshake reply. -/
def Greeting (header : Bytes) (session : Session) (sent : Nat) : Prop :=
  session.out.wire = Source.greeting.tag (header.take sent) ∧ sent < header.length

/-! ## One piece of a write -/

theorem canWrite_inv {left n : Nat} (h : session.canWrite left n = true) :
    0 < n ∧ n ≤ left ∧ session.out.failed = false := by
  simp only [Session.canWrite, Bool.and_eq_true, decide_eq_true_eq, Bool.not_eq_true',
    Bool.or_eq_false_iff] at h
  exact ⟨h.1.1, h.1.2, h.2.2⟩

theorem piece_ne_nil {bytes : Bytes} {sent n : Nat} (hpos : 0 < n)
    (hle : n ≤ bytes.length - sent) : (bytes.drop sent).take n ≠ [] := by
  apply List.ne_nil_of_length_pos
  rw [List.length_take, List.length_drop]
  omega

/-- The rest of a frame is the piece and the rest after it. -/
theorem drop_piece (bytes : Bytes) (sent n : Nat) :
    bytes.drop sent = (bytes.drop sent).take n ++ bytes.drop (sent + n) := by
  rw [← List.drop_drop, List.take_append_drop]

/-- A piece of the frame that is being written. -/
theorem owes_sendFrame {sent n : Nat}
    (howes : session.out.Owes encodeFrame header (Pumping.writing hdr payload sent).rest)
    (hwrite : session.canWrite ((writeFrame hdr payload).length - sent) n = true) :
    (session.sendFrame hdr payload sent n).out.Owes encodeFrame header
      ((writeFrame hdr payload).drop (sent + n)) := by
  obtain ⟨hpos, hle, -⟩ := canWrite_inv hwrite
  have hpiece := drop_piece (writeFrame hdr payload) sent n
  simp only [Session.sendFrame]
  by_cases hsent : sent = 0
  · subst hsent
    rw [if_pos rfl]
    exact howes.start (piece_ne_nil hpos hle) hpiece
  · rw [if_neg hsent]
    simp only [Pumping.rest, if_neg hsent] at howes
    rw [hpiece] at howes
    exact howes.more

/-- A piece of a frame. -/
theorem framed_sendFrame {sent n : Nat} (hF : session.out.Framed encodeFrame header)
    (hmid : Midway header session (.writing hdr payload sent))
    (hwrite : session.canWrite ((writeFrame hdr payload).length - sent) n = true)
    (hready : session.out.ready header = true) :
    (session.sendFrame hdr payload sent n).out.Framed encodeFrame header ∧
      (session.sendFrame hdr payload sent n).out.Owes encodeFrame header
        ((writeFrame hdr payload).drop (sent + n)) := by
  obtain ⟨-, -, hopen⟩ := canWrite_inv hwrite
  have howes := hmid.owes hready hopen
  refine ⟨?_, owes_sendFrame howes hwrite⟩
  have hpiece := drop_piece (writeFrame hdr payload) sent n
  simp only [Session.sendFrame]
  by_cases hsent : sent = 0
  · subst hsent
    rw [if_pos rfl]
    exact hF.start (fun _ => hready) (fun _ => howes) hpiece
  · rw [if_neg hsent]
    simp only [Pumping.rest, if_neg hsent] at howes
    rw [hpiece] at howes
    exact hF.more hready howes

theorem ready_sendFrame (session : Session) (hdr : FrameHeader) (payload : Bytes)
    (sent n : Nat) :
    (session.sendFrame hdr payload sent n).out.ready header = session.out.ready header := by
  simp only [Session.sendFrame]
  split
  · exact Outlet.ready_start ..
  · rfl

/-- The writing of a session by its `WritePump`. -/
theorem PumpMove.framed {pc : Pumping} {pc' : Option Pumping}
    (h : PumpMove session pc a session' pc') (hF : session.Framed header)
    (hactive : session.writePumpActive = true) (hmid : Midway header session pc)
    (hready : ∀ n, a = .wrote n → session.out.ready header = true) : session'.Framed header := by
  cases h with
  | finish => exact ⟨hF.out, fun hyes hopen _ => hmid.owes hyes hopen⟩
  | next => exact ⟨hF.out, fun _ _ hidle => nomatch hactive.symm.trans hidle⟩
  | wrote hdr payload sent n hwrite | written hdr payload sent n hwrite =>
      refine ⟨(framed_sendFrame hF.out hmid hwrite (hready n rfl)).1, fun _ _ hidle => ?_⟩
      cases hactive.symm.trans hidle
  | failed => exact ⟨hF.out.fail true, fun _ hopen => by simp [Session.fail, Outlet.fail] at hopen⟩
  | clear => exact ⟨hF.out, fun hyes hopen _ => hmid.owes hyes hopen⟩

/-- A step of the `WritePump` keeps its outline. -/
theorem PumpMove.midway {pc pc' : Pumping} (h : PumpMove session pc a session' (some pc'))
    (hF : session.Framed header) (hmid : Midway header session pc)
    (hready : ∀ n, a = .wrote n → session.out.ready header = true) :
    Midway header session' pc' := by
  cases h with
  | next => exact ⟨nofun, hmid.owes⟩
  | wrote hdr payload sent n hwrite hleft =>
      have hyes := hready n rfl
      obtain ⟨hpos, -, -⟩ := canWrite_inv hwrite
      refine ⟨fun _ => by rw [ready_sendFrame, hyes], fun _ _ => ?_⟩
      rw [Pumping.rest, if_neg (by omega)]
      exact (framed_sendFrame hF.out hmid hwrite hyes).2
  | written hdr payload sent n hwrite hend =>
      refine ⟨nofun, fun _ _ => ?_⟩
      have howes := (framed_sendFrame hF.out hmid hwrite (hready n rfl)).2
      rwa [hend, List.drop_length] at howes
  | failed => exact ⟨nofun, fun _ hopen => by simp [Session.fail, Outlet.fail] at hopen⟩

/-- A piece of the handshake reply. -/
theorem greeting_piece {sent n : Nat} (hgreeting : Greeting header session sent) :
    session.out.wire ++ Source.greeting.tag ((header.drop sent).take n) =
      Source.greeting.tag (header.take (sent + n)) := by
  rw [hgreeting.1, ← tag_append, List.take_add]

/-! ## One step of the server -/

/-- The output of session `k`, and of the threads that write it. -/
structure OutputAt (header : Bytes) (k : Nat) (s : Shared) (threads : List Thread) : Prop where
  session : ∀ session, s.made[k]? = some session → session.Framed header
  pump : ∀ pc, Thread.writePump k pc ∈ threads →
    ∃ session, s.made[k]? = some session ∧ Midway header session pc
  greeting : ∀ sent, Thread.wrapped k (.writeHandshake sent) ∈ threads →
    ∃ session, s.made[k]? = some session ∧ Greeting header session sent

/-- The output of all sessions, and of the threads that write it. -/
structure Output (header : Bytes) (s : Shared) (threads : List Thread) : Prop where
  sessions : ∀ (k : Nat) session, s.made[k]? = some session → session.Framed header
  pumps : ∀ (k : Nat) pc, Thread.writePump k pc ∈ threads →
    ∃ session, s.made[k]? = some session ∧ Midway header session pc
  greetings : ∀ (k : Nat) sent, Thread.wrapped k (.writeHandshake sent) ∈ threads →
    ∃ session, s.made[k]? = some session ∧ Greeting header session sent

theorem Output.at {s : Shared} {threads : List Thread} (h : Output header s threads) (k : Nat) :
    OutputAt header k s threads :=
  ⟨h.sessions k, h.pumps k, h.greetings k⟩

theorem Output.of_at {s : Shared} {threads : List Thread}
    (h : ∀ k, OutputAt header k s threads) : Output header s threads :=
  ⟨fun k => (h k).session, fun k => (h k).pump, fun k => (h k).greeting⟩

/-- A `WritePump` puts bytes only on a socket whose handshake reply was written. -/
def AfterReply (p : Pool Shared Thread) (ia : Nat × Action) : Prop :=
  ∀ (k : Nat) pc n session, p.threads[ia.1]? = some (.writePump k pc) → ia.2 = .wrote n →
    p.shared.made[k]? = some session → session.out.replied = true

variable {cfg : Config} {k : Nat} {t t' : Thread} {new : List Thread}

/-- What a step does to a session leaves its output framed. -/
theorem Effect.framed (h : Effect cfg k session t a session' t' new)
    (hF : session.Framed cfg.handshakeHeader)
    (hpump : ∀ pc, t = .writePump k pc →
      session.writePumpActive = true ∧ Midway cfg.handshakeHeader session pc)
    (hready : ∀ pc n, t = .writePump k pc → a = .wrote n →
      session.out.ready cfg.handshakeHeader = true)
    (hhandshake : ∀ sent, t = .wrapped k (.writeHandshake sent) →
      session.out.accepted = true ∧ session.out.ready cfg.handshakeHeader = false ∧
        Greeting cfg.handshakeHeader session sent) :
    session'.Framed cfg.handshakeHeader := by
  cases h with
  | keep hsame =>
      obtain ⟨hactive, hout⟩ := hsame
      exact ⟨by rw [hout]; exact hF.out, by rw [hout, hactive]; exact hF.between⟩
  | spawn hidle hactive hout =>
      exact ⟨by rw [hout]; exact hF.out, fun _ _ hbad => nomatch hactive.symm.trans hbad⟩
  | accept hactive hout =>
      exact ⟨by rw [hout]; exact hF.out.accept, by rw [hout, hactive]; exact hF.between⟩
  | greet sent n hwrite hleft =>
      obtain ⟨haccepted, hnot, hgreeting⟩ := hhandshake sent rfl
      obtain ⟨-, hle, -⟩ := canWrite_inv hwrite
      refine ⟨hF.out.greet haccepted hnot ?_ ?_, fun hbad => nomatch hnot.symm.trans hbad⟩
      · rw [greeting_piece hgreeting]
        exact tag_initial _ (List.take_prefix _ _)
      · rw [hgreeting.1, length_tag, List.length_take, List.length_take, List.length_drop]
        have hlt := hgreeting.2
        omega
  | reply sent n hwrite hend =>
      obtain ⟨haccepted, hnot, hgreeting⟩ := hhandshake sent rfl
      have hpiece := greeting_piece hgreeting (n := n)
      rw [hend, List.take_length] at hpiece
      obtain ⟨hframed, howes⟩ := hF.out.greet_reply haccepted hnot hpiece
      exact ⟨hframed, fun _ _ _ => howes⟩
  | replyFailed =>
      exact ⟨hF.out.fail true, fun _ hopen => by simp [Session.fail, Outlet.fail] at hopen⟩
  | pump hmove =>
      obtain ⟨hactive, hmid⟩ := hpump _ rfl
      exact hmove.framed hF hactive hmid fun n => hready _ n rfl

/-- A step that leaves or starts a `WritePump` establishes its outline. -/
theorem Effect.midway {pc : Pumping} (h : Effect cfg k session t a session' t' new)
    (hF : session.Framed cfg.handshakeHeader)
    (hpump : ∀ pc, t = .writePump k pc → Midway cfg.handshakeHeader session pc)
    (hready : ∀ pc n, t = .writePump k pc → a = .wrote n →
      session.out.ready cfg.handshakeHeader = true)
    (hpc : t' = .writePump k pc ∨ Thread.writePump k pc ∈ new) :
    Midway cfg.handshakeHeader session' pc := by
  have hself : (Thread.writePump k pc).pumps k = 1 := by simp [Thread.pumps]
  cases h with
  | keep _ _ ht' hnew =>
      rcases hpc with rfl | hpc
      · cases hself.symm.trans ht'
      · cases hself.symm.trans (hnew _ hpc)
  | spawn hidle _ hout =>
      obtain rfl : pc = .next := by simpa using hpc
      refine ⟨by simp [Pumping.midFrame], ?_⟩
      rw [hout]
      exact fun hyes hopen => hF.between hyes hopen hidle
  | accept | greet | reply | replyFailed => simp at hpc
  | @pump _ _ _ pc' hmove =>
      obtain rfl : pc' = some pc := by
        cases pc' with
        | none => simp [pumpAt] at hpc
        | some pc' => simpa [pumpAt] using hpc
      exact hmove.midway hF (hpump _ rfl) fun n => hready _ n rfl

/-- A step that enters or goes on with the handshake reply. -/
theorem Move.greeting {s s' : Shared} {sent : Nat}
    (h : Move cfg s t a s' (.wrapped k (.writeHandshake sent)) new)
    (ht : t.Handshake cfg.handshakeHeader s.made)
    (hframed : ∀ session, s.made[k]? = some session → session.Framed cfg.handshakeHeader)
    (hgreeting : ∀ sent session, t = .wrapped k (.writeHandshake sent) →
      s.made[k]? = some session → Greeting cfg.handshakeHeader session sent) :
    ∃ session', s'.made[k]? = some session' ∧ Greeting cfg.handshakeHeader session' sent := by
  cases h with
  | handshakeOK hsession | answerYes hsession =>
      obtain ⟨hheader, session, hk, hnot, -⟩ := ht
      cases hk.symm.trans hsession
      refine ⟨_, getElem?_set_of_some _ hsession, ?_, List.length_pos_iff.mpr hheader⟩
      rw [List.take_zero, tag_nil]
      exact ((hframed _ hsession).out.unaccepted hheader hnot).2
  | greet sent n hsession hwrite hleft =>
      have hold := hgreeting sent _ rfl hsession
      obtain ⟨-, hle, -⟩ := canWrite_inv hwrite
      have hlt := hold.2
      exact ⟨_, getElem?_set_of_some _ hsession, greeting_piece hold, by omega⟩

/-- The `WritePump` keeps its outline when another thread moves. -/
theorem Effect.midway_frame {pc : Pumping} (h : Effect cfg k session t a session' t' new)
    (hF : session.Framed cfg.handshakeHeader) (hactive : session.writePumpActive = true)
    (ht : t.pumps k = 0)
    (hhandshake : ∀ sent, t = .wrapped k (.writeHandshake sent) →
      session.out.accepted = true ∧ session.out.ready cfg.handshakeHeader = false ∧
        Greeting cfg.handshakeHeader session sent)
    (hmid : Midway cfg.handshakeHeader session pc) :
    Midway cfg.handshakeHeader session' pc := by
  cases h with
  | keep hsame => exact ⟨by rw [hsame.out]; exact hmid.ready, by rw [hsame.out]; exact hmid.owes⟩
  | spawn hidle => cases hactive.symm.trans hidle
  | accept _ hout => exact ⟨by rw [hout]; exact hmid.ready, by rw [hout]; exact hmid.owes⟩
  | greet sent n hwrite =>
      obtain ⟨-, hnot, -⟩ := hhandshake sent rfl
      exact ⟨hmid.ready, fun hbad => nomatch hnot.symm.trans hbad⟩
  | reply sent n hwrite hend =>
      obtain ⟨haccepted, hnot, hgreeting⟩ := hhandshake sent rfl
      refine ⟨fun _ => Outlet.ready_of_replied rfl, fun _ _ => ?_⟩
      have hpiece := greeting_piece hgreeting (n := n)
      rw [hend, List.take_length] at hpiece
      obtain ⟨-, howes⟩ := hF.out.greet_reply haccepted hnot hpiece
      have hrest : pc.rest = [] := by
        cases pc with
        | writing hdr payload sent =>
            by_contra hne
            have hmidFrame : (Pumping.writing hdr payload sent).midFrame = true := by
              by_contra hzero
              simp only [Pumping.midFrame, bne_iff_ne, not_not] at hzero
              exact hne (by rw [Pumping.rest, if_pos hzero])
            cases (hmid.ready hmidFrame).symm.trans hnot
        | next | clear => rfl
      rw [hrest]
      exact howes
  | replyFailed => exact ⟨hmid.ready, fun _ hopen => by simp [Session.fail, Outlet.fail] at hopen⟩
  | pump => simp [Thread.pumps] at ht

/-- The handshake reply is not disturbed by another thread. -/
theorem Effect.greeting_frame {sent : Nat} (h : Effect cfg k session t a session' t' new)
    (ht : t.wraps k = 0) (hnot : session.out.ready cfg.handshakeHeader = false)
    (hready : ∀ pc n, t = .writePump k pc → a = .wrote n →
      session.out.ready cfg.handshakeHeader = true)
    (hgreeting : Greeting cfg.handshakeHeader session sent) :
    Greeting cfg.handshakeHeader session' sent := by
  cases h with
  | keep hsame => exact ⟨by rw [hsame.out]; exact hgreeting.1, hgreeting.2⟩
  | spawn _ _ hout => exact ⟨by rw [hout]; exact hgreeting.1, hgreeting.2⟩
  | accept | greet | reply | replyFailed => simp [Thread.wraps] at ht
  | pump hmove =>
      cases hmove with
      | wrote | written => cases (hready _ _ rfl rfl).symm.trans hnot
      | finish | next | failed | clear => exact hgreeting

theorem Move.new_not_greeting {s s' : Shared} {sent : Nat} (h : Move cfg s t a s' t' new) :
    Thread.wrapped k (.writeHandshake sent) ∉ new := by
  cases h with
  | _ => simp

theorem framed_new (id : UInt64) : Session.Framed header { connectionId := id } := by
  refine ⟨.new, fun hready _ _ => ?_⟩
  obtain rfl : header = [] := by simpa [Outlet.ready] using hready
  rfl

variable {p p' : Pool Shared Thread} {ia : Nat × Action}

/-- A step keeps the output of a session whose `WritePump` waits for the reply. -/
theorem outputAt_keep (hreach : (machine cfg).Reachable initial p)
    (hQ : OutputAt cfg.handshakeHeader k p.shared p.threads) {rest : List Thread}
    (hbefore : p.threads.Perm (t :: rest)) {s' : Shared} (hmove : Move cfg p.shared t a s' t' new)
    (hready : ∀ session, p.shared.made[k]? = some session → ∀ pc n, t = .writePump k pc →
      a = .wrote n → session.out.ready cfg.handshakeHeader = true) :
    OutputAt cfg.handshakeHeader k s' (t' :: (new ++ rest)) := by
  have hmem : t ∈ p.threads := hbefore.mem_iff.mpr List.mem_cons_self
  have hhandshake : ∀ {session : Session}, p.shared.made[k]? = some session → ∀ sent,
      t = .wrapped k (.writeHandshake sent) → session.out.accepted = true ∧
        session.out.ready cfg.handshakeHeader = false ∧
        Greeting cfg.handshakeHeader session sent := by
    rintro session hk sent rfl
    obtain ⟨hheader, session₁, hk₁, haccepted, hnot⟩ := reachable_handshake hreach _ hmem
    obtain ⟨session₂, hk₂, hgreeting⟩ := hQ.greeting sent hmem
    cases hk.symm.trans hk₁
    cases hk.symm.trans hk₂
    exact ⟨haccepted, (Outlet.ready_eq hheader).trans hnot, hgreeting⟩
  have hpumps : ∀ {session : Session}, p.shared.made[k]? = some session → ∀ pc,
      t = .writePump k pc → Midway cfg.handshakeHeader session pc := by
    rintro session hk pc rfl
    obtain ⟨session₁, hk₁, hmid⟩ := hQ.pump pc hmem
    cases hk.symm.trans hk₁
    exact hmid
  refine ⟨fun session' hk' => ?_, fun pc hpc => ?_, fun sent hsent => ?_⟩
  · cases hk : p.shared.made[k]? with
    | none =>
        rw [hmove.new_session hk hk']
        exact framed_new _
    | some session =>
        obtain ⟨next, hnext, heffect⟩ := hmove.effect hk
        cases hk'.symm.trans hnext
        refine heffect.framed (hQ.session session hk) ?_ (hready session hk) (hhandshake hk)
        intro pc hpc
        exact ⟨active_of_pumps hreach hmem (by simp [hpc, Thread.pumps]) hk, hpumps hk pc hpc⟩
  · have hself : (Thread.writePump k pc).pumps k = 1 := by simp [Thread.pumps]
    have hstarted : t' = .writePump k pc ∨ Thread.writePump k pc ∈ new →
        ∃ session, s'.made[k]? = some session ∧ Midway cfg.handshakeHeader session pc := by
      intro hstart
      cases hk : p.shared.made[k]? with
      | none =>
          obtain ⟨ht', hnew⟩ := hmove.pumps_none hk
          rcases hstart with rfl | hstart
          · cases hself.symm.trans ht'
          · cases hself.symm.trans (hnew _ hstart)
      | some session =>
          obtain ⟨next, hnext, heffect⟩ := hmove.effect hk
          exact ⟨next, hnext, heffect.midway (hQ.session session hk) (hpumps hk)
            (hready session hk) hstart⟩
    rcases List.mem_cons.mp hpc with hpc | hpc
    · exact hstarted (Or.inl hpc.symm)
    rcases List.mem_append.mp hpc with hpc | hpc
    · exact hstarted (Or.inr hpc)
    · have hpc' : Thread.writePump k pc ∈ p.threads :=
        hbefore.mem_iff.mpr (List.mem_cons_of_mem t hpc)
      obtain ⟨session, hk, hmid⟩ := hQ.pump pc hpc'
      obtain ⟨next, hnext, heffect⟩ := hmove.effect hk
      exact ⟨next, hnext, heffect.midway_frame (hQ.session session hk)
        (active_of_pumps hreach hpc' hself hk) (pump_unique hreach hbefore hpc hself)
        (hhandshake hk) hmid⟩
  · rcases List.mem_cons.mp hsent with hsent | hsent
    · refine (hsent ▸ hmove).greeting (reachable_handshake hreach t hmem) hQ.session ?_
      rintro sent session rfl hk
      exact (hhandshake hk sent rfl).2.2
    rcases List.mem_append.mp hsent with hsent | hsent
    · exact absurd hsent hmove.new_not_greeting
    · have hsent' : Thread.wrapped k (.writeHandshake sent) ∈ p.threads :=
        hbefore.mem_iff.mpr (List.mem_cons_of_mem t hsent)
      obtain ⟨session, hk, hgreeting⟩ := hQ.greeting sent hsent'
      obtain ⟨next, hnext, heffect⟩ := hmove.effect hk
      obtain ⟨hheader, session₁, hk₁, -, hreplied⟩ := reachable_handshake hreach _ hsent'
      have hnot := (Outlet.ready_eq hheader).trans hreplied
      cases hk.symm.trans hk₁
      refine ⟨next, hnext, heffect.greeting_frame ?_ hnot (hready session hk) hgreeting⟩
      exact wraps_other hreach hbefore hsent (if_pos rfl)

theorem OutputAt.perm {s : Shared} {threads threads' : List Thread}
    (h : OutputAt header k s threads) (hperm : threads.Perm threads') :
    OutputAt header k s threads' :=
  ⟨h.session, fun pc hpc => h.pump pc (hperm.mem_iff.mpr hpc),
    fun sent hsent => h.greeting sent (hperm.mem_iff.mpr hsent)⟩

theorem output_keep (hreach : (machine cfg).Reachable initial p)
    (hQ : Output cfg.handshakeHeader p.shared p.threads) (hok : AfterReply p ia)
    (hstep : (machine cfg).step p ia = some p') :
    Output cfg.handshakeHeader p'.shared p'.threads := by
  obtain ⟨i, a⟩ := ia
  obtain ⟨t, t', new, rest, hplace, hs, hbefore, hafter⟩ := Program.machine_step_at hstep
  refine .of_at fun k => (outputAt_keep hreach (hQ.at k) hbefore (step_move hs).2 ?_).perm
    hafter.symm
  rintro session hk pc n rfl rfl
  exact Outlet.ready_of_replied (hok k pc n session hplace rfl hk)

/-! ## Whole runs -/

/-- The thread is the `WritePump` of session `k` inside a frame. -/
def Thread.midFrame (k : Nat) : Thread → Bool
  | .writePump j pc => j == k && pc.midFrame
  | _ => false

/-- The output of every session is well framed; a session is idle when its socket has
    not failed, its reply is not being written and its `WritePump` is not inside a
    frame. -/
def OutputFramed (header : Bytes) (p : Pool Shared Thread) : Prop :=
  ∀ (k : Nat) session, p.shared.made[k]? = some session →
    session.out.WellFramed encodeFrame header
      (session.out.failed = false ∧ session.out.accepted = session.out.replied ∧
        ∀ t ∈ p.threads, t.midFrame k = false)

theorem outputFramed_of_output (hheader : header ≠ [])
    (hreach : (machine cfg).Reachable initial p)
    (hQ : Output header p.shared p.threads) : OutputFramed header p := by
  intro k session hk
  have hF := hQ.sessions k session hk
  refine hF.out.wellFramed hheader ?_
  rintro ⟨hopen, hsame, hnone⟩
  cases haccepted : session.out.accepted with
  | false => exact Or.inl rfl
  | true =>
      have hready : session.out.ready header = true :=
        Outlet.ready_of_replied (hsame.symm.trans haccepted)
      right
      cases hactive : session.writePumpActive with
      | false => exact hF.between hready hopen hactive
      | true =>
          obtain ⟨pc, hpc⟩ := exists_pump hreach hk hactive
          obtain ⟨session₁, hk₁, hmid⟩ := hQ.pumps k pc hpc
          cases hk.symm.trans hk₁
          have hidle := hnone _ hpc
          have howes := hmid.owes hready hopen
          cases pc with
          | writing hdr payload sent =>
              simp only [Thread.midFrame, beq_self_eq_true, Bool.true_and, Pumping.midFrame,
                bne_eq_false_iff_eq] at hidle
              rwa [Pumping.rest, if_pos hidle] at howes
          | next | clear => exact howes

/-- Bytes of a frame before the reply spoil the output. -/
theorem PumpMove.early {pc : Pumping} {pc' : Option Pumping} {n : Nat} {idle : Prop}
    (h : PumpMove session pc (.wrote n) session' pc') (hF : session.Framed header)
    (hnot : session.out.ready header = false) :
    ¬ session'.out.WellFramed encodeFrame header idle := by
  cases h with
  | wrote hdr payload sent n hwrite | written hdr payload sent n hwrite =>
      obtain ⟨hpos, hle, hopen⟩ := canWrite_inv hwrite
      have hpiece := piece_ne_nil hpos hle
      refine hF.out.not_wellFramed hnot hopen hpiece ?_
      simp only [Session.sendFrame]
      split
      · simp [Outlet.start, hpiece]
      · rfl

/-- A `WritePump` that writes. -/
theorem Move.pump_wrote {s s' : Shared} {pc : Pumping} {n : Nat}
    (h : Move cfg s (.writePump k pc) (.wrote n) s' t' new) (hk : s.made[k]? = some session) :
    ∃ next pc', s'.made[k]? = some next ∧ PumpMove session pc (.wrote n) next pc' := by
  cases h with
  | pumpWrote hdr payload sent n hsession hwrite hleft =>
      cases hk.symm.trans hsession
      exact ⟨_, _, getElem?_set_of_some _ hk, .wrote hdr payload sent n hwrite hleft⟩
  | pumpWritten hdr payload sent n hsession hwrite hend =>
      cases hk.symm.trans hsession
      exact ⟨_, _, getElem?_set_of_some _ hk, .written hdr payload sent n hwrite hend⟩

theorem output_break (hheader : cfg.handshakeHeader ≠ [])
    (hQ : Output cfg.handshakeHeader p.shared p.threads) (hbad : ¬ AfterReply p ia)
    (hstep : (machine cfg).step p ia = some p') :
    ¬ OutputFramed cfg.handshakeHeader p' := by
  obtain ⟨i, a⟩ := ia
  obtain ⟨t, t', new, rest, hplace, hs, -⟩ := Program.machine_step_at hstep
  have hmove : Move cfg p.shared t a p'.shared t' new := (step_move hs).2
  simp only [AfterReply, not_forall, Bool.not_eq_true] at hbad
  obtain ⟨k, pc, n, session, hpump, rfl, hk, hnot⟩ := hbad
  cases hplace.symm.trans hpump
  obtain ⟨next, pc', hnext, hwrote⟩ := hmove.pump_wrote hk
  intro hall
  exact hwrote.early (hQ.sessions k session hk) ((Outlet.ready_eq hheader).trans hnot)
    (hall k next hnext)

/-- The output of every session is well framed in all states of a run exactly when
    every `WritePump` of the run waits for the reply. -/
theorem outputFramed_iff_afterReply (hheader : cfg.handshakeHeader ≠ [])
    {acts : List (Nat × Action)} (hrun : (machine cfg).run initial acts = some p) :
    (∀ u ∈ (machine cfg).visited initial acts, OutputFramed cfg.handshakeHeader u) ↔
      (machine cfg).Meets AfterReply initial acts := by
  refine Machine.forall_visited_iff_meets (I := (machine cfg).Reachable initial)
    (Q := fun u => Output cfg.handshakeHeader u.shared u.threads) ?_ ?_ ?_ ?_ ?_ ?_ hrun
  · intro u ia u' hu hstep
    exact hu.tail hstep
  · intro u ia u' hu hQ hok hstep
    exact output_keep hu hQ hok hstep
  · intro u hu hQ
    exact outputFramed_of_output hheader hu hQ
  · intro u ia u' _ hQ hbad hstep
    exact output_break hheader hQ hbad hstep
  · exact Machine.Reachable.refl _
  · refine ⟨nofun, ?_, ?_⟩ <;> simp [initial]

end Protocomm.Cpp.Server
