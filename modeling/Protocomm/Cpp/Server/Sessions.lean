import Protocomm.Cpp.Server.Moves
import Protocomm.Misc.Slots

/-!
# The sessions of the C++ server

What a step does to the output of one session, its one `WritePump`, and the one
`wrapped` coroutine around its `Run`: it accepts the handshake before it replies, and
serves requests after.
-/

namespace Protocomm.Cpp.Server

open Misc

/-- The thread is the `WritePump` of session `k`. -/
def Thread.pumps (k : Nat) : Thread → Nat
  | .writePump j _ => if j = k then 1 else 0
  | _ => 0

/-- The thread is about to start, or is, the `wrapped` coroutine of session `k`. -/
def Thread.wraps (k : Nat) : Thread → Nat
  | .acceptLoop (.insert j) | .wrapped j _ => if j = k then 1 else 0
  | _ => 0

/-- What the output of a session depends on is the same. -/
structure Session.SameOutput (session session' : Session) : Prop where
  active : session'.writePumpActive = session.writePumpActive
  out : session'.out = session.out

/-- A step of the `WritePump`; no place is left when it ends. -/
inductive PumpMove (session : Session) : Pumping → Action → Session → Option Pumping → Prop
  | finish (hqueue : session.writeQueue = []) :
      PumpMove session .next .run { session with writePumpActive := false } none
  | next (hdr : FrameHeader) (payload : Bytes) (rest : List (FrameHeader × Bytes))
      (hqueue : session.writeQueue = (hdr, payload) :: rest) :
      PumpMove session .next .run { session with writeQueue := rest }
        (some (.writing hdr payload 0))
  | wrote (hdr : FrameHeader) (payload : Bytes) (sent n : Nat)
      (hwrite : session.canWrite ((writeFrame hdr payload).length - sent) n = true)
      (hleft : sent + n ≠ (writeFrame hdr payload).length) :
      PumpMove session (.writing hdr payload sent) (.wrote n)
        (session.sendFrame hdr payload sent n) (some (.writing hdr payload (sent + n)))
  | written (hdr : FrameHeader) (payload : Bytes) (sent n : Nat)
      (hwrite : session.canWrite ((writeFrame hdr payload).length - sent) n = true)
      (hend : sent + n = (writeFrame hdr payload).length) :
      PumpMove session (.writing hdr payload sent) (.wrote n)
        (session.sendFrame hdr payload sent n) (some .next)
  | failed (hdr : FrameHeader) (payload : Bytes) (sent : Nat) :
      PumpMove session (.writing hdr payload sent) .writeFailed session.fail (some .clear)
  | clear :
      PumpMove session .clear .run { session with writeQueue := [], writePumpActive := false } none

/-- The thread at a place of the `WritePump` of session `k`. -/
def pumpAt (k : Nat) : Option Pumping → Thread
  | some pc => .writePump k pc
  | none => .done

/-- What a step of a thread does to the output of session `k`. -/
inductive Effect (cfg : Config) (k : Nat) (session : Session) :
    Thread → Action → Session → Thread → List Thread → Prop
  | keep {t t' : Thread} {a : Action} {session' : Session} {new : List Thread}
      (hsame : session.SameOutput session') (ht : t.pumps k = 0) (ht' : t'.pumps k = 0)
      (hnew : ∀ v ∈ new, v.pumps k = 0) : Effect cfg k session t a session' t' new
  | spawn {a : Action} {session' : Session} (hidle : session.writePumpActive = false)
      (hactive : session'.writePumpActive = true) (hout : session'.out = session.out) :
      Effect cfg k session .io a session' .io [.writePump k .next]
  | accept {pc pc' : Running} {a : Action} {session' : Session}
      (hactive : session'.writePumpActive = session.writePumpActive)
      (hout : session'.out = session.out.accept) :
      Effect cfg k session (.wrapped k pc) a session' (.wrapped k pc') []
  | greet (sent n : Nat)
      (hwrite : session.canWrite (cfg.handshakeHeader.length - sent) n = true)
      (hleft : sent + n ≠ cfg.handshakeHeader.length) :
      Effect cfg k session (.wrapped k (.writeHandshake sent)) (.wrote n)
        (session.greet cfg.handshakeHeader sent n) (.wrapped k (.writeHandshake (sent + n))) []
  | reply (sent n : Nat)
      (hwrite : session.canWrite (cfg.handshakeHeader.length - sent) n = true)
      (hend : sent + n = cfg.handshakeHeader.length) :
      Effect cfg k session (.wrapped k (.writeHandshake sent)) (.wrote n)
        { session.greet cfg.handshakeHeader sent n with
          out := (session.greet cfg.handshakeHeader sent n).out.reply } (.wrapped k .read) []
  | replyFailed (sent : Nat) :
      Effect cfg k session (.wrapped k (.writeHandshake sent)) .writeFailed session.fail
        (.wrapped k .onDisconnect) []
  | pump {pc : Pumping} {a : Action} {session' : Session} {pc' : Option Pumping}
      (hpump : PumpMove session pc a session' pc') :
      Effect cfg k session (.writePump k pc) a session' (pumpAt k pc') []

variable {cfg : Config} {s s' : Shared} {t t' : Thread} {a : Action} {new : List Thread}
  {k : Nat} {session session' : Session}

theorem Session.SameOutput.refl (session : Session) : session.SameOutput session := ⟨rfl, rfl⟩

theorem pumps_other {j : Nat} (pc : Option Pumping) (hj : j ≠ k) : (pumpAt j pc).pumps k = 0 := by
  cases pc with
  | none => rfl
  | some pc => simp [pumpAt, Thread.pumps, hj]

/-- A step has one of the listed effects on each session. -/
theorem Move.effect (h : Move cfg s t a s' t' new) (hk : s.made[k]? = some session) :
    ∃ session', s'.made[k]? = some session' ∧ Effect cfg k session t a session' t' new := by
  have quiet : ∀ {t t' : Thread} {a : Action} {new : List Thread}, t.pumps k = 0 →
      t'.pumps k = 0 → (∀ v ∈ new, v.pumps k = 0) → Effect cfg k session t a session t' new :=
    fun ht ht' hnew => .keep (.refl session) ht ht' hnew
  have hnil : ∀ v ∈ ([] : List Thread), v.pumps k = 0 := List.forall_mem_nil _
  have pump : ∀ {j : Nat} {old next : Session} {pc : Pumping} {pc' : Option Pumping} {a : Action},
      s.made[j]? = some old → PumpMove old pc a next pc' →
      ∃ session', (s.setSession j next).made[k]? = some session' ∧
        Effect cfg k session (.writePump j pc) a session' (pumpAt j pc') [] := by
    intro j old next pc pc' a hold hmove
    refine exists_getElem?_set hold hk (fun hj hsame => ?_) fun hj => ?_
    · subst hj hsame
      exact .pump hmove
    · exact quiet (pumps_other (some pc) hj) (pumps_other pc' hj) hnil
  cases h with
  | accept =>
      exact ⟨session, List.getElem?_append_left (List.getElem?_eq_some_iff.mp hk).1 ▸ hk,
        quiet rfl rfl hnil⟩
  | send _ _ hsession | close hsession | pick _ _ _ _ _ hsession
  | enqueue _ _ _ hsession | closeSocket _ hsession | handshakeMismatch _ hsession
  | handshakeAsk hsession | readOther _ _ hsession | read _ _ hsession | respond _ _ hsession =>
      refine exists_getElem?_set hsession hk (fun _ hsame => ?_) fun _ => quiet rfl rfl hnil
      subst hsame
      exact .keep ⟨rfl, rfl⟩ rfl rfl hnil
  | insert hsession =>
      refine exists_getElem?_set hsession hk (fun _ hsame => ?_) fun _ => ?_
      · subst hsame
        exact .keep ⟨rfl, rfl⟩ rfl rfl (by simp [Thread.pumps])
      · exact quiet rfl rfl (by simp [Thread.pumps])
  | enqueueSpawn _ _ _ hsession _ hidle =>
      refine exists_getElem?_set hsession hk (fun hj hsame => ?_) fun hj => ?_
      · subst hj hsame
        exact .spawn hidle rfl rfl
      · exact quiet rfl rfl (by simp [Thread.pumps, hj])
  | connectNoHeader hsession | handshakeOK hsession | answerYes hsession =>
      refine exists_getElem?_set hsession hk (fun hj hsame => ?_) fun _ => quiet rfl rfl hnil
      subst hj hsame
      exact .accept rfl rfl
  | greet sent n hsession hwrite hleft =>
      refine exists_getElem?_set hsession hk (fun hj hsame => ?_) fun _ => quiet rfl rfl hnil
      subst hj hsame
      exact .greet sent n hwrite hleft
  | reply sent n hsession hwrite hend =>
      refine exists_getElem?_set hsession hk (fun hj hsame => ?_) fun _ => quiet rfl rfl hnil
      subst hj hsame
      exact .reply sent n hwrite hend
  | replyFailed sent hsession =>
      refine exists_getElem?_set hsession hk (fun hj hsame => ?_) fun _ => quiet rfl rfl hnil
      subst hj hsame
      exact .replyFailed sent
  | pumpEnd hsession hqueue => exact pump hsession (.finish hqueue)
  | pumpNext hdr payload rest hsession hqueue => exact pump hsession (.next hdr payload rest hqueue)
  | pumpWrote hdr payload sent n hsession hwrite hleft =>
      exact pump hsession (.wrote hdr payload sent n hwrite hleft)
  | pumpWritten hdr payload sent n hsession hwrite hend =>
      exact pump hsession (.written hdr payload sent n hwrite hend)
  | pumpFailed hdr payload sent hsession => exact pump hsession (.failed hdr payload sent)
  | pumpClear hsession => exact pump hsession .clear
  | broadcast => exact ⟨session, hk, quiet rfl rfl (by simp [Thread.pumps])⟩
  | _ => exact ⟨session, hk, quiet rfl rfl hnil⟩

/-- Only `async_accept` makes a session. -/
theorem Move.length_made (h : Move cfg s t a s' t' new) :
    s'.made.length = s.made.length ∨
      (t = .acceptLoop .accept ∧ t' = .acceptLoop (.insert s.made.length) ∧ new = [] ∧
        s'.made = s.made ++ [{ connectionId := s.nextConnectionId }]) := by
  cases h with
  | accept => exact Or.inr ⟨rfl, rfl, rfl, rfl⟩
  | _ => exact Or.inl (by simp [Shared.setSession, Shared.setResult])

/-- A session that was not there is a new one. -/
theorem Move.new_session (h : Move cfg s t a s' t' new) (hk : s.made[k]? = none)
    (hk' : s'.made[k]? = some session) : session = { connectionId := s.nextConnectionId } := by
  have hle := List.getElem?_eq_none_iff.mp hk
  rcases h.length_made with hlen | ⟨-, -, -, hmade⟩
  · have hlt := (List.getElem?_eq_some_iff.mp hk').1
    omega
  · rw [hmade, List.getElem?_append_right hle, List.getElem?_singleton] at hk'
    split at hk' <;> cases hk'
    rfl

/-! ## One `wrapped` coroutine -/

def Shared.accepts (k : Nat) (s : Shared) : Nat := if k < s.made.length then 1 else 0

/-- Other than `async_accept` no step makes a `wrapped` coroutine. -/
theorem Move.wraps_le (h : Move cfg s t a s' t' new) (hlen : s'.made.length = s.made.length)
    (k : Nat) : t'.wraps k + (new.map (Thread.wraps k)).sum ≤ t.wraps k := by
  cases h with
  | accept => simp at hlen
  | _ => simp [Thread.wraps]

theorem accepts_concat (s : Shared) (session : Session) (k : Nat) {s' : Shared}
    (hmade : s'.made = s.made ++ [session]) :
    s'.accepts k = s.accepts k + if s.made.length = k then 1 else 0 := by
  simp only [Shared.accepts, hmade, List.length_append, List.length_singleton]
  split <;> split <;> split <;> omega

variable {p : Pool Shared Thread} {rest : List Thread}

theorem reachable_wraps (k : Nat) (hreach : (machine cfg).Reachable initial p) :
    Program.owned (fun _ => 0) (Thread.wraps k) p.shared p.threads ≤ p.shared.accepts k := by
  refine Program.reachable_owned_le (P := program cfg) _ _ (Shared.accepts k) ?_ ?_ hreach
  · simp [Program.owned, initial, Thread.wraps]
  · intro u _ s' t t' new a hs
    have hmove := (step_move hs).2
    rcases hmove.length_made with hlen | ⟨rfl, rfl, rfl, hmade⟩
    · refine ⟨0, by simp only [Shared.accepts, hlen, Nat.add_zero], ?_⟩
      have hle := hmove.wraps_le hlen k
      omega
    · exact ⟨_, accepts_concat _ _ k hmade, by simp [Thread.wraps]⟩

/-- A session has one `wrapped` coroutine. -/
theorem wraps_unique (hreach : (machine cfg).Reachable initial p)
    (hperm : p.threads.Perm (t :: rest)) (ht : t.wraps k = 1) : ∀ v ∈ rest, v.wraps k = 0 := by
  intro v hv
  have hone : p.shared.accepts k ≤ 1 := by
    unfold Shared.accepts
    split <;> omega
  exact Program.owned_unique ((reachable_wraps k hreach).trans hone) hperm ht hv

theorem wraps_eq_one (h : t.wraps k ≠ 0) : t.wraps k = 1 := by
  revert h
  unfold Thread.wraps
  split <;> simp

theorem eq_of_wraps {j : Nat} {pc : Running} (h : (Thread.wrapped j pc).wraps k = 1) : j = k := by
  by_contra hne
  simp [Thread.wraps, hne] at h

theorem eq_of_pumps {j : Nat} {pc : Pumping} (h : (Thread.writePump j pc).pumps k = 1) :
    j = k := by
  by_contra hne
  simp [Thread.pumps, hne] at h

theorem wraps_other {v : Thread} (hreach : (machine cfg).Reachable initial p)
    (hperm : p.threads.Perm (t :: rest)) (hv : v ∈ rest) (hwraps : v.wraps k = 1) :
    t.wraps k = 0 := by
  by_contra hne
  have hzero := wraps_unique hreach hperm (wraps_eq_one hne) v hv
  omega

/-- A session that was not made has no `wrapped`. -/
theorem wraps_eq_zero (hreach : (machine cfg).Reachable initial p) (hk : p.shared.made[k]? = none)
    (ht : t ∈ p.threads) : t.wraps k = 0 := by
  have hle := (Program.add_le_owned ht).trans (reachable_wraps k hreach)
  have hnone : p.shared.accepts k = 0 :=
    if_neg (Nat.not_lt.mpr (List.getElem?_eq_none_iff.mp hk))
  omega

/-! ## One `WritePump` -/

/-- No `WritePump` of session `k` is active. -/
def Shared.inactive (k : Nat) (s : Shared) : Nat :=
  match s.made[k]? with
  | some session => (!session.writePumpActive).toNat
  | none => 1

theorem PumpMove.inactive {pc : Pumping} {pc' : Option Pumping}
    (h : PumpMove session pc a session' pc') (hactive : session.writePumpActive = true) :
    (!session'.writePumpActive).toNat + (pumpAt k pc').pumps k = 1 := by
  cases h with
  | finish | clear => simp [pumpAt, Thread.pumps]
  | next | wrote | written | failed =>
      simp [pumpAt, Thread.pumps, hactive, Session.sendFrame, Session.fail]

theorem Effect.inactive (h : Effect cfg k session t a session' t' new)
    (hactive : 0 < t.pumps k → session.writePumpActive = true) :
    (!session'.writePumpActive).toNat + (t'.pumps k + (new.map (Thread.pumps k)).sum) =
      (!session.writePumpActive).toNat + t.pumps k := by
  cases h with
  | keep hsame ht ht' hnew =>
      rw [hsame.active, ht, ht', List.sum_eq_zero (List.forall_mem_map.mpr hnew), Nat.add_zero]
  | spawn hidle hactive => simp [hidle, hactive, Thread.pumps]
  | accept hactive => simp [hactive, Thread.pumps]
  | greet | reply | replyFailed => rfl
  | pump hpump =>
      have hrun : session.writePumpActive = true := hactive (by simp [Thread.pumps])
      rw [List.map_nil, List.sum_nil, Nat.add_zero, hpump.inactive hrun]
      simp [hrun, Thread.pumps]

/-- A session that does not exist has no `WritePump`. -/
theorem Move.pumps_none (h : Move cfg s t a s' t' new) (hk : s.made[k]? = none) :
    t'.pumps k = 0 ∧ ∀ v ∈ new, v.pumps k = 0 := by
  have hnil : ∀ v ∈ ([] : List Thread), v.pumps k = 0 := List.forall_mem_nil _
  have other : ∀ {j : Nat} {session : Session}, s.made[j]? = some session → j ≠ k := by
    rintro j session hsession rfl
    cases hk.symm.trans hsession
  cases h with
  | enqueueSpawn _ _ _ hsession => exact ⟨rfl, by simp [Thread.pumps, other hsession]⟩
  | pumpNext _ _ _ hsession | pumpWrote _ _ _ _ hsession | pumpWritten _ _ _ _ hsession
  | pumpFailed _ _ _ hsession => exact ⟨by simp [Thread.pumps, other hsession], hnil⟩
  | broadcast | insert => exact ⟨rfl, by simp [Thread.pumps]⟩
  | _ => exact ⟨rfl, hnil⟩

/-- A session has one `WritePump` while `write_pump_active_` is set, and none else. -/
theorem reachable_pumps (k : Nat) (hreach : (machine cfg).Reachable initial p) :
    Program.owned (Shared.inactive k) (Thread.pumps k) p.shared p.threads = 1 := by
  refine Program.reachable_owned (P := program cfg) _ _ (fun _ => 1) rfl ?_ hreach
  intro u _ s' t t' new rest a _ howned hs
  have hmove := (step_move hs).2
  simp only [Program.owned, List.map_cons, List.sum_cons] at howned
  refine ⟨0, rfl, ?_⟩
  rw [Nat.add_zero]
  cases hk : u.shared.made[k]? with
  | none =>
      have hfree : s'.inactive k = 1 := by
        cases hk' : s'.made[k]? with
        | none => simp only [Shared.inactive, hk']
        | some session' =>
            simp only [Shared.inactive, hk', hmove.new_session hk hk']
            rfl
      have hbefore : u.shared.inactive k = 1 := by simp only [Shared.inactive, hk]
      obtain ⟨ht', hnew⟩ := hmove.pumps_none hk
      have hsum := List.sum_eq_zero (List.forall_mem_map.mpr hnew)
      omega
  | some session =>
      obtain ⟨session', hk', heffect⟩ := hmove.effect hk
      simp only [Shared.inactive, hk, hk'] at howned ⊢
      refine heffect.inactive fun hpos => ?_
      by_contra hfree
      rw [Bool.not_eq_true] at hfree
      simp only [hfree, Bool.not_false, Bool.toNat_true] at howned
      omega

/-- The `WritePump` of a session finds `write_pump_active_` set. -/
theorem active_of_pumps {v : Thread} (hreach : (machine cfg).Reachable initial p)
    (hv : v ∈ p.threads) (hpump : v.pumps k = 1) (hk : p.shared.made[k]? = some session) :
    session.writePumpActive = true := by
  have hle := (Program.add_le_owned hv).trans (reachable_pumps k hreach).le
  by_contra hfree
  simp [Shared.inactive, hk, hpump, hfree] at hle

/-- There is no second `WritePump`. -/
theorem pump_unique {v : Thread} (hreach : (machine cfg).Reachable initial p)
    (hperm : p.threads.Perm (t :: rest)) (hv : v ∈ rest) (hpump : v.pumps k = 1) :
    t.pumps k = 0 := by
  have hle := (Program.add_add_le_owned hperm hv).trans (reachable_pumps k hreach).le
  omega

theorem exists_pump (hreach : (machine cfg).Reachable initial p)
    (hk : p.shared.made[k]? = some session) (hactive : session.writePumpActive = true) :
    ∃ pc, Thread.writePump k pc ∈ p.threads := by
  have howned := reachable_pumps k hreach
  simp only [Program.owned, Shared.inactive, hk, hactive, Bool.not_true, Bool.toNat_false]
    at howned
  obtain ⟨t, ht, hpos⟩ := exists_of_sum_pos (f := Thread.pumps k) (l := p.threads) (by omega)
  have hle := le_sum_map (f := Thread.pumps k) ht
  cases t with
  | writePump j pc =>
      have hone : (Thread.writePump j pc).pumps k = 1 := by omega
      obtain rfl := eq_of_pumps hone
      exact ⟨pc, ht⟩
  | _ => cases hpos

/-! ## The handshake -/

/-- The handshake of session `k` is not over; `accepted` tells how far it is. -/
def Unreplied (made : List Session) (k : Nat) (accepted : Bool) : Prop :=
  ∃ session, made[k]? = some session ∧ session.out.accepted = accepted ∧
    session.out.replied = false

/-- The handshake of session `k` is over, or there is none. -/
def Ready (header : Bytes) (made : List Session) (k : Nat) : Prop :=
  ∃ session, made[k]? = some session ∧ session.out.ready header = true

/-- What `Run` knows about the handshake of its session. -/
def Running.Handshake (header : Bytes) (made : List Session) (k : Nat) : Running → Prop
  | .onConnect => Unreplied made k false
  | .readHandshake | .onHandshake => header ≠ [] ∧ Unreplied made k false
  | .writeHandshake _ => header ≠ [] ∧ Unreplied made k true
  | .read | .lookup _ _ | .running _ _ | .respond _ _ => Ready header made k
  | _ => True

/-- What `AcceptLoop` knows about the handshake of its session. -/
def Accepting.Handshake (made : List Session) : Accepting → Prop
  | .accept => True
  | .insert k => Unreplied made k false

/-- What a thread knows about the handshake of its session. -/
def Thread.Handshake (header : Bytes) (made : List Session) : Thread → Prop
  | .acceptLoop pc => pc.Handshake made
  | .wrapped k pc => pc.Handshake header made k
  | _ => True

theorem PumpMove.flags {pc : Pumping} {pc' : Option Pumping}
    (h : PumpMove session pc a session' pc') :
    session'.out.accepted = session.out.accepted ∧ session'.out.replied = session.out.replied := by
  cases h with
  | finish | next | clear | failed => exact ⟨rfl, rfl⟩
  | wrote | written =>
      simp only [Session.sendFrame]
      split <;> simp [Outlet.more]

/-- The flags of a session change only by its own `wrapped` coroutine. -/
theorem Effect.flags (h : Effect cfg k session t a session' t' new) (ht : t.wraps k = 0) :
    session'.out.accepted = session.out.accepted ∧ session'.out.replied = session.out.replied := by
  cases h with
  | keep hsame => simp [hsame.out]
  | spawn _ _ hout => simp [hout]
  | accept | greet | reply | replyFailed => simp [Thread.wraps] at ht
  | pump hpump => exact hpump.flags

theorem Effect.ready_mono {header : Bytes} (h : Effect cfg k session t a session' t' new)
    (hready : session.out.ready header = true) : session'.out.ready header = true := by
  cases h with
  | keep hsame => rw [hsame.out, hready]
  | spawn _ _ hout => rw [hout, hready]
  | accept _ hout => rw [hout]; exact hready
  | greet | replyFailed => exact hready
  | reply => exact Outlet.ready_of_replied rfl
  | pump hpump => rwa [Outlet.ready, hpump.flags.2]

theorem Unreplied.frame {accepted : Bool} (hk : Unreplied s.made k accepted)
    (h : Move cfg s t a s' t' new) (ht : t.wraps k = 0) : Unreplied s'.made k accepted := by
  obtain ⟨session, hsession, haccepted, hreplied⟩ := hk
  obtain ⟨session', hsession', heffect⟩ := h.effect hsession
  obtain ⟨ha, hr⟩ := heffect.flags ht
  exact ⟨session', hsession', ha.trans haccepted, hr.trans hreplied⟩

theorem Ready.mono {header : Bytes} (hk : Ready header s.made k)
    (h : Move cfg s t a s' t' new) : Ready header s'.made k := by
  obtain ⟨session, hsession, hready⟩ := hk
  obtain ⟨session', hsession', heffect⟩ := h.effect hsession
  exact ⟨session', hsession', heffect.ready_mono hready⟩

/-- Other threads keep what they know. -/
theorem Thread.Handshake.frame {v : Thread} {header : Bytes} (hv : v.Handshake header s.made)
    (h : Move cfg s t a s' t' new) (hunique : ∀ k, v.wraps k = 1 → t.wraps k = 0) :
    v.Handshake header s'.made := by
  have hkeep : ∀ {k accepted}, v.wraps k = 1 → Unreplied s.made k accepted →
      Unreplied s'.made k accepted := fun hk hold => hold.frame h (hunique _ hk)
  cases v with
  | acceptLoop pc =>
      cases pc with
      | accept => trivial
      | insert k => exact hkeep (if_pos rfl) hv
  | wrapped k pc =>
      cases pc with
      | onConnect => exact hkeep (if_pos rfl) hv
      | readHandshake | onHandshake | writeHandshake => exact ⟨hv.1, hkeep (if_pos rfl) hv.2⟩
      | read | lookup | running | respond => exact Ready.mono hv h
      | _ => trivial
  | _ => trivial

/-- A step of a thread establishes what it and the threads it starts know. -/
theorem Move.handshake (h : Move cfg s t a s' t' new)
    (ht : t.Handshake cfg.handshakeHeader s.made) :
    t'.Handshake cfg.handshakeHeader s'.made ∧
      ∀ v ∈ new, v.Handshake cfg.handshakeHeader s'.made := by
  have hnil : ∀ v ∈ ([] : List Thread), v.Handshake cfg.handshakeHeader s'.made :=
    List.forall_mem_nil _
  have hmono : ∀ {k}, Ready cfg.handshakeHeader s.made k → Ready cfg.handshakeHeader s'.made k :=
    fun hk => hk.mono h
  have hset : ∀ {k : Nat} {session next : Session}, s.made[k]? = some session →
      (s.setSession k next).made[k]? = some next := fun hk => getElem?_set_of_some _ hk
  cases h with
  | accept => exact ⟨⟨_, List.getElem?_concat_length, rfl, rfl⟩, hnil⟩
  | insert hsession =>
      obtain ⟨session, hk, haccepted, hreplied⟩ := ht
      obtain rfl := Option.some.inj (hk.symm.trans hsession)
      exact ⟨trivial, List.forall_mem_singleton.mpr ⟨_, hset hsession, haccepted, hreplied⟩⟩
  | connectNoHeader hsession hnone => exact ⟨⟨_, hset hsession, by rw [hnone]; rfl⟩, hnil⟩
  | connect k hheader => exact ⟨⟨hheader, ht⟩, hnil⟩
  | handshakeAsk hsession | greet sent n hsession =>
      obtain ⟨hheader, session, hk, haccepted, hreplied⟩ := ht
      obtain rfl := Option.some.inj (hk.symm.trans hsession)
      exact ⟨⟨hheader, _, hset hsession, haccepted, hreplied⟩, hnil⟩
  | handshakeOK hsession | answerYes hsession =>
      obtain ⟨hheader, session, hk, -, hreplied⟩ := ht
      obtain rfl := Option.some.inj (hk.symm.trans hsession)
      exact ⟨⟨hheader, _, hset hsession, rfl, hreplied⟩, hnil⟩
  | reply sent n hsession => exact ⟨⟨_, hset hsession, Outlet.ready_of_replied rfl⟩, hnil⟩
  | read | miss | call | returned | respond => exact ⟨hmono ht, hnil⟩
  | enqueueSpawn | broadcast => exact ⟨trivial, List.forall_mem_singleton.mpr trivial⟩
  | _ => exact ⟨trivial, hnil⟩

theorem reachable_handshake (hreach : (machine cfg).Reachable initial p) :
    ∀ t ∈ p.threads, t.Handshake cfg.handshakeHeader p.shared.made := by
  refine (Program.reachable_local (P := program cfg) (I := fun _ => True)
    (J := fun s t => t.Handshake cfg.handshakeHeader s.made) ⟨trivial, ?_⟩ ?_ hreach).2
  · simp [initial, Thread.Handshake, Accepting.Handshake]
  · intro u hu s' t t' new rest a hperm _ ht hs
    have hmove := (step_move hs).2
    obtain ⟨ht', hnew⟩ := hmove.handshake ht
    exact ⟨trivial, ht', hnew, fun v hv hold =>
      hold.frame hmove fun k hk => wraps_other hu hperm hv hk⟩

end Protocomm.Cpp.Server
