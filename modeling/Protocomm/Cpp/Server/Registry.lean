import Protocomm.Cpp.Server.Sessions

/-!
# The session registry of the C++ server

`sessions` is to hold the sessions whose `wrapped` coroutine has not ended. `wrapped`
erases the entry of `conn_id` after `Run` has returned (`server_impl.h:73-78`). When an
exception leaves `Run`, the entry stays, and the session with it. When another connection
was accepted meanwhile, `conn_id` is the id of that one: its entry is erased although it
goes on, and the entry of the session that has ended stays.
-/

namespace Protocomm.Cpp.Server

open Misc

/-- The session whose `wrapped` coroutine the thread is. -/
def Thread.wrapping : Thread → Option Nat
  | .wrapped k _ => some k
  | _ => none

/-- Session `k` has the connection id `id` and its `wrapped` has not ended. -/
structure Live (p : Pool Shared Thread) (k : Nat) (id : UInt64) : Prop where
  session : ∃ session, p.shared.made[k]? = some session ∧ session.connectionId = id
  wrapped : ∃ t ∈ p.threads, t.wrapping = some k

/-- The keys of `sessions` are the ids of the live sessions, and its values are live
    sessions under their ids. -/
structure RegistryExact (p : Pool Shared Thread) : Prop where
  values : ∀ id k, p.shared.sessions.lookup id = some k → Live p k id
  keys : ∀ id k, Live p k id → id ∈ p.shared.sessions

/-- The step ends `wrapped` without erasing its entry: an exception leaves `Run`. -/
def Thread.throws : Thread → Action → Option Nat
  | .wrapped k .onConnect, .threw => some k
  | .wrapped k .unwind, .run => some k
  | _, _ => none

/-- The step is the erase of session `k`, with the id that it erases. -/
def Thread.erases (s : Shared) : Thread → Action → Option (Nat × UInt64)
  | .wrapped k .erase, a => (s.readConnId a).map fun id => (k, id)
  | _, _ => none

/-- No exception ends the `wrapped` of a session that is in `sessions`. A `wrapped` that
    erases an entry erases that of its session, if it is there, and not that of another
    live session. -/
structure EndsProperly (p : Pool Shared Thread) (ia : Nat × Action) : Prop where
  returns : ∀ t k session, p.threads[ia.1]? = some t → t.throws ia.2 = some k →
    p.shared.made[k]? = some session → p.shared.sessions.lookup session.connectionId ≠ some k
  own : ∀ t k id session, p.threads[ia.1]? = some t → t.erases p.shared ia.2 = some (k, id) →
    p.shared.made[k]? = some session →
    p.shared.sessions.lookup session.connectionId = some k → id = session.connectionId
  others : ∀ t k id, p.threads[ia.1]? = some t → t.erases p.shared ia.2 = some (k, id) →
    ∀ j, j ≠ k → ¬ Live p j id

variable {cfg : Config} {s s' : Shared} {t t' : Thread} {a : Action} {new rest : List Thread}
  {k : Nat} {session : Session} {p p' : Pool Shared Thread}

/-- What a step does to the registry and to the `wrapped` coroutines. -/
inductive RegistryMove (s : Shared) (t : Thread) (a : Action) :
    AList (fun _ : UInt64 => Nat) → Thread → List Thread → Prop
  | keep {t' : Thread} {new : List Thread} (ht' : t'.wrapping = t.wrapping)
      (hnew : ∀ v ∈ new, v.wrapping = none) (hthrows : t.throws a = none)
      (herases : t.erases s a = none) : RegistryMove s t a s.sessions t' new
  | insert {k : Nat} {session : Session} {t' v : Thread} (hsession : s.made[k]? = some session)
      (ht : t.wrapping = none) (ht' : t'.wrapping = none) (hv : v.wrapping = some k)
      (hthrows : t.throws a = none) (herases : t.erases s a = none) :
      RegistryMove s t a (s.sessions.insert session.connectionId k) t' [v]
  | erase {k : Nat} {id : UInt64} (ht : t.wrapping = some k)
      (herases : t.erases s a = some (k, id)) (hthrows : t.throws a = none) :
      RegistryMove s t a (s.sessions.erase id) .done []
  | throw {k : Nat} (ht : t.wrapping = some k) (hthrows : t.throws a = some k)
      (herases : t.erases s a = none) : RegistryMove s t a s.sessions .done []

theorem Move.registry (h : Move cfg s t a s' t' new) : RegistryMove s t a s'.sessions t' new := by
  have hnil : ∀ v ∈ ([] : List Thread), v.wrapping = none := List.forall_mem_nil _
  cases h with
  | insert hsession => exact .insert hsession rfl rfl rfl rfl rfl
  | @erase k id a hread =>
      have herases : (Thread.wrapped k .erase).erases s a = some (k, id) := by
        simp [Thread.erases, hread]
      exact .erase rfl herases rfl
  | connectThrow | unwind => exact .throw rfl rfl rfl
  | enqueueSpawn | broadcast => exact .keep rfl (List.forall_mem_singleton.mpr rfl) rfl rfl
  | _ => exact .keep rfl hnil rfl rfl

theorem Move.connectionId (h : Move cfg s t a s' t' new) (hk : s.made[k]? = some session) :
    ∃ session', s'.made[k]? = some session' ∧ session'.connectionId = session.connectionId := by
  cases h with
  | accept =>
      exact ⟨session, List.getElem?_append_left (List.getElem?_eq_some_iff.mp hk).1 ▸ hk, rfl⟩
  | send _ _ hsession | close hsession | pick _ _ _ _ _ hsession | enqueue _ _ _ hsession
  | enqueueSpawn _ _ _ hsession | closeSocket _ hsession | insert hsession
  | connectNoHeader hsession | handshakeMismatch _ hsession | handshakeAsk hsession
  | handshakeOK hsession | answerYes hsession | greet _ _ hsession | reply _ _ hsession
  | replyFailed _ hsession | readOther _ _ hsession | read _ _ hsession | respond _ _ hsession
  | pumpEnd hsession | pumpNext _ _ _ hsession | pumpWrote _ _ _ _ hsession
  | pumpWritten _ _ _ _ hsession | pumpFailed _ _ _ hsession | pumpClear hsession =>
      refine exists_getElem?_set hsession hk (fun _ hold => ?_) fun _ => rfl
      subst hold
      rfl
  | _ => exact ⟨session, hk, rfl⟩

theorem wraps_of_wrapping (h : t.wrapping = some k) : t.wraps k = 1 := by
  cases t with
  | wrapped j pc =>
      cases h
      exact if_pos rfl
  | _ => cases h

theorem exists_session (hreach : (machine cfg).Reachable initial p)
    (hw : ∃ v ∈ p.threads, v.wrapping = some k) :
    ∃ session, p.shared.made[k]? = some session := by
  obtain ⟨v, hv, hwrapping⟩ := hw
  cases hk : p.shared.made[k]? with
  | some session => exact ⟨session, rfl⟩
  | none =>
      have hzero := wraps_eq_zero hreach hk hv
      have hone := wraps_of_wrapping hwrapping
      omega

/-- A session has no second `wrapped`. -/
theorem wrapping_other (hreach : (machine cfg).Reachable initial p)
    (hperm : p.threads.Perm (t :: rest)) (ht : t.wrapping = some k) :
    ∀ v ∈ rest, v.wrapping ≠ some k := by
  intro v hv hwrapping
  have hzero := wraps_unique hreach hperm (wraps_of_wrapping ht) v hv
  have hone := wraps_of_wrapping hwrapping
  omega

section Step

variable (hreach : (machine cfg).Reachable initial p)
  (hmove : Move cfg p.shared t a p'.shared t' new) (hbefore : p.threads.Perm (t :: rest))
  (hafter : p'.threads.Perm (t' :: (new ++ rest))) {id : UInt64}

include hmove in
theorem Live.next (h : Live p k id) (hw : ∃ v ∈ p'.threads, v.wrapping = some k) :
    Live p' k id := by
  obtain ⟨session, hk, hid⟩ := h.session
  obtain ⟨session', hk', hsame⟩ := hmove.connectionId hk
  exact ⟨⟨session', hk', hsame.trans hid⟩, hw⟩

include hreach hmove in
theorem Live.prev (h : Live p' k id) (hw : ∃ v ∈ p.threads, v.wrapping = some k) :
    Live p k id := by
  obtain ⟨session, hk⟩ := exists_session hreach hw
  obtain ⟨session', hk', hsame⟩ := hmove.connectionId hk
  obtain ⟨next, hnext, hid⟩ := h.session
  obtain rfl := Option.some.inj (hk'.symm.trans hnext)
  exact ⟨⟨session, hk, hsame.symm.trans hid⟩, hw⟩

include hbefore in
theorem mem_rest {v : Thread} (hv : v ∈ rest) : v ∈ p.threads :=
  hbefore.mem_iff.mpr (List.mem_cons_of_mem _ hv)

include hafter in
theorem mem_after {v : Thread} (hv : v ∈ rest) : v ∈ p'.threads :=
  hafter.mem_iff.mpr (List.mem_cons_of_mem _ (List.mem_append_right _ hv))

include hreach hmove hbefore hafter in
/-- A step that touches neither the registry nor a `wrapped`. -/
theorem RegistryExact.keep (h : RegistryExact p) (hsame : p'.shared.sessions = p.shared.sessions)
    (ht' : t'.wrapping = t.wrapping) (hnew : ∀ v ∈ new, v.wrapping = none) :
    RegistryExact p' := by
  refine ⟨fun id k hid => ?_, fun id k hlive => ?_⟩
  · rw [hsame] at hid
    have hlive := h.values id k hid
    obtain ⟨v, hv, hwrapping⟩ := hlive.wrapped
    refine hlive.next hmove ?_
    rcases List.mem_cons.mp (hbefore.mem_iff.mp hv) with rfl | hrest
    · exact ⟨t', hafter.mem_iff.mpr List.mem_cons_self, ht'.trans hwrapping⟩
    · exact ⟨v, mem_after hafter hrest, hwrapping⟩
  · rw [hsame]
    obtain ⟨v, hv, hwrapping⟩ := hlive.wrapped
    refine h.keys id k (hlive.prev hreach hmove ?_)
    rcases List.mem_cons.mp (hafter.mem_iff.mp hv) with rfl | hv
    · exact ⟨t, hbefore.mem_iff.mpr List.mem_cons_self, ht'.symm.trans hwrapping⟩
    · rcases List.mem_append.mp hv with hv | hrest
      · cases (hnew v hv).symm.trans hwrapping
      · exact ⟨v, mem_rest hbefore hrest, hwrapping⟩

include hreach hmove hbefore hafter in
/-- The accept loop registers a session and starts its `wrapped`. -/
theorem RegistryExact.insert (h : RegistryExact p) {v : Thread} (hnew : new = [v])
    (hsession : p.shared.made[k]? = some session)
    (hsessions : p'.shared.sessions = p.shared.sessions.insert session.connectionId k)
    (ht : t.wrapping = none) (ht' : t'.wrapping = none) (hv : v.wrapping = some k) :
    RegistryExact p' := by
  subst hnew
  refine ⟨fun id j hid => ?_, fun id j hlive => ?_⟩
  · rw [hsessions] at hid
    by_cases heq : id = session.connectionId
    · subst heq
      rw [AList.lookup_insert] at hid
      cases hid
      obtain ⟨session', hk', hsame⟩ := hmove.connectionId hsession
      exact ⟨⟨session', hk', hsame⟩, v, hafter.mem_iff.mpr (by simp), hv⟩
    · rw [AList.lookup_insert_ne heq] at hid
      have hlive := h.values id j hid
      obtain ⟨w, hw, hwrapping⟩ := hlive.wrapped
      refine hlive.next hmove ?_
      rcases List.mem_cons.mp (hbefore.mem_iff.mp hw) with rfl | hrest
      · cases ht.symm.trans hwrapping
      · exact ⟨w, mem_after hafter hrest, hwrapping⟩
  · rw [hsessions, AList.mem_insert]
    obtain ⟨w, hw, hwrapping⟩ := hlive.wrapped
    rcases List.mem_cons.mp (hafter.mem_iff.mp hw) with rfl | hw
    · cases ht'.symm.trans hwrapping
    · rcases List.mem_cons.mp hw with rfl | hrest
      · cases hv.symm.trans hwrapping
        obtain ⟨next, hnext, hid⟩ := hlive.session
        obtain ⟨session', hk', hsame⟩ := hmove.connectionId hsession
        obtain rfl := Option.some.inj (hk'.symm.trans hnext)
        exact Or.inl (hid.symm.trans hsame)
      · exact Or.inr (h.keys id j (hlive.prev hreach hmove ⟨w, mem_rest hbefore hrest, hwrapping⟩))

include hreach hmove hbefore hafter in
/-- A `wrapped` that ends leaves the other sessions live. -/
theorem live_after_end (hnew : new = []) (ht : t.wrapping = some k) (ht' : t'.wrapping = none)
    {j : Nat} : Live p' j id ↔ Live p j id ∧ j ≠ k := by
  subst hnew
  constructor
  · intro hlive
    obtain ⟨v, hv, hwrapping⟩ := hlive.wrapped
    rcases List.mem_cons.mp (hafter.mem_iff.mp hv) with rfl | hrest
    · cases ht'.symm.trans hwrapping
    · refine ⟨hlive.prev hreach hmove ⟨v, mem_rest hbefore hrest, hwrapping⟩, ?_⟩
      rintro rfl
      exact wrapping_other hreach hbefore ht v hrest hwrapping
  · rintro ⟨hlive, hj⟩
    obtain ⟨v, hv, hwrapping⟩ := hlive.wrapped
    refine hlive.next hmove ?_
    rcases List.mem_cons.mp (hbefore.mem_iff.mp hv) with rfl | hrest
    · cases ht.symm.trans hwrapping
      exact absurd rfl hj
    · exact ⟨v, mem_after hafter hrest, hwrapping⟩

end Step

/-- Steps that end a `wrapped` properly keep the registry exact. -/
theorem registryExact_keep (hreach : (machine cfg).Reachable initial p) (h : RegistryExact p)
    {ia : Nat × Action} (hok : EndsProperly p ia) (hstep : (machine cfg).step p ia = some p') :
    RegistryExact p' := by
  obtain ⟨i, a⟩ := ia
  obtain ⟨t, t', new, rest, hi, hs, hbefore, hafter⟩ := Program.machine_step_at hstep
  have hmove : Move cfg p.shared t a p'.shared t' new := (step_move hs).2
  have hregistry := hmove.registry
  generalize hsessions : p'.shared.sessions = sessions at hregistry
  cases hregistry with
  | keep ht' hnew => exact h.keep hreach hmove hbefore hafter hsessions ht' hnew
  | insert hsession ht ht' hv =>
      exact h.insert hreach hmove hbefore hafter rfl hsession hsessions ht ht' hv
  | @erase k erased ht herases =>
      have hlive : ∀ {j id}, Live p' j id ↔ Live p j id ∧ j ≠ k :=
        live_after_end hreach hmove hbefore hafter rfl ht rfl
      refine ⟨fun id j hid => ?_, fun id j hj => ?_⟩
      · rw [hsessions] at hid
        have hne : id ≠ erased := by
          rintro rfl
          rw [AList.lookup_erase] at hid
          cases hid
        rw [AList.lookup_erase_ne hne] at hid
        refine hlive.mpr ⟨h.values id j hid, ?_⟩
        rintro rfl
        obtain ⟨session, hsession, rfl⟩ := (h.values id j hid).session
        exact hne (hok.own t j erased session hi herases hsession hid).symm
      · obtain ⟨hold, hne⟩ := hlive.mp hj
        rw [hsessions, AList.mem_erase]
        refine ⟨?_, h.keys id j hold⟩
        rintro rfl
        exact hok.others t k id hi herases j hne hold
  | @throw k ht hthrows =>
      have hlive : ∀ {j id}, Live p' j id ↔ Live p j id ∧ j ≠ k :=
        live_after_end hreach hmove hbefore hafter rfl ht rfl
      refine ⟨fun id j hid => ?_, fun id j hj => ?_⟩
      · rw [hsessions] at hid
        refine hlive.mpr ⟨h.values id j hid, ?_⟩
        rintro rfl
        obtain ⟨session, hsession, rfl⟩ := (h.values id j hid).session
        exact hok.returns t j session hi hthrows hsession hid
      · rw [hsessions]
        exact h.keys id j (hlive.mp hj).1

/-- Any other step leaves an entry of a dead session, or none of a live one. -/
theorem registryExact_break (hreach : (machine cfg).Reachable initial p) {ia : Nat × Action}
    (hbad : ¬ EndsProperly p ia) (hstep : (machine cfg).step p ia = some p') :
    ¬ RegistryExact p' := by
  obtain ⟨i, a⟩ := ia
  obtain ⟨t, t', new, rest, hi, hs, hbefore, hafter⟩ := Program.machine_step_at hstep
  have hmove : Move cfg p.shared t a p'.shared t' new := (step_move hs).2
  have hregistry := hmove.registry
  intro h
  refine hbad ⟨?_, ?_, ?_⟩
  · intro v k session hv hthrows hsession hlookup
    obtain rfl := Option.some.inj (hi.symm.trans hv)
    generalize hsessions : p'.shared.sessions = sessions at hregistry
    cases hregistry with
    | keep _ _ hnone | insert _ _ _ _ hnone | erase _ _ hnone => cases hnone.symm.trans hthrows
    | throw ht hsame =>
        cases hsame.symm.trans hthrows
        have hlive := h.values session.connectionId k (by rw [hsessions]; exact hlookup)
        exact ((live_after_end hreach hmove hbefore hafter rfl ht rfl).mp hlive).2 rfl
  · intro v k id session hv herases hsession hlookup
    obtain rfl := Option.some.inj (hi.symm.trans hv)
    generalize hsessions : p'.shared.sessions = sessions at hregistry
    cases hregistry with
    | keep _ _ _ hnone | insert _ _ _ _ _ hnone | throw _ _ hnone =>
        cases hnone.symm.trans herases
    | erase ht hsame =>
        cases hsame.symm.trans herases
        by_contra hne
        have hlive := h.values session.connectionId k (by
          rw [hsessions, AList.lookup_erase_ne (Ne.symm hne)]
          exact hlookup)
        exact ((live_after_end hreach hmove hbefore hafter rfl ht rfl).mp hlive).2 rfl
  · intro v k id hv herases j hne hlive
    obtain rfl := Option.some.inj (hi.symm.trans hv)
    generalize hsessions : p'.shared.sessions = sessions at hregistry
    cases hregistry with
    | keep _ _ _ hnone | insert _ _ _ _ _ hnone | throw _ _ hnone =>
        cases hnone.symm.trans herases
    | erase ht hsame =>
        cases hsame.symm.trans herases
        have hlive' := (live_after_end hreach hmove hbefore hafter rfl ht rfl).mpr ⟨hlive, hne⟩
        have hmem := h.keys _ j hlive'
        rw [hsessions, AList.mem_erase] at hmem
        exact hmem.1 rfl

/-- The registry is exact in all states of a run exactly when no exception ends the
    `wrapped` of a registered session and every `wrapped` that erases an entry finds its own
    id in the storage of the closure. -/
theorem registryExact_iff_endsProperly (cfg : Config) {acts : List (Nat × Action)}
    (hrun : (machine cfg).run initial acts = some p) :
    (∀ u ∈ (machine cfg).visited initial acts, RegistryExact u) ↔
      (machine cfg).Meets EndsProperly initial acts := by
  refine Machine.forall_visited_iff_meets (I := (machine cfg).Reachable initial)
    (Q := RegistryExact) ?_ ?_ (fun _ _ h => h) ?_ (.refl _) ?_ hrun
  · exact fun _ _ _ hreach hstep => hreach.tail hstep
  · exact fun u ia u' hu h hok hstep => registryExact_keep hu h hok hstep
  · exact fun u ia u' hu _ hbad hstep => registryExact_break hu hbad hstep
  · refine ⟨fun id k hid => ?_, fun id k hlive => ?_⟩
    · cases hid
    · obtain ⟨v, hv, hwrapping⟩ := hlive.wrapped
      simp only [initial, List.mem_cons, List.not_mem_nil, or_false] at hv
      rcases hv with rfl | rfl | rfl <;> cases hwrapping

/-- Two clients connect and do the handshake. The first one hangs up, and its `Run`
    returns; then a `Broadcast` is made. -/
def twoClientsRun : List (Nat × Action) :=
  [(2, .accepted), (2, .run), (3, .run), (3, .readHandshake (.ok [112, 99, 49])), (3, .wrote 3),
    (2, .accepted), (2, .run), (4, .run), (4, .readHandshake (.ok [112, 99, 49])), (4, .wrote 3),
    (3, .readFrame (.error "end of file")), (3, .run), (3, .run), (0, .broadcast 9 [])]

/-- The first `wrapped` erases the id of the second client, so that the registry is wrong
    although no exception was thrown. -/
theorem registryExact_iff_twoClientsRun :
    ∃ p, (machine {}).run initial twoClientsRun = some p ∧
      p.shared.sessions.lookup 1 = some 0 ∧ p.shared.sessions.lookup 2 = none ∧
      p.threads = [.app, .io, .acceptLoop .accept, .done, .wrapped 1 .read,
        .broadcast (pushHeader 9 []) [] [0]] ∧
      ¬ (machine {}).Meets EndsProperly initial twoClientsRun := by
  refine ⟨_, rfl, rfl, rfl, rfl, fun hmeets => ?_⟩
  have hrun : (machine {}).run initial twoClientsRun = some _ := rfl
  have hall := (registryExact_iff_endsProperly {} hrun).mpr hmeets
  have hlive : ∃ t ∈ ([.app, .io, .acceptLoop .accept, .done, .wrapped 1 .read,
      .broadcast (pushHeader 9 []) [] [0]] : List Thread), t.wrapping = some 0 :=
    ((hall _ (List.mem_of_getElem? (i := 14) rfl)).values 1 0 rfl).wrapped
  exact absurd hlive (by decide)

/-- A client sends a request whose handler throws; `Run` ends, and then a `Broadcast` is
    made. -/
def handlerThrowsRun : List (Nat × Action) :=
  [(0, .registerMethod 7), (2, .accepted), (2, .run), (3, .run),
    (3, .readHandshake (.ok [112, 99, 49])), (3, .wrote 3),
    (3, .readFrame (.ok ({ type := FrameRequest, callID := 1, methodID := 7, payloadSize := 0 },
      []))),
    (3, .run), (3, .threw), (3, .run), (0, .broadcast 9 [])]

/-- The session of the client stays in `sessions` after its `wrapped` has ended, and the
    `Broadcast` writes to it. -/
theorem session_registered_after_throw :
    ∃ p, (machine {}).run initial handlerThrowsRun = some p ∧
      p.shared.sessions.lookup 1 = some 0 ∧
      p.threads = [.app, .io, .acceptLoop .accept, .done,
        .broadcast (pushHeader 9 []) [] [0]] :=
  ⟨_, rfl, rfl, rfl⟩

end Protocomm.Cpp.Server
