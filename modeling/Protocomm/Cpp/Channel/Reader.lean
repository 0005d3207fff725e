import Protocomm.Cpp.Channel.Lifecycle

/-!
# Calls without a reader

A channel has one `ReadLoop` in its life: it is started by the `ConnectCoro` that
connects and nothing starts another one after it has ended, while `connected`
stays set. So a call that is registered after that waits in `pending` for a
response nobody reads.
-/

namespace Protocomm.Cpp.Channel

open Misc

variable {cfg : Config} {p : Pool Shared Thread}

/-- A `ReadLoop` was started and has not ended. -/
def ReaderRuns (p : Pool Shared Thread) : Prop := ∃ t ∈ p.threads, t.readers = 1

instance (p : Pool Shared Thread) : Decidable (ReaderRuns p) :=
  inferInstanceAs (Decidable (∃ t ∈ p.threads, t.readers = 1))

/-- Every pending call has a reader. -/
def NoOrphan (p : Pool Shared Thread) : Prop := p.shared.pending ≠ ∅ → ReaderRuns p

/-- No submission is registered after the end of the `ReadLoop`, and `ReadFrame`
    throws only while nothing is pending. -/
def Served (p : Pool Shared Thread) (ia : Nat × Action) : Prop :=
  (∀ methodId request cb rest, p.threads[ia.1]? = some .io → ia.2 = .run →
      p.shared.strand = .submit methodId request cb :: rest → p.shared.stopped = false →
      p.shared.readLoopsEnded = 0) ∧
    (p.threads[ia.1]? = some (.readLoop .reading) → ia.2 = .readFrame .throw →
      p.shared.pending = ∅)

variable {s s' : Shared} {t t' : Thread} {a : Action} {new : List Thread}

theorem emplace_ne_empty (m : Pending) (callId : UInt32) (cb : Callback) :
    emplace m callId cb ≠ ∅ := by
  unfold emplace
  split
  · exact ne_empty_of_lookup ‹_›
  · exact ne_empty_of_lookup (AList.lookup_insert m)

/-- Only a submission makes `pending` non-empty. -/
theorem Move.pending_or_submit (h : Move cfg s t a s' t' new) (hpending : s'.pending ≠ ∅) :
    s.pending ≠ ∅ ∨ (t = .io ∧ a = .run ∧ s.stopped = false ∧
      ∃ methodId request cb rest, s.strand = .submit methodId request cb :: rest) := by
  cases h with
  | submit methodId request cb rest hstrand hopen
  | submitSpawn methodId request cb rest hstrand hopen =>
      exact Or.inr ⟨rfl, rfl, hopen, methodId, request, cb, rest, hstrand⟩
  | take hdr payload cb htype hlookup =>
      exact Or.inl (ne_empty_of_lookup hlookup)
  | shutdownHandler | closeIdle | readFailed | pumpFailed => exact absurd rfl hpending
  | _ => exact Or.inl hpending

/-- A `ReadLoop` goes on, fails what is pending, or is ended by an exception. -/
theorem Move.reader_goes_on (h : Move cfg s t a s' t' new) (ht : t.readers = 1) :
    t'.readers = 1 ∨ s'.pending = ∅ ∨
      (t = .readLoop .reading ∧ a = .readFrame .throw ∧ s'.pending = s.pending) := by
  cases h with
  | readStart | push | skip | take => exact Or.inl rfl
  | readFailed => exact Or.inr (Or.inl rfl)
  | readThrow => exact Or.inr (Or.inr ⟨rfl, rfl, rfl⟩)
  | _ => cases ht

/-- A `ReadLoop` runs when one is counted. -/
theorem readerRuns_of_sum (h : (p.threads.map Thread.readers).sum = 1) : ReaderRuns p := by
  obtain ⟨t, ht, hpos⟩ := exists_of_sum_pos (f := Thread.readers) (l := p.threads) (by omega)
  have hle := le_sum_map (f := Thread.readers) ht
  exact ⟨t, ht, by omega⟩

theorem sum_readers_pos (h : ReaderRuns p) : 0 < (p.threads.map Thread.readers).sum := by
  obtain ⟨t, ht, hreader⟩ := h
  have hle := le_sum_map (f := Thread.readers) ht
  omega

theorem noOrphan_keep {p p' : Pool Shared Thread} {ia : Nat × Action}
    (hreach : (machine cfg).Reachable initial p) (hP : NoOrphan p) (hok : Served p ia)
    (hstep : (machine cfg).step p ia = some p') : NoOrphan p' := by
  intro hpending
  obtain ⟨t, t', new, rest, hplace, hs, hbefore, hafter⟩ := Program.machine_step_at hstep
  have hmove := step_move hs
  have hruns : ReaderRuns p := by
    rcases hmove.pending_or_submit hpending with hne | ⟨rfl, hact, hopen, m, r, cb, q, hstrand⟩
    · exact hP hne
    · apply readerRuns_of_sum
      have hcount := readers_of_submit hreach hstrand hopen
      rwa [hok.1 m r cb q hplace hact hstrand hopen] at hcount
  obtain ⟨v, hv, hreader⟩ := hruns
  rcases List.mem_cons.mp (hbefore.mem_iff.mp hv) with rfl | hv
  · rcases hmove.reader_goes_on hreader with hgoes | hempty | ⟨rfl, hact, hsame⟩
    · exact ⟨t', hafter.mem_iff.mpr List.mem_cons_self, hgoes⟩
    · exact absurd hempty hpending
    · rw [hsame, hok.2 hplace hact] at hpending
      exact absurd rfl hpending
  · exact ⟨v, hafter.mem_iff.mpr (List.mem_cons_of_mem _ (List.mem_append_right _ hv)), hreader⟩

/-- The step that registers a submission. -/
theorem ioStep_submit {methodId : UInt32} {request : Bytes} {cb : Callback} {rest : List Handler}
    (hstrand : s.strand = .submit methodId request cb :: rest) (hopen : s.stopped = false)
    (h : step cfg s .io .run = some (s', t', new)) :
    s'.pending = emplace s.pending s.nextCallId cb ∧ s'.readLoopsEnded = s.readLoopsEnded := by
  simp only [step, ioStep, hstrand, handle, handleSubmit, hopen] at h
  split at h
  · simp at *
  · split at h <;> cases h
    · exact ⟨rfl, rfl⟩
    · exact ⟨rfl, rfl⟩

/-- The step in which an exception ends the `ReadLoop`. -/
theorem readLoopStep_throw
    (h : step cfg s (.readLoop .reading) (.readFrame .throw) = some (s', t', new)) :
    s' = s.endReadLoop := by
  cases h
  rfl

theorem noOrphan_break {p p' : Pool Shared Thread} {ia : Nat × Action}
    (hreach : (machine cfg).Reachable initial p) (hbad : ¬ Served p ia)
    (hstep : (machine cfg).step p ia = some p') : ¬ NoOrphan p' := by
  obtain ⟨t, t', new, rest, hplace, hs, -⟩ := Program.machine_step_at hstep
  intro hP
  apply hbad
  refine ⟨?_, ?_⟩
  · intro methodId request cb q hio hact hstrand hopen
    rw [hplace] at hio
    cases hio
    rw [hact] at hs
    obtain ⟨hpending, hended⟩ := ioStep_submit hstrand hopen hs
    have hruns := sum_readers_pos (hP (hpending ▸ emplace_ne_empty _ _ _))
    have hle := (reachable_coroutines (hreach.tail hstep)).le_one
    omega
  · intro hread hact
    by_contra hpending
    rw [hplace] at hread
    cases hread
    rw [hact] at hs
    have hshared := @readLoopStep_throw cfg _ _ _ _ hs
    have hruns := sum_readers_pos (hP (by rw [hshared]; exact hpending))
    have hle := (reachable_coroutines (hreach.tail hstep)).le_one
    rw [hshared] at hle
    simp only [Shared.endReadLoop] at hle
    omega

/-- Every pending call has a reader in all states of a run exactly when no
    submission of the run is registered after the end of the `ReadLoop` and no
    exception ends the `ReadLoop` while a call is pending. User callbacks are taken not to
    throw: one that throws would leave `ReadLoop` or the handler that called it. -/
theorem noOrphan_iff_served {acts : List (Nat × Action)}
    (hrun : (machine cfg).run initial acts = some p) :
    (∀ u ∈ (machine cfg).visited initial acts, NoOrphan u) ↔
      (machine cfg).Meets Served initial acts := by
  refine Machine.forall_visited_iff_meets (I := (machine cfg).Reachable initial) (Q := NoOrphan)
    ?_ ?_ ?_ ?_ ?_ ?_ hrun
  · intro u ia u' hu hstep
    exact hu.tail hstep
  · intro u ia u' hu hP hok hstep
    exact noOrphan_keep hu hP hok hstep
  · intro u _ hP
    exact hP
  · intro u ia u' hu _ hbad hstep
    exact noOrphan_break hu hbad hstep
  · exact Machine.Reachable.refl _
  · intro hpending
    exact absurd rfl hpending

/-- A call connects the channel and is sent; the server ends the connection;
    then another call is made. -/
def orphanRun : List (Nat × Action) :=
  [(0, .call 7 [] false), (1, .run), (1, .run), (1, .run), (1, .run), (1, .run), (1, .run),
    (2, .run), (3, .run), (3, .op none), (3, .op none), (3, .op none),
    (3, .readHandshake (.ok [112, 99, 49])), (1, .run), (1, .run), (2, .run), (4, .run),
    (4, .readFrame (.error "End of file")), (0, .call 8 [] false), (6, .run), (6, .run), (2, .run)]

theorem noOrphan_iff_served_orphanRun :
    ∃ p, (machine {}).run initial orphanRun = some p ∧
      ((∀ u ∈ (machine {}).visited initial orphanRun, NoOrphan u) ↔
        (machine {}).Meets Served initial orphanRun) :=
  ⟨_, rfl, noOrphan_iff_served rfl⟩

/-- The first call was failed; the second one waits without a reader. -/
theorem orphan_after_read_error :
    ∃ p, (machine {}).run initial orphanRun = some p ∧
      p.shared.pending.lookup 2 = some ⟨1, false⟩ ∧ ¬ ReaderRuns p ∧ ¬ NoOrphan p := by
  refine ⟨_, rfl, rfl, by decide, ?_⟩
  intro hP
  exact absurd (hP (ne_empty_of_lookup (k := 2) rfl)) (by decide)

end Protocomm.Cpp.Channel
