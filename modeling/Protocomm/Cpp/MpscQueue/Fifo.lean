import Protocomm.Cpp.MpscQueue.Invariant

/-!
# The completion queue is a FIFO queue

The results of `pop` read off the chain: they come in the order of the
exchanges, `nullptr` means that nothing was left or that a producer had not
linked its node yet, and a consumer that runs alone gets everything. The places
that can answer `nullptr` are the first load of an empty queue, the load of
`head_` and the last load (`mpsc_queue.h:31-33`, `45-47`, `56`).
-/

namespace Protocomm.Cpp.MpscQueue

open Misc

variable {ν : Type}

section Reads

variable {q : Queue ν} {threads rest : List (Thread ν)} {after : List (Ref ν)}

theorem Rep.exchanged_nodup (h : Rep q threads after) : q.exchanged.Nodup :=
  (List.nodup_append.mp (h.account.nodup_iff.mp h.distinct)).1

theorem Rep.returned_isPrefix (h : Rep q threads after) :
    q.returned <+: q.exchanged.map Ref.node :=
  ⟨_, h.content.symm⟩

theorem Rep.map_node_nodup (h : Rep q threads after) : (q.exchanged.map Ref.node).Nodup :=
  h.exchanged_nodup.map fun _ _ heq => Ref.node.inj heq

/-- What is still on the chain was not returned. -/
theorem Rep.notMem_returned (h : Rep q threads after) {ref : Ref ν} (hmem : ref ∈ q.tail :: after) :
    ref ∉ q.returned := by
  intro hret
  have hnodup := h.map_node_nodup
  rw [h.content] at hnodup
  cases ref with
  | stub =>
      have hnode : .stub ∈ q.exchanged.map Ref.node := h.returned_isPrefix.subset hret
      simp at hnode
  | node n =>
      exact List.disjoint_of_nodup_append hnodup hret (List.mem_filter.mpr ⟨hmem, rfl⟩)

/-- A link that is owed while the consumer owes none is a producer's. -/
theorem Rep.someBetween_of_owed {c : Thread ν} (h : Rep q threads after)
    (hc : c ∈ threads) (hcons : c.isConsumer = true) (hlink : c.link? = none) {a b : Ref ν}
    (howed : (a, b) ∈ threads.filterMap Thread.link?) : SomeBetween threads := by
  obtain ⟨t, ht, htlink⟩ := List.mem_filterMap.mp howed
  refine ⟨t, ht, ?_⟩
  cases t with
  | pushLink n prev => rfl
  | stubLink tail prev =>
      -- the consumer is unique, so it would stand at two places at once
      obtain ⟨d, hd, -⟩ := h.consumer
      have hsame : c = .stubLink tail prev := by
        have h₁ : c ∈ threads.filter Thread.isConsumer := List.mem_filter.mpr ⟨hc, hcons⟩
        have h₂ : .stubLink tail prev ∈ threads.filter Thread.isConsumer :=
          List.mem_filter.mpr ⟨ht, rfl⟩
        rw [hd, List.mem_singleton] at h₁ h₂
        rw [h₁, h₂]
      rw [hsame] at hlink
      cases hlink
  | _ => cases htlink

/-- A missing link at `tail_` means that `tail_` is the last cell or that a
    producer owes the link. -/
theorem Rep.last_or_between {c : Thread ν} (h : Rep q threads after) (hc : c ∈ threads)
    (hcons : c.isConsumer = true) (hlink : c.link? = none) (hnone : q.next q.tail = none) :
    after = [] ∨ SomeBetween threads := by
  rcases h.chain.tail_none hnone with hnil | ⟨b, howed⟩
  · exact Or.inl hnil
  · exact Or.inr (h.someBetween_of_owed hc hcons hlink howed)

theorem Rep.head_eq_tail (h : Rep q threads []) : q.head = q.tail := by
  have hends := h.chain.ends
  exact (Option.some.inj hends).symm

theorem Rep.allReturned_of_stub (h : Rep q threads []) (htail : q.tail = .stub) :
    AllReturned q := by
  have hcontent := h.content
  rw [htail] at hcontent
  exact ((List.append_nil _).symm.trans hcontent.symm)

theorem Rep.isConsumer_eq_false {t c : Thread ν} (h : Rep q (t :: rest) after)
    (ht : t.isConsumer = true) (hc : c ∈ rest) : c.isConsumer = false := by
  by_contra hcons
  rw [Bool.not_eq_false] at hcons
  have hmem : c ∈ rest.filter Thread.isConsumer := List.mem_filter.mpr ⟨hc, hcons⟩
  rw [(h.consumer_self ht).1] at hmem
  cases hmem

theorem Rep.consumer_mem {c : Thread ν} (h : Rep q threads after) (hc : c ∈ threads)
    (hcons : c.isConsumer = true) : ConsumerOk q after c := by
  obtain ⟨d, hd, hok⟩ := h.consumer
  have hmem : c ∈ threads.filter Thread.isConsumer := List.mem_filter.mpr ⟨hc, hcons⟩
  rw [hd, List.mem_singleton] at hmem
  exact hmem ▸ hok

end Reads

/-- The accesses a call of `pop` may still make. -/
def Thread.rank : Thread ν → Nat
  | .popStart => 6
  | .popNext _ => 5
  | .popHead _ => 4
  | .stubStore _ => 3
  | .stubExchange _ => 2
  | .stubLink _ _ => 1
  | _ => 0

/-- The places where `pop` answers `nullptr`. -/
def NullAt (q : Queue ν) : Thread ν → Prop
  | .popStart => q.tail = .stub ∧ q.next q.tail = none
  | .popHead tail => tail ≠ q.head
  | .popRetry tail => q.next tail = none
  | _ => False

/-- What one step of `pop` can do: answer `nullptr`, return a node, or move on
    to a later access, and then `popHead` is entered at a missing link. -/
inductive PopOutcome (q : Queue ν) (t : Thread ν) : Queue ν → Thread ν → Prop
  | null (h : NullAt q t) : PopOutcome q t q.giveUp .popStart
  | ret (tail next : Ref ν) : PopOutcome q t (q.advance tail next) .popStart
  | move {q' : Queue ν} {t' : Thread ν} (hpops : q'.pops = q.pops)
      (hexch : q'.exchanged = q.exchanged) (hrank : t'.rank < t.rank)
      (hcons : t'.isConsumer = true)
      (hload : ∀ tail, t' = .popHead tail → q'.next tail = none) : PopOutcome q t q' t'

theorem popStep_outcome [DecidableEq ν] {q q' : Queue ν} {t t' : Thread ν}
    (hstep : popStep q t = some (q', t')) : PopOutcome q t q' t' := by
  unfold popStep at hstep
  split at hstep
  · split at hstep <;> obtain ⟨rfl, rfl⟩ := Prod.mk.inj (Option.some.inj hstep)
    · rename_i htail hnext
      exact .null ⟨htail, hnext⟩
    · exact .move rfl rfl (by simp [Thread.rank]) rfl (by simp)
    · exact .ret _ _
    · rename_i htail hnext
      refine .move rfl rfl (by simp [Thread.rank]) rfl ?_
      rintro tail heq
      cases heq
      exact htail ▸ hnext
  · split at hstep <;> obtain ⟨rfl, rfl⟩ := Prod.mk.inj (Option.some.inj hstep)
    · exact .ret _ _
    · rename_i hnext
      refine .move rfl rfl (by simp [Thread.rank]) rfl ?_
      rintro tail heq
      cases heq
      exact hnext
  · split at hstep <;> obtain ⟨rfl, rfl⟩ := Prod.mk.inj (Option.some.inj hstep)
    · rename_i hhead
      exact .null hhead
    · exact .move rfl rfl (by simp [Thread.rank]) rfl (by simp)
  · obtain ⟨rfl, rfl⟩ := Prod.mk.inj (Option.some.inj hstep)
    exact .move rfl rfl (by simp [Thread.rank]) rfl (by simp)
  · obtain ⟨rfl, rfl⟩ := Prod.mk.inj (Option.some.inj hstep)
    exact .move rfl rfl (by simp [Thread.rank]) rfl (by simp)
  · obtain ⟨rfl, rfl⟩ := Prod.mk.inj (Option.some.inj hstep)
    exact .move rfl rfl (by simp [Thread.rank]) rfl (by simp)
  · split at hstep <;> obtain ⟨rfl, rfl⟩ := Prod.mk.inj (Option.some.inj hstep)
    · exact .ret _ _
    · rename_i hnext
      exact .null hnext
  · simp at hstep

/-- A step is one of `pop`, an exchange, or a step that leaves `head_` and the
    results of `pop` alone. -/
theorem step_cases [DecidableEq ν] {q q' : Queue ν} {t t' : Thread ν} {a : Action ν}
    {new : List (Thread ν)} (hstep : step q t a = some (q', t', new)) :
    (t.isConsumer = true ∧ popStep q t = some (q', t') ∧ new = []) ∨
      (t.isConsumer = false ∧ t'.isConsumer = false ∧ (∀ u ∈ new, u.isConsumer = false) ∧
        q'.pops = q.pops ∧ (q'.head = q.head ∨ t'.between = true)) := by
  cases a with
  | start n =>
      cases t with
      | app =>
          simp only [step] at hstep
          split at hstep
          · simp at hstep
          · simp only [Option.some.injEq, Prod.mk.injEq] at hstep
            obtain ⟨rfl, rfl, rfl⟩ := hstep
            exact Or.inr ⟨rfl, rfl, by simp [Thread.isConsumer], rfl, Or.inl rfl⟩
      | _ => simp [step] at hstep
  | run =>
      cases t with
      | app => simp [step, pushStep, popStep] at hstep
      | pushDone => simp [step, pushStep, popStep] at hstep
      | pushStore n =>
          simp only [step, pushStep, Option.some.injEq, Prod.mk.injEq] at hstep
          obtain ⟨rfl, rfl, rfl⟩ := hstep
          exact Or.inr ⟨rfl, rfl, by simp, rfl, Or.inl rfl⟩
      | pushExchange n =>
          simp only [step, pushStep, Option.some.injEq, Prod.mk.injEq] at hstep
          obtain ⟨rfl, rfl, rfl⟩ := hstep
          exact Or.inr ⟨rfl, rfl, by simp, rfl, Or.inr rfl⟩
      | pushLink n prev =>
          simp only [step, pushStep, Option.some.injEq, Prod.mk.injEq] at hstep
          obtain ⟨rfl, rfl, rfl⟩ := hstep
          exact Or.inr ⟨rfl, rfl, by simp, rfl, Or.inl rfl⟩
      | _ =>
          simp only [step, pushStep, Option.map_eq_some_iff, Prod.mk.injEq] at hstep
          obtain ⟨⟨q₁, t₁⟩, hpop, rfl, rfl, rfl⟩ := hstep
          exact Or.inl ⟨rfl, hpop, rfl⟩

/-! ## Why `pop` answers `nullptr` -/

/-- The run `acts`, which ended with the results `pops`, passed through a state
    inside the current call of `pop` in which some producer stood between its
    exchange and its link store. -/
def SawBetween [DecidableEq ν] (acts : List (Nat × Action ν)) (pops : List (Option (Ref ν))) :
    Prop :=
  ∃ before during p, acts = before ++ during ∧
    (machine ν).run (initial ν) before = some p ∧ p.shared.pops = pops ∧
    (∃ t ∈ p.threads, t.inPop = true) ∧ SomeBetween p.threads

theorem SawBetween.concat [DecidableEq ν] {acts : List (Nat × Action ν)}
    {pops : List (Option (Ref ν))} (h : SawBetween acts pops) (a : Nat × Action ν) :
    SawBetween (acts ++ [a]) pops := by
  obtain ⟨before, during, p, rfl, hrun⟩ := h
  exact ⟨before, during ++ [a], p, by simp, hrun⟩

theorem sawBetween_now [DecidableEq ν] {acts : List (Nat × Action ν)}
    {p : Pool (Queue ν) (Thread ν)} (hrun : (machine ν).run (initial ν) acts = some p)
    {tail : Ref ν} (hpop : .popHead tail ∈ p.threads) (hbetween : SomeBetween p.threads) :
    SawBetween acts p.shared.pops :=
  ⟨acts, [], p, by simp, hrun, rfl, ⟨_, hpop, rfl⟩, hbetween⟩

/-- When `pop` compares `tail` with `head_`, they agree unless a producer was
    seen between its two steps since the load of the link. -/
theorem popHead_history [DecidableEq ν] {acts : List (Nat × Action ν)}
    {p : Pool (Queue ν) (Thread ν)} (hrun : (machine ν).run (initial ν) acts = some p) :
    ∀ tail, .popHead tail ∈ p.threads → tail = p.shared.head ∨ SawBetween acts p.shared.pops := by
  refine Machine.run_history (P := fun acts p => ∀ tail, .popHead tail ∈ p.threads →
    tail = p.shared.head ∨ SawBetween acts p.shared.pops) ?_ ?_ hrun
  · intro tail hmem
    simp [initial] at hmem
  · intro acts u a u' hrun ih hstep tail hmem
    have hrun' := Machine.run_concat hrun hstep
    obtain ⟨after, hrep⟩ := reachable_inv ⟨_, hrun'⟩
    obtain ⟨t, t', new, rest, hmove, hbefore, hafter⟩ := Program.machine_step_inv hstep
    rcases step_cases hmove with ⟨hcons, hpop, rfl⟩ | ⟨hcons, hcons', hnew, hpops, hhead⟩
    · -- the consumer has just loaded the missing link
      have harrive : t' = .popHead tail := by
        obtain ⟨cells, hu⟩ := reachable_inv ⟨_, hrun⟩
        have hin := hafter.mem_iff.mp hmem
        rw [List.nil_append, List.mem_cons] at hin
        rcases hin with heq | hin
        · exact heq.symm
        · cases (hu.perm hbefore).isConsumer_eq_false hcons hin
      have hnone : u'.shared.next tail = none := by
        have hout := popStep_outcome hpop
        generalize u'.shared = q' at hout ⊢
        cases hout with
        | null => cases harrive
        | ret => cases harrive
        | move _ _ _ _ hload => exact hload tail harrive
      obtain ⟨heq, -⟩ := hrep.consumer_mem hmem rfl
      rcases hrep.last_or_between hmem rfl rfl (heq ▸ hnone) with rfl | hbetween
      · exact Or.inl (heq.trans hrep.head_eq_tail.symm)
      · exact Or.inr (sawBetween_now hrun' hmem hbetween)
    · have hmem' : .popHead tail ∈ u.threads := by
        have hin := hafter.mem_iff.mp hmem
        rw [List.mem_cons, List.mem_append] at hin
        rcases hin with heq | hin | hin
        · rw [← heq] at hcons'
          cases hcons'
        · cases hnew _ hin
        · exact hbefore.mem_iff.mpr (List.mem_cons_of_mem _ hin)
      rw [hpops]
      rcases ih tail hmem' with heq | hsaw
      · rcases hhead with hsame | hbetween
        · exact Or.inl (heq.trans hsame.symm)
        · -- the producer has just exchanged `head_`
          rw [← hpops]
          exact Or.inr (sawBetween_now hrun' hmem
            ⟨t', hafter.mem_iff.mpr List.mem_cons_self, hbetween⟩)
      · exact Or.inr (hsaw.concat a)

/-- Where `pop` answers `nullptr`, everything was returned or a producer stands
    between its two steps, if `pop` has seen the memory as it is. -/
theorem Rep.nullAt_now {q : Queue ν} {threads : List (Thread ν)} {after : List (Ref ν)}
    (h : Rep q threads after) {t : Thread ν} (ht : t ∈ threads) (hnull : NullAt q t)
    (hload : ∀ tail, t = .popHead tail → q.next tail = none) :
    AllReturned q ∨ SomeBetween threads := by
  cases t with
  | popStart =>
      obtain ⟨hstub, hnone⟩ := hnull
      rcases h.last_or_between ht rfl rfl hnone with rfl | hbetween
      · exact Or.inl (h.allReturned_of_stub hstub)
      · exact Or.inr hbetween
  | popHead tail =>
      obtain ⟨heq, -⟩ := h.consumer_mem ht rfl
      rcases h.last_or_between ht rfl rfl (heq ▸ hload tail rfl) with rfl | hbetween
      · exact absurd (heq.trans h.head_eq_tail.symm) hnull
      · exact Or.inr hbetween
  | popRetry tail =>
      obtain ⟨heq, -, hstub⟩ := h.consumer_mem ht rfl
      have hnone : q.next tail = none := hnull
      rcases h.last_or_between ht rfl rfl (heq ▸ hnone) with rfl | hbetween
      · cases hstub
      · exact Or.inr hbetween
  | _ => cases hnull

/-- Where `pop` answers `nullptr`, everything was returned or a producer was
    seen between its two steps. -/
theorem nullAt_history [DecidableEq ν] {acts : List (Nat × Action ν)}
    {p : Pool (Queue ν) (Thread ν)} (hrun : (machine ν).run (initial ν) acts = some p)
    {t : Thread ν} (ht : t ∈ p.threads) (hnull : NullAt p.shared t) :
    AllReturned p.shared ∨ SomeBetween p.threads ∨ SawBetween acts p.shared.pops := by
  obtain ⟨after, hrep⟩ := reachable_inv ⟨_, hrun⟩
  by_cases hhead : ∃ tail, t = .popHead tail
  · obtain ⟨tail, rfl⟩ := hhead
    rcases popHead_history hrun tail ht with heq | hsaw
    · exact absurd heq hnull
    · exact Or.inr (Or.inr hsaw)
  · rcases hrep.nullAt_now ht hnull (fun tail heq => absurd ⟨tail, heq⟩ hhead) with hall | hbetween
    · exact Or.inl hall
    · exact Or.inr (Or.inl hbetween)

/-- A step that adds a `nullptr` to the results is taken where `pop` answers it. -/
theorem nullAt_of_step [DecidableEq ν] {p p' : Pool (Queue ν) (Thread ν)} {a : Nat × Action ν}
    (hstep : (machine ν).step p a = some p')
    (hpops : p'.shared.pops = p.shared.pops ++ [none]) :
    ∃ t ∈ p.threads, NullAt p.shared t := by
  obtain ⟨t, t', new, rest, hmove, hbefore, -⟩ := Program.machine_step_inv hstep
  refine ⟨t, hbefore.mem_iff.mpr List.mem_cons_self, ?_⟩
  rcases step_cases hmove with ⟨-, hpop, -⟩ | ⟨-, -, -, hsame, -⟩
  · have hout := popStep_outcome hpop
    generalize p'.shared = q' at hout hpops
    cases hout with
    | null hnull => exact hnull
    | ret tail next => simp [Queue.advance] at hpops
    | move hsame => simp [hsame] at hpops
  · simp [hsame] at hpops

/-! ## The consumer on its own -/

/-- Nobody pushes and the consumer, the thread at position 1, has seen the
    memory as it is. -/
structure Alone [DecidableEq ν] (p : Pool (Queue ν) (Thread ν)) (t : Thread ν) : Prop where
  reach : (machine ν).Reachable (initial ν) p
  idle : NoPush p.threads
  place : p.threads[1]? = some t
  consumer : t.isConsumer = true
  load : ∀ tail, t = .popHead tail → p.shared.next tail = none

/-- The consumer gets from `p` to `p'` by running alone. -/
def RunsAlone [DecidableEq ν] (p p' : Pool (Queue ν) (Thread ν)) : Prop :=
  ∃ n, (machine ν).run p (List.replicate n (1, .run)) = some p'

theorem RunsAlone.trans [DecidableEq ν] {p p₁ p₂ : Pool (Queue ν) (Thread ν)}
    (h₁ : RunsAlone p p₁) (h₂ : RunsAlone p₁ p₂) : RunsAlone p p₂ := by
  obtain ⟨n, hn⟩ := h₁
  obtain ⟨m, hm⟩ := h₂
  refine ⟨n + m, ?_⟩
  rw [List.replicate_add]
  exact Machine.run_append hn hm

theorem popStep_isSome [DecidableEq ν] (q : Queue ν) {t : Thread ν} (ht : t.isConsumer = true) :
    ∃ r, popStep q t = some r := by
  rw [← Option.isSome_iff_exists]
  cases t with
  | popStart =>
      simp only [popStep]
      split <;> rfl
  | popNext tail =>
      simp only [popStep]
      split <;> rfl
  | popHead tail =>
      simp only [popStep]
      split <;> rfl
  | popRetry tail =>
      simp only [popStep]
      split <;> rfl
  | _ => simp_all [popStep, Thread.isConsumer]

theorem NoPush.not_someBetween {threads : List (Thread ν)} (h : NoPush threads) :
    ¬ SomeBetween threads := by
  rintro ⟨t, ht, hbetween⟩
  have hidle := h t ht
  cases t <;> simp_all [Thread.between, Thread.pushing]

theorem machine_step_alone [DecidableEq ν] {p : Pool (Queue ν) (Thread ν)} {t t' : Thread ν}
    {q' : Queue ν} (hplace : p.threads[1]? = some t) (ht : t.isConsumer = true)
    (hpop : popStep p.shared t = some (q', t')) :
    (machine ν).step p (1, .run) = some ⟨q', p.threads.set 1 t'⟩ := by
  have hmove : step p.shared t .run = some (q', t', []) := by
    cases t <;> simp_all [step, pushStep, Thread.isConsumer]
  have hrule : (program ν).step p.shared t .run = some (q', t', []) := hmove
  simp [machine, Program.machine, Program.poolStep, hplace, hrule]

/-- What one step of the consumer on its own leads to. -/
theorem alone_step [DecidableEq ν] {p : Pool (Queue ν) (Thread ν)} {t : Thread ν}
    (h : Alone p t) :
    ∃ p' t', RunsAlone p p' ∧ Alone p' t' ∧ p'.shared.exchanged = p.shared.exchanged ∧
      ((t' = .popStart ∧ p'.shared.pops = p.shared.pops ++ [none] ∧ AllReturned p.shared) ∨
        (t' = .popStart ∧ ∃ ref, p'.shared.pops = p.shared.pops ++ [some ref]) ∨
        (p'.shared.pops = p.shared.pops ∧ t'.rank < t.rank)) := by
  obtain ⟨⟨q', t'⟩, hpop⟩ := popStep_isSome p.shared h.consumer
  have hstep := machine_step_alone h.place h.consumer hpop
  obtain ⟨after, hrep⟩ := reachable_inv h.reach
  have hmem : t ∈ p.threads := List.mem_of_getElem? h.place
  have hlength : 1 < p.threads.length := by
    by_contra hle
    have hplace := h.place
    rw [List.getElem?_eq_none (by omega)] at hplace
    cases hplace
  have halone : t'.isConsumer = true → (∀ tail, t' = .popHead tail → q'.next tail = none) →
      Alone ⟨q', p.threads.set 1 t'⟩ t' := by
    intro hcons hload
    refine ⟨h.reach.tail hstep, ?_, ?_, hcons, hload⟩
    · intro u hu
      rcases List.mem_or_eq_of_mem_set hu with hu | rfl
      · exact h.idle u hu
      · cases u <;> simp_all [Thread.pushing, Thread.isConsumer]
    · simp [hlength]
  have hruns : RunsAlone p ⟨q', p.threads.set 1 t'⟩ := ⟨1, by simp [Machine.run, hstep]⟩
  refine ⟨_, t', hruns, ?_⟩
  cases popStep_outcome hpop with
  | null hnull =>
      refine ⟨halone rfl (by simp), rfl, Or.inl ⟨rfl, rfl, ?_⟩⟩
      rcases hrep.nullAt_now hmem hnull h.load with hall | hbetween
      · exact hall
      · exact absurd hbetween h.idle.not_someBetween
  | ret tail next => exact ⟨halone rfl (by simp), rfl, Or.inr (Or.inl ⟨rfl, tail, rfl⟩)⟩
  | move hpops hexch hrank hcons hload =>
      exact ⟨halone hcons hload, hexch, Or.inr (Or.inr ⟨hpops, hrank⟩)⟩

/-- A call of `pop` that runs alone ends; it answers `nullptr` only if
    everything was returned. -/
theorem alone_pop [DecidableEq ν] {p : Pool (Queue ν) (Thread ν)} {t : Thread ν}
    (h : Alone p t) :
    ∃ p' r, RunsAlone p p' ∧ Alone p' .popStart ∧ p'.shared.exchanged = p.shared.exchanged ∧
      p'.shared.pops = p.shared.pops ++ [r] ∧ (r = none → AllReturned p.shared) := by
  induction hn : t.rank using Nat.strongRecOn generalizing p t with
  | _ n ih =>
      obtain ⟨p₁, t₁, hruns, halone, hexch, hcase⟩ := alone_step h
      rcases hcase with ⟨rfl, hpops, hall⟩ | ⟨rfl, ref, hpops⟩ | ⟨hpops, hrank⟩
      · exact ⟨p₁, none, hruns, halone, hexch, hpops, fun _ => hall⟩
      · exact ⟨p₁, some ref, hruns, halone, hexch, hpops, fun hr => by cases hr⟩
      · obtain ⟨p₂, r, hruns₂, halone₂, hexch₂, hpops₂, hr⟩ := ih _ (hn ▸ hrank) halone rfl
        refine ⟨p₂, r, hruns.trans hruns₂, halone₂, hexch₂.trans hexch, hpops ▸ hpops₂, ?_⟩
        intro hnone
        have hall := hr hnone
        rwa [AllReturned, Queue.returned, hpops, hexch] at hall

/-- Calls of `pop` that run alone return what is left, in order, and then
    `nullptr`. -/
theorem alone_drain [DecidableEq ν] {p : Pool (Queue ν) (Thread ν)} (h : Alone p .popStart) :
    ∃ p', RunsAlone p p' ∧
      p'.shared.pops = p.shared.pops ++ p.shared.remaining.map some ++ [none] := by
  induction hn : p.shared.remaining.length generalizing p with
  | zero =>
      obtain ⟨p₁, r, hruns, halone, hexch, hpops, -⟩ := alone_pop h
      obtain ⟨after, hrep⟩ := reachable_inv halone.reach
      refine ⟨p₁, hruns, ?_⟩
      rw [List.length_eq_zero_iff.mp hn, hpops]
      -- a node returned now would be one more than were exchanged
      cases r with
      | none => simp
      | some ref =>
          have hle := hrep.returned_isPrefix.length_le
          rw [Queue.returned, hpops, hexch] at hle
          simp only [Queue.remaining, Queue.returned, List.length_drop] at hn
          simp at hle hn
          omega
  | succ n ih =>
      obtain ⟨p₁, r, hruns, halone, hexch, hpops, hr⟩ := alone_pop h
      obtain ⟨after, hrep⟩ := reachable_inv halone.reach
      cases r with
      | none =>
          have hall := hr rfl
          rw [Queue.remaining, hall] at hn
          simp at hn
      | some ref =>
          have hreturned : p₁.shared.returned = p.shared.returned ++ [ref] := by
            simp [Queue.returned, hpops]
          have hremaining : p.shared.remaining = ref :: p₁.shared.remaining := by
            have hsplit := hrep.returned_isPrefix
            obtain ⟨tail, htail⟩ := hsplit
            rw [Queue.remaining, Queue.remaining, ← hexch, ← htail, List.drop_left, hreturned,
              List.append_assoc, List.drop_left]
            rfl
          rw [hremaining, List.length_cons, Nat.add_right_cancel_iff] at hn
          obtain ⟨p₂, hruns₂, hpops₂⟩ := ih halone hn
          refine ⟨p₂, hruns.trans hruns₂, ?_⟩
          rw [hpops₂, hpops, hremaining]
          simp

/-! ## The refinement -/

/-- In every run: `pop` returns the exchanged nodes in order and each once; it
    answers `nullptr` only when everything was returned or a producer stood
    between its exchange and its link store at some moment of that call; a
    consumer that runs alone gets all that is left before `nullptr`; and no
    pending link store writes to a returned node. -/
theorem mpscQueue_fifo [DecidableEq ν] {acts : List (Nat × Action ν)}
    {p : Pool (Queue ν) (Thread ν)} (hrun : (machine ν).run (initial ν) acts = some p) :
    (p.shared.returned <+: p.shared.exchanged.map Ref.node ∧ p.shared.returned.Nodup) ∧
      (∀ a p', (machine ν).step p a = some p' → p'.shared.pops = p.shared.pops ++ [none] →
        AllReturned p.shared ∨ SomeBetween p.threads ∨ SawBetween acts p.shared.pops) ∧
      (NoPush p.threads → p.threads[1]? = some .popStart →
        ∃ p', RunsAlone p p' ∧
          p'.shared.pops = p.shared.pops ++ p.shared.remaining.map some ++ [none]) ∧
      ∀ t ∈ p.threads, ∀ prev node, t.link? = some (prev, node) → prev ∉ p.shared.returned := by
  obtain ⟨after, hrep⟩ := reachable_inv ⟨_, hrun⟩
  refine ⟨⟨hrep.returned_isPrefix, hrep.map_node_nodup.sublist hrep.returned_isPrefix.sublist⟩,
    ?_, ?_, ?_⟩
  · intro a p' hstep hpops
    obtain ⟨t, ht, hnull⟩ := nullAt_of_step hstep hpops
    exact nullAt_history hrun ht hnull
  · intro hidle hplace
    exact alone_drain ⟨⟨_, hrun⟩, hidle, hplace, rfl, by simp⟩
  · intro t ht prev node hlink
    have howed : (prev, node) ∈ p.threads.filterMap Thread.link? :=
      List.mem_filterMap.mpr ⟨t, ht, hlink⟩
    exact hrep.notMem_returned (hrep.chain.owes prev node howed).1.mem_left

/-- A `push`, then a `pop` up to its comparison with `head_`, then another `push`. -/
def latePush : List (Nat × Action Nat) :=
  [(0, .start 1), (2, .run), (2, .run), (2, .run), (1, .run), (1, .run),
    (0, .start 2), (3, .run), (3, .run), (3, .run)]

theorem mpscQueue_fifo_latePush :
    ∃ p, (machine Nat).run (initial Nat) latePush = some p ∧ p.shared.exchanged = [1, 2] ∧
      p.shared.returned <+: p.shared.exchanged.map Ref.node :=
  ⟨_, rfl, rfl, (@mpscQueue_fifo Nat _ latePush _ rfl).1.1⟩

/-- The comparison then answers `nullptr` although nothing was returned and no
    `push` is in progress. -/
theorem pop_nullptr_after_push :
    ∃ p p', (machine Nat).run (initial Nat) latePush = some p ∧
      (machine Nat).step p (1, .run) = some p' ∧ p'.shared.pops = p.shared.pops ++ [none] ∧
      ¬ AllReturned p.shared ∧ ¬ SomeBetween p.threads ∧
      ¬ AllReturned p'.shared ∧ ¬ SomeBetween p'.threads := by
  refine ⟨_, _, rfl, rfl, rfl, ?_, ?_, ?_, ?_⟩ <;> decide

end Protocomm.Cpp.MpscQueue
