import Mathlib.Data.List.Perm.Basic
import Protocomm.Cpp.MpscQueue.Model
import Protocomm.Misc.LinkChain

/-!
# What the queue's memory looks like

At every moment the nodes from `tail_` to `head_` form a chain in the order of
their exchanges, broken exactly where a thread still owes its link store. The
payload nodes on the chain, behind those already returned, are the nodes
exchanged so far. Producers extend the chain at its end, the consumer takes
nodes off its front, and it puts the sentinel back only when the sentinel is not
on the chain.
-/

namespace Protocomm.Cpp.MpscQueue

open Misc

variable {ν : Type}

def Ref.isNode : Ref ν → Bool
  | .stub => false
  | .node _ => true

/-- The node of a producer that has not exchanged `head_` yet. -/
def Thread.fresh? : Thread ν → Option ν
  | .pushStore n => some n
  | .pushExchange n => some n
  | _ => none

def Thread.isConsumer : Thread ν → Bool
  | .app => false
  | .pushStore _ => false
  | .pushExchange _ => false
  | .pushLink _ _ => false
  | .pushDone => false
  | _ => true

/-- What the consumer knows inside `pop`: its local `tail` is `tail_` and a
    payload node; while it puts the sentinel back, the sentinel is off the
    chain until its exchange and on it afterwards. -/
def ConsumerOk (q : Queue ν) (after : List (Ref ν)) : Thread ν → Prop
  | .popNext tail => tail = q.tail ∧ tail ≠ .stub
  | .popHead tail => tail = q.tail ∧ tail ≠ .stub
  | .stubStore tail => tail = q.tail ∧ tail ≠ .stub ∧ .stub ∉ after
  | .stubExchange tail => tail = q.tail ∧ tail ≠ .stub ∧ .stub ∉ after ∧ q.next .stub = none
  | .stubLink tail _ => tail = q.tail ∧ tail ≠ .stub ∧ .stub ∈ after
  | .popRetry tail => tail = q.tail ∧ tail ≠ .stub ∧ .stub ∈ after
  | _ => True

/-- The chain runs from `tail_` through `after` to `head_`. -/
structure Rep (q : Queue ν) (threads : List (Thread ν)) (after : List (Ref ν)) : Prop where
  chain : Chain q.next (q.tail :: after) q.head (threads.filterMap Thread.link?)
  content : q.exchanged.map Ref.node = q.returned ++ (q.tail :: after).filter Ref.isNode
  distinct : q.pushed.Nodup
  account : q.pushed.Perm (q.exchanged ++ threads.filterMap Thread.fresh?)
  cleared : ∀ n, Thread.pushExchange n ∈ threads → q.next (.node n) = none
  consumer : ∃ c, threads.filter Thread.isConsumer = [c] ∧ ConsumerOk q after c

/-- The queue's memory is a chain. -/
def Inv (q : Queue ν) (threads : List (Thread ν)) : Prop := ∃ after, Rep q threads after

theorem Rep.perm {q : Queue ν} {threads threads' : List (Thread ν)} {after : List (Ref ν)}
    (hperm : threads.Perm threads') (h : Rep q threads after) : Rep q threads' after where
  chain := h.chain.perm (hperm.filterMap _)
  content := h.content
  distinct := h.distinct
  account := h.account.trans ((hperm.filterMap _).append_left _)
  cleared n hn := h.cleared n (hperm.mem_iff.mpr hn)
  consumer := by
    obtain ⟨c, hc, hok⟩ := h.consumer
    have hsingle := (hperm.filter Thread.isConsumer).symm
    rw [hc] at hsingle
    exact ⟨c, List.perm_singleton.mp hsingle, hok⟩

theorem inv_initial [DecidableEq ν] : Inv (initial ν).shared (initial ν).threads := by
  refine ⟨[], ?_, ?_, ?_, ?_, ?_, ?_⟩
  · exact Chain.singleton rfl
  · rfl
  · exact List.nodup_nil
  · exact List.Perm.refl _
  · intro n hn
    simp [initial] at hn
  · exact ⟨.popStart, rfl, trivial⟩

section Step

variable {q : Queue ν} {rest : List (Thread ν)} {after : List (Ref ν)}

/-- A node that was not exchanged yet is not on the chain. -/
theorem Rep.notMem_of_fresh {t : Thread ν} {n : ν} (h : Rep q (t :: rest) after)
    (ht : t.fresh? = some n) : Ref.node n ∉ q.tail :: after := by
  have hnodup := h.account.nodup_iff.mp h.distinct
  have hfresh : n ∉ q.exchanged := by
    intro hmem
    have hdisjoint := List.disjoint_of_nodup_append hnodup
    exact hdisjoint hmem (by simp [ht])
  intro hmem
  apply hfresh
  have hpayload : Ref.node n ∈ q.exchanged.map Ref.node := by
    rw [h.content]
    exact List.mem_append_right _ (List.mem_filter.mpr ⟨hmem, rfl⟩)
  obtain ⟨m, hm, heq⟩ := List.mem_map.mp hpayload
  cases heq
  exact hm

/-- The consumer is another thread: it keeps its place and its knowledge. -/
theorem Rep.consumer_other {t : Thread ν} (h : Rep q (t :: rest) after)
    (ht : t.isConsumer = false) :
    ∃ c, rest.filter Thread.isConsumer = [c] ∧ ConsumerOk q after c := by
  obtain ⟨c, hc, hok⟩ := h.consumer
  rw [List.filter_cons_of_neg (by simp [ht])] at hc
  exact ⟨c, hc, hok⟩

/-- The moving thread is the only consumer. -/
theorem Rep.consumer_self {t : Thread ν} (h : Rep q (t :: rest) after)
    (ht : t.isConsumer = true) :
    rest.filter Thread.isConsumer = [] ∧ ConsumerOk q after t := by
  obtain ⟨c, hc, hok⟩ := h.consumer
  rw [List.filter_cons_of_pos ht] at hc
  obtain ⟨rfl, hrest⟩ := List.cons.inj hc
  exact ⟨hrest, hok⟩

theorem consumerOk_append {c : Thread ν} (m : ν) (h : ConsumerOk q after c) :
    ConsumerOk q (after ++ [.node m]) c := by
  cases c <;> simp only [ConsumerOk, List.mem_append, List.mem_singleton, reduceCtorEq,
    or_false] at h ⊢ <;> exact h

/-- A link store touches what the consumer knows only if it writes the link of
    the sentinel while the sentinel is off the chain. -/
theorem consumerOk_setNext [DecidableEq ν] {c : Thread ν} {ref : Ref ν} {value : Option (Ref ν)}
    (href : ref = .stub → .stub ∈ q.tail :: after) (h : ConsumerOk q after c) :
    ConsumerOk (q.setNext ref value) after c := by
  cases c with
  | stubExchange tail =>
      obtain ⟨heq, hne, hnot, hnone⟩ := h
      have hoff : .stub ∉ q.tail :: after := by
        rw [List.mem_cons, not_or]
        exact ⟨fun hs => hne (heq.trans hs.symm), hnot⟩
      have href : Ref.stub ≠ ref := fun hs => hoff (href hs.symm)
      exact ⟨heq, hne, hnot, (Function.update_of_ne href ..).trans hnone⟩
  | _ => exact h

theorem rep_start {n : ν} (h : Rep q (.app :: rest) after) (hn : n ∉ q.pushed) :
    Rep { q with pushed := q.pushed ++ [n] } (.app :: .pushStore n :: rest) after where
  chain := h.chain
  content := h.content
  distinct := by
    refine List.nodup_append.mpr ⟨h.distinct, by simp, ?_⟩
    intro a ha b hb
    obtain rfl : b = n := by simpa using hb
    rintro rfl
    exact hn ha
  account := by
    have hswap : (q.exchanged ++ n :: rest.filterMap Thread.fresh?).Perm
        ((q.exchanged ++ rest.filterMap Thread.fresh?) ++ [n]) := by
      rw [List.append_assoc]
      exact (List.perm_append_singleton n _).symm.append_left _
    exact (h.account.append_right [n]).trans hswap.symm
  cleared m hm := h.cleared m (by simpa using hm)
  consumer := by
    obtain ⟨c, hc, hok⟩ := h.consumer_other rfl
    exact ⟨c, by simpa [Thread.isConsumer] using hc, hok⟩

theorem rep_pushStore [DecidableEq ν] {n : ν} (h : Rep q (.pushStore n :: rest) after) :
    Rep (q.setNext (.node n) none) (.pushExchange n :: rest) after where
  chain := h.chain.update_other (h.notMem_of_fresh rfl) none
  content := h.content
  distinct := h.distinct
  account := h.account
  cleared m hm := by
    by_cases hmn : m = n
    · subst hmn
      exact Function.update_self ..
    · have hne : Ref.node m ≠ .node n := fun heq => hmn (Ref.node.inj heq)
      have hrest : Thread.pushExchange m ∈ rest := by simpa [hmn] using hm
      exact (setNext_next_of_ne _ _ hne).trans (h.cleared m (List.mem_cons_of_mem _ hrest))
  consumer := by
    obtain ⟨c, hc, hok⟩ := h.consumer_other rfl
    exact ⟨c, by simpa [Thread.isConsumer] using hc, consumerOk_setNext (by simp) hok⟩

theorem rep_pushExchange {n : ν} (h : Rep q (.pushExchange n :: rest) after) :
    Rep { q with head := .node n, exchanged := q.exchanged ++ [n] } (.pushLink n q.head :: rest)
      (after ++ [.node n]) where
  chain := h.chain.exchange (h.notMem_of_fresh rfl) (h.cleared n (by simp))
  content := by
    have hcontent := h.content
    simp only [List.map_append, List.map_cons, List.map_nil] at hcontent ⊢
    rw [hcontent, ← List.cons_append, List.filter_append, List.append_assoc]
    rfl
  distinct := h.distinct
  account := by
    have haccount := h.account
    simp only [List.filterMap_cons, Thread.fresh?] at haccount ⊢
    rwa [List.append_assoc, List.singleton_append]
  cleared m hm := h.cleared m (by simpa using Or.inr hm)
  consumer := by
    obtain ⟨c, hc, hok⟩ := h.consumer_other rfl
    exact ⟨c, by simpa [Thread.isConsumer] using hc, consumerOk_append n hok⟩

/-- A node whose producer is still before its exchange is not on the chain. -/
theorem Rep.ne_of_adjacent {t : Thread ν} {n : ν} {a b : Ref ν} (h : Rep q (t :: rest) after)
    (hn : Thread.pushExchange n ∈ rest) (hadj : Adjacent (q.tail :: after) a b) :
    Ref.node n ≠ a := by
  rintro rfl
  obtain ⟨l, r, rfl⟩ := List.append_of_mem hn
  have hfront : Rep q (.pushExchange n :: t :: (l ++ r)) after :=
    h.perm ((List.perm_middle.cons t).trans (List.Perm.swap _ _ _))
  exact hfront.notMem_of_fresh rfl hadj.mem_left

theorem rep_pushLink [DecidableEq ν] {n : ν} {prev : Ref ν}
    (h : Rep q (.pushLink n prev :: rest) after) :
    Rep (q.setNext prev (some (.node n))) (.pushDone :: rest) after := by
  have hadj := (h.chain.owes prev (.node n) (by simp [Thread.link?])).1
  refine ⟨h.chain.store, h.content, h.distinct, h.account, ?_, ?_⟩
  · intro m hm
    have hm' : Thread.pushExchange m ∈ rest := by simpa using hm
    have hne := h.ne_of_adjacent hm' hadj
    exact (setNext_next_of_ne _ _ hne).trans (h.cleared m (List.mem_cons_of_mem _ hm'))
  · obtain ⟨c, hc, hok⟩ := h.consumer_other rfl
    refine ⟨c, by simpa [Thread.isConsumer] using hc, consumerOk_setNext ?_ hok⟩
    rintro rfl
    exact hadj.mem_left

theorem fresh?_of_isConsumer {t : Thread ν} (ht : t.isConsumer = true) : t.fresh? = none := by
  cases t <;> simp_all [Thread.isConsumer, Thread.fresh?]

/-- What the consumer does leaves the books on the producers' nodes alone. -/
theorem Rep.books {t : Thread ν} (h : Rep q (t :: rest) after) (ht : t.isConsumer = true)
    (t' : Thread ν) (ht' : t'.isConsumer = true) :
    q.pushed.Perm (q.exchanged ++ (t' :: rest).filterMap Thread.fresh?) ∧
      (∀ n, Thread.pushExchange n ∈ t' :: rest → q.next (.node n) = none) ∧
      (t' :: rest).filter Thread.isConsumer = [t'] := by
  refine ⟨?_, ?_, ?_⟩
  · have haccount := h.account
    rw [List.filterMap_cons_none (fresh?_of_isConsumer ht)] at haccount
    rwa [List.filterMap_cons_none (fresh?_of_isConsumer ht')]
  · intro n hn
    rcases List.mem_cons.mp hn with rfl | hn
    · simp [Thread.isConsumer] at ht'
    · exact h.cleared n (List.mem_cons_of_mem _ hn)
  · rw [List.filter_cons_of_pos ht', (h.consumer_self ht).1]

/-- A consumer that only moves on, or gives up, leaves the memory as it is. -/
theorem rep_move {t t' : Thread ν} {pops : List (Option (Ref ν))} (h : Rep q (t :: rest) after)
    (ht : t.isConsumer = true) (hlink : t.link? = none) (ht' : t'.isConsumer = true)
    (hlink' : t'.link? = none) (hpops : pops.filterMap id = q.returned)
    (hok : ConsumerOk { q with pops := pops } after t') :
    Rep { q with pops := pops } (t' :: rest) after := by
  obtain ⟨haccount, hcleared, hconsumer⟩ := h.books ht t' ht'
  refine ⟨?_, ?_, h.distinct, haccount, hcleared, t', hconsumer, hok⟩
  · have hchain := h.chain
    rw [List.filterMap_cons_none hlink] at hchain
    rw [List.filterMap_cons_none hlink']
    exact hchain
  · have hcontent := h.content
    rw [← hpops] at hcontent
    exact hcontent

theorem rep_giveUp {t : Thread ν} (h : Rep q (t :: rest) after) (ht : t.isConsumer = true)
    (hlink : t.link? = none) : Rep q.giveUp (.popStart :: rest) after := by
  apply rep_move h ht hlink rfl rfl
  · simp [Queue.returned]
  · trivial

/-- Taking the first node off the chain: the sentinel is dropped, a payload
    node is returned. -/
theorem rep_takeFirst {t t' : Thread ν} {next : Ref ν} {pops : List (Option (Ref ν))}
    (h : Rep q (t :: rest) after) (ht : t.isConsumer = true) (hlink : t.link? = none)
    (ht' : t'.isConsumer = true) (hlink' : t'.link? = none) (hnext : q.next q.tail = some next)
    (hpops : pops.filterMap id = q.returned ++ [q.tail].filter Ref.isNode)
    (hok : next ≠ q.tail → ∀ cells, ConsumerOk { q with tail := next, pops := pops } cells t') :
    ∃ cells, Rep { q with tail := next, pops := pops } (t' :: rest) cells := by
  obtain ⟨haccount, hcleared, hconsumer⟩ := h.books ht t' ht'
  obtain ⟨cells, rfl, hchain⟩ := h.chain.tail hnext
  have hne : next ≠ q.tail := by
    rintro rfl
    have hnodup := h.chain.nodup
    simp at hnodup
  refine ⟨cells, ?_, ?_, h.distinct, haccount, hcleared, t', hconsumer, hok hne cells⟩
  · rw [List.filterMap_cons_none hlink] at hchain
    rw [List.filterMap_cons_none hlink']
    exact hchain
  · change q.exchanged.map Ref.node = pops.filterMap id ++ (next :: cells).filter Ref.isNode
    rw [h.content, hpops, List.append_assoc, ← List.filter_append, List.singleton_append]

/-- `tail_ = next; return tail;` at any of its three places. -/
theorem rep_advance {t : Thread ν} {tail next : Ref ν} (h : Rep q (t :: rest) after)
    (ht : t.isConsumer = true) (hlink : t.link? = none) (htail : tail = q.tail)
    (hne : tail ≠ .stub) (hnext : q.next tail = some next) :
    ∃ cells, Rep (q.advance tail next) (.popStart :: rest) cells := by
  subst htail
  apply rep_takeFirst h ht hlink rfl rfl hnext
  · cases hq : q.tail with
    | stub => exact absurd hq hne
    | node n => rw [List.filterMap_append]; rfl
  · exact fun _ _ => trivial

theorem rep_stubStore [DecidableEq ν] {tail : Ref ν} (h : Rep q (.stubStore tail :: rest) after) :
    Rep (q.setNext .stub none) (.stubExchange tail :: rest) after := by
  obtain ⟨-, heq, hne, hnot⟩ := h.consumer_self rfl
  obtain ⟨haccount, hcleared, hconsumer⟩ := h.books rfl (.stubExchange tail) rfl
  have hoff : .stub ∉ q.tail :: after := by
    rw [List.mem_cons, not_or]
    exact ⟨fun hs => hne (heq.trans hs.symm), hnot⟩
  refine ⟨h.chain.update_other hoff none, h.content, h.distinct, haccount, ?_, _, hconsumer, ?_⟩
  · intro n hn
    rw [setNext_next_of_ne _ _ (by simp)]
    exact hcleared n hn
  · exact ⟨heq, hne, hnot, setNext_next_self ..⟩

theorem rep_stubExchange {tail : Ref ν} (h : Rep q (.stubExchange tail :: rest) after) :
    Rep { q with head := .stub } (.stubLink tail q.head :: rest) (after ++ [.stub]) := by
  obtain ⟨-, heq, hne, hnot, hnone⟩ := h.consumer_self rfl
  obtain ⟨haccount, hcleared, hconsumer⟩ := h.books rfl (.stubLink tail q.head) rfl
  have hoff : .stub ∉ q.tail :: after := by
    rw [List.mem_cons, not_or]
    exact ⟨fun hs => hne (heq.trans hs.symm), hnot⟩
  refine ⟨h.chain.exchange hoff hnone, ?_, h.distinct, haccount, hcleared, _, hconsumer,
    heq, hne, by simp⟩
  rw [← List.cons_append, List.filter_append]
  have hstub : [(.stub : Ref ν)].filter Ref.isNode = [] := rfl
  rw [hstub, List.append_nil]
  exact h.content

theorem rep_stubLink [DecidableEq ν] {tail prev : Ref ν}
    (h : Rep q (.stubLink tail prev :: rest) after) :
    Rep (q.setNext prev (some .stub)) (.popRetry tail :: rest) after := by
  obtain ⟨-, heq, hne, hmem⟩ := h.consumer_self rfl
  obtain ⟨haccount, -, hconsumer⟩ := h.books rfl (.popRetry tail) rfl
  have hadj := (h.chain.owes prev .stub (by simp [Thread.link?])).1
  refine ⟨h.chain.store, h.content, h.distinct, haccount, ?_, _, hconsumer, heq, hne, hmem⟩
  intro n hn
  have hn' : Thread.pushExchange n ∈ rest := by simpa using hn
  exact (setNext_next_of_ne _ _ (h.ne_of_adjacent hn' hadj)).trans
    (h.cleared n (List.mem_cons_of_mem _ hn'))

/-- One step of `pop` keeps the chain. -/
theorem inv_popStep [DecidableEq ν] {q' : Queue ν} {t t' : Thread ν}
    (h : Rep q (t :: rest) after) (hstep : popStep q t = some (q', t')) : Inv q' (t' :: rest) := by
  cases t with
  | popStart =>
      simp only [popStep] at hstep
      cases htail : q.tail with
      | stub =>
          cases hnext : q.next q.tail with
          | none =>
              simp only [htail, htail ▸ hnext, Option.some.injEq, Prod.mk.injEq] at hstep
              obtain ⟨rfl, rfl⟩ := hstep
              exact ⟨_, rep_giveUp h rfl rfl⟩
          | some next =>
              simp only [htail, htail ▸ hnext, Option.some.injEq, Prod.mk.injEq] at hstep
              obtain ⟨rfl, rfl⟩ := hstep
              apply rep_takeFirst h rfl rfl rfl rfl hnext
              · rw [htail]
                exact (List.append_nil _).symm
              · intro hne cells
                exact ⟨rfl, htail ▸ hne⟩
      | node n =>
          cases hnext : q.next q.tail with
          | none =>
              simp only [htail, htail ▸ hnext, Option.some.injEq, Prod.mk.injEq] at hstep
              obtain ⟨rfl, rfl⟩ := hstep
              exact ⟨_, rep_move h rfl rfl rfl rfl rfl ⟨htail.symm, by simp⟩⟩
          | some next =>
              simp only [htail, htail ▸ hnext, Option.some.injEq, Prod.mk.injEq] at hstep
              obtain ⟨rfl, rfl⟩ := hstep
              exact rep_advance h rfl rfl htail.symm (by simp) (htail ▸ hnext)
  | popNext tail =>
      obtain ⟨-, heq, hne⟩ := h.consumer_self rfl
      simp only [popStep] at hstep
      cases hnext : q.next tail with
      | none =>
          simp only [hnext, Option.some.injEq, Prod.mk.injEq] at hstep
          obtain ⟨rfl, rfl⟩ := hstep
          exact ⟨_, rep_move h rfl rfl rfl rfl rfl ⟨heq, hne⟩⟩
      | some next =>
          simp only [hnext, Option.some.injEq, Prod.mk.injEq] at hstep
          obtain ⟨rfl, rfl⟩ := hstep
          exact rep_advance h rfl rfl heq hne hnext
  | popHead tail =>
      obtain ⟨-, heq, hne⟩ := h.consumer_self rfl
      simp only [popStep] at hstep
      split at hstep
      · obtain ⟨rfl, rfl⟩ := Prod.mk.inj (Option.some.inj hstep)
        exact ⟨_, rep_giveUp h rfl rfl⟩
      · rename_i hhead
        obtain ⟨rfl, rfl⟩ := Prod.mk.inj (Option.some.inj hstep)
        -- the chain is the single cell `tail`, so the sentinel is off it
        have hlast : after = [] := h.chain.eq_nil_of_last (heq ▸ not_not.mp hhead)
        exact ⟨_, rep_move h rfl rfl rfl rfl rfl ⟨heq, hne, by simp [hlast]⟩⟩
  | stubStore tail =>
      obtain ⟨rfl, rfl⟩ := Prod.mk.inj (Option.some.inj hstep)
      exact ⟨_, rep_stubStore h⟩
  | stubExchange tail =>
      obtain ⟨rfl, rfl⟩ := Prod.mk.inj (Option.some.inj hstep)
      exact ⟨_, rep_stubExchange h⟩
  | stubLink tail prev =>
      obtain ⟨rfl, rfl⟩ := Prod.mk.inj (Option.some.inj hstep)
      exact ⟨_, rep_stubLink h⟩
  | popRetry tail =>
      obtain ⟨-, heq, hne, -⟩ := h.consumer_self rfl
      simp only [popStep] at hstep
      cases hnext : q.next tail with
      | none =>
          simp only [hnext, Option.some.injEq, Prod.mk.injEq] at hstep
          obtain ⟨rfl, rfl⟩ := hstep
          exact ⟨_, rep_giveUp h rfl rfl⟩
      | some next =>
          simp only [hnext, Option.some.injEq, Prod.mk.injEq] at hstep
          obtain ⟨rfl, rfl⟩ := hstep
          exact rep_advance h rfl rfl heq hne hnext
  | _ => simp [popStep] at hstep

/-- One step of a thread keeps the chain. -/
theorem inv_step [DecidableEq ν] {q' : Queue ν} {t t' : Thread ν} {a : Action ν}
    {new : List (Thread ν)} (h : Inv q (t :: rest)) (hstep : step q t a = some (q', t', new)) :
    Inv q' (t' :: (new ++ rest)) := by
  obtain ⟨after, h⟩ := h
  cases a with
  | start n =>
      cases t with
      | app =>
          simp only [step] at hstep
          split at hstep
          · simp at hstep
          · rename_i hnew
            simp only [Option.some.injEq, Prod.mk.injEq] at hstep
            obtain ⟨rfl, rfl, rfl⟩ := hstep
            exact ⟨_, rep_start h hnew⟩
      | _ => simp [step] at hstep
  | run =>
      cases t with
      | pushStore n =>
          simp only [step, pushStep, Option.some.injEq, Prod.mk.injEq] at hstep
          obtain ⟨rfl, rfl, rfl⟩ := hstep
          exact ⟨_, rep_pushStore h⟩
      | pushExchange n =>
          simp only [step, pushStep, Option.some.injEq, Prod.mk.injEq] at hstep
          obtain ⟨rfl, rfl, rfl⟩ := hstep
          exact ⟨_, rep_pushExchange h⟩
      | pushLink n prev =>
          simp only [step, pushStep, Option.some.injEq, Prod.mk.injEq] at hstep
          obtain ⟨rfl, rfl, rfl⟩ := hstep
          exact ⟨_, rep_pushLink h⟩
      | _ =>
          simp only [step, pushStep, Option.map_eq_some_iff, Prod.mk.injEq] at hstep
          obtain ⟨⟨q₁, t₁⟩, hpop, rfl, rfl, rfl⟩ := hstep
          exact inv_popStep h hpop

end Step

/-- The queue's memory is a chain in every state it reaches. -/
theorem reachable_inv [DecidableEq ν] {p : Pool (Queue ν) (Thread ν)}
    (h : (machine ν).Reachable (initial ν) p) : Inv p.shared p.threads := by
  refine Program.reachable_bag (K := Inv) ?_ inv_initial ?_ h
  · intro q l l' hperm hl
    obtain ⟨after, hrep⟩ := hl
    exact ⟨after, hrep.perm hperm⟩
  · intro u _ q' t t' new rest a _ hbefore hmove
    exact inv_step hbefore hmove

end Protocomm.Cpp.MpscQueue
