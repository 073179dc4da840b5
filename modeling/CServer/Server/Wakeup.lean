import CServer.Server.Accounting

/-!
# No wake-up is lost

A worker that finds the queue empty goes into the wait set, and a push wakes one worker at least;
but a worker on its way into the queue may take what another was woken for.

* `Pool.wokenUp`          the workers woken that do not hold the mutex yet;
* `acceptorStep_effect`   what a step of the acceptor does to the queue and the workers;
* `Wakeful`               for each queued descriptor a woken worker, as long as one sleeps;
* `pool_wakeups`          in every state of the pool.
-/

namespace CServer

open Finset

section
variable {n : Nat}

def Pool.wokenUp (p : Pool n) : Finset (Fin n) := univ.filter fun i => p.workers i = .woken

def Worker.wokenOnce (w : Worker) : Nat := if w = .woken then 1 else 0

theorem card_wokenUp (p : Pool n) : #p.wokenUp = total Worker.wokenOnce p.workers :=
  card_filter _ _

theorem mem_asleep (p : Pool n) (i : Fin n) : i ∈ p.asleep ↔ p.workers i = .waiting := by
  unfold Pool.asleep
  rw [mem_filter]
  exact and_iff_right (mem_univ i)

structure Wakeful (p : Pool n) : Prop where
  pending : p.asleep.Nonempty → p.shared.queue.ring.count ≤ #p.wokenUp
  closed : p.shared.queue.closed = true → p.asleep = ∅

/-! ## moves of the workers -/

theorem asleep_update (p : Pool n) (sh : PoolShared) (a : Acceptor) (i : Fin n) (w : Worker)
    (hw : w ≠ .waiting) :
    (Pool.mk sh a (Function.update p.workers i w)).asleep ⊆ p.asleep := by
  intro j hj
  have hj : Function.update p.workers i w j = .waiting := (mem_asleep _ j).mp hj
  by_cases hij : j = i
  · rw [hij, Function.update_self] at hj
    exact absurd hj hw
  · rw [Function.update_of_ne hij] at hj
    exact (mem_asleep p j).mpr hj

theorem wokenUp_update (p : Pool n) (sh : PoolShared) (a : Acceptor) (i : Fin n) (w : Worker) :
    #(Pool.mk sh a (Function.update p.workers i w)).wokenUp + (p.workers i).wokenOnce =
      #p.wokenUp + w.wokenOnce := by
  rw [card_wokenUp, card_wokenUp]
  exact total_update Worker.wokenOnce p.workers i w

theorem asleep_wake (p : Pool n) (who : Finset (Fin n)) : (p.wake who).asleep ⊆ p.asleep := by
  intro j hj
  have hj : moveAll p.workers who .woken j = .waiting := (mem_asleep _ j).mp hj
  by_cases hmem : j ∈ who
  · rw [moveAll_mem _ _ _ _ hmem] at hj
    cases hj
  · rw [moveAll_notMem _ _ _ _ hmem] at hj
    exact (mem_asleep p j).mpr hj

theorem wokenUp_wake (p : Pool n) (who : Finset (Fin n)) (hwho : who ⊆ p.asleep) :
    #(p.wake who).wokenUp = #p.wokenUp + (#who) := by
  have hwaiting : ∀ i ∈ who, p.workers i = .waiting := fun i hi => (mem_asleep p i).mp (hwho hi)
  have h := total_moveAll Worker.wokenOnce p.workers who .woken .waiting hwaiting
  rw [card_wokenUp, card_wokenUp]
  show total Worker.wokenOnce (moveAll p.workers who .woken) = _
  have hwoken : Worker.wokenOnce .woken = 1 := rfl
  have hslept : Worker.wokenOnce .waiting = 0 := rfl
  rw [hwoken, hslept] at h
  simpa using h

theorem asleep_broadcast (p : Pool n) : p.closeQueue.asleep = ∅ := by
  apply eq_empty_of_forall_notMem
  intro j hj
  have hmem : j ∈ p.asleep := asleep_wake { p with shared.queue := queueClose p.shared.queue } _ hj
  have hj : moveAll p.workers p.asleep .woken j = .waiting := (mem_asleep _ j).mp hj
  rw [moveAll_mem _ _ _ _ hmem] at hj
  cases hj

/-! ## what a step does -/

/-- A step of a worker looks at the queue, or leaves the queue and the wait set alone. -/
theorem workerStep_effect (sh sh' : PoolShared) (ok : Bool) (w w' : Worker)
    (h : workerStep sh ok w = some (sh', w')) :
    ((w = .popping ∨ w = .woken) ∧ workerPop sh = some (sh', w')) ∨
    (sh'.queue = sh.queue ∧ w ≠ .woken ∧ w' ≠ .woken ∧ w' ≠ .waiting) := by
  cases w with
  | popping => exact .inl ⟨.inl rfl, h⟩
  | woken => exact .inl ⟨.inr rfl, h⟩
  | reading fd =>
    simp only [workerStep] at h
    split_ifs at h
    · cases h
      exact .inr ⟨rfl, Worker.noConfusion, Worker.noConfusion, Worker.noConfusion⟩
    · cases h
      exact .inr ⟨rfl, Worker.noConfusion, Worker.noConfusion, Worker.noConfusion⟩
  | dispatching fd =>
    simp only [workerStep] at h
    split_ifs at h
    · cases h
      exact .inr ⟨rfl, Worker.noConfusion, Worker.noConfusion, Worker.noConfusion⟩
    · cases h
      exact .inr ⟨rfl, Worker.noConfusion, Worker.noConfusion, Worker.noConfusion⟩
  | failing fd =>
    cases h
    exact .inr ⟨rfl, Worker.noConfusion, Worker.noConfusion, Worker.noConfusion⟩
  | closing fd =>
    cases h
    exact .inr ⟨rfl, Worker.noConfusion, Worker.noConfusion, Worker.noConfusion⟩
  | closed =>
    cases h
    exact .inr ⟨rfl, Worker.noConfusion, Worker.noConfusion, Worker.noConfusion⟩
  | unstarted => cases h
  | waiting => cases h
  | exited => cases h

/-- **What a step of the acceptor does to the queue and the workers.** -/
theorem acceptorStep_effect (p p' : Pool n) (r : SysResult) (who : Finset (Fin n))
    (h : Accounted p) (hstep : acceptorStep p r who = some p') :
    (p'.shared.queue = p.shared.queue ∧ p'.workers = p.workers) ∨
    (p'.shared.queue = p.shared.queue ∧ ∃ i, p.workers i = .unstarted ∧
      p'.workers = Function.update p.workers i .popping) ∨
    (p'.shared.queue = queueClose p.shared.queue ∧ p'.workers = p.closeQueue.workers) ∨
    (p.shared.queue.closed = false ∧ p'.shared.queue.closed = false ∧
      p'.shared.queue.ring.count = p.shared.queue.ring.count + 1 ∧
      p.Signals who ∧ p'.workers = (p.wake who).workers) := by
  cases hacc : p.acceptor with
  | spawning i =>
    simp only [acceptorStep, hacc] at hstep
    split_ifs at hstep with hi
    · split at hstep
      · cases hstep
        exact .inr (.inl ⟨rfl, ⟨i, hi⟩, h.unstarted ⟨i, hi⟩ i hacc (le_refl _), rfl⟩)
      · cases hstep
        exact .inl ⟨rfl, rfl⟩
    · cases hstep
      exact .inl ⟨rfl, rfl⟩
  | abortClosing i =>
    simp only [acceptorStep, hacc] at hstep
    cases hstep
    exact .inr (.inr (.inl ⟨rfl, rfl⟩))
  | draining =>
    simp only [acceptorStep, hacc] at hstep
    cases hstep
    exact .inr (.inr (.inl ⟨rfl, rfl⟩))
  | pushing fd =>
    simp only [acceptorStep, hacc, acceptorPush] at hstep
    rcases queueTryPush_spec p.shared.queue fd h.wf with
      ⟨_, hresult⟩ | ⟨hopen, _, ring, hresult, _, _, hcount, _⟩
    · simp only [hresult] at hstep
      rw [if_pos (by decide)] at hstep
      cases hstep
      exact .inl ⟨rfl, rfl⟩
    · simp only [hresult] at hstep
      rw [if_neg (by simp)] at hstep
      split_ifs at hstep with hsignals
      cases hstep
      exact .inr (.inr (.inr ⟨hopen, hopen, hcount, hsignals, rfl⟩))
  | abortJoining i j =>
    simp only [acceptorStep, hacc] at hstep
    split_ifs at hstep <;> cases hstep <;> exact .inl ⟨rfl, rfl⟩
  | polling =>
    simp only [acceptorStep, hacc] at hstep
    split at hstep <;> cases hstep <;> exact .inl ⟨rfl, rfl⟩
  | accepting =>
    simp only [acceptorStep, hacc] at hstep
    split at hstep
    · split_ifs at hstep
      cases hstep
      exact .inl ⟨rfl, rfl⟩
    · cases hstep
      exact .inl ⟨rfl, rfl⟩
    · cases hstep
      exact .inl ⟨rfl, rfl⟩
  | acceptFailed =>
    simp only [acceptorStep, hacc] at hstep
    split_ifs at hstep <;> cases hstep <;> exact .inl ⟨rfl, rfl⟩
  | joining i =>
    simp only [acceptorStep, hacc] at hstep
    split_ifs at hstep <;> cases hstep <;> exact .inl ⟨rfl, rfl⟩
  | returned code =>
    simp only [acceptorStep, hacc] at hstep
    cases hstep
  | _ =>
    simp only [acceptorStep, hacc] at hstep
    cases hstep
    exact .inl ⟨rfl, rfl⟩

/-! ## every step keeps watch -/

theorem Wakeful.same {p p' : Pool n} (h : Wakeful p) (hqueue : p'.shared.queue = p.shared.queue)
    (hworkers : p'.workers = p.workers) : Wakeful p' := by
  have hasleep : p'.asleep = p.asleep := by
    unfold Pool.asleep
    rw [hworkers]
  have hwoken : p'.wokenUp = p.wokenUp := by
    unfold Pool.wokenUp
    rw [hworkers]
  refine ⟨?_, ?_⟩
  · rw [hasleep, hqueue, hwoken]
    exact h.pending
  · rw [hasleep, hqueue]
    exact h.closed

/-- a worker that neither was woken nor goes to sleep, at an unchanged queue -/
theorem Wakeful.update {p : Pool n} (h : Wakeful p) (sh : PoolShared) (a : Acceptor) (i : Fin n)
    (w : Worker) (hqueue : sh.queue = p.shared.queue) (hold : p.workers i ≠ .woken)
    (hnew : w ≠ .woken ∧ w ≠ .waiting) :
    Wakeful ⟨sh, a, Function.update p.workers i w⟩ := by
  have hsub := asleep_update p sh a i w hnew.2
  have hwoken := wokenUp_update p sh a i w
  unfold Worker.wokenOnce at hwoken
  rw [if_neg hold, if_neg hnew.1] at hwoken
  refine ⟨fun hne => ?_, fun hclosed => ?_⟩
  · have hpending := h.pending (hne.mono hsub)
    show sh.queue.ring.count ≤ _
    rw [hqueue]
    omega
  · have hclosed : sh.queue.closed = true := hclosed
    rw [hqueue] at hclosed
    rw [← subset_empty, ← h.closed hclosed]
    exact hsub

/-- a worker that looks at the queue -/
theorem Wakeful.pop {p : Pool n} (h : Wakeful p) (hwf : p.shared.queue.WF) (i : Fin n)
    (sh' : PoolShared) (w' : Worker) (hpop : workerPop p.shared = some (sh', w')) :
    Wakeful { p with shared := sh', workers := Function.update p.workers i w' } := by
  have hwoken := wokenUp_update p sh' p.acceptor i w'
  rcases workerPop_spec p.shared sh' w' hwf hpop with
    ⟨hzero, hopen, rfl, rfl⟩ | ⟨_, hclosed, rfl, rfl⟩ | ⟨fd, ring, rfl, rfl, _, _, hcount⟩
  · refine ⟨fun _ => ?_, fun hclosed => ?_⟩
    · show p.shared.queue.ring.count ≤ _
      omega
    · have hclosed : p.shared.queue.closed = true := hclosed
      rw [hopen] at hclosed
      cases hclosed
  · have hnone : (Pool.mk p.shared p.acceptor (Function.update p.workers i .exited)).asleep = ∅ := by
      rw [← subset_empty, ← h.closed hclosed]
      exact asleep_update p p.shared p.acceptor i .exited Worker.noConfusion
    refine ⟨fun hne => ?_, fun _ => hnone⟩
    rw [hnone] at hne
    exact absurd hne not_nonempty_empty
  · have hsub := asleep_update p
      { p.shared with queue.ring := ring, gives := fd ::ₘ p.shared.gives } p.acceptor i
      (.reading fd) Worker.noConfusion
    have hnew : (Worker.reading fd).wokenOnce = 0 := rfl
    have hold : (p.workers i).wokenOnce ≤ 1 := by
      unfold Worker.wokenOnce
      split_ifs <;> omega
    refine ⟨fun hne => ?_, fun hclosed => ?_⟩
    · have hpending := h.pending (hne.mono hsub)
      show ring.count ≤ _
      omega
    · rw [← subset_empty, ← h.closed hclosed]
      exact hsub

theorem Wakeful.closeQueue {p p' : Pool n} (hworkers : p'.workers = p.closeQueue.workers) :
    Wakeful p' := by
  have hnone : p'.asleep = ∅ := by
    rw [← asleep_broadcast p]
    unfold Pool.asleep
    rw [hworkers]
  refine ⟨fun hne => ?_, fun _ => hnone⟩
  rw [hnone] at hne
  exact absurd hne not_nonempty_empty

/-- **A push wakes a worker for what it adds, if one sleeps.** -/
theorem Wakeful.push {p p' : Pool n} (h : Wakeful p) (who : Finset (Fin n))
    (hopen : p'.shared.queue.closed = false)
    (hcount : p'.shared.queue.ring.count = p.shared.queue.ring.count + 1)
    (hsignals : p.Signals who) (hworkers : p'.workers = (p.wake who).workers) : Wakeful p' := by
  have hasleep : p'.asleep = (p.wake who).asleep := by
    unfold Pool.asleep
    rw [hworkers]
  have hwoken : p'.wokenUp = (p.wake who).wokenUp := by
    unfold Pool.wokenUp
    rw [hworkers]
  refine ⟨fun hne => ?_, fun hclosed => ?_⟩
  · rw [hasleep] at hne
    have hslept : p.asleep.Nonempty := hne.mono (asleep_wake p who)
    have hpending := h.pending hslept
    have hone : 0 < (#who) := card_pos.mpr (hsignals.2 hslept)
    rw [hwoken, wokenUp_wake p who hsignals.1, hcount]
    omega
  · rw [hopen] at hclosed
    cases hclosed

/-- a worker that wakes up without a cause -/
theorem Wakeful.spurious {p : Pool n} (h : Wakeful p) (i : Fin n) (hi : p.workers i = .waiting) :
    Wakeful (p.wake {i}) := by
  have hsub : {i} ⊆ p.asleep := by
    rw [singleton_subset_iff]
    exact (mem_asleep p i).mpr hi
  refine ⟨fun hne => ?_, fun hclosed => ?_⟩
  · have hpending := h.pending (hne.mono (asleep_wake p {i}))
    rw [wokenUp_wake p {i} hsub]
    exact hpending.trans (Nat.le_add_right _ _)
  · rw [← subset_empty, ← h.closed hclosed]
    exact asleep_wake p {i}

/-- **Every step of the pool keeps watch.** -/
theorem poolStep_wakeful (p : Pool n) (a : PoolAct n) (p' : Pool n)
    (hstep : poolStep p a = some p') (h : Accounted p ∧ Wakeful p) :
    Accounted p' ∧ Wakeful p' := by
  obtain ⟨hacc, hwake⟩ := h
  refine ⟨poolStep_accounted p a p' hstep hacc, ?_⟩
  cases a with
  | worker i ok =>
    obtain ⟨⟨sh', w'⟩, hmoved, hp'⟩ := Option.map_eq_some_iff.mp hstep
    rw [← hp']
    rcases workerStep_effect _ _ ok _ _ hmoved with ⟨_, hpop⟩ | ⟨hqueue, hold, hnew⟩
    · exact hwake.pop hacc.wf i sh' w' hpop
    · exact hwake.update sh' p.acceptor i w' hqueue hold hnew
  | acceptor r who =>
    rcases acceptorStep_effect p p' r who hacc hstep with
      ⟨hqueue, hworkers⟩ | ⟨hqueue, i, hi, hworkers⟩ | ⟨_, hworkers⟩ |
      ⟨_, hopen, hcount, hsignals, hworkers⟩
    · exact hwake.same hqueue hworkers
    · have hnext := hwake.update p'.shared p'.acceptor i .popping hqueue
        (by rw [hi]; exact Worker.noConfusion) ⟨Worker.noConfusion, Worker.noConfusion⟩
      rwa [← hworkers] at hnext
    · exact Wakeful.closeQueue hworkers
    · exact hwake.push who hopen hcount hsignals hworkers
  | spurious i =>
    unfold poolStep at hstep
    dsimp only at hstep
    split_ifs at hstep with hwaiting
    cases hstep
    exact hwake.spurious i hwaiting
  | stopStore =>
    cases hstep
    exact hwake.same rfl rfl
  | stopClose =>
    cases hstep
    exact Wakeful.closeQueue rfl

end

/-- **In every state of the pool, each queued descriptor has a woken worker as long as one sleeps,
and nobody sleeps at a closed queue.** -/
theorem pool_wakeups (n : Nat) (ok : Bool) (capacity : Int) (q : ConnQueue)
    (hq : queueInit ok capacity = some q) (acts : List (PoolAct n)) (p : Pool n)
    (hrun : acts.foldlM poolStep (Pool.start n q) = some p) :
    (p.asleep.Nonempty → p.shared.queue.ring.count ≤ #p.wokenUp) ∧
    (p.shared.queue.closed = true → p.asleep = ∅) ∧
    (0 < p.shared.queue.ring.count ∨ p.shared.queue.closed = true →
      ¬(p.asleep.Nonempty ∧ p.wokenUp = ∅)) := by
  obtain ⟨hwf, hitems, _⟩ := queueInit_some ok capacity q hq
  have hnone : (Pool.start n q).asleep = ∅ := by
    apply eq_empty_of_forall_notMem
    intro i hi
    have hw := (mem_asleep _ i).mp hi
    cases hw
  have hstart : Wakeful (Pool.start n q) := by
    refine ⟨fun hne => ?_, fun _ => hnone⟩
    rw [hnone] at hne
    exact absurd hne not_nonempty_empty
  obtain ⟨_, h⟩ := foldlM_inv poolStep (fun p => Accounted p ∧ Wakeful p) poolStep_wakeful _ p acts
    hrun ⟨start_accounted n q hwf hitems, hstart⟩
  refine ⟨h.pending, h.closed, ?_⟩
  rintro hbusy ⟨hasleep, hwoken⟩
  rcases hbusy with hcount | hclosed
  · have hpending := h.pending hasleep
    rw [hwoken, card_empty] at hpending
    omega
  · rw [h.closed hclosed] at hasleep
    exact not_nonempty_empty hasleep

/-- two workers go to sleep, and a push wakes the first -/
def sleepAndPush : List (PoolAct 2) :=
  [.acceptor (.ok 0) ∅, .acceptor (.ok 0) ∅, .acceptor .again ∅, .worker 0 true, .worker 1 true,
    .acceptor .again ∅, .acceptor (.ok 0) ∅, .acceptor (.ok 7) ∅, .acceptor .again ∅,
    .acceptor .again {0}]

theorem pool_wakeups_sleepAndPush :
    ∃ q p, queueInit true 1 = some q ∧ sleepAndPush.foldlM poolStep (Pool.start 2 q) = some p ∧
      p.asleep = {1} ∧ p.shared.queue.ring.count = 1 ∧ 1 ≤ #p.wokenUp := by
  obtain ⟨q, hq⟩ : ∃ q, queueInit true 1 = some q := ⟨_, rfl⟩
  obtain ⟨p, hp⟩ : ∃ p, sleepAndPush.foldlM poolStep (Pool.start 2 q) = some p := by
    cases hq
    exact ⟨_, rfl⟩
  have hstate : p.asleep = {1} ∧ p.shared.queue.ring.count = 1 := by
    cases hq
    cases hp
    exact ⟨by decide, rfl⟩
  obtain ⟨hasleep, hcount⟩ := hstate
  obtain ⟨hpending, _⟩ := pool_wakeups 2 true 1 q hq sleepAndPush p hp
  have hone := hpending (by rw [hasleep]; exact singleton_nonempty 1)
  rw [hcount] at hone
  exact ⟨q, p, hq, hp, hasleep, hcount, hone⟩

end CServer
