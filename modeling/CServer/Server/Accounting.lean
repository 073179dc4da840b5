import CServer.Server.Pool
import Mathlib.Algebra.Order.Group.Multiset
import Mathlib.Tactic.Abel

/-!
# Where the connections are

* `Worker.busy`, `Worker.held`, …     what a place contributes to the accounts;
* `WorkerMove`, `workerStep_move`     a step of a worker, account by account;
* `AcceptorMove`                      a step of the acceptor alone;
* `Accounted`, `poolStep_accounted`   the accounts, and that every step keeps them;
* `pool_accounts`                     the accounts in every state that the pool reaches, and when
                                      `server_run` has returned 0.
-/

namespace CServer

/-! ## the accounts -/

/-- between the pop and the increment of `connections_handled` -/
@[simp] def Worker.busy : Worker → Nat
  | .reading _ | .failing _ | .dispatching _ | .closing _ | .closed => 1
  | _ => 0

/-- where the request of this connection may be counted in `http_requests` -/
@[simp] def Worker.requested : Worker → Nat
  | .dispatching _ | .closing _ | .closed => 1
  | _ => 0

/-- where a failure of this connection may be counted in `http_errors` -/
@[simp] def Worker.errored : Worker → Nat
  | .closing _ | .closed => 1
  | _ => 0

/-- the descriptor that a worker has popped and not closed -/
@[simp] def Worker.held : Worker → Multiset Int
  | .reading fd | .failing fd | .dispatching fd | .closing fd => {fd}
  | _ => 0

/-- between the increment of `connections_accepted` and the push or the increment of
`connections_dropped_queue_full` -/
@[simp] def Acceptor.busy : Acceptor → Nat
  | .pushing _ | .dropping _ => 1
  | _ => 0

/-- the descriptor that the acceptor has accepted and neither pushed nor closed -/
@[simp] def Acceptor.held : Acceptor → Multiset Int
  | .accepted fd | .pushing fd | .dropping fd | .closing fd => {fd}
  | _ => 0

/-- how many of `n` workers the acceptor has joined on its way to a result of 0 -/
@[simp] def Acceptor.joined (n : Nat) : Acceptor → Nat
  | .joining i => i
  | .returned code => if code = 0 then n else 0
  | _ => 0

structure Accounted {n : Nat} (p : Pool n) : Prop where
  wf : p.shared.queue.WF
  connections : p.shared.stats.connectionsAccepted =
    p.shared.stats.connectionsHandled + p.shared.stats.connectionsDroppedQueueFull +
      p.shared.queue.ring.count + total Worker.busy p.workers + p.acceptor.busy
  requests : p.shared.stats.httpRequests ≤
    p.shared.stats.connectionsHandled + total Worker.requested p.workers
  errors : p.shared.stats.httpErrors ≤
    p.shared.stats.connectionsHandled + total Worker.errored p.workers
  gives : p.shared.gives = p.shared.served + total Worker.held p.workers
  accepts : p.shared.accepts =
    p.shared.gives + p.shared.queue.ring.contents + p.acceptor.held + p.shared.dropped
  exited : ∀ i, p.workers i = .exited →
    p.shared.queue.closed = true ∧ p.shared.queue.ring.count = 0
  joined : ∀ i : Fin n, i.val < p.acceptor.joined n → p.workers i = .exited
  unstarted : ∀ (i : Fin n) k, p.acceptor = .spawning k → k ≤ i.val → p.workers i = .unstarted

/-! ## a step of a worker -/

/-- what one worker on its way from `w` to `w'` does to what it shares with the others -/
structure WorkerMove (sh : PoolShared) (w : Worker) (sh' : PoolShared) (w' : Worker) : Prop where
  wf : sh'.queue.WF
  closed : sh'.queue.closed = sh.queue.closed
  count_le : sh'.queue.ring.count ≤ sh.queue.ring.count
  accepts : sh'.accepts = sh.accepts
  dropped : sh'.dropped = sh.dropped
  connectionsAccepted : sh'.stats.connectionsAccepted = sh.stats.connectionsAccepted
  droppedQueueFull :
    sh'.stats.connectionsDroppedQueueFull = sh.stats.connectionsDroppedQueueFull
  contents : sh'.gives + sh'.queue.ring.contents = sh.gives + sh.queue.ring.contents
  gives : sh'.gives + sh.served + w.held = sh.gives + sh'.served + w'.held
  connections : sh'.stats.connectionsHandled + sh'.queue.ring.count + w'.busy =
    sh.stats.connectionsHandled + sh.queue.ring.count + w.busy
  requests : sh'.stats.httpRequests + sh.stats.connectionsHandled + w.requested ≤
    sh.stats.httpRequests + sh'.stats.connectionsHandled + w'.requested
  errors : sh'.stats.httpErrors + sh.stats.connectionsHandled + w.errored ≤
    sh.stats.httpErrors + sh'.stats.connectionsHandled + w'.errored
  running : w ≠ .exited ∧ w ≠ .unstarted
  exited : w' = .exited → sh'.queue.closed = true ∧ sh'.queue.ring.count = 0

theorem workerPop_move (sh sh' : PoolShared) (w w' : Worker) (hwf : sh.queue.WF)
    (hw : w = .popping ∨ w = .woken) (h : workerPop sh = some (sh', w')) :
    WorkerMove sh w sh' w' := by
  have hplace : w.busy = 0 ∧ w.requested = 0 ∧ w.errored = 0 ∧ w.held = 0 ∧
      w ≠ .exited ∧ w ≠ .unstarted := by
    rcases hw with rfl | rfl <;>
      exact ⟨rfl, rfl, rfl, rfl, Worker.noConfusion, Worker.noConfusion⟩
  obtain ⟨hbusy, hrequested, herrored, hheld, hrunning⟩ := hplace
  rcases workerPop_spec sh sh' w' hwf h with
    ⟨_, _, rfl, rfl⟩ | ⟨hzero, hclosed, rfl, rfl⟩ | ⟨fd, ring, rfl, rfl, hring, hcontents, hcount⟩
  · exact {
      wf := hwf, closed := rfl, count_le := le_refl _, accepts := rfl, dropped := rfl
      connectionsAccepted := rfl, droppedQueueFull := rfl, contents := rfl
      gives := by rw [hheld]; rfl
      connections := by rw [hbusy]; rfl
      requests := by rw [hrequested]; exact le_refl _
      errors := by rw [herrored]; exact le_refl _
      running := hrunning
      exited := fun hw' => Worker.noConfusion hw' }
  · exact {
      wf := hwf, closed := rfl, count_le := le_refl _, accepts := rfl, dropped := rfl
      connectionsAccepted := rfl, droppedQueueFull := rfl, contents := rfl
      gives := by rw [hheld]; rfl
      connections := by rw [hbusy]; rfl
      requests := by rw [hrequested]; exact le_refl _
      errors := by rw [herrored]; exact le_refl _
      running := hrunning
      exited := fun _ => ⟨hclosed, hzero⟩ }
  · exact {
      wf := hring, closed := rfl, accepts := rfl, dropped := rfl
      connectionsAccepted := rfl, droppedQueueFull := rfl
      count_le := by show ring.count ≤ _; omega
      contents := by
        show fd ::ₘ sh.gives + (ring.contents : Multiset Int) = _
        rw [hcontents, ← Multiset.cons_coe, Multiset.cons_add, Multiset.add_cons]
      gives := by
        show fd ::ₘ sh.gives + sh.served + w.held = sh.gives + sh.served + {fd}
        rw [hheld, add_zero, Multiset.cons_add, ← Multiset.singleton_add, add_comm]
      connections := by
        show sh.stats.connectionsHandled + ring.count + 1 =
          sh.stats.connectionsHandled + sh.queue.ring.count + w.busy
        omega
      requests := by rw [hrequested]; exact le_refl _
      errors := by rw [herrored]; exact le_refl _
      running := hrunning
      exited := fun hw' => Worker.noConfusion hw' }

/-- a step of a worker outside `queue_pop` -/
theorem WorkerMove.of_queue {sh sh' : PoolShared} {w w' : Worker} (hwf : sh.queue.WF)
    (hqueue : sh'.queue = sh.queue) (hgives : sh'.gives = sh.gives)
    (haccepts : sh'.accepts = sh.accepts ∧ sh'.dropped = sh.dropped)
    (hstats : sh'.stats.connectionsAccepted = sh.stats.connectionsAccepted ∧
      sh'.stats.connectionsDroppedQueueFull = sh.stats.connectionsDroppedQueueFull)
    (hheld : sh.served + w.held = sh'.served + w'.held)
    (hbusy : sh'.stats.connectionsHandled + w'.busy = sh.stats.connectionsHandled + w.busy)
    (hrequests : sh'.stats.httpRequests + sh.stats.connectionsHandled + w.requested ≤
      sh.stats.httpRequests + sh'.stats.connectionsHandled + w'.requested)
    (herrors : sh'.stats.httpErrors + sh.stats.connectionsHandled + w.errored ≤
      sh.stats.httpErrors + sh'.stats.connectionsHandled + w'.errored)
    (hw : w ≠ .exited ∧ w ≠ .unstarted) (hw' : w' ≠ .exited) : WorkerMove sh w sh' w' where
  wf := hqueue ▸ hwf
  closed := by rw [hqueue]
  count_le := by rw [hqueue]
  accepts := haccepts.1
  dropped := haccepts.2
  connectionsAccepted := hstats.1
  droppedQueueFull := hstats.2
  contents := by rw [hqueue, hgives]
  gives := by rw [hgives, add_assoc, add_assoc, hheld]
  connections := by rw [hqueue]; omega
  requests := hrequests
  errors := herrors
  running := hw
  exited := fun h => absurd h hw'

/-- **A step of a worker, account by account.** -/
theorem workerStep_move (sh sh' : PoolShared) (ok : Bool) (w w' : Worker) (hwf : sh.queue.WF)
    (h : workerStep sh ok w = some (sh', w')) : WorkerMove sh w sh' w' := by
  cases w with
  | unstarted => cases h
  | popping => exact workerPop_move sh sh' _ w' hwf (.inl rfl) h
  | waiting => cases h
  | woken => exact workerPop_move sh sh' _ w' hwf (.inr rfl) h
  | reading fd =>
    simp only [workerStep] at h
    split_ifs at h
    · cases h
      exact .of_queue hwf rfl rfl ⟨rfl, rfl⟩ ⟨rfl, rfl⟩ rfl rfl
        (by simp only [Worker.requested]; omega) (by simp)
        ⟨Worker.noConfusion, Worker.noConfusion⟩ Worker.noConfusion
    · cases h
      exact .of_queue hwf rfl rfl ⟨rfl, rfl⟩ ⟨rfl, rfl⟩ rfl rfl
        (by simp) (by simp) ⟨Worker.noConfusion, Worker.noConfusion⟩ Worker.noConfusion
  | failing fd =>
    cases h
    exact .of_queue hwf rfl rfl ⟨rfl, rfl⟩ ⟨rfl, rfl⟩ rfl rfl
      (by simp) (by simp only [Worker.errored]; omega)
      ⟨Worker.noConfusion, Worker.noConfusion⟩ Worker.noConfusion
  | dispatching fd =>
    simp only [workerStep] at h
    split_ifs at h
    · cases h
      exact .of_queue hwf rfl rfl ⟨rfl, rfl⟩ ⟨rfl, rfl⟩ rfl rfl
        (by simp) (by simp) ⟨Worker.noConfusion, Worker.noConfusion⟩ Worker.noConfusion
    · cases h
      exact .of_queue hwf rfl rfl ⟨rfl, rfl⟩ ⟨rfl, rfl⟩ rfl rfl
        (by simp) (by simp only [Worker.errored]; omega)
        ⟨Worker.noConfusion, Worker.noConfusion⟩ Worker.noConfusion
  | closing fd =>
    cases h
    have hheld : sh.served + {fd} = fd ::ₘ sh.served + 0 := by
      rw [add_zero, ← Multiset.singleton_add, add_comm]
    exact .of_queue hwf rfl rfl ⟨rfl, rfl⟩ ⟨rfl, rfl⟩ hheld rfl
      (by simp) (by simp) ⟨Worker.noConfusion, Worker.noConfusion⟩ Worker.noConfusion
  | closed =>
    cases h
    exact .of_queue hwf rfl rfl ⟨rfl, rfl⟩ ⟨rfl, rfl⟩ rfl rfl
      (by simp only [Worker.requested]; omega) (by simp only [Worker.errored]; omega)
      ⟨Worker.noConfusion, Worker.noConfusion⟩ Worker.noConfusion
  | exited => cases h

section
variable {n : Nat} {p p' : Pool n}

theorem Accounted.worker (h : Accounted p) (i : Fin n) (sh' : PoolShared) (w' : Worker)
    (hmove : WorkerMove p.shared (p.workers i) sh' w') :
    Accounted { p with shared := sh', workers := Function.update p.workers i w' } := by
  have hbusy := total_update Worker.busy p.workers i w'
  have hrequested := total_update Worker.requested p.workers i w'
  have herrored := total_update Worker.errored p.workers i w'
  have hheld := total_update Worker.held p.workers i w'
  refine ⟨hmove.wf, ?_, ?_, ?_, ?_, ?_, fun j hj => ?_, fun j hj => ?_, fun j k hk hj => ?_⟩
  · have h1 := h.connections
    have h2 := hmove.connections
    have h3 := hmove.connectionsAccepted
    have h4 := hmove.droppedQueueFull
    show sh'.stats.connectionsAccepted = sh'.stats.connectionsHandled +
      sh'.stats.connectionsDroppedQueueFull + sh'.queue.ring.count +
      total Worker.busy (Function.update p.workers i w') + p.acceptor.busy
    omega
  · have h1 := h.requests
    have h2 := hmove.requests
    show sh'.stats.httpRequests ≤ sh'.stats.connectionsHandled +
      total Worker.requested (Function.update p.workers i w')
    omega
  · have h1 := h.errors
    have h2 := hmove.errors
    show sh'.stats.httpErrors ≤ sh'.stats.connectionsHandled +
      total Worker.errored (Function.update p.workers i w')
    omega
  · show sh'.gives = sh'.served + total Worker.held (Function.update p.workers i w')
    refine add_right_cancel (?_ : sh'.gives + (p.workers i).held = _ + (p.workers i).held)
    refine add_left_cancel (?_ : p.shared.served + _ = p.shared.served + _)
    calc p.shared.served + (sh'.gives + (p.workers i).held)
        = sh'.gives + p.shared.served + (p.workers i).held := by abel
      _ = p.shared.gives + sh'.served + w'.held := hmove.gives
      _ = p.shared.served + (sh'.served + (total Worker.held p.workers + w'.held)) := by
          rw [h.gives]
          abel
      _ = p.shared.served + (sh'.served + total Worker.held (Function.update p.workers i w') +
            (p.workers i).held) := by
          rw [← hheld, add_assoc]
  · show sh'.accepts = sh'.gives + sh'.queue.ring.contents + p.acceptor.held + sh'.dropped
    rw [hmove.accepts, hmove.dropped, hmove.contents, h.accepts]
  · by_cases hij : j = i
    · subst hij
      have hw : Function.update p.workers j w' j = .exited := hj
      rw [Function.update_self] at hw
      exact hmove.exited hw
    · have hw : Function.update p.workers i w' j = .exited := hj
      rw [Function.update_of_ne hij] at hw
      obtain ⟨hclosed, hzero⟩ := h.exited j hw
      have hle := hmove.count_le
      exact ⟨hmove.closed.trans hclosed, by show sh'.queue.ring.count = 0; omega⟩
  · have hw := h.joined j hj
    have hij : j ≠ i := by
      rintro rfl
      exact hmove.running.1 hw
    show Function.update p.workers i w' j = .exited
    rw [Function.update_of_ne hij, hw]
  · have hw := h.unstarted j k hk hj
    have hij : j ≠ i := by
      rintro rfl
      exact hmove.running.2 hw
    show Function.update p.workers i w' j = .unstarted
    rw [Function.update_of_ne hij, hw]

/-! ## a step of the acceptor -/

theorem total_wake {M : Type} [AddCommMonoid M] [IsRightCancelAdd M] (weight : Worker → M)
    (who : Finset (Fin n)) (hwho : who ⊆ p.asleep) (hweight : weight .waiting = weight .woken) :
    total weight (p.wake who).workers = total weight p.workers := by
  have hwaiting : ∀ i ∈ who, p.workers i = .waiting := fun i hi =>
    (Finset.mem_filter.mp (hwho hi)).2
  have h := total_moveAll weight p.workers who .woken .waiting hwaiting
  rw [hweight] at h
  exact add_right_cancel h

theorem Accounted.wake (h : Accounted p) (who : Finset (Fin n)) (hwho : who ⊆ p.asleep) :
    Accounted (p.wake who) := by
  have hplace : ∀ i w, w ≠ .waiting → p.workers i = w → (p.wake who).workers i = w := by
    intro i w hw hi
    refine (moveAll_notMem _ _ _ _ fun hmem => hw ?_).trans hi
    rw [← hi]
    exact (Finset.mem_filter.mp (hwho hmem)).2
  refine ⟨h.wf, ?_, ?_, ?_, ?_, h.accepts, fun i hi => ?_, fun i hi => ?_, fun i k hk hi => ?_⟩
  · rw [total_wake Worker.busy who hwho rfl]
    exact h.connections
  · rw [total_wake Worker.requested who hwho rfl]
    exact h.requests
  · rw [total_wake Worker.errored who hwho rfl]
    exact h.errors
  · rw [total_wake Worker.held who hwho rfl]
    exact h.gives
  · by_cases hmem : i ∈ who
    · have hw : (p.wake who).workers i = .woken := moveAll_mem _ _ _ _ hmem
      rw [hw] at hi
      cases hi
    · have hw : (p.wake who).workers i = p.workers i := moveAll_notMem _ _ _ _ hmem
      exact h.exited i (hw ▸ hi)
  · exact hplace i .exited Worker.noConfusion (h.joined i hi)
  · exact hplace i .unstarted Worker.noConfusion (h.unstarted i k hk hi)

theorem Accounted.closeQueue (h : Accounted p) : Accounted p.closeQueue := by
  have hclosed : Accounted { p with shared.queue := queueClose p.shared.queue } :=
    ⟨h.wf, h.connections, h.requests, h.errors, h.gives, h.accepts,
      fun i hi => ⟨rfl, (h.exited i hi).2⟩, h.joined, h.unstarted⟩
  exact hclosed.wake _ (Finset.Subset.refl _)

/-- a step of the acceptor that leaves the queue and the workers alone -/
structure AcceptorMove (p p' : Pool n) : Prop where
  workers : p'.workers = p.workers
  queue : p'.shared.queue = p.shared.queue
  gives : p'.shared.gives = p.shared.gives ∧ p'.shared.served = p.shared.served
  handled : p'.shared.stats.connectionsHandled = p.shared.stats.connectionsHandled
  http : p'.shared.stats.httpRequests = p.shared.stats.httpRequests ∧
    p'.shared.stats.httpErrors = p.shared.stats.httpErrors
  connections :
    p'.shared.stats.connectionsAccepted + p.shared.stats.connectionsDroppedQueueFull +
        p.acceptor.busy =
      p.shared.stats.connectionsAccepted + p'.shared.stats.connectionsDroppedQueueFull +
        p'.acceptor.busy
  accepts : p'.shared.accepts + (p.acceptor.held + p.shared.dropped) =
    p.shared.accepts + (p'.acceptor.held + p'.shared.dropped)
  joined : ∀ i : Fin n, i.val < p'.acceptor.joined n → p.workers i = .exited
  unstarted : ∀ k, p'.acceptor ≠ .spawning k

theorem Accounted.acceptor (h : Accounted p) (hmove : AcceptorMove p p') : Accounted p' := by
  obtain ⟨hgives, hserved⟩ := hmove.gives
  obtain ⟨hrequests, herrors⟩ := hmove.http
  refine ⟨?_, ?_, ?_, ?_, ?_, ?_, ?_, ?_, fun i k hk => absurd hk (hmove.unstarted k)⟩
  · rw [hmove.queue]
    exact h.wf
  · have h1 := h.connections
    have h2 := hmove.connections
    rw [hmove.handled, hmove.queue, hmove.workers]
    omega
  · rw [hrequests, hmove.handled, hmove.workers]
    exact h.requests
  · rw [herrors, hmove.handled, hmove.workers]
    exact h.errors
  · rw [hgives, hserved, hmove.workers]
    exact h.gives
  · refine add_right_cancel (?_ : p'.shared.accepts + (p.acceptor.held + p.shared.dropped) =
      _ + (p.acceptor.held + p.shared.dropped))
    rw [hmove.accepts, h.accepts, hgives, hmove.queue]
    abel
  · rw [hmove.queue, hmove.workers]
    exact h.exited
  · rw [hmove.workers]
    exact hmove.joined

theorem Accounted.push (h : Accounted p) (fd : Int) (who : Finset (Fin n))
    (hacc : p.acceptor = .pushing fd) (hpush : acceptorPush p fd who = some p') :
    Accounted p' := by
  unfold acceptorPush at hpush
  rcases queueTryPush_spec p.shared.queue fd h.wf with
    ⟨_, hresult⟩ | ⟨hopen, _, ring, hresult, hring, hcontents, hcount, _⟩
  · simp only [hresult] at hpush
    rw [if_pos (by decide)] at hpush
    cases hpush
    refine h.acceptor ⟨rfl, rfl, ⟨rfl, rfl⟩, rfl, ⟨rfl, rfl⟩, ?_, ?_, fun i hi => ?_, fun k hk => ?_⟩
    · rw [hacc]
      rfl
    · rw [hacc]
      rfl
    · cases hi
    · cases hk
  · simp only [hresult] at hpush
    rw [if_neg (by simp)] at hpush
    split_ifs at hpush with hsignals
    cases hpush
    have hpushed : Accounted { p with shared.queue.ring := ring, acceptor := .checking } := by
      refine ⟨hring, ?_, h.requests, h.errors, h.gives, ?_, fun i hi => ?_, fun i hi => ?_,
        fun i k hk => ?_⟩
      · have h1 := h.connections
        rw [hacc] at h1
        show p.shared.stats.connectionsAccepted =
          p.shared.stats.connectionsHandled + p.shared.stats.connectionsDroppedQueueFull +
            ring.count + total Worker.busy p.workers + 0
        rw [h1, hcount]
        simp only [Acceptor.busy]
        omega
      · have h1 := h.accepts
        rw [hacc] at h1
        show p.shared.accepts = p.shared.gives + (ring.contents : Multiset Int) + 0 +
          p.shared.dropped
        rw [h1, hcontents, ← Multiset.coe_add, Multiset.coe_singleton]
        simp only [Acceptor.held]
        abel
      · have hclosed := (h.exited i hi).1
        rw [hopen] at hclosed
        cases hclosed
      · cases hi
      · cases hk
    exact hpushed.wake who hsignals.1

theorem Accounted.spawn (h : Accounted p) (i : Nat) (hi : i < n)
    (hacc : p.acceptor = .spawning i) :
    Accounted { p with
      acceptor := .spawning (i + 1)
      workers := Function.update p.workers ⟨i, hi⟩ .popping } := by
  have hworker := h.unstarted ⟨i, hi⟩ i hacc (le_refl _)
  have htotal : ∀ {M : Type} [AddCommMonoid M] [IsRightCancelAdd M] (weight : Worker → M),
      weight .unstarted = weight .popping →
      total weight (Function.update p.workers ⟨i, hi⟩ .popping) = total weight p.workers := by
    intro M _ _ weight hweight
    have hupdate := total_update weight p.workers ⟨i, hi⟩ .popping
    rw [hworker, hweight] at hupdate
    exact add_right_cancel hupdate
  have hconnections := h.connections
  have haccepts := h.accepts
  rw [hacc] at hconnections haccepts
  refine ⟨h.wf, ?_, ?_, ?_, ?_, haccepts, fun j hj => ?_, fun j hj => ?_, fun j k hk hj => ?_⟩
  · rw [htotal Worker.busy rfl]
    exact hconnections
  · rw [htotal Worker.requested rfl]
    exact h.requests
  · rw [htotal Worker.errored rfl]
    exact h.errors
  · rw [htotal Worker.held rfl]
    exact h.gives
  · have hj : Function.update p.workers ⟨i, hi⟩ .popping j = .exited := hj
    by_cases hij : j = ⟨i, hi⟩
    · rw [hij, Function.update_self] at hj
      cases hj
    · rw [Function.update_of_ne hij] at hj
      exact h.exited j hj
  · cases hj
  · cases hk
    have hij : j ≠ ⟨i, hi⟩ := by
      rintro rfl
      exact absurd hj (Nat.not_succ_le_self i)
    show Function.update p.workers ⟨i, hi⟩ .popping j = .unstarted
    rw [Function.update_of_ne hij]
    exact h.unstarted j i hacc (by omega)

/-- a step of the acceptor that changes no account but its place -/
theorem Accounted.goto (h : Accounted p) (a : Acceptor) (stop : Bool) (errors : Nat)
    (hbusy : p.acceptor.busy = a.busy) (hheld : p.acceptor.held = a.held)
    (hjoined : ∀ i : Fin n, i.val < a.joined n → p.workers i = .exited)
    (hstart : ∀ k, a ≠ .spawning k) :
    Accounted { p with
      shared.stopRequested := stop
      shared.stats.errors := errors
      acceptor := a } :=
  h.acceptor ⟨rfl, rfl, ⟨rfl, rfl⟩, rfl, ⟨rfl, rfl⟩, by rw [hbusy], by rw [hheld], hjoined, hstart⟩

/-- an accepted descriptor is held by the acceptor -/
theorem Accounted.take (h : Accounted p) (fd : Int) (hacc : p.acceptor = .accepting) :
    Accounted { p with
      shared.accepts := fd ::ₘ p.shared.accepts
      acceptor := .accepted fd } := by
  refine h.acceptor ⟨rfl, rfl, ⟨rfl, rfl⟩, rfl, ⟨rfl, rfl⟩, ?_, ?_,
    fun i hi => absurd hi (Nat.not_lt_zero _), fun _ => Acceptor.noConfusion⟩
  · rw [hacc]
    rfl
  · rw [hacc]
    show fd ::ₘ p.shared.accepts + (0 + p.shared.dropped) =
      p.shared.accepts + ({fd} + p.shared.dropped)
    rw [← Multiset.singleton_add]
    abel

theorem Accounted.countAccepted (h : Accounted p) (fd : Int) (hacc : p.acceptor = .accepted fd) :
    Accounted { p with
      shared.stats.connectionsAccepted := p.shared.stats.connectionsAccepted + 1
      acceptor := .pushing fd } := by
  refine h.acceptor ⟨rfl, rfl, ⟨rfl, rfl⟩, rfl, ⟨rfl, rfl⟩, ?_, ?_,
    fun i hi => absurd hi (Nat.not_lt_zero _), fun _ => Acceptor.noConfusion⟩
  · rw [hacc]
    show p.shared.stats.connectionsAccepted + 1 +
        p.shared.stats.connectionsDroppedQueueFull + 0 =
      p.shared.stats.connectionsAccepted + p.shared.stats.connectionsDroppedQueueFull + 1
    omega
  · rw [hacc]
    rfl

theorem Accounted.countDropped (h : Accounted p) (fd : Int) (hacc : p.acceptor = .dropping fd) :
    Accounted { p with
      shared.stats.connectionsDroppedQueueFull := p.shared.stats.connectionsDroppedQueueFull + 1
      acceptor := .closing fd } := by
  refine h.acceptor ⟨rfl, rfl, ⟨rfl, rfl⟩, rfl, ⟨rfl, rfl⟩, ?_, ?_,
    fun i hi => absurd hi (Nat.not_lt_zero _), fun _ => Acceptor.noConfusion⟩
  · rw [hacc]
    rfl
  · rw [hacc]
    rfl

/-- a descriptor that did not fit the queue is closed by the acceptor -/
theorem Accounted.drop (h : Accounted p) (fd : Int) (hacc : p.acceptor = .closing fd) :
    Accounted { p with
      shared.dropped := fd ::ₘ p.shared.dropped
      acceptor := .checking } := by
  refine h.acceptor ⟨rfl, rfl, ⟨rfl, rfl⟩, rfl, ⟨rfl, rfl⟩, ?_, ?_,
    fun i hi => absurd hi (Nat.not_lt_zero _), fun _ => Acceptor.noConfusion⟩
  · rw [hacc]
    rfl
  · rw [hacc]
    show p.shared.accepts + ({fd} + p.shared.dropped) =
      p.shared.accepts + (0 + fd ::ₘ p.shared.dropped)
    rw [← Multiset.singleton_add, zero_add]

/-- the acceptor closes the queue on its way to `a` -/
theorem Accounted.shut (h : Accounted p) (a : Acceptor) (hbusy : p.acceptor.busy = a.busy)
    (hheld : p.acceptor.held = a.held) (hjoined : a.joined n = 0) (hstart : ∀ k, a ≠ .spawning k) :
    Accounted { p.closeQueue with acceptor := a } := by
  refine h.closeQueue.goto a p.shared.stopRequested p.shared.stats.errors hbusy hheld
    (fun i hi => ?_) hstart
  rw [hjoined] at hi
  exact absurd hi (Nat.not_lt_zero _)

/-- a worker is joined when it has exited -/
theorem Accounted.join (h : Accounted p) (i : Nat) (hacc : p.acceptor = .joining i)
    (hexited : p.hasExited i) : Accounted { p with acceptor := .joining (i + 1) } := by
  have hjoined := h.joined
  rw [hacc] at hjoined
  refine h.goto (.joining (i + 1)) p.shared.stopRequested p.shared.stats.errors (by rw [hacc]; rfl)
    (by rw [hacc]; rfl) (fun j hj => ?_) fun _ => Acceptor.noConfusion
  rcases Nat.lt_succ_iff_lt_or_eq.mp hj with hlt | heq
  · exact hjoined j hlt
  · subst heq
    exact hexited j.isLt

theorem Accounted.returnZero (h : Accounted p) (i : Nat) (hacc : p.acceptor = .joining i)
    (hi : n ≤ i) : Accounted { p with acceptor := .returned 0 } := by
  have hjoined := h.joined
  rw [hacc] at hjoined
  exact h.goto (.returned 0) p.shared.stopRequested p.shared.stats.errors (by rw [hacc]; rfl)
    (by rw [hacc]; rfl) (fun j _ => hjoined j (lt_of_lt_of_le j.isLt hi))
    fun _ => Acceptor.noConfusion

/-- **A step of the acceptor keeps the accounts.** -/
theorem acceptorStep_accounted (r : SysResult) (who : Finset (Fin n)) (h : Accounted p)
    (hstep : acceptorStep p r who = some p') : Accounted p' := by
  -- a step to a place with the same accounts
  have hgo : ∀ a errors, p.acceptor.busy = a.busy → p.acceptor.held = a.held → a.joined n = 0 →
      (∀ k, a ≠ .spawning k) →
      Accounted { p with shared.stats.errors := errors, acceptor := a } := by
    intro a errors hbusy hheld hjoined hstart
    refine h.goto a p.shared.stopRequested errors hbusy hheld (fun i hi => ?_) hstart
    rw [hjoined] at hi
    exact absurd hi (Nat.not_lt_zero _)
  cases hacc : p.acceptor with
  | spawning i =>
    simp only [acceptorStep, hacc] at hstep
    rw [hacc] at hgo
    split_ifs at hstep with hi
    · split at hstep
      · cases hstep
        exact h.spawn i hi hacc
      · cases hstep
        exact hgo (.aborting i) _ rfl rfl rfl fun _ => Acceptor.noConfusion
    · cases hstep
      exact hgo .checking _ rfl rfl rfl fun _ => Acceptor.noConfusion
  | aborting i =>
    simp only [acceptorStep, hacc] at hstep
    cases hstep
    exact h.goto (.abortClosing i) true p.shared.stats.errors (by rw [hacc]; rfl)
      (by rw [hacc]; rfl) (fun i hi => absurd hi (Nat.not_lt_zero _)) fun _ => Acceptor.noConfusion
  | abortClosing i =>
    simp only [acceptorStep, hacc] at hstep
    cases hstep
    exact h.shut (.abortJoining i 0) (by rw [hacc]; rfl) (by rw [hacc]; rfl) rfl
      fun _ => Acceptor.noConfusion
  | abortJoining i j =>
    simp only [acceptorStep, hacc] at hstep
    rw [hacc] at hgo
    split_ifs at hstep
    · cases hstep
      exact hgo (.abortJoining i (j + 1)) _ rfl rfl rfl fun _ => Acceptor.noConfusion
    · cases hstep
      exact hgo (.returned (-1)) _ rfl rfl rfl fun _ => Acceptor.noConfusion
  | checking =>
    simp only [acceptorStep, hacc] at hstep
    rw [hacc] at hgo
    split_ifs at hstep
    · cases hstep
      exact hgo .draining _ rfl rfl rfl fun _ => Acceptor.noConfusion
    · cases hstep
      exact hgo .polling _ rfl rfl rfl fun _ => Acceptor.noConfusion
  | polling =>
    simp only [acceptorStep, hacc] at hstep
    rw [hacc] at hgo
    split at hstep
    · cases hstep
      exact hgo .accepting _ rfl rfl rfl fun _ => Acceptor.noConfusion
    · cases hstep
      exact hgo .checking _ rfl rfl rfl fun _ => Acceptor.noConfusion
    · cases hstep
      exact hgo .draining _ rfl rfl rfl fun _ => Acceptor.noConfusion
  | accepting =>
    simp only [acceptorStep, hacc] at hstep
    rw [hacc] at hgo
    split at hstep
    · rename_i fd
      split_ifs at hstep
      cases hstep
      exact h.take fd hacc
    · cases hstep
      exact hgo .checking _ rfl rfl rfl fun _ => Acceptor.noConfusion
    · cases hstep
      exact hgo .acceptFailed _ rfl rfl rfl fun _ => Acceptor.noConfusion
  | acceptFailed =>
    simp only [acceptorStep, hacc] at hstep
    rw [hacc] at hgo
    split_ifs at hstep
    · cases hstep
      exact hgo .draining _ rfl rfl rfl fun _ => Acceptor.noConfusion
    · cases hstep
      exact hgo .checking _ rfl rfl rfl fun _ => Acceptor.noConfusion
  | accepted fd =>
    simp only [acceptorStep, hacc] at hstep
    cases hstep
    exact h.countAccepted fd hacc
  | pushing fd =>
    simp only [acceptorStep, hacc] at hstep
    exact h.push fd who hacc hstep
  | dropping fd =>
    simp only [acceptorStep, hacc] at hstep
    cases hstep
    exact h.countDropped fd hacc
  | closing fd =>
    simp only [acceptorStep, hacc] at hstep
    cases hstep
    exact h.drop fd hacc
  | draining =>
    simp only [acceptorStep, hacc] at hstep
    cases hstep
    exact h.shut (.joining 0) (by rw [hacc]; rfl) (by rw [hacc]; rfl) rfl
      fun _ => Acceptor.noConfusion
  | joining i =>
    simp only [acceptorStep, hacc] at hstep
    split_ifs at hstep with hi hexited
    · cases hstep
      exact h.join i hacc hexited
    · cases hstep
      exact h.returnZero i hacc (Nat.le_of_not_lt hi)
  | returned code =>
    simp only [acceptorStep, hacc] at hstep
    cases hstep

/-! ## runs -/

/-- **Every step of the pool keeps the accounts.** -/
theorem poolStep_accounted (p : Pool n) (a : PoolAct n) (p' : Pool n)
    (hstep : poolStep p a = some p') (h : Accounted p) : Accounted p' := by
  cases a with
  | worker i ok =>
    obtain ⟨⟨sh', w'⟩, hmoved, hp'⟩ := Option.map_eq_some_iff.mp hstep
    rw [← hp']
    exact h.worker i sh' w' (workerStep_move _ _ ok _ _ h.wf hmoved)
  | acceptor r who => exact acceptorStep_accounted r who h hstep
  | spurious i =>
    unfold poolStep at hstep
    dsimp only at hstep
    split_ifs at hstep with hwaiting
    cases hstep
    refine h.wake {i} fun j hj => ?_
    rw [Finset.mem_singleton.mp hj]
    exact Finset.mem_filter.mpr ⟨Finset.mem_univ i, hwaiting⟩
  | stopStore =>
    cases hstep
    exact ⟨h.wf, h.connections, h.requests, h.errors, h.gives, h.accepts, h.exited, h.joined,
      h.unstarted⟩
  | stopClose =>
    cases hstep
    exact h.closeQueue

theorem start_accounted (n : Nat) (q : ConnQueue) (hwf : q.WF) (hitems : q.ring.contents = []) :
    Accounted (Pool.start n q) := by
  have hzero : ∀ {M : Type} [AddCommMonoid M] (weight : Worker → M), weight .unstarted = 0 →
      total weight (Pool.start n q).workers = 0 :=
    fun weight hweight => total_zero weight _ fun _ => hweight
  have hcount : q.ring.count = 0 := hwf.count_zero.mpr hitems
  refine ⟨hwf, ?_, Nat.zero_le _, Nat.zero_le _, ?_, ?_, fun i hi => ?_, fun i hi => ?_,
    fun _ _ _ _ => rfl⟩
  · have hbusy := hzero Worker.busy rfl
    show 0 = 0 + 0 + q.ring.count + total Worker.busy (Pool.start n q).workers + 0
    omega
  · show 0 = 0 + total Worker.held (Pool.start n q).workers
    rw [hzero _ rfl, add_zero]
  · show 0 = 0 + (q.ring.contents : Multiset Int) + 0 + 0
    rw [hitems]
    rfl
  · cases hi
  · cases hi

/-- where all workers have left, nothing is on its way -/
theorem Accounted.all_exited (h : Accounted p) (hn : 0 < n) (hexited : ∀ i, p.workers i = .exited) :
    p.shared.queue.ring.contents = [] ∧ total Worker.busy p.workers = 0 ∧
      total Worker.requested p.workers = 0 ∧ total Worker.errored p.workers = 0 ∧
      total Worker.held p.workers = 0 :=
  ⟨h.wf.count_zero.mp (h.exited ⟨0, hn⟩ (hexited _)).2,
    total_zero _ _ fun i => by rw [hexited i]; rfl,
    total_zero _ _ fun i => by rw [hexited i]; rfl,
    total_zero _ _ fun i => by rw [hexited i]; rfl,
    total_zero _ _ fun i => by rw [hexited i]; rfl⟩

end

/-- **The accounts in every state of the pool, and after `server_run` has returned 0.**

A descriptor number comes back once it is closed, so the accepts, the pops and the closes of a
number are counted. -/
theorem pool_accounts (n : Nat) (ok : Bool) (capacity : Int) (q : ConnQueue)
    (hq : queueInit ok capacity = some q) (acts : List (PoolAct n)) (p : Pool n)
    (hrun : acts.foldlM poolStep (Pool.start n q) = some p) :
    p.shared.stats.connectionsAccepted =
      p.shared.stats.connectionsHandled + p.shared.stats.connectionsDroppedQueueFull +
        p.shared.queue.ring.count + total Worker.busy p.workers + p.acceptor.busy ∧
    p.shared.accepts = p.shared.served + p.shared.dropped +
      (p.shared.queue.ring.contents + total Worker.held p.workers + p.acceptor.held) ∧
    p.shared.served + p.shared.dropped ≤ p.shared.accepts ∧
    p.shared.gives ≤ p.shared.accepts ∧
    (p.shared.accepts.Nodup → (p.shared.served + p.shared.dropped).Nodup ∧ p.shared.gives.Nodup) ∧
    (0 < n → p.acceptor = .returned 0 →
      p.shared.queue.ring.contents = [] ∧
      p.shared.served + p.shared.dropped = p.shared.accepts ∧
      p.shared.stats.connectionsAccepted =
        p.shared.stats.connectionsHandled + p.shared.stats.connectionsDroppedQueueFull ∧
      p.shared.stats.httpRequests ≤ p.shared.stats.connectionsHandled ∧
      p.shared.stats.httpErrors ≤ p.shared.stats.connectionsHandled) := by
  obtain ⟨hwf, hitems, _⟩ := queueInit_some ok capacity q hq
  have hstart := start_accounted n q hwf hitems
  have h := foldlM_inv poolStep Accounted poolStep_accounted _ p acts hrun hstart
  have hbalance : p.shared.accepts = p.shared.served + p.shared.dropped +
      (p.shared.queue.ring.contents + total Worker.held p.workers + p.acceptor.held) := by
    rw [h.accepts, h.gives]
    abel
  have hcloses : p.shared.served + p.shared.dropped ≤ p.shared.accepts := by
    rw [hbalance]
    exact Multiset.le_add_right _ _
  have hgives : p.shared.gives ≤ p.shared.accepts := by
    rw [h.accepts, add_assoc, add_assoc]
    exact Multiset.le_add_right _ _
  refine ⟨h.connections, hbalance, hcloses, hgives, fun hnodup => ?_, fun hn hreturned => ?_⟩
  · exact ⟨Multiset.nodup_of_le hcloses hnodup, Multiset.nodup_of_le hgives hnodup⟩
  · have hjoined := h.joined
    have hconnections := h.connections
    have hrequests := h.requests
    have herrors := h.errors
    rw [hreturned] at hjoined hconnections hbalance
    obtain ⟨hitems, hbusy, hrequested, herrored, hheld⟩ :=
      h.all_exited hn fun i => hjoined i i.isLt
    have hcount := h.wf.count_zero.mpr hitems
    refine ⟨hitems, ?_, ?_, ?_, ?_⟩
    · rw [hbalance, hitems, hheld]
      exact (add_zero _).symm
    · rw [hbusy, hcount] at hconnections
      exact hconnections
    · rw [hrequested] at hrequests
      exact hrequests
    · rw [herrored] at herrors
      exact herrors

/-- one worker, one connection, and a stop while both are idle -/
def onePass : List (PoolAct 1) :=
  [.acceptor (.ok 0) ∅, .acceptor .again ∅, .acceptor .again ∅, .acceptor (.ok 0) ∅,
    .acceptor (.ok 7) ∅, .acceptor .again ∅, .acceptor .again ∅, .worker 0 true, .worker 0 true,
    .worker 0 true, .worker 0 true, .worker 0 true, .stopStore, .acceptor .again ∅,
    .acceptor .again ∅, .worker 0 true, .acceptor .again ∅, .acceptor .again ∅]

theorem pool_accounts_onePass :
    ∃ q p, queueInit true 1 = some q ∧ onePass.foldlM poolStep (Pool.start 1 q) = some p ∧
      p.acceptor = .returned 0 ∧ p.shared.stats.connectionsAccepted = 1 ∧
      p.shared.served + p.shared.dropped = p.shared.accepts := by
  obtain ⟨q, hq⟩ : ∃ q, queueInit true 1 = some q := ⟨_, rfl⟩
  obtain ⟨p, hp⟩ : ∃ p, onePass.foldlM poolStep (Pool.start 1 q) = some p := by
    cases hq
    exact ⟨_, rfl⟩
  have hreturned : p.acceptor = .returned 0 ∧ p.shared.stats.connectionsAccepted = 1 := by
    cases hq
    cases hp
    exact ⟨rfl, rfl⟩
  obtain ⟨_, _, _, _, _, hend⟩ := pool_accounts 1 true 1 q hq onePass p hp
  exact ⟨q, p, hq, hp, hreturned.1, hreturned.2, (hend Nat.one_pos hreturned.1).2.1⟩

end CServer
