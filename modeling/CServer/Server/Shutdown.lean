import CServer.Server.Wakeup
import Mathlib.Algebra.Order.BigOperators.Group.Finset

/-!
# The pool after a stop

Once a stop is requested, or `server_run` is on its way out for another reason, the pool ends: each
step of its own brings it nearer to the end, and until then some step of its own can be taken.

* `Staffed`, `poolStep_staffed`   which workers run, and what `server_run` leaves behind;
* `Pool.left`, `poolStep_left`    the steps that the pool has left at most;
* `exists_own`                    as long as `server_run` has not returned, somebody can step;
* `pool_drains`                   every run after a stop.
-/

namespace CServer

open Finset

/-! ## who runs -/

/-- how many workers have been started; that is not known any more when `server_run` has returned -/
def Acceptor.spawned (n : Nat) : Acceptor → Option Nat
  | .spawning i | .aborting i | .abortClosing i | .abortJoining i _ => some i
  | .returned _ => none
  | _ => some n

/-- before the accept loop, or past it by way of a `pthread_create` that failed -/
def Acceptor.early : Acceptor → Bool
  | .spawning _ | .aborting _ | .abortClosing _ | .abortJoining _ _ => true
  | .returned code => code ≠ 0
  | _ => false

/-- behind a `queue_close` of its own -/
def Acceptor.late : Acceptor → Bool
  | .abortJoining _ _ | .joining _ | .returned _ => true
  | _ => false

section
variable {n : Nat} {p p' : Pool n}

structure Staffed (p : Pool n) : Prop where
  staff : ∀ k, p.acceptor.spawned n = some k →
    k ≤ n ∧ ∀ i : Fin n, p.workers i = .unstarted ↔ k ≤ i.val
  joined : ∀ k j, p.acceptor = .abortJoining k j → ∀ i : Fin n, i.val < j → p.workers i = .exited
  ended : ∀ code, p.acceptor = .returned code →
    ∀ i, p.workers i = .exited ∨ p.workers i = .unstarted
  closed : p.acceptor.late = true → p.shared.queue.closed = true
  accepts : p.acceptor.early = true → p.shared.accepts = 0

/-- no worker starts, and who has left stays away -/
structure CrewKept (p p' : Pool n) : Prop where
  unstarted : ∀ i, p'.workers i = .unstarted ↔ p.workers i = .unstarted
  exited : ∀ i, p.workers i = .exited → p'.workers i = .exited

theorem CrewKept.same (h : p'.workers = p.workers) : CrewKept p p' := by
  constructor
  · intro i
    rw [h]
  · intro i hi
    rw [h, hi]

theorem CrewKept.update (sh : PoolShared) (a : Acceptor) (i : Fin n) (w : Worker)
    (hold : p.workers i ≠ .exited ∧ p.workers i ≠ .unstarted) (hnew : w ≠ .unstarted) :
    CrewKept p ⟨sh, a, Function.update p.workers i w⟩ := by
  constructor
  · intro j
    show Function.update p.workers i w j = _ ↔ _
    by_cases hij : j = i
    · rw [hij, Function.update_self]
      exact iff_of_false hnew hold.2
    · rw [Function.update_of_ne hij]
  · intro j hj
    show Function.update p.workers i w j = _
    have hij : j ≠ i := by
      intro heq
      rw [heq] at hj
      exact hold.1 hj
    rw [Function.update_of_ne hij]
    exact hj

theorem CrewKept.wake (who : Finset (Fin n)) (hwho : who ⊆ p.asleep)
    (hworkers : p'.workers = (p.wake who).workers) : CrewKept p p' := by
  have hplace : ∀ i, i ∈ who → p.workers i = .waiting ∧ p'.workers i = .woken := by
    intro i hi
    rw [hworkers]
    exact ⟨(mem_asleep p i).mp (hwho hi), moveAll_mem _ _ _ _ hi⟩
  have hrest : ∀ i, i ∉ who → p'.workers i = p.workers i := by
    intro i hi
    rw [hworkers]
    exact moveAll_notMem _ _ _ _ hi
  constructor
  · intro i
    by_cases hi : i ∈ who
    · rw [(hplace i hi).1, (hplace i hi).2]
      exact iff_of_false Worker.noConfusion Worker.noConfusion
    · rw [hrest i hi]
  · intro i hexited
    by_cases hi : i ∈ who
    · rw [(hplace i hi).1] at hexited
      cases hexited
    · rw [hrest i hi]
      exact hexited

/-- a step that leaves `server_run` where it is -/
theorem Staffed.keep (h : Staffed p) (hkept : CrewKept p p') (hacc : p'.acceptor = p.acceptor)
    (haccepts : p'.shared.accepts = p.shared.accepts)
    (hclosed : p.shared.queue.closed = true → p'.shared.queue.closed = true) : Staffed p' := by
  constructor
  · intro k hk
    rw [hacc] at hk
    obtain ⟨hle, hstaff⟩ := h.staff k hk
    exact ⟨hle, fun i => (hkept.unstarted i).trans (hstaff i)⟩
  · intro k j hj i hi
    rw [hacc] at hj
    exact hkept.exited i (h.joined k j hj i hi)
  · intro code hcode i
    rw [hacc] at hcode
    rcases h.ended code hcode i with hexited | hunstarted
    · exact .inl (hkept.exited i hexited)
    · exact .inr ((hkept.unstarted i).mpr hunstarted)
  · intro hlate
    rw [hacc] at hlate
    exact hclosed (h.closed hlate)
  · intro hearly
    rw [hacc] at hearly
    rw [haccepts]
    exact h.accepts hearly

/-- a step of `server_run` that starts no worker, joins none and does not return -/
theorem Staffed.goto (h : Staffed p) (hkept : CrewKept p p')
    (hspawned : p'.acceptor.spawned n = p.acceptor.spawned n)
    (hplace : (∀ k j, p'.acceptor ≠ .abortJoining k (j + 1)) ∧ ∀ code, p'.acceptor ≠ .returned code)
    (hclosed : p'.acceptor.late = true → p'.shared.queue.closed = true)
    (haccepts : p'.acceptor.early = true → p'.shared.accepts = 0) : Staffed p' := by
  constructor
  · intro k hk
    rw [hspawned] at hk
    obtain ⟨hle, hstaff⟩ := h.staff k hk
    exact ⟨hle, fun i => (hkept.unstarted i).trans (hstaff i)⟩
  · intro k j hj i hi
    cases j with
    | zero => exact absurd hi (Nat.not_lt_zero _)
    | succ j => exact absurd hj (hplace.1 k j)
  · intro code hcode
    exact absurd hcode (hplace.2 code)
  · exact hclosed
  · exact haccepts

/-- a place that `server_run` takes with the queue and the workers as they are -/
theorem Staffed.move (h : Staffed p) (hworkers : p'.workers = p.workers)
    (hspawned : p'.acceptor.spawned n = p.acceptor.spawned n)
    (hplace : (∀ k j, p'.acceptor ≠ .abortJoining k (j + 1)) ∧ ∀ code, p'.acceptor ≠ .returned code)
    (hlate : p'.acceptor.late = true →
      p.acceptor.late = true ∧ p'.shared.queue.closed = p.shared.queue.closed)
    (hearly : p'.acceptor.early = true →
      p.acceptor.early = true ∧ p'.shared.accepts = p.shared.accepts) : Staffed p' := by
  refine h.goto (CrewKept.same hworkers) hspawned hplace (fun hl => ?_) (fun he => ?_)
  · obtain ⟨hold, hsame⟩ := hlate hl
    rw [hsame]
    exact h.closed hold
  · obtain ⟨hold, hsame⟩ := hearly he
    rw [hsame]
    exact h.accepts hold

theorem Staffed.spawn (h : Staffed p) (i : Nat) (hi : i < n) (hacc : p.acceptor = .spawning i) :
    Staffed { p with
      acceptor := .spawning (i + 1)
      workers := Function.update p.workers ⟨i, hi⟩ .popping } := by
  obtain ⟨_, hstaff⟩ := h.staff i (by rw [hacc]; rfl)
  constructor
  · intro k hk
    cases hk
    refine ⟨hi, fun j => ?_⟩
    show Function.update p.workers ⟨i, hi⟩ .popping j = _ ↔ _
    by_cases hij : j = ⟨i, hi⟩
    · rw [hij, Function.update_self]
      exact iff_of_false Worker.noConfusion (Nat.not_succ_le_self i)
    · rw [Function.update_of_ne hij, hstaff j]
      have hne : j.val ≠ i := fun heq => hij (Fin.ext heq)
      omega
  · intro k j hj
    cases hj
  · intro code hcode
    cases hcode
  · intro hlate
    cases hlate
  · intro _
    exact h.accepts (by rw [hacc]; rfl)

/-- `server_run` closes the queue on its way to `a` -/
theorem Staffed.shut (h : Staffed p) (a : Acceptor) (hspawned : a.spawned n = p.acceptor.spawned n)
    (hplace : (∀ k j, a ≠ .abortJoining k (j + 1)) ∧ ∀ code, a ≠ .returned code)
    (hearly : a.early = true → p.acceptor.early = true) :
    Staffed { p.closeQueue with acceptor := a } :=
  h.goto (CrewKept.wake p.asleep (Subset.refl _) rfl) hspawned hplace (fun _ => rfl)
    fun he => h.accepts (hearly he)

theorem Staffed.join (h : Staffed p) (i j : Nat) (hacc : p.acceptor = .abortJoining i j)
    (hexited : p.hasExited j) : Staffed { p with acceptor := .abortJoining i (j + 1) } := by
  have hstaff := h.staff
  have hjoined := h.joined i j hacc
  have hclosed := h.closed
  have haccepts := h.accepts
  rw [hacc] at hstaff hclosed haccepts
  constructor
  · exact hstaff
  · intro k m hm w hw
    cases hm
    rcases Nat.lt_succ_iff_lt_or_eq.mp hw with hlt | heq
    · exact hjoined w hlt
    · subst heq
      exact hexited w.isLt
  · intro code hcode
    cases hcode
  · exact hclosed
  · exact haccepts

/-- `server_run` returns when all workers have left that it has started -/
theorem Staffed.leave (h : Staffed p) (code : Int)
    (hended : ∀ i, p.workers i = .exited ∨ p.workers i = .unstarted)
    (hlate : p.acceptor.late = true) (hearly : code ≠ 0 → p.acceptor.early = true) :
    Staffed { p with acceptor := .returned code } := by
  constructor
  · intro k hk
    cases hk
  · intro k j hj
    cases hj
  · intro _ _
    exact hended
  · intro _
    exact h.closed hlate
  · intro he
    exact h.accepts (hearly (of_decide_eq_true he))

/-- **A step of the acceptor keeps the staff in order.** -/
theorem acceptorStep_staffed (r : SysResult) (who : Finset (Fin n)) (hacc : Accounted p)
    (h : Staffed p) (hstep : acceptorStep p r who = some p') : Staffed p' := by
  -- a step to a place in the accept loop, or on the way to it
  have hgo : ∀ sh' a, a.spawned n = p.acceptor.spawned n → a.late = false → a.early = false →
      Staffed { p with shared := sh', acceptor := a } := by
    intro sh' a hspawned hlate hearly
    refine h.move rfl hspawned ⟨?_, ?_⟩ ?_ ?_
    · intro k j heq
      have heq : a = .abortJoining k (j + 1) := heq
      rw [heq] at hlate
      cases hlate
    · intro code heq
      have heq : a = .returned code := heq
      rw [heq] at hlate
      cases hlate
    · intro hl
      have hl : a.late = true := hl
      rw [hlate] at hl
      cases hl
    · intro he
      have he : a.early = true := he
      rw [hearly] at he
      cases he
  cases hplace : p.acceptor with
  | spawning i =>
    simp only [acceptorStep, hplace] at hstep
    split_ifs at hstep with hi
    · split at hstep
      · cases hstep
        exact h.spawn i hi hplace
      · cases hstep
        exact h.move rfl (by rw [hplace]; rfl)
          ⟨fun _ _ => Acceptor.noConfusion, fun _ => Acceptor.noConfusion⟩
          (fun hl => Bool.noConfusion hl) fun _ => ⟨by rw [hplace]; rfl, rfl⟩
    · cases hstep
      refine hgo _ _ ?_ rfl rfl
      have hle := (h.staff i (by rw [hplace]; rfl)).1
      have heq : i = n := by omega
      rw [hplace, heq]
      rfl
  | aborting i =>
    simp only [acceptorStep, hplace] at hstep
    cases hstep
    exact h.move rfl (by rw [hplace]; rfl)
      ⟨fun _ _ => Acceptor.noConfusion, fun _ => Acceptor.noConfusion⟩
      (fun hl => Bool.noConfusion hl) fun _ => ⟨by rw [hplace]; rfl, rfl⟩
  | abortClosing i =>
    simp only [acceptorStep, hplace] at hstep
    cases hstep
    exact h.shut (.abortJoining i 0) (by rw [hplace]; rfl)
      ⟨fun _ _ => by simp, fun _ => Acceptor.noConfusion⟩ fun _ => by rw [hplace]; rfl
  | abortJoining i j =>
    simp only [acceptorStep, hplace] at hstep
    split_ifs at hstep with hj hexited
    · cases hstep
      exact h.join i j hplace hexited
    · cases hstep
      refine h.leave (-1) (fun w => ?_) (by rw [hplace]; rfl) fun _ => by rw [hplace]; rfl
      obtain ⟨_, hstaff⟩ := h.staff i (by rw [hplace]; rfl)
      by_cases hw : i ≤ w.val
      · exact .inr ((hstaff w).mpr hw)
      · exact .inl (h.joined i j hplace w (by omega))
  | checking =>
    simp only [acceptorStep, hplace] at hstep
    cases hstep
    split_ifs
    · exact hgo _ _ (by rw [hplace]; rfl) rfl rfl
    · exact hgo _ _ (by rw [hplace]; rfl) rfl rfl
  | polling =>
    simp only [acceptorStep, hplace] at hstep
    split at hstep <;> cases hstep <;> exact hgo _ _ (by rw [hplace]; rfl) rfl rfl
  | accepting =>
    simp only [acceptorStep, hplace] at hstep
    split at hstep
    · split_ifs at hstep
      cases hstep
      exact hgo _ _ (by rw [hplace]; rfl) rfl rfl
    · cases hstep
      exact hgo _ _ (by rw [hplace]; rfl) rfl rfl
    · cases hstep
      exact hgo _ _ (by rw [hplace]; rfl) rfl rfl
  | acceptFailed =>
    simp only [acceptorStep, hplace] at hstep
    split_ifs at hstep <;> cases hstep <;> exact hgo _ _ (by rw [hplace]; rfl) rfl rfl
  | accepted fd =>
    simp only [acceptorStep, hplace] at hstep
    cases hstep
    exact hgo _ _ (by rw [hplace]; rfl) rfl rfl
  | pushing fd =>
    simp only [acceptorStep, hplace, acceptorPush] at hstep
    rcases queueTryPush_spec p.shared.queue fd hacc.wf with
      ⟨_, hresult⟩ | ⟨_, _, ring, hresult, _⟩
    · simp only [hresult] at hstep
      rw [if_pos (by decide)] at hstep
      cases hstep
      exact hgo _ _ (by rw [hplace]; rfl) rfl rfl
    · simp only [hresult] at hstep
      rw [if_neg (by simp)] at hstep
      split_ifs at hstep with hsignals
      cases hstep
      exact h.goto (CrewKept.wake who hsignals.1 rfl) (by rw [hplace]; rfl)
        ⟨fun _ _ => Acceptor.noConfusion, fun _ => Acceptor.noConfusion⟩
        (fun hl => Bool.noConfusion hl) fun he => Bool.noConfusion he
  | dropping fd =>
    simp only [acceptorStep, hplace] at hstep
    cases hstep
    exact hgo _ _ (by rw [hplace]; rfl) rfl rfl
  | closing fd =>
    simp only [acceptorStep, hplace] at hstep
    cases hstep
    exact hgo _ _ (by rw [hplace]; rfl) rfl rfl
  | draining =>
    simp only [acceptorStep, hplace] at hstep
    cases hstep
    exact h.shut (.joining 0) (by rw [hplace]; rfl)
      ⟨fun _ _ => Acceptor.noConfusion, fun _ => Acceptor.noConfusion⟩ fun he => Bool.noConfusion he
  | joining i =>
    simp only [acceptorStep, hplace] at hstep
    split_ifs at hstep with hi hexited
    · cases hstep
      exact h.move rfl (by rw [hplace]; rfl)
        ⟨fun _ _ => Acceptor.noConfusion, fun _ => Acceptor.noConfusion⟩
        (fun _ => ⟨by rw [hplace]; rfl, rfl⟩) fun he => Bool.noConfusion he
    · cases hstep
      have hjoined := hacc.joined
      rw [hplace] at hjoined
      exact h.leave 0 (fun w => .inl (hjoined w (by show w.val < i; omega))) (by rw [hplace]; rfl)
        fun hne => absurd rfl hne
  | returned code =>
    simp only [acceptorStep, hplace] at hstep
    cases hstep

theorem workerStep_stopRequested (sh sh' : PoolShared) (ok : Bool) (w w' : Worker)
    (h : workerStep sh ok w = some (sh', w')) :
    sh'.stopRequested = sh.stopRequested ∧ w' ≠ .unstarted := by
  have hpop : workerPop sh = some (sh', w') →
      sh'.stopRequested = sh.stopRequested ∧ w' ≠ .unstarted := by
    intro hpop
    obtain ⟨popped, _, hmoved⟩ := Option.map_eq_some_iff.mp hpop
    cases popped with
    | waits =>
      cases hmoved
      exact ⟨rfl, Worker.noConfusion⟩
    | drained =>
      cases hmoved
      exact ⟨rfl, Worker.noConfusion⟩
    | taken fd q =>
      cases hmoved
      exact ⟨rfl, Worker.noConfusion⟩
  cases w with
  | popping => exact hpop h
  | woken => exact hpop h
  | reading fd =>
    simp only [workerStep] at h
    split_ifs at h <;> cases h <;> exact ⟨rfl, Worker.noConfusion⟩
  | dispatching fd =>
    simp only [workerStep] at h
    split_ifs at h <;> cases h <;> exact ⟨rfl, Worker.noConfusion⟩
  | failing fd =>
    cases h
    exact ⟨rfl, Worker.noConfusion⟩
  | closing fd =>
    cases h
    exact ⟨rfl, Worker.noConfusion⟩
  | closed =>
    cases h
    exact ⟨rfl, Worker.noConfusion⟩
  | unstarted => cases h
  | waiting => cases h
  | exited => cases h

/-- what every state of the pool has -/
structure PoolSound (p : Pool n) : Prop where
  accounted : Accounted p
  wakeful : Wakeful p
  staffed : Staffed p

/-- **Every step of the pool keeps the staff in order.** -/
theorem poolStep_staffed (a : PoolAct n) (hstep : poolStep p a = some p') (hacc : Accounted p)
    (h : Staffed p) : Staffed p' := by
  cases a with
  | worker i ok =>
    obtain ⟨⟨sh', w'⟩, hmoved, hp'⟩ := Option.map_eq_some_iff.mp hstep
    have hmove := workerStep_move _ _ ok _ _ hacc.wf hmoved
    have hnew := (workerStep_stopRequested _ _ ok _ _ hmoved).2
    rw [← hp']
    refine h.keep (CrewKept.update sh' p.acceptor i w' hmove.running hnew) rfl hmove.accepts ?_
    intro hclosed
    exact hmove.closed.trans hclosed
  | acceptor r who => exact acceptorStep_staffed r who hacc h hstep
  | spurious i =>
    unfold poolStep at hstep
    dsimp only at hstep
    split_ifs at hstep with hwaiting
    cases hstep
    refine h.keep (CrewKept.wake {i} ?_ rfl) rfl rfl id
    rw [singleton_subset_iff]
    exact (mem_asleep p i).mpr hwaiting
  | stopStore =>
    cases hstep
    exact h.keep (CrewKept.same rfl) rfl rfl id
  | stopClose =>
    cases hstep
    exact h.keep (CrewKept.wake p.asleep (Subset.refl _) rfl) rfl rfl fun _ => rfl

theorem poolStep_sound (p : Pool n) (a : PoolAct n) (p' : Pool n) (hstep : poolStep p a = some p')
    (h : PoolSound p) : PoolSound p' := by
  obtain ⟨hacc, hwake⟩ := poolStep_wakeful p a p' hstep ⟨h.accounted, h.wakeful⟩
  exact ⟨hacc, hwake, poolStep_staffed a hstep h.accounted h.staffed⟩

theorem start_sound (q : ConnQueue) (hwf : q.WF) (hitems : q.ring.contents = []) :
    PoolSound (Pool.start n q) := by
  have hnone : (Pool.start n q).asleep = ∅ := by
    apply eq_empty_of_forall_notMem
    intro i hi
    have hw := (mem_asleep _ i).mp hi
    cases hw
  refine ⟨start_accounted n q hwf hitems, ⟨fun hne => ?_, fun _ => hnone⟩, ?_⟩
  · rw [hnone] at hne
    exact absurd hne not_nonempty_empty
  · constructor
    · intro k hk
      cases hk
      exact ⟨Nat.zero_le n, fun i => iff_of_true rfl (Nat.zero_le _)⟩
    · intro k j hj
      cases hj
    · intro code hcode
      cases hcode
    · intro hlate
      cases hlate
    · intro _
      rfl

/-! ## the steps that are left -/

/-- the steps that a worker takes at most until it looks at the queue again, and that look, which
may leave it in the wait set; a descriptor that it takes there is paid for by the queue -/
def Worker.left : Worker → Nat
  | .exited => 0
  | .waiting => 1
  | .woken | .popping | .unstarted => 2
  | .closed => 3
  | .closing _ => 4
  | .failing _ | .dispatching _ => 5
  | .reading _ => 6

/-- the steps that `server_run` takes at most after a stop, with what it may add to the queue and
the workers that it may wake there -/
def Acceptor.left (n : Nat) : Acceptor → Nat
  | .returned _ => 0
  | .joining i => n - i + 1
  | .draining => n + 2
  | .checking => n + 3
  | .acceptFailed | .closing _ => n + 4
  | .dropping _ => n + 5
  | .pushing _ => 2 * n + 9
  | .accepted _ => 2 * n + 10
  | .accepting => 2 * n + 11
  | .polling => 2 * n + 12
  | .abortJoining i j => i - j + 1
  | .abortClosing i => i + 2
  | .aborting i => i + 3
  | .spawning i => n - i + n + 4

/-- the workers that the `queue_close` to come may wake -/
def ConnQueue.toWake (n : Nat) (q : ConnQueue) : Nat := if q.closed then 0 else n

def Pool.left (p : Pool n) : Nat :=
  p.acceptor.left n + total Worker.left p.workers + 5 * p.shared.queue.ring.count +
    p.shared.queue.toWake n

/-- on the way out -/
def Acceptor.leaving : Acceptor → Bool
  | .aborting _ | .abortClosing _ | .abortJoining _ _ | .draining | .joining _ | .returned _ => true
  | _ => false

/-- a stop is requested, or `server_run` gives up for another reason -/
def Pool.Stopping (p : Pool n) : Prop :=
  p.shared.stopRequested = true ∨ p.acceptor.leaving = true

/-- **A step of a worker is one step less to go.** -/
theorem workerStep_left (sh sh' : PoolShared) (ok : Bool) (w w' : Worker) (hwf : sh.queue.WF)
    (h : workerStep sh ok w = some (sh', w')) :
    5 * sh'.queue.ring.count + w'.left + 1 ≤ 5 * sh.queue.ring.count + w.left := by
  have hpop : workerPop sh = some (sh', w') → w.left = 2 →
      5 * sh'.queue.ring.count + w'.left + 1 ≤ 5 * sh.queue.ring.count + w.left := by
    intro hpop hw
    rcases workerPop_spec sh sh' w' hwf hpop with
      ⟨_, _, rfl, rfl⟩ | ⟨_, _, rfl, rfl⟩ | ⟨fd, ring, rfl, rfl, _, _, hcount⟩
    · rw [hw]
      exact le_refl _
    · rw [hw]
      show _ + 0 + 1 ≤ _
      omega
    · rw [hw, hcount]
      show 5 * ring.count + 6 + 1 ≤ _
      omega
  cases w with
  | popping => exact hpop h rfl
  | woken => exact hpop h rfl
  | reading fd =>
    simp only [workerStep] at h
    split_ifs at h <;> cases h <;> exact le_refl _
  | dispatching fd =>
    simp only [workerStep] at h
    split_ifs at h <;> cases h <;> exact le_refl _
  | failing fd =>
    cases h
    exact le_refl _
  | closing fd =>
    cases h
    exact le_refl _
  | closed =>
    cases h
    exact le_refl _
  | unstarted => cases h
  | waiting => cases h
  | exited => cases h

theorem left_wake (who : Finset (Fin n)) (hwho : who ⊆ p.asleep) :
    total Worker.left (p.wake who).workers = total Worker.left p.workers + who.card := by
  have hwaiting : ∀ i ∈ who, p.workers i = .waiting := fun i hi => (mem_asleep p i).mp (hwho hi)
  have h := total_moveAll Worker.left p.workers who .woken .waiting hwaiting
  have hwoken : Worker.left .woken = 2 := rfl
  have hslept : Worker.left .waiting = 1 := rfl
  rw [hwoken, hslept, smul_eq_mul, smul_eq_mul] at h
  show total Worker.left (moveAll p.workers who .woken) = _
  omega

theorem card_le_crew (who : Finset (Fin n)) : who.card ≤ n := by
  have h := card_le_univ who
  rwa [Fintype.card_fin] at h

/-- **A `queue_close` wakes no more workers than were counted on.** -/
theorem left_closeQueue (h : Wakeful p) :
    total Worker.left p.closeQueue.workers + p.closeQueue.shared.queue.toWake n ≤
      total Worker.left p.workers + p.shared.queue.toWake n := by
  have hwoken : total Worker.left p.closeQueue.workers =
      total Worker.left p.workers + (#p.asleep) := left_wake p.asleep (Subset.refl _)
  have hshut : p.closeQueue.shared.queue.toWake n = 0 := if_pos rfl
  rw [hwoken, hshut]
  by_cases hclosed : p.shared.queue.closed = true
  · rw [h.closed hclosed, card_empty]
    omega
  · have hopen : p.shared.queue.toWake n = n := if_neg hclosed
    have hle := card_le_crew p.asleep
    omega

theorem left_spawn (i : Fin n) (hi : p.workers i = .unstarted) :
    total Worker.left (Function.update p.workers i .popping) = total Worker.left p.workers := by
  have h := total_update Worker.left p.workers i .popping
  rw [hi] at h
  exact Nat.add_right_cancel h

theorem Pool.Stopping.requested (h : p.Stopping) (a : Acceptor) (hacc : p.acceptor = a)
    (hstays : a.leaving = false) : p.shared.stopRequested = true := by
  refine h.resolve_right fun hleaving => ?_
  rw [hacc, hstays] at hleaving
  cases hleaving

/-- what an accepted descriptor may cost: its way through the queue, and the workers it wakes -/
theorem acceptorPush_left (fd : Int) (who : Finset (Fin n)) (h : PoolSound p)
    (hacc : p.acceptor = .pushing fd) (hpush : acceptorPush p fd who = some p') :
    p'.shared.stopRequested = p.shared.stopRequested ∧ p'.left + 1 ≤ p.left := by
  unfold acceptorPush at hpush
  rcases queueTryPush_spec p.shared.queue fd h.accounted.wf with
    ⟨_, hresult⟩ | ⟨hopen, _, ring, hresult, _, _, hcount, _⟩
  · simp only [hresult] at hpush
    rw [if_pos (by decide)] at hpush
    cases hpush
    refine ⟨rfl, ?_⟩
    unfold Pool.left
    rw [hacc]
    simp only [Acceptor.left]
    omega
  · simp only [hresult] at hpush
    rw [if_neg (by simp)] at hpush
    split_ifs at hpush with hsignals
    cases hpush
    have hcrew := left_wake who hsignals.1
    have hle := card_le_crew who
    have hroom : p.shared.queue.toWake n = n := if_neg (by rw [hopen]; exact Bool.noConfusion)
    have hafter : ConnQueue.toWake n { p.shared.queue with ring := ring } = n :=
      if_neg (by show ¬p.shared.queue.closed = true; rw [hopen]; exact Bool.noConfusion)
    refine ⟨rfl, ?_⟩
    show n + 3 + total Worker.left (p.wake who).workers + 5 * ring.count +
      ConnQueue.toWake n { p.shared.queue with ring := ring } + 1 ≤ _
    unfold Pool.left
    rw [hacc, hcrew, hafter, hroom, hcount]
    simp only [Acceptor.left]
    omega

/-- **Behind a stop, a step of `server_run` is one step less to go.** -/
theorem acceptorStep_left (r : SysResult) (who : Finset (Fin n)) (h : PoolSound p) (hstop : p.Stopping)
    (hstep : acceptorStep p r who = some p') : p'.Stopping ∧ p'.left + 1 ≤ p.left := by
  -- a step that leaves the queue and the workers alone
  have hgo : ∀ next : Pool n, next.workers = p.workers → next.shared.queue = p.shared.queue →
      next.acceptor.left n + 1 ≤ p.acceptor.left n → next.left + 1 ≤ p.left := by
    intro next hworkers hqueue hplace
    unfold Pool.left
    rw [hworkers, hqueue]
    omega
  -- a step behind which the queue is closed
  have hshut : ∀ a, a.left n + 1 ≤ p.acceptor.left n →
      Pool.left { p.closeQueue with acceptor := a } + 1 ≤ p.left := by
    intro a hplace
    have hclose := left_closeQueue h.wakeful
    show a.left n + total Worker.left p.closeQueue.workers + 5 * p.shared.queue.ring.count +
      p.closeQueue.shared.queue.toWake n + 1 ≤ _
    unfold Pool.left
    omega
  have hloop := hstop.requested
  cases hacc : p.acceptor with
  | spawning i =>
    have hstopped := hloop _ hacc rfl
    rw [hacc] at hgo
    simp only [acceptorStep, hacc] at hstep
    split_ifs at hstep with hi
    · split at hstep
      · cases hstep
        have hcrew := left_spawn ⟨i, hi⟩ (h.accounted.unstarted ⟨i, hi⟩ i hacc (le_refl _))
        refine ⟨.inl hstopped, ?_⟩
        unfold Pool.left
        dsimp only
        rw [hcrew, hacc]
        simp only [Acceptor.left]
        omega
      · cases hstep
        exact ⟨.inl hstopped, hgo _ rfl rfl (by simp only [Acceptor.left]; omega)⟩
    · cases hstep
      exact ⟨.inl hstopped, hgo _ rfl rfl (by simp only [Acceptor.left]; omega)⟩
  | aborting i =>
    rw [hacc] at hgo
    simp only [acceptorStep, hacc] at hstep
    cases hstep
    exact ⟨.inl rfl, hgo _ rfl rfl (le_refl _)⟩
  | abortClosing i =>
    rw [hacc] at hshut
    simp only [acceptorStep, hacc] at hstep
    cases hstep
    exact ⟨.inr rfl, hshut _ (by simp only [Acceptor.left]; omega)⟩
  | abortJoining i j =>
    rw [hacc] at hgo
    simp only [acceptorStep, hacc] at hstep
    split_ifs at hstep with hj
    · cases hstep
      exact ⟨.inr rfl, hgo _ rfl rfl (by simp only [Acceptor.left]; omega)⟩
    · cases hstep
      exact ⟨.inr rfl, hgo _ rfl rfl (by simp only [Acceptor.left]; omega)⟩
  | checking =>
    have hstopped := hloop _ hacc rfl
    rw [hacc] at hgo
    simp only [acceptorStep, hacc] at hstep
    rw [if_pos hstopped] at hstep
    cases hstep
    exact ⟨.inl hstopped, hgo _ rfl rfl (le_refl _)⟩
  | polling =>
    have hstopped := hloop _ hacc rfl
    rw [hacc] at hgo
    simp only [acceptorStep, hacc] at hstep
    split at hstep
    · cases hstep
      exact ⟨.inl hstopped, hgo _ rfl rfl (le_refl _)⟩
    · cases hstep
      exact ⟨.inl hstopped, hgo _ rfl rfl (by simp only [Acceptor.left]; omega)⟩
    · cases hstep
      exact ⟨.inl hstopped, hgo _ rfl rfl (by simp only [Acceptor.left]; omega)⟩
  | accepting =>
    have hstopped := hloop _ hacc rfl
    rw [hacc] at hgo
    simp only [acceptorStep, hacc] at hstep
    split at hstep
    · split_ifs at hstep
      cases hstep
      exact ⟨.inl hstopped, hgo _ rfl rfl (le_refl _)⟩
    · cases hstep
      exact ⟨.inl hstopped, hgo _ rfl rfl (by simp only [Acceptor.left]; omega)⟩
    · cases hstep
      exact ⟨.inl hstopped, hgo _ rfl rfl (by simp only [Acceptor.left]; omega)⟩
  | acceptFailed =>
    have hstopped := hloop _ hacc rfl
    rw [hacc] at hgo
    simp only [acceptorStep, hacc] at hstep
    rw [if_pos hstopped] at hstep
    cases hstep
    exact ⟨.inl hstopped, hgo _ rfl rfl (by simp only [Acceptor.left]; omega)⟩
  | accepted fd =>
    have hstopped := hloop _ hacc rfl
    rw [hacc] at hgo
    simp only [acceptorStep, hacc] at hstep
    cases hstep
    exact ⟨.inl hstopped, hgo _ rfl rfl (le_refl _)⟩
  | pushing fd =>
    have hstopped := hloop _ hacc rfl
    simp only [acceptorStep, hacc] at hstep
    obtain ⟨hsame, hleft⟩ := acceptorPush_left fd who h hacc hstep
    exact ⟨.inl (hsame.trans hstopped), hleft⟩
  | dropping fd =>
    have hstopped := hloop _ hacc rfl
    rw [hacc] at hgo
    simp only [acceptorStep, hacc] at hstep
    cases hstep
    exact ⟨.inl hstopped, hgo _ rfl rfl (le_refl _)⟩
  | closing fd =>
    have hstopped := hloop _ hacc rfl
    rw [hacc] at hgo
    simp only [acceptorStep, hacc] at hstep
    cases hstep
    exact ⟨.inl hstopped, hgo _ rfl rfl (le_refl _)⟩
  | draining =>
    rw [hacc] at hshut
    simp only [acceptorStep, hacc] at hstep
    cases hstep
    exact ⟨.inr rfl, hshut _ (le_refl _)⟩
  | joining i =>
    rw [hacc] at hgo
    simp only [acceptorStep, hacc] at hstep
    split_ifs at hstep with hi
    · cases hstep
      exact ⟨.inr rfl, hgo _ rfl rfl (by simp only [Acceptor.left]; omega)⟩
    · cases hstep
      exact ⟨.inr rfl, hgo _ rfl rfl (by simp only [Acceptor.left]; omega)⟩
  | returned code =>
    simp only [acceptorStep, hacc] at hstep
    cases hstep

/-- 1 for a step of a worker or of `server_run` -/
def PoolAct.own : PoolAct n → Nat
  | .worker _ _ | .acceptor _ _ => 1
  | .spurious _ | .stopStore | .stopClose => 0

/-- 1 for a wake-up without a cause -/
def PoolAct.wakes : PoolAct n → Nat
  | .spurious _ => 1
  | _ => 0

/-- **Behind a stop, a step of the pool's own is one step less to go, and only a wake-up without a
cause is one more.** -/
theorem poolStep_left (a : PoolAct n) (hstep : poolStep p a = some p') (h : PoolSound p)
    (hstop : p.Stopping) : p'.Stopping ∧ p'.left + a.own ≤ p.left + a.wakes := by
  cases a with
  | worker i ok =>
    obtain ⟨⟨sh', w'⟩, hmoved, hp'⟩ := Option.map_eq_some_iff.mp hstep
    have hleft := workerStep_left _ _ ok _ _ h.accounted.wf hmoved
    have hclosed := (workerStep_move _ _ ok _ _ h.accounted.wf hmoved).closed
    have hstopped := (workerStep_stopRequested _ _ ok _ _ hmoved).1
    have hcrew := total_update Worker.left p.workers i w'
    rw [← hp']
    refine ⟨hstop.imp hstopped.trans id, ?_⟩
    have hwake : sh'.queue.toWake n = p.shared.queue.toWake n := by
      unfold ConnQueue.toWake
      rw [hclosed]
    show p.acceptor.left n + total Worker.left (Function.update p.workers i w') +
      5 * sh'.queue.ring.count + sh'.queue.toWake n + 1 ≤ p.left + 0
    unfold Pool.left
    omega
  | acceptor r who => exact acceptorStep_left r who h hstop hstep
  | spurious i =>
    unfold poolStep at hstep
    dsimp only at hstep
    split_ifs at hstep with hwaiting
    cases hstep
    have hcrew := left_wake {i} (singleton_subset_iff.mpr ((mem_asleep p i).mpr hwaiting))
    refine ⟨hstop, ?_⟩
    show p.acceptor.left n + total Worker.left (p.wake {i}).workers +
      5 * p.shared.queue.ring.count + p.shared.queue.toWake n + 0 ≤ p.left + 1
    unfold Pool.left
    rw [card_singleton] at hcrew
    omega
  | stopStore =>
    cases hstep
    exact ⟨.inl rfl, le_refl _⟩
  | stopClose =>
    cases hstep
    have hclose := left_closeQueue h.wakeful
    refine ⟨hstop, ?_⟩
    show p.acceptor.left n + total Worker.left p.closeQueue.workers +
      5 * p.shared.queue.ring.count + p.closeQueue.shared.queue.toWake n + 0 ≤ p.left + 0
    unfold Pool.left
    omega

theorem Acceptor.left_le (a : Acceptor) (h : ∀ k, a.spawned n = some k → k ≤ n) :
    a.left n ≤ 2 * n + 12 := by
  cases a with
  | aborting i =>
    have hi := h i rfl
    simp only [Acceptor.left]
    omega
  | abortClosing i =>
    have hi := h i rfl
    simp only [Acceptor.left]
    omega
  | abortJoining i j =>
    have hi := h i rfl
    simp only [Acceptor.left]
    omega
  | _ =>
    simp only [Acceptor.left]
    omega

theorem PoolSound.left_le (h : PoolSound p) : p.left ≤ 9 * n + 5 * p.shared.queue.ring.count + 12 := by
  have hacceptor := p.acceptor.left_le fun k hk => (h.staffed.staff k hk).1
  have hworkers : total Worker.left p.workers ≤ n * 6 := by
    have hsum := Finset.sum_le_card_nsmul univ (fun i => (p.workers i).left) 6 fun i _ => by
      cases p.workers i <;> simp [Worker.left]
    rwa [card_univ, Fintype.card_fin, smul_eq_mul] at hsum
  have hwake : p.shared.queue.toWake n ≤ n := by
    unfold ConnQueue.toWake
    split_ifs
    · exact Nat.zero_le n
    · exact le_refl n
  unfold Pool.left
  omega

/-! ## somebody can step -/

theorem exists_workerStep (sh : PoolShared) (w : Worker) (hwf : sh.queue.WF)
    (hw : w ≠ .unstarted ∧ w ≠ .waiting ∧ w ≠ .exited) :
    ∃ moved, workerStep sh true w = some moved := by
  have hpop : ∃ moved, workerPop sh = some moved := by
    unfold workerPop
    rcases queuePop_spec sh.queue hwf with ⟨_, _, hq⟩ | ⟨_, _, hq⟩ | ⟨fd, ring, hq, _⟩
    · exact ⟨_, by rw [hq]; rfl⟩
    · exact ⟨_, by rw [hq]; rfl⟩
    · exact ⟨_, by rw [hq]; rfl⟩
  cases w with
  | popping => exact hpop
  | woken => exact hpop
  | unstarted => exact absurd rfl hw.1
  | waiting => exact absurd rfl hw.2.1
  | exited => exact absurd rfl hw.2.2
  | _ => exact ⟨_, rfl⟩

theorem exists_worker (h : PoolSound p) (hlate : p.acceptor.late = true) (j k : Nat)
    (hspawned : p.acceptor.spawned n = some k) (hj : j < k) (hruns : ¬p.hasExited j) :
    ∃ a : PoolAct n, a.own = 1 ∧ ∃ next, poolStep p a = some next := by
  obtain ⟨hk, hstaff⟩ := h.staffed.staff k hspawned
  have hjn : j < n := lt_of_lt_of_le hj hk
  have hw : p.workers ⟨j, hjn⟩ ≠ .exited := fun hexited => hruns fun _ => hexited
  have hstarted : p.workers ⟨j, hjn⟩ ≠ .unstarted := by
    intro hunstarted
    have hge := (hstaff ⟨j, hjn⟩).mp hunstarted
    exact absurd hj (Nat.not_lt_of_le hge)
  have hawake : p.workers ⟨j, hjn⟩ ≠ .waiting := by
    intro hwaiting
    have hmem := (mem_asleep p ⟨j, hjn⟩).mpr hwaiting
    rw [h.wakeful.closed (h.staffed.closed hlate)] at hmem
    exact absurd hmem (notMem_empty _)
  obtain ⟨moved, hmoved⟩ :=
    exists_workerStep p.shared _ h.accounted.wf ⟨hstarted, hawake, hw⟩
  refine ⟨.worker ⟨j, hjn⟩ true, rfl, ?_⟩
  unfold poolStep
  dsimp only
  rw [hmoved]
  exact ⟨_, rfl⟩

/-- **As long as `server_run` has not returned, it can go on, or a worker that it waits for can.** -/
theorem exists_own (h : PoolSound p) (hruns : ∀ code, p.acceptor ≠ .returned code) :
    ∃ a : PoolAct n, a.own = 1 ∧ ∃ next, poolStep p a = some next := by
  have hacceptor : ∀ r who, (∃ next, acceptorStep p r who = some next) →
      ∃ a : PoolAct n, a.own = 1 ∧ ∃ next, poolStep p a = some next :=
    fun r who hnext => ⟨.acceptor r who, rfl, hnext⟩
  cases hacc : p.acceptor with
  | returned code => exact absurd hacc (hruns code)
  | joining i =>
    by_cases hi : i < n
    · by_cases hexited : p.hasExited i
      · refine hacceptor .again ∅ ?_
        simp only [acceptorStep, hacc]
        exact ⟨_, by rw [if_pos hi, if_pos hexited]⟩
      · exact exists_worker h (by rw [hacc]; rfl) i n (by rw [hacc]; rfl) hi hexited
    · refine hacceptor .again ∅ ?_
      simp only [acceptorStep, hacc]
      exact ⟨_, if_neg hi⟩
  | abortJoining i j =>
    by_cases hj : j < i
    · by_cases hexited : p.hasExited j
      · refine hacceptor .again ∅ ?_
        simp only [acceptorStep, hacc]
        exact ⟨_, by rw [if_pos hj, if_pos hexited]⟩
      · exact exists_worker h (by rw [hacc]; rfl) j i (by rw [hacc]; rfl) hj hexited
    · refine hacceptor .again ∅ ?_
      simp only [acceptorStep, hacc]
      exact ⟨_, if_neg hj⟩
  | pushing fd =>
    have hsignals : p.Signals p.asleep := ⟨Subset.refl _, id⟩
    refine hacceptor .again p.asleep ?_
    simp only [acceptorStep, hacc, acceptorPush]
    rcases queueTryPush_spec p.shared.queue fd h.accounted.wf with
      ⟨_, hresult⟩ | ⟨_, _, ring, hresult, _⟩
    · simp only [hresult]
      exact ⟨_, if_pos (by decide)⟩
    · simp only [hresult]
      rw [if_neg (by simp), if_pos hsignals]
      exact ⟨_, rfl⟩
  | spawning i =>
    refine hacceptor .again ∅ ?_
    simp only [acceptorStep, hacc]
    split_ifs
    · exact ⟨_, rfl⟩
    · exact ⟨_, rfl⟩
  | acceptFailed =>
    refine hacceptor .again ∅ ?_
    simp only [acceptorStep, hacc]
    split_ifs
    · exact ⟨_, rfl⟩
    · exact ⟨_, rfl⟩
  | _ =>
    refine hacceptor .again ∅ ?_
    simp only [acceptorStep, hacc]
    exact ⟨_, rfl⟩

/-- nobody steps after `server_run` has returned -/
theorem PoolSound.at_rest (h : PoolSound p) (code : Int) (hcode : p.acceptor = .returned code)
    (a : PoolAct n) (hown : a.own = 1) : poolStep p a = none := by
  cases a with
  | worker i ok =>
    show (workerStep p.shared ok (p.workers i)).map _ = none
    rcases h.staffed.ended code hcode i with hw | hw
    · rw [hw]
      rfl
    · rw [hw]
      rfl
  | acceptor r who =>
    show acceptorStep p r who = none
    simp only [acceptorStep, hcode]
  | spurious i => cases hown
  | stopStore => cases hown
  | stopClose => cases hown

/-! ## what was taken on is served -/

/-- what the queue holds or has handed to a worker -/
def PoolShared.entrusted (sh : PoolShared) : Multiset Int := sh.gives + sh.queue.ring.contents

theorem acceptorStep_entrusted (r : SysResult) (who : Finset (Fin n)) (h : Accounted p)
    (hstep : acceptorStep p r who = some p') : p.shared.entrusted ≤ p'.shared.entrusted := by
  cases hacc : p.acceptor with
  | pushing fd =>
    simp only [acceptorStep, hacc, acceptorPush] at hstep
    rcases queueTryPush_spec p.shared.queue fd h.wf with
      ⟨_, hresult⟩ | ⟨_, _, ring, hresult, _, hcontents, _⟩
    · simp only [hresult] at hstep
      rw [if_pos (by decide)] at hstep
      cases hstep
      exact le_refl _
    · simp only [hresult] at hstep
      rw [if_neg (by simp)] at hstep
      split_ifs at hstep
      cases hstep
      show p.shared.gives + (p.shared.queue.ring.contents : Multiset Int) ≤
        p.shared.gives + (ring.contents : Multiset Int)
      rw [hcontents, ← Multiset.coe_add, ← add_assoc]
      exact Multiset.le_add_right _ _
  | spawning i =>
    simp only [acceptorStep, hacc] at hstep
    split_ifs at hstep
    · split at hstep <;> cases hstep <;> exact le_refl _
    · cases hstep
      exact le_refl _
  | polling =>
    simp only [acceptorStep, hacc] at hstep
    split at hstep <;> cases hstep <;> exact le_refl _
  | accepting =>
    simp only [acceptorStep, hacc] at hstep
    split at hstep
    · split_ifs at hstep
      cases hstep
      exact le_refl _
    · cases hstep
      exact le_refl _
    · cases hstep
      exact le_refl _
  | acceptFailed =>
    simp only [acceptorStep, hacc] at hstep
    split_ifs at hstep <;> cases hstep <;> exact le_refl _
  | joining i =>
    simp only [acceptorStep, hacc] at hstep
    split_ifs at hstep <;> cases hstep <;> exact le_refl _
  | abortJoining i j =>
    simp only [acceptorStep, hacc] at hstep
    split_ifs at hstep <;> cases hstep <;> exact le_refl _
  | returned code =>
    simp only [acceptorStep, hacc] at hstep
    cases hstep
  | _ =>
    simp only [acceptorStep, hacc] at hstep
    cases hstep
    exact le_refl _

theorem poolStep_entrusted (a : PoolAct n) (hstep : poolStep p a = some p') (h : Accounted p) :
    p.shared.entrusted ≤ p'.shared.entrusted := by
  cases a with
  | worker i ok =>
    obtain ⟨⟨sh', w'⟩, hmoved, hp'⟩ := Option.map_eq_some_iff.mp hstep
    rw [← hp']
    exact le_of_eq (workerStep_move _ _ ok _ _ h.wf hmoved).contents.symm
  | acceptor r who => exact acceptorStep_entrusted r who h hstep
  | spurious i =>
    unfold poolStep at hstep
    dsimp only at hstep
    split_ifs at hstep
    cases hstep
    exact le_refl _
  | stopStore =>
    cases hstep
    exact le_refl _
  | stopClose =>
    cases hstep
    exact le_refl _

end

/-- a connection is queued when the stop comes -/
def queuedAtStop : List (PoolAct 1) :=
  [.acceptor (.ok 0) ∅, .acceptor .again ∅, .acceptor .again ∅, .acceptor (.ok 0) ∅,
    .acceptor (.ok 7) ∅, .acceptor .again ∅, .acceptor .again ∅, .stopStore]

def drainQueued : List (PoolAct 1) :=
  [.acceptor .again ∅, .acceptor .again ∅] ++ List.replicate 6 (.worker ⟨0, Nat.one_pos⟩ true) ++
    [.acceptor .again ∅, .acceptor .again ∅]

end CServer
