import CServer.Lib.Fifo
import CServer.Lib.Ring

/-!
# The connection queue

`queue_init`, `queue_close`, `queue_try_push` and `queue_pop`, each under the mutex from its lock to
its unlock.

* `ConnQueue.fifo`    the bounded queue that a `struct ConnQueue` stands for;
* `queueTryPush_spec`, `queuePop_spec`   what the two do to it;
* `queueStep_eq`, `queueRun_eq`   the operations, one and in any order, have the answers of the
                                  bounded queue;
* `queue_fifo`        the queue from `queue_init` on.
-/

namespace CServer

/-- The ring is the `fds`, `capacity`, `head`, `tail` and `count` of the structure. -/
structure ConnQueue where
  ring : Ring Int
  closed : Bool

/-- `queue_init`; `ok` tells that the allocation and the inits of the mutex and of the condition
variables succeed. -/
def queueInit (ok : Bool) (capacity : Int) : Option ConnQueue :=
  if capacity ≤ 0 then none
  else if ok then some ⟨Ring.ofSlots (List.replicate capacity.toNat 0), false⟩
  else none

def queueClose (q : ConnQueue) : ConnQueue := { q with closed := true }

/-- `queue_try_push`: its result and the queue afterwards -/
def queueTryPush (q : ConnQueue) (fd : Int) : Option (Int × ConnQueue) :=
  if q.closed then some (-1, q)
  else if q.ring.count = q.ring.capacity then some (-1, q)
  else (q.ring.push fd).map fun ring => (0, { q with ring := ring })

/-- `waits` is the call of `pthread_cond_wait`, `drained` the exit with the result -1 and `taken`
the exit with a descriptor. -/
inductive QueuePop where
  | waits
  | drained
  | taken (fd : Int) (q : ConnQueue)

/-- `queue_pop` from where it holds the mutex to where it lets go of it -/
def queuePop (q : ConnQueue) : Option QueuePop :=
  if q.ring.count = 0 ∧ q.closed = false then some .waits
  else if q.ring.count = 0 ∧ q.closed = true then some .drained
  else q.ring.pop.map fun popped => .taken popped.1 { q with ring := popped.2 }

namespace ConnQueue

def WF (q : ConnQueue) : Prop := q.ring.WF

def fifo (q : ConnQueue) : Fifo Int := ⟨q.ring.capacity, q.ring.contents, q.closed⟩

theorem WF.length_eq {q : ConnQueue} (h : q.WF) : q.ring.contents.length = q.ring.count :=
  h.contents_length

theorem WF.count_zero {q : ConnQueue} (h : q.WF) : q.ring.count = 0 ↔ q.ring.contents = [] := by
  rw [← h.length_eq]
  exact List.length_eq_zero_iff

end ConnQueue

theorem queueInit_wf (capacity : Int) (h : 1 ≤ capacity) :
    ∃ q, queueInit true capacity = some q ∧ q.WF ∧ q.fifo = ⟨capacity.toNat, [], false⟩ := by
  have hpos : 0 < (List.replicate capacity.toNat (0 : Int)).length := by
    rw [List.length_replicate]
    omega
  refine ⟨⟨Ring.ofSlots (List.replicate capacity.toNat 0), false⟩, ?_, Ring.ofSlots_wf _ hpos, ?_⟩
  · unfold queueInit
    rw [if_neg (by omega), if_pos rfl]
  · unfold ConnQueue.fifo
    rw [Ring.ofSlots_contents]
    show Fifo.mk (List.replicate capacity.toNat (0 : Int)).length _ _ = _
    rw [List.length_replicate]

theorem queueInit_some (ok : Bool) (capacity : Int) (q : ConnQueue)
    (h : queueInit ok capacity = some q) :
    q.WF ∧ q.ring.contents = [] ∧ q.closed = false := by
  cases ok with
  | false => simp [queueInit] at h
  | true =>
    have hpos : 1 ≤ capacity := by
      by_contra hneg
      unfold queueInit at h
      rw [if_pos (by omega)] at h
      cases h
    obtain ⟨q', hq', hwf, hfifo⟩ := queueInit_wf capacity hpos
    rw [hq'] at h
    cases h
    exact ⟨hwf, congrArg Fifo.items hfifo, congrArg Fifo.closed hfifo⟩

/-- **A push is refused by a full or closed queue, which it leaves as it is, and else appends.** -/
theorem queueTryPush_spec (q : ConnQueue) (fd : Int) (h : q.WF) :
    ((q.closed = true ∨ q.ring.count = q.ring.capacity) ∧ queueTryPush q fd = some (-1, q)) ∨
    (q.closed = false ∧ q.ring.count < q.ring.capacity ∧
      ∃ ring, queueTryPush q fd = some (0, { q with ring := ring }) ∧ ring.WF ∧
        ring.contents = q.ring.contents ++ [fd] ∧ ring.count = q.ring.count + 1 ∧
        ring.capacity = q.ring.capacity) := by
  unfold queueTryPush
  by_cases hclosed : q.closed = true
  · exact .inl ⟨.inl hclosed, if_pos hclosed⟩
  · rw [if_neg hclosed]
    by_cases hfull : q.ring.count = q.ring.capacity
    · exact .inl ⟨.inr hfull, if_pos hfull⟩
    · have hroom : q.ring.count < q.ring.capacity := lt_of_le_of_ne h.count_le hfull
      obtain ⟨ring, hpush, hspec⟩ := Ring.push_eq q.ring fd h hroom
      rw [if_neg hfull, hpush]
      exact .inr ⟨eq_false_of_ne_true hclosed, hroom, ring, rfl, hspec⟩

/-- **A pop waits for a queue without items, is sent away when that queue is closed, and else takes
the first item.** -/
theorem queuePop_spec (q : ConnQueue) (h : q.WF) :
    (q.ring.count = 0 ∧ q.closed = false ∧ queuePop q = some .waits) ∨
    (q.ring.count = 0 ∧ q.closed = true ∧ queuePop q = some .drained) ∨
    ∃ fd ring, queuePop q = some (.taken fd { q with ring := ring }) ∧ ring.WF ∧
      q.ring.contents = fd :: ring.contents ∧ q.ring.count = ring.count + 1 ∧
      ring.capacity = q.ring.capacity := by
  unfold queuePop
  by_cases hzero : q.ring.count = 0
  · cases hclosed : q.closed with
    | false => exact .inl ⟨hzero, rfl, if_pos ⟨hzero, rfl⟩⟩
    | true =>
      rw [if_neg (by simp)]
      exact .inr (.inl ⟨hzero, rfl, if_pos ⟨hzero, rfl⟩⟩)
  · have hused : 0 < q.ring.count := Nat.pos_of_ne_zero hzero
    obtain ⟨fd, ring, hpop, hwf, hcontents, hcount, hcapacity⟩ := Ring.pop_eq q.ring h hused
    rw [if_neg fun hw => hzero hw.1, if_neg fun hw => hzero hw.1, hpop]
    exact .inr (.inr ⟨fd, ring, rfl, hwf, hcontents, by omega, hcapacity⟩)

/-! ## the operations in any order -/

/-- one operation, with its answer in the words of `Fifo` -/
def queueStep (q : ConnQueue) : FifoOp Int → Option (FifoAnswer Int × ConnQueue)
  | .push fd =>
    (queueTryPush q fd).map fun pushed =>
      (if pushed.1 = 0 then .accepted fd else .refused, pushed.2)
  | .pop =>
    (queuePop q).map fun
      | .waits => (.waits, q)
      | .drained => (.drained, q)
      | .taken fd q' => (.taken fd, q')
  | .close => some (.closed, queueClose q)

def queueRun (q : ConnQueue) : List (FifoOp Int) → Option (List (FifoAnswer Int) × ConnQueue)
  | [] => some ([], q)
  | op :: ops =>
    match queueStep q op with
    | none => none
    | some (answer, q') => (queueRun q' ops).map fun rest => (answer :: rest.1, rest.2)

/-- **One operation answers as the bounded queue does, and the two stay in step.** -/
theorem queueStep_eq (q : ConnQueue) (op : FifoOp Int) (h : q.WF) :
    ∃ q', queueStep q op = some ((q.fifo.step op).1, q') ∧ q'.WF ∧
      q'.fifo = (q.fifo.step op).2 := by
  cases op with
  | push fd =>
    have hlen : q.fifo.items.length = q.ring.count := h.length_eq
    unfold queueStep Fifo.step
    dsimp only
    rcases queueTryPush_spec q fd h with
      ⟨hrefused, hpush⟩ | ⟨hopen, hroom, ring, hpush, hwf, hcontents, hcount, hcapacity⟩
    · have hrefused : q.fifo.closed = true ∨ q.ring.count = q.fifo.capacity := hrefused
      rw [hlen, if_pos hrefused, hpush]
      exact ⟨q, rfl, h, rfl⟩
    · have hfree : ¬(q.fifo.closed = true ∨ q.ring.count = q.fifo.capacity) := by
        show ¬(q.closed = true ∨ q.ring.count = q.ring.capacity)
        rw [hopen]
        simp only [Bool.false_eq_true, false_or]
        omega
      rw [hlen, if_neg hfree, hpush]
      refine ⟨{ q with ring := ring }, rfl, hwf, ?_⟩
      show Fifo.mk ring.capacity ring.contents q.closed = _
      rw [hcontents, hcapacity]
      rfl
  | pop =>
    unfold queueStep Fifo.step
    dsimp only
    rcases queuePop_spec q h with
      ⟨hzero, hopen, hpop⟩ | ⟨hzero, hclosed, hpop⟩ | ⟨fd, ring, hpop, hwf, hcontents, _, hcapacity⟩
    · have hitems : q.fifo.items = [] := h.count_zero.mp hzero
      have hclosed : q.fifo.closed = false := hopen
      rw [hpop]
      simp only [hitems, hclosed, Option.map_some, Bool.false_eq_true, if_false]
      exact ⟨q, rfl, h, rfl⟩
    · have hitems : q.fifo.items = [] := h.count_zero.mp hzero
      have hclosed : q.fifo.closed = true := hclosed
      rw [hpop]
      simp only [hitems, hclosed, Option.map_some, if_true]
      exact ⟨q, rfl, h, rfl⟩
    · have hitems : q.fifo.items = fd :: ring.contents := hcontents
      rw [hpop]
      simp only [hitems, Option.map_some]
      refine ⟨{ q with ring := ring }, rfl, hwf, ?_⟩
      show Fifo.mk ring.capacity ring.contents q.closed = _
      rw [hcapacity]
      rfl
  | close => exact ⟨queueClose q, rfl, h, rfl⟩

/-- **Any order of operations answers as the bounded queue does.** -/
theorem queueRun_eq (q : ConnQueue) (ops : List (FifoOp Int)) (h : q.WF) :
    ∃ q', queueRun q ops = some ((q.fifo.run ops).1, q') ∧ q'.WF ∧
      q'.fifo = (q.fifo.run ops).2 := by
  induction ops generalizing q with
  | nil => exact ⟨q, rfl, h, rfl⟩
  | cons op ops ih =>
    obtain ⟨q₁, hstep, hwf₁, hfifo₁⟩ := queueStep_eq q op h
    obtain ⟨q', hrun, hwf, hfifo⟩ := ih q₁ hwf₁
    refine ⟨q', ?_, hwf, ?_⟩
    · unfold queueRun
      simp only [hstep, hrun, Option.map_some, hfifo₁]
      rfl
    · rw [hfifo, hfifo₁]
      rfl

/-- what a pop returns -/
def FifoAnswer.returned : FifoAnswer Int → Option Int
  | .taken fd => some fd
  | .drained => some (-1)
  | _ => none

theorem filterMap_returned (answers : List (FifoAnswer Int)) :
    answers.filterMap FifoAnswer.returned =
      (answers.filterMap FifoAnswer.popped?).map fun popped => popped.getD (-1) := by
  rw [List.map_filterMap]
  congr 1
  funext answer
  cases answer <;> rfl

/-- From a closed queue every pop returns the next item in order, and -1 behind the last. -/
theorem queueRun_closed (q : ConnQueue) (ops : List (FifoOp Int)) (h : q.WF)
    (hclosed : q.closed = true) :
    ∃ answers q', queueRun q ops = some (answers, q') ∧
      answers.filterMap FifoAnswer.returned =
        (q.ring.contents ++ List.replicate (ops.countP FifoOp.isPop) (-1)).take
          (ops.countP FifoOp.isPop) := by
  obtain ⟨q', hrun, _⟩ := queueRun_eq q ops h
  refine ⟨_, q', hrun, ?_⟩
  rw [filterMap_returned, q.fifo.run_closed ops hclosed, List.map_take, List.map_append,
    List.map_map, List.map_replicate]
  congr 2
  exact List.map_id _

theorem queueTryPush_iff (q : ConnQueue) (fd : Int) (h : q.WF) (capacity : Int)
    (hcapacity : (q.ring.capacity : Int) = capacity) :
    (queueTryPush q fd = some (-1, q) ↔ q.closed = true ∨ (q.ring.count : Int) = capacity) ∧
    (queueTryPush q fd ≠ some (-1, q) → ∃ q', queueTryPush q fd = some (0, q') ∧
      q'.ring.contents = q.ring.contents ++ [fd] ∧ q'.closed = q.closed) := by
  have hfull : (q.ring.count : Int) = capacity ↔ q.ring.count = q.ring.capacity := by omega
  rw [hfull]
  rcases queueTryPush_spec q fd h with
    ⟨hrefused, hpush⟩ | ⟨hopen, hroom, ring, hpush, _, hcontents, _⟩
  · exact ⟨iff_of_true hpush hrefused, fun hne => absurd hpush hne⟩
  · refine ⟨iff_of_false (fun heq => ?_) ?_, fun _ => ⟨_, hpush, hcontents, rfl⟩⟩
    · rw [hpush] at heq
      have hzero : (0 : Int) = -1 := congrArg Prod.fst (Option.some.inj heq)
      omega
    · rw [hopen]
      simp only [Bool.false_eq_true, false_or]
      omega

/-- **The queue from `queue_init` on, under pushes, pops and closes in any order.** -/
theorem queue_fifo (capacity : Int) (h : 1 ≤ capacity) :
    ∃ q₀, queueInit true capacity = some q₀ ∧ ∀ ops : List (FifoOp Int),
      ∃ answers q, queueRun q₀ ops = some (answers, q) ∧
        answers = ((Fifo.mk capacity.toNat [] false).run ops).1 ∧
        ((0 : Int) ≤ q.ring.count ∧ (q.ring.count : Int) ≤ capacity ∧
          (q.ring.head : Int) < capacity ∧ (q.ring.tail : Int) < capacity ∧
          (q.ring.tail : Int) = (q.ring.head + q.ring.count) % capacity) ∧
        answers.filterMap FifoAnswer.accepted? =
          answers.filterMap FifoAnswer.taken? ++ q.ring.contents ∧
        (∀ fd,
          (queueTryPush q fd = some (-1, q) ↔ q.closed = true ∨ (q.ring.count : Int) = capacity) ∧
          (queueTryPush q fd ≠ some (-1, q) → ∃ q', queueTryPush q fd = some (0, q') ∧
            q'.ring.contents = q.ring.contents ++ [fd] ∧ q'.closed = q.closed)) ∧
        (q.closed = true ↔ FifoOp.close ∈ ops) ∧
        (q.closed = true → ∀ more, ∃ answers' q', queueRun q more = some (answers', q') ∧
          answers'.filterMap FifoAnswer.returned =
            (q.ring.contents ++ List.replicate (more.countP FifoOp.isPop) (-1)).take
              (more.countP FifoOp.isPop)) := by
  obtain ⟨q₀, hinit, hwf₀, hfifo₀⟩ := queueInit_wf capacity h
  refine ⟨q₀, hinit, fun ops => ?_⟩
  obtain ⟨q, hrun, hwf, hfifo⟩ := queueRun_eq q₀ ops hwf₀
  rw [hfifo₀] at hrun hfifo
  have hcapacity : (q.ring.capacity : Int) = capacity := by
    have hcap : q.ring.capacity = capacity.toNat :=
      (congrArg Fifo.capacity hfifo).trans (Fifo.run_capacity _ ops)
    omega
  have hcontents : q.ring.contents = ((Fifo.mk capacity.toNat [] false).run ops).2.items :=
    congrArg Fifo.items hfifo
  have hclosed : q.closed = ((Fifo.mk capacity.toNat [] false).run ops).2.closed :=
    congrArg Fifo.closed hfifo
  refine ⟨_, q, hrun, rfl, ?_, ?_, fun fd => ?_, ?_,
    fun hclosed more => queueRun_closed q more hwf hclosed⟩
  · have hcount := hwf.count_le
    have hhead := hwf.head_lt
    have htail := hwf.tail_lt
    have htail_eq := hwf.tail_eq
    refine ⟨Int.natCast_nonneg _, by omega, by omega, by omega, ?_⟩
    rw [htail_eq, ← hcapacity]
    push_cast
    rfl
  · rw [hcontents]
    exact Fifo.run_items ⟨capacity.toNat, [], false⟩ ops
  · exact queueTryPush_iff q fd hwf capacity hcapacity
  · rw [hclosed, Fifo.closed_run]
    simp

/-- a queue of one place: a second push is refused, and the close comes before the pops -/
theorem queue_fifo_single : (1 : Int) ≤ 1 ∧ ∃ q₀, queueInit true 1 = some q₀ ∧
    ∃ answers q, queueRun q₀ [.push 5, .push 6, .close, .pop, .pop] = some (answers, q) ∧
      answers = [.accepted 5, .refused, .closed, .taken 5, .drained] := by
  obtain ⟨q₀, hinit, hall⟩ := queue_fifo 1 (le_refl _)
  obtain ⟨answers, q, hrun, hanswers, _⟩ := hall [.push 5, .push 6, .close, .pop, .pop]
  exact ⟨le_refl _, q₀, hinit, answers, q, hrun, hanswers⟩

end CServer
