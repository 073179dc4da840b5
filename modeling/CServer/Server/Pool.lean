import CServer.Lib.Crew
import CServer.Lib.Runs
import CServer.Server.Queue
import Mathlib.Data.Finset.Card

/-!
# The acceptor and the workers

`server_run` and `n` threads of `worker_main`, one step at a time.  Each operation on the queue is
one step, under its mutex, except that a worker in `queue_pop` may go to sleep in between.

* `Worker`, `workerStep`       `worker_main` with `queue_pop` and `handle_client`;
* `Acceptor`, `acceptorStep`   `server_run` from its first `pthread_create` on;
* `PoolAct`, `poolStep`        a step of the pool: of a worker, of the acceptor, of a thread that
                               is in `server_stop`, or a wake-up without cause;
* `workerPop_spec`             what a worker that looks at the queue does.

Nobody waits on `not_full`, so its signals are left out.  A descriptor is closed by a worker
(`served`) or by the acceptor (`dropped`).
-/

namespace CServer

/-- `struct ServerStats`, whose counters are counted here without a wrap at `2 ^ 64`. -/
structure PoolStats where
  connectionsAccepted : Nat
  connectionsHandled : Nat
  connectionsDroppedQueueFull : Nat
  errors : Nat
  httpRequests : Nat
  httpErrors : Nat

/-- What the threads share.  `accepts` are the descriptors that `accept` has returned, `gives` those
that `queue_pop` has returned, `served` and `dropped` those closed. -/
structure PoolShared where
  queue : ConnQueue
  stopRequested : Bool
  stats : PoolStats
  accepts : Multiset Int
  gives : Multiset Int
  served : Multiset Int
  dropped : Multiset Int

/-- Where a worker stands.

* `unstarted`: before its `pthread_create`;
* `popping`: in `queue_pop`, about to look at the queue;
* `waiting`, `woken`: in `pthread_cond_wait`, in the wait set or to come back with the mutex;
* `reading fd`: in `handle_client`, up to the outcome of `http_read_request`;
* `failing fd`: behind the first of the two counters of a failure there;
* `dispatching fd`: in `api_dispatch`;
* `closing fd`, `closed`: before and behind `close`;
* `exited`: returned from `worker_main`. -/
inductive Worker where
  | unstarted
  | popping
  | waiting
  | woken
  | reading (fd : Int)
  | failing (fd : Int)
  | dispatching (fd : Int)
  | closing (fd : Int)
  | closed
  | exited
  deriving DecidableEq

/-- `queue_pop` of a worker that holds the mutex -/
def workerPop (sh : PoolShared) : Option (PoolShared × Worker) :=
  (queuePop sh.queue).map fun
    | .waits => (sh, .waiting)
    | .drained => (sh, .exited)
    | .taken fd q => ({ sh with queue := q, gives := fd ::ₘ sh.gives }, .reading fd)

/-- The next step of a worker; `ok` is the outcome of what it calls.  A worker in the wait set, and
one that is not running, has none. -/
def workerStep (sh : PoolShared) (ok : Bool) : Worker → Option (PoolShared × Worker)
  | .unstarted => none
  | .popping => workerPop sh
  | .waiting => none
  | .woken => workerPop sh
  | .reading fd =>
    if ok then
      some ({ sh with stats.httpRequests := sh.stats.httpRequests + 1 }, .dispatching fd)
    else some ({ sh with stats.errors := sh.stats.errors + 1 }, .failing fd)
  | .failing fd =>
    some ({ sh with stats.httpErrors := sh.stats.httpErrors + 1 }, .closing fd)
  | .dispatching fd =>
    if ok then some (sh, .closing fd)
    else some ({ sh with stats.httpErrors := sh.stats.httpErrors + 1 }, .closing fd)
  | .closing fd => some ({ sh with served := fd ::ₘ sh.served }, .closed)
  | .closed =>
    some ({ sh with stats.connectionsHandled := sh.stats.connectionsHandled + 1 }, .popping)
  | .exited => none

/-- Where `server_run` stands.

* `spawning i`: before the `pthread_create` of worker `i`;
* `aborting i`, `abortClosing i`, `abortJoining i j`: in its failure, before the store, the
  `queue_close` and the `pthread_join`s of the workers below `i`;
* `checking`, `polling`, `accepting`: before the test of the accept loop, its `poll`, its `accept`;
* `acceptFailed`: behind an `accept` that failed for good;
* `accepted fd`, `pushing fd`, `dropping fd`, `closing fd`: before `connections_accepted`,
  `queue_try_push`, `connections_dropped_queue_full` and `close`;
* `draining`, `joining i`: behind the loop, before `queue_close` and the `pthread_join` of `i`;
* `returned code`. -/
inductive Acceptor where
  | spawning (i : Nat)
  | aborting (i : Nat)
  | abortClosing (i : Nat)
  | abortJoining (i j : Nat)
  | checking
  | polling
  | accepting
  | acceptFailed
  | accepted (fd : Int)
  | pushing (fd : Int)
  | dropping (fd : Int)
  | closing (fd : Int)
  | draining
  | joining (i : Nat)
  | returned (code : Int)
  deriving DecidableEq

/-- How a call of the acceptor ends.  `again` is a `poll` that times out, and an `EINTR`, `EAGAIN`
or `EWOULDBLOCK`. -/
inductive SysResult where
  | ok (fd : Int)
  | again
  | failed
  deriving DecidableEq

structure Pool (n : Nat) where
  shared : PoolShared
  acceptor : Acceptor
  workers : Fin n → Worker

namespace Pool
variable {n : Nat}

/-- `server_run` before its first worker -/
def start (n : Nat) (q : ConnQueue) : Pool n where
  shared := ⟨q, false, ⟨0, 0, 0, 0, 0, 0⟩, 0, 0, 0, 0⟩
  acceptor := .spawning 0
  workers _ := .unstarted

def asleep (p : Pool n) : Finset (Fin n) := Finset.univ.filter fun i => p.workers i = .waiting

def wake (p : Pool n) (who : Finset (Fin n)) : Pool n :=
  { p with workers := moveAll p.workers who .woken }

/-- `queue_close` with its broadcast -/
def closeQueue (p : Pool n) : Pool n :=
  { p with shared.queue := queueClose p.shared.queue }.wake p.asleep

/-- `pthread_cond_signal` may wake these workers: waiting ones, and one at least if there is any. -/
def Signals (p : Pool n) (who : Finset (Fin n)) : Prop :=
  who ⊆ p.asleep ∧ (p.asleep.Nonempty → who.Nonempty)

instance (p : Pool n) (who : Finset (Fin n)) : Decidable (p.Signals who) :=
  inferInstanceAs (Decidable (_ ∧ _))

def hasExited (p : Pool n) (i : Nat) : Prop := ∀ h : i < n, p.workers ⟨i, h⟩ = .exited

instance (p : Pool n) (i : Nat) : Decidable (p.hasExited i) :=
  inferInstanceAs (Decidable (∀ _ : i < n, _))

end Pool

/-- `queue_try_push` of the acceptor, with its signal -/
def acceptorPush {n : Nat} (p : Pool n) (fd : Int) (who : Finset (Fin n)) : Option (Pool n) :=
  match queueTryPush p.shared.queue fd with
  | none => none
  | some (result, q) =>
    if result ≠ 0 then some { p with shared.queue := q, acceptor := .dropping fd }
    else if p.Signals who then
      some ({ p with shared.queue := q, acceptor := .checking }.wake who)
    else none

/-- The next step of the acceptor; `r` is the outcome of what it calls, and `who` are the workers
that its signal wakes. -/
def acceptorStep {n : Nat} (p : Pool n) (r : SysResult) (who : Finset (Fin n)) : Option (Pool n) :=
  match p.acceptor with
  | .spawning i =>
    if h : i < n then
      match r with
      | .ok _ => some { p with
          acceptor := .spawning (i + 1)
          workers := Function.update p.workers ⟨i, h⟩ .popping }
      | _ => some { p with acceptor := .aborting i }
    else some { p with acceptor := .checking }
  | .aborting i =>
    some { p with shared.stopRequested := true, acceptor := .abortClosing i }
  | .abortClosing i => some { p.closeQueue with acceptor := .abortJoining i 0 }
  | .abortJoining i j =>
    if j < i then
      if p.hasExited j then some { p with acceptor := .abortJoining i (j + 1) } else none
    else some { p with acceptor := .returned (-1) }
  | .checking =>
    some { p with acceptor := if p.shared.stopRequested then .draining else .polling }
  | .polling =>
    match r with
    | .ok _ => some { p with acceptor := .accepting }
    | .again => some { p with acceptor := .checking }
    | .failed => some { p with
        shared.stats.errors := p.shared.stats.errors + 1
        acceptor := .draining }
  | .accepting =>
    match r with
    | .ok fd =>
      if 0 ≤ fd then
        some { p with shared.accepts := fd ::ₘ p.shared.accepts, acceptor := .accepted fd }
      else none
    | .again => some { p with acceptor := .checking }
    | .failed => some { p with acceptor := .acceptFailed }
  | .acceptFailed =>
    if p.shared.stopRequested then some { p with acceptor := .draining }
    else some { p with
      shared.stats.errors := p.shared.stats.errors + 1
      acceptor := .checking }
  | .accepted fd => some { p with
      shared.stats.connectionsAccepted := p.shared.stats.connectionsAccepted + 1
      acceptor := .pushing fd }
  | .pushing fd => acceptorPush p fd who
  | .dropping fd => some { p with
      shared.stats.connectionsDroppedQueueFull := p.shared.stats.connectionsDroppedQueueFull + 1
      acceptor := .closing fd }
  | .closing fd => some { p with
      shared.dropped := fd ::ₘ p.shared.dropped
      acceptor := .checking }
  | .draining => some { p.closeQueue with acceptor := .joining 0 }
  | .joining i =>
    if i < n then
      if p.hasExited i then some { p with acceptor := .joining (i + 1) } else none
    else some { p with acceptor := .returned 0 }
  | .returned _ => none

/-- `stopStore` and `stopClose` are the two steps of a `server_stop` in any other thread.  They come
in any order: the store is relaxed, and the acceptor may see it late. -/
inductive PoolAct (n : Nat) where
  | worker (i : Fin n) (ok : Bool)
  | acceptor (r : SysResult) (who : Finset (Fin n))
  | spurious (i : Fin n)
  | stopStore
  | stopClose

def poolStep {n : Nat} (p : Pool n) : PoolAct n → Option (Pool n)
  | .worker i ok =>
    (workerStep p.shared ok (p.workers i)).map fun moved =>
      { p with shared := moved.1, workers := Function.update p.workers i moved.2 }
  | .acceptor r who => acceptorStep p r who
  | .spurious i => if p.workers i = .waiting then some (p.wake {i}) else none
  | .stopStore => some { p with shared.stopRequested := true }
  | .stopClose => some p.closeQueue

/-- **A worker that looks at the queue goes to sleep, leaves, or takes the first descriptor.** -/
theorem workerPop_spec (sh sh' : PoolShared) (w' : Worker) (hwf : sh.queue.WF)
    (h : workerPop sh = some (sh', w')) :
    (sh.queue.ring.count = 0 ∧ sh.queue.closed = false ∧ sh' = sh ∧ w' = .waiting) ∨
    (sh.queue.ring.count = 0 ∧ sh.queue.closed = true ∧ sh' = sh ∧ w' = .exited) ∨
    ∃ fd ring, sh' = { sh with queue.ring := ring, gives := fd ::ₘ sh.gives } ∧
      w' = .reading fd ∧ ring.WF ∧ sh.queue.ring.contents = fd :: ring.contents ∧
      sh.queue.ring.count = ring.count + 1 := by
  unfold workerPop at h
  rcases queuePop_spec sh.queue hwf with
    ⟨hzero, hopen, hpop⟩ | ⟨hzero, hclosed, hpop⟩ | ⟨fd, ring, hpop, hring, hcontents, hcount, _⟩
  · rw [hpop] at h
    cases h
    exact .inl ⟨hzero, hopen, rfl, rfl⟩
  · rw [hpop] at h
    cases h
    exact .inr (.inl ⟨hzero, hclosed, rfl, rfl⟩)
  · rw [hpop] at h
    cases h
    exact .inr (.inr ⟨fd, ring, rfl, rfl, hring, hcontents, hcount⟩)

end CServer
