import CServer.Server.Accounting

/-!
# Signals on top of the threads

The threads of the pool with the mutex of the queue, and on top of each thread, wherever it stands,
the handler of `SIGINT` and `SIGTERM`.

* `SignalPool.step`   the pool, the owner of the mutex, and the handlers on each thread;
* `step_pool`            every step is one of the pool, or none of it;
* `step_mutex`           what a step does to the mutex;
* `Exclusive`                  its owner holds the mutex once, and nobody else does;
* `SelfDeadlock`, `Doomed`     a handler that waits for a mutex that its own thread owns, or will;
* `selfDeadlock_iff`           the runs that do not lead there.

A signal is blocked on a thread while its own handler runs there; the other one is not.
-/

namespace CServer

inductive Thread (n : Nat) where
  | acceptor
  | worker (i : Fin n)
  deriving DecidableEq

inductive Signo where
  | sigint
  | sigterm
  deriving DecidableEq

/-- How far an operation on the queue is: without the mutex, with it before the body, or with it
behind the body. -/
inductive LockPhase where
  | out
  | held
  | done
  deriving DecidableEq

/-- How far `on_signal` is: before its store to `g_signalled`, before the store of `server_stop`, in
its `queue_close`, or behind that. -/
inductive HandlerPoint where
  | entered
  | stopping
  | closing (lock : LockPhase)
  | leaving
  deriving DecidableEq

/-- a running `on_signal` -/
structure OnSignal where
  signo : Signo
  point : HandlerPoint
  deriving DecidableEq

/-- `lock` is how far a thread's own code is in an operation on the queue, and `handlers` are those
on top of it, the innermost first. -/
structure Stack where
  lock : LockPhase
  handlers : List OnSignal
  deriving DecidableEq

structure SignalPool (n : Nat) where
  pool : Pool n
  gSignalled : Bool
  owner : Option (Thread n)
  stack : Thread n → Stack

/-- `deliver` starts the handler on a thread; `run` is the next step of the innermost handler of a
thread, or of its own code, with the outcome of what that calls as in `PoolAct`. -/
inductive SignalAct (n : Nat) where
  | run (t : Thread n) (ok : Bool) (r : SysResult) (who : Finset (Fin n))
  | deliver (t : Thread n) (signo : Signo)
  | spurious (i : Fin n)

/-- the thread's own code is at the lock of an operation on the queue -/
def Pool.atQueue {n : Nat} (p : Pool n) : Thread n → Bool
  | .acceptor =>
    match p.acceptor with
    | .pushing _ | .draining | .abortClosing _ => true
    | _ => false
  | .worker i => p.workers i == .popping || p.workers i == .woken

def Pool.sleeps {n : Nat} (p : Pool n) : Thread n → Bool
  | .acceptor => false
  | .worker i => p.workers i == .waiting

def Pool.runs {n : Nat} (p : Pool n) : Thread n → Bool
  | .acceptor => true
  | .worker i => p.workers i != .unstarted && p.workers i != .exited

def Thread.act {n : Nat} (ok : Bool) (r : SysResult) (who : Finset (Fin n)) : Thread n → PoolAct n
  | .acceptor => .acceptor r who
  | .worker i => .worker i ok

namespace SignalPool
variable {n : Nat}

def start (n : Nat) (q : ConnQueue) : SignalPool n := ⟨Pool.start n q, false, none, fun _ => ⟨.out, []⟩⟩

def setStack (s : SignalPool n) (t : Thread n) (st : Stack) : SignalPool n :=
  { s with stack := Function.update s.stack t st }

/-- The next step of a thread's own code.  `pthread_cond_wait` lets go of the mutex. -/
def ownStep (s : SignalPool n) (t : Thread n) (a : PoolAct n) : LockPhase → Option (SignalPool n)
  | .out =>
    if s.pool.atQueue t then
      if s.owner = none then some ({ s with owner := some t }.setStack t ⟨.held, []⟩) else none
    else (poolStep s.pool a).map fun p => { s with pool := p }
  | .held =>
    (poolStep s.pool a).map fun p =>
      if p.sleeps t then { s with pool := p, owner := none }.setStack t ⟨.out, []⟩
      else { s with pool := p }.setStack t ⟨.done, []⟩
  | .done => some ({ s with owner := none }.setStack t ⟨.out, []⟩)

/-- The next step of a handler for `signo`, on top of the handlers `rest`. -/
def handlerStep (s : SignalPool n) (t : Thread n) (lock : LockPhase) (signo : Signo)
    (rest : List OnSignal) : HandlerPoint → Option (SignalPool n)
  | .entered =>
    some ({ s with gSignalled := true }.setStack t ⟨lock, ⟨signo, .stopping⟩ :: rest⟩)
  | .stopping =>
    (poolStep s.pool .stopStore).map fun p =>
      { s with pool := p }.setStack t ⟨lock, ⟨signo, .closing .out⟩ :: rest⟩
  | .closing .out =>
    if s.owner = none then
      some ({ s with owner := some t }.setStack t ⟨lock, ⟨signo, .closing .held⟩ :: rest⟩)
    else none
  | .closing .held =>
    (poolStep s.pool .stopClose).map fun p =>
      { s with pool := p }.setStack t ⟨lock, ⟨signo, .closing .done⟩ :: rest⟩
  | .closing .done =>
    some ({ s with owner := none }.setStack t ⟨lock, ⟨signo, .leaving⟩ :: rest⟩)
  | .leaving => some (s.setStack t ⟨lock, rest⟩)

/-- a signal can be delivered to the thread -/
def Accepts (s : SignalPool n) (t : Thread n) (signo : Signo) : Prop :=
  s.pool.runs t = true ∧ ∀ h ∈ (s.stack t).handlers, h.signo ≠ signo

instance (s : SignalPool n) (t : Thread n) (signo : Signo) : Decidable (s.Accepts t signo) :=
  inferInstanceAs (Decidable (_ ∧ _))

def step (s : SignalPool n) : SignalAct n → Option (SignalPool n)
  | .run t ok r who =>
    match s.stack t with
    | ⟨lock, []⟩ => s.ownStep t (t.act ok r who) lock
    | ⟨lock, h :: rest⟩ => s.handlerStep t lock h.signo rest h.point
  | .deliver t signo =>
    if s.Accepts t signo then
      some (s.setStack t ⟨(s.stack t).lock, ⟨signo, .entered⟩ :: (s.stack t).handlers⟩)
    else none
  | .spurious i => (poolStep s.pool (.spurious i)).map fun p => { s with pool := p }

/-- an act that is not possible changes nothing -/
def next (s : SignalPool n) (a : SignalAct n) : SignalPool n := (s.step a).getD s

/-! ## a step and the pool -/

theorem ownStep_pool (s s' : SignalPool n) (t : Thread n) (a : PoolAct n) (lock : LockPhase)
    (h : s.ownStep t a lock = some s') :
    s'.pool = s.pool ∨ poolStep s.pool a = some s'.pool := by
  cases lock with
  | out =>
    simp only [ownStep] at h
    split_ifs at h
    · cases h
      exact .inl rfl
    · obtain ⟨p, hp, rfl⟩ := Option.map_eq_some_iff.mp h
      exact .inr hp
  | held =>
    obtain ⟨p, hp, rfl⟩ := Option.map_eq_some_iff.mp h
    right
    split_ifs <;> exact hp
  | done =>
    cases h
    exact .inl rfl

theorem handlerStep_pool (s s' : SignalPool n) (t : Thread n) (lock : LockPhase) (signo : Signo)
    (rest : List OnSignal) (point : HandlerPoint)
    (h : s.handlerStep t lock signo rest point = some s') :
    s'.pool = s.pool ∨ ∃ a, poolStep s.pool a = some s'.pool := by
  cases point with
  | entered =>
    cases h
    exact .inl rfl
  | stopping =>
    cases h
    exact .inr ⟨.stopStore, rfl⟩
  | closing phase =>
    cases phase with
    | out =>
      simp only [handlerStep] at h
      split_ifs at h
      cases h
      exact .inl rfl
    | held =>
      cases h
      exact .inr ⟨.stopClose, rfl⟩
    | done =>
      cases h
      exact .inl rfl
  | leaving =>
    cases h
    exact .inl rfl

/-- **With the mutex and the handlers, the pool makes the steps of the pool.** -/
theorem step_pool (s s' : SignalPool n) (a : SignalAct n) (h : s.step a = some s') :
    s'.pool = s.pool ∨ ∃ act, poolStep s.pool act = some s'.pool := by
  cases a with
  | run t ok r who =>
    simp only [step] at h
    split at h
    · rcases ownStep_pool s s' t _ _ h with hpool | hpool
      · exact .inl hpool
      · exact .inr ⟨_, hpool⟩
    · exact handlerStep_pool s s' t _ _ _ _ h
  | deliver t signo =>
    simp only [step] at h
    split_ifs at h
    cases h
    exact .inl rfl
  | spurious i =>
    obtain ⟨p, hp, rfl⟩ := Option.map_eq_some_iff.mp h
    exact .inr ⟨.spurious i, hp⟩

end SignalPool

/-! ## a step and the mutex -/

def LockPhase.holds : LockPhase → Nat
  | .out => 0
  | .held | .done => 1

def OnSignal.holds (h : OnSignal) : Nat :=
  match h.point with
  | .closing lock => lock.holds
  | _ => 0

/-- how often the code on a thread holds the mutex -/
def Stack.holds (st : Stack) : Nat := st.lock.holds + (st.handlers.map OnSignal.holds).sum

/-- whether the running code does -/
def Stack.top (st : Stack) : Nat :=
  match st.handlers with
  | [] => st.lock.holds
  | h :: _ => h.holds

/-- the running code is a handler up to its `pthread_mutex_lock` -/
def Stack.AboutToLock (st : Stack) : Prop :=
  ∃ h rest, st.handlers = h :: rest ∧
    (h.point = .entered ∨ h.point = .stopping ∨ h.point = .closing .out)

namespace SignalPool
variable {n : Nat}

/-- the innermost handler of the thread waits for a mutex that the thread owns itself -/
def SelfDeadlock (s : SignalPool n) (t : Thread n) : Prop :=
  s.owner = some t ∧ ∃ h rest, (s.stack t).handlers = h :: rest ∧ h.point = .closing .out

/-- What a step does to the mutex: it leaves the owner as it is, or a thread locks or unlocks. -/
inductive MutexMove (s : SignalPool n) (a : SignalAct n) (s' : SignalPool n) : Prop where
  | keeps (howner : s'.owner = s.owner) (hholds : ∀ t, (s'.stack t).holds = (s.stack t).holds)
      (htop : ∀ t, (s.stack t).top = 1 → (s'.stack t).top = 1 ∨
        ∃ signo, a = .deliver t signo ∧ s.Accepts t signo)
      (hwaits : ∀ t, (s.stack t).AboutToLock → (s'.stack t).AboutToLock)
  | locks (t : Thread n) (hfree : s.owner = none) (howner : s'.owner = some t)
      (hholds : (s'.stack t).holds = (s.stack t).holds + 1) (htop : (s'.stack t).top = 1)
      (hothers : ∀ t', t' ≠ t → s'.stack t' = s.stack t')
  | unlocks (t : Thread n) (howner : s'.owner = none)
      (hholds : (s.stack t).holds = (s'.stack t).holds + 1)
      (hactive : ¬(s.stack t).AboutToLock)
      (hothers : ∀ t', t' ≠ t → s'.stack t' = s.stack t')

theorem setStack_same (s : SignalPool n) (t : Thread n) (st : Stack) :
    (s.setStack t st).stack t = st := Function.update_self _ _ _

theorem setStack_other (s : SignalPool n) (t t' : Thread n) (st : Stack) (h : t' ≠ t) :
    (s.setStack t st).stack t' = s.stack t' := Function.update_of_ne h _ _

section
variable {s : SignalPool n} {a : SignalAct n} (p : Pool n) (signalled : Bool) (t : Thread n)
  (st : Stack)

theorem MutexMove.stays (p : Pool n) : MutexMove s a { s with pool := p } :=
  .keeps rfl (fun _ => rfl) (fun _ h => .inl h) fun _ h => h

theorem MutexMove.of_stack (hholds : st.holds = (s.stack t).holds)
    (htop : (s.stack t).top = 1 → st.top = 1 ∨ ∃ signo, a = .deliver t signo ∧ s.Accepts t signo)
    (hwaits : (s.stack t).AboutToLock → st.AboutToLock) :
    MutexMove s a ({ s with pool := p, gSignalled := signalled }.setStack t st) := by
  have hother : ∀ t', t' ≠ t → ({ s with pool := p, gSignalled := signalled }.setStack t st).stack t' =
      s.stack t' := fun t' h => setStack_other _ t t' st h
  refine .keeps rfl (fun t' => ?_) (fun t' h => ?_) fun t' h => ?_
  · by_cases ht : t' = t
    · subst ht
      rw [setStack_same, hholds]
    · rw [hother t' ht]
  · by_cases ht : t' = t
    · subst ht
      rw [setStack_same]
      exact htop h
    · rw [hother t' ht]
      exact .inl h
  · by_cases ht : t' = t
    · subst ht
      rw [setStack_same]
      exact hwaits h
    · rw [hother t' ht]
      exact h

theorem MutexMove.of_lock (hfree : s.owner = none) (hholds : st.holds = (s.stack t).holds + 1)
    (htop : st.top = 1) : MutexMove s a ({ s with owner := some t }.setStack t st) := by
  refine .locks t hfree rfl ?_ ?_ fun t' h => setStack_other _ t t' st h
  · rw [setStack_same, hholds]
  · rw [setStack_same, htop]

theorem MutexMove.of_unlock (hholds : (s.stack t).holds = st.holds + 1)
    (hactive : ¬(s.stack t).AboutToLock) :
    MutexMove s a ({ s with pool := p, owner := none }.setStack t st) := by
  refine .unlocks t rfl ?_ hactive fun t' h => setStack_other _ t t' st h
  rw [setStack_same, hholds]

end

theorem not_aboutToLock_nil (lock : LockPhase) : ¬Stack.AboutToLock ⟨lock, []⟩ := by
  rintro ⟨h, rest, heq, _⟩
  cases heq

theorem ownStep_mutex (s s' : SignalPool n) (a : SignalAct n) (t : Thread n) (act : PoolAct n)
    (lock : LockPhase) (hstack : s.stack t = ⟨lock, []⟩) (h : s.ownStep t act lock = some s') :
    MutexMove s a s' := by
  have hidle : ¬(s.stack t).AboutToLock := by
    rw [hstack]
    exact not_aboutToLock_nil lock
  cases lock with
  | out =>
    simp only [ownStep] at h
    split_ifs at h with hqueue hfree
    · cases h
      exact .of_lock t _ hfree (by rw [hstack]; rfl) rfl
    · obtain ⟨p, _, rfl⟩ := Option.map_eq_some_iff.mp h
      exact .stays p
  | held =>
    obtain ⟨p, _, rfl⟩ := Option.map_eq_some_iff.mp h
    split_ifs
    · exact .of_unlock p t _ (by rw [hstack]; rfl) hidle
    · exact .of_stack p s.gSignalled t _ (by rw [hstack]; rfl) (fun _ => .inl rfl)
        fun hw => absurd hw hidle
  | done =>
    cases h
    exact .of_unlock s.pool t _ (by rw [hstack]; rfl) hidle

theorem holds_cons (lock : LockPhase) (h : OnSignal) (rest : List OnSignal) :
    Stack.holds ⟨lock, h :: rest⟩ = h.holds + Stack.holds ⟨lock, rest⟩ := by
  unfold Stack.holds
  rw [List.map_cons, List.sum_cons]
  exact Nat.add_left_comm _ _ _

theorem handlerStep_mutex (s s' : SignalPool n) (a : SignalAct n) (t : Thread n) (lock : LockPhase)
    (signo : Signo) (rest : List OnSignal) (point : HandlerPoint)
    (hstack : s.stack t = ⟨lock, ⟨signo, point⟩ :: rest⟩)
    (h : s.handlerStep t lock signo rest point = some s') : MutexMove s a s' := by
  have htop : (s.stack t).top = (OnSignal.mk signo point).holds := by rw [hstack]; rfl
  have hholds := holds_cons lock ⟨signo, point⟩ rest
  rw [← hstack] at hholds
  have hactive : point = .closing .held ∨ point = .closing .done ∨ point = .leaving →
      ¬(s.stack t).AboutToLock := by
    rintro hpoint ⟨h', rest', heq, hh⟩
    rw [hstack] at heq
    cases heq
    rcases hpoint with rfl | rfl | rfl <;> rcases hh with hh | hh | hh <;> cases hh
  cases point with
  | entered =>
    cases h
    refine .of_stack s.pool true t _ ?_ (fun h1 => ?_) fun _ => ⟨_, rest, rfl, .inr (.inl rfl)⟩
    · rw [holds_cons, hholds]
      rfl
    · rw [htop] at h1
      cases h1
  | stopping =>
    cases h
    refine .of_stack _ s.gSignalled t _ ?_ (fun h1 => ?_)
      fun _ => ⟨_, rest, rfl, .inr (.inr rfl)⟩
    · rw [holds_cons, hholds]
      rfl
    · rw [htop] at h1
      cases h1
  | closing phase =>
    cases phase with
    | out =>
      simp only [handlerStep] at h
      split_ifs at h with hfree
      cases h
      refine .of_lock t _ hfree ?_ rfl
      rw [holds_cons, hholds]
      show 1 + _ = 0 + _ + 1
      omega
    | held =>
      cases h
      refine .of_stack _ s.gSignalled t _ ?_ (fun _ => .inl rfl)
        fun hw => absurd hw (hactive (.inl rfl))
      rw [holds_cons, hholds]
      rfl
    | done =>
      cases h
      refine .of_unlock s.pool t _ ?_ (hactive (.inr (.inl rfl)))
      rw [holds_cons, hholds]
      show 1 + _ = 0 + _ + 1
      omega
  | leaving =>
    cases h
    refine .of_stack s.pool s.gSignalled t _ ?_ (fun h1 => ?_)
      fun hw => absurd hw (hactive (.inr (.inr rfl)))
    · rw [hholds]
      exact (Nat.zero_add _).symm
    · rw [htop] at h1
      cases h1

/-- **What a step does to the mutex.** -/
theorem step_mutex (s s' : SignalPool n) (a : SignalAct n) (h : s.step a = some s') :
    MutexMove s a s' := by
  cases a with
  | run t ok r who =>
    simp only [step] at h
    split at h
    · rename_i lock hstack
      exact ownStep_mutex s s' _ t _ lock hstack h
    · rename_i lock h' rest hstack
      exact handlerStep_mutex s s' _ t lock h'.signo rest h'.point hstack h
  | deliver t signo =>
    simp only [step] at h
    split_ifs at h with haccepts
    cases h
    refine .of_stack s.pool s.gSignalled t _ ?_ (fun _ => .inr ⟨signo, rfl, haccepts⟩)
      fun _ => ⟨_, _, rfl, .inl rfl⟩
    rw [holds_cons]
    exact Nat.zero_add _
  | spurious i =>
    obtain ⟨p, _, rfl⟩ := Option.map_eq_some_iff.mp h
    exact .stays p

/-! ## who holds the mutex -/

/-- The owner holds the mutex once, and nobody else does. -/
def Exclusive (s : SignalPool n) : Prop :=
  ∀ t, (s.stack t).holds = if s.owner = some t then 1 else 0

theorem next_mutex (s : SignalPool n) (a : SignalAct n) :
    MutexMove s a (s.next a) ∨ (s.step a = none ∧ s.next a = s) := by
  unfold next
  cases hstep : s.step a with
  | none => exact .inr ⟨rfl, rfl⟩
  | some s' => exact .inl (step_mutex s s' a hstep)

theorem next_exclusive (s : SignalPool n) (a : SignalAct n) (h : s.Exclusive) :
    (s.next a).Exclusive := by
  rcases next_mutex s a with hmove | ⟨_, hsame⟩
  · intro t'
    cases hmove with
    | keeps howner hholds _ _ => rw [hholds, howner, h t']
    | locks t hfree howner hholds _ hothers =>
      by_cases ht : t' = t
      · subst ht
        rw [hholds, howner, h t', hfree, if_neg (by simp), if_pos rfl]
      · have hne : ¬some t = some t' := fun heq => ht (Option.some.inj heq).symm
        rw [hothers t' ht, h t', hfree, howner, if_neg (by simp), if_neg hne]
    | unlocks t howner hholds _ hothers =>
      have hown : s.owner = some t := by
        by_contra hne
        have hzero := h t
        rw [if_neg hne] at hzero
        omega
      by_cases ht : t' = t
      · subst ht
        have hone := h t'
        rw [if_pos hown] at hone
        rw [howner, if_neg (by simp)]
        omega
      · have hne : ¬some t = some t' := fun heq => ht (Option.some.inj heq).symm
        rw [hothers t' ht, h t', hown, howner, if_neg hne, if_neg (by simp)]
  · rw [hsame]
    exact h

/-! ## no signal for the owner -/

/-- a signal that is delivered does not land on the owner of the mutex -/
def Spares (s : SignalPool n) (a : SignalAct n) : Prop :=
  ∀ t signo, a = .deliver t signo → s.Accepts t signo → s.owner ≠ some t

/-- it is the running code of the owner that holds the mutex -/
def OwnerRuns (s : SignalPool n) : Prop := ∀ t, s.owner = some t → (s.stack t).top = 1

theorem next_ownerRuns (s : SignalPool n) (a : SignalAct n) (hspares : s.Spares a)
    (h : s.OwnerRuns) : (s.next a).OwnerRuns := by
  rcases next_mutex s a with hmove | ⟨_, hsame⟩
  · intro t' hown
    cases hmove with
    | keeps howner _ htop _ =>
      rw [howner] at hown
      rcases htop t' (h t' hown) with htop | ⟨signo, ha, haccepts⟩
      · exact htop
      · exact absurd hown (hspares t' signo ha haccepts)
    | locks t _ howner _ htop _ =>
      rw [howner] at hown
      cases hown
      exact htop
    | unlocks t howner _ _ _ =>
      rw [howner] at hown
      cases hown
  · rw [hsame]
    exact h

theorem OwnerRuns.not_selfDeadlock {s : SignalPool n} (h : s.OwnerRuns) (t : Thread n) :
    ¬s.SelfDeadlock t := by
  rintro ⟨hown, ⟨signo, point⟩, rest, hhandlers, hpoint⟩
  have htop := h t hown
  unfold Stack.top at htop
  rw [hhandlers] at htop
  cases hpoint
  cases htop

/-! ## a signal for the owner -/

/-- the thread owns the mutex and runs a handler that is about to lock it -/
def Doomed (t : Thread n) (s : SignalPool n) : Prop :=
  s.owner = some t ∧ (s.stack t).AboutToLock

theorem next_doomed (t : Thread n) (s : SignalPool n) (a : SignalAct n)
    (h : s.Exclusive ∧ s.Doomed t) : (s.next a).Exclusive ∧ (s.next a).Doomed t := by
  obtain ⟨hexclusive, hown, hwaits⟩ := h
  refine ⟨next_exclusive s a hexclusive, ?_⟩
  rcases next_mutex s a with hmove | ⟨_, hsame⟩
  · cases hmove with
    | keeps howner _ _ hkept => exact ⟨howner.trans hown, hkept t hwaits⟩
    | locks t' hfree _ _ _ _ =>
      rw [hown] at hfree
      cases hfree
    | unlocks t' _ hholds hactive _ =>
      have hzero := hexclusive t'
      by_cases ht : t' = t
      · subst ht
        exact absurd hwaits hactive
      · have hne : ¬some t = some t' := fun heq => ht (Option.some.inj heq).symm
        rw [hown, if_neg hne] at hzero
        omega
  · rw [hsame]
    exact ⟨hown, hwaits⟩

/-- the next step of a thread, when nothing depends on the outcome of a call -/
def go (t : Thread n) : SignalAct n := .run t true .again ∅

theorem next_handler (s : SignalPool n) (t : Thread n) (lock : LockPhase) (signo : Signo)
    (point : HandlerPoint) (rest : List OnSignal)
    (hstack : s.stack t = ⟨lock, ⟨signo, point⟩ :: rest⟩) :
    s.next (go t) = (s.handlerStep t lock signo rest point).getD s := by
  unfold next step go
  simp only [hstack]

/-- **A handler that is about to lock what its thread owns gets there in two steps.** -/
theorem Doomed.selfDeadlock {t : Thread n} {s : SignalPool n} (h : s.Doomed t) :
    ∃ s' ∈ visited next s [go t, go t], s'.SelfDeadlock t := by
  obtain ⟨hown, ⟨signo, point⟩, rest, hhandlers, hpoint⟩ := h
  have hstack : s.stack t = ⟨(s.stack t).lock, ⟨signo, point⟩ :: rest⟩ := by rw [← hhandlers]
  have hthird : ∀ s₂ : SignalPool n, s₂.owner = some t →
      s₂.stack t = ⟨(s.stack t).lock, ⟨signo, .closing .out⟩ :: rest⟩ → s₂.SelfDeadlock t := by
    intro s₂ hown₂ hstack₂
    refine ⟨hown₂, ⟨signo, .closing .out⟩, rest, ?_, rfl⟩
    rw [hstack₂]
  have hsecond : ∀ s₁ : SignalPool n, s₁.owner = some t →
      s₁.stack t = ⟨(s.stack t).lock, ⟨signo, .stopping⟩ :: rest⟩ →
      (s₁.next (go t)).SelfDeadlock t := by
    intro s₁ hown₁ hstack₁
    rw [next_handler s₁ t _ signo .stopping rest hstack₁]
    exact hthird _ hown₁ (setStack_same _ _ _)
  rcases hpoint with rfl | rfl | rfl
  · have hstop : (s.next (go t)).owner = some t ∧
        (s.next (go t)).stack t = ⟨(s.stack t).lock, ⟨signo, .stopping⟩ :: rest⟩ := by
      rw [next_handler s t _ signo .entered rest hstack]
      exact ⟨hown, setStack_same _ _ _⟩
    exact ⟨_, visited_end next s [go t, go t], hsecond _ hstop.1 hstop.2⟩
  · exact ⟨_, List.mem_cons_of_mem _ List.mem_cons_self, hsecond s hown hstack⟩
  · exact ⟨s, visited_start next s _, hthird s hown hstack⟩

/-- a signal that lands on the owner -/
theorem doomed_of_deliver (s : SignalPool n) (t : Thread n) (signo : Signo)
    (haccepts : s.Accepts t signo) (hown : s.owner = some t) :
    (s.next (.deliver t signo)).Doomed t := by
  have hnext : s.next (.deliver t signo) =
      s.setStack t ⟨(s.stack t).lock, ⟨signo, .entered⟩ :: (s.stack t).handlers⟩ := by
    unfold next step
    simp only [if_pos haccepts, Option.getD_some]
  rw [hnext]
  refine ⟨hown, ?_⟩
  rw [setStack_same]
  exact ⟨_, _, rfl, .inl rfl⟩

/-! ## runs -/

theorem start_exclusive (q : ConnQueue) : (start n q).Exclusive := fun _ => rfl

theorem visited_exclusive (q : ConnQueue) (acts : List (SignalAct n)) :
    ∀ s ∈ visited next (start n q) acts, s.Exclusive :=
  visited_inv next (fun _ _ => True) Exclusive (fun s a _ => next_exclusive s a) _ acts
    (start_exclusive q) (throughout_of_forall next _ _ acts fun _ _ _ => True.intro)

/-- **A run never leads a handler to wait for a mutex that its own thread owns, also when it goes on
without further signals, exactly when none of its signals lands on the owner of the mutex.** -/
theorem selfDeadlock_iff (n : Nat) (q : ConnQueue) (acts : List (SignalAct n)) :
    (∀ more : List (SignalAct n), (∀ a ∈ more, ∀ t signo, a ≠ .deliver t signo) →
        ∀ s ∈ visited next (start n q) (acts ++ more), ∀ t, ¬s.SelfDeadlock t) ↔
      Throughout next Spares (start n q) acts := by
  refine ⟨fun h => ?_, fun h more hmore s hs t => ?_⟩
  · have hnever : ∀ s ∈ visited next (start n q) acts, ∀ t, ¬s.Doomed t := by
      intro s hs t hdoomed
      have hend := kept_to_end next (fun s => s.Exclusive ∧ s.Doomed t) (next_doomed t) _ s acts hs
        ⟨visited_exclusive q acts s hs, hdoomed⟩
      obtain ⟨s', hs', hdead⟩ := hend.2.selfDeadlock
      refine h [go t, go t] ?_ s' (visited_append next _ s' acts _ hs') t hdead
      intro a ha t' signo heq
      have hgo : a = go t := by simpa using ha
      rw [hgo] at heq
      cases heq
    refine throughout_of_visited next Spares (fun s => ∀ t, ¬s.Doomed t) ?_ _ acts hnever
    rintro s a _ hnext t signo rfl haccepts hown
    exact hnext t (doomed_of_deliver s t signo haccepts hown)
  · have hall := throughout_append next Spares _ acts more h fun a ha s t signo heq =>
      absurd heq (hmore a ha t signo)
    have hruns := visited_inv next Spares OwnerRuns next_ownerRuns _ _ ?_ hall s hs
    · exact hruns.not_selfDeadlock t
    · intro t' hown
      cases hown

/-- **The accounts of the pool hold under signals, too.** -/
theorem visited_accounted (q : ConnQueue) (hwf : q.WF) (hitems : q.ring.contents = [])
    (acts : List (SignalAct n)) :
    ∀ s ∈ visited next (start n q) acts, Accounted s.pool := by
  refine visited_inv next (fun _ _ => True) (fun s => Accounted s.pool) (fun s a _ h => ?_) _ acts
    (start_accounted n q hwf hitems) (throughout_of_forall next _ _ acts fun _ _ _ => True.intro)
  unfold next
  cases hstep : s.step a with
  | none => exact h
  | some s' =>
    rcases step_pool s s' a hstep with hpool | ⟨act, hpool⟩
    · show Accounted s'.pool
      rw [hpool]
      exact h
    · exact poolStep_accounted s.pool act s'.pool hpool h

/-- The acceptor is in `queue_try_push`, behind the lock, when `SIGINT` lands on it. -/
def interruptedPush : List (SignalAct 1) :=
  [.run .acceptor true (.ok 0) ∅, go .acceptor, go .acceptor, .run .acceptor true (.ok 0) ∅,
    .run .acceptor true (.ok 7) ∅, go .acceptor, go .acceptor, .deliver .acceptor .sigint,
    go .acceptor, go .acceptor]

theorem interruptedPush_deadlock : ∃ q, queueInit true 1 = some q ∧
    ∃ s ∈ visited next (start 1 q) interruptedPush, s.SelfDeadlock .acceptor := by
  obtain ⟨q, hq⟩ : ∃ q, queueInit true 1 = some q := ⟨_, rfl⟩
  refine ⟨q, hq, interruptedPush.foldl next (start 1 q), visited_end next _ _, ?_⟩
  cases hq
  exact ⟨rfl, _, _, rfl, rfl⟩

end SignalPool

end CServer
