import CServer.Lib.Script
import Mathlib.Logic.Function.Basic

/-!
# What the process holds

`main` from `server_create` on, with all that it acquires and releases on the way, whatever calls
fail.  The threads of the workers count as held from `pthread_create` to `pthread_join`; meanwhile
they use what the server is made of.  A signal may come between any two steps.

* `Res`, `Res.needs`    what is held, and what it lies in or makes use of;
* `SysCall`, `process`  the calls, and what they do to the `Process`;
* `queueInit` … `mainRun`   the functions of the source as scripts of such calls;
* `Orderly`             a call that fits what is held;
* `SignalSafe`          `on_signal` touches only what is held;
* `Gap`                 the points between two steps at which it does not;
* `main_orderly`        every run of `main`.
-/

namespace CServer

namespace Lifecycle

open Script

inductive Res where
  | server
  | fds
  | queueMutex
  | notEmpty
  | notFull
  | store
  | storeMutex
  | db
  | listener
  | workers
  | thread (i : Nat)
  deriving DecidableEq

/-- where the resource lies or is kept, and what a worker uses -/
def Res.needs : Res → List Res
  | .server => []
  | .storeMutex | .db => [.store]
  | .thread _ =>
    [.server, .fds, .queueMutex, .notEmpty, .notFull, .store, .storeMutex, .db, .workers]
  | _ => [.server]

/-- the functions that look at `listen_fd` -/
inductive Reader where
  | serverStop
  | serverDestroy
  deriving DecidableEq

/-- * `acquire`: `calloc`, `pthread_mutex_init`, `pthread_cond_init`, `socket`, `pthread_create`;
* `sqlite3Open`: gives a connection that has to be closed, even when it fails;
* `release`: `free`, `pthread_mutex_destroy`, `pthread_cond_destroy`, `sqlite3_close`, `close`,
  `pthread_join`;
* `freeWorkers`: `free(server->workers)`, which may be `NULL`;
* `touch`: any other call that works on these resources. -/
inductive SysCall where
  | acquire (r : Res)
  | sqlite3Open
  | release (r : Res)
  | freeWorkers
  | touch (rs : List Res)
  | setListenFd (valid : Bool)
  | resetListenFd
  | listenFdValid (reader : Reader)
  | setServer (valid : Bool)
  | sigaction
  deriving DecidableEq

/-- `gServer`, `listenFd`: `g_server` is not `NULL`, `listen_fd` is not negative;
`handler`: `on_signal` is installed. -/
structure Process where
  live : Res → Bool
  gServer : Bool
  handler : Bool
  listenFd : Bool

def Process.set (s : Process) (r : Res) (held : Bool) : Process :=
  { s with live := Function.update s.live r held }

def SysCall.effect : SysCall → Bool → Process → Process
  | .acquire r, ok, s => if ok then s.set r true else s
  | .sqlite3Open, _, s => s.set .db true
  | .release r, _, s => s.set r false
  | .freeWorkers, _, s => s.set .workers false
  | .touch _, _, s => s
  | .setListenFd valid, _, s => { s with listenFd := valid }
  | .resetListenFd, _, s => { s with listenFd := false }
  | .listenFdValid _, _, s => s
  | .setServer valid, _, s => { s with gServer := valid }
  | .sigaction, _, s => { s with handler := true }

def SysCall.answer (s : Process) : SysCall → Bool → Bool
  | .listenFdValid _, _ => s.listenFd
  | _, ok => ok

def process : Kernel SysCall Process := ⟨SysCall.answer, SysCall.effect⟩

/-! ## the functions -/

abbrev Steps (α : Type) := Script SysCall α

def queueInit : Steps Bool :=
  attempt (.acquire .fds) (.done false) <|
  attempt (.acquire .queueMutex) (also (.release .fds) (.done false)) <|
  attempt (.acquire .notEmpty)
    (also (.release .queueMutex) <| also (.release .fds) (.done false)) <|
  attempt (.acquire .notFull)
    (also (.release .notEmpty) <| also (.release .queueMutex) <|
      also (.release .fds) (.done false)) <|
  .done true

def queueDestroy : Steps Unit :=
  also (.release .notFull) <| also (.release .notEmpty) <| also (.release .queueMutex) <|
  also (.release .fds) (.done ())

def queueClose : SysCall := .touch [.queueMutex, .notEmpty, .notFull]

def storeFailed : Steps Bool :=
  also (.release .db) <| also (.release .storeMutex) <| also (.release .store) (.done false)

/-- the `exec_checked` of five statements -/
def storeOpen : Steps Bool :=
  attempt (.acquire .store) (.done false) <|
  attempt (.acquire .storeMutex) (also (.release .store) (.done false)) <|
  attempt .sqlite3Open storeFailed <|
  also (.touch [.db]) <|
  attempt (.touch [.db]) storeFailed <|
  attempt (.touch [.db]) storeFailed <|
  attempt (.touch [.db]) storeFailed <|
  attempt (.touch [.db]) storeFailed <|
  attempt (.touch [.db]) storeFailed <|
  .done true

def storeClose : Steps Unit :=
  also (.touch [.store, .storeMutex]) <| also (.touch [.db]) <| also (.release .db) <|
  also (.touch [.store, .storeMutex]) <| also (.release .storeMutex) <|
  also (.release .store) (.done ())

def serverCreate : Steps Bool :=
  attempt (.acquire .server) (.done false) <|
  queueInit.bind fun ok =>
    if ok then
      storeOpen.bind fun opened =>
        if opened then .done true
        else queueDestroy.bind fun _ => also (.release .server) (.done false)
    else also (.release .server) (.done false)

/-- `setsockopt`, `inet_pton`, `bind` and `listen` behind the `socket` -/
def createListener : Steps Bool :=
  attempt (.acquire .listener) (.done false) <|
  attempt (.touch [.listener]) (also (.release .listener) (.done false)) <|
  attempt (.touch []) (also (.release .listener) (.done false)) <|
  attempt (.touch [.listener]) (also (.release .listener) (.done false)) <|
  attempt (.touch [.listener]) (also (.release .listener) (.done false)) <|
  .done true

def serverStop : Steps Unit :=
  also (.touch [.server]) <| also queueClose <|
  .call (.listenFdValid .serverStop) fun valid =>
    if valid then also (.touch [.listener]) (.done ()) else .done ()

/-- `pthread_join` of the `m` workers from `j` on -/
def joins (j : Nat) : Nat → Steps Unit
  | 0 => .done ()
  | m + 1 => also (.release (.thread j)) (joins (j + 1) m)

def closeListener (result : Int) : Steps Int :=
  also (.release .listener) <| also .resetListenFd (.done result)

/-- the accept loop, and the drain behind it -/
def serve (threads : Nat) : Steps Int :=
  also (.touch [.server, .listener, .fds, .queueMutex, .notEmpty]) <| also queueClose <|
  (joins 0 threads).bind fun _ => closeListener 0

/-- behind the `pthread_create` of worker `i` that failed -/
def createFailed (i : Nat) : Steps Int :=
  serverStop.bind fun _ => (joins 0 i).bind fun _ => closeListener (-1)

/-- the `m` workers from `i` on -/
def createWorkers (threads : Nat) (i : Nat) : Nat → Steps Int
  | 0 => serve threads
  | m + 1 => attempt (.acquire (.thread i)) (createFailed i) (createWorkers threads (i + 1) m)

def serverRun (threads : Nat) : Steps Int :=
  createListener.bind fun ok => also (.setListenFd ok) <|
  if ok then attempt (.acquire .workers) (closeListener (-1)) (createWorkers threads 0 threads)
  else .done (-1)

def serverDestroy : Steps Unit :=
  storeClose.bind fun _ => queueDestroy.bind fun _ => also .freeWorkers <|
  .call (.listenFdValid .serverDestroy) fun valid =>
    if valid then also (.release .listener) <| also (.release .server) (.done ())
    else also (.release .server) (.done ())

/-- `main` from its `server_create` on -/
def mainRun (threads : Nat) : Steps Int :=
  serverCreate.bind fun ok =>
    if ok then
      also (.setServer true) <| also .sigaction <|
      (serverRun threads).bind fun result => serverDestroy.bind fun _ =>
      also (.setServer false) (.done (if result = 0 then 0 else 1))
    else .done 1

/-! ## what fits -/

/-- A resource is acquired once, where those that it needs are held; it is released while it is
held, when nobody needs it any more; and what a call touches is held. -/
def Orderly (s : Process) : SysCall → Prop
  | .acquire r => s.live r = false ∧ ∀ d ∈ r.needs, s.live d = true
  | .sqlite3Open => s.live .db = false ∧ s.live .store = true
  | .release r => s.live r = true ∧ ∀ r', s.live r' = true → r ∉ r'.needs
  | .freeWorkers => ∀ r', s.live r' = true → Res.workers ∉ r'.needs
  | .touch rs => ∀ r ∈ rs, s.live r = true
  | .setListenFd _ | .resetListenFd | .listenFdValid _ => s.live .server = true
  | .setServer _ | .sigaction => True

/-- `on_signal` with its `server_stop` touches only what is held. -/
def SignalSafe (s : Process) : Prop :=
  s.handler = true → s.gServer = true →
    (∀ r ∈ [Res.server, .queueMutex, .notEmpty, .notFull], s.live r = true) ∧
    (s.listenFd = true → s.live .listener = true)

/-- Before these steps something is gone that `on_signal` still makes use of: between the `close`
of the listener and the reset of `listen_fd`, and in `server_destroy` from its second destroy on, up
to the reset of `g_server`. -/
def gapCalls : List SysCall :=
  [.resetListenFd, .release .notEmpty, .release .queueMutex, .release .fds, .freeWorkers,
    .listenFdValid .serverDestroy, .release .server, .setServer false]

def Gap (s : Process) (c : SysCall) : Prop := s.handler = true ∧ s.gServer = true ∧ c ∈ gapCalls

def Fine (s : Process) (c : SysCall) : Prop := Orderly s c ∧ (SignalSafe s ↔ ¬Gap s c)

abbrev Goes {α : Type} (P : α → Process → Prop) (p : Steps α) (s : Process) : Prop :=
  Always process Fine P p s

/-! ## listed resources -/

def held (l : List Res) (r : Res) : Bool := decide (r ∈ l)

/-- all that is held, and whether the handler may run -/
def having (l : List Res) (signals listenFd : Bool) : Process := ⟨held l, signals, signals, listenFd⟩

theorem held_iff (l : List Res) (r : Res) : held l r = true ↔ r ∈ l := decide_eq_true_iff

theorem held_cons (l : List Res) (r : Res) : Function.update (held l) r true = held (r :: l) := by
  funext x
  by_cases hx : x = r
  · rw [hx, Function.update_self]
    exact (decide_eq_true List.mem_cons_self).symm
  · rw [Function.update_of_ne hx]
    unfold held
    rw [decide_eq_decide, List.mem_cons]
    exact (or_iff_right hx).symm

theorem held_without (l : List Res) (r : Res) :
    Function.update (held l) r false = held (l.filter fun x => x ≠ r) := by
  funext x
  by_cases hx : x = r
  · rw [hx, Function.update_self]
    unfold held
    simp
  · rw [Function.update_of_ne hx]
    unfold held
    simp [hx]

/-- `Orderly` and `SignalSafe`, for listed resources -/
def fits (l : List Res) (signals listenFd : Bool) (c : SysCall) : Bool :=
  (match c with
    | .acquire r => decide (r ∉ l ∧ ∀ d ∈ r.needs, d ∈ l)
    | .sqlite3Open => decide (Res.db ∉ l ∧ Res.store ∈ l)
    | .release r => decide (r ∈ l ∧ ∀ r' ∈ l, r ∉ r'.needs)
    | .freeWorkers => decide (∀ r' ∈ l, Res.workers ∉ r'.needs)
    | .touch rs => decide (∀ r ∈ rs, r ∈ l)
    | .setListenFd _ | .resetListenFd | .listenFdValid _ => decide (Res.server ∈ l)
    | .setServer _ | .sigaction => true) &&
  (!signals || decide (((∀ r ∈ [Res.server, .queueMutex, .notEmpty, .notFull], r ∈ l) ∧
    (listenFd = true → Res.listener ∈ l)) ↔ c ∉ gapCalls))

theorem fine_of_fits (l : List Res) (signals listenFd : Bool) (c : SysCall)
    (h : fits l signals listenFd c = true) : Fine (having l signals listenFd) c := by
  unfold fits at h
  rw [Bool.and_eq_true] at h
  obtain ⟨horderly, hsafe⟩ := h
  constructor
  · cases c <;>
      simpa [Orderly, having, held] using horderly
  · cases signals with
    | false => exact iff_of_true (fun hh => Bool.noConfusion hh) fun hg => Bool.noConfusion hg.1
    | true =>
      have hsafe := of_decide_eq_true hsafe
      have hgap : Gap (having l true listenFd) c ↔ c ∈ gapCalls :=
        ⟨fun hg => hg.2.2, fun hc => ⟨rfl, rfl, hc⟩⟩
      rw [hgap, ← hsafe]
      refine ⟨fun hs => ?_, fun hs _ _ => ?_⟩
      · obtain ⟨hqueue, hlistener⟩ := hs rfl rfl
        exact ⟨fun r hr => (held_iff l r).mp (hqueue r hr),
          fun hf => (held_iff l _).mp (hlistener hf)⟩
      · exact ⟨fun r hr => (held_iff l r).mpr (hs.1 r hr),
          fun hf => (held_iff l _).mpr (hs.2 hf)⟩

section
variable {α : Type} {P : α → Process → Prop} {signals listenFd : Bool}

theorem goes_acquire (l : List Res) (r : Res) (failed ok : Steps α)
    (hc : fits l signals listenFd (.acquire r) = true)
    (hfailed : Goes P failed (having l signals listenFd))
    (hok : Goes P ok (having (r :: l) signals listenFd)) :
    Goes P (attempt (.acquire r) failed ok) (having l signals listenFd) := by
  refine always_attempt _ _ _ _ (fine_of_fits _ _ _ _ hc) (fun b => by cases b <;> rfl) hfailed ?_
  show Goes P ok ⟨Function.update (held l) r true, signals, signals, listenFd⟩
  rw [held_cons]
  exact hok

theorem goes_sqlite3Open (l : List Res) (failed ok : Steps α)
    (hc : fits l signals listenFd .sqlite3Open = true)
    (hfailed : Goes P failed (having (.db :: l) signals listenFd))
    (hok : Goes P ok (having (.db :: l) signals listenFd)) :
    Goes P (attempt .sqlite3Open failed ok) (having l signals listenFd) := by
  have hnext : ∀ b, process.effect .sqlite3Open b (having l signals listenFd) =
      having (.db :: l) signals listenFd := by
    intro b
    show (⟨Function.update (held l) .db true, signals, signals, listenFd⟩ : Process) = _
    rw [held_cons]
    rfl
  refine always_attempt _ _ _ _ (fine_of_fits _ _ _ _ hc) (fun b => by cases b <;> rfl) ?_ ?_
  · rw [hnext]
    exact hfailed
  · rw [hnext]
    exact hok

theorem goes_attempt (l : List Res) (rs : List Res) (failed ok : Steps α)
    (hc : fits l signals listenFd (.touch rs) = true)
    (hfailed : Goes P failed (having l signals listenFd))
    (hok : Goes P ok (having l signals listenFd)) :
    Goes P (attempt (.touch rs) failed ok) (having l signals listenFd) :=
  always_attempt _ _ _ _ (fine_of_fits _ _ _ _ hc) (fun b => by cases b <;> rfl) hfailed hok

theorem goes_touch (l : List Res) (rs : List Res) (rest : Steps α)
    (hc : fits l signals listenFd (.touch rs) = true)
    (hrest : Goes P rest (having l signals listenFd)) :
    Goes P (also (.touch rs) rest) (having l signals listenFd) :=
  always_also _ _ _ _ (fine_of_fits _ _ _ _ hc) (fun _ => rfl) hrest

theorem goes_release (l l' : List Res) (r : Res) (rest : Steps α)
    (hl : (l.filter fun x => x ≠ r) = l') (hc : fits l signals listenFd (.release r) = true)
    (hrest : Goes P rest (having l' signals listenFd)) :
    Goes P (also (.release r) rest) (having l signals listenFd) := by
  refine always_also _ _ _ _ (fine_of_fits _ _ _ _ hc) (fun _ => ?_) hrest
  show (⟨Function.update (held l) r false, signals, signals, listenFd⟩ : Process) = _
  rw [held_without, hl]
  rfl

/-! ## the functions, one by one -/

/-- what is held when `queue_init` has succeeded, beside what was held before -/
def queueParts : List Res := [.notFull, .notEmpty, .queueMutex, .fds]

def storeParts : List Res := [.db, .storeMutex, .store]

theorem queueInit_goes : Goes
    (fun ok s => s = having (if ok then queueParts ++ [.server] else [.server]) false false)
    queueInit (having [.server] false false) := by
  unfold queueInit
  refine goes_acquire _ _ _ _ rfl rfl ?_
  refine goes_acquire _ _ _ _ rfl (goes_release _ _ _ _ rfl rfl rfl) ?_
  refine goes_acquire _ _ _ _ rfl
    (goes_release _ _ _ _ rfl rfl <| goes_release _ _ _ _ rfl rfl rfl) ?_
  refine goes_acquire _ _ _ _ rfl
    (goes_release _ _ _ _ rfl rfl <| goes_release _ _ _ _ rfl rfl <|
      goes_release _ _ _ _ rfl rfl rfl) ?_
  exact rfl

theorem storeFailed_goes (l : List Res) (hl : l = queueParts ++ [.server]) : Goes
    (fun ok s => s = having (if ok then storeParts ++ l else l) false false)
    storeFailed (having (storeParts ++ l) false false) := by
  subst hl
  unfold storeFailed
  exact goes_release _ _ _ _ rfl rfl <| goes_release _ _ _ _ rfl rfl <|
    goes_release _ _ _ _ rfl rfl rfl

theorem storeOpen_goes (l : List Res) (hl : l = queueParts ++ [.server]) : Goes
    (fun ok s => s = having (if ok then storeParts ++ l else l) false false)
    storeOpen (having l false false) := by
  have hfailed := storeFailed_goes l hl
  subst hl
  unfold storeOpen
  refine goes_acquire _ _ _ _ rfl rfl ?_
  refine goes_acquire _ _ _ _ rfl (goes_release _ _ _ _ rfl rfl rfl) ?_
  refine goes_sqlite3Open _ _ _ rfl hfailed ?_
  refine goes_touch _ _ _ rfl ?_
  refine goes_attempt _ _ _ _ rfl hfailed ?_
  refine goes_attempt _ _ _ _ rfl hfailed ?_
  refine goes_attempt _ _ _ _ rfl hfailed ?_
  refine goes_attempt _ _ _ _ rfl hfailed ?_
  refine goes_attempt _ _ _ _ rfl hfailed ?_
  exact rfl

theorem queueDestroy_goes (l : List Res)
    (hl : l = queueParts ++ [.server] ∨ l = .workers :: queueParts ++ [.server]) :
    Goes (fun _ s => s = having (l.filter fun r => r ∉ queueParts) signals false) queueDestroy
      (having l signals false) := by
  unfold queueDestroy
  rcases hl with rfl | rfl
  · refine goes_release _ _ _ _ rfl (by cases signals <;> rfl) ?_
    refine goes_release _ _ _ _ rfl (by cases signals <;> rfl) ?_
    refine goes_release _ _ _ _ rfl (by cases signals <;> rfl) ?_
    exact goes_release _ _ _ _ rfl (by cases signals <;> rfl) rfl
  · refine goes_release _ _ _ _ rfl (by cases signals <;> rfl) ?_
    refine goes_release _ _ _ _ rfl (by cases signals <;> rfl) ?_
    refine goes_release _ _ _ _ rfl (by cases signals <;> rfl) ?_
    exact goes_release _ _ _ _ rfl (by cases signals <;> rfl) rfl

/-- what is held when `server_create` has succeeded -/
def serverParts : List Res := storeParts ++ queueParts ++ [.server]

theorem serverCreate_goes : Goes
    (fun ok s => s = having (if ok then serverParts else []) false false)
    serverCreate (having [] false false) := by
  unfold serverCreate
  refine goes_acquire _ _ _ _ rfl rfl ?_
  refine always_bind _ _ _ queueInit_goes fun ok s hs => ?_
  cases ok with
  | false =>
    rw [hs]
    exact goes_release _ _ _ _ rfl rfl rfl
  | true =>
    rw [hs]
    refine always_bind _ _ _ (storeOpen_goes _ rfl) fun opened s hs => ?_
    cases opened with
    | true =>
      rw [hs]
      exact rfl
    | false =>
      rw [hs]
      refine always_bind _ _ _ (queueDestroy_goes _ (.inl rfl)) fun _ s hs => ?_
      rw [hs]
      exact goes_release _ _ _ _ rfl rfl rfl

theorem createListener_goes : Goes
    (fun ok s => s = having (if ok then .listener :: serverParts else serverParts) true false)
    createListener (having serverParts true false) := by
  have hfailed : Goes
      (fun ok s => s = having (if ok then .listener :: serverParts else serverParts) true false)
      (also (.release .listener) (.done false)) (having (.listener :: serverParts) true false) :=
    goes_release _ _ _ _ rfl rfl rfl
  unfold createListener
  refine goes_acquire _ _ _ _ rfl rfl ?_
  refine goes_attempt _ _ _ _ rfl hfailed ?_
  refine goes_attempt _ _ _ _ rfl hfailed ?_
  refine goes_attempt _ _ _ _ rfl hfailed ?_
  refine goes_attempt _ _ _ _ rfl hfailed ?_
  exact rfl

/-- where `server_run` returns -/
def RunEnd (s : Process) : Prop :=
  s = having serverParts true false ∨ s = having (.workers :: serverParts) true false

theorem closeListener_goes (result : Int) (l : List Res)
    (hl : l = .listener :: serverParts ∨ l = .workers :: .listener :: serverParts) :
    Goes (fun _ s => RunEnd s) (closeListener result) (having l true true) := by
  have hreset : ∀ l', fits l' true true .resetListenFd = true → RunEnd (having l' true false) →
      Goes (fun _ s => RunEnd s) (also .resetListenFd (.done result)) (having l' true true) := by
    intro l' hc hend
    exact always_also _ _ _ _ (fine_of_fits _ _ _ _ hc) (fun _ => rfl) hend
  unfold closeListener
  rcases hl with rfl | rfl
  · exact goes_release _ _ _ _ rfl rfl (hreset serverParts rfl (.inl rfl))
  · exact goes_release _ _ _ _ rfl rfl (hreset (.workers :: serverParts) rfl (.inr rfl))

/-! ## the workers -/

/-- what is held while `server_run` works, beside the threads -/
def runParts : List Res := .workers :: .listener :: serverParts

/-- the workers from `lo` on and below `hi` run -/
def crewed (lo hi : Nat) : Process where
  live
    | .thread i => decide (lo ≤ i ∧ i < hi)
    | r => held runParts r
  gServer := true
  handler := true
  listenFd := true

theorem crewed_none (n : Nat) : crewed n n = having runParts true true := by
  have hlive : (crewed n n).live = held runParts := by
    funext r
    cases r with
    | thread i =>
      show decide (n ≤ i ∧ i < n) = _
      rw [decide_eq_false (by omega)]
      rfl
    | _ => rfl
  unfold having
  rw [← hlive]
  rfl

theorem crewed_fine (lo hi : Nat) (c : SysCall) (hgap : c ∉ gapCalls)
    (h : Orderly (crewed lo hi) c) : Fine (crewed lo hi) c := by
  refine ⟨h, iff_of_true (fun _ _ => ⟨fun r hr => ?_, fun _ => rfl⟩) fun hg => hgap hg.2.2⟩
  rcases List.mem_cons.mp hr with rfl | hr
  · rfl
  · rcases List.mem_cons.mp hr with rfl | hr
    · rfl
    · rcases List.mem_cons.mp hr with rfl | hr
      · rfl
      · rw [List.mem_singleton.mp hr]
        rfl

theorem crewed_touch (lo hi : Nat) (rs : List Res) (h : ∀ r ∈ rs, r ∈ runParts) :
    Fine (crewed lo hi) (.touch rs) := by
  refine crewed_fine lo hi _ (by simp [gapCalls]) fun r hr => ?_
  have hmem := h r hr
  cases r with
  | thread i => simp [runParts, serverParts, storeParts, queueParts] at hmem
  | _ => exact (held_iff runParts _).mpr hmem

theorem crewed_set (lo hi i lo' hi' : Nat) (b : Bool)
    (h : ∀ j, (if j = i then b = true else lo ≤ j ∧ j < hi) ↔ lo' ≤ j ∧ j < hi') :
    (crewed lo hi).set (.thread i) b = crewed lo' hi' := by
  have hlive : Function.update (crewed lo hi).live (.thread i) b = (crewed lo' hi').live := by
    funext r
    by_cases hr : r = .thread i
    · rw [hr, Function.update_self]
      show b = decide (lo' ≤ i ∧ i < hi')
      have hi := h i
      rw [if_pos rfl] at hi
      rw [← Bool.decide_coe b, decide_eq_decide]
      exact hi
    · rw [Function.update_of_ne hr]
      cases r with
      | thread j =>
        have hj := h j
        rw [if_neg fun heq => hr (congrArg Res.thread heq)] at hj
        exact decide_eq_decide.mpr hj
      | _ => rfl
  unfold Process.set
  rw [hlive]
  rfl

/-- **Joined one after the other, the workers leave what they used behind.** -/
theorem joins_goes {β : Type} {P : β → Process → Prop} (rest : Steps β) (m j : Nat)
    (hrest : Goes P rest (having runParts true true)) :
    Goes P ((joins j m).bind fun _ => rest) (crewed j (j + m)) := by
  induction m generalizing j with
  | zero =>
    show Goes P rest (crewed j j)
    rw [crewed_none]
    exact hrest
  | succ m ih =>
    have hnext := ih (j + 1)
    have hset : (crewed j (j + (m + 1))).set (.thread j) false = crewed (j + 1) (j + 1 + m) := by
      refine crewed_set _ _ _ _ _ _ fun i => ?_
      by_cases hi : i = j
      · rw [if_pos hi, hi]
        exact iff_of_false Bool.noConfusion (by omega)
      · rw [if_neg hi]
        omega
    refine always_also _ _ _ _ (crewed_fine _ _ _ (by simp [gapCalls]) ⟨?_, fun r hr => ?_⟩)
      (fun _ => hset) hnext
    · show decide (j ≤ j ∧ j < j + (m + 1)) = true
      exact decide_eq_true (by omega)
    · cases r <;> simp [Res.needs]

theorem serve_goes (threads : Nat) :
    Goes (fun _ s => RunEnd s) (serve threads) (crewed 0 threads) := by
  have hjoins := joins_goes (closeListener 0) threads 0 (closeListener_goes 0 runParts (.inr rfl))
  rw [Nat.zero_add] at hjoins
  unfold serve
  refine always_also _ _ _ _ (crewed_touch _ _ _ (by decide)) (fun _ => rfl) ?_
  exact always_also _ _ _ _ (crewed_touch _ _ _ (by decide)) (fun _ => rfl) hjoins

theorem createFailed_goes (i : Nat) :
    Goes (fun _ s => RunEnd s) (createFailed i) (crewed 0 i) := by
  have hjoins := joins_goes (closeListener (-1)) i 0 (closeListener_goes (-1) runParts (.inr rfl))
  rw [Nat.zero_add] at hjoins
  unfold createFailed serverStop
  refine always_also _ _ _ _ (crewed_touch _ _ _ (by decide)) (fun _ => rfl) ?_
  refine always_also _ _ _ _ (crewed_touch _ _ _ (by decide)) (fun _ => rfl) ?_
  refine ⟨crewed_fine _ _ _ (by simp [gapCalls]) rfl, fun _ => ?_⟩
  exact always_also _ _ _ _ (crewed_touch _ _ _ (by decide)) (fun _ => rfl) hjoins

theorem createWorkers_goes (threads m i : Nat) (h : i + m = threads) :
    Goes (fun _ s => RunEnd s) (createWorkers threads i m) (crewed 0 i) := by
  induction m generalizing i with
  | zero =>
    rw [Nat.add_zero] at h
    rw [h]
    exact serve_goes threads
  | succ m ih =>
    have hset : (crewed 0 i).set (.thread i) true = crewed 0 (i + 1) := by
      refine crewed_set _ _ _ _ _ _ fun j => ?_
      by_cases hj : j = i
      · rw [if_pos hj, hj]
        exact iff_of_true rfl (by omega)
      · rw [if_neg hj]
        omega
    refine always_attempt _ _ _ _ (crewed_fine _ _ _ (by simp [gapCalls]) ⟨?_, ?_⟩)
      (fun b => by cases b <;> rfl) (createFailed_goes i) ?_
    · show decide (0 ≤ i ∧ i < i) = false
      exact decide_eq_false (by omega)
    · simp [Res.needs, crewed, runParts, serverParts, storeParts, queueParts, held]
    · show Goes _ _ ((crewed 0 i).set (.thread i) true)
      rw [hset]
      exact ih (i + 1) (by omega)

theorem serverRun_goes (threads : Nat) :
    Goes (fun _ s => RunEnd s) (serverRun threads) (having serverParts true false) := by
  unfold serverRun
  refine always_bind _ _ _ createListener_goes fun ok s hs => ?_
  cases ok with
  | false =>
    rw [hs]
    exact always_also _ _ _ _ (fine_of_fits _ _ _ _ rfl) (fun _ => rfl) (.inl rfl)
  | true =>
    rw [hs]
    refine always_also _ _ _ (having (.listener :: serverParts) true true)
      (fine_of_fits _ _ _ _ rfl) (fun _ => rfl) ?_
    refine goes_acquire _ _ _ _ rfl (closeListener_goes (-1) _ (.inl rfl)) ?_
    have hworkers := createWorkers_goes threads threads 0 (Nat.zero_add _)
    rw [crewed_none] at hworkers
    exact hworkers

/-! ## all of it -/

theorem storeClose_goes (l : List Res)
    (hl : l = storeParts ++ queueParts ++ [.server] ∨
      l = .workers :: storeParts ++ queueParts ++ [.server]) :
    Goes (fun _ s => s = having (l.filter fun r => r ∉ storeParts) true false) storeClose
      (having l true false) := by
  unfold storeClose
  rcases hl with rfl | rfl
  · exact goes_touch _ _ _ rfl <| goes_touch _ _ _ rfl <| goes_release _ _ _ _ rfl rfl <|
      goes_touch _ _ _ rfl <| goes_release _ _ _ _ rfl rfl <| goes_release _ _ _ _ rfl rfl rfl
  · exact goes_touch _ _ _ rfl <| goes_touch _ _ _ rfl <| goes_release _ _ _ _ rfl rfl <|
      goes_touch _ _ _ rfl <| goes_release _ _ _ _ rfl rfl <| goes_release _ _ _ _ rfl rfl rfl

theorem serverDestroy_goes (s : Process) (hs : RunEnd s) :
    Goes (fun _ s => s = having [] true false) serverDestroy s := by
  have hrest : ∀ l, (l = [Res.workers, .server] ∨ l = [.server]) →
      Goes (fun _ s => s = having [] true false)
        (also .freeWorkers <| .call (.listenFdValid .serverDestroy) fun valid =>
          if valid then also (.release .listener) <| also (.release .server) (.done ())
          else also (.release .server) (.done ())) (having l true false) := by
    intro l hl
    have hfree : fits l true false .freeWorkers = true ∧
        (having l true false).set .workers false = having [.server] true false := by
      unfold Process.set having
      dsimp only
      rw [held_without]
      rcases hl with rfl | rfl
      · exact ⟨rfl, rfl⟩
      · exact ⟨rfl, rfl⟩
    refine always_also _ _ _ _ (fine_of_fits _ _ _ _ hfree.1) (fun _ => hfree.2) ?_
    exact ⟨fine_of_fits _ _ _ _ rfl, fun _ => goes_release _ _ _ _ rfl rfl rfl⟩
  unfold serverDestroy
  rcases hs with rfl | rfl
  · refine always_bind _ _ _ (storeClose_goes _ (.inl rfl)) fun _ s hs => ?_
    rw [hs]
    refine always_bind _ _ _ (queueDestroy_goes _ (.inl rfl)) fun _ s hs => ?_
    rw [hs]
    exact hrest _ (.inr rfl)
  · refine always_bind _ _ _ (storeClose_goes _ (.inr rfl)) fun _ s hs => ?_
    rw [hs]
    refine always_bind _ _ _ (queueDestroy_goes _ (.inr rfl)) fun _ s hs => ?_
    rw [hs]
    exact hrest _ (.inl rfl)

/-- before `server_create` -/
def mainStart : Process := having [] false false

theorem mainRun_goes (threads : Nat) :
    Goes (fun code s => (code = 0 ∨ code = 1) ∧ s.live = held []) (mainRun threads) mainStart := by
  unfold mainRun
  refine always_bind _ _ _ serverCreate_goes fun ok s hs => ?_
  cases ok with
  | false =>
    rw [hs]
    exact ⟨.inr rfl, rfl⟩
  | true =>
    rw [hs]
    -- the handler is not installed yet
    have hset : Fine (having serverParts false false) (.setServer true) :=
      fine_of_fits _ _ _ _ rfl
    have hinstall : Fine ⟨held serverParts, true, false, false⟩ .sigaction :=
      ⟨True.intro, iff_of_true (fun hh => Bool.noConfusion hh) fun hg => Bool.noConfusion hg.1⟩
    refine always_also _ _ _ _ hset (fun _ => rfl) <| always_also _ _ _ _ hinstall (fun _ => rfl) ?_
    refine always_bind _ _ _ (serverRun_goes threads) fun result s hend => ?_
    refine always_bind _ _ _ (serverDestroy_goes s hend) fun _ s hs => ?_
    rw [hs]
    refine always_also _ _ _ _ (fine_of_fits _ _ _ _ rfl) (fun _ => rfl) ⟨?_, rfl⟩
    by_cases hresult : result = 0
    · exact .inl (if_pos hresult)
    · exact .inr (if_neg hresult)

end

end Lifecycle

end CServer
