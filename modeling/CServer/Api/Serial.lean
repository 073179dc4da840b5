import CServer.Api.Workers
import CServer.Lib.Serial

/-!
# Requests at the same time, one after the other

Each request writes in its first store call, if at all.  So the store is what the requests would
make of it one after the other, in the order of their first store calls.  A request that goes past
the static arrays is answered as in that order, too.

* `requests`        the requests as the jobs of the workers;
* `Route.direct`    the routes that use none of the arrays;
* `requests_linearizable`   the store and the answers in every state of the workers.
-/

namespace CServer

/-- a request as a worker takes it -/
structure Taken where
  env : Env
  req : HttpRequest
  server : Server

def Taken.dispatch (r : Taken) (st : Store) : Answer × Store := apiDispatch r.env r.req st r.server

/-- one request after the other -/
def dispatchAll (st : Store) (rs : List Taken) : Store := rs.foldl (fun s r => (r.dispatch s).2) st

def requests : Jobs Taken Store StoreCall.Result Answer where
  program r := apiRoute r.env r.req r.server
  exec r := r.env.exec

def ServerAct.jobAct : ServerAct → JobAct Nat Bytes Taken
  | .accept worker env req server => .start worker ⟨env, req, server⟩
  | .step worker junk => .step worker junk

abbrev ServerLog := Logged Nat StaticBuffer Bytes Store StoreCall.Result Answer Taken

/-- the workers and the first store calls that they have made -/
def serverLog (st : Store) (buffers : StaticBuffer → Bytes) (run : List ServerAct) : ServerLog :=
  Logged.runs serverCells requests st buffers (run.map ServerAct.jobAct)

/-! ## the first call writes -/

abbrev WritesFirst (h : Handler) : Prop := h.WritesFirst StoreCall.Reads

theorem quiet_noteGet (sendOk : Bool) (id : Long) :
    Program.Quiet StoreCall.Reads (handleNoteGet sendOk id) :=
  ⟨True.intro, fun _ _ => True.intro⟩

theorem writesFirst_stops (sendOk : Bool) {h : Handler} (hs : Stops sendOk h) : WritesFirst h := by
  obtain ⟨e, detail, _, rfl⟩ := hs
  exact True.intro

theorem writesFirst_echo (sendOk : Bool) (req : HttpRequest) :
    WritesFirst (handleEcho sendOk req) := by
  unfold handleEcho
  dsimp only
  split
  · exact True.intro
  · split
    · exact True.intro
    · split <;> exact True.intro

theorem writesFirst_kvList (sendOk : Bool) (req : HttpRequest) :
    WritesFirst (handleKvList sendOk req) := by
  unfold handleKvList
  split
  · exact True.intro
  · split
    · exact True.intro
    · exact fun _ => True.intro

theorem writesFirst_kvPut (sendOk : Bool) (req : HttpRequest) (key : CStr) :
    WritesFirst (handleKvPut sendOk req key) := by
  rcases handleKvPut_cases sendOk req key with hs | ⟨value, _, _, hcall⟩
  · exact writesFirst_stops sendOk hs
  · rw [hcall]
    exact fun _ => True.intro

theorem writesFirst_noteCreate (sendOk : Bool) (req : HttpRequest) :
    WritesFirst (handleNoteCreate sendOk req) := by
  rcases handleNoteCreate_cases sendOk req with hs | ⟨title, body, _, _, hcall⟩
  · exact writesFirst_stops sendOk hs
  · rw [hcall]
    intro created
    cases created with
    | error e => exact True.intro
    | ok id => exact ⟨True.intro, fun _ _ => True.intro⟩

theorem writesFirst_noteUpdate (sendOk : Bool) (req : HttpRequest) (id : Long) :
    WritesFirst (handleNoteUpdate sendOk req id) := by
  rcases handleNoteUpdate_cases sendOk req id with hs | ⟨title, body, _, _, hcall⟩
  · exact writesFirst_stops sendOk hs
  · rw [hcall]
    intro updated
    unfold noteUpdateNext
    split
    · exact True.intro
    · exact quiet_noteGet sendOk id

theorem writesFirst_noteList (sendOk : Bool) (req : HttpRequest) :
    WritesFirst (handleNoteList sendOk req) := by
  unfold handleNoteList
  split
  · exact fun _ => True.intro
  · exact True.intro

/-- **Every request writes in its first store call, if at all.** -/
theorem writesFirst_route (env : Env) (req : HttpRequest) (server : Server) :
    WritesFirst (apiRoute env req server) :=
  apiRoute_forHandlers {
    error := fun _ _ _ => True.intro
    methodNotAllowed := fun _ _ => True.intro
    root := True.intro
    health := True.intro
    metrics := fun _ => True.intro
    echo := writesFirst_echo _ _
    kvList := writesFirst_kvList _ _
    kvGet := fun _ _ => True.intro
    kvPut := fun key => writesFirst_kvPut _ _ key
    kvDel := fun _ _ => True.intro
    noteCreate := writesFirst_noteCreate _ _
    noteList := writesFirst_noteList _ _
    noteGet := fun _ _ => True.intro
    noteUpdate := fun id => writesFirst_noteUpdate _ _ id
    noteDel := fun _ _ => True.intro }

/-! ## past the arrays -/

/-- the routes whose handlers render into no static array -/
def Route.direct : Route → HttpMethod → Bool
  | .kvList, .get | .notes, .get | .notes, .post | .note _, .get | .note _, .put => false
  | _, _ => true

def Taken.Direct (r : Taken) : Prop := (routeOf r.req.path.toCStr).direct r.req.method = true

abbrev DirectHandler (h : Handler) : Prop := h.Direct serverCells

theorem direct_stops (sendOk : Bool) {h : Handler} (hs : Stops sendOk h) : DirectHandler h := by
  obtain ⟨e, detail, _, rfl⟩ := hs
  exact True.intro

theorem direct_kvPut (sendOk : Bool) (req : HttpRequest) (key : CStr) :
    DirectHandler (handleKvPut sendOk req key) := by
  rcases handleKvPut_cases sendOk req key with hs | ⟨value, _, _, hcall⟩
  · exact direct_stops sendOk hs
  · rw [hcall]
    exact ⟨rfl, fun _ => ⟨_, rfl⟩⟩

theorem direct_echo (sendOk : Bool) (req : HttpRequest) :
    DirectHandler (handleEcho sendOk req) := by
  unfold handleEcho
  dsimp only
  split
  · exact True.intro
  · split
    · exact True.intro
    · split <;> exact True.intro

theorem direct_switch (env : Env) (req : HttpRequest) (server : Server) (route : Route)
    (m : HttpMethod) (hd : route.direct m = true) (h : Handler)
    (hs : route.switch env req server m = some h) : DirectHandler h := by
  cases route with
  | root =>
    cases m <;> cases hs
    exact True.intro
  | health =>
    cases m <;> cases hs
    exact True.intro
  | metrics =>
    cases m <;> cases hs
    exact ⟨rfl, fun _ => ⟨_, rfl⟩⟩
  | echo =>
    cases m <;> cases hs
    exact direct_echo _ _
  | kvList =>
    cases m <;> cases hs
    cases hd
  | kvKey key =>
    cases m <;> cases hs
    · exact ⟨rfl, fun _ => ⟨_, rfl⟩⟩
    · exact direct_kvPut _ _ key
    · exact ⟨rfl, fun _ => ⟨_, rfl⟩⟩
  | badKey =>
    cases hs
    exact True.intro
  | notes =>
    cases m <;> cases hs <;> cases hd
  | note id =>
    cases m <;> cases hs
    · cases hd
    · cases hd
    · exact ⟨rfl, fun _ => ⟨_, rfl⟩⟩
  | badId =>
    cases hs
    exact True.intro
  | unknown =>
    cases hs
    exact True.intro

theorem Taken.Direct.program {r : Taken} (h : r.Direct) : (requests.program r).Direct serverCells := by
  show DirectHandler (apiRoute r.env r.req r.server)
  rw [apiRoute_eq]
  split
  · exact True.intro
  · unfold Route.handler
    cases hs : (routeOf r.req.path.toCStr).switch r.env r.req r.server r.req.method with
    | none => exact True.intro
    | some handler => exact direct_switch r.env r.req r.server _ _ h handler hs

/-! ## the requests in order -/

/-- **Whatever the workers do at the same time, the store is that of the requests one after the
other, in the order of their first store calls; the order of a longer run goes on from it; and a
request that goes past the static arrays is answered as at its place in this order.** -/
theorem requests_linearizable (st : Store) (buffers : StaticBuffer → Bytes) (run : List ServerAct) :
    (serverLog st buffers run).ws =
      (run.map ServerAct.act).foldl serverStep (serverStart st buffers) ∧
    (serverLog st buffers run).ws.state =
      dispatchAll st ((serverLog st buffers run).log.map Prod.snd) ∧
    (∀ more, (serverLog st buffers run).log <+: (serverLog st buffers (run ++ more)).log) ∧
    ∀ worker r exec n a, (serverLog st buffers run).job worker = some r → r.Direct →
      (serverLog st buffers run).ws.phase worker = .running exec n (.done a) →
      (∀ s, r.dispatch s = (a, s)) ∨
      ∃ before later, (serverLog st buffers run).log = before ++ (worker, r) :: later ∧
        (∀ e ∈ later, e.1 ≠ worker) ∧
        a = (r.dispatch (dispatchAll st (before.map Prod.snd))).1 := by
  have hsound : (serverLog st buffers run).Sound serverCells requests StoreCall.Reads st :=
    Logged.runs_sound serverCells requests (fun r n c s hc => StoreCall.exec_reads _ _ c s hc)
      (fun r => writesFirst_route r.env r.req r.server) st buffers _
  have hacts : (run.map ServerAct.jobAct).map (requests.act (W := Nat) (V := Bytes)) =
      run.map ServerAct.act := by
    rw [List.map_map]
    refine List.map_congr_left fun a _ => ?_
    cases a <;> rfl
  refine ⟨?_, hsound.state, fun more => ?_, fun worker r exec n a hjob hdirect hphase => ?_⟩
  · have hws := Logged.runs_ws serverCells requests st buffers (run.map ServerAct.jobAct)
    rw [hacts] at hws
    exact hws
  · unfold serverLog
    rw [List.map_append]
    exact Logged.runs_log serverCells requests st buffers _ _
  · have hplace := hsound.place worker
    rw [hphase] at hplace
    obtain ⟨r', hjob', _, hp⟩ := hplace
    rw [hjob] at hjob'
    cases hjob'
    rcases hp with ⟨_, hprogram⟩ | ⟨_, _, hanswers⟩
    · left
      intro s
      show (requests.program r).run (requests.exec r) 0 s = (a, s)
      rw [← hprogram]
      rfl
    · right
      obtain ⟨before, later, hlog, hlater, hdone⟩ := hanswers hdirect.program
      cases hdone
      exact ⟨before, later, hlog, hlater, rfl⟩

def keyRequest (method : HttpMethod) : HttpRequest :=
  { HttpRequest.zero with
    method := method
    path := CBuf.print _ pathLen_pos (.lit "/api/kv/a") }

/-- One worker takes a GET and another a DELETE of the same key; the DELETE makes its store call
first. -/
def getAndDelete : List ServerAct :=
  [.accept 0 (Env.quiet (Long.clamp 0) []) (keyRequest .get) openServer,
    .accept 1 (Env.quiet (Long.clamp 0) []) (keyRequest .delete) openServer,
    .step 1 [], .step 0 []]

def oneKey : Store where
  kv := (Table.empty KvRow.key).put ⟨.lit "a", .lit "x", Long.clamp 0⟩
  notes := twoNotes.notes

def keyTaken (method : HttpMethod) : Taken :=
  ⟨Env.quiet (Long.clamp 0) [], keyRequest method, openServer⟩

theorem requests_linearizable_getAndDelete :
    (serverLog oneKey (fun _ => []) getAndDelete).log =
      [(1, keyTaken .delete), (0, keyTaken .get)] ∧
    ∃ exec n a,
      (serverLog oneKey (fun _ => []) getAndDelete).ws.phase 0 = .running exec n (.done a) ∧
      ((∀ s, (keyTaken .get).dispatch s = (a, s)) ∨
        ∃ before later, (serverLog oneKey (fun _ => []) getAndDelete).log =
          before ++ (0, keyTaken .get) :: later ∧ (∀ e ∈ later, e.1 ≠ 0) ∧
          a = ((keyTaken .get).dispatch (dispatchAll oneKey (before.map Prod.snd))).1) := by
  have hphase : ∃ exec n a,
      (serverLog oneKey (fun _ => []) getAndDelete).ws.phase 0 = .running exec n (.done a) :=
    ⟨_, _, _, rfl⟩
  obtain ⟨exec, n, a, hphase⟩ := hphase
  obtain ⟨_, _, _, hanswers⟩ := requests_linearizable oneKey (fun _ => []) getAndDelete
  exact ⟨rfl, exec, n, a, hphase, hanswers 0 (keyTaken .get) exec n a rfl rfl hphase⟩

end CServer
