import CServer.Api.Access
import CServer.Lib.Shared

/-!
# Workers that answer at the same time

A worker handles a request as `apiRoute` says.  Its store calls run under the store mutex, one at a
time.  Four handlers let the store render into a function-level `static` array (S), one array for
all workers, and send from there in a later step (R).

* `serverCells`         the arrays as shared cells;
* `ServerAct`           a worker takes a request, or makes its next step;
* `served_alone`        a request that nothing interrupts is answered as `apiDispatch` answers it;
* `rendersLast_visited` what R sends is the reply on the text that it reads;
* `responses_unmixed`   no answer is mixed up as long as no S overwrites an array that a worker has
                        still to send.
-/

namespace CServer

def serverCells : CellUse StaticBuffer Bytes StoreCall.Result where
  target
    | .render _ out => some out
    | _ => none
  left
    | .render _ _, .ok text => some (text, Except.ok)
    | _, _ => none
  left_back := by
    intro c r v back h
    cases c with
    | render call out =>
      cases r with
      | error e => cases h
      | ok text =>
        cases h
        rfl
    | _ => cases h

abbrev ServerState := Workers Nat StaticBuffer Bytes Store StoreCall.Result Answer

inductive ServerAct where
  | accept (worker : Nat) (env : Env) (req : HttpRequest) (server : Server)
  | step (worker : Nat) (junk : Bytes)

def Env.exec (env : Env) (n : Nat) (c : StoreCall) (st : Store) : c.Result × Store :=
  c.exec (env.sql n) env.now st

def ServerAct.act : ServerAct → WorkerAct Nat Bytes Store StoreCall.Result Answer
  | .accept worker env req server => .start worker env.exec (apiRoute env req server)
  | .step worker junk => .step worker junk

/-- all workers wait for a connection -/
def serverStart (st : Store) (buffers : StaticBuffer → Bytes) : ServerState :=
  ⟨st, buffers, fun _ => .free⟩

abbrev serverStep : ServerState → WorkerAct Nat Bytes Store StoreCall.Result Answer → ServerState :=
  Workers.step serverCells

/-! ## one request alone -/

theorem served_alone (ws : ServerState) (worker : Nat) (junk : Bytes) (env : Env)
    (req : HttpRequest) (server : Server) (hfree : ws.phase worker = .free) :
    ∃ steps m, ((serverStep ws (ServerAct.accept worker env req server).act).alone serverCells
        worker junk steps).phase worker =
          .running env.exec m (.done (apiDispatch env req ws.state server).1) ∧
      ((serverStep ws (ServerAct.accept worker env req server).act).alone serverCells
        worker junk steps).state = (apiDispatch env req ws.state server).2 := by
  have hstart : serverStep ws (ServerAct.accept worker env req server).act =
      ws.setPhase worker (.running env.exec 0 (apiRoute env req server)) :=
    Workers.step_start serverCells ws worker env.exec _ hfree
  rw [hstart]
  exact Workers.alone_run serverCells worker junk env.exec _ 0 _ (Workers.setPhase_same _ _ _)

/-! ## what is sent from an array -/

/-- the answer on what the store left in an array -/
def renderReply (sendOk : Bool) : StaticBuffer → Except ApiError Bytes → Answer
  | .kvListItems => kvListReply sendOk
  | .noteListBody => noteListReply sendOk
  | .noteGetBody => noteGetReply sendOk
  | .noteCreateJson => noteCreateReply sendOk

/-- Behind a rendering the handler answers and is done. -/
def Handler.RendersLast (sendOk : Bool) : Handler → Prop
  | .done _ => True
  | .call (.render _ out) next => ∀ got, next got = .done (renderReply sendOk out got)
  | .call _ next => ∀ r, Handler.RendersLast sendOk (next r)

section
variable (sendOk : Bool)

theorem rendersLast_done (a : Answer) : Handler.RendersLast sendOk (.done a) := True.intro

theorem rendersLast_stops {h : Handler} (hs : Stops sendOk h) : Handler.RendersLast sendOk h := by
  obtain ⟨e, detail, _, rfl⟩ := hs
  exact rendersLast_done _ _

theorem rendersLast_noteGet (id : Long) : Handler.RendersLast sendOk (handleNoteGet sendOk id) :=
  fun _ => rfl

theorem rendersLast_kvList (req : HttpRequest) :
    Handler.RendersLast sendOk (handleKvList sendOk req) := by
  unfold handleKvList
  split
  · exact rendersLast_done _ _
  · split
    · exact rendersLast_done _ _
    · exact fun _ => rfl

theorem rendersLast_noteList (req : HttpRequest) :
    Handler.RendersLast sendOk (handleNoteList sendOk req) := by
  unfold handleNoteList
  split
  · exact fun _ => rfl
  · exact rendersLast_done _ _

theorem rendersLast_kvPut (req : HttpRequest) (key : CStr) :
    Handler.RendersLast sendOk (handleKvPut sendOk req key) := by
  rcases handleKvPut_cases sendOk req key with hs | ⟨value, _, _, hcall⟩
  · exact rendersLast_stops _ hs
  · rw [hcall]
    exact fun _ => rendersLast_done _ _

theorem rendersLast_echo (req : HttpRequest) :
    Handler.RendersLast sendOk (handleEcho sendOk req) := by
  unfold handleEcho
  dsimp only
  split
  · exact rendersLast_done _ _
  · split
    · exact rendersLast_done _ _
    · split
      · exact rendersLast_done _ _
      · exact rendersLast_done _ _

theorem rendersLast_noteCreate (req : HttpRequest) :
    Handler.RendersLast sendOk (handleNoteCreate sendOk req) := by
  rcases handleNoteCreate_cases sendOk req with hs | ⟨title, body, _, _, hcall⟩
  · exact rendersLast_stops _ hs
  · rw [hcall]
    intro created
    unfold noteCreateNext
    split
    · exact rendersLast_done _ _
    · exact fun _ => rfl

theorem rendersLast_noteUpdate (req : HttpRequest) (id : Long) :
    Handler.RendersLast sendOk (handleNoteUpdate sendOk req id) := by
  rcases handleNoteUpdate_cases sendOk req id with hs | ⟨title, body, _, _, hcall⟩
  · exact rendersLast_stops _ hs
  · rw [hcall]
    intro updated
    unfold noteUpdateNext
    split
    · exact rendersLast_done _ _
    · exact rendersLast_noteGet _ _

end

theorem rendersLast_handlers (env : Env) (req : HttpRequest) (server : Server) :
    ForHandlers (Handler.RendersLast env.sendOk) env req server where
  error := fun _ _ _ => rendersLast_done _ _
  methodNotAllowed := fun _ _ => rendersLast_done _ _
  root := rendersLast_done _ _
  health := rendersLast_done _ _
  metrics := fun _ => rendersLast_done _ _
  echo := rendersLast_echo _ _
  kvList := rendersLast_kvList _ _
  kvGet := fun _ _ => rendersLast_done _ _
  kvPut := fun key => rendersLast_kvPut _ _ key
  kvDel := fun _ _ => rendersLast_done _ _
  noteCreate := rendersLast_noteCreate _ _
  noteList := rendersLast_noteList _ _
  noteGet := fun id => rendersLast_noteGet _ id
  noteUpdate := fun id => rendersLast_noteUpdate _ _ id
  noteDel := fun _ _ => rendersLast_done _ _

theorem rendersLast_route (env : Env) (req : HttpRequest) (server : Server) :
    Handler.RendersLast env.sendOk (apiRoute env req server) :=
  apiRoute_forHandlers (rendersLast_handlers env req server)

/-! ## along a run -/

/-- A worker runs a handler that renders last, or has rendered and answers on what it reads. -/
def RendersLastAt : Phase StaticBuffer Bytes Store StoreCall.Result Answer → Prop
  | .free => True
  | .running _ _ p => ∃ sendOk, Handler.RendersLast sendOk p
  | .holding _ _ out _ next =>
    ∃ sendOk, ∀ text, next text = .done (renderReply sendOk out (.ok text))

theorem rendersLastAt_setPhase (ws : ServerState) (worker : Nat)
    (ph : Phase StaticBuffer Bytes Store StoreCall.Result Answer)
    (h : ∀ w, RendersLastAt (ws.phase w)) (hph : RendersLastAt ph) (w : Nat) :
    RendersLastAt ((ws.setPhase worker ph).phase w) := by
  by_cases hw : w = worker
  · subst hw
    rw [Workers.setPhase_same]
    exact hph
  · rw [Workers.setPhase_other _ _ _ _ hw]
    exact h w

/-- the next call of a handler that renders last -/
theorem rendersLastAt_call (ws : ServerState) (worker : Nat) (junk : Bytes)
    (exec : Nat → (c : StoreCall) → Store → c.Result × Store) (n : Nat) (c : StoreCall)
    (next : c.Result → Handler) (sendOk : Bool) (h : ∀ w, RendersLastAt (ws.phase w))
    (hlast : Handler.RendersLast sendOk (.call c next)) (w : Nat) :
    RendersLastAt ((ws.call serverCells worker junk exec n c next).phase w) := by
  have hplain : serverCells.target c = none →
      (∀ r, ∃ sendOk, Handler.RendersLast sendOk (next r)) →
      RendersLastAt ((ws.call serverCells worker junk exec n c next).phase w) := by
    intro htarget hnext
    rw [Workers.call_plain serverCells ws worker junk exec n c next htarget]
    exact rendersLastAt_setPhase _ worker (.running exec (n + 1) (next (exec n c ws.state).1)) h
      (hnext _) w
  cases c with
  | render call out =>
    have hreply : ∀ got, next got = .done (renderReply sendOk out got) := hlast
    cases hgot : (exec n (.render call out) ws.state).1 with
    | error e =>
      rw [Workers.call_failed serverCells ws worker junk exec n _ next out rfl (by rw [hgot]; rfl)]
      refine rendersLastAt_setPhase _ worker (.running exec (n + 1) _) h ⟨sendOk, ?_⟩ w
      rw [hreply]
      exact True.intro
    | ok text =>
      rw [Workers.call_left serverCells ws worker junk exec n _ next out text Except.ok rfl
        (by rw [hgot]; rfl)]
      exact rendersLastAt_setPhase _ worker (.holding exec (n + 1) out text _) h
        ⟨sendOk, fun read => hreply (.ok read)⟩ w
  | kvPut key value => exact hplain rfl fun r => ⟨sendOk, hlast r⟩
  | kvGet key valueCap => exact hplain rfl fun r => ⟨sendOk, hlast r⟩
  | kvDel key => exact hplain rfl fun r => ⟨sendOk, hlast r⟩
  | noteCreate title body => exact hplain rfl fun r => ⟨sendOk, hlast r⟩
  | noteUpdate id title body => exact hplain rfl fun r => ⟨sendOk, hlast r⟩
  | noteDel id => exact hplain rfl fun r => ⟨sendOk, hlast r⟩
  | counts => exact hplain rfl fun r => ⟨sendOk, hlast r⟩

theorem rendersLastAt_step (ws : ServerState) (a : ServerAct)
    (h : ∀ w, RendersLastAt (ws.phase w)) (w : Nat) :
    RendersLastAt ((serverStep ws a.act).phase w) := by
  cases a with
  | accept worker env req server =>
    by_cases hphase : ws.phase worker = .free
    · have hstart : serverStep ws (ServerAct.accept worker env req server).act =
          ws.setPhase worker (.running env.exec 0 (apiRoute env req server)) :=
        Workers.step_start serverCells ws worker env.exec _ hphase
      rw [hstart]
      exact rendersLastAt_setPhase ws worker (.running env.exec 0 (apiRoute env req server)) h
        ⟨_, rendersLast_route env req server⟩ w
    · have hbusy : serverStep ws (ServerAct.accept worker env req server).act = ws :=
        Workers.step_busy serverCells ws worker env.exec _ hphase
      rw [hbusy]
      exact h w
  | step worker junk =>
    have hnow := h worker
    show RendersLastAt ((Workers.step serverCells ws (.step worker junk)).phase w)
    cases hphase : ws.phase worker with
    | free =>
      rw [Workers.step_idle serverCells ws worker junk hphase]
      exact h w
    | holding exec n out own next =>
      rw [hphase] at hnow
      obtain ⟨sendOk, hreply⟩ := hnow
      rw [Workers.step_read serverCells ws worker junk exec n out own next hphase]
      refine rendersLastAt_setPhase ws worker (.running exec n _) h ⟨sendOk, ?_⟩ w
      rw [hreply]
      exact True.intro
    | running exec n p =>
      rw [hphase] at hnow
      obtain ⟨sendOk, hlast⟩ := hnow
      cases p with
      | done a =>
        rw [Workers.step_done serverCells ws worker junk exec n a hphase]
        exact rendersLastAt_setPhase ws worker .free h True.intro w
      | call c next =>
        rw [Workers.step_call serverCells ws worker junk exec n c next hphase]
        exact rendersLastAt_call ws worker junk exec n c next sendOk h hlast w

/-- **All along a run, what a worker sends from an array is the reply on the text that it reads
there.** -/
theorem rendersLast_visited (st : Store) (buffers : StaticBuffer → Bytes) (run : List ServerAct) :
    ∀ ws ∈ visited serverStep (serverStart st buffers) (run.map ServerAct.act),
      ∀ w, RendersLastAt (ws.phase w) := by
  refine visited_inv serverStep (fun _ a => ∃ act : ServerAct, a = act.act)
    (fun ws => ∀ w, RendersLastAt (ws.phase w)) ?_ _ _ (fun _ => True.intro) ?_
  · rintro ws a ⟨act, rfl⟩ h
    exact rendersLastAt_step ws act h
  · apply throughout_of_forall
    intro a ha
    obtain ⟨act, _, rfl⟩ := List.mem_map.mp ha
    exact fun _ => ⟨act, rfl⟩

/-- Each worker that has rendered its answer, when it reads the array, answers with its own
rendering. -/
def SendsOwn (ws : ServerState) : Prop :=
  ∀ w exec n out own next, ws.phase w = .holding exec n out own next →
    ws.cells out = own ∧ ∃ sendOk, next (ws.cells out) = .done (renderReply sendOk out (.ok own))

theorem sendsOwn_of_unmixed (ws : ServerState) (hlast : ∀ w, RendersLastAt (ws.phase w))
    (h : ws.Unmixed) : SendsOwn ws := by
  intro w exec n out own next hphase
  have hcell : ws.cells out = own := h w out own (by simp only [Workers.held, hphase])
  have hreply := hlast w
  rw [hphase] at hreply
  obtain ⟨sendOk, hreply⟩ := hreply
  refine ⟨hcell, sendOk, ?_⟩
  rw [hreply, hcell]

theorem unmixed_of_sendsOwn (ws : ServerState) (h : SendsOwn ws) : ws.Unmixed := by
  intro w out own hheld
  unfold Workers.held at hheld
  split at hheld
  · rename_i exec n k own' next hphase
    cases hheld
    exact (h w exec n _ _ next hphase).1
  · cases hheld

/-- **Answers are not mixed up in a run in which no store call renders into an array that another
worker has still to send; and to the step, the runs without a mix-up are those in which no store
call overwrites such an array with another text.** -/
theorem responses_unmixed (st : Store) (buffers : StaticBuffer → Bytes) (run : List ServerAct) :
    (Throughout serverStep (fun ws a => ws.Spares serverCells a) (serverStart st buffers)
        (run.map ServerAct.act) →
      ∀ ws ∈ visited serverStep (serverStart st buffers) (run.map ServerAct.act), SendsOwn ws) ∧
    ((∀ ws ∈ visited serverStep (serverStart st buffers) (run.map ServerAct.act), SendsOwn ws) ↔
      Throughout serverStep (fun ws a => ¬ws.Clobbers serverCells a) (serverStart st buffers)
        (run.map ServerAct.act)) := by
  have hstart : (serverStart st buffers).Unmixed := by
    intro w k own h
    cases h
  have hlast := rendersLast_visited st buffers run
  refine ⟨fun hspares ws hws => ?_, fun hall => ?_, fun hfree ws hws => ?_⟩
  · exact sendsOwn_of_unmixed ws (hlast ws hws)
      (Workers.unmixed_of_spares serverCells _ _ hstart hspares ws hws)
  · exact (Workers.unmixed_iff serverCells _ _ hstart).mp fun ws hws =>
      unmixed_of_sendsOwn ws (hall ws hws)
  · exact sendsOwn_of_unmixed ws (hlast ws hws)
      ((Workers.unmixed_iff serverCells _ _ hstart).mpr hfree ws hws)

/-- the notes 1 and 2 -/
def twoNotes : Store where
  kv := Table.empty KvRow.key
  notes :=
    { table :=
        { rows := [⟨Long.clamp 1, .lit "a", .lit "x", Long.clamp 0, Long.clamp 0⟩,
            ⟨Long.clamp 2, .lit "b", .lit "y", Long.clamp 0, Long.clamp 0⟩]
          unique := by decide }
      seq := 2
      seqHi := by decide
      bound := by decide }

def noteGetRequest (path : Bytes) : HttpRequest :=
  { HttpRequest.zero with path := CBuf.print _ pathLen_pos (CStr.ofBytes path) }

/-- Two workers take a request for a note each, and the store renders the first note, then the
second. -/
def twoReaders : List ServerAct :=
  [.accept 0 (Env.quiet (Long.clamp 0) []) (noteGetRequest (ascii "/api/notes/1")) openServer,
    .accept 1 (Env.quiet (Long.clamp 0) []) (noteGetRequest (ascii "/api/notes/2")) openServer,
    .step 0 [], .step 1 []]

/-- where `twoReaders` leads -/
def twoRendered : ServerState :=
  (twoReaders.map ServerAct.act).foldl serverStep (serverStart twoNotes fun _ => [])

/-- the first worker, which has rendered note 1, is about to send note 2 -/
theorem responses_mixed :
    twoRendered ∈ visited serverStep (serverStart twoNotes fun _ => [])
      (twoReaders.map ServerAct.act) ∧
    twoRendered.held 0 = some (.noteGetBody, ascii
      "\x7b\"id\":1,\"title\":\"a\",\"body\":\"x\",\"created_at\":0,\"updated_at\":0\x7d") ∧
    twoRendered.cells .noteGetBody = ascii
      "\x7b\"id\":2,\"title\":\"b\",\"body\":\"y\",\"created_at\":0,\"updated_at\":0\x7d" ∧
    ¬SendsOwn twoRendered := by
  have hfirst : twoRendered.held 0 = some (.noteGetBody, ascii
      "\x7b\"id\":1,\"title\":\"a\",\"body\":\"x\",\"created_at\":0,\"updated_at\":0\x7d") := by
    decide +kernel
  have hsecond : twoRendered.cells .noteGetBody = ascii
      "\x7b\"id\":2,\"title\":\"b\",\"body\":\"y\",\"created_at\":0,\"updated_at\":0\x7d" := by
    decide +kernel
  refine ⟨visited_end _ _ _, hfirst, hsecond, fun h => ?_⟩
  have hmixed := unmixed_of_sendsOwn _ h 0 .noteGetBody _ hfirst
  rw [hsecond] at hmixed
  revert hmixed
  decide

end CServer
