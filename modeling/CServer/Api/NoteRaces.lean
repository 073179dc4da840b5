import CServer.Api.Workers
import CServer.Api.Writes
import CServer.Store.NoteText
import CServer.Store.Results

/-!
# Requests that write notes at the same time

Any number of requests run at the same time, each with response buffers of its own; their store
calls run one at a time.  A POST or PUT of a note writes and then reads the note again for its
answer, in two calls.

* `Job`, `raceStart`, `raceStep`   the requests, and the next step of one of them;
* `Written`                        what the successful write of a request has written;
* `Handler.Rereads`                behind such a write there is only the re-read;
* `Truthful`                       the requests that wrote answer with what they wrote;
* `raceStep_truthful`              a step keeps this exactly when the re-read finds what was written;
* `noteAnswers`                    the runs in which they do;
* `noteAnswers_deleted`            one in which they do not.
-/

set_option linter.unusedSectionVars false

namespace CServer

/-- response buffers that no two requests share -/
def privateCells : CellUse StaticBuffer Bytes StoreCall.Result where
  target _ := none
  left _ _ := none
  left_back := by
    intro c r v back h
    cases h

/-- a request, with what it meets; its sends succeed -/
structure Job where
  now : Long
  sql : Nat → SqlFault × SqlFault
  page : Bytes
  req : HttpRequest
  server : Server

def Job.env (j : Job) : Env := ⟨j.now, j.sql, true, j.page⟩

structure Written where
  created : Bool
  id : Long
  title : CStr
  body : CStr

/-- what a call has written of a note -/
def StoreCall.written : (c : StoreCall) → c.Result → Option Written
  | .noteCreate title body, r =>
    match (r : Except ApiError Long) with
    | .ok id => some ⟨true, id, title, body⟩
    | .error _ => none
  | .noteUpdate id title body, r =>
    match (r : ApiError) with
    | .ok => some ⟨false, id, title, body⟩
    | _ => none
  | _, _ => none

/-- `wrote` is what each request has written, if it has. -/
structure RaceStore (W : Type) where
  store : Store
  wrote : W → Option Written

section
variable {W : Type} [DecidableEq W]

def recordWrite (rs : RaceStore W) (w : W) (wr : Option Written) : W → Option Written :=
  match wr with
  | some wr => Function.update rs.wrote w (some wr)
  | none => rs.wrote

/-- a store call of the request `w` -/
def Job.exec (j : Job) (w : W) (n : Nat) (c : StoreCall) (rs : RaceStore W) :
    c.Result × RaceStore W :=
  let r := c.exec (j.sql n) j.now rs.store
  (r.1, ⟨r.2, recordWrite rs w (c.written r.1)⟩)

abbrev RaceState (W : Type) :=
  Workers W StaticBuffer Bytes (RaceStore W) StoreCall.Result Answer

def raceStart (jobs : W → Job) (st : Store) : RaceState W where
  state := ⟨st, fun _ => none⟩
  cells _ := []
  phase w := .running ((jobs w).exec w) 0 (apiRoute (jobs w).env (jobs w).req (jobs w).server)

/-- the next step of the request `w` -/
def raceStep (ws : RaceState W) (w : W) : RaceState W := ws.step privateCells (.step w [])

end

/-! ## what a request does behind its write -/

namespace Written

def status (wr : Written) : Nat := if wr.created then 201 else 200

def out (wr : Written) : StaticBuffer := if wr.created then .noteCreateJson else .noteGetBody

def reply (wr : Written) (got : Except ApiError Bytes) : Answer :=
  if wr.created then noteCreateReply true got else noteGetReply true got

/-- the re-read of what was written -/
def reread (wr : Written) : Handler :=
  .call (.render (.noteGet wr.id) wr.out) fun got => .done (wr.reply got)

end Written

/-- The writes of notes are of what the request submits, and the re-read follows them. -/
def Handler.Rereads (req : HttpRequest) : Handler → Prop
  | .done _ => True
  | .call (.noteCreate title body) next => Submits req title body ∧ next = noteCreateNext true
  | .call (.noteUpdate id title body) next => Submits req title body ∧ next = noteUpdateNext true id
  | .call c next => ∀ r, StoreCall.Good c r → Handler.Rereads req (next r)

theorem rereads_done (req : HttpRequest) (a : Answer) : Handler.Rereads req (.done a) := True.intro

theorem rereads_stops (req : HttpRequest) {h : Handler} (hs : Stops true h) :
    Handler.Rereads req h := by
  obtain ⟨e, detail, _, rfl⟩ := hs
  exact rereads_done _ _

theorem rereads_of_reader (req : HttpRequest) (h : Handler) (hr : Reader h) :
    Handler.Rereads req h := by
  induction h with
  | done a => exact rereads_done req a
  | call c next ih =>
    obtain ⟨hreads, hnext⟩ := hr
    cases c with
    | kvGet key valueCap => exact fun r hg => ih r (hnext r hg)
    | counts => exact fun r hg => ih r (hnext r hg)
    | render call out => exact fun r hg => ih r (hnext r hg)
    | _ => exact absurd hreads (by simp [StoreCall.Reads])

theorem handleNoteCreate_rereads (req : HttpRequest) :
    Handler.Rereads req (handleNoteCreate true req) := by
  rcases handleNoteCreate_cases true req with hs | ⟨title, body, _, hsubmits, hcall⟩
  · exact rereads_stops req hs
  · rw [hcall]
    exact ⟨hsubmits, rfl⟩

theorem handleNoteUpdate_rereads (req : HttpRequest) (id : Long) :
    Handler.Rereads req (handleNoteUpdate true req id) := by
  rcases handleNoteUpdate_cases true req id with hs | ⟨title, body, _, hsubmits, hcall⟩
  · exact rereads_stops req hs
  · rw [hcall]
    exact ⟨hsubmits, rfl⟩

theorem handleKvPut_rereads (req : HttpRequest) (key : CStr) :
    Handler.Rereads req (handleKvPut true req key) := by
  rcases handleKvPut_cases true req key with hs | ⟨value, _, _, hcall⟩
  · exact rereads_stops req hs
  · rw [hcall]
    exact fun _ _ => rereads_done _ _

/-- **Every request reads again what it writes of a note, and does nothing else behind it.** -/
theorem apiRoute_rereads (j : Job) : Handler.Rereads j.req (apiRoute j.env j.req j.server) := by
  rcases apiRoute_cases j.env j.req j.server with
    ⟨t, _, _, _, _, hroute⟩ | ⟨_, ⟨_, _, detail, hroute⟩ | ⟨_, hreader⟩⟩
  · rw [hroute]
    cases t with
    | kvPut key => exact handleKvPut_rereads j.req key
    | kvDel key => exact fun _ _ => rereads_done _ _
    | noteCreate => exact handleNoteCreate_rereads j.req
    | noteUpdate id => exact handleNoteUpdate_rereads j.req id
    | noteDel id => exact fun _ _ => rereads_done _ _
  · rw [hroute]
    exact rereads_done _ _
  · exact rereads_of_reader _ _ hreader

/-! ## what a write leaves -/

/-- the row of the note holds what was written -/
def Written.Intact (wr : Written) (st : Store) : Prop :=
  ∃ row, st.notes.table.get wr.id = some row ∧ row.title = wr.title ∧ row.body = wr.body

structure Written.Valid (wr : Written) : Prop where
  id_pos : 0 < wr.id.val
  fields : validateNoteFields wr.title wr.body = .ok

/-- what a write has written is valid, and in its row -/
theorem written_intact (fault : SqlFault × SqlFault) (now : Long) (c : StoreCall) (st : Store)
    (wr : Written) (h : c.written (c.exec fault now st).1 = some wr) :
    wr.Valid ∧ wr.Intact (c.exec fault now st).2 := by
  cases c with
  | noteCreate title body =>
    rcases storeNoteCreate_cases fault.1 now st.notes title body with
      ⟨e, _, hr⟩ | ⟨hv, hn, hr⟩
    · have hresult : ((StoreCall.noteCreate title body).exec fault now st).1 = .error e :=
        congrArg Prod.fst hr
      rw [hresult] at h
      cases h
    · have hresult : ((StoreCall.noteCreate title body).exec fault now st).1 =
          .ok (st.notes.nextId hn) := congrArg Prod.fst hr
      rw [hresult] at h
      cases h
      have hstore : ((StoreCall.noteCreate title body).exec fault now st).2 =
          { st with notes := st.notes.insert hn title body now } := by
        show Store.mk st.kv (storeNoteCreate fault.1 now st.notes title body).2 = _
        rw [hr]
      rw [hstore]
      refine ⟨⟨?_, hv⟩, createdRow now st hn title body, ?_, rfl, rfl⟩
      · show (0 : Int) < (st.notes.seq : Int) + 1
        omega
      · show (st.notes.table.put _).get _ = _
        rw [Table.get_put]
        exact if_pos rfl
  | noteUpdate id title body =>
    have hok : (storeNoteUpdate fault.1 now st.notes id title body).1 = .ok := by
      unfold StoreCall.written at h
      dsimp only at h
      split at h
      · assumption
      · cases h
    obtain ⟨hid, hv, row, hrow, hr⟩ := (storeNoteUpdate_cases fault.1 now st.notes id title body).resolve_left
      fun ⟨_, he, hr⟩ => he ((congrArg Prod.fst hr).symm.trans hok)
    have hresult : ((StoreCall.noteUpdate id title body).exec fault now st).1 = .ok := hok
    rw [hresult] at h
    cases h
    have hstore : ((StoreCall.noteUpdate id title body).exec fault now st).2 =
        { st with notes := st.notes.update id title body now } := by
      show Store.mk st.kv (storeNoteUpdate fault.1 now st.notes id title body).2 = _
      rw [hr]
    rw [hstore]
    exact ⟨⟨hid, hv⟩, row.edit title body now, update_get now st.notes id row title body hrow, rfl,
      rfl⟩
  | _ => cases h

/-! ## one step -/

section
variable {W : Type} [DecidableEq W] (jobs : W → Job)

/-- Where a request stands: it has written no note yet, or is about to read again what it wrote, or
has its answer. -/
inductive Stage (w : W) : Option Written → Phase StaticBuffer Bytes (RaceStore W)
    StoreCall.Result Answer → Prop where
  | free (wrote : Option Written) : Stage w wrote .free
  | unwritten (n : Nat) (p : Handler) (h : Handler.Rereads (jobs w).req p) :
      Stage w none (.running ((jobs w).exec w) n p)
  | rereads (n : Nat) (wr : Written) (hvalid : wr.Valid)
      (hsubmits : Submits (jobs w).req wr.title wr.body) :
      Stage w (some wr) (.running ((jobs w).exec w) n wr.reread)
  | answers (n : Nat) (wr : Written) (a : Answer)
      (hsubmits : Submits (jobs w).req wr.title wr.body) :
      Stage w (some wr) (.running ((jobs w).exec w) n (.done a))

def Staged (ws : RaceState W) : Prop := ∀ w, Stage jobs w (ws.state.wrote w) (ws.phase w)

/-- a step of a request that has its answer, or has sent it -/
theorem raceStep_done (ws : RaceState W) (w : W)
    (h : ws.phase w = .free ∨ ∃ n a, ws.phase w = .running ((jobs w).exec w) n (.done a)) :
    raceStep ws w = ws.setPhase w .free := by
  unfold raceStep
  rcases h with h | ⟨n, a, h⟩
  · rw [Workers.step_idle privateCells ws w [] h]
    show ws = { ws with phase := Function.update ws.phase w .free }
    rw [← h, Function.update_eq_self]
  · exact Workers.step_done privateCells ws w [] _ n a h

/-- a step of a request that makes a call -/
theorem raceStep_call (ws : RaceState W) (w : W) (n : Nat) (c : StoreCall)
    (next : c.Result → Handler)
    (h : ws.phase w = .running ((jobs w).exec w) n (.call c next)) :
    raceStep ws w =
      { ws with state := ((jobs w).exec w n c ws.state).2 }.setPhase w
        (.running ((jobs w).exec w) (n + 1) (next ((jobs w).exec w n c ws.state).1)) := by
  unfold raceStep
  rw [Workers.step_call privateCells ws w [] _ n c next h]
  exact Workers.call_plain privateCells ws w [] _ n c next rfl

theorem recordWrite_other (rs : RaceStore W) (w w' : W) (wr : Option Written) (h : w' ≠ w) :
    recordWrite rs w wr w' = rs.wrote w' := by
  cases wr with
  | none => rfl
  | some wr => exact Function.update_of_ne h _ _

theorem recordWrite_same (rs : RaceStore W) (w : W) (wr : Option Written) :
    recordWrite rs w wr w = wr.or (rs.wrote w) := by
  cases wr with
  | none => rfl
  | some wr => exact Function.update_self _ _ _

/-- what `store_note_get` gives for the re-read -/
def rereadResult (ws : RaceState W) (w : W) (n : Nat) (wr : Written) : Except ApiError Bytes :=
  storeNoteGet ((jobs w).sql n).1 ws.state.store.notes wr.id wr.out.cap

theorem raceStep_reread (ws : RaceState W) (w : W) (n : Nat) (wr : Written)
    (h : ws.phase w = .running ((jobs w).exec w) n wr.reread) :
    raceStep ws w = ws.setPhase w
      (.running ((jobs w).exec w) (n + 1) (.done (wr.reply (rereadResult jobs ws w n wr)))) :=
  raceStep_call jobs ws w n _ _ h

/-- **What a step of a request does, by where the request stands.** -/
inductive RaceTurn (ws : RaceState W) (w : W) : Prop where
  | quiet (h : ws.phase w = .free ∨ ∃ n a, ws.phase w = .running ((jobs w).exec w) n (.done a))
  | calls (n : Nat) (c : StoreCall) (next : c.Result → Handler) (hnone : ws.state.wrote w = none)
      (hphase : ws.phase w = .running ((jobs w).exec w) n (.call c next))
      (hrereads : Handler.Rereads (jobs w).req (.call c next))
  | rereads (n : Nat) (wr : Written) (hwrote : ws.state.wrote w = some wr)
      (hphase : ws.phase w = .running ((jobs w).exec w) n wr.reread) (hvalid : wr.Valid)
      (hsubmits : Submits (jobs w).req wr.title wr.body)

theorem raceTurn (ws : RaceState W) (w : W) (h : Staged jobs ws) : RaceTurn jobs ws w := by
  have hstage := h w
  generalize hwrote : ws.state.wrote w = wrote at hstage
  generalize hphase : ws.phase w = phase at hstage
  cases hstage with
  | free => exact .quiet (.inl hphase)
  | unwritten n p hrereads =>
    cases p with
    | done a => exact .quiet (.inr ⟨n, a, hphase⟩)
    | call c next => exact .calls n c next hwrote hphase hrereads
  | rereads n wr hvalid hsubmits => exact .rereads n wr hwrote hphase hvalid hsubmits
  | answers n wr a _ => exact .quiet (.inr ⟨n, a, hphase⟩)

/-- a step leaves the other requests where they are -/
theorem raceStep_other (ws : RaceState W) (w w' : W) (h : Staged jobs ws) (hw : w' ≠ w) :
    (raceStep ws w).phase w' = ws.phase w' ∧
      (raceStep ws w).state.wrote w' = ws.state.wrote w' := by
  cases raceTurn jobs ws w h with
  | quiet hdone =>
    rw [raceStep_done jobs ws w hdone]
    exact ⟨Workers.setPhase_other _ _ _ _ hw, rfl⟩
  | calls n c next _ hphase _ =>
    rw [raceStep_call jobs ws w n c next hphase]
    exact ⟨Workers.setPhase_other _ _ _ _ hw, recordWrite_other _ _ _ _ hw⟩
  | rereads n wr _ hphase _ _ =>
    rw [raceStep_reread jobs ws w n wr hphase]
    exact ⟨Workers.setPhase_other _ _ _ _ hw, rfl⟩

/-- Behind a call of a request that had written no note it still has not, or it is to read again
what it wrote. -/
theorem call_stage (rs : RaceStore W) (w : W) (n : Nat) (c : StoreCall) (next : c.Result → Handler)
    (hnone : rs.wrote w = none) (h : Handler.Rereads (jobs w).req (.call c next)) :
    (((jobs w).exec w n c rs).2.wrote w = none ∧
      Handler.Rereads (jobs w).req (next ((jobs w).exec w n c rs).1)) ∨
    ∃ wr, ((jobs w).exec w n c rs).2.wrote w = some wr ∧
      next ((jobs w).exec w n c rs).1 = wr.reread ∧ wr.Valid ∧
      wr.Intact ((jobs w).exec w n c rs).2.store ∧ Submits (jobs w).req wr.title wr.body := by
  have hrecord : ((jobs w).exec w n c rs).2.wrote w =
      c.written (c.exec ((jobs w).sql n) (jobs w).now rs.store).1 := by
    show recordWrite rs w _ w = _
    rw [recordWrite_same, hnone, Option.or_none]
  have hgood := StoreCall.exec_good ((jobs w).sql n) (jobs w).now c rs.store
  have hintact := written_intact ((jobs w).sql n) (jobs w).now c rs.store
  rw [hrecord]
  show (_ ∧ Handler.Rereads _ (next (c.exec ((jobs w).sql n) (jobs w).now rs.store).1)) ∨
    ∃ wr : Written, _ ∧ next (c.exec ((jobs w).sql n) (jobs w).now rs.store).1 = _ ∧ _ ∧
      wr.Intact (c.exec ((jobs w).sql n) (jobs w).now rs.store).2 ∧ _
  generalize (c.exec ((jobs w).sql n) (jobs w).now rs.store).1 = r at hgood hintact ⊢
  cases c with
  | noteCreate title body =>
    obtain ⟨hsubmits, rfl⟩ := h
    cases r with
    | error e => exact .inl ⟨rfl, rereads_done _ _⟩
    | ok id =>
      obtain ⟨hvalid, hrow⟩ := hintact _ rfl
      exact .inr ⟨_, rfl, rfl, hvalid, hrow, hsubmits⟩
  | noteUpdate id title body =>
    obtain ⟨hsubmits, rfl⟩ := h
    cases r with
    | ok =>
      obtain ⟨hvalid, hrow⟩ := hintact _ rfl
      exact .inr ⟨_, rfl, rfl, hvalid, hrow, hsubmits⟩
    | _ => exact .inl ⟨rfl, rereads_done _ _⟩
  | kvPut key value => exact .inl ⟨rfl, h r hgood⟩
  | kvGet key valueCap => exact .inl ⟨rfl, h r hgood⟩
  | kvDel key => exact .inl ⟨rfl, h r hgood⟩
  | noteDel id => exact .inl ⟨rfl, h r hgood⟩
  | counts => exact .inl ⟨rfl, h r hgood⟩
  | render call out => exact .inl ⟨rfl, h r hgood⟩

theorem raceStep_staged (ws : RaceState W) (w : W) (h : Staged jobs ws) :
    Staged jobs (raceStep ws w) := by
  intro w'
  by_cases hw : w' = w
  · subst hw
    cases raceTurn jobs ws w' h with
    | quiet hdone =>
      rw [raceStep_done jobs ws w' hdone, Workers.setPhase_same]
      exact .free _
    | calls n c next hnone hphase hrereads =>
      rw [raceStep_call jobs ws w' n c next hphase, Workers.setPhase_same]
      show Stage jobs w' (((jobs w').exec w' n c ws.state).2.wrote w') _
      rcases call_stage jobs ws.state w' n c next hnone hrereads with
        ⟨hwrote, hnext⟩ | ⟨wr, hwrote, hnext, hvalid, _, hsubmits⟩
      · rw [hwrote]
        exact .unwritten _ _ hnext
      · rw [hwrote, hnext]
        exact .rereads _ wr hvalid hsubmits
    | rereads n wr hwrote hphase _ hsubmits =>
      rw [raceStep_reread jobs ws w' n wr hphase, Workers.setPhase_same]
      show Stage jobs w' (ws.state.wrote w') _
      rw [hwrote]
      exact .answers (n + 1) wr _ hsubmits
  · obtain ⟨hphase, hwrote⟩ := raceStep_other jobs ws w w' h hw
    rw [hphase, hwrote]
    exact h w'

theorem raceStart_staged (st : Store) : Staged jobs (raceStart jobs st) := fun w =>
  .unwritten 0 _ (apiRoute_rereads (jobs w))

/-! ## the answers -/

/-- The answer shows the title and the body that were written, with the status of a success. -/
def Written.AnsweredBy (wr : Written) (a : Answer) : Prop :=
  ∃ text, a = ⟨.ok, [jsonResponse wr.status text]⟩ ∧ NoteText text wr.id wr.title wr.body

/-- the answer of the request `w`, when it has one -/
def RaceState.answer (ws : RaceState W) (w : W) : Option Answer :=
  match ws.phase w with
  | .running _ _ (.done a) => some a
  | _ => none

/-- Each request that has written a note and has its answer, answers with what it wrote, and it
wrote what it submits. -/
def Truthful (ws : RaceState W) : Prop :=
  ∀ w a wr, ws.answer w = some a → ws.state.wrote w = some wr →
    wr.AnsweredBy a ∧ Submits (jobs w).req wr.title wr.body

/-- the note can be rendered, and SQLite reads it -/
structure Written.Shown (wr : Written) (fault : SqlFault) : Prop where
  title : Clean wr.title.bytes
  body : Clean wr.body.bytes
  prepare : fault ≠ .prepare
  step : fault ≠ .step 0

/-- If `w` is to read again, the row holds what `w` has written, and it can be shown. -/
def Finds (ws : RaceState W) (w : W) : Prop :=
  ∀ n wr, ws.phase w = .running ((jobs w).exec w) n wr.reread → ws.state.wrote w = some wr →
    wr.Intact ws.state.store ∧ wr.Shown ((jobs w).sql n).1

theorem Written.reply_ok (wr : Written) (text : Bytes) :
    wr.reply (.ok text) = answerWith true (jsonResponse wr.status text) := by
  unfold Written.reply Written.status
  split_ifs <;> rfl

theorem Written.reply_error (wr : Written) (e : ApiError) (he : e ≠ .ok)
    (h : wr.AnsweredBy (wr.reply (.error e))) : False := by
  obtain ⟨text, heq, _⟩ := h
  have hresult : (wr.reply (.error e)).result = e := by
    unfold Written.reply
    split_ifs <;> rfl
  rw [heq] at hresult
  exact he hresult.symm

theorem Written.status_lt (wr : Written) : wr.status < 10 ^ 3 := by
  unfold Written.status
  split_ifs <;> decide

theorem Written.out_cap (wr : Written) : wr.out.cap = 17408 := by
  unfold Written.out
  split_ifs <;> rfl

theorem storeNoteGet_ok (fault : SqlFault) (notes : NoteTable) (id : Long) (outCap : Nat)
    (text : Bytes) (h : storeNoteGet fault notes id outCap = .ok text) :
    fault ≠ .prepare ∧ fault ≠ .step 0 ∧ ∃ row, notes.table.get id = some row ∧
      noteRowToJson row outCap 0 = .ok text := by
  unfold storeNoteGet at h
  split_ifs at h with hid hf
  split at h
  · cases h
  · rename_i row hrow
    exact ⟨fun he => hf (.inl he), fun he => hf (.inr he), row, hrow, h⟩

/-- the answer to what a re-read finds -/
theorem answeredBy_iff (wr : Written) (hvalid : wr.Valid) (fault : SqlFault) (st : Store) :
    wr.AnsweredBy (wr.reply (storeNoteGet fault st.notes wr.id wr.out.cap)) ↔
      wr.Intact st ∧ wr.Shown fault := by
  constructor
  · intro h
    cases hgot : storeNoteGet fault st.notes wr.id wr.out.cap with
    | error e =>
      rw [hgot] at h
      exact (wr.reply_error e ((storeNoteGet_typed _ _ _ _).error e hgot).ne_ok h).elim
    | ok text =>
      obtain ⟨hf1, hf2, row, hrow, hjson⟩ := storeNoteGet_ok _ _ _ _ _ hgot
      obtain ⟨ht, hb, htext⟩ := noteRowToJson_text row _ _ text hjson
      have hlen := noteRowToJson_length row _ _ text hjson
      rw [hgot, wr.reply_ok, answerWith_json _ _ wr.status_lt (by have := wr.out_cap; omega)] at h
      obtain ⟨text', heq, hwritten⟩ := h
      cases heq
      have hid : row.id = wr.id := (Table.get_eq_some hrow).2
      rw [hid] at htext
      obtain ⟨htitle, hbody⟩ := htext.unique hwritten
      rw [htitle] at ht
      rw [hbody] at hb
      exact ⟨⟨row, hrow, htitle, hbody⟩, ht, hb, hf1, hf2⟩
  · rintro ⟨⟨row, hrow, htitle, hbody⟩, ht, hb, hf1, hf2⟩
    rw [← htitle] at ht
    rw [← hbody] at hb
    have hbounded : row.Bounded := by
      unfold NoteRow.Bounded
      rw [htitle, hbody]
      exact hvalid.fields
    have hcap := wr.out_cap
    have hjson := noteRowToJson_clean row hbounded ht hb wr.out.cap 0 (by omega)
    have hlen := noteRowToJson_length row _ _ _ hjson
    have hid : row.id = wr.id := (Table.get_eq_some hrow).2
    have hpos := hvalid.id_pos
    have hgot := storeNoteGet_row fault st.notes wr.id row wr.out.cap hpos hf1 hf2 hrow
    have htext := noteItem_text row ht hb
    rw [hid, htitle, hbody] at htext
    rw [hgot, hjson, wr.reply_ok, answerWith_json _ _ wr.status_lt (by omega)]
    refine ⟨_, rfl, ?_⟩
    rw [htitle, hbody]
    exact htext

theorem answer_of_phase (ws ws' : RaceState W) (w : W) (h : ws.phase w = ws'.phase w) :
    ws.answer w = ws'.answer w := by
  unfold RaceState.answer
  rw [h]

theorem answer_running (ws : RaceState W) (w : W) (exec) (n : Nat) (p : Handler) :
    RaceState.answer (ws.setPhase w (.running exec n p)) w =
      match p with
      | .done a => some a
      | _ => none := by
  unfold RaceState.answer
  rw [Workers.setPhase_same]
  cases p <;> rfl

/-- **A step leads to a truthful state exactly when the re-read finds what was written.** -/
theorem raceStep_truthful (ws : RaceState W) (w : W) (hs : Staged jobs ws) (ht : Truthful jobs ws) :
    Truthful jobs (raceStep ws w) ↔ Finds jobs ws w := by
  -- the other requests answer as before, so only the answer of `w` counts
  have hown : Truthful jobs (raceStep ws w) ↔
      ∀ a wr, (raceStep ws w).answer w = some a → (raceStep ws w).state.wrote w = some wr →
        wr.AnsweredBy a ∧ Submits (jobs w).req wr.title wr.body := by
    refine ⟨fun h => h w, fun h w' a wr ha hwrote => ?_⟩
    by_cases hw : w' = w
    · subst hw
      exact h a wr ha hwrote
    · obtain ⟨hphase, hsame⟩ := raceStep_other jobs ws w w' hs hw
      rw [answer_of_phase _ ws w' hphase] at ha
      rw [hsame] at hwrote
      exact ht w' a wr ha hwrote
  rw [hown]
  cases raceTurn jobs ws w hs with
  | quiet hdone =>
    rw [raceStep_done jobs ws w hdone]
    refine ⟨fun _ n wr hphase _ => ?_, fun _ a wr ha _ => ?_⟩
    · rcases hdone with hfree | ⟨m, b, hfree⟩
      · rw [hphase] at hfree
        cases hfree
      · rw [hphase] at hfree
        cases hfree
    · unfold RaceState.answer at ha
      rw [Workers.setPhase_same] at ha
      cases ha
  | calls n c next hnone hphase hrereads =>
    rw [raceStep_call jobs ws w n c next hphase, answer_running]
    refine ⟨fun _ m wr _ hwrote => ?_, fun _ a wr ha hwrote => ?_⟩
    · rw [hnone] at hwrote
      cases hwrote
    · have hwrote' : ((jobs w).exec w n c ws.state).2.wrote w = some wr := hwrote
      rcases call_stage jobs ws.state w n c next hnone hrereads with
        ⟨hno, _⟩ | ⟨wr', _, hnext, _⟩
      · rw [hno] at hwrote'
        cases hwrote'
      · rw [hnext] at ha
        cases ha
  | rereads n wr hwrote hphase hvalid hsubmits =>
    have hreply := answeredBy_iff wr hvalid ((jobs w).sql n).1 ws.state.store
    rw [raceStep_reread jobs ws w n wr hphase, answer_running]
    constructor
    · intro h m wr' hphase' hwrote'
      rw [hwrote] at hwrote'
      cases hwrote'
      rw [hphase] at hphase'
      cases hphase'
      exact hreply.mp (h _ wr rfl hwrote).1
    · intro h a wr' ha hwrote'
      have hsame : some wr = some wr' := hwrote.symm.trans hwrote'
      cases hsame
      cases ha
      exact ⟨hreply.mpr (h n wr hphase hwrote), hsubmits⟩

/-! ## runs -/

theorem raceStart_truthful (st : Store) : Truthful jobs (raceStart jobs st) := by
  intro w a wr _ hwrote
  cases hwrote

/-- the call edits or deletes the note -/
def StoreCall.Edits (id : Long) : StoreCall → Prop
  | .noteUpdate id' _ _ => id' = id
  | .noteDel id' => id' = id
  | _ => False

/-- The next step of `w` edits or deletes a note that another request is to read again. -/
def Disturbs (ws : RaceState W) (w : W) : Prop :=
  ∃ n c next w' m wr, ws.phase w = .running ((jobs w).exec w) n (.call c next) ∧
    w' ≠ w ∧ ws.phase w' = .running ((jobs w').exec w') m wr.reread ∧
    ws.state.wrote w' = some wr ∧ c.Edits wr.id

/-- a call that does not edit the note keeps its row -/
theorem exec_intact (fault : SqlFault × SqlFault) (now : Long) (c : StoreCall) (st : Store)
    (wr : Written) (hc : ¬ c.Edits wr.id) (h : wr.Intact st) : wr.Intact (c.exec fault now st).2 := by
  obtain ⟨row, hrow, htext⟩ := h
  refine ⟨row, ?_, htext⟩
  cases c with
  | noteCreate title body =>
    show (storeNoteCreate fault.1 now st.notes title body).2.table.get wr.id = some row
    rcases storeNoteCreate_cases fault.1 now st.notes title body with ⟨e, _, hr⟩ | ⟨_, hn, hr⟩
    · rw [hr]
      exact hrow
    · rw [hr]
      obtain ⟨hmem, hid⟩ := Table.get_eq_some hrow
      have hne : st.notes.nextId hn ≠ wr.id := fun he =>
        st.notes.nextId_fresh hn row hmem (hid.trans he.symm)
      show (st.notes.table.put _).get _ = _
      rw [Table.get_put, if_neg hne]
      exact hrow
  | noteUpdate id title body =>
    show (storeNoteUpdate fault.1 now st.notes id title body).2.table.get wr.id = some row
    have hkept : (st.notes.update id title body now).table.get wr.id = some row := by
      show (st.notes.table.modify id (NoteRow.edit title body now)
        (NoteRow.edit_id title body now)).get wr.id = some row
      rw [Table.get_modify, if_neg (fun he => hc he.symm)]
      exact hrow
    rcases storeNoteUpdate_cases fault.1 now st.notes id title body with ⟨e, _, hr⟩ | ⟨_, _, _, _, hr⟩
    · rw [hr]
      exact hrow
    · rw [hr]
      exact hkept
  | noteDel id =>
    show (storeNoteDel fault.1 st.notes id).2.table.get wr.id = some row
    have hkept : (st.notes.delete id).table.get wr.id = some row := by
      show (st.notes.table.erase id).get wr.id = some row
      rw [Table.get_erase, if_neg (fun he => hc he.symm)]
      exact hrow
    unfold storeNoteDel
    split_ifs
    · exact hrow
    · exact hrow
    · cases st.notes.table.get id <;> exact hkept
  | _ => exact hrow

/-- Each re-read that is still to come finds what was written. -/
def AllIntact (ws : RaceState W) : Prop :=
  ∀ w n wr, ws.phase w = .running ((jobs w).exec w) n wr.reread → ws.state.wrote w = some wr →
    wr.Intact ws.state.store

theorem raceStart_allIntact (st : Store) : AllIntact jobs (raceStart jobs st) := by
  intro w n wr _ hwrote
  cases hwrote

theorem raceStep_allIntact (ws : RaceState W) (w : W) (hs : Staged jobs ws)
    (hi : AllIntact jobs ws) (hd : ¬ Disturbs jobs ws w) : AllIntact jobs (raceStep ws w) := by
  intro w' m wr hphase' hwrote'
  by_cases hw : w' = w
  · subst hw
    cases raceTurn jobs ws w' hs with
    | quiet hdone =>
      rw [raceStep_done jobs ws w' hdone, Workers.setPhase_same] at hphase'
      cases hphase'
    | calls n c next hnone hphase hrereads =>
      rw [raceStep_call jobs ws w' n c next hphase] at hwrote' ⊢
      have hwrote : ((jobs w').exec w' n c ws.state).2.wrote w' = some wr := hwrote'
      rcases call_stage jobs ws.state w' n c next hnone hrereads with
        ⟨hno, _⟩ | ⟨wr', hyes, _, _, hrow, _⟩
      · rw [hno] at hwrote
        cases hwrote
      · rw [hyes] at hwrote
        cases hwrote
        exact hrow
    | rereads n wr' _ hphase _ _ =>
      rw [raceStep_reread jobs ws w' n wr' hphase, Workers.setPhase_same] at hphase'
      cases hphase'
  · obtain ⟨hsame, hwrote⟩ := raceStep_other jobs ws w w' hs hw
    rw [hsame] at hphase'
    rw [hwrote] at hwrote'
    have hnow := hi w' m wr hphase' hwrote'
    cases raceTurn jobs ws w hs with
    | quiet hdone =>
      rw [raceStep_done jobs ws w hdone]
      exact hnow
    | calls n c next _ hphase _ =>
      rw [raceStep_call jobs ws w n c next hphase]
      exact exec_intact ((jobs w).sql n) (jobs w).now c ws.state.store wr
        (fun he => hd ⟨n, c, next, w', m, wr, hphase, hw, hphase', hwrote', he⟩) hnow
    | rereads n wr' _ hphase _ _ =>
      rw [raceStep_reread jobs ws w n wr' hphase]
      exact hnow

/-- The step disturbs no other request, and what `w` is to read again can be shown. -/
def Undisturbed (ws : RaceState W) (w : W) : Prop :=
  ¬ Disturbs jobs ws w ∧
    ∀ n wr, ws.phase w = .running ((jobs w).exec w) n wr.reread → ws.state.wrote w = some wr →
      wr.Shown ((jobs w).sql n).1

/-- **The requests that wrote notes answer with what they wrote in a run in which no request edits or
deletes a note that another is to read again; and to the step, the runs in which they do are those in
which each re-read finds what the request wrote.** -/
theorem noteAnswers (st : Store) (run : List W) :
    (Throughout raceStep (Undisturbed jobs) (raceStart jobs st) run →
      ∀ ws ∈ visited raceStep (raceStart jobs st) run, Truthful jobs ws) ∧
    ((∀ ws ∈ visited raceStep (raceStart jobs st) run, Truthful jobs ws) ↔
      Throughout raceStep (Finds jobs) (raceStart jobs st) run) := by
  have hstaged : ∀ ws ∈ visited raceStep (raceStart jobs st) run, Staged jobs ws := by
    apply visited_inv raceStep (fun _ _ => True) _ (fun ws w _ => raceStep_staged jobs ws w)
    · exact raceStart_staged jobs st
    · exact throughout_of_forall _ _ _ _ fun _ _ _ => True.intro
  refine ⟨fun h => ?_, fun h => ?_, fun h => ?_⟩
  · have hinv := visited_inv raceStep (Undisturbed jobs)
      (fun ws => Staged jobs ws ∧ Truthful jobs ws ∧ AllIntact jobs ws)
      (fun ws w hu ⟨hs, ht, hi⟩ => ⟨raceStep_staged jobs ws w hs,
        (raceStep_truthful jobs ws w hs ht).mpr fun n wr hphase hwrote =>
          ⟨hi w n wr hphase hwrote, hu.2 n wr hphase hwrote⟩,
        raceStep_allIntact jobs ws w hs hi hu.1⟩)
      _ run ⟨raceStart_staged jobs st, raceStart_truthful jobs st, raceStart_allIntact jobs st⟩ h
    exact fun ws hws => (hinv ws hws).2.1
  · exact throughout_of_visited raceStep (Finds jobs)
      (fun ws => Staged jobs ws ∧ Truthful jobs ws)
      (fun ws w hg hg' => (raceStep_truthful jobs ws w hg.1 hg.2).mp hg'.2) _ run
      fun ws hws => ⟨hstaged ws hws, h ws hws⟩
  · have hinv := visited_inv raceStep (Finds jobs) (fun ws => Staged jobs ws ∧ Truthful jobs ws)
      (fun ws w hf ⟨hs, ht⟩ => ⟨raceStep_staged jobs ws w hs,
        (raceStep_truthful jobs ws w hs ht).mpr hf⟩)
      _ run ⟨raceStart_staged jobs st, raceStart_truthful jobs st⟩ h
    exact fun ws hws => (hinv ws hws).2

end

/-! ## a DELETE between the write and the re-read -/

/-- a POST of a note, and a DELETE of the note 1 -/
def deleteBetween : Bool → Job
  | true => ⟨Long.clamp 0, fun _ => (.none, .none), [], { HttpRequest.zero with
      method := .post
      path := CBuf.print _ pathLen_pos (.lit "/api/notes")
      contentLength := 25
      contentType := CBuf.print _ contentTypeLen_pos (.lit "application/json")
      body := some (ascii "\x7b\"title\":\"a\",\"body\":\"b\"\x7d") }, openServer⟩
  | false => ⟨Long.clamp 0, fun _ => (.none, .none), [], { HttpRequest.zero with
      method := .delete
      path := CBuf.print _ pathLen_pos (.lit "/api/notes/1") }, openServer⟩

/-- the POST inserts, the DELETE deletes, the POST reads again -/
def deletedBetween : RaceState Bool :=
  [true, false, true].foldl raceStep (raceStart deleteBetween Store.empty)

theorem deletedBetween_answer :
    deletedBetween.answer true = some (answerError true .notFound "created but re-read failed") := by
  decide +kernel

theorem deletedBetween_wrote :
    (deletedBetween.state.wrote true).map (fun wr => (wr.created, wr.id, wr.title, wr.body)) =
      some (true, Long.clamp 1, .lit "a", .lit "b") := by
  decide +kernel

/-- **The POST has inserted its note, and answers 404.** -/
theorem noteAnswers_deleted : ¬ ∀ ws ∈ visited raceStep (raceStart deleteBetween Store.empty)
    [true, false, true], Truthful deleteBetween ws := by
  intro hall
  have h : Truthful deleteBetween deletedBetween := hall _ (visited_end raceStep _ _)
  cases hwrote : deletedBetween.state.wrote true with
  | none =>
    have hsome := deletedBetween_wrote
    rw [hwrote] at hsome
    cases hsome
  | some wr =>
    obtain ⟨⟨text, heq, _⟩, _⟩ := h true _ wr deletedBetween_answer hwrote
    have hresult : ApiError.notFound = .ok := congrArg Answer.result heq
    cases hresult

end CServer
