import CServer.Api.Writes
import CServer.Http.Wire

/-!
# One response to each request

The sends succeed; the store calls may have any result.

* `StoreCall.Possible`   the results that a store call may have;
* `Answer.Honest`        one response, of the status that the returned value stands for, with the
                         length of its body;
* `honestEnds`           the ends of the handlers;
* `apiDispatch_honest`   every request, whatever its store calls give.
-/

namespace CServer

/-- An error is not `API_OK`, and a rendered text fits its array.  The service behind the calls is
not limited any further. -/
def StoreCall.Possible : (c : StoreCall) → c.Result → Prop
  | .kvPut _ _, _ => True
  | .kvGet _ _, r => Failing r
  | .kvDel _, _ => True
  | .noteCreate _ _, r => Failing r
  | .noteUpdate _ _ _, _ => True
  | .noteDel _, _ => True
  | .counts, r => Failing r
  | .render _ out, r => Rendering out.cap r

theorem StoreCall.exec_possible (fault : SqlFault × SqlFault) (now : Long) (c : StoreCall)
    (st : Store) : c.Possible (c.exec fault now st).1 := by
  cases c with
  | kvGet key valueCap => exact (storeKvGet_typed _ _ _ _).failing
  | noteCreate title body => exact (storeNoteCreate_typed _ _ _ _ _).failing
  | counts => exact (storeCounts_typed _ _ _).failing
  | render call out =>
    cases call with
    | kvList pfx limit => exact (storeKvList_typed _ _ _ _ _).rendering
    | noteList limit offset => exact (storeNoteList_typed _ _ _ _ _ _).rendering
    | noteGet id => exact (storeNoteGet_typed _ _ _ _).rendering
  | _ => exact True.intro

structure Response.Answers (r : Response) (result : ApiError) : Prop where
  success : result = .ok → r.status = 200 ∨ r.status = 201 ∨ r.status = 204
  failure : result ≠ .ok →
    r.status = apiErrorStatus result ∧ ¬ (200 ≤ r.status ∧ r.status < 300)
  length : r.DeclaresLength

/-- one response, for the value that is returned -/
def Answer.Honest (a : Answer) : Prop := ∃ r, a.sent = [r] ∧ r.Answers a.result

abbrev HonestHandler (h : Handler) : Prop :=
  h.Within (fun _ => True) StoreCall.Possible Answer.Honest

/-! ## ends -/

theorem apiErrorStatus_failure (e : ApiError) (h : e ≠ .ok) :
    ¬ (200 ≤ apiErrorStatus e ∧ apiErrorStatus e < 300) := by
  cases e with
  | ok => exact absurd rfl h
  | _ => decide

theorem applicationJson_oneLine : OneLine APPLICATION_JSON := by
  unfold OneLine
  decide

theorem answerError_honest (e : ApiError) (detail : String) (h : e ≠ .ok) :
    (answerError true e detail).Honest := by
  unfold answerError
  rw [httpRespondError_eq _ _ _ h]
  refine ⟨_, rfl, fun he => absurd he h, fun _ => ⟨rfl, apiErrorStatus_failure e h⟩, ?_⟩
  apply declaresLength _ applicationJson_oneLine
  intro allow hallow
  simp only at hallow
  split_ifs at hallow
  cases hallow
  unfold OneLine
  decide

theorem answerWith_honest (r : Response) (hs : r.status = 200 ∨ r.status = 201 ∨ r.status = 204)
    (hc : OneLine r.contentType) (hlen : r.contentType.length ≤ 64) (hb : r.body.length < 10 ^ 20)
    (ha : r.allow = none) : (answerWith true r).Honest := by
  have hfit : (responseHeader r).length < 1024 := by
    apply responseHeader_length r (by omega) hlen hb
    intro a hsome
    rw [ha] at hsome
    cases hsome
  have hanswer : answerWith true r = ⟨.ok, [r]⟩ := by
    unfold answerWith
    rw [httpRespond_fits true r hfit]
    rfl
  rw [hanswer]
  refine ⟨r, rfl, fun _ => hs, fun h => absurd rfl h, declaresLength r hc ?_⟩
  intro a hsome
  rw [ha] at hsome
  cases hsome

theorem answerJson_honest (status : Nat) (body : Bytes)
    (hs : status = 200 ∨ status = 201 ∨ status = 204) (hb : body.length < 10 ^ 20) :
    (answerWith true (jsonResponse status body)).Honest :=
  answerWith_honest (jsonResponse status body) hs applicationJson_oneLine applicationJson_length hb rfl

theorem answerMethodNotAllowed_honest (allow : String)
    (h : allow ∈ ["GET", "POST", "GET, POST", "GET, PUT, DELETE"]) :
    (answerMethodNotAllowed true allow).Honest := by
  have hlist : ∀ a ∈ ["GET", "POST", "GET, POST", "GET, PUT, DELETE"],
      (ascii a).length ≤ 64 ∧ OneLine (ascii a) := by
    unfold OneLine
    decide
  obtain ⟨hlen, hline⟩ := hlist allow h
  obtain ⟨body, hsent⟩ := sendMethodNotAllowed_eq true (ascii allow) hlen
  unfold answerMethodNotAllowed
  rw [hsent]
  refine ⟨_, rfl, fun he => (by cases he),
    fun _ => ⟨rfl, apiErrorStatus_failure .methodNotAllowed (by decide)⟩, ?_⟩
  apply declaresLength _ applicationJson_oneLine
  intro a ha
  cases ha
  exact hline

/-! ## handlers -/

theorem honestEnds : Ends (fun e => e ≠ .ok) (fun text => text.length < 10 ^ 20) Answer.Honest true where
  handler := by
    rintro e he rfl
    exact absurd he (by decide)
  short := fun _ h => h
  error := fun e detail h _ => answerError_honest e detail h
  json := answerJson_honest

theorem StoreCall.Possible.gives {c : StoreCall} {r : c.Result} (h : c.Possible r) :
    c.Gives (fun e => e ≠ .ok) (fun text => text.length < 10 ^ 20) r := by
  cases c with
  | kvGet key valueCap => exact ⟨Failing.error h, fun _ _ => True.intro⟩
  | noteCreate title body => exact ⟨Failing.error h, fun _ _ => True.intro⟩
  | counts => exact ⟨Failing.error h, fun _ _ => True.intro⟩
  | render call out =>
    refine ⟨(Rendering.toFailing h).error, fun text ht => ?_⟩
    have hlen := Rendering.text h text ht
    have hcap : out.cap < 10 ^ 20 := by cases out <;> decide
    omega
  | _ => exact Classical.em _

theorem EndsIn.honest {Q : StoreCall → Prop} {h : Handler}
    (he : EndsIn Q (fun e => e ≠ .ok) (fun text => text.length < 10 ^ 20) Answer.Honest h) :
    HonestHandler h :=
  Program.Within.mono (fun _ _ => True.intro) (fun _ _ hp => StoreCall.Possible.gives hp)
    (fun _ ha => ha) he

theorem handleRoot_honest (page : Bytes) (h : page.length < 2 ^ 64) :
    HonestHandler (handleRoot true page) := by
  apply answerWith_honest _ (.inl rfl)
  · show OneLine (ascii "text/html")
    unfold OneLine
    decide
  · show (ascii "text/html").length ≤ 64
    decide
  · show page.length < 10 ^ 20
    omega
  · rfl

/-! ## requests -/

theorem apiRoute_honest (env : Env) (req : HttpRequest) (server : Server)
    (hsend : env.sendOk = true) (hpage : env.page.length < 2 ^ 64) :
    HonestHandler (apiRoute env req server) := by
  have hall : ForHandlers HonestHandler env req server := by
    constructor
    all_goals rw [hsend]
    · exact answerError_honest
    · exact answerMethodNotAllowed_honest
    · exact handleRoot_honest env.page hpage
    · exact (handleHealth_ends honestEnds env.now server).honest
    · exact (handleMetrics_ends honestEnds server).honest
    · exact (handleEcho_ends honestEnds req).honest
    · exact (handleKvList_ends honestEnds req).honest
    · exact fun key => (handleKvGet_ends honestEnds key).honest
    · exact fun key => (handleKvPut_ends honestEnds req key).honest
    · exact fun key => (handleKvDel_ends honestEnds key).honest
    · exact (handleNoteCreate_ends honestEnds req).honest
    · exact (handleNoteList_ends honestEnds req).honest
    · exact fun id => (handleNoteGet_ends honestEnds id).honest
    · exact fun id => (handleNoteUpdate_ends honestEnds req id).honest
    · exact fun id => (handleNoteDel_ends honestEnds id).honest
  exact apiRoute_forHandlers hall

/-- **Each request is sent one response: of status 200, 201 or 204 when `api_dispatch` returns
`API_OK`, of the status of the error that it returns otherwise, and with the length of its body.**
The calls go to any service; the page is an array, so its length is a `size_t`. -/
theorem apiDispatch_honest {σ : Type} (env : Env) (req : HttpRequest) (server : Server)
    (hsend : env.sendOk = true) (hpage : env.page.length < 2 ^ 64)
    (exec : Nat → (c : StoreCall) → σ → c.Result × σ)
    (hexec : ∀ n (c : StoreCall) s, c.Possible (exec n c s).1) (s : σ) :
    ((apiRoute env req server).run exec 0 s).1.Honest :=
  (Program.Within.run exec (fun _ => True) (fun n c s _ _ => ⟨hexec n c s, True.intro⟩)
    (apiRoute_honest env req server hsend hpage) 0 s True.intro).1

/-- GET /api/notes/1 -/
def getNote : HttpRequest :=
  { HttpRequest.zero with path := CBuf.print _ pathLen_pos (.lit "/api/notes/1") }

/-- on the real store -/
theorem apiDispatch_honest_store :
    (apiDispatch (Env.quiet (Long.clamp 0) []) getNote Store.empty openServer).1.Honest :=
  apiDispatch_honest (Env.quiet (Long.clamp 0) []) getNote openServer rfl (by decide)
    (fun _ c st => c.exec (.none, .none) (Long.clamp 0) st)
    (fun _ c st => StoreCall.exec_possible (.none, .none) (Long.clamp 0) c st) Store.empty

end CServer
