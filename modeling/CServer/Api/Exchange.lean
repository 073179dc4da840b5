import CServer.Api.Client
import CServer.Api.Responses
import CServer.Http.ErrorBody
import CServer.Http.Framing
import CServer.Http.Message
import CServer.Http.Sending

/-!
# One request, one response

A connection from the bytes that arrive to the bytes that the socket accepts.

* `Answer.Framed`        one response, with fields that its client can read;
* `apiRoute_framed`      every handler ends with one, whatever its store calls give;
* `httpRespondOver_wire` a response that went out whole;
* `exchange`             **a client is answered one message, and to a message of its own the one that
                         `api_dispatch` gives for what the message says.**
-/

namespace CServer
open Http11

/-- `header[1024]` holds the header. -/
def Response.HeaderFits (r : Response) : Prop := (responseHeader r).length < 1024

def Answer.Framed (a : Answer) : Prop := ∃ r, a.sent = [r] ∧ r.Plain ∧ r.HeaderFits

abbrev FramedHandler (h : Handler) : Prop :=
  h.Within (fun _ => True) StoreCall.Possible Answer.Framed

/-! ## ends -/

theorem fieldText_json : FieldText APPLICATION_JSON := by
  refine ⟨by decide, fun c hc => ?_, fun c hc => ?_⟩
  · cases hc
    decide
  · cases hc
    decide

/-- a JSON response without an Allow list -/
theorem plain_json (status : Nat) (body : Bytes) :
    Response.Plain ⟨status, APPLICATION_JSON, body, none⟩ :=
  ⟨fieldText_json, fun _ h => (by cases h)⟩

/-- the Allow lists of the server -/
def ALLOW_LISTS : List String := ["GET", "POST", "GET, POST", "GET, PUT, DELETE", "GET, POST, PUT, DELETE"]

theorem fieldText_allow (allow : String) (h : allow ∈ ALLOW_LISTS) : FieldText (ascii allow) := by
  have hall : ∀ a ∈ ALLOW_LISTS, Inline (ascii a) ∧ (ascii a).head?.all (fun c => !isOws c) = true ∧
      (ascii a).getLast?.all (fun c => !isOws c) = true := by decide
  obtain ⟨hinline, hhead, hlast⟩ := hall allow h
  refine ⟨hinline, fun c hc => ?_, fun c hc => ?_⟩
  · rw [hc] at hhead
    simpa using hhead
  · rw [hc] at hlast
    simpa using hlast

theorem httpRespond_headerFits (sendOk : Bool) (r : Response) :
    ∀ r' ∈ (httpRespond sendOk r).sent, r'.HeaderFits := by
  intro r' hr
  unfold httpRespond at hr
  split_ifs at hr with hlong
  · exact absurd hr List.not_mem_nil
  · rw [List.mem_singleton.mp hr]
    exact Nat.lt_of_not_ge hlong

theorem httpRespondError_headerFits (sendOk : Bool) (e : ApiError) (detail : Bytes) :
    ∀ r ∈ (httpRespondError sendOk e detail).sent, r.HeaderFits := by
  unfold httpRespondError
  simp only
  split_ifs <;> exact httpRespond_headerFits _ _

theorem sendMethodNotAllowed_headerFits (sendOk : Bool) (allow : Bytes) :
    ∀ r ∈ (sendMethodNotAllowed sendOk allow).sent, r.HeaderFits := by
  unfold sendMethodNotAllowed
  simp only
  split_ifs
  · exact httpRespondError_headerFits _ _ _
  · exact httpRespond_headerFits _ _

theorem httpRespondError_framed (e : ApiError) (detail : Bytes) :
    ∃ r, (httpRespondError true e detail).sent = [r] ∧ r.Plain ∧ r.HeaderFits := by
  have hfits := httpRespondError_headerFits true e detail
  rw [httpRespondError_answered, httpRespondError_eq _ _ _ (answeredError_ne_ok e)] at hfits ⊢
  refine ⟨_, rfl, ⟨fieldText_json, fun a ha => ?_⟩, hfits _ (List.mem_singleton_self _)⟩
  simp only at ha
  split_ifs at ha
  cases ha
  exact fieldText_allow "GET, POST, PUT, DELETE" (by decide)

theorem answerWith_framed (r : Response) (hr : r.Plain) (hs : r.status < 10 ^ 3)
    (hc : r.contentType.length ≤ 64) (hb : r.body.length < 10 ^ 20) (ha : r.allow = none) :
    (answerWith true r).Framed := by
  have hfit : (responseHeader r).length < 1024 := responseHeader_length r hs hc hb fun a hsome => by
    rw [ha] at hsome
    cases hsome
  unfold answerWith
  rw [httpRespond_fits true r hfit]
  exact ⟨r, rfl, hr, hfit⟩

theorem answerMethodNotAllowed_framed (allow : String)
    (h : allow ∈ ["GET", "POST", "GET, POST", "GET, PUT, DELETE"]) :
    (answerMethodNotAllowed true allow).Framed := by
  have hlen : ∀ a ∈ ["GET", "POST", "GET, POST", "GET, PUT, DELETE"], (ascii a).length ≤ 64 := by
    decide
  obtain ⟨body, hsent⟩ := sendMethodNotAllowed_eq true (ascii allow) (hlen allow h)
  have hfits := sendMethodNotAllowed_headerFits true (ascii allow)
  unfold answerMethodNotAllowed
  rw [hsent] at hfits ⊢
  refine ⟨_, rfl, ⟨fieldText_json, fun a ha => ?_⟩, hfits _ (List.mem_singleton_self _)⟩
  cases ha
  exact fieldText_allow allow (List.mem_append_left ["GET, POST, PUT, DELETE"] h)

theorem framedEnds :
    Ends (fun e => e ≠ .ok) (fun text => text.length < 10 ^ 20) Answer.Framed true where
  handler := by
    rintro e he rfl
    exact absurd he (by decide)
  short := fun _ h => h
  error := fun e detail _ _ => httpRespondError_framed e (ascii detail)
  json := by
    intro status body hs hb
    refine answerWith_framed _ (plain_json status body) ?_ applicationJson_length hb rfl
    show status < 10 ^ 3
    omega

theorem EndsIn.framed {Q : StoreCall → Prop} {h : Handler}
    (he : EndsIn Q (fun e => e ≠ .ok) (fun text => text.length < 10 ^ 20) Answer.Framed h) :
    FramedHandler h :=
  Program.Within.mono (fun _ _ => True.intro) (fun _ _ hp => StoreCall.Possible.gives hp)
    (fun _ ha => ha) he

theorem handleRoot_framed (page : Bytes) (h : page.length < 2 ^ 64) :
    FramedHandler (handleRoot true page) := by
  have hhtml : FieldText (ascii "text/html") := by
    refine ⟨by decide, fun c hc => ?_, fun c hc => ?_⟩
    · cases hc
      decide
    · cases hc
      decide
  refine answerWith_framed ⟨200, ascii "text/html", page, none⟩ ⟨hhtml, fun _ ha => (by cases ha)⟩
    (show 200 < 10 ^ 3 by decide) (show (ascii "text/html").length ≤ 64 by decide) ?_ rfl
  show page.length < 10 ^ 20
  omega

theorem apiRoute_framed (env : Env) (req : HttpRequest) (server : Server)
    (hsend : env.sendOk = true) (hpage : env.page.length < 2 ^ 64) :
    FramedHandler (apiRoute env req server) := by
  have hall : ForHandlers FramedHandler env req server := by
    constructor
    all_goals rw [hsend]
    · exact fun e detail _ => httpRespondError_framed e (ascii detail)
    · exact answerMethodNotAllowed_framed
    · exact handleRoot_framed env.page hpage
    · exact (handleHealth_ends framedEnds env.now server).framed
    · exact (handleMetrics_ends framedEnds server).framed
    · exact (handleEcho_ends framedEnds req).framed
    · exact (handleKvList_ends framedEnds req).framed
    · exact fun key => (handleKvGet_ends framedEnds key).framed
    · exact fun key => (handleKvPut_ends framedEnds req key).framed
    · exact fun key => (handleKvDel_ends framedEnds key).framed
    · exact (handleNoteCreate_ends framedEnds req).framed
    · exact (handleNoteList_ends framedEnds req).framed
    · exact fun id => (handleNoteGet_ends framedEnds id).framed
    · exact fun id => (handleNoteUpdate_ends framedEnds req id).framed
    · exact fun id => (handleNoteDel_ends framedEnds id).framed
  exact apiRoute_forHandlers hall

section
variable (env : Env) (st : Store) (server : Server)

theorem apiDispatch_framed (req : HttpRequest) (hsend : env.sendOk = true)
    (hpage : env.page.length < 2 ^ 64) : (apiDispatch env req st server).1.Framed := by
  have hrun := Program.Within.run (fun n (c : StoreCall) s => c.exec (env.sql n) env.now s)
    (fun _ => True) (fun n c s _ _ => ⟨StoreCall.exec_possible (env.sql n) env.now c s, True.intro⟩)
    (apiRoute_framed env req server hsend hpage) 0 st True.intro
  exact hrun.1

/-- whatever is read, one response goes out -/
theorem clientAnswer_framed (result : Except ApiError HttpRequest) (hsend : env.sendOk = true)
    (hpage : env.page.length < 2 ^ 64) : (clientAnswer env st server result).1.Framed := by
  cases result with
  | error e =>
    unfold clientAnswer
    rw [hsend]
    exact httpRespondError_framed e (apiErrorCode e)
  | ok req => exact apiDispatch_framed env st server req hsend hpage

/-! ## both ends of the connection -/

/-- what the socket accepted of a response when `http_respond` returned 0 -/
theorem httpRespondOver_wire (r : Response) (sched : Schedule)
    (h : (httpRespondOver r sched).returned = some (.ok ())) :
    (httpRespondOver r sched).accepted = r.wire := by
  rcases httpRespondOver_cases r sched with ⟨hbig, _⟩ | ⟨sent, returned, hcut, hne, _⟩ |
    ⟨sent, returned, hall, _, hdone⟩
  · rw [hbig] at h
    cases h
  · rw [hcut] at h
    exact absurd h hne
  · rw [hall] at h ⊢
    show responseHeader r ++ sent = _
    rw [hdone.mp h]
    rfl

/-- a socket that takes every buffer whole -/
def takesAll : Schedule :=
  let whole : (remaining : Nat) → SendResult remaining := fun remaining =>
    if h : 0 < remaining then .sent remaining h (Nat.le_refl _) else .zero
  [whole, whole]

theorem serverSendAll_whole (buf : Bytes) (hne : buf ≠ [])
    (reply : (remaining : Nat) → SendResult remaining)
    (hreply : ∀ remaining (h : 0 < remaining), reply remaining = .sent remaining h (Nat.le_refl _))
    (sched : Schedule) : serverSendAll buf (reply :: sched) = ⟨buf, some (.ok ()), sched⟩ := by
  unfold serverSendAll
  cases buf with
  | nil => exact absurd rfl hne
  | cons c buf =>
    show sendAllLoop (c :: buf) 0 (buf.length + 1) (reply :: sched) = _
    rw [sendAllLoop, hreply _ (Nat.succ_pos _)]
    simp only [Nat.sub_self, sendAllLoop, List.drop_zero, List.append_nil]
    rw [List.take_of_length_le (Nat.le_of_eq List.length_cons)]

/-- it takes every response -/
theorem httpRespondOver_takesAll (r : Response) (h : r.HeaderFits) :
    (httpRespondOver r takesAll).returned = some (.ok ()) := by
  have hwhole : ∀ remaining (h : 0 < remaining),
      (if h : 0 < remaining then SendResult.sent remaining h (Nat.le_refl _) else .zero) =
        .sent remaining h (Nat.le_refl _) := fun remaining h => dif_pos h
  unfold httpRespondOver takesAll
  rw [if_neg (Nat.not_le.mpr h)]
  simp only
  rw [serverSendAll_whole _ (responseHeader_ne_nil r) _ hwhole]
  simp only [ne_eq, not_true_eq_false, if_false]
  split_ifs with hbody
  · rw [serverSendAll_whole _ (List.ne_nil_of_length_pos hbody) _ hwhole]
  · rfl

/-- the client of a response that went out whole -/
theorem readMessage_sent (r : Response) (hr : r.Plain) (sched : Schedule)
    (h : (httpRespondOver r sched).returned = some (.ok ())) :
    readMessage (httpRespondOver r sched).accepted = some (r.message, []) := by
  have hread := readMessage_wire r hr []
  rw [List.append_nil] at hread
  rw [httpRespondOver_wire r sched h, hread]

/-- no status of a success -/
def Response.Refuses (r : Response) : Prop := ¬ (200 ≤ r.status ∧ r.status < 300)

theorem httpRespondError_refuses (sendOk : Bool) (e : ApiError) (detail : Bytes) :
    ∀ r ∈ (httpRespondError sendOk e detail).sent, r.Refuses := by
  rw [httpRespondError_answered, httpRespondError_eq _ _ _ (answeredError_ne_ok e)]
  intro r hr
  rw [List.mem_singleton.mp hr]
  exact apiErrorStatus_failure _ (answeredError_ne_ok e)

/-- the request that a message is read to -/
theorem clientAnswer_message {m : Message} {method target : Bytes} (h : Sendable m method target)
    (hfits : WithinLimits m target) (rest : Bytes) :
    ∃ req, Carries m method target req ∧
      clientAnswer env st server (readStream true (m.text ++ rest)) = apiDispatch env req st server := by
  obtain ⟨req, hread, hcarries⟩ := readStream_message h hfits rest
  rw [hread]
  exact ⟨req, hcarries, rfl⟩

/-- a message above the limits changes nothing -/
theorem clientAnswer_overlong {m : Message} {method target : Bytes} (h : Sendable m method target)
    (hhttp : ¬ ascii "HTTP/1." <+: target.drop 2047) (hover : ¬ WithinLimits m target) (mallocOk : Bool)
    (rest : Bytes) :
    (clientAnswer env st server (readStream mallocOk (m.text ++ rest))).2 = st ∧
      ∀ r ∈ (clientAnswer env st server (readStream mallocOk (m.text ++ rest))).1.sent, r.Refuses := by
  obtain ⟨e, he⟩ := readStream_overlong h hhttp hover mallocOk rest
  rw [he]
  exact ⟨rfl, httpRespondError_refuses _ _ _⟩

end

end CServer
