import CServer.Api.Handlers
import CServer.Json.Decode

/-!
# The handlers that read a body

Each of them stops with an error of its own, or reads its fields and calls the store.

* `HandlerError e`     the errors that the handlers find themselves;
* `Stops h`            `h` answers with one of them at once;
* `handleKvPut_cases`, `handleNoteCreate_cases`, `handleNoteUpdate_cases`   stop or call;
* `handleKvPut_call`, `handleNoteCreate_call`, `handleNoteUpdate_call`      the call, when the fields
                       are read.
-/

namespace CServer

/-! ## errors -/

def HandlerError (e : ApiError) : Prop :=
  e ∈ [ApiError.badRequest, .missingField, .payloadTooLarge, .lengthRequired, .unsupportedMedia,
    .invalidQuery, .internal]

instance (e : ApiError) : Decidable (HandlerError e) := by
  unfold HandlerError
  infer_instance

theorem DecodeError.handler {e : ApiError} (h : DecodeError e) : HandlerError e := by
  rcases h with rfl | rfl | rfl <;> decide

theorem apiRequireJson_handler (req : HttpRequest) (bodyRequired : Bool) :
    apiRequireJson req bodyRequired = .ok ∨ HandlerError (apiRequireJson req bodyRequired) := by
  unfold apiRequireJson
  simp only
  split_ifs <;> decide

theorem parseLimit_handler (query : CStr) (e : ApiError) (h : parseLimit query = .error e) :
    HandlerError e := by
  unfold parseLimit at h
  split at h
  · cases h
    decide
  · cases h
  · simp only at h
    split_ifs at h
    cases h
    decide

theorem HandlerError.ne_ok {e : ApiError} (h : HandlerError e) : e ≠ .ok := by
  rintro rfl
  exact absurd h (by decide)

/-! ## stop or call -/

/-- the handler answers at once with an error of its own -/
def Stops (sendOk : Bool) (h : Handler) : Prop :=
  ∃ e detail, HandlerError e ∧ h = .done (answerError sendOk e detail)

theorem Stops.serve {sendOk : Bool} {h : Handler} (hs : Stops sendOk h) (env : Env) (st : Store) :
    (h.serve env st).2 = st ∧ (h.serve env st).1.result ≠ .ok := by
  obtain ⟨e, detail, he, rfl⟩ := hs
  exact ⟨rfl, he.ne_ok⟩

theorem stops_requireJson (sendOk : Bool) (req : HttpRequest) (detail : String)
    (h : apiRequireJson req true ≠ .ok) :
    Stops sendOk (.done (answerError sendOk (apiRequireJson req true) detail)) :=
  ⟨_, detail, (apiRequireJson_handler req true).resolve_left h, rfl⟩

theorem stops_decode (sendOk : Bool) {body : Option Bytes} {field : CStr} {cap : Nat} {e : ApiError}
    (detail : String) (h : jsonGetString body field cap = .error e) :
    Stops sendOk (.done (answerError sendOk e detail)) :=
  ⟨e, detail, (jsonGetString_error _ _ _ e h).handler, rfl⟩

/-- the title and the body that the request submits -/
def Submits (req : HttpRequest) (title body : CStr) : Prop :=
  jsonGetString req.body (.lit "title") (STORE_MAX_TITLE_LEN + 1) = .ok title ∧
    jsonGetString req.body (.lit "body") (STORE_MAX_BODY_LEN + 1) = .ok body

section
variable (sendOk : Bool) (req : HttpRequest)

theorem handleKvPut_call (key value : CStr) (hjson : apiRequireJson req true = .ok)
    (hvalue : jsonGetString req.body (.lit "value") (STORE_MAX_VALUE_LEN + 1) = .ok value) :
    handleKvPut sendOk req key =
      .call (.kvPut key value) fun stored => .done (kvPutReply sendOk key value stored) := by
  unfold handleKvPut
  simp only [hjson, ne_eq, not_true_eq_false, if_false, hvalue]

theorem handleKvPut_cases (key : CStr) :
    Stops sendOk (handleKvPut sendOk req key) ∨
    ∃ value, apiRequireJson req true = .ok ∧
      jsonGetString req.body (.lit "value") (STORE_MAX_VALUE_LEN + 1) = .ok value ∧
      handleKvPut sendOk req key =
        .call (.kvPut key value) fun stored => .done (kvPutReply sendOk key value stored) := by
  by_cases hjson : apiRequireJson req true = .ok
  · cases hvalue : jsonGetString req.body (.lit "value") (STORE_MAX_VALUE_LEN + 1) with
    | error e =>
      left
      unfold handleKvPut
      simp only [hjson, ne_eq, not_true_eq_false, if_false, hvalue]
      exact stops_decode sendOk _ hvalue
    | ok value => exact .inr ⟨value, hjson, rfl, handleKvPut_call sendOk req key value hjson hvalue⟩
  · left
    unfold handleKvPut
    simp only [if_pos hjson]
    exact stops_requireJson sendOk req _ hjson

theorem handleNoteCreate_call (title body : CStr) (hjson : apiRequireJson req true = .ok)
    (h : Submits req title body) :
    handleNoteCreate sendOk req = .call (.noteCreate title body) (noteCreateNext sendOk) := by
  unfold handleNoteCreate
  simp only [hjson, ne_eq, not_true_eq_false, if_false, h.1, h.2]

theorem handleNoteCreate_cases :
    Stops sendOk (handleNoteCreate sendOk req) ∨
    ∃ title body, apiRequireJson req true = .ok ∧ Submits req title body ∧
      handleNoteCreate sendOk req = .call (.noteCreate title body) (noteCreateNext sendOk) := by
  by_cases hjson : apiRequireJson req true = .ok
  · cases htitle : jsonGetString req.body (.lit "title") (STORE_MAX_TITLE_LEN + 1) with
    | error e =>
      left
      unfold handleNoteCreate
      simp only [hjson, ne_eq, not_true_eq_false, if_false, htitle]
      exact stops_decode sendOk _ htitle
    | ok title =>
      cases hbody : jsonGetString req.body (.lit "body") (STORE_MAX_BODY_LEN + 1) with
      | error e =>
        left
        unfold handleNoteCreate
        simp only [hjson, ne_eq, not_true_eq_false, if_false, htitle, hbody]
        exact stops_decode sendOk _ hbody
      | ok body =>
        exact .inr ⟨title, body, hjson, ⟨htitle, hbody⟩,
          handleNoteCreate_call sendOk req title body hjson ⟨htitle, hbody⟩⟩
  · left
    unfold handleNoteCreate
    simp only [if_pos hjson]
    exact stops_requireJson sendOk req _ hjson

theorem handleNoteUpdate_call (id : Long) (title body : CStr)
    (hjson : apiRequireJson req true = .ok) (h : Submits req title body) :
    handleNoteUpdate sendOk req id =
      .call (.noteUpdate id title body) (noteUpdateNext sendOk id) := by
  unfold handleNoteUpdate
  simp only [hjson, ne_eq, not_true_eq_false, if_false, h.1, h.2]

theorem handleNoteUpdate_cases (id : Long) :
    Stops sendOk (handleNoteUpdate sendOk req id) ∨
    ∃ title body, apiRequireJson req true = .ok ∧ Submits req title body ∧
      handleNoteUpdate sendOk req id =
        .call (.noteUpdate id title body) (noteUpdateNext sendOk id) := by
  by_cases hjson : apiRequireJson req true = .ok
  · by_cases h : ∃ title body, Submits req title body
    · obtain ⟨title, body, h⟩ := h
      exact .inr ⟨title, body, hjson, h, handleNoteUpdate_call sendOk req id title body hjson h⟩
    · left
      unfold handleNoteUpdate
      simp only [hjson, ne_eq, not_true_eq_false, if_false]
      split
      · next title body ht hb => exact absurd ⟨title, body, ht, hb⟩ h
      · exact ⟨.badRequest, _, by decide, rfl⟩
  · left
    unfold handleNoteUpdate
    simp only [if_pos hjson]
    exact stops_requireJson sendOk req _ hjson

end

end CServer
