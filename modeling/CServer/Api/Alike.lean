import CServer.Api.Atomic
import CServer.Api.Routes

/-!
# Creating and updating a note

* `SameInput`         two requests with the same headers and body;
* `noteTexts`         the two extractions of `handle_note_create`, one after the other;
* `createResult_…`, `updateResult_…`   what the two handlers return, stage by stage;
* `Alike`             both return the same, and on success store the same texts;
* `notesAlike_iff`    the requests on which they do.
-/

namespace CServer

structure SameInput (a b : HttpRequest) : Prop where
  contentType : a.contentType = b.contentType
  contentLength : a.contentLength = b.contentLength
  apiKey : a.apiKey = b.apiKey
  body : a.body = b.body

def noteTexts (req : HttpRequest) : Except ApiError (CStr × CStr) :=
  match jsonGetString req.body (.lit "title") (STORE_MAX_TITLE_LEN + 1) with
  | .error e => .error e
  | .ok title =>
    match jsonGetString req.body (.lit "body") (STORE_MAX_BODY_LEN + 1) with
    | .error e => .error e
    | .ok body => .ok (title, body)

theorem SameInput.json {a b : HttpRequest} (h : SameInput a b) (bodyRequired : Bool) :
    apiRequireJson a bodyRequired = apiRequireJson b bodyRequired := by
  unfold apiRequireJson
  rw [h.contentType, h.contentLength, h.body]

theorem SameInput.texts {a b : HttpRequest} (h : SameInput a b) : noteTexts a = noteTexts b := by
  unfold noteTexts
  rw [h.body]

theorem SameInput.auth {a b : HttpRequest} (h : SameInput a b) (server : Server) :
    serverAuthCheck server a = serverAuthCheck server b := by
  unfold serverAuthCheck
  rw [h.apiKey]

theorem noteTexts_ok (req : HttpRequest) (title body : CStr) :
    noteTexts req = .ok (title, body) ↔ Submits req title body := by
  unfold Submits noteTexts
  cases jsonGetString req.body (.lit "title") (STORE_MAX_TITLE_LEN + 1) with
  | error e => simp
  | ok title' =>
    cases jsonGetString req.body (.lit "body") (STORE_MAX_BODY_LEN + 1) with
    | error e => simp
    | ok body' => simp

theorem noteInput_iff (req : HttpRequest) (title body : CStr) :
    NoteInput req title body ↔
      apiRequireJson req true = .ok ∧ noteTexts req = .ok (title, body) ∧
        validateNoteFields title body = .ok := by
  rw [noteTexts_ok]
  exact ⟨fun h => ⟨h.json, h.submits, h.valid⟩, fun h => h.2.1.input h.1 h.2.2⟩

/-! ## the two handlers -/

section
variable (now : Long) (page : Bytes) (req : HttpRequest) (st : Store)

/-- what POST returns -/
def createResult : ApiError := ((handleNoteCreate true req).serve (Env.quiet now page) st).1.result

/-- what PUT returns -/
def updateResult (id : Long) : ApiError :=
  ((handleNoteUpdate true req id).serve (Env.quiet now page) st).1.result

theorem createResult_content (h : apiRequireJson req true ≠ .ok) :
    createResult now page req st = apiRequireJson req true := by
  unfold createResult handleNoteCreate
  simp only [if_pos h]
  rfl

theorem updateResult_content (id : Long) (h : apiRequireJson req true ≠ .ok) :
    updateResult now page req st id = apiRequireJson req true := by
  unfold updateResult handleNoteUpdate
  simp only [if_pos h]
  rfl

/-- POST returns the error of the first extraction that fails. -/
theorem createResult_texts (e : ApiError) (h : apiRequireJson req true = .ok)
    (ht : noteTexts req = .error e) : createResult now page req st = e := by
  unfold noteTexts at ht
  unfold createResult handleNoteCreate
  simp only [h, ne_eq, not_true_eq_false, if_false]
  cases h1 : jsonGetString req.body (.lit "title") (STORE_MAX_TITLE_LEN + 1) with
  | error e' =>
    rw [h1] at ht
    cases ht
    rfl
  | ok title =>
    cases h2 : jsonGetString req.body (.lit "body") (STORE_MAX_BODY_LEN + 1) with
    | error e' =>
      rw [h1, h2] at ht
      cases ht
      rfl
    | ok body =>
      rw [h1, h2] at ht
      cases ht

/-- PUT returns `API_ERR_BAD_REQUEST` for each. -/
theorem updateResult_texts (id : Long) (e : ApiError) (h : apiRequireJson req true = .ok)
    (ht : noteTexts req = .error e) : updateResult now page req st id = .badRequest := by
  unfold noteTexts at ht
  unfold updateResult handleNoteUpdate
  simp only [h, ne_eq, not_true_eq_false, if_false]
  cases h1 : jsonGetString req.body (.lit "title") (STORE_MAX_TITLE_LEN + 1) with
  | error e' => rfl
  | ok title =>
    cases h2 : jsonGetString req.body (.lit "body") (STORE_MAX_BODY_LEN + 1) with
    | error e' => rfl
    | ok body =>
      rw [h1, h2] at ht
      cases ht

theorem createResult_invalid (title body : CStr) (h : apiRequireJson req true = .ok)
    (ht : noteTexts req = .ok (title, body)) (hv : validateNoteFields title body ≠ .ok) :
    createResult now page req st = validateNoteFields title body := by
  have hcreate : storeNoteCreate .none now st.notes title body =
      (.error (validateNoteFields title body), st.notes) := if_pos hv
  unfold createResult
  rw [handleNoteCreate_call true req title body h ((noteTexts_ok req title body).mp ht)]
  show (Program.run _ 1 (noteCreateNext true (storeNoteCreate .none now st.notes title body).1) _).1.result
    = _
  rw [hcreate]
  rfl

theorem updateResult_invalid (id : Long) (title body : CStr) (hid : 0 < id.val)
    (h : apiRequireJson req true = .ok) (ht : noteTexts req = .ok (title, body))
    (hv : validateNoteFields title body ≠ .ok) :
    updateResult now page req st id = validateNoteFields title body := by
  have hupdate : storeNoteUpdate .none now st.notes id title body =
      (validateNoteFields title body, st.notes) := by
    unfold storeNoteUpdate
    rw [if_neg (by omega), if_pos hv]
  unfold updateResult
  rw [handleNoteUpdate_call true req id title body h ((noteTexts_ok req title body).mp ht)]
  show (Program.run _ 1 (noteUpdateNext true id (storeNoteUpdate .none now st.notes id title body).1)
    _).1.result = _
  rw [hupdate]
  unfold noteUpdateNext
  rw [if_pos hv]
  rfl

/-- the largest id is used up -/
theorem createResult_full (title body : CStr) (h : NoteInput req title body)
    (hn : ¬ st.notes.HasNext) : createResult now page req st = .internal := by
  have hcreate : storeNoteCreate .none now st.notes title body = (.error .internal, st.notes) := by
    unfold storeNoteCreate
    rw [if_neg (not_not.mpr h.valid), if_neg (by decide), dif_neg hn]
  unfold createResult
  rw [handleNoteCreate_call true req title body h.json h.submits]
  show (Program.run _ 1 (noteCreateNext true (storeNoteCreate .none now st.notes title body).1) _).1.result
    = _
  rw [hcreate]
  rfl

theorem createResult_rendered (title body : CStr) (h : NoteInput req title body)
    (hn : st.notes.HasNext) :
    (Clean title.bytes ∧ Clean body.bytes → createResult now page req st = .ok) ∧
    (¬ (Clean title.bytes ∧ Clean body.bytes) → createResult now page req st = .internal) := by
  unfold createResult
  rw [handleNoteCreate_stored now page req st title body h hn]
  constructor
  · intro hc
    have htext := noteRowToJson_clean (createdRow now st hn title body) h.valid hc.1 hc.2
      StaticBuffer.noteCreateJson.cap 0 (by decide)
    rw [htext, noteCreateReply_ok _ _ htext]
  · intro hc
    rw [noteRowToJson_not_clean _ hc]
    rfl

theorem updateResult_rendered (id : Long) (row : NoteRow) (title body : CStr) (hid : 0 < id.val)
    (hrow : st.notes.table.get id = some row) (h : NoteInput req title body) :
    (Clean title.bytes ∧ Clean body.bytes → updateResult now page req st id = .ok) ∧
    (¬ (Clean title.bytes ∧ Clean body.bytes) → updateResult now page req st id = .internal) := by
  unfold updateResult
  rw [handleNoteUpdate_stored now page req st id row title body hid hrow h]
  constructor
  · intro hc
    have htext := noteRowToJson_clean (row.edit title body now) h.valid hc.1 hc.2
      StaticBuffer.noteGetBody.cap 0 (by decide)
    rw [htext, noteGetReply_ok _ _ htext]
  · intro hc
    rw [noteRowToJson_not_clean _ hc]
    rfl

end

/-! ## the two requests -/

/-- `POST /api/notes` -/
def PostsNote (req : HttpRequest) : Prop :=
  req.method = .post ∧ (req.path.bytes = ascii "/api/notes" ∨ req.path.bytes = ascii "/api/notes/")

/-- `PUT /api/notes/:id` -/
def PutsNote (req : HttpRequest) (id : Long) : Prop :=
  req.method = .put ∧ parseNoteId req.path.toCStr = .ok id

theorem PostsNote.write {req : HttpRequest} (h : PostsNote req) : isApiWrite req = true := by
  unfold isApiWrite
  rw [h.1]
  rcases h.2 with hp | hp
  · rw [hp]
    decide
  · rw [hp]
    decide

theorem PutsNote.write {req : HttpRequest} {id : Long} (h : PutsNote req id) :
    isApiWrite req = true := by
  have hp : ascii "/api/" <+: req.path.bytes :=
    List.IsPrefix.trans (by decide) (parseNoteId_path _ _ h.2).1
  unfold isApiWrite
  rw [h.1, List.isPrefixOf_iff_prefix.mpr hp]
  decide

/-- Both give the same value; on success the note that was created and the note with the id have
the same texts. -/
structure Alike (st : Store) (id : Long) (posted put : Answer × Store) : Prop where
  result : put.1.result = posted.1.result
  texts : put.1.result = .ok → ∃ hn : st.notes.HasNext, ∃ created updated,
    posted.2.notes.table.get (st.notes.nextId hn) = some created ∧
    put.2.notes.table.get id = some updated ∧
    created.title = updated.title ∧ created.body = updated.body

/-- When the request gets as far as the extractions, the first one that fails says
`API_ERR_BAD_REQUEST`; and a request that would succeed finds an id. -/
structure AlikeWhen (st : Store) (server : Server) (req : HttpRequest) : Prop where
  errors : serverAuthCheck server req = .ok → apiRequireJson req true = .ok →
    ∀ e, noteTexts req = .error e → e = .badRequest
  ids : serverAuthCheck server req = .ok → ∀ title body, NoteInput req title body →
    Clean title.bytes ∧ Clean body.bytes → st.notes.HasNext

section
variable (now now' : Long) (page page' : Bytes) (server : Server) (st : Store)
  (post put : HttpRequest) (id : Long) (row : NoteRow)
  (hpost : PostsNote post) (hput : PutsNote put id) (hrow : st.notes.table.get id = some row)
  (hsame : SameInput post put)

/-- a request of each kind, and its store -/
def postNote : Answer × Store := apiDispatch (Env.quiet now page) post st server

def putNote : Answer × Store := apiDispatch (Env.quiet now' page') put st server

/-- answers with one error: there is nothing to compare in the stores -/
theorem alike_failed (posted updated : Answer × Store) (e : ApiError) (he : e ≠ .ok)
    (h1 : posted.1.result = e) (h2 : updated.1.result = e) : Alike st id posted updated :=
  ⟨h2.trans h1.symm, fun hok => absurd (h2.symm.trans hok) he⟩

include hpost in
theorem postNote_authorised (hauth : serverAuthCheck server post = .ok) :
    postNote now page server st post = (handleNoteCreate true post).serve (Env.quiet now page) st := by
  unfold postNote apiDispatch
  rw [apiRoute_notes _ _ _ hpost.2 fun _ => hauth, hpost.1]
  rfl

include hput in
theorem putNote_authorised (hauth : serverAuthCheck server put = .ok) :
    putNote now' page' server st put =
      (handleNoteUpdate true put id).serve (Env.quiet now' page') st := by
  unfold putNote apiDispatch
  rw [apiRoute_note _ _ _ id hput.2 fun _ => hauth, hput.1]
  rfl

include hpost hput hsame in
/-- a pair of requests that is turned away -/
theorem notes_turnedAway (hauth : serverAuthCheck server post ≠ .ok) :
    Alike st id (postNote now page server st post) (putNote now' page' server st put) := by
  have hauth' : serverAuthCheck server put ≠ .ok := hsame.auth server ▸ hauth
  obtain ⟨d, hd⟩ := apiRoute_turnedAway (Env.quiet now page) post server hpost.write hauth
  obtain ⟨d', hd'⟩ := apiRoute_turnedAway (Env.quiet now' page') put server hput.write hauth'
  have hresult : (postNote now page server st post).1.result = serverAuthCheck server post := by
    unfold postNote apiDispatch
    rw [hd]
    rfl
  have hresult' : (putNote now' page' server st put).1.result = serverAuthCheck server put := by
    unfold putNote apiDispatch
    rw [hd']
    rfl
  exact alike_failed st id _ _ _ hauth hresult (hresult'.trans (hsame.auth server).symm)

include hrow in
/-- a clean note that finds an id -/
theorem alike_stored (title body : CStr) (hid : 0 < id.val) (hin : NoteInput post title body)
    (hin' : NoteInput put title body) (hclean : Clean title.bytes ∧ Clean body.bytes)
    (hn : st.notes.HasNext) :
    Alike st id ((handleNoteCreate true post).serve (Env.quiet now page) st)
      ((handleNoteUpdate true put id).serve (Env.quiet now' page') st) := by
  have hcreated := (createResult_rendered now page post st title body hin hn).1 hclean
  have hupdated := (updateResult_rendered now' page' put st id row title body hid hrow hin').1 hclean
  refine ⟨hupdated.trans hcreated.symm, fun _ => ?_⟩
  rw [handleNoteCreate_stored now page post st title body hin hn,
    handleNoteUpdate_stored now' page' put st id row title body hid hrow hin']
  refine ⟨hn, createdRow now st hn title body, row.edit title body now', ?_,
    update_get now' st.notes id row title body hrow, rfl, rfl⟩
  show (st.notes.table.put _).get _ = _
  rw [Table.get_put]
  exact if_pos rfl

/-- a note that is not clean, whether it finds an id or not -/
theorem createResult_broken (title body : CStr) (hin : NoteInput post title body)
    (hbroken : ¬ (Clean title.bytes ∧ Clean body.bytes)) : createResult now page post st = .internal := by
  by_cases hn : st.notes.HasNext
  · exact (createResult_rendered now page post st title body hin hn).2 hbroken
  · exact createResult_full now page post st title body hin hn

include hpost hput hrow hsame in
theorem notesAlike_of_when (h : AlikeWhen st server post) :
    Alike st id (postNote now page server st post) (putNote now' page' server st put) := by
  by_cases hauth : serverAuthCheck server post = .ok
  · have hid : 0 < id.val := (parseNoteId_path _ _ hput.2).2.2
    have hjson := hsame.json true
    have htexts := hsame.texts
    rw [postNote_authorised now page server st post hpost hauth,
      putNote_authorised now' page' server st put id hput (hsame.auth server ▸ hauth)]
    by_cases hc : apiRequireJson post true = .ok
    · have hc' : apiRequireJson put true = .ok := hjson ▸ hc
      cases ht : noteTexts post with
      | error e =>
        have ht' := htexts ▸ ht
        have he := h.errors hauth hc e ht
        subst he
        exact alike_failed _ _ _ _ .badRequest (by decide)
          (createResult_texts now page post st _ hc ht)
          (updateResult_texts now' page' put st id _ hc' ht')
      | ok texts =>
        obtain ⟨title, body⟩ := texts
        have ht' := htexts ▸ ht
        by_cases hv : validateNoteFields title body = .ok
        · have hin := (noteInput_iff post title body).mpr ⟨hc, ht, hv⟩
          have hin' := (noteInput_iff put title body).mpr ⟨hc', ht', hv⟩
          by_cases hclean : Clean title.bytes ∧ Clean body.bytes
          · exact alike_stored now now' page page' st post put id row hrow title body hid hin hin'
              hclean (h.ids hauth title body hin hclean)
          · exact alike_failed _ _ _ _ .internal (by decide)
              (createResult_broken now page st post title body hin hclean)
              ((updateResult_rendered now' page' put st id row title body hid hrow hin').2 hclean)
        · exact alike_failed _ _ _ _ _ hv (createResult_invalid now page post st title body hc ht hv)
            (updateResult_invalid now' page' put st id title body hid hc' ht' hv)
    · exact alike_failed _ _ _ _ _ hc (createResult_content now page post st hc)
        ((updateResult_content now' page' put st id (hjson ▸ hc)).trans hjson.symm)
  · exact notes_turnedAway now now' page page' server st post put id hpost hput hsame hauth

include hpost hput hrow hsame in
/-- **POST and PUT of a note validate alike exactly on these requests.** -/
theorem notesAlike_iff :
    Alike st id (postNote now page server st post) (putNote now' page' server st put) ↔
      AlikeWhen st server post := by
  refine ⟨fun h => ?_, notesAlike_of_when now now' page page' server st post put id row hpost hput
    hrow hsame⟩
  have hid : 0 < id.val := (parseNoteId_path _ _ hput.2).2.2
  have hresult := h.result
  constructor
  · intro hauth hc e ht
    rw [postNote_authorised now page server st post hpost hauth,
      putNote_authorised now' page' server st put id hput (hsame.auth server ▸ hauth)] at hresult
    have h1 := createResult_texts now page post st e hc ht
    have h2 := updateResult_texts now' page' put st id e (hsame.json true ▸ hc) (hsame.texts ▸ ht)
    exact h1.symm.trans (hresult.symm.trans h2)
  · intro hauth title body hin hclean
    rw [postNote_authorised now page server st post hpost hauth,
      putNote_authorised now' page' server st put id hput (hsame.auth server ▸ hauth)] at hresult
    by_contra hn
    obtain ⟨hc, ht, hv⟩ := (noteInput_iff post title body).mp hin
    have hin' := (noteInput_iff put title body).mpr
      ⟨hsame.json true ▸ hc, hsame.texts ▸ ht, hv⟩
    have h1 := createResult_full now page post st title body hin hn
    have h2 := (updateResult_rendered now' page' put st id row title body hid hrow hin').1 hclean
    have hbad : ApiError.ok = .internal := h2.symm.trans (hresult.trans h1)
    cases hbad

end

/-! ## two pairs of requests -/

def noteRequest (method : HttpMethod) (path : CStr) (body : Bytes) : HttpRequest :=
  { HttpRequest.zero with
    method := method
    path := CBuf.print _ pathLen_pos path
    contentType := CBuf.print _ contentTypeLen_pos (.lit "application/json")
    contentLength := body.length
    body := some body }

/-- a store with the note 1 -/
def noteOne : Store :=
  { Store.empty with notes := NoteTable.empty.insert (by decide) (.lit "t") (.lit "b") (Long.clamp 0) }

theorem postsNote_request (body : Bytes) : PostsNote (noteRequest .post (.lit "/api/notes") body) :=
  ⟨rfl, .inl (by show (CStr.lit "/api/notes").bytes.take 2047 = _; decide)⟩

theorem putsNote_request (body : Bytes) :
    PutsNote (noteRequest .put (.lit "/api/notes/1") body) (Long.clamp 1) := by
  refine ⟨rfl, ?_⟩
  show parseNoteId (CBuf.print _ pathLen_pos (.lit "/api/notes/1")).toCStr = _
  decide +kernel

/-- a pair that succeeds -/
theorem notesAlike_both :
    Alike noteOne (Long.clamp 1)
      (postNote (Long.clamp 0) [] openServer noteOne
        (noteRequest .post (.lit "/api/notes") (ascii "\x7b\"title\":\"a\",\"body\":\"\"\x7d")))
      (putNote (Long.clamp 0) [] openServer noteOne
        (noteRequest .put (.lit "/api/notes/1") (ascii "\x7b\"title\":\"a\",\"body\":\"\"\x7d"))) := by
  refine (notesAlike_iff _ _ _ _ openServer noteOne _ _ _ ⟨Long.clamp 1, .lit "t", .lit "b",
    Long.clamp 0, Long.clamp 0⟩ (postsNote_request _) (putsNote_request _) (by decide +kernel)
    ⟨rfl, rfl, rfl, rfl⟩).mpr ⟨fun _ _ e he => ?_, fun _ _ _ _ _ => by decide⟩
  have htexts : (noteTexts (noteRequest .post (.lit "/api/notes")
      (ascii "\x7b\"title\":\"a\",\"body\":\"\"\x7d"))).isOk = true := by decide +kernel
  rw [he] at htexts
  cases htexts

/-- a request without a body field: POST says `API_ERR_MISSING_FIELD`, PUT `API_ERR_BAD_REQUEST` -/
theorem notes_notAlike :
    ¬ Alike noteOne (Long.clamp 1)
      (postNote (Long.clamp 0) [] openServer noteOne
        (noteRequest .post (.lit "/api/notes") (ascii "\x7b\"title\":\"a\"\x7d")))
      (putNote (Long.clamp 0) [] openServer noteOne
        (noteRequest .put (.lit "/api/notes/1") (ascii "\x7b\"title\":\"a\"\x7d"))) := by
  intro h
  have hposted : (postNote (Long.clamp 0) [] openServer noteOne
      (noteRequest .post (.lit "/api/notes") (ascii "\x7b\"title\":\"a\"\x7d"))).1.result =
      .missingField := by decide +kernel
  have hput : (putNote (Long.clamp 0) [] openServer noteOne
      (noteRequest .put (.lit "/api/notes/1") (ascii "\x7b\"title\":\"a\"\x7d"))).1.result =
      .badRequest := by decide +kernel
  have hresult := h.result
  rw [hposted, hput] at hresult
  cases hresult

end CServer
