import CServer.Api.Calls
import CServer.Http.Query
import CServer.Json.Scan
import CServer.Lib.CScan

/-!
# The handlers of `api.c`

Under the names of the source, each with its own buffer sizes and messages.  What a handler does
with the result of its last store call is a function of its own (`kvPutReply`, `noteGetReply`, ...).
-/

namespace CServer

/-- a string literal as a C string -/
def CStr.lit (s : String) : CStr := CStr.ofBytes (ascii s)

/-! ## what the request says -/

def apiRequireJson (req : HttpRequest) (bodyRequired : Bool) : ApiError :=
  if bodyRequired ∧ req.contentLength < 0 then .lengthRequired
  else if bodyRequired ∧ req.body = none then .badRequest
  else
    let lowered := (CBuf.print 128 contentTypeLen_pos req.contentType.toCStr).bytes.map toLower
    if strstr lowered (ascii "application/json") then .ok else .unsupportedMedia

def parseLimit (query : CStr) : Except ApiError Int :=
  match httpQueryGet query (.lit "limit") 32 with
  | .truncated => .error .invalidQuery
  | .absent => .ok 50
  | .found text =>
    let n := strtol text.bytes
    if n.converted = false ∨ n.stop ≠ [] ∨ n.value.val ≤ 0 ∨ n.value.val > STORE_MAX_LIST then
      .error .invalidQuery
    else .ok n.value.val

def parseOffset (query : CStr) : Except ApiError Int :=
  match httpQueryGet query (.lit "offset") 32 with
  | .truncated => .error .invalidQuery
  | .absent => .ok 0
  | .found text =>
    let n := strtol text.bytes
    if n.converted = false ∨ n.stop ≠ [] ∨ n.value.val < 0 ∨ n.value.val > 1000000 then
      .error .invalidQuery
    else .ok n.value.val

def parseNoteId (path : CStr) : Except ApiError Long :=
  if (ascii "/api/notes/").isPrefixOf path.bytes = false ∨ path.bytes.drop 11 = [] then
    .error .invalidId
  else if (47 : Byte) ∈ path.bytes.drop 11 then .error .notFound
  else
    let n := strtol (path.bytes.drop 11)
    if n.converted = false ∨ n.stop ≠ [] ∨ n.value.val ≤ 0 then .error .invalidId
    else .ok n.value

/-! ## service information -/

def SERVER_VERSION : Bytes := ascii "0.2.0"

/-- `time_t` as a 64-bit integer; the difference of two non-negative times does not overflow -/
def serverUptime (server : Server) (now : Long) : Int :=
  if now.val < server.startTime.val then 0 else now.val - server.startTime.val

def handleHealth (sendOk : Bool) (now : Long) (server : Server) : Handler :=
  let auth := if serverAuthEnabled server then ascii "protected" else ascii "open"
  .done (answerPrinted sendOk 256
    (ascii "\x7b\"status\":\"ok\",\"version\":\"" ++ SERVER_VERSION ++ ascii "\",\"uptime_s\":"
      ++ decimal (serverUptime server now) ++ ascii ",\"auth\":\"" ++ auth ++ ascii "\"\x7d"))

def metricsText (stats : ServerStats) (kvCount noteCount : Nat) : Bytes :=
  ascii "\x7b\"connections_accepted\":" ++ digits stats.connectionsAccepted.toNat
    ++ ascii ",\"connections_handled\":" ++ digits stats.connectionsHandled.toNat
    ++ ascii ",\"connections_dropped_queue_full\":"
    ++ digits stats.connectionsDroppedQueueFull.toNat
    ++ ascii ",\"http_requests\":" ++ digits stats.httpRequests.toNat
    ++ ascii ",\"http_errors\":" ++ digits stats.httpErrors.toNat
    ++ ascii ",\"kv_count\":" ++ digits kvCount
    ++ ascii ",\"notes_count\":" ++ digits noteCount ++ ascii "\x7d"

def metricsReply (sendOk : Bool) (stats : ServerStats) (counted : Except ApiError (Nat × Nat)) :
    Answer :=
  match counted with
  | .error e => answerError sendOk e "store count failed"
  | .ok counts => answerPrinted sendOk 512 (metricsText stats counts.1 counts.2)

def handleMetrics (sendOk : Bool) (server : Server) : Handler :=
  .call .counts fun counted => .done (metricsReply sendOk server.stats counted)

def handleEcho (sendOk : Bool) (req : HttpRequest) : Handler :=
  let checked := apiRequireJson req true
  if checked ≠ .ok then
    .done (answerError sendOk checked
      (if checked = .unsupportedMedia then "use application/json" else "body required"))
  else
    match jsonGetString req.body (.lit "data") HTTP_MAX_BODY_SIZE with
    | .error e =>
      .done (answerError sendOk e
        (if e = .missingField then "missing field: data" else "invalid JSON"))
    | .ok data =>
      match jsonEscape (HTTP_MAX_BODY_SIZE + 128) data with
      | none => .done (answerError sendOk .internal "encode overflow")
      | some escaped =>
        .done (answerPrinted sendOk (HTTP_MAX_BODY_SIZE + 256)
          (ascii "\x7b\"data\":\"" ++ escaped ++ ascii "\"\x7d"))

/-! ## `/api/kv` -/

/-- the body `{"key":...,"value":...}` of a PUT and of a GET -/
def kvReply (sendOk : Bool) (key value : CStr) : Answer :=
  match jsonEscape (STORE_MAX_VALUE_LEN * 2 + 1) value, jsonEscape (STORE_MAX_KEY_LEN * 2 + 1) key with
  | some escaped, some ekey =>
    answerPrinted sendOk (STORE_MAX_VALUE_LEN * 2 + 512) (kvItem ekey escaped)
  | _, _ => answerError sendOk .internal "encode overflow"

def kvPutReply (sendOk : Bool) (key value : CStr) (stored : ApiError) : Answer :=
  if stored ≠ .ok then
    answerError sendOk stored
      (if stored = .invalidKey then "invalid key" else "store write failed")
  else kvReply sendOk key value

def handleKvPut (sendOk : Bool) (req : HttpRequest) (key : CStr) : Handler :=
  let checked := apiRequireJson req true
  if checked ≠ .ok then
    .done (answerError sendOk checked "body with \x7b\"value\"\x7d required as application/json")
  else
    match jsonGetString req.body (.lit "value") (STORE_MAX_VALUE_LEN + 1) with
    | .error e =>
      .done (answerError sendOk e
        (if e = .missingField then "missing field: value" else "invalid JSON"))
    | .ok value => .call (.kvPut key value) fun stored => .done (kvPutReply sendOk key value stored)

def kvGetReply (sendOk : Bool) (key : CStr) (got : Except ApiError CStr) : Answer :=
  match got with
  | .error e =>
    answerError sendOk e (if e = .notFound then "key not found" else "store read failed")
  | .ok value => kvReply sendOk key value

def handleKvGet (sendOk : Bool) (key : CStr) : Handler :=
  .call (.kvGet key (STORE_MAX_VALUE_LEN + 1)) fun got => .done (kvGetReply sendOk key got)

def kvDelReply (sendOk : Bool) (deleted : ApiError) : Answer :=
  if deleted ≠ .ok then
    answerError sendOk deleted
      (if deleted = .notFound then "key not found" else "store delete failed")
  else answerNoContent sendOk

def handleKvDel (sendOk : Bool) (key : CStr) : Handler :=
  .call (.kvDel key) fun deleted => .done (kvDelReply sendOk deleted)

def kvListReply (sendOk : Bool) (listed : Except ApiError Bytes) : Answer :=
  match listed with
  | .error e => answerError sendOk e "store list failed"
  | .ok items =>
    answerPrinted sendOk HTTP_MAX_BODY_SIZE (ascii "\x7b\"items\":" ++ items ++ ascii "\x7d")

/-- the prefix parameter: absent and empty are the same -/
def listPrefix (query : CStr) : Except String CStr :=
  match httpQueryGet query (.lit "prefix") (STORE_MAX_KEY_LEN + 1) with
  | .truncated => .error "prefix too long"
  | .absent => .ok CStr.empty
  | .found pfx =>
    if storeValidateKey pfx ≠ .ok ∧ pfx.bytes ≠ [] then .error "invalid prefix charset" else .ok pfx

def handleKvList (sendOk : Bool) (req : HttpRequest) : Handler :=
  match listPrefix req.query.toCStr with
  | .error detail => .done (answerError sendOk .invalidQuery detail)
  | .ok pfx =>
    match parseLimit req.query.toCStr with
    | .error e => .done (answerError sendOk e "limit must be 1..100")
    | .ok limit =>
      .call (.render (.kvList pfx limit) .kvListItems) fun listed =>
        .done (kvListReply sendOk listed)

/-! ## `/api/notes` -/

def noteCreateReply (sendOk : Bool) (got : Except ApiError Bytes) : Answer :=
  match got with
  | .error e => answerError sendOk e "created but re-read failed"
  | .ok createdJson => answerWith sendOk (jsonResponse 201 createdJson)

def noteCreateError (sendOk : Bool) (e : ApiError) : Answer :=
  answerError sendOk e
    (if e = .payloadTooLarge then "title 1..200, body 0..8192"
      else if e = .badRequest then "title must be 1..200 chars"
      else "store write failed")

/-- behind `store_note_create` -/
def noteCreateNext (sendOk : Bool) (created : Except ApiError Long) : Handler :=
  match created with
  | .error e => .done (noteCreateError sendOk e)
  | .ok id =>
    .call (.render (.noteGet id) .noteCreateJson) fun got => .done (noteCreateReply sendOk got)

def handleNoteCreate (sendOk : Bool) (req : HttpRequest) : Handler :=
  let checked := apiRequireJson req true
  if checked ≠ .ok then
    .done (answerError sendOk checked "body with \x7b\"title\",\"body\"\x7d required")
  else
    match jsonGetString req.body (.lit "title") (STORE_MAX_TITLE_LEN + 1) with
    | .error e =>
      .done (answerError sendOk e
        (if e = .missingField then "missing field: title" else "invalid JSON"))
    | .ok title =>
      match jsonGetString req.body (.lit "body") (STORE_MAX_BODY_LEN + 1) with
      | .error e =>
        .done (answerError sendOk e
          (if e = .missingField then "missing field: body" else "invalid JSON"))
      | .ok noteBody =>
        .call (.noteCreate title noteBody) (noteCreateNext sendOk)

def noteListReply (sendOk : Bool) (listed : Except ApiError Bytes) : Answer :=
  match listed with
  | .error e => answerError sendOk e "store list failed"
  | .ok body => answerWith sendOk (jsonResponse 200 body)

def handleNoteList (sendOk : Bool) (req : HttpRequest) : Handler :=
  match parseLimit req.query.toCStr, parseOffset req.query.toCStr with
  | .ok limit, .ok offset =>
    .call (.render (.noteList limit offset) .noteListBody) fun listed =>
      .done (noteListReply sendOk listed)
  | _, _ => .done (answerError sendOk .invalidQuery "limit 1..100, offset >= 0")

def noteGetReply (sendOk : Bool) (got : Except ApiError Bytes) : Answer :=
  match got with
  | .error e => answerError sendOk e (if e = .notFound then "note not found" else "invalid id")
  | .ok body => answerWith sendOk (jsonResponse 200 body)

def handleNoteGet (sendOk : Bool) (id : Long) : Handler :=
  .call (.render (.noteGet id) .noteGetBody) fun got => .done (noteGetReply sendOk got)

def noteUpdateError (sendOk : Bool) (e : ApiError) : Answer :=
  answerError sendOk e (if e = .notFound then "note not found" else "invalid title/body")

/-- behind `store_note_update` -/
def noteUpdateNext (sendOk : Bool) (id : Long) (updated : ApiError) : Handler :=
  if updated ≠ .ok then .done (noteUpdateError sendOk updated) else handleNoteGet sendOk id

def handleNoteUpdate (sendOk : Bool) (req : HttpRequest) (id : Long) : Handler :=
  let checked := apiRequireJson req true
  if checked ≠ .ok then
    .done (answerError sendOk checked "body with \x7b\"title\",\"body\"\x7d required")
  else
    match jsonGetString req.body (.lit "title") (STORE_MAX_TITLE_LEN + 1),
        jsonGetString req.body (.lit "body") (STORE_MAX_BODY_LEN + 1) with
    | .ok title, .ok noteBody =>
      .call (.noteUpdate id title noteBody) (noteUpdateNext sendOk id)
    | _, _ => .done (answerError sendOk .badRequest "missing field: title/body")

def noteDelReply (sendOk : Bool) (deleted : ApiError) : Answer :=
  if deleted ≠ .ok then
    answerError sendOk deleted (if deleted = .notFound then "note not found" else "invalid id")
  else answerNoContent sendOk

def handleNoteDel (sendOk : Bool) (id : Long) : Handler :=
  .call (.noteDel id) fun deleted => .done (noteDelReply sendOk deleted)

end CServer
