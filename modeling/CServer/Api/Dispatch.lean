import CServer.Api.Handlers

/-!
# The router

`dispatch_kv`, `dispatch_notes` and `api_dispatch`.  `apiRoute` is the program that `api_dispatch`
runs for a request, and `apiDispatch` its run against the store.
-/

namespace CServer

def dispatchKv (sendOk : Bool) (req : HttpRequest) : Handler :=
  if req.path.bytes = ascii "/api/kv" ∨ req.path.bytes = ascii "/api/kv/" then
    if req.method ≠ .get then .done (answerMethodNotAllowed sendOk "GET")
    else handleKvList sendOk req
  else if (ascii "/api/kv/").isPrefixOf req.path.bytes = false then
    .done (answerError sendOk .notFound "unknown route")
  else
    let key := req.path.drop 8
    if (47 : Byte) ∈ key.bytes ∨ storeValidateKey key ≠ .ok then
      .done (answerError sendOk .invalidKey "key must match [A-Za-z0-9._-]\x7b1,128\x7d")
    else
      match req.method with
      | .get => handleKvGet sendOk key
      | .put => handleKvPut sendOk req key
      | .delete => handleKvDel sendOk key
      | _ => .done (answerMethodNotAllowed sendOk "GET, PUT, DELETE")

def dispatchNotes (sendOk : Bool) (req : HttpRequest) : Handler :=
  if req.path.bytes = ascii "/api/notes" ∨ req.path.bytes = ascii "/api/notes/" then
    match req.method with
    | .post => handleNoteCreate sendOk req
    | .get => handleNoteList sendOk req
    | _ => .done (answerMethodNotAllowed sendOk "GET, POST")
  else
    match parseNoteId req.path.toCStr with
    | .error .notFound => .done (answerError sendOk .notFound "unknown route")
    | .error e => .done (answerError sendOk e "id must be a positive integer")
    | .ok id =>
      match req.method with
      | .get => handleNoteGet sendOk id
      | .put => handleNoteUpdate sendOk req id
      | .delete => handleNoteDel sendOk id
      | _ => .done (answerMethodNotAllowed sendOk "GET, PUT, DELETE")

def handleRoot (sendOk : Bool) (page : Bytes) : Handler :=
  .done (answerWith sendOk ⟨200, ascii "text/html", page, none⟩)

/-- the routes behind the authorisation check -/
def apiRoutes (env : Env) (req : HttpRequest) (server : Server) : Handler :=
  if req.path.bytes = ascii "/health" then
    if req.method ≠ .get then .done (answerMethodNotAllowed env.sendOk "GET")
    else handleHealth env.sendOk env.now server
  else if req.path.bytes = ascii "/metrics" then
    if req.method ≠ .get then .done (answerMethodNotAllowed env.sendOk "GET")
    else handleMetrics env.sendOk server
  else if req.path.bytes = ascii "/api/echo" then
    if req.method ≠ .post then .done (answerMethodNotAllowed env.sendOk "POST")
    else handleEcho env.sendOk req
  else if (ascii "/api/kv").isPrefixOf req.path.bytes then dispatchKv env.sendOk req
  else if (ascii "/api/notes").isPrefixOf req.path.bytes then dispatchNotes env.sendOk req
  else .done (answerError env.sendOk .notFound "unknown route")

/-- a request that the authorisation check applies to -/
def isApiWrite (req : HttpRequest) : Bool :=
  decide (req.method ≠ .get) && (ascii "/api/").isPrefixOf req.path.bytes

def apiRoute (env : Env) (req : HttpRequest) (server : Server) : Handler :=
  if req.path.bytes = ascii "/" ∨ req.path.bytes = ascii "/index.html" then
    if req.method ≠ .get then .done (answerMethodNotAllowed env.sendOk "GET")
    else handleRoot env.sendOk env.page
  else if isApiWrite req ∧ serverAuthCheck server req ≠ .ok then
    .done (answerError env.sendOk (serverAuthCheck server req)
      (if serverAuthCheck server req = .unauthorized then "missing X-API-Key header"
        else "invalid API key"))
  else apiRoutes env req server

def apiDispatch (env : Env) (req : HttpRequest) (st : Store) (server : Server) : Answer × Store :=
  Handler.serve env (apiRoute env req server) st

end CServer
