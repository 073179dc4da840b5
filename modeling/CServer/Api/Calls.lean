import CServer.Lib.Program
import CServer.Store.Kv
import CServer.Store.Notes
import CServer.Http.Respond
import CServer.Server.Auth

/-!
# What a handler does

A handler is a `Program` of store calls that ends with an `Answer`: the value the C function
returns and the responses it put on the socket.  Each store call runs under the store mutex, so it
is one step.

* `StaticBuffer`   the function-level `static` arrays that four handlers render into;
* `RenderCall`     the store functions that render JSON text into such an array;
* `StoreCall`      all store functions, and `StoreCall.exec` their effect;
* `Env`            what a request meets outside the process: the clock, SQLite, the socket.
-/

namespace CServer

inductive StaticBuffer where
  | kvListItems
  | noteListBody
  | noteGetBody
  | noteCreateJson
  deriving DecidableEq

/-- `sizeof` of the array -/
def StaticBuffer.cap : StaticBuffer → Nat
  | .kvListItems => HTTP_MAX_BODY_SIZE
  | .noteListBody => HTTP_MAX_BODY_SIZE
  | .noteGetBody => STORE_MAX_BODY_LEN * 2 + 1024
  | .noteCreateJson => STORE_MAX_BODY_LEN * 2 + 1024

inductive RenderCall where
  | kvList (pfx : CStr) (limit : Int)
  | noteList (limit offset : Int)
  | noteGet (id : Long)
  deriving DecidableEq

inductive StoreCall where
  | kvPut (key value : CStr)
  | kvGet (key : CStr) (valueCap : Nat)
  | kvDel (key : CStr)
  | noteCreate (title body : CStr)
  | noteUpdate (id : Long) (title body : CStr)
  | noteDel (id : Long)
  | counts
  | render (call : RenderCall) (out : StaticBuffer)

/-- what the store function returns, with what it leaves behind its output pointers -/
def StoreCall.Result : StoreCall → Type
  | .kvPut _ _ => ApiError
  | .kvGet _ _ => Except ApiError CStr
  | .kvDel _ => ApiError
  | .noteCreate _ _ => Except ApiError Long
  | .noteUpdate _ _ _ => ApiError
  | .noteDel _ => ApiError
  | .counts => Except ApiError (Nat × Nat)
  | .render _ _ => Except ApiError Bytes

/-- `handle_note_list` drops the total that `store_note_list` hands back. -/
def RenderCall.exec (fault : SqlFault × SqlFault) (st : Store) (outCap : Nat) :
    RenderCall → Except ApiError Bytes
  | .kvList pfx limit => storeKvList fault.1 st.kv pfx limit outCap
  | .noteList limit offset =>
    (storeNoteList fault.1 fault.2 st.notes limit offset outCap).map Prod.fst
  | .noteGet id => storeNoteGet fault.1 st.notes id outCap

/-- The call against the store; a call that runs two statements meets both faults. -/
def StoreCall.exec (fault : SqlFault × SqlFault) (now : Long) :
    (c : StoreCall) → Store → c.Result × Store
  | .kvPut key value, st =>
    let r := storeKvPut fault.1 now st.kv key value
    (r.1, { st with kv := r.2 })
  | .kvGet key valueCap, st => (storeKvGet fault.1 st.kv key valueCap, st)
  | .kvDel key, st =>
    let r := storeKvDel fault.1 st.kv key
    (r.1, { st with kv := r.2 })
  | .noteCreate title body, st =>
    let r := storeNoteCreate fault.1 now st.notes title body
    (r.1, { st with notes := r.2 })
  | .noteUpdate id title body, st =>
    let r := storeNoteUpdate fault.1 now st.notes id title body
    (r.1, { st with notes := r.2 })
  | .noteDel id, st =>
    let r := storeNoteDel fault.1 st.notes id
    (r.1, { st with notes := r.2 })
  | .counts, st => (storeCounts fault.1 fault.2 st, st)
  | .render call out, st => (call.exec fault st out.cap, st)

structure Answer where
  result : ApiError
  sent : List Response
  deriving DecidableEq

abbrev Handler := Program StoreCall.Result Answer

/-- `sql n` are the faults that the `n`-th store call of the request meets; `page` is
`frontend_html`, which the build generates. -/
structure Env where
  now : Long
  sql : Nat → SqlFault × SqlFault
  sendOk : Bool
  page : Bytes

/-- every SQLite call and every send succeeds -/
def Env.quiet (now : Long) (page : Bytes) : Env := ⟨now, fun _ => (.none, .none), true, page⟩

/-- the handler against the store -/
def Handler.serve (env : Env) (h : Handler) (st : Store) : Answer × Store :=
  h.run (fun n c s => c.exec (env.sql n) env.now s) 0 st

/-! ## answers -/

/-- `http_respond_error` and `return err` -/
def answerError (sendOk : Bool) (err : ApiError) (detail : String) : Answer :=
  ⟨err, (httpRespondError sendOk err (ascii detail)).sent⟩

/-- `http_respond`, and `API_ERR_INTERNAL` when it fails -/
def answerWith (sendOk : Bool) (r : Response) : Answer :=
  let reply := httpRespond sendOk r
  ⟨if reply.done then .ok else .internal, reply.sent⟩

/-- what `send_json` sends -/
def jsonResponse (status : Nat) (body : Bytes) : Response := ⟨status, APPLICATION_JSON, body, none⟩

/-- `snprintf` of the text to `body[cap]`, and `send_json` -/
def answerPrinted (sendOk : Bool) (cap : Nat) (text : Bytes) : Answer :=
  if text.length ≥ cap then answerError sendOk .internal "encode overflow"
  else answerWith sendOk (jsonResponse 200 text)

/-- `send_no_content` -/
def answerNoContent (sendOk : Bool) : Answer := answerWith sendOk ⟨204, APPLICATION_JSON, [], none⟩

def sendMethodNotAllowed (sendOk : Bool) (allow : Bytes) : Reply :=
  let body := ascii "\x7b\"error\":\"method_not_allowed\",\"message\":\"use " ++ allow
    ++ ascii "\"\x7d"
  if body.length ≥ 256 then httpRespondError sendOk .internal (ascii "encode overflow")
  else httpRespond sendOk ⟨405, APPLICATION_JSON, body, some allow⟩

/-- `send_method_not_allowed` and `return API_ERR_METHOD_NOT_ALLOWED` -/
def answerMethodNotAllowed (sendOk : Bool) (allow : String) : Answer :=
  ⟨.methodNotAllowed, (sendMethodNotAllowed sendOk (ascii allow)).sent⟩

end CServer
