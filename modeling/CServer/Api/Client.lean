import CServer.Api.Routes
import CServer.Http.Method

/-!
# One connection, and the Allow lists

* `handleClient`     what `handle_client` reads and answers;
* `Sends`            a response to a byte stream, however it arrives;
* `Route.methods`    the methods that the switch of a route takes;
* `allowNames`       the names in an Allow list;
* `AllowTrue`        the list of a 405 names the methods that are not answered 405;
* `allowLists_iff`   the requests whose list is true.
-/

namespace CServer

/-- what is done with the outcome of `http_read_request` -/
def clientAnswer (env : Env) (st : Store) (server : Server) :
    Except ApiError HttpRequest → Answer × Store
  | .error e => (⟨e, (httpRespondError env.sendOk e (apiErrorCode e)).sent⟩, st)
  | .ok req => apiDispatch env req st server

/-- `handle_client` behind `set_timeouts`, without the counters -/
def handleClient (env : Env) (mallocOk : Bool) (headerBuf : Block HTTP_MAX_HEADERS_SIZE)
    (bodyBuf : Block HTTP_MAX_BODY_SIZE) (s : Socket) (st : Store) (server : Server) :
    Option (Answer × Store) :=
  (httpReadRequest mallocOk headerBuf bodyBuf s).map (clientAnswer env st server)

/-- The response goes out on a connection on which these bytes arrive. -/
def Sends (env : Env) (mallocOk : Bool) (st : Store) (server : Server) (stream : Bytes)
    (r : Response) : Prop :=
  ∃ headerBuf bodyBuf s a, s.stream = stream ∧
    handleClient env mallocOk headerBuf bodyBuf s st server = some a ∧ r ∈ a.1.sent

/-- the bytes in one piece -/
def Socket.single (stream : Bytes) : Socket :=
  if h : stream = [] then ⟨[], .closed⟩ else ⟨[.data stream h], .closed⟩

theorem Socket.single_stream (stream : Bytes) : (Socket.single stream).stream = stream := by
  unfold Socket.single
  split_ifs with h
  · exact h.symm
  · exact List.append_nil _

theorem sends_iff (env : Env) (mallocOk : Bool) (st : Store) (server : Server) (stream : Bytes)
    (r : Response) :
    Sends env mallocOk st server stream r ↔
      r ∈ (clientAnswer env st server (readStream mallocOk stream)).1.sent := by
  constructor
  · rintro ⟨headerBuf, bodyBuf, s, a, rfl, ha, hr⟩
    unfold handleClient at ha
    rw [httpReadRequest_eq] at ha
    cases ha
    exact hr
  · intro hr
    refine ⟨Block.zero _, Block.zero _, Socket.single stream, _, Socket.single_stream stream, ?_, hr⟩
    unfold handleClient
    rw [httpReadRequest_eq, Socket.single_stream]
    rfl

/-! ## the switch of a route -/

/-- the methods that the switch takes; the routes without a switch take any -/
def Route.methods : Route → List HttpMethod
  | .echo => [.post]
  | .kvKey _ => [.get, .put, .delete]
  | .notes => [.get, .post]
  | .note _ => [.get, .put, .delete]
  | .badKey => [.get, .post, .put, .delete, .unknown]
  | .badId => [.get, .post, .put, .delete, .unknown]
  | .unknown => [.get, .post, .put, .delete, .unknown]
  | _ => [.get]

theorem Route.switch_none (env : Env) (req : HttpRequest) (server : Server) (route : Route)
    (m : HttpMethod) : route.switch env req server m = none ↔ m ∉ route.methods := by
  cases route <;> cases m <;> simp [Route.switch, Route.methods]

/-- a method outside the switch -/
theorem Route.handler_refuses (env : Env) (req : HttpRequest) (server : Server) (route : Route)
    (st : Store) (h : req.method ∉ route.methods) :
    ∃ body, ((route.handler env req server).serve env st).1.sent =
      [⟨405, APPLICATION_JSON, body, some (ascii route.allow)⟩] := by
  obtain ⟨body, hsent⟩ := sendMethodNotAllowed_eq env.sendOk _ route.allow_length
  refine ⟨body, ?_⟩
  unfold Route.handler
  rw [(Route.switch_none env req server route _).mpr h]
  exact congrArg Reply.sent hsent

/-- a method of the switch -/
theorem Route.handler_takes (env : Env) (req : HttpRequest) (server : Server) (route : Route)
    (st : Store) (h : req.method ∈ route.methods) :
    ∀ r ∈ ((route.handler env req server).serve env st).1.sent, r.status ≠ 405 := by
  intro r hr
  unfold Route.handler at hr
  cases hs : route.switch env req server req.method with
  | none => exact absurd h ((Route.switch_none env req server route _).mp hs)
  | some handler =>
    rw [hs] at hr
    by_cases hu : route = .unknown
    · subst hu
      cases hs
      have hr' : r ∈ (httpRespondError env.sendOk .notFound (ascii "unknown route")).sent := hr
      rw [httpRespondError_eq _ _ _ (by decide)] at hr'
      obtain rfl := List.mem_singleton.mp hr'
      show (404 : Nat) ≠ 405
      decide
    · exact ((Route.switch_ordinary env req server route _ handler hu hs).serve env st r hr).1

/-! ## Allow lists -/

/-- the names between the commas, without the blanks in front of them -/
def allowNames (allow : Bytes) : List Bytes := (allow.splitOn comma).map fun name => name.dropWhile isBlank

theorem allowNames_all : allowNames (ascii "GET, POST, PUT, DELETE") = METHODS := by decide +kernel

/-- **The list beside a switch names the methods of the switch.** -/
theorem Route.allow_names (route : Route) (m : HttpMethod) (hm : m ∉ route.methods) (text : Bytes)
    (ht : text ∈ METHODS) :
    text ∈ allowNames (ascii route.allow) ↔ methodFromString text ∈ route.methods := by
  have hget : ∀ text ∈ METHODS, text ∈ allowNames (ascii "GET") ↔
      methodFromString text ∈ [HttpMethod.get] := by decide +kernel
  have hpost : ∀ text ∈ METHODS, text ∈ allowNames (ascii "POST") ↔
      methodFromString text ∈ [HttpMethod.post] := by decide +kernel
  have hnotes : ∀ text ∈ METHODS, text ∈ allowNames (ascii "GET, POST") ↔
      methodFromString text ∈ [HttpMethod.get, .post] := by decide +kernel
  have hone : ∀ text ∈ METHODS, text ∈ allowNames (ascii "GET, PUT, DELETE") ↔
      methodFromString text ∈ [HttpMethod.get, .put, .delete] := by decide +kernel
  have hall : ∀ m : HttpMethod, m ∈ [HttpMethod.get, .post, .put, .delete, .unknown] := by
    intro m
    cases m <;> decide
  cases route with
  | root => exact hget text ht
  | health => exact hget text ht
  | metrics => exact hget text ht
  | echo => exact hpost text ht
  | kvList => exact hget text ht
  | kvKey key => exact hone text ht
  | badKey => exact absurd (hall m) hm
  | notes => exact hnotes text ht
  | note id => exact hone text ht
  | badId => exact absurd (hall m) hm
  | unknown => exact absurd (hall m) hm

section
variable (env : Env) (mallocOk : Bool) (st : Store) (server : Server)

/-- The server answers these bytes with a 405. -/
def Refused (stream : Bytes) : Prop := ∃ r, Sends env mallocOk st server stream r ∧ r.status = 405

/-- Whenever the token is refused with an Allow list, the list names those of the four methods that
are not refused in its place. -/
def AllowTrue (token tail : Bytes) : Prop :=
  ∀ r allow, Sends env mallocOk st server (token ++ tail) r → r.status = 405 →
    r.allow = some allow →
    ∀ m ∈ METHODS, m ∈ allowNames allow ↔ ¬ Refused env mallocOk st server (m ++ tail)

/-! ## refusals -/

theorem httpRespondError_405 (sendOk : Bool) (e : ApiError) (detail : Bytes) (r : Response)
    (hr : r ∈ (httpRespondError sendOk e detail).sent) (h : r.status = 405) :
    e = .methodNotAllowed ∧ r.allow = some (ascii "GET, POST, PUT, DELETE") := by
  by_cases he : e = .ok
  · subst he
    have hsame : httpRespondError sendOk .ok detail = httpRespondError sendOk .internal detail := rfl
    rw [hsame, httpRespondError_eq _ _ _ (by decide)] at hr
    obtain rfl := List.mem_singleton.mp hr
    exact absurd h (show (500 : Nat) ≠ 405 by decide)
  · rw [httpRespondError_eq _ _ _ he] at hr
    obtain rfl := List.mem_singleton.mp hr
    have hm := apiErrorStatus_eq_405 e h
    subst hm
    exact ⟨rfl, rfl⟩

/-- a stream that is not read -/
theorem sends_error (stream : Bytes) (e : ApiError) (h : readStream mallocOk stream = .error e)
    (r : Response) (hr : Sends env mallocOk st server stream r) (h405 : r.status = 405) :
    e = .methodNotAllowed ∧ r.allow = some (ascii "GET, POST, PUT, DELETE") := by
  rw [sends_iff, h] at hr
  exact httpRespondError_405 env.sendOk e _ r hr h405

variable (hopen : serverAuthEnabled server = false)
include hopen

theorem authorised_open (req : HttpRequest) : Authorised server req := by
  intro _
  unfold serverAuthCheck
  rw [if_pos hopen]

theorem clientAnswer_route (req : HttpRequest) :
    clientAnswer env st server (.ok req) =
      ((routeOf req.path.toCStr).handler env req server).serve env st := by
  show apiDispatch env req st server = _
  unfold apiDispatch
  rw [apiRoute_authorised env req server (authorised_open server hopen req)]

/-- **A request that is read is refused exactly when the switch of its route has no case for its
method,** with the list of the route. -/
theorem refused_read (stream : Bytes) (req : HttpRequest) (h : readStream mallocOk stream = .ok req) :
    (Refused env mallocOk st server stream ↔ req.method ∉ (routeOf req.path.toCStr).methods) ∧
    ∀ r, Sends env mallocOk st server stream r → r.status = 405 →
      r.allow = some (ascii (routeOf req.path.toCStr).allow) := by
  have hsends : ∀ r, Sends env mallocOk st server stream r ↔
      r ∈ (((routeOf req.path.toCStr).handler env req server).serve env st).1.sent := by
    intro r
    rw [sends_iff, h, clientAnswer_route env st server hopen]
  by_cases hm : req.method ∈ (routeOf req.path.toCStr).methods
  · have htakes := Route.handler_takes env req server _ st hm
    constructor
    · constructor
      · rintro ⟨r, hr, h405⟩
        exact absurd h405 (htakes r ((hsends r).mp hr))
      · exact fun hno => absurd hm hno
    · intro r hr h405
      exact absurd h405 (htakes r ((hsends r).mp hr))
  · obtain ⟨body, hsent⟩ := Route.handler_refuses env req server _ st hm
    rw [hsent] at hsends
    constructor
    · refine ⟨fun _ => hm, fun _ => ⟨_, (hsends _).mpr (List.mem_singleton.mpr rfl), rfl⟩⟩
    · intro r hr _
      obtain rfl := List.mem_singleton.mp ((hsends r).mp hr)
      rfl

omit hopen in
/-- a stream of one of the four methods that is not read is not refused either -/
theorem not_refused_unread (m tail : Bytes) (hm : m ∈ METHODS) (hs : tail.head? = some space)
    (hunread : ∀ req, readStream mallocOk (m ++ tail) ≠ .ok req) :
    ¬ Refused env mallocOk st server (m ++ tail) := by
  rintro ⟨r, hr, h405⟩
  cases h : readStream mallocOk (m ++ tail) with
  | ok req => exact hunread req h
  | error e =>
    obtain ⟨rfl, _⟩ := sends_error env mallocOk st server _ e h r hr h405
    exact readStream_known mallocOk m tail (methods_token m hm) hs hm h

/-- The list of a refused token is true for the requests that satisfy this: a token of the switches
is not refused where a longer method outside the switch makes the headers too long, and another
token not where the switch of the target lacks a method. -/
structure AllowHolds (mallocOk : Bool) (token tail : Bytes) : Prop where
  known : ∀ req, readStream mallocOk (token ++ tail) = .ok req →
    req.method ∉ (routeOf req.path.toCStr).methods →
    ∀ m ∈ METHODS, methodFromString m ∉ (routeOf req.path.toCStr).methods → HeadersFit (m ++ tail)
  unknown : token ∉ METHODS → HeadersFit (token ++ tail) →
    ∀ m ∈ METHODS, ∀ req, readStream mallocOk (m ++ tail) = .ok req →
      req.method ∈ (routeOf req.path.toCStr).methods

theorem allowTrue_of_holds (token tail : Bytes) (ht : MethodToken token)
    (hs : tail.head? = some space) (h : AllowHolds mallocOk token tail) :
    AllowTrue env mallocOk st server token tail := by
  intro r allow hr h405 hallow m hm
  have hmt := methods_token m hm
  cases hread : readStream mallocOk (token ++ tail) with
  | ok req =>
    obtain ⟨hrefused, hlist⟩ := refused_read env mallocOk st server hopen _ req hread
    have hout := hrefused.mp ⟨r, hr, h405⟩
    rw [hlist r hr h405] at hallow
    obtain rfl := Option.some.inj hallow
    rw [Route.allow_names _ _ hout m hm]
    by_cases hfit : HeadersFit (m ++ tail)
    · have hother := readStream_exchange mallocOk token tail ht hs m hmt hfit req hread
      rw [if_neg (methodFromString_methods m hm)] at hother
      rw [(refused_read env mallocOk st server hopen _ _ hother).1]
      exact not_not.symm
    · have hin : methodFromString m ∈ (routeOf req.path.toCStr).methods := by
        by_contra hno
        exact hfit (h.known req hread hout m hm hno)
      refine ⟨fun _ => not_refused_unread env mallocOk st server m tail hm hs ?_, fun _ => hin⟩
      intro req' hreq'
      rw [readStream_unfit mallocOk _ hfit] at hreq'
      cases hreq'
  | error e =>
    obtain ⟨rfl, hlist⟩ := sends_error env mallocOk st server _ e hread r hr h405
    rw [hlist] at hallow
    obtain rfl := Option.some.inj hallow
    have hunknown : token ∉ METHODS := fun hk => readStream_known mallocOk token tail ht hs hk hread
    have hfit : HeadersFit (token ++ tail) := by
      by_contra hno
      rw [readStream_unfit mallocOk _ hno] at hread
      cases hread
    rw [allowNames_all]
    refine ⟨fun _ href => ?_, fun _ => hm⟩
    cases hother : readStream mallocOk (m ++ tail) with
    | ok req =>
      have hin := h.unknown hunknown hfit m hm req hother
      exact (refused_read env mallocOk st server hopen _ req hother).1.mp href hin
    | error e =>
      refine not_refused_unread env mallocOk st server m tail hm hs (fun req hreq => ?_) href
      rw [hother] at hreq
      cases hreq

theorem holds_of_allowTrue (token tail : Bytes) (ht : MethodToken token)
    (hs : tail.head? = some space) (h : AllowTrue env mallocOk st server token tail) :
    AllowHolds mallocOk token tail := by
  constructor
  · intro req hread hout m hm hno
    by_contra hfit
    obtain ⟨hrefused, hlist⟩ := refused_read env mallocOk st server hopen _ req hread
    obtain ⟨r, hr, h405⟩ := hrefused.mpr hout
    have hnames := h r _ hr h405 (hlist r hr h405) m hm
    rw [Route.allow_names _ _ hout m hm] at hnames
    refine hno (hnames.mpr (not_refused_unread env mallocOk st server m tail hm hs ?_))
    intro req' hreq'
    rw [readStream_unfit mallocOk _ hfit] at hreq'
    cases hreq'
  · intro hunknown hfit m hm req hread
    by_contra hout
    have hmt := methods_token m hm
    have herror := readStream_exchange mallocOk m tail hmt hs token ht hfit req hread
    have hmethod : methodFromString token = .unknown := by
      by_contra hk
      exact hunknown (methodFromString_known token hk)
    rw [if_pos hmethod] at herror
    have hsend : Sends env mallocOk st server (token ++ tail) ⟨405, APPLICATION_JSON,
        errorBody .methodNotAllowed (apiErrorCode .methodNotAllowed),
        some (ascii "GET, POST, PUT, DELETE")⟩ := by
      rw [sends_iff, herror]
      show _ ∈ (httpRespondError env.sendOk .methodNotAllowed _).sent
      rw [httpRespondError_eq _ _ _ (by decide)]
      exact List.mem_singleton.mpr rfl
    have hnames := h _ _ hsend rfl rfl m hm
    rw [allowNames_all] at hnames
    exact hnames.mp hm ((refused_read env mallocOk st server hopen _ req hread).1.mpr hout)

/-- **In open mode the Allow list of a 405 is true exactly for these requests.** -/
theorem allowLists_iff (token tail : Bytes) (ht : MethodToken token) (hs : tail.head? = some space) :
    AllowTrue env mallocOk st server token tail ↔ AllowHolds mallocOk token tail :=
  ⟨holds_of_allowTrue env mallocOk st server hopen token tail ht hs,
    allowTrue_of_holds env mallocOk st server hopen token tail ht hs⟩

end

/-- behind the method of a request for `/health` -/
def healthTail : Bytes := ascii " /health HTTP/1.1\r\n\r\n"

theorem healthTail_fits (token : Bytes) (ht : MethodToken token) : HeadersFit (token ++ healthTail) := by
  have hfind : findTerminator healthTail = some 17 := by decide +kernel
  refine ⟨token.length + 17, ?_, ?_⟩
  · rw [findTerminator_token token healthTail ht.noCr, hfind]
    rfl
  · have := ht.length
    have hmax : HTTP_MAX_HEADERS_SIZE = 16384 := rfl
    omega

/-- the list that PUT is told -/
theorem allowLists_health :
    AllowTrue (Env.quiet (Long.clamp 0) []) true Store.empty openServer (ascii "PUT") healthTail := by
  refine (allowLists_iff _ true _ openServer rfl (ascii "PUT") healthTail
    (methods_token _ (by decide)) (by decide)).mpr ⟨?_, fun hno => absurd (by decide) hno⟩
  intro req _ _ m hm _
  exact healthTail_fits m (methods_token m hm)

/-- the list that PATCH is told: it names PUT, which is refused as well -/
theorem allowLists_patch :
    ¬ AllowTrue (Env.quiet (Long.clamp 0) []) true Store.empty openServer (ascii "PATCH")
      healthTail := by
  have htoken : MethodToken (ascii "PATCH") :=
    ⟨by decide, by decide, by unfold Word; decide +kernel, by decide⟩
  have hput : ((readStream true (ascii "PUT" ++ healthTail)).toOption.map fun req =>
      decide (req.method ∈ (routeOf req.path.toCStr).methods)) = some false := by decide +kernel
  intro h
  have holds := holds_of_allowTrue _ true _ openServer rfl (ascii "PATCH") healthTail htoken
    (by decide) h
  cases hread : readStream true (ascii "PUT" ++ healthTail) with
  | error e =>
    rw [hread] at hput
    cases hput
  | ok req =>
    have hin := holds.unknown (by decide) (healthTail_fits _ htoken) (ascii "PUT") (by decide) req hread
    rw [hread] at hput
    exact absurd hin (of_decide_eq_false (Option.some.inj hput))

end CServer
