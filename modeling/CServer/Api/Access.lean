import CServer.Api.Effects

/-!
# Who may change the store

* `WriteTarget`             the five writing handlers;
* `pathTarget`              the one that the method and the path of a request name;
* `writeTarget`             the same for a request that passes the authorisation check;
* `pathTarget_eq`           the target is that of the route;
* `apiRoute_cases`          a request reaches its write target, is turned away, or only reads;
* `apiDispatch_protected`   protected mode: who may change the store, and what the others are told.
-/

namespace CServer

inductive WriteTarget where
  | kvPut (key : CStr)
  | kvDel (key : CStr)
  | noteCreate
  | noteUpdate (id : Long)
  | noteDel (id : Long)
  deriving DecidableEq

def WriteTarget.handler (sendOk : Bool) (req : HttpRequest) : WriteTarget → Handler
  | .kvPut key => handleKvPut sendOk req key
  | .kvDel key => handleKvDel sendOk key
  | .noteCreate => handleNoteCreate sendOk req
  | .noteUpdate id => handleNoteUpdate sendOk req id
  | .noteDel id => handleNoteDel sendOk id

/-- behind `dispatch_kv` -/
def kvTarget (req : HttpRequest) : Option WriteTarget :=
  if req.path.bytes = ascii "/api/kv" ∨ req.path.bytes = ascii "/api/kv/" then none
  else if (ascii "/api/kv/").isPrefixOf req.path.bytes = false then none
  else
    let key := req.path.drop 8
    if (47 : Byte) ∈ key.bytes ∨ storeValidateKey key ≠ .ok then none
    else
      match req.method with
      | .put => some (.kvPut key)
      | .delete => some (.kvDel key)
      | _ => none

/-- behind `dispatch_notes` -/
def notesTarget (req : HttpRequest) : Option WriteTarget :=
  if req.path.bytes = ascii "/api/notes" ∨ req.path.bytes = ascii "/api/notes/" then
    if req.method = .post then some .noteCreate else none
  else
    match parseNoteId req.path.toCStr with
    | .error _ => none
    | .ok id =>
      match req.method with
      | .put => some (.noteUpdate id)
      | .delete => some (.noteDel id)
      | _ => none

def pathTarget (req : HttpRequest) : Option WriteTarget :=
  if (ascii "/api/kv").isPrefixOf req.path.bytes then kvTarget req
  else if (ascii "/api/notes").isPrefixOf req.path.bytes then notesTarget req
  else none

def writeTarget (server : Server) (req : HttpRequest) : Option WriteTarget :=
  if serverAuthCheck server req = .ok then pathTarget req else none

theorem WriteTarget.handler_plain (t : WriteTarget) (sendOk : Bool) (req : HttpRequest) :
    PlainHandler (t.handler sendOk req) := by
  cases t with
  | kvPut key => exact (handleKvPut_ends (plainEnds _) _ _).plain
  | kvDel key => exact (handleKvDel_ends (plainEnds _) _).plain
  | noteCreate => exact (handleNoteCreate_ends (plainEnds _) _).plain
  | noteUpdate id => exact (handleNoteUpdate_ends (plainEnds _) _ _).plain
  | noteDel id => exact (handleNoteDel_ends (plainEnds _) _).plain

/-! ## the target of a route -/

/-- the write that the method names at the route -/
def Route.target : Route → HttpMethod → Option WriteTarget
  | .kvKey key, .put => some (.kvPut key)
  | .kvKey key, .delete => some (.kvDel key)
  | .notes, .post => some .noteCreate
  | .note id, .put => some (.noteUpdate id)
  | .note id, .delete => some (.noteDel id)
  | _, _ => none

theorem kvTarget_eq (req : HttpRequest) :
    kvTarget req = (kvRouteOf req.path.toCStr).target req.method := by
  unfold kvTarget kvRouteOf
  by_cases hb : req.path.bytes = ascii "/api/kv" ∨ req.path.bytes = ascii "/api/kv/"
  · rw [if_pos hb, if_pos hb]
    rfl
  · rw [if_neg hb, if_neg hb]
    by_cases hp : (ascii "/api/kv/").isPrefixOf req.path.bytes = false
    · rw [if_pos hp, if_pos hp]
      rfl
    · rw [if_neg hp, if_neg hp]
      simp only
      by_cases hk : (47 : Byte) ∈ (req.path.drop 8).bytes ∨ storeValidateKey (req.path.drop 8) ≠ .ok
      · rw [if_pos hk, if_pos hk]
        rfl
      · rw [if_neg hk, if_neg hk]
        cases req.method <;> rfl

theorem notesTarget_eq (req : HttpRequest) :
    notesTarget req = (notesRouteOf req.path.toCStr).target req.method := by
  unfold notesTarget notesRouteOf
  by_cases hb : req.path.bytes = ascii "/api/notes" ∨ req.path.bytes = ascii "/api/notes/"
  · rw [if_pos hb, if_pos hb]
    cases req.method <;> rfl
  · rw [if_neg hb, if_neg hb]
    cases hid : parseNoteId req.path.toCStr with
    | error e =>
      rcases parseNoteId_error _ e hid with rfl | rfl
      · rfl
      · rfl
    | ok id => cases req.method <;> rfl

/-- **The target of a request is that of its route.** -/
theorem pathTarget_eq (req : HttpRequest) :
    pathTarget req = (routeOf req.path.toCStr).target req.method := by
  unfold pathTarget
  by_cases hkv : (ascii "/api/kv").isPrefixOf req.path.bytes = true
  · rw [if_pos hkv, routeOf_kv req.path.toCStr (List.isPrefixOf_iff_prefix.mp hkv), kvTarget_eq]
  · rw [if_neg hkv]
    by_cases hnotes : (ascii "/api/notes").isPrefixOf req.path.bytes = true
    · rw [if_pos hnotes, routeOf_notes req.path.toCStr (List.isPrefixOf_iff_prefix.mp hnotes),
        notesTarget_eq]
    · rw [if_neg hnotes]
      unfold routeOf
      rw [if_neg hkv, if_neg hnotes]
      split_ifs <;> rfl

/-! ## what the handler of a route does -/

/-- The handler `h` is the write target `t`, or there is none and `h` only reads. -/
def Reaches (sendOk : Bool) (req : HttpRequest) (h : Handler) : Option WriteTarget → Prop
  | some t => h = t.handler sendOk req ∧ (req.method = .post ∨ req.method = .put ∨ req.method = .delete)
  | none => Reader h

theorem reader_error (sendOk : Bool) (e : ApiError) (detail : String) (h : Plain e) :
    Reader (.done (answerError sendOk e detail)) := h

theorem reader_methodNotAllowed (sendOk : Bool) (allow : String) :
    Reader (.done (answerMethodNotAllowed sendOk allow)) := ⟨rfl⟩

theorem Route.switch_reaches (env : Env) (req : HttpRequest) (server : Server) (route : Route)
    (m : HttpMethod) (hm : req.method = m) (h : Handler)
    (hs : route.switch env req server m = some h) : Reaches env.sendOk req h (route.target m) := by
  have ends := plainEnds env.sendOk
  cases route with
  | root =>
    cases m <;> cases hs
    exact answerWith_plain _ _
  | health =>
    cases m <;> cases hs
    exact ends.printed _ _ (by decide)
  | metrics =>
    cases m <;> cases hs
    exact (handleMetrics_ends ends _).plain
  | echo =>
    cases m <;> cases hs
    exact (handleEcho_ends ends _).plain
  | kvList =>
    cases m <;> cases hs
    exact (handleKvList_ends ends _).plain
  | kvKey key =>
    cases m <;> cases hs
    · exact (handleKvGet_ends ends _).plain
    · exact ⟨rfl, .inr (.inl hm)⟩
    · exact ⟨rfl, .inr (.inr hm)⟩
  | badKey =>
    cases hs
    exact reader_error _ _ _ ⟨rfl⟩
  | notes =>
    cases m <;> cases hs
    · exact (handleNoteList_ends ends _).plain
    · exact ⟨rfl, .inl hm⟩
  | note id =>
    cases m <;> cases hs
    · exact (handleNoteGet_ends ends _).plain
    · exact ⟨rfl, .inr (.inl hm)⟩
    · exact ⟨rfl, .inr (.inr hm)⟩
  | badId =>
    cases hs
    exact reader_error _ _ _ ⟨rfl⟩
  | unknown =>
    cases hs
    exact reader_error _ _ _ ⟨rfl⟩

/-- where the switch has no case there is nothing to write -/
theorem Route.target_none (env : Env) (req : HttpRequest) (server : Server) (route : Route)
    (m : HttpMethod) (hs : route.switch env req server m = none) : route.target m = none := by
  cases route with
  | kvKey key => cases m <;> first | rfl | cases hs
  | notes => cases m <;> first | rfl | cases hs
  | note id => cases m <;> first | rfl | cases hs
  | _ => rfl

theorem Route.handler_reaches (env : Env) (req : HttpRequest) (server : Server) (route : Route) :
    Reaches env.sendOk req (route.handler env req server) (route.target req.method) := by
  unfold Route.handler
  cases hs : route.switch env req server req.method with
  | none =>
    rw [Route.target_none env req server route _ hs]
    exact reader_methodNotAllowed _ _
  | some h => exact Route.switch_reaches env req server route _ rfl h hs

/-- a target lies under `/api/` -/
theorem pathTarget_api (req : HttpRequest) (t : WriteTarget) (h : pathTarget req = some t) :
    (ascii "/api/").isPrefixOf req.path.bytes = true := by
  have key : ∀ p : Bytes, (ascii "/api/") <+: p → p.isPrefixOf req.path.bytes = true →
      (ascii "/api/").isPrefixOf req.path.bytes = true := by
    intro p hp hr
    exact List.isPrefixOf_iff_prefix.mpr (hp.trans (List.isPrefixOf_iff_prefix.mp hr))
  unfold pathTarget at h
  split_ifs at h with h1 h2
  · exact key _ (by decide) h1
  · exact key _ (by decide) h2

/-- **What a request can reach.** -/
theorem apiRoute_cases (env : Env) (req : HttpRequest) (server : Server) :
    (∃ t, writeTarget server req = some t ∧ serverAuthCheck server req = .ok ∧
      isApiWrite req = true ∧ (req.method = .post ∨ req.method = .put ∨ req.method = .delete) ∧
      apiRoute env req server = t.handler env.sendOk req) ∨
    (writeTarget server req = none ∧
      ((isApiWrite req = true ∧ serverAuthCheck server req ≠ .ok ∧
        ∃ detail, apiRoute env req server =
          .done (answerError env.sendOk (serverAuthCheck server req) detail)) ∨
      ((isApiWrite req = true → serverAuthCheck server req = .ok) ∧
        Reader (apiRoute env req server)))) := by
  by_cases ha : isApiWrite req ∧ serverAuthCheck server req ≠ .ok
  · exact .inr ⟨if_neg ha.2, .inl ⟨ha.1, ha.2, apiRoute_turnedAway env req server ha.1 ha.2⟩⟩
  · have hok : Authorised server req := by
      intro h
      by_contra hne
      exact ha ⟨h, hne⟩
    have hreach := Route.handler_reaches env req server (routeOf req.path.toCStr)
    rw [← pathTarget_eq] at hreach
    rw [apiRoute_authorised env req server hok]
    cases ht : pathTarget req with
    | none =>
      rw [ht] at hreach
      refine .inr ⟨?_, .inr ⟨hok, hreach⟩⟩
      unfold writeTarget
      rw [ht, ite_self]
    | some t =>
      rw [ht] at hreach
      obtain ⟨he, hm⟩ := hreach
      have hw : isApiWrite req = true := by
        unfold isApiWrite
        rw [pathTarget_api req t ht, Bool.and_true]
        rcases hm with h | h | h <;> rw [h] <;> rfl
      refine .inl ⟨t, ?_, hok hw, hw, hm, he⟩
      unfold writeTarget
      rw [if_pos (hok hw), ht]

/-! ## protected mode -/

/-- without a write target the store stays as it is -/
theorem apiDispatch_noTarget (env : Env) (req : HttpRequest) (st : Store) (server : Server)
    (h : writeTarget server req = none) : (apiDispatch env req st server).2 = st := by
  rcases apiRoute_cases env req server with ⟨t, ht, _⟩ | ⟨_, ⟨_, _, detail, he⟩ | ⟨_, hr⟩⟩
  · rw [h] at ht
    cases ht
  · unfold apiDispatch
    rw [he]
    rfl
  · exact hr.store env st

theorem apiDispatch_get (env : Env) (req : HttpRequest) (st : Store) (server : Server)
    (h : req.method = .get) : (apiDispatch env req st server).2 = st := by
  apply apiDispatch_noTarget
  rcases apiRoute_cases env req server with ⟨t, _, _, _, hm, _⟩ | ⟨hn, _⟩
  · rw [h] at hm
    rcases hm with hm | hm | hm <;> cases hm
  · exact hn

/-- what a write under `/api/` is told: the error of the check, or one of another kind -/
theorem apiDispatch_auth (env : Env) (req : HttpRequest) (st : Store) (server : Server)
    (hw : isApiWrite req = true) :
    (serverAuthCheck server req ≠ .ok →
      (apiDispatch env req st server).1.result = serverAuthCheck server req) ∧
    (serverAuthCheck server req = .ok → Plain (apiDispatch env req st server).1.result) := by
  unfold apiDispatch
  rcases apiRoute_cases env req server with
    ⟨t, _, ha, _, _, he⟩ | ⟨_, ⟨_, hn, detail, he⟩ | ⟨ha, hr⟩⟩
  · rw [he]
    exact ⟨fun h => absurd ha h, fun _ => (t.handler_plain _ _).result env st⟩
  · rw [he]
    exact ⟨fun _ => rfl, fun h => absurd h hn⟩
  · exact ⟨fun h => absurd (ha hw) h, fun _ => hr.plain.result env st⟩

theorem serverCreate_protected (key : CStr) (startTime : Long) (server : Server)
    (hkey : key.bytes ≠ []) (h : serverCreate (some key) startTime = some server) :
    serverAuthEnabled server = true ∧ server.apiKey.bytes = key.bytes := by
  unfold serverCreate at h
  by_cases hv : configKeyValid (some key) = true
  · rw [if_pos hv] at h
    have hlen : key.length < HTTP_MAX_API_KEY_LEN := by
      have h1 : (!decide (key.length ≥ HTTP_MAX_API_KEY_LEN)) = true := hv
      simpa using h1
    have hs : key.bytes.length < HTTP_MAX_API_KEY_LEN := hlen
    have hb : server.apiKey.bytes = key.bytes := by
      cases h
      show key.bytes.take _ = _
      exact List.take_of_length_le (by omega)
    refine ⟨?_, hb⟩
    unfold serverAuthEnabled
    rw [hb]
    simpa using hkey
  · rw [if_neg hv] at h
    cases h

/-- What a write under `/api/` is told by a server with the key `key`. -/
theorem apiDispatch_checked (key : Bytes) (server : Server) (env : Env) (req : HttpRequest)
    (st : Store) (hcheck : serverAuthCheck server req =
      if req.apiKey.bytes = [] then .unauthorized
      else if req.apiKey.bytes = key then .ok else .forbidden) (hw : isApiWrite req = true) :
    ((apiDispatch env req st server).1.result = .unauthorized ↔ req.apiKey.bytes = []) ∧
    ((apiDispatch env req st server).1.result = .forbidden ↔
      req.apiKey.bytes ≠ [] ∧ req.apiKey.bytes ≠ key) ∧
    ((apiDispatch env req st server).1.result = .unauthorized ∨
      (apiDispatch env req st server).1.result = .forbidden →
        (apiDispatch env req st server).2 = st) := by
  have hauth := apiDispatch_auth env req st server hw
  have hstore : serverAuthCheck server req ≠ .ok → (apiDispatch env req st server).2 = st := by
    intro h
    apply apiDispatch_noTarget
    exact if_neg h
  by_cases h1 : req.apiKey.bytes = []
  · rw [if_pos h1] at hcheck
    rw [hcheck] at hauth hstore
    have hr := hauth.1 (by decide)
    rw [hr]
    exact ⟨by simp [h1], by simp [h1], fun _ => hstore (by decide)⟩
  · rw [if_neg h1] at hcheck
    by_cases h2 : req.apiKey.bytes = key
    · rw [if_pos h2] at hcheck
      have hp := (hauth.2 hcheck).eq_false
      have hu : (apiDispatch env req st server).1.result ≠ .unauthorized := by
        intro h
        rw [h] at hp
        cases hp
      have hf : (apiDispatch env req st server).1.result ≠ .forbidden := by
        intro h
        rw [h] at hp
        cases hp
      exact ⟨⟨fun h => absurd h hu, fun h => absurd h h1⟩,
        ⟨fun h => absurd h hf, fun h => absurd h2 h.2⟩,
        fun h => (h.elim hu hf).elim⟩
    · rw [if_neg h2] at hcheck
      rw [hcheck] at hauth hstore
      have hr := hauth.1 (by decide)
      rw [hr]
      exact ⟨by simp [h1], by simp [h1, h2], fun _ => hstore (by decide)⟩

/-- **Protected mode.**  Only an authorised POST, PUT or DELETE changes the store; the other
writes under `/api/` are answered 401 without a key and 403 with a wrong one. -/
theorem apiDispatch_protected (key : CStr) (startTime : Long) (created server : Server)
    (hkey : key.bytes ≠ []) (hcreate : serverCreate (some key) startTime = some created)
    (hserver : server.apiKey = created.apiKey) (env : Env) (req : HttpRequest) (st : Store) :
    let run := apiDispatch env req st server
    (run.2 ≠ st → (req.method = .post ∨ req.method = .put ∨ req.method = .delete) ∧
      req.apiKey.bytes = key.bytes) ∧
    (isApiWrite req = true →
      (run.1.result = .unauthorized ↔ req.apiKey.bytes = []) ∧
      (run.1.result = .forbidden ↔ req.apiKey.bytes ≠ [] ∧ req.apiKey.bytes ≠ key.bytes) ∧
      (run.1.result = .unauthorized ∨ run.1.result = .forbidden → run.2 = st)) ∧
    (req.method = .get → run.2 = st ∧ ∀ other : Server, (apiDispatch env req st other).2 = st) := by
  have hb := serverCreate_protected key startTime created hkey hcreate
  have hen : serverAuthEnabled server = true := by
    unfold serverAuthEnabled
    rw [hserver]
    exact hb.1
  have hk : server.apiKey.bytes = key.bytes := by
    rw [hserver]
    exact hb.2
  have hcheck := serverAuthCheck_protected server req hen
  rw [hk] at hcheck
  refine ⟨fun hne => ?_, fun hw => ?_, fun hg =>
    ⟨apiDispatch_get env req st server hg, fun other => apiDispatch_get env req st other hg⟩⟩
  · rcases apiRoute_cases env req server with ⟨t, _, ha, _, hm, _⟩ | ⟨hn, _⟩
    · refine ⟨hm, ?_⟩
      rw [ha] at hcheck
      split_ifs at hcheck with h1 h2
      exact h2
    · exact absurd (apiDispatch_noTarget env req st server hn) hne
  · exact apiDispatch_checked key.bytes server env req st hcheck hw

/-- a server with the key `secret`, as it is created at time 0 -/
def secretServer : Server where
  apiKey := CBuf.print _ apiKeyLen_pos (.lit "secret")
  startTime := Long.clamp 0
  stats := ⟨0, 0, 0, 0, 0⟩

/-- a server without a key, as it is created at time 0 -/
def openServer : Server where
  apiKey := CBuf.empty _ apiKeyLen_pos
  startTime := Long.clamp 0
  stats := ⟨0, 0, 0, 0, 0⟩

/-- `DELETE /api/kv/a` with the key `guess` -/
def guessRequest : HttpRequest :=
  { HttpRequest.zero with
    method := .delete
    path := CBuf.print _ pathLen_pos (.lit "/api/kv/a")
    apiKey := CBuf.print _ apiKeyLen_pos (.lit "guess") }

theorem apiDispatch_protected_guess :
    (apiDispatch (Env.quiet (Long.clamp 0) []) guessRequest Store.empty secretServer).1.result
      = .forbidden :=
  ((apiDispatch_protected (.lit "secret") (Long.clamp 0) secretServer secretServer (by decide) rfl
    rfl (Env.quiet (Long.clamp 0) []) guessRequest Store.empty).2.1 rfl).2.1.mpr
    ⟨by decide, by decide⟩

end CServer
