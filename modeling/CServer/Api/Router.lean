import CServer.Api.Dispatch

/-!
# The routes

* `Route`, `routeOf`      what the router makes of a path;
* `Route.handler`         what it runs there for each method;
* `apiRoute_eq`           the router is the authorisation check and then the route;
* `apiRoute_forHandlers`  what every handler has, every route has;
* `apiRoute_key`          the route of `/api/kv/:key`;
* `apiRoute_note`         the route of `/api/notes/:id`;
* `apiRoute_notes`        the route of `/api/notes`.
-/

namespace CServer

inductive Route where
  | root
  | health
  | metrics
  | echo
  | kvList
  | kvKey (key : CStr)
  | badKey
  | notes
  | note (id : Long)
  | badId
  | unknown
  deriving DecidableEq

/-- behind `dispatch_kv` -/
def kvRouteOf (path : CStr) : Route :=
  if path.bytes = ascii "/api/kv" ∨ path.bytes = ascii "/api/kv/" then .kvList
  else if (ascii "/api/kv/").isPrefixOf path.bytes = false then .unknown
  else if (47 : Byte) ∈ (path.drop 8).bytes ∨ storeValidateKey (path.drop 8) ≠ .ok then .badKey
  else .kvKey (path.drop 8)

/-- behind `dispatch_notes` -/
def notesRouteOf (path : CStr) : Route :=
  if path.bytes = ascii "/api/notes" ∨ path.bytes = ascii "/api/notes/" then .notes
  else
    match parseNoteId path with
    | .error .notFound => .unknown
    | .error _ => .badId
    | .ok id => .note id

def routeOf (path : CStr) : Route :=
  if path.bytes = ascii "/" ∨ path.bytes = ascii "/index.html" then .root
  else if path.bytes = ascii "/health" then .health
  else if path.bytes = ascii "/metrics" then .metrics
  else if path.bytes = ascii "/api/echo" then .echo
  else if (ascii "/api/kv").isPrefixOf path.bytes then kvRouteOf path
  else if (ascii "/api/notes").isPrefixOf path.bytes then notesRouteOf path
  else .unknown

/-- the Allow list beside the switch of the route -/
def Route.allow : Route → String
  | .echo => "POST"
  | .kvKey _ => "GET, PUT, DELETE"
  | .notes => "GET, POST"
  | .note _ => "GET, PUT, DELETE"
  | _ => "GET"

/-- what the switch of the route runs, `none` where it answers 405 -/
def Route.switch (env : Env) (req : HttpRequest) (server : Server) : Route → HttpMethod → Option Handler
  | .root, .get => some (handleRoot env.sendOk env.page)
  | .health, .get => some (handleHealth env.sendOk env.now server)
  | .metrics, .get => some (handleMetrics env.sendOk server)
  | .echo, .post => some (handleEcho env.sendOk req)
  | .kvList, .get => some (handleKvList env.sendOk req)
  | .kvKey key, .get => some (handleKvGet env.sendOk key)
  | .kvKey key, .put => some (handleKvPut env.sendOk req key)
  | .kvKey key, .delete => some (handleKvDel env.sendOk key)
  | .badKey, _ => some (.done (answerError env.sendOk .invalidKey
      "key must match [A-Za-z0-9._-]\x7b1,128\x7d"))
  | .notes, .post => some (handleNoteCreate env.sendOk req)
  | .notes, .get => some (handleNoteList env.sendOk req)
  | .note id, .get => some (handleNoteGet env.sendOk id)
  | .note id, .put => some (handleNoteUpdate env.sendOk req id)
  | .note id, .delete => some (handleNoteDel env.sendOk id)
  | .badId, _ => some (.done (answerError env.sendOk .invalidId "id must be a positive integer"))
  | .unknown, _ => some (.done (answerError env.sendOk .notFound "unknown route"))
  | _, _ => none

def Route.handler (env : Env) (req : HttpRequest) (server : Server) (route : Route) : Handler :=
  (route.switch env req server req.method).getD
    (.done (answerMethodNotAllowed env.sendOk route.allow))

/-! ## paths -/

theorem path_ne_of_begins (pfx path other : Bytes) (hp : pfx <+: path)
    (h : other.take pfx.length ≠ pfx) : path ≠ other := by
  intro he
  apply h
  rw [← he]
  exact (List.prefix_iff_eq_take.mp hp).symm

theorem isPrefixOf_false (pfx path : Bytes) (h : ¬ pfx <+: path) : pfx.isPrefixOf path = false :=
  Bool.eq_false_iff.mpr fun hb => h (List.isPrefixOf_iff_prefix.mp hb)

/-- two paths of different beginnings -/
theorem isPrefixOf_eq_false (pfx path other : Bytes) (hp : pfx <+: path)
    (hlen : other.length ≤ pfx.length) (h : ¬ other <+: pfx) : other.isPrefixOf path = false :=
  isPrefixOf_false _ _ fun hb => h (List.prefix_of_prefix_length_le hb hp hlen)

/-- a path that goes on behind `pfx` is none of the fixed ones -/
theorem not_root (path pfx : Bytes) (hp : pfx <+: path) (h1 : (ascii "/").take pfx.length ≠ pfx)
    (h2 : (ascii "/index.html").take pfx.length ≠ pfx) :
    ¬ (path = ascii "/" ∨ path = ascii "/index.html") :=
  not_or.mpr ⟨path_ne_of_begins _ _ _ hp h1, path_ne_of_begins _ _ _ hp h2⟩

theorem routeOf_kv (path : CStr) (hp : ascii "/api/kv" <+: path.bytes) :
    routeOf path = kvRouteOf path := by
  have hne : ∀ other : Bytes, other.take 7 ≠ ascii "/api/kv" → path.bytes ≠ other :=
    fun other h => path_ne_of_begins _ _ _ hp h
  unfold routeOf
  rw [if_neg (not_root _ _ hp (by decide) (by decide)), if_neg (hne _ (by decide)),
    if_neg (hne _ (by decide)), if_neg (hne _ (by decide)),
    if_pos (List.isPrefixOf_iff_prefix.mpr hp)]

theorem routeOf_notes (path : CStr) (hp : ascii "/api/notes" <+: path.bytes) :
    routeOf path = notesRouteOf path := by
  have hne : ∀ other : Bytes, other.take 10 ≠ ascii "/api/notes" → path.bytes ≠ other :=
    fun other h => path_ne_of_begins _ _ _ hp h
  have hkv : ¬ (ascii "/api/kv").isPrefixOf path.bytes = true := by
    rw [isPrefixOf_eq_false _ _ _ hp (by decide) (by decide)]
    decide
  unfold routeOf
  rw [if_neg (not_root _ _ hp (by decide) (by decide)), if_neg (hne _ (by decide)),
    if_neg (hne _ (by decide)), if_neg (hne _ (by decide)), if_neg hkv,
    if_pos (List.isPrefixOf_iff_prefix.mpr hp)]

theorem isApiWrite_path (req : HttpRequest) (h : isApiWrite req = true) :
    ascii "/api/" <+: req.path.bytes := by
  unfold isApiWrite at h
  exact List.isPrefixOf_iff_prefix.mp (Bool.and_eq_true_iff.mp h).2

/-! ## the router -/

theorem parseNoteId_error (path : CStr) (e : ApiError) (h : parseNoteId path = .error e) :
    e = .invalidId ∨ e = .notFound := by
  unfold parseNoteId at h
  simp only at h
  split_ifs at h
  · cases h
    exact .inl rfl
  · cases h
    exact .inr rfl
  · cases h
    exact .inl rfl

theorem dispatchKv_eq (env : Env) (req : HttpRequest) (server : Server) :
    dispatchKv env.sendOk req = (kvRouteOf req.path.toCStr).handler env req server := by
  unfold dispatchKv kvRouteOf
  by_cases hb : req.path.bytes = ascii "/api/kv" ∨ req.path.bytes = ascii "/api/kv/"
  · rw [if_pos hb, if_pos hb]
    unfold Route.handler
    cases req.method <;> rfl
  · rw [if_neg hb, if_neg hb]
    by_cases hp : (ascii "/api/kv/").isPrefixOf req.path.bytes = false
    · rw [if_pos hp, if_pos hp]
      rfl
    · rw [if_neg hp, if_neg hp]
      simp only
      by_cases hk : (47 : Byte) ∈ (req.path.drop 8).bytes ∨ storeValidateKey (req.path.drop 8) ≠ .ok
      · rw [if_pos hk, if_pos hk]
        rfl
      · rw [if_neg hk, if_neg hk]
        unfold Route.handler
        cases req.method <;> rfl

theorem dispatchNotes_eq (env : Env) (req : HttpRequest) (server : Server) :
    dispatchNotes env.sendOk req = (notesRouteOf req.path.toCStr).handler env req server := by
  unfold dispatchNotes notesRouteOf
  by_cases hb : req.path.bytes = ascii "/api/notes" ∨ req.path.bytes = ascii "/api/notes/"
  · rw [if_pos hb, if_pos hb]
    unfold Route.handler
    cases req.method <;> rfl
  · rw [if_neg hb, if_neg hb]
    cases hid : parseNoteId req.path.toCStr with
    | error e =>
      rcases parseNoteId_error _ e hid with rfl | rfl
      · rfl
      · rfl
    | ok id =>
      unfold Route.handler
      cases req.method <;> rfl

theorem apiRoutes_eq (env : Env) (req : HttpRequest) (server : Server)
    (hroot : ¬ (req.path.bytes = ascii "/" ∨ req.path.bytes = ascii "/index.html")) :
    apiRoutes env req server = (routeOf req.path.toCStr).handler env req server := by
  unfold apiRoutes routeOf
  rw [if_neg hroot]
  by_cases hhealth : req.path.bytes = ascii "/health"
  · rw [if_pos hhealth, if_pos hhealth]
    unfold Route.handler
    cases req.method <;> rfl
  · rw [if_neg hhealth, if_neg hhealth]
    by_cases hmetrics : req.path.bytes = ascii "/metrics"
    · rw [if_pos hmetrics, if_pos hmetrics]
      unfold Route.handler
      cases req.method <;> rfl
    · rw [if_neg hmetrics, if_neg hmetrics]
      by_cases hecho : req.path.bytes = ascii "/api/echo"
      · rw [if_pos hecho, if_pos hecho]
        unfold Route.handler
        cases req.method <;> rfl
      · rw [if_neg hecho, if_neg hecho]
        by_cases hkv : (ascii "/api/kv").isPrefixOf req.path.bytes = true
        · rw [if_pos hkv, if_pos hkv, dispatchKv_eq env req server]
        · rw [if_neg hkv, if_neg hkv]
          by_cases hnotes : (ascii "/api/notes").isPrefixOf req.path.bytes = true
          · rw [if_pos hnotes, if_pos hnotes, dispatchNotes_eq env req server]
          · rw [if_neg hnotes, if_neg hnotes]
            rfl

/-- **The router makes the authorisation check, and then runs what path and method name.** -/
theorem apiRoute_eq (env : Env) (req : HttpRequest) (server : Server) :
    apiRoute env req server =
      if isApiWrite req ∧ serverAuthCheck server req ≠ .ok then
        .done (answerError env.sendOk (serverAuthCheck server req)
          (if serverAuthCheck server req = .unauthorized then "missing X-API-Key header"
            else "invalid API key"))
      else (routeOf req.path.toCStr).handler env req server := by
  unfold apiRoute
  by_cases hroot : req.path.bytes = ascii "/" ∨ req.path.bytes = ascii "/index.html"
  · have hplain : ¬ (isApiWrite req ∧ serverAuthCheck server req ≠ .ok) := fun h =>
      not_root _ _ (isApiWrite_path req h.1) (by decide) (by decide) hroot
    have hroute : routeOf req.path.toCStr = .root := if_pos hroot
    rw [if_pos hroot, if_neg hplain, hroute]
    unfold Route.handler
    cases req.method <;> rfl
  · rw [if_neg hroot, apiRoutes_eq env req server hroot]

/-- the authorisation check does not turn the request away -/
def Authorised (server : Server) (req : HttpRequest) : Prop :=
  isApiWrite req = true → serverAuthCheck server req = .ok

theorem apiRoute_authorised (env : Env) (req : HttpRequest) (server : Server)
    (h : Authorised server req) :
    apiRoute env req server = (routeOf req.path.toCStr).handler env req server := by
  rw [apiRoute_eq, if_neg fun hno => hno.2 (h hno.1)]

/-- what a request is told that is turned away -/
theorem apiRoute_turnedAway (env : Env) (req : HttpRequest) (server : Server)
    (hw : isApiWrite req = true) (hauth : serverAuthCheck server req ≠ .ok) :
    ∃ detail, apiRoute env req server =
      .done (answerError env.sendOk (serverAuthCheck server req) detail) := by
  rw [apiRoute_eq, if_pos ⟨hw, hauth⟩]
  exact ⟨_, rfl⟩

/-! ## every route -/

/-- `P` holds of the ends that the router writes itself and of each handler. -/
structure ForHandlers (P : Handler → Prop) (env : Env) (req : HttpRequest) (server : Server) :
    Prop where
  error : ∀ e detail, e ≠ .ok → P (.done (answerError env.sendOk e detail))
  methodNotAllowed : ∀ allow ∈ ["GET", "POST", "GET, POST", "GET, PUT, DELETE"],
    P (.done (answerMethodNotAllowed env.sendOk allow))
  root : P (handleRoot env.sendOk env.page)
  health : P (handleHealth env.sendOk env.now server)
  metrics : P (handleMetrics env.sendOk server)
  echo : P (handleEcho env.sendOk req)
  kvList : P (handleKvList env.sendOk req)
  kvGet : ∀ key, P (handleKvGet env.sendOk key)
  kvPut : ∀ key, P (handleKvPut env.sendOk req key)
  kvDel : ∀ key, P (handleKvDel env.sendOk key)
  noteCreate : P (handleNoteCreate env.sendOk req)
  noteList : P (handleNoteList env.sendOk req)
  noteGet : ∀ id, P (handleNoteGet env.sendOk id)
  noteUpdate : ∀ id, P (handleNoteUpdate env.sendOk req id)
  noteDel : ∀ id, P (handleNoteDel env.sendOk id)

theorem Route.allow_mem (route : Route) :
    route.allow ∈ ["GET", "POST", "GET, POST", "GET, PUT, DELETE"] := by
  cases route <;> simp [Route.allow]

section
variable {P : Handler → Prop} {env : Env} {req : HttpRequest} {server : Server}

theorem Route.switch_forHandlers (h : ForHandlers P env req server) (route : Route) (m : HttpMethod)
    (handler : Handler) (hs : route.switch env req server m = some handler) : P handler := by
  cases route with
  | root =>
    cases m <;> cases hs
    exact h.root
  | health =>
    cases m <;> cases hs
    exact h.health
  | metrics =>
    cases m <;> cases hs
    exact h.metrics
  | echo =>
    cases m <;> cases hs
    exact h.echo
  | kvList =>
    cases m <;> cases hs
    exact h.kvList
  | kvKey key =>
    cases m <;> cases hs
    · exact h.kvGet key
    · exact h.kvPut key
    · exact h.kvDel key
  | badKey =>
    cases hs
    exact h.error _ _ (by decide)
  | notes =>
    cases m <;> cases hs
    · exact h.noteList
    · exact h.noteCreate
  | note id =>
    cases m <;> cases hs
    · exact h.noteGet id
    · exact h.noteUpdate id
    · exact h.noteDel id
  | badId =>
    cases hs
    exact h.error _ _ (by decide)
  | unknown =>
    cases hs
    exact h.error _ _ (by decide)

/-- **What every handler has, every route has.** -/
theorem apiRoute_forHandlers (h : ForHandlers P env req server) : P (apiRoute env req server) := by
  rw [apiRoute_eq]
  split
  · next hauth => exact h.error _ _ hauth.2
  · unfold Route.handler
    cases hs : (routeOf req.path.toCStr).switch env req server req.method with
    | none => exact h.methodNotAllowed _ (Route.allow_mem _)
    | some handler => exact Route.switch_forHandlers h _ _ handler hs

end

/-! ## the routes of a key, of a note and of the notes -/

theorem parseNoteId_path (path : CStr) (id : Long) (h : parseNoteId path = .ok id) :
    ascii "/api/notes/" <+: path.bytes ∧ path.bytes.drop 11 ≠ [] ∧ 0 < id.val := by
  unfold parseNoteId at h
  by_cases h1 : (ascii "/api/notes/").isPrefixOf path.bytes = false ∨ path.bytes.drop 11 = []
  · rw [if_pos h1] at h
    cases h
  · rw [if_neg h1] at h
    rw [not_or, Bool.not_eq_false] at h1
    refine ⟨List.isPrefixOf_iff_prefix.mp h1.1, h1.2, ?_⟩
    simp only at h
    split_ifs at h
    cases h
    omega

theorem routeOf_key (path key : CStr) (hpath : path.bytes = ascii "/api/kv/" ++ key.bytes)
    (hkey : storeValidateKey key = .ok) (hslash : (47 : Byte) ∉ key.bytes) :
    routeOf path = .kvKey key := by
  have hp : ascii "/api/kv/" <+: path.bytes := ⟨key.bytes, hpath.symm⟩
  have hdrop : path.drop 8 = key := by
    apply CStr.ext'
    rw [CStr.drop_bytes, hpath]
    exact List.drop_left' (by decide)
  have hbase : ¬ (path.bytes = ascii "/api/kv" ∨ path.bytes = ascii "/api/kv/") := by
    rintro (h | h)
    · exact path_ne_of_begins _ _ _ hp (by decide) h
    · rw [hpath] at h
      have hnil : key.bytes = [] := by simpa using h
      unfold storeValidateKey at hkey
      rw [if_pos hnil] at hkey
      cases hkey
  have hkv : ¬ (ascii "/api/kv/").isPrefixOf path.bytes = false := by
    rw [List.isPrefixOf_iff_prefix.mpr hp]
    decide
  rw [routeOf_kv path (List.IsPrefix.trans (by decide) hp)]
  unfold kvRouteOf
  rw [if_neg hbase, if_neg hkv, hdrop, if_neg fun h => h.elim hslash (fun h => h hkey)]

theorem routeOf_note (path : CStr) (id : Long) (hid : parseNoteId path = .ok id) :
    routeOf path = .note id := by
  obtain ⟨hp, hrest, _⟩ := parseNoteId_path _ _ hid
  have hbase : ¬ (path.bytes = ascii "/api/notes" ∨ path.bytes = ascii "/api/notes/") := by
    rintro (h | h)
    · exact path_ne_of_begins _ _ _ hp (by decide) h
    · rw [h] at hrest
      exact hrest (by decide)
  rw [routeOf_notes path (List.IsPrefix.trans (by decide) hp)]
  unfold notesRouteOf
  rw [if_neg hbase, hid]

theorem routeOf_base (path : CStr)
    (hpath : path.bytes = ascii "/api/notes" ∨ path.bytes = ascii "/api/notes/") :
    routeOf path = .notes := by
  have hp : ascii "/api/notes" <+: path.bytes := by
    rcases hpath with h | h
    · rw [h]
    · rw [h]
      decide
  rw [routeOf_notes path hp]
  exact if_pos hpath

theorem apiRoute_key (env : Env) (req : HttpRequest) (server : Server) (key : CStr)
    (hpath : req.path.bytes = ascii "/api/kv/" ++ key.bytes) (hkey : storeValidateKey key = .ok)
    (hslash : (47 : Byte) ∉ key.bytes) (hauth : Authorised server req) :
    apiRoute env req server =
      match req.method with
      | .get => handleKvGet env.sendOk key
      | .put => handleKvPut env.sendOk req key
      | .delete => handleKvDel env.sendOk key
      | _ => .done (answerMethodNotAllowed env.sendOk "GET, PUT, DELETE") := by
  rw [apiRoute_authorised env req server hauth, routeOf_key req.path.toCStr key hpath hkey hslash]
  unfold Route.handler
  cases req.method <;> rfl

theorem apiRoute_note (env : Env) (req : HttpRequest) (server : Server) (id : Long)
    (hid : parseNoteId req.path.toCStr = .ok id) (hauth : Authorised server req) :
    apiRoute env req server =
      match req.method with
      | .get => handleNoteGet env.sendOk id
      | .put => handleNoteUpdate env.sendOk req id
      | .delete => handleNoteDel env.sendOk id
      | _ => .done (answerMethodNotAllowed env.sendOk "GET, PUT, DELETE") := by
  rw [apiRoute_authorised env req server hauth, routeOf_note req.path.toCStr id hid]
  unfold Route.handler
  cases req.method <;> rfl

theorem apiRoute_notes (env : Env) (req : HttpRequest) (server : Server)
    (hpath : req.path.bytes = ascii "/api/notes" ∨ req.path.bytes = ascii "/api/notes/")
    (hauth : Authorised server req) :
    apiRoute env req server =
      match req.method with
      | .post => handleNoteCreate env.sendOk req
      | .get => handleNoteList env.sendOk req
      | _ => .done (answerMethodNotAllowed env.sendOk "GET, POST") := by
  rw [apiRoute_authorised env req server hauth, routeOf_base req.path.toCStr hpath]
  unfold Route.handler
  cases req.method <;> rfl

end CServer
