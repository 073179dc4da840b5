import CServer.Api.Access

/-!
# Known and unknown routes

* `Ordinary`              an answer that is neither a 405 nor the 404 of an unknown route;
* `Route.switch_ordinary` each handler of a known route answers so;
* `unknownRoutes_iff`     which paths are answered 404.
-/

namespace CServer

/-! ## answers of the handlers -/

/-- the 404 of an unknown route -/
def UnknownRoute (r : Response) : Prop :=
  r.status = 404 ∧ r.body = errorBody .notFound (ascii "unknown route")

/-- neither a 405 nor the 404 of an unknown route -/
def Ordinary (a : Answer) : Prop := ∀ r ∈ a.sent, r.status ≠ 405 ∧ ¬ UnknownRoute r

/-- of the handlers and of the store, without the one for the method -/
def Failure (e : ApiError) : Prop := e ≠ .ok ∧ e ≠ .methodNotAllowed

theorem HandlerError.failure {e : ApiError} (h : HandlerError e) : Failure e := by
  constructor
  · rintro rfl
    exact absurd h (by decide)
  · rintro rfl
    exact absurd h (by decide)

theorem StoreError.failure {e : ApiError} (h : StoreError e) : Failure e := by
  refine ⟨h.ne_ok, ?_⟩
  rintro rfl
  exact absurd h (by decide)

theorem apiErrorStatus_eq_405 (e : ApiError) (h : apiErrorStatus e = 405) : e = .methodNotAllowed := by
  cases e
  all_goals first
    | rfl
    | exact absurd h (by decide)

theorem apiErrorStatus_eq_404 (e : ApiError) (h : apiErrorStatus e = 404) : e = .notFound := by
  cases e
  all_goals first
    | rfl
    | exact absurd h (by decide)

theorem storeDetails_known : ∀ detail ∈ storeDetails,
    errorBody .notFound (ascii detail) ≠ errorBody .notFound (ascii "unknown route") := by
  decide

theorem answerError_ordinary (sendOk : Bool) (e : ApiError) (detail : String) (he : Failure e)
    (hd : e = .notFound → detail ∈ storeDetails) : Ordinary (answerError sendOk e detail) := by
  intro r hr
  unfold answerError at hr
  rw [httpRespondError_eq _ _ _ he.1] at hr
  obtain rfl := List.mem_singleton.mp hr
  refine ⟨fun h => he.2 (apiErrorStatus_eq_405 e h), fun h => ?_⟩
  have hn := apiErrorStatus_eq_404 e h.1
  have hbody := h.2
  rw [hn] at hbody
  exact storeDetails_known detail (hd hn) hbody

theorem answerWith_ordinary (sendOk : Bool) (r : Response) (h405 : r.status ≠ 405)
    (h404 : r.status ≠ 404) : Ordinary (answerWith sendOk r) := by
  intro r' hr'
  unfold answerWith httpRespond at hr'
  simp only at hr'
  split_ifs at hr'
  · cases hr'
  · obtain rfl := List.mem_singleton.mp hr'
    exact ⟨h405, fun h => h404 h.1⟩

theorem ordinaryEnds (sendOk : Bool) : Ends Failure (fun _ => True) Ordinary sendOk where
  handler := fun _ h => h.failure
  short := fun _ _ => True.intro
  error := answerError_ordinary sendOk
  json := by
    intro status body hs _
    apply answerWith_ordinary
    · show status ≠ 405
      omega
    · show status ≠ 404
      omega

/-- the store's own errors are failures -/
theorem StoreCall.exec_failure (fault : SqlFault × SqlFault) (now : Long) (c : StoreCall)
    (st : Store) : c.Gives Failure (fun _ => True) (c.exec fault now st).1 :=
  (c.exec_gives fault now st).mono fun _ h => h.failure

abbrev OrdinaryHandler (h : Handler) : Prop := EndsIn (fun _ => True) Failure (fun _ => True) Ordinary h

theorem EndsIn.ordinary {Q : StoreCall → Prop} {h : Handler}
    (he : EndsIn Q Failure (fun _ => True) Ordinary h) : OrdinaryHandler h :=
  Program.Within.mono (fun _ _ => True.intro) (fun _ _ hg => hg) (fun _ ha => ha) he

theorem OrdinaryHandler.serve {h : Handler} (ho : OrdinaryHandler h) (env : Env) (st : Store) :
    Ordinary (h.serve env st).1 :=
  (Program.Within.run _ (fun _ => True)
    (fun _ c s _ _ => ⟨c.exec_failure _ _ s, True.intro⟩) ho 0 st True.intro).1

theorem handleRoot_ordinary (sendOk : Bool) (page : Bytes) : OrdinaryHandler (handleRoot sendOk page) := by
  apply answerWith_ordinary
  · show (200 : Nat) ≠ 405
    decide
  · show (200 : Nat) ≠ 404
    decide

/-- **What the switch of a known route runs answers ordinarily.** -/
theorem Route.switch_ordinary (env : Env) (req : HttpRequest) (server : Server) (route : Route)
    (m : HttpMethod) (h : Handler) (hr : route ≠ .unknown)
    (hs : route.switch env req server m = some h) : OrdinaryHandler h := by
  have ends := ordinaryEnds env.sendOk
  cases route with
  | root =>
    cases m <;> cases hs
    exact handleRoot_ordinary _ _
  | health =>
    cases m <;> cases hs
    exact (handleHealth_ends ends _ _).ordinary
  | metrics =>
    cases m <;> cases hs
    exact (handleMetrics_ends ends _).ordinary
  | echo =>
    cases m <;> cases hs
    exact (handleEcho_ends ends _).ordinary
  | kvList =>
    cases m <;> cases hs
    exact (handleKvList_ends ends _).ordinary
  | kvKey key =>
    cases m <;> cases hs
    · exact (handleKvGet_ends ends _).ordinary
    · exact (handleKvPut_ends ends _ _).ordinary
    · exact (handleKvDel_ends ends _).ordinary
  | badKey =>
    cases hs
    exact answerError_ordinary _ _ _ ⟨by decide, by decide⟩ (by decide)
  | notes =>
    cases m <;> cases hs
    · exact (handleNoteList_ends ends _).ordinary
    · exact (handleNoteCreate_ends ends _).ordinary
  | note id =>
    cases m <;> cases hs
    · exact (handleNoteGet_ends ends _).ordinary
    · exact (handleNoteUpdate_ends ends _ _).ordinary
    · exact (handleNoteDel_ends ends _).ordinary
  | badId =>
    cases hs
    exact answerError_ordinary _ _ _ ⟨by decide, by decide⟩ (by decide)
  | unknown => exact absurd rfl hr

theorem Route.allow_length (route : Route) : (ascii route.allow).length ≤ 64 := by
  have hall : ∀ allow ∈ ["GET", "POST", "GET, POST", "GET, PUT, DELETE"],
      (ascii allow).length ≤ 64 := by decide
  exact hall _ route.allow_mem

/-- a known route is never answered as an unknown one -/
theorem Route.handler_known (env : Env) (req : HttpRequest) (server : Server) (route : Route)
    (st : Store) (hr : route ≠ .unknown) :
    ∀ r ∈ ((route.handler env req server).serve env st).1.sent, ¬ UnknownRoute r := by
  intro r hmem
  unfold Route.handler at hmem
  cases hs : route.switch env req server req.method with
  | some h =>
    rw [hs] at hmem
    exact ((Route.switch_ordinary env req server route _ h hr hs).serve env st r hmem).2
  | none =>
    obtain ⟨body, hsent⟩ := sendMethodNotAllowed_eq env.sendOk _ route.allow_length
    rw [hs] at hmem
    have hmem' : r ∈ (sendMethodNotAllowed env.sendOk (ascii route.allow)).sent := hmem
    rw [hsent] at hmem'
    obtain rfl := List.mem_singleton.mp hmem'
    intro hu
    exact absurd hu.1 (show (405 : Nat) ≠ 404 by decide)

/-! ## paths -/

/-- the paths without a parameter -/
def fixedRoutes : List String :=
  ["/", "/index.html", "/health", "/metrics", "/api/echo", "/api/kv", "/api/kv/", "/api/notes",
    "/api/notes/"]

/-- a non-empty string without a slash -/
def Segment (seg : Bytes) : Prop := seg ≠ [] ∧ (47 : Byte) ∉ seg

def KnownRoute (path : Bytes) : Prop :=
  path ∈ fixedRoutes.map ascii ∨ (∃ seg, Segment seg ∧ path = ascii "/api/kv/" ++ seg) ∨
    ∃ seg, Segment seg ∧ path = ascii "/api/notes/" ++ seg

/-- `/api/kv/` and a rest with a slash -/
def DeepKey (path : Bytes) : Prop := ∃ rest, (47 : Byte) ∈ rest ∧ path = ascii "/api/kv/" ++ rest

/-- `/api/notes` that goes on without a slash -/
def NotesWord (path : Bytes) : Prop :=
  ascii "/api/notes" <+: path ∧ path ≠ ascii "/api/notes" ∧ ¬ ascii "/api/notes/" <+: path

theorem routeOf_fixed : ∀ s ∈ fixedRoutes, routeOf (.lit s) ≠ .unknown := by decide +kernel

theorem fixedRoutes_lit : ∀ s ∈ fixedRoutes, (CStr.lit s).bytes = ascii s := by decide

/-- behind `/api/kv/` -/
theorem kvRouteOf_rest (path : CStr) (rest : Bytes) (hpath : path.bytes = ascii "/api/kv/" ++ rest) :
    kvRouteOf path ≠ .unknown ∧ ((47 : Byte) ∈ rest → kvRouteOf path = .badKey) := by
  have hp : ascii "/api/kv/" <+: path.bytes := ⟨rest, hpath.symm⟩
  have hp' : ¬ (ascii "/api/kv/").isPrefixOf path.bytes = false := by
    rw [List.isPrefixOf_iff_prefix.mpr hp]
    decide
  have hdrop : (path.drop 8).bytes = rest := by
    rw [CStr.drop_bytes, hpath]
    exact List.drop_left' (by decide)
  unfold kvRouteOf
  by_cases hb : path.bytes = ascii "/api/kv" ∨ path.bytes = ascii "/api/kv/"
  · rw [if_pos hb]
    refine ⟨by decide, fun hslash => ?_⟩
    rcases hb with hb | hb
    · exact absurd hb (path_ne_of_begins _ _ _ hp (by decide))
    · have hnil : rest = [] := by simpa [hpath] using hb
      rw [hnil] at hslash
      cases hslash
  · rw [if_neg hb, if_neg hp', hdrop]
    constructor
    · split_ifs <;> simp
    · intro hslash
      rw [if_pos (.inl hslash)]

theorem parseNoteId_notFound (path : CStr) :
    parseNoteId path = .error .notFound ↔
      ∃ rest, (47 : Byte) ∈ rest ∧ path.bytes = ascii "/api/notes/" ++ rest := by
  unfold parseNoteId
  by_cases hp : ascii "/api/notes/" <+: path.bytes
  · obtain ⟨rest, hrest⟩ := hp
    have hdrop : path.bytes.drop 11 = rest := by
      rw [← hrest]
      exact List.drop_left' (by decide)
    have hpre : ¬ (ascii "/api/notes/").isPrefixOf path.bytes = false := by
      rw [List.isPrefixOf_iff_prefix.mpr ⟨rest, hrest⟩]
      decide
    have hiff : (∃ rest', (47 : Byte) ∈ rest' ∧ path.bytes = ascii "/api/notes/" ++ rest') ↔
        (47 : Byte) ∈ rest := by
      constructor
      · rintro ⟨rest', hslash, h⟩
        rw [← hrest] at h
        rw [List.append_cancel_left h]
        exact hslash
      · exact fun hslash => ⟨rest, hslash, hrest.symm⟩
    rw [hiff, hdrop]
    by_cases hslash : (47 : Byte) ∈ rest
    · have hne : ¬ ((ascii "/api/notes/").isPrefixOf path.bytes = false ∨ rest = []) :=
        not_or.mpr ⟨hpre, List.ne_nil_of_mem hslash⟩
      rw [if_neg hne, if_pos hslash]
      simp [hslash]
    · refine ⟨fun h => ?_, fun h => absurd h hslash⟩
      simp only [if_neg hslash] at h
      split_ifs at h <;> cases h
  · rw [if_pos (.inl (isPrefixOf_false _ _ hp))]
    constructor
    · intro h
      cases h
    · rintro ⟨rest, _, h⟩
      exact absurd ⟨rest, h.symm⟩ hp

theorem notesRouteOf_unknown (path : CStr)
    (hbase : ¬ (path.bytes = ascii "/api/notes" ∨ path.bytes = ascii "/api/notes/")) :
    notesRouteOf path = .unknown ↔
      ∃ rest, (47 : Byte) ∈ rest ∧ path.bytes = ascii "/api/notes/" ++ rest := by
  rw [← parseNoteId_notFound]
  unfold notesRouteOf
  rw [if_neg hbase]
  cases hid : parseNoteId path with
  | error e => rcases parseNoteId_error _ e hid with rfl | rfl <;> simp
  | ok id => simp

/-- **A known path has a route.** -/
theorem routeOf_known (path : CStr) (h : KnownRoute path.bytes) : routeOf path ≠ .unknown := by
  rcases h with h | ⟨seg, hseg, h⟩ | ⟨seg, hseg, h⟩
  · obtain ⟨s, hs, he⟩ := List.mem_map.mp h
    have hpath : path = .lit s := CStr.ext' (he.symm.trans (fixedRoutes_lit s hs).symm)
    rw [hpath]
    exact routeOf_fixed s hs
  · rw [routeOf_kv path (List.IsPrefix.trans (by decide) ⟨seg, h.symm⟩)]
    exact (kvRouteOf_rest path seg h).1
  · rw [routeOf_notes path (List.IsPrefix.trans (by decide) ⟨seg, h.symm⟩)]
    by_cases hbase : path.bytes = ascii "/api/notes" ∨ path.bytes = ascii "/api/notes/"
    · unfold notesRouteOf
      rw [if_pos hbase]
      decide
    · intro hu
      obtain ⟨rest, hslash, hrest⟩ := (notesRouteOf_unknown path hbase).mp hu
      rw [h] at hrest
      rw [← List.append_cancel_left hrest] at hslash
      exact hseg.2 hslash

theorem routeOf_deepKey (path : CStr) (h : DeepKey path.bytes) : routeOf path = .badKey := by
  obtain ⟨rest, hslash, hrest⟩ := h
  rw [routeOf_kv path (List.IsPrefix.trans (by decide) ⟨rest, hrest.symm⟩)]
  exact (kvRouteOf_rest path rest hrest).2 hslash

theorem routeOf_notesWord (path : CStr) (h : NotesWord path.bytes) : routeOf path = .badId := by
  obtain ⟨hp, hne, hslash⟩ := h
  have hbase : ¬ (path.bytes = ascii "/api/notes" ∨ path.bytes = ascii "/api/notes/") :=
    not_or.mpr ⟨hne, fun he => hslash (he ▸ List.prefix_rfl)⟩
  have hid : parseNoteId path = .error .invalidId := by
    unfold parseNoteId
    rw [if_pos (.inl (isPrefixOf_false _ _ hslash))]
  rw [routeOf_notes path hp]
  unfold notesRouteOf
  rw [if_neg hbase, hid]

/-- **Every other path has none.** -/
theorem routeOf_unknown (path : CStr) (hk : ¬ KnownRoute path.bytes) (hd : ¬ DeepKey path.bytes)
    (hw : ¬ NotesWord path.bytes) : routeOf path = .unknown := by
  have hfix : ∀ s ∈ fixedRoutes, path.bytes ≠ ascii s := by
    intro s hs he
    exact hk (.inl (List.mem_map.mpr ⟨s, hs, he.symm⟩))
  have hroot : ¬ (path.bytes = ascii "/" ∨ path.bytes = ascii "/index.html") :=
    not_or.mpr ⟨hfix _ (by decide), hfix _ (by decide)⟩
  by_cases hkv : ascii "/api/kv" <+: path.bytes
  · rw [routeOf_kv path hkv]
    have hbase : ¬ (path.bytes = ascii "/api/kv" ∨ path.bytes = ascii "/api/kv/") :=
      not_or.mpr ⟨hfix _ (by decide), hfix _ (by decide)⟩
    unfold kvRouteOf
    rw [if_neg hbase]
    apply if_pos
    apply isPrefixOf_false
    rintro ⟨rest, hrest⟩
    have hslash : (47 : Byte) ∉ rest := fun h => hd ⟨rest, h, hrest.symm⟩
    have hnil : rest ≠ [] := by
      rintro rfl
      exact hbase (.inr (hrest.symm.trans (List.append_nil _)))
    exact hk (.inr (.inl ⟨rest, ⟨hnil, hslash⟩, hrest.symm⟩))
  · by_cases hnotes : ascii "/api/notes" <+: path.bytes
    · have hbase : ¬ (path.bytes = ascii "/api/notes" ∨ path.bytes = ascii "/api/notes/") :=
        not_or.mpr ⟨hfix _ (by decide), hfix _ (by decide)⟩
      have hp : ascii "/api/notes/" <+: path.bytes := by
        by_contra hp
        exact hw ⟨hnotes, hfix "/api/notes" (by decide), hp⟩
      obtain ⟨rest, hrest⟩ := hp
      rw [routeOf_notes path hnotes, notesRouteOf_unknown path hbase]
      refine ⟨rest, ?_, hrest.symm⟩
      by_contra hslash
      have hnil : rest ≠ [] := by
        rintro rfl
        exact hbase (.inr (hrest.symm.trans (List.append_nil _)))
      exact hk (.inr (.inr ⟨rest, ⟨hnil, hslash⟩, hrest.symm⟩))
    · unfold routeOf
      rw [if_neg hroot, if_neg (hfix "/health" (by decide)), if_neg (hfix "/metrics" (by decide)),
        if_neg (hfix "/api/echo" (by decide)),
        if_neg (fun h => hkv (List.isPrefixOf_iff_prefix.mp h)),
        if_neg (fun h => hnotes (List.isPrefixOf_iff_prefix.mp h))]

/-! ## requests -/

theorem serverAuthCheck_cases (server : Server) (req : HttpRequest) :
    serverAuthCheck server req = .ok ∨ serverAuthCheck server req = .unauthorized ∨
      serverAuthCheck server req = .forbidden := by
  unfold serverAuthCheck
  split_ifs <;> simp

/-- it is not told of an unknown route -/
theorem answerError_auth (sendOk : Bool) (server : Server) (req : HttpRequest) (detail : String)
    (hauth : serverAuthCheck server req ≠ .ok) :
    Ordinary (answerError sendOk (serverAuthCheck server req) detail) := by
  rcases serverAuthCheck_cases server req with h | h | h
  · exact absurd h hauth
  · rw [h]
    exact answerError_ordinary _ _ _ ⟨by decide, by decide⟩ fun he => by cases he
  · rw [h]
    exact answerError_ordinary _ _ _ ⟨by decide, by decide⟩ fun he => by cases he

theorem apiDispatch_known (env : Env) (req : HttpRequest) (server : Server) (st : Store)
    (hk : KnownRoute req.path.bytes) :
    ∀ r ∈ (apiDispatch env req st server).1.sent, ¬ UnknownRoute r := by
  by_cases hauth : Authorised server req
  · unfold apiDispatch
    rw [apiRoute_authorised env req server hauth]
    exact Route.handler_known env req server _ st (routeOf_known req.path.toCStr hk)
  · unfold Authorised at hauth
    rw [Classical.not_imp] at hauth
    obtain ⟨detail, hroute⟩ := apiRoute_turnedAway env req server hauth.1 hauth.2
    unfold apiDispatch
    rw [hroute]
    exact fun r hr => (answerError_auth env.sendOk server req detail hauth.2 r hr).2

/-- what becomes of a request for an unknown path -/
def AnsweredNotFound (env : Env) (req : HttpRequest) (server : Server) (st : Store) : Prop :=
  (apiDispatch env req st server).1.result = .notFound ∧ (apiDispatch env req st server).2 = st

theorem apiDispatch_unknown (env : Env) (req : HttpRequest) (server : Server) (st : Store)
    (hauth : Authorised server req) (hk : ¬ KnownRoute req.path.bytes) :
    AnsweredNotFound env req server st ↔
      ¬ DeepKey req.path.bytes ∧ ¬ NotesWord req.path.bytes := by
  unfold AnsweredNotFound apiDispatch
  rw [apiRoute_authorised env req server hauth]
  constructor
  · rintro ⟨hresult, _⟩
    constructor
    · intro hd
      rw [routeOf_deepKey req.path.toCStr hd] at hresult
      cases hresult
    · intro hw
      rw [routeOf_notesWord req.path.toCStr hw] at hresult
      cases hresult
  · rintro ⟨hd, hw⟩
    rw [routeOf_unknown req.path.toCStr hk hd hw]
    exact ⟨rfl, rfl⟩

theorem deepKey_unknown (path : Bytes) (h : DeepKey path) : ¬ KnownRoute path := by
  obtain ⟨rest, hslash, rfl⟩ := h
  rintro (h | ⟨seg, hseg, he⟩ | ⟨seg, hseg, he⟩)
  · obtain ⟨s, hs, he⟩ := List.mem_map.mp h
    have hall : ∀ s ∈ fixedRoutes, (47 : Byte) ∉ (ascii s).drop 8 ∨
        (ascii s).take 8 ≠ ascii "/api/kv/" := by decide
    rcases hall s hs with h' | h'
    · rw [he, List.drop_left' (by decide)] at h'
      exact h' hslash
    · rw [he, List.take_left' (by decide)] at h'
      exact h' rfl
  · rw [← List.append_cancel_left he] at hseg
    exact hseg.2 hslash
  · have htake := congrArg (List.take 8) he
    rw [List.take_left' (by decide), List.take_append_of_le_length (by decide)] at htake
    exact absurd htake (by decide)

theorem notesWord_unknown (path : Bytes) (h : NotesWord path) : ¬ KnownRoute path := by
  obtain ⟨hp, hne, hslash⟩ := h
  rintro (h | ⟨seg, hseg, rfl⟩ | ⟨seg, hseg, rfl⟩)
  · obtain ⟨s, hs, rfl⟩ := List.mem_map.mp h
    have hall : ∀ s ∈ fixedRoutes, ascii "/api/notes" <+: ascii s →
        ascii s = ascii "/api/notes" ∨ ascii "/api/notes/" <+: ascii s := by decide
    rcases hall s hs hp with h' | h'
    · exact hne h'
    · exact hslash h'
  · obtain ⟨rest, hrest⟩ := hp
    have htake := congrArg (List.take 8) hrest
    rw [List.take_append_of_le_length (by decide), List.take_left' (by decide)] at htake
    exact absurd htake (by decide)
  · exact hslash ⟨seg, rfl⟩

/-- **An unknown path is answered 404, exactly unless it is a key with a slash or goes on behind
`/api/notes` without one; a known path never is.** -/
theorem unknownRoutes_iff (env : Env) (req : HttpRequest) (server : Server) (st : Store) :
    ((Authorised server req → ¬ KnownRoute req.path.bytes → AnsweredNotFound env req server st) ∧
      (KnownRoute req.path.bytes →
        ∀ r ∈ (apiDispatch env req st server).1.sent, ¬ UnknownRoute r)) ↔
    (Authorised server req → ¬ DeepKey req.path.bytes ∧ ¬ NotesWord req.path.bytes) := by
  constructor
  · rintro ⟨h, _⟩ hauth
    by_cases hk : KnownRoute req.path.bytes
    · exact ⟨fun hd => deepKey_unknown _ hd hk, fun hw => notesWord_unknown _ hw hk⟩
    · exact (apiDispatch_unknown env req server st hauth hk).mp (h hauth hk)
  · intro h
    refine ⟨fun hauth hk => ?_, apiDispatch_known env req server st⟩
    exact (apiDispatch_unknown env req server st hauth hk).mpr (h hauth)

def getPath (path : CStr) : HttpRequest := { HttpRequest.zero with path := CBuf.print _ pathLen_pos path }

/-- two unknown paths, and what GET is told -/
theorem unknownRoutes_badRequest :
    (¬ KnownRoute (ascii "/api/notesx") ∧
      (apiDispatch (Env.quiet (Long.clamp 0) []) (getPath (.lit "/api/notesx")) Store.empty
        openServer).1.result = .invalidId) ∧
    (¬ KnownRoute (ascii "/api/kv/a/b") ∧
      (apiDispatch (Env.quiet (Long.clamp 0) []) (getPath (.lit "/api/kv/a/b")) Store.empty
        openServer).1.result = .invalidKey) := by
  refine ⟨⟨notesWord_unknown _ ⟨by decide, by decide, by decide⟩, by decide +kernel⟩,
    ⟨deepKey_unknown _ ⟨ascii "a/b", by decide, by decide⟩, by decide +kernel⟩⟩

end CServer
