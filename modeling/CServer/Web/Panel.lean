import CServer.Api.MediaType
import CServer.Web.Page

/-!
# The requests of the panel

* `routeOf_noKey`        the route of a key that the page cannot ask for;
* `callHeaders_apiKey`   the headers of a call;
* `Admits`               the token of a page lets it write;
* `Asked`                what a request of the panel says to the server;
* `Exchanged.asked`      every request of the panel says it, unless it is above the limits.
-/

namespace CServer
namespace Web
open Shell (Chars)
open UrlPath JsonObject Http11

/-! ## routes -/

theorem PageKey.bytes {key : Chars} (h : PageKey key) : (keyStr key).bytes = utf8 key := by
  refine cstr_of_nulFree _ (utf8_nulFree key fun h0 => ?_)
  exact absurd (h.letters _ h0) (by decide)

theorem keyStr_injective {key key' : Chars} (h : PageKey key) (h' : PageKey key')
    (he : keyStr key = keyStr key') : key = key' := by
  have hbytes := congrArg CStr.bytes he
  rw [h.bytes, h'.bytes] at hbytes
  exact utf8_injective hbytes

theorem PageKey.valid {key : Chars} (h : PageKey key) : storeValidateKey (keyStr key) = .ok := by
  have hbytes := h.bytes
  rw [utf8_ascii key h.narrow] at hbytes
  refine (storeValidateKey_ok _).mpr ⟨?_, ?_, ?_⟩
  · rw [hbytes]
    exact fun he => h.ne (List.map_eq_nil_iff.mp he)
  · unfold CStr.length
    rw [hbytes, List.length_map]
    exact h.length
  · rw [hbytes]
    intro b hb
    obtain ⟨c, hc, rfl⟩ := List.mem_map.mp hb
    rw [keyLetter_byte c (h.narrow c hc)]
    exact h.letters c hc

/-- a component that the store takes for a key is a key of the page -/
theorem pageKey_of_valid {key : Chars} (hlisted : ¬ Listed key) (hdots : key ≠ ['.', '.']) (k : CStr)
    (hk : k.bytes = utf8 (encodeURIComponent key)) (hvalid : storeValidateKey k = .ok) : PageKey key := by
  obtain ⟨-, hlen, hall⟩ := (storeValidateKey_ok k).mp hvalid
  rw [hk] at hall
  have hplain : ∀ c ∈ key, unreserved c = true := by
    by_contra hnot
    obtain ⟨front, b, rest, henc, -⟩ := percent_mem hnot
    have hpercent : (37 : Byte) ∈ utf8 (encodeURIComponent key) := by
      rw [henc, utf8_append]
      exact List.mem_append_right _ List.mem_cons_self
    exact absurd (hall 37 hpercent) (by decide)
  have hnarrow := encode_ascii key
  rw [encode_eq_self hplain] at hall hk hnarrow
  rw [utf8_ascii key hnarrow] at hall hk
  have hlength : k.length = key.length := by
    unfold CStr.length
    rw [hk, List.length_map]
  rw [Listed, not_or] at hlisted
  refine ⟨hlisted.1, by rw [← hlength]; exact hlen, fun c hc => ?_, hlisted.2, hdots⟩
  rw [← keyLetter_byte c (hnarrow c hc)]
  exact hall _ (List.mem_map_of_mem hc)

/-- **A key that the page cannot ask for**: its request is one for the list, for a bad key or for no
route at all. -/
theorem routeOf_noKey (path : CStr) (key : Chars) (hpath : path.bytes = utf8 (urlPath (keyPath key)))
    (h : ¬ PageKey key) :
    (Listed key ∧ routeOf path = .kvList) ∨ routeOf path = .badKey ∨ routeOf path = .unknown := by
  rw [keyPath_target] at hpath
  by_cases hdots : key = ['.', '.']
  · rw [if_pos hdots] at hpath
    right; right
    unfold routeOf
    rw [hpath, if_neg (by decide), if_neg (by decide), if_neg (by decide), if_neg (by decide),
      if_neg (by decide), if_neg (by decide)]
  · rw [if_neg hdots] at hpath
    have hbegins : ascii "/api/kv/" <+: path.bytes := ⟨_, hpath.symm⟩
    rw [routeOf_kv path (List.IsPrefix.trans (by decide) hbegins)]
    by_cases hlisted : Listed key
    · left
      refine ⟨hlisted, if_pos (.inr ?_)⟩
      have hnil : segment key = [] := by
        unfold segment
        rcases hlisted with rfl | rfl <;> rfl
      rw [hpath, hnil]
      rfl
    · right; left
      have hsegment : segment key = encodeURIComponent key := if_neg fun he => hlisted (.inr he)
      rw [hsegment] at hpath
      have hdrop : (path.drop 8).bytes = utf8 (encodeURIComponent key) := by
        rw [CStr.drop_bytes, hpath]
        exact List.drop_left' (by decide)
      have hbase : ¬ (path.bytes = ascii "/api/kv" ∨ path.bytes = ascii "/api/kv/") := by
        rintro (he | he)
        · exact path_ne_of_begins _ _ _ hbegins (by decide) he
        · rw [hpath] at he
          have hnil : utf8 (encodeURIComponent key) = utf8 [] :=
            List.append_cancel_left (he.trans (List.append_nil _).symm)
          exact hlisted (.inl (encode_eq_nil.mp (utf8_injective hnil)))
      unfold kvRouteOf
      rw [if_neg hbase, if_neg (by rw [List.isPrefixOf_iff_prefix.mpr hbegins]; decide), if_pos]
      exact .inr fun hvalid => h (pageKey_of_valid hlisted hdots _ hdrop hvalid)

theorem routeOf_pageKey (path : CStr) {key : Chars} (hpath : path.bytes = utf8 (urlPath (keyPath key)))
    (h : PageKey key) : path.bytes = ascii "/api/kv/" ++ (keyStr key).bytes := by
  rw [hpath, keyPath_target, if_neg h.noDots, segment, if_neg h.noDot, h.encode, h.bytes]

/-! ## the headers of a call -/

theorem Headers.get_eq_some (h : Headers) (name value : Chars) :
    h.get name = some value ↔ (name, value) ∈ h.fields := by
  unfold Headers.get
  rw [Option.map_eq_some_iff]
  constructor
  · rintro ⟨p, hp, rfl⟩
    have hname : p.1 = name := by simpa using List.find?_some hp
    rw [← hname]
    exact List.mem_of_find?_eq_some hp
  · intro hmem
    cases hfind : h.fields.find? fun p => p.1 = name with
    | none =>
      have hnone := List.find?_eq_none.mp hfind (name, value) hmem
      exact absurd (decide_eq_true rfl) hnone
    | some p =>
      have hname : p.1 = name := by simpa using List.find?_some hfind
      have hp := List.mem_of_find?_eq_some hfind
      exact ⟨p, rfl, congrArg Prod.snd (List.inj_on_of_nodup_map h.distinct hp hmem hname)⟩

theorem Headers.get_set (h : Headers) {name : Chars} (hname : name ≠ protoName) (value other : Chars) :
    (h.set name value).get other = if other = name then some value else h.get other := by
  refine Option.ext fun v => ?_
  rw [Headers.get_eq_some, Headers.mem_set h hname]
  split_ifs with he
  · subst he
    constructor
    · rintro (⟨-, hne⟩ | heq)
      · exact absurd rfl hne
      · rw [(Prod.mk.inj heq).2]
    · intro hv
      exact .inr (by rw [Option.some.inj hv])
  · rw [← Headers.get_eq_some]
    constructor
    · rintro (⟨hv, -⟩ | heq)
      · exact hv
      · exact absurd (Prod.mk.inj heq).1 he
    · exact fun hv => .inl ⟨hv, he⟩

theorem headerNames_ne : contentType ≠ protoName ∧ apiKey ≠ protoName ∧ apiKey ≠ contentType := by
  refine ⟨?_, ?_, ?_⟩ <;> exact fun h => absurd (congrArg List.head? h) (by decide)

section
variable (token method : Chars) (body : Option JsonText) (label : String)

theorem callHeaders_contentType :
    (callHeaders token method body (labelled label)).get contentType =
      if body.isSome then some applicationJson else none := by
  have hne := headerNames_ne
  have hempty : Headers.empty.get contentType = none := rfl
  have hlabelled : (labelled label).headers = Headers.empty := rfl
  unfold callHeaders
  simp only [hlabelled]
  split_ifs with hattach hbody hbody
  all_goals
    simp only [Headers.get_set _ hne.1, Headers.get_set _ hne.2.1, hne.2.2.symm, hempty, if_true, if_false]

theorem callHeaders_apiKey :
    (callHeaders token method body (labelled label)).get apiKey =
      if token ≠ [] ∧ method ≠ "GET".toList then some token else none := by
  have hne := headerNames_ne
  have hempty : Headers.empty.get apiKey = none := rfl
  have hlabelled : (labelled label).headers = Headers.empty := rfl
  have hattaches : AttachesToken token method (labelled label) ↔ token ≠ [] ∧ method ≠ "GET".toList :=
    and_iff_right rfl
  unfold callHeaders
  simp only [hlabelled, hattaches]
  split_ifs with hbody hattach hattach
  all_goals
    simp only [Headers.get_set _ hne.1, Headers.get_set _ hne.2.1, hne.2.2, hempty, if_true, if_false]

end

/-! ## what the server is told -/

/-- A page with the token may write: the server has no key, or the token is the key. -/
def Admits (server : Server) (token : Chars) : Prop :=
  serverAuthEnabled server = false ∨ fieldValue token = server.apiKey.bytes

instance (server : Server) (token : Chars) : Decidable (Admits server token) := by
  unfold Admits
  infer_instance

/-- what a request of the panel says -/
structure Asked (server : Server) (token name key : Chars) (sent : Bytes) (req : HttpRequest) : Prop where
  method : req.method = methodFromString (utf8 name)
  path : req.path.bytes = utf8 (urlPath (keyPath key))
  authorised : Authorised server req ↔ name = "GET".toList ∨ Admits server token
  body : req.body = if sent = [] then none else some sent
  json : sent ≠ [] → apiRequireJson req true = .ok

/-- the request behind a button -/
def panelRequest (token name key : Chars) (body : Option JsonText) (label : String) : Request :=
  ⟨name, keyPath key, callHeaders token name body (labelled label), sentBody name (rawOf body)⟩

/-- its body -/
def panelBody (name : Chars) (body : Option JsonText) : Bytes := utf8 ((sentBody name (rawOf body)).getD [])

section
variable {server : Server} {token name key : Chars} {body : Option JsonText} {label : String}

theorem headerValues_contentType :
    headerValues (panelRequest token name key body label) contentType =
      if body.isSome then [ascii "application/json"] else [] := by
  have hget := callHeaders_contentType token name body label
  have hvalue : fieldValue applicationJson = ascii "application/json" := by decide
  unfold headerValues panelRequest
  simp only
  rw [hget]
  split_ifs
  · show [fieldValue applicationJson] = _
    rw [hvalue]
  · rfl

theorem headerValues_apiKey :
    (headerValues (panelRequest token name key body label) apiKey).getLast?.getD [] =
      if name = "GET".toList then [] else fieldValue token := by
  have hget := callHeaders_apiKey token name body label
  have hempty : fieldValue [] = [] := rfl
  unfold headerValues panelRequest
  simp only
  rw [hget]
  by_cases hname : name = "GET".toList
  · rw [if_neg (fun h => h.2 hname), if_pos hname]
    rfl
  · rw [if_neg hname]
    by_cases htoken : token = []
    · rw [if_neg (fun h => h.1 htoken), htoken, hempty]
      rfl
    · rw [if_pos ⟨htoken, hname⟩]
      rfl

/-- the check of the key that the message brings -/
theorem serverAuthCheck_admits (req : HttpRequest) (h : req.apiKey.bytes = fieldValue token) :
    serverAuthCheck server req = .ok ↔ Admits server token := by
  cases henabled : serverAuthEnabled server with
  | false => exact iff_of_true (serverAuthCheck_open server req henabled) (.inl henabled)
  | true =>
    have hne : server.apiKey.bytes ≠ [] := bne_iff_ne.mp henabled
    rw [serverAuthCheck_protected server req henabled, h]
    unfold Admits
    rw [henabled]
    constructor
    · intro hok
      split_ifs at hok with hnil hsame
      exact .inr hsame
    · intro hadmits
      have hsame := hadmits.resolve_left (by decide)
      rw [if_neg (by rw [hsame]; exact hne), if_pos hsame]

theorem asked_of_carries {m : Message} {req : HttpRequest}
    (hm : Delivers (panelRequest token name key body label) m) (hname : utf8 name ∈ METHODS)
    (hcarries : Carries m (utf8 name) (utf8 (urlPath (keyPath key))) req) :
    Asked server token name key (panelBody name body) req where
  method := hcarries.method
  path := hcarries.path.trans (keyPath_path key)
  authorised := by
    have hpath := hcarries.path.trans (keyPath_path key)
    have hapi : (ascii "/api/").isPrefixOf req.path.bytes = true := by
      rw [hpath, keyPath_target]
      split_ifs
      · decide
      · have hbegins : ascii "/api/" <+: ascii "/api/kv/" := by decide
        exact List.isPrefixOf_iff_prefix.mpr (hbegins.trans (List.prefix_append _ _))
    have hget : req.method = .get ↔ name = "GET".toList := by
      have hall : ∀ m ∈ METHODS, methodFromString m = .get ↔ m = ascii "GET" := by decide
      rw [hcarries.method, hall _ hname]
      constructor
      · exact fun h => utf8_injective h
      · rintro rfl
        rfl
    have hkey := hcarries.apiKey
    rw [hm.apiKey, headerValues_apiKey] at hkey
    unfold Authorised isApiWrite
    rw [hapi, Bool.and_true, decide_eq_true_eq, Ne, hget]
    by_cases hn : name = "GET".toList
    · exact iff_of_true (fun h => absurd hn h) (.inl hn)
    · rw [if_neg hn] at hkey
      rw [serverAuthCheck_admits req hkey]
      exact ⟨fun h => .inr (h hn), fun h _ => h.resolve_left hn⟩
  body := by
    have hbody := hcarries.body
    rwa [hm.body] at hbody
  json := by
    intro hsent
    have hbody : m.body = panelBody name body := hm.body
    have hsome : body.isSome = true := by
      cases body with
      | none => exact absurd (by unfold panelBody rawOf sentBody; rfl) hsent
      | some json => rfl
    have htype := hcarries.contentType
    rw [hm.contentType, headerValues_contentType, if_pos hsome] at htype
    have hlength := hcarries.contentLength
    rw [if_neg (fun hnone => hsent (by rw [← hbody]; exact hm.wf.unsized hnone)), hbody] at hlength
    have hpos : 0 < (panelBody name body).length := List.length_pos_iff.mpr hsent
    have hreq : req = { req with body := some (panelBody name body) } := by
      have hsame := hcarries.body
      rw [hbody, if_neg hsent] at hsame
      rw [← hsame]
    rw [hreq, apiRequireJson_body req _ (by rw [hlength]; omega), htype]
    decide

/-- **A button pressed: the server is asked, or the message is above its limits.** -/
theorem Exchanged.asked {st st' : Store} {reply : Reply} {c : Connection}
    (h : Exchanged server st st' (panelRequest token name key body label) reply c)
    (hname : utf8 name ∈ METHODS) :
    (∃ req a r, Asked server token name key (panelBody name body) req ∧
      apiDispatch c.env req st server = (a, st') ∧ a.sent = [r] ∧ Shows reply r) ∨
    ((2047 < (utf8 (urlPath (keyPath key))).length ∨ HTTP_MAX_BODY_SIZE < (panelBody name body).length) ∧
      st' = st ∧ ∃ r, r.Refuses ∧ Shows reply r) := by
  have hsend := h.delivers.sendable hname (keyPath_plain key) (fun v hv => by
    rw [headerValues_contentType] at hv
    split_ifs at hv
    · rw [List.mem_singleton.mp hv]
      decide
    · exact absurd hv List.not_mem_nil)
  rcases h.dispatched hsend (keyPath_uncut key) with
    ⟨req, a, r, -, hcarries, hdispatch, hsent, hshows⟩ | ⟨hover, hsame, hrefused⟩
  · exact .inl ⟨req, a, r, asked_of_carries h.delivers hname hcarries, hdispatch, hsent, hshows⟩
  · right
    refine ⟨?_, hsame, hrefused⟩
    by_contra hin
    rw [not_or, not_lt, not_lt] at hin
    have hown := h.delivers.own
    have hmax : HTTP_MAX_HEADERS_SIZE = 16384 := rfl
    have htarget : (utf8 (urlPath (panelRequest token name key body label).path)).length ≤ 2047 := hin.1
    refine hover ⟨hin.1, ?_, by omega⟩
    rw [h.delivers.body]
    exact hin.2

end

end Web
end CServer
