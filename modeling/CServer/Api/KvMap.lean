import CServer.Api.Readable
import CServer.Json.Contract

/-!
# The key/value API as a map

* `KvOp`, `KvOp.Asks`   an operation on `/api/kv/:key` within the documented limits, and the
                        requests that ask for it;
* `KvSpec`              a map from keys to values, with the answers that each operation gets;
* `kvStep`              one request on a store that holds the map;
* `kvMap_iff`           a run is answered as the map says, exactly when every submitted value is
                        shorter than `value[8192]` of the decoder.
-/

namespace CServer
open FlatJson

/-! ## bodies -/

/-- The body is a strict object with the one member `"value"`, of the value `value`. -/
def EncodesValue (body : Bytes) (value : CStr) : Prop :=
  ∃ d : Doc, d.Strict ∧ d.text = body ∧ ∃ m, d.members = [m] ∧
    Str.value m.name = ascii "value" ∧ Str.value m.value = value.bytes

/-! ## operations -/

inductive KvOp where
  | put (key value : CStr)
  | get (key : CStr)
  | delete (key : CStr)

/-- `req` asks for the operation, with a key and a value within the documented limits. -/
def KvOp.Asks (req : HttpRequest) : KvOp → Prop
  | .put key value => req.method = .put ∧ req.path.bytes = ascii "/api/kv/" ++ key.bytes ∧
      storeValidateKey key = .ok ∧ apiRequireJson req true = .ok ∧
      Clean value.bytes ∧ value.length ≤ STORE_MAX_VALUE_LEN ∧
      ∃ body, req.body = some body ∧ body.length ≤ HTTP_MAX_BODY_SIZE ∧ EncodesValue body value
  | .get key => req.method = .get ∧ req.path.bytes = ascii "/api/kv/" ++ key.bytes ∧
      storeValidateKey key = .ok
  | .delete key => req.method = .delete ∧ req.path.bytes = ascii "/api/kv/" ++ key.bytes ∧
      storeValidateKey key = .ok

/-- a request for an operation, to a server without a key -/
structure KvCall where
  incoming : Incoming
  op : KvOp
  openMode : serverAuthEnabled incoming.server = false
  asks : op.Asks incoming.req

def KvCall.answer (st : Store) (c : KvCall) : Answer :=
  (apiDispatch (Env.quiet c.incoming.now c.incoming.page) c.incoming.req st c.incoming.server).1

def KvCall.step (st : Store) (c : KvCall) : Store := st.after c.incoming

/-! ## the map -/

abbrev KvSpec := CStr → Option CStr

def KvSpec.next (m : KvSpec) (c : KvCall) : KvSpec :=
  match c.op with
  | .put key value => Function.update m key (some value)
  | .get _ => m
  | .delete key => Function.update m key none

/-- one response of the status, and the result that goes with it -/
def Answer.Is (a : Answer) (result : ApiError) (status : Nat) : Prop :=
  a.result = result ∧ ∃ r, a.sent = [r] ∧ r.status = status

def KvSpec.Allows (m : KvSpec) (c : KvCall) (a : Answer) : Prop :=
  match c.op with
  | .put key value => ∃ body, a = ⟨.ok, [jsonResponse 200 body]⟩ ∧ Renders body key value
  | .get key =>
    match m key with
    | some value => ∃ body, a = ⟨.ok, [jsonResponse 200 body]⟩ ∧ Renders body key value
    | none => a.Is .notFound 404
  | .delete key => if (m key).isSome then a.Is .ok 204 else a.Is .notFound 404

/-- the value fits `value[8192]` of `json_get_string` -/
def KvCall.Small (c : KvCall) : Prop :=
  match c.op with
  | .put _ value => value.length < JSON_VALUE_CAP
  | _ => True

/-- The store holds the map, and every value of it can be rendered. -/
structure Holds (st : Store) (m : KvSpec) : Prop where
  get : ∀ key, (st.kv.get key).map KvRow.value = m key
  clean : ∀ key value, m key = some value → Clean value.bytes ∧ value.length ≤ STORE_MAX_VALUE_LEN

theorem holds_empty : Holds Store.empty fun _ => none :=
  ⟨fun _ => rfl, fun _ _ h => by cases h⟩

/-- one value of the map is replaced, and the rest stays -/
theorem Holds.set {st : Store} {m : KvSpec} (h : Holds st m) (kv : KvTable) (key : CStr)
    (value : Option CStr) (hself : (kv.get key).map KvRow.value = value)
    (hother : ∀ k, k ≠ key → kv.get k = st.kv.get k)
    (hclean : ∀ v, value = some v → Clean v.bytes ∧ v.length ≤ STORE_MAX_VALUE_LEN) :
    Holds { st with kv := kv } (Function.update m key value) := by
  refine ⟨fun k => ?_, fun k v hv => ?_⟩
  · show (kv.get k).map KvRow.value = _
    by_cases hk : k = key
    · subst hk
      rw [Function.update_self]
      exact hself
    · rw [Function.update_of_ne hk, hother k hk]
      exact h.get k
  · by_cases hk : k = key
    · subst hk
      rw [Function.update_self] at hv
      exact hclean v hv
    · rw [Function.update_of_ne hk] at hv
      exact h.clean k v hv

/-! ## one request -/

theorem encodesValue_decodes (req : HttpRequest) (body : Bytes) (value : CStr)
    (hb : req.body = some body) (he : EncodesValue body value) (hlen : value.length < JSON_VALUE_CAP) :
    Decodes req "value" (STORE_MAX_VALUE_LEN + 1) value := by
  obtain ⟨d, _, hd, m, hm, hn, hv⟩ := he
  have hvl : value.bytes.length < JSON_VALUE_CAP := hlen
  have hcap : JSON_VALUE_CAP ≤ STORE_MAX_VALUE_LEN := by decide
  have hml : m.value.length < JSON_VALUE_CAP := by
    rw [← Str.value_length, hv]
    exact hvl
  have hnl : m.name.length < JSON_NAME_CAP := by
    rw [← Str.value_length, hn]
    decide
  have hnamed : named (.lit "value") m = true := by
    unfold named
    rw [hn]
    decide
  refine ⟨body, hb, d, hd, fun x hx => ?_, value.bytes, ?_, ?_, ?_⟩
  · rw [hm] at hx
    rw [List.mem_singleton.mp hx]
    exact ⟨hnl, hml⟩
  · rw [hm, matching_cons_of_named _ _ _ hnamed, hv]
    rfl
  · rw [CStr.ofBytes_eq]
  · show value.bytes.length < _
    omega

/-- a value that does not fit `value[8192]` is not decoded -/
theorem encodesValue_rejected (req : HttpRequest) (body : Bytes) (value : CStr)
    (hb : req.body = some body) (he : EncodesValue body value)
    (hlen : ¬ value.length < JSON_VALUE_CAP) (out : CStr) : ¬ PutInput req out := by
  intro hp
  obtain ⟨body', hb', d', hd', hfits, _⟩ := hp.reads
  rw [hb] at hb'
  cases hb'
  obtain ⟨d, _, hd, m, hm, _, hv⟩ := he
  have hsame : d' = d := Doc.text_injective _ _ (hd'.trans hd.symm)
  rw [hsame, hm] at hfits
  have hml := (hfits m List.mem_cons_self).2
  rw [← Str.value_length, hv] at hml
  exact hlen hml

theorem answerNotFound_is (detail : String) : (answerError true .notFound detail).Is .notFound 404 := by
  refine ⟨rfl, ?_⟩
  unfold answerError
  rw [httpRespondError_eq _ _ _ (by decide)]
  exact ⟨_, rfl, rfl⟩

theorem answerNoContent_is : (answerNoContent true).Is .ok 204 := by
  refine ⟨answerNoContent_ok, ⟨204, APPLICATION_JSON, [], none⟩, ?_, rfl⟩
  unfold answerNoContent answerWith
  rw [httpRespond_fits]
  decide +kernel

/-- a request for a key runs the handler of its method -/
theorem KvCall.serve (c : KvCall) (st : Store) (key : CStr)
    (hpath : c.incoming.req.path.bytes = ascii "/api/kv/" ++ key.bytes)
    (hkey : storeValidateKey key = .ok) :
    (c.answer st, c.step st) = Handler.serve (Env.quiet c.incoming.now c.incoming.page)
      (match c.incoming.req.method with
      | .get => handleKvGet true key
      | .put => handleKvPut true c.incoming.req key
      | .delete => handleKvDel true key
      | _ => .done (answerMethodNotAllowed true "GET, PUT, DELETE")) st := by
  have hroute := apiRoute_key (Env.quiet c.incoming.now c.incoming.page) c.incoming.req
    c.incoming.server key hpath hkey (validKey_noSlash key hkey)
    fun _ => serverAuthCheck_open _ _ c.openMode
  show apiDispatch _ _ _ _ = _
  unfold apiDispatch
  rw [hroute]
  rfl

section
variable (c : KvCall) (st : Store) (m : KvSpec) (key value : CStr)

theorem kvPut_step (hop : c.op = .put key value) (hsmall : value.length < JSON_VALUE_CAP)
    (h : Holds st m) : m.Allows c (c.answer st) ∧ Holds (c.step st) (m.next c) := by
  have hasks := c.asks
  rw [hop] at hasks
  obtain ⟨hm, hpath, hkey, hjson, hclean, hlen, body, hb, _, he⟩ := hasks
  have hput : PutInput c.incoming.req value :=
    ⟨hjson, encodesValue_decodes _ body value hb he hsmall⟩
  have hserve := c.serve st key hpath hkey
  rw [hm] at hserve
  simp only at hserve
  rw [handleKvPut_stored _ _ _ _ key value hkey hput,
    kvReply_clean key value hkey hclean hlen] at hserve
  obtain ⟨ha, hs⟩ := Prod.mk.inj hserve
  constructor
  · unfold KvSpec.Allows
    rw [hop, ha]
    exact ⟨_, rfl, kvItem_renders key value (validKey_clean key hkey) hclean⟩
  · unfold KvSpec.next
    rw [hop, hs]
    simp only
    have hget : ∀ k, (st.kv.put ⟨key, value, c.incoming.now⟩).get k =
        if key = k then some ⟨key, value, c.incoming.now⟩ else st.kv.get k :=
      fun k => Table.get_put _ _ _
    refine h.set _ key (some value) ?_ ?_ ?_
    · rw [hget, if_pos rfl]
      rfl
    · intro k hk
      rw [hget, if_neg hk.symm]
    · intro v hv
      cases hv
      exact ⟨hclean, hlen⟩

theorem kvGet_step (hop : c.op = .get key) (h : Holds st m) :
    m.Allows c (c.answer st) ∧ Holds (c.step st) (m.next c) := by
  have hasks := c.asks
  rw [hop] at hasks
  obtain ⟨hm, hpath, hkey⟩ := hasks
  have hserve := c.serve st key hpath hkey
  have hget := h.get key
  rw [hm] at hserve
  simp only at hserve
  unfold KvSpec.Allows KvSpec.next
  rw [hop]
  simp only
  cases hrow : st.kv.get key with
  | none =>
    rw [handleKvGet_absent _ _ st key hkey hrow] at hserve
    obtain ⟨ha, hs⟩ := Prod.mk.inj hserve
    rw [hrow] at hget
    have hnone : m key = none := hget.symm
    rw [hnone, ha, hs]
    exact ⟨answerNotFound_is _, h⟩
  | some row =>
    rw [hrow] at hget
    have hsome : m key = some row.value := hget.symm
    obtain ⟨hclean, hlen⟩ := h.clean key row.value hsome
    rw [handleKvGet_present _ _ st key row hkey hrow hlen,
      kvReply_clean key row.value hkey hclean hlen] at hserve
    obtain ⟨ha, hs⟩ := Prod.mk.inj hserve
    rw [hsome, ha, hs]
    exact ⟨⟨_, rfl, kvItem_renders key row.value (validKey_clean key hkey) hclean⟩, h⟩

theorem kvDelete_step (hop : c.op = .delete key) (h : Holds st m) :
    m.Allows c (c.answer st) ∧ Holds (c.step st) (m.next c) := by
  have hasks := c.asks
  rw [hop] at hasks
  obtain ⟨hm, hpath, hkey⟩ := hasks
  have hserve := c.serve st key hpath hkey
  have hget := h.get key
  rw [hm] at hserve
  simp only at hserve
  unfold KvSpec.Allows KvSpec.next
  rw [hop]
  simp only
  cases hrow : st.kv.get key with
  | none =>
    rw [handleKvDel_absent _ _ st key hkey hrow] at hserve
    obtain ⟨ha, hs⟩ := Prod.mk.inj hserve
    rw [hrow] at hget
    have hnone : m key = none := hget.symm
    have hsame : Function.update m key none = m := by
      rw [← hnone]
      exact Function.update_eq_self key m
    rw [hnone, ha, hs, hsame]
    exact ⟨answerNotFound_is _, h⟩
  | some row =>
    have hpresent : st.kv.get key ≠ none := by
      rw [hrow]
      exact Option.some_ne_none row
    rw [handleKvDel_present _ _ st key hkey hpresent] at hserve
    obtain ⟨ha, hs⟩ := Prod.mk.inj hserve
    rw [hrow] at hget
    have hsome : m key = some row.value := hget.symm
    rw [hsome, ha, hs]
    have herase : ∀ k, (st.kv.erase key).get k = if k = key then none else st.kv.get k :=
      fun k => Table.get_erase _ _ _
    refine ⟨answerNoContent_is, h.set _ key none ?_ ?_ ?_⟩
    · rw [herase, if_pos rfl]
      rfl
    · intro k hk
      rw [herase, if_neg hk]
    · intro v hv
      cases hv

theorem kvStep (hsmall : c.Small) (h : Holds st m) :
    m.Allows c (c.answer st) ∧ Holds (c.step st) (m.next c) := by
  cases hop : c.op with
  | put key value =>
    unfold KvCall.Small at hsmall
    rw [hop] at hsmall
    exact kvPut_step c st m key value hop hsmall h
  | get key => exact kvGet_step c st m key hop h
  | delete key => exact kvDelete_step c st m key hop h

/-- a PUT that is answered 200 has a small value -/
theorem small_of_allows (h : m.Allows c (c.answer st)) : c.Small := by
  unfold KvCall.Small
  cases hop : c.op with
  | get key => trivial
  | delete key => trivial
  | put key value =>
    show value.length < JSON_VALUE_CAP
    by_contra hbig
    have hasks := c.asks
    rw [hop] at hasks
    obtain ⟨hm, hpath, hkey, _, _, _, body, hb, _, he⟩ := hasks
    have hserve := c.serve st key hpath hkey
    rw [hm] at hserve
    have hans := congrArg Prod.fst hserve
    have hrej := (handleKvPut_rejected c.incoming.req st
      (Env.quiet c.incoming.now c.incoming.page) key
      (encodesValue_rejected c.incoming.req body value hb he hbig)).2
    unfold KvSpec.Allows at h
    rw [hop] at h
    obtain ⟨text, hok, _⟩ := h
    rw [show c.answer st = _ from hans] at hok
    exact hrej (congrArg Answer.result hok)

end

/-! ## runs -/

/-- every answer of the run is the one that the map gives -/
def RefinesMap (run : List KvCall) : Prop :=
  Refines (fun st c => KvCall.step st c) (fun st c => KvCall.answer st c) KvSpec.next KvSpec.Allows
    Store.empty (fun _ => none) run

/-- **A run on the empty store is answered as a map would, exactly when every value put is shorter
than 8192 bytes.** -/
theorem kvMap_iff (run : List KvCall) : RefinesMap run ↔ ∀ c ∈ run, c.Small := by
  constructor
  · intro h
    exact all_of_refines _ _ _ _ KvCall.Small (fun st m c ha => small_of_allows c st m ha) _ _ _ h
  · intro h
    exact refines_of_sim _ _ _ _ KvCall.Small Holds (fun st m c hs hh => kvStep c st m hs hh) _ _ _
      holds_empty h

/-! ## a value that is too long for the decoder -/

/-- `{"value":"..."}` -/
def putBody (value : CStr) : Bytes :=
  ascii "\x7b\"value\":\"" ++ escapeText value.bytes ++ ascii "\"\x7d"

theorem putBody_encodes (value : CStr) (h : Clean value.bytes) : EncodesValue (putBody value) value := by
  refine ⟨⟨Ws.none, .last (plainMember (ascii "value") value.bytes), Ws.none⟩,
    ⟨fun m hm => ?_, True.intro⟩, ?_, _, rfl, escapePieces_value _, escapePieces_value _⟩
  · rw [List.mem_singleton.mp hm]
    exact plainMember_strict _ _ clean_value h
  · have hval : escapeText (ascii "value") = ascii "value" := by decide
    unfold putBody plainMember
    simp only [Doc.text, Items.text, Member.text, Str.text, hval, escapePieces_body, Ws.none_bytes,
      List.append_nil, List.nil_append]
    simp [ascii]

theorem putBody_length (value : CStr) : (putBody value).length ≤ 2 * value.length + 12 := by
  have h := escapeText_length_le value.bytes
  have hv : value.length = value.bytes.length := rfl
  unfold putBody
  simp only [List.length_append, show (ascii "\x7b\"value\":\"").length = 10 by decide,
    show (ascii "\"\x7d").length = 2 by decide]
  omega

/-- 8192 times the letter `a` -/
def longValue : CStr where
  bytes := List.replicate 8192 97
  nulFree := fun h => absurd (List.eq_of_mem_replicate h) (by decide)

theorem longValue_bytes : longValue.bytes = List.replicate 8192 97 := CStr.mk_bytes _ _

theorem longValue_clean : Clean longValue.bytes := by
  intro c hc
  rw [longValue_bytes] at hc
  rw [List.eq_of_mem_replicate hc]
  left
  decide

theorem longValue_length : longValue.length = 8192 := by
  unfold CStr.length
  rw [longValue_bytes, List.length_replicate]

def longPut : HttpRequest :=
  { HttpRequest.zero with
    method := .put
    path := CBuf.print _ pathLen_pos (.lit "/api/kv/k")
    contentLength := 8204
    contentType := CBuf.print _ contentTypeLen_pos (.lit "application/json")
    body := some (putBody longValue) }

theorem longPut_asks : (KvOp.put (.lit "k") longValue).Asks longPut := by
  refine ⟨rfl, by decide, by decide, ?_, longValue_clean, ?_, putBody longValue, rfl, ?_,
    putBody_encodes longValue longValue_clean⟩
  · unfold apiRequireJson
    rw [if_neg (by decide), if_neg (fun h => by cases h.2)]
    decide
  · rw [longValue_length]
    decide
  · refine le_trans (putBody_length longValue) ?_
    rw [longValue_length]
    decide

def longCall : KvCall where
  incoming := ⟨Long.clamp 0, [], openServer, longPut⟩
  op := .put (.lit "k") longValue
  openMode := by decide
  asks := longPut_asks

/-- a PUT of 8192 bytes, far below 60000, is not answered 200 -/
theorem kvMap_long_value : ¬ RefinesMap [longCall] := by
  intro h
  have hsmall : longCall.Small := small_of_allows longCall Store.empty (fun _ => none) h.1
  have hlt : longValue.length < JSON_VALUE_CAP := hsmall
  rw [longValue_length] at hlt
  exact absurd hlt (by decide)

end CServer
