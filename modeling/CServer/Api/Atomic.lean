import CServer.Api.Writes

/-!
# Error atomicity

* `Poison`                  the request stores a text that `json_escape` rejects;
* `apiDispatch_atomic_iff`  a request that is answered with an error leaves the store as it is,
                            exactly unless it is a poison.
-/

namespace CServer

/-- what the router has checked -/
def WriteTarget.Valid : WriteTarget → Prop
  | .kvPut key => storeValidateKey key = .ok
  | .kvDel key => storeValidateKey key = .ok
  | .noteCreate => True
  | .noteUpdate id => 0 < id.val
  | .noteDel id => 0 < id.val

def Route.Valid : Route → Prop
  | .kvKey key => storeValidateKey key = .ok
  | .note id => 0 < id.val
  | _ => True

theorem kvRouteOf_valid (path : CStr) : (kvRouteOf path).Valid := by
  unfold kvRouteOf
  split_ifs with h1 h2 h3
  · exact True.intro
  · exact True.intro
  · exact True.intro
  · rw [not_or, not_not] at h3
    exact h3.2

theorem notesRouteOf_valid (path : CStr) : (notesRouteOf path).Valid := by
  unfold notesRouteOf
  split_ifs
  · exact True.intro
  · cases hid : parseNoteId path with
    | error e =>
      rcases parseNoteId_error _ e hid with rfl | rfl
      · exact True.intro
      · exact True.intro
    | ok id => exact (parseNoteId_path _ _ hid).2.2

/-- a route carries what the router has checked -/
theorem routeOf_valid (path : CStr) : (routeOf path).Valid := by
  unfold routeOf
  split_ifs
  · exact True.intro
  · exact True.intro
  · exact True.intro
  · exact True.intro
  · exact kvRouteOf_valid path
  · exact notesRouteOf_valid path
  · exact True.intro

theorem Route.target_valid (route : Route) (m : HttpMethod) (t : WriteTarget) (hr : route.Valid)
    (h : route.target m = some t) : t.Valid := by
  cases route with
  | kvKey key =>
    cases m <;> cases h
    · exact hr
    · exact hr
  | notes =>
    cases m <;> cases h
    exact True.intro
  | note id =>
    cases m <;> cases h
    · exact hr
    · exact hr
  | _ => cases h

theorem writeTarget_valid (server : Server) (req : HttpRequest) (t : WriteTarget)
    (h : writeTarget server req = some t) : t.Valid := by
  unfold writeTarget at h
  split_ifs at h
  rw [pathTarget_eq] at h
  exact Route.target_valid _ _ t (routeOf_valid _) h

/-! ## poison -/

/-- The target accepts the request, some text of it is not clean, and storing it changes the
table. -/
def WriteTarget.Poison (now : Long) (req : HttpRequest) (st : Store) : WriteTarget → Prop
  | .kvPut key => ∃ value, PutInput req value ∧ ¬ Clean value.bytes ∧
      st.kv.get key ≠ some ⟨key, value, now⟩
  | .noteCreate => ∃ title body, NoteInput req title body ∧
      ¬ (Clean title.bytes ∧ Clean body.bytes) ∧ st.notes.HasNext
  | .noteUpdate id => ∃ title body row, NoteInput req title body ∧
      ¬ (Clean title.bytes ∧ Clean body.bytes) ∧ st.notes.table.get id = some row ∧
      row.edit title body now ≠ row
  | .kvDel _ => False
  | .noteDel _ => False

def Poison (now : Long) (server : Server) (req : HttpRequest) (st : Store) : Prop :=
  ∃ t, writeTarget server req = some t ∧ t.Poison now req st

/-! ## each target -/

theorem Store.kv_eq_self (st : Store) (kv : KvTable) : { st with kv := kv } = st ↔ kv = st.kv := by
  constructor
  · intro h
    exact congrArg Store.kv h
  · intro h
    rw [h]

theorem Store.notes_eq_self (st : Store) (notes : NoteTable) :
    { st with notes := notes } = st ↔ notes = st.notes := by
  constructor
  · intro h
    exact congrArg Store.notes h
  · intro h
    rw [h]

theorem noteGetReply_ok (row : NoteRow) (text : Bytes)
    (h : noteRowToJson row StaticBuffer.noteGetBody.cap 0 = .ok text) :
    noteGetReply true (.ok text) = ⟨.ok, [jsonResponse 200 text]⟩ := by
  have hlen := noteRowToJson_length _ _ _ _ h
  have hcap : StaticBuffer.noteGetBody.cap ≤ 10 ^ 20 := by decide
  exact answerWith_json 200 text (by decide) (by omega)

theorem noteCreateReply_ok (row : NoteRow) (text : Bytes)
    (h : noteRowToJson row StaticBuffer.noteCreateJson.cap 0 = .ok text) :
    noteCreateReply true (.ok text) = ⟨.ok, [jsonResponse 201 text]⟩ := by
  have hlen := noteRowToJson_length _ _ _ _ h
  have hcap : StaticBuffer.noteCreateJson.cap ≤ 10 ^ 20 := by decide
  exact answerWith_json 201 text (by decide) (by omega)

section
variable (now : Long) (page : Bytes) (req : HttpRequest) (st : Store)

theorem kvPut_atomic_iff (key : CStr) (hk : storeValidateKey key = .ok) :
    (((handleKvPut true req key).serve (Env.quiet now page) st).1.result ≠ .ok →
      ((handleKvPut true req key).serve (Env.quiet now page) st).2 = st) ↔
    ¬ (WriteTarget.kvPut key).Poison now req st := by
  by_cases h : ∃ value, PutInput req value
  · obtain ⟨value, hv⟩ := h
    rw [handleKvPut_stored now page req st key value hk hv]
    by_cases hc : Clean value.bytes
    · have hlen : value.length ≤ STORE_MAX_VALUE_LEN := by
        have := hv.length
        unfold STORE_MAX_VALUE_LEN
        omega
      rw [kvReply_clean key value hk hc hlen]
      refine ⟨fun _ hp => ?_, fun _ hne => absurd rfl hne⟩
      obtain ⟨w, hw, hn, _⟩ := hp
      rw [hw.unique hv] at hn
      exact hn hc
    · have hr : (kvReply true key value).result ≠ .ok := by
        rw [kvReply_not_clean key value hc]
        decide
      have hself : { st with kv := st.kv.put ⟨key, value, now⟩ } = st ↔
          st.kv.get key = some ⟨key, value, now⟩ := by
        rw [Store.kv_eq_self, Table.put_eq_self, Table.get_iff]
        exact ⟨fun hm => ⟨hm, rfl⟩, fun hm => hm.1⟩
      constructor
      · intro ha hp
        obtain ⟨w, hw, _, hne⟩ := hp
        rw [hw.unique hv] at hne
        exact hne (hself.mp (ha hr))
      · intro hp _
        apply hself.mpr
        by_contra hne
        exact hp ⟨value, hv, hc, hne⟩
  · have hrej : ∀ value, ¬ PutInput req value := fun value hv => h ⟨value, hv⟩
    refine ⟨fun _ hp => ?_, fun _ _ => (handleKvPut_rejected req st (Env.quiet now page) key hrej).1⟩
    obtain ⟨w, hw, _⟩ := hp
    exact hrej w hw

theorem kvDel_atomic (key : CStr) (hk : storeValidateKey key = .ok)
    (hr : ((handleKvDel true key).serve (Env.quiet now page) st).1.result ≠ .ok) :
    ((handleKvDel true key).serve (Env.quiet now page) st).2 = st := by
  by_cases hg : st.kv.get key = none
  · rw [handleKvDel_absent now page st key hk hg]
  · rw [handleKvDel_present now page st key hk hg] at hr
    exact absurd answerNoContent_ok hr

theorem noteDel_atomic (id : Long) (hid : 0 < id.val)
    (hr : ((handleNoteDel true id).serve (Env.quiet now page) st).1.result ≠ .ok) :
    ((handleNoteDel true id).serve (Env.quiet now page) st).2 = st := by
  by_cases hg : st.notes.table.get id = none
  · rw [handleNoteDel_absent now page st id hid hg]
  · rw [handleNoteDel_present now page st id hid hg] at hr
    exact absurd answerNoContent_ok hr

theorem noteCreate_atomic_iff :
    (((handleNoteCreate true req).serve (Env.quiet now page) st).1.result ≠ .ok →
      ((handleNoteCreate true req).serve (Env.quiet now page) st).2 = st) ↔
    ¬ WriteTarget.noteCreate.Poison now req st := by
  by_cases h : ∃ title body, NoteInput req title body ∧ st.notes.HasNext
  · obtain ⟨title, body, hi, hn⟩ := h
    rw [handleNoteCreate_stored now page req st title body hi hn]
    by_cases hc : Clean title.bytes ∧ Clean body.bytes
    · have htext := noteRowToJson_clean (createdRow now st hn title body) hi.valid hc.1 hc.2
        StaticBuffer.noteCreateJson.cap 0 (by decide)
      rw [htext, noteCreateReply_ok _ _ htext]
      refine ⟨fun _ hp => ?_, fun _ hne => absurd rfl hne⟩
      obtain ⟨t, b, hi', hn', _⟩ := hp
      obtain ⟨rfl, rfl⟩ := hi'.unique hi
      exact hn' hc
    · rw [noteRowToJson_not_clean _ hc]
      refine ⟨fun ha => ?_, fun hp => absurd ⟨title, body, hi, hc, hn⟩ hp⟩
      have hr : ApiError.internal ≠ .ok := by decide
      have hself := congrArg NoteTable.seq ((Store.notes_eq_self st _).mp (ha hr))
      have hseq : st.notes.seq + 1 = st.notes.seq := hself
      omega
  · have hrej : ∀ title body, ¬ (NoteInput req title body ∧ st.notes.HasNext) :=
      fun title body hi => h ⟨title, body, hi⟩
    refine ⟨fun _ hp => ?_, fun _ _ => handleNoteCreate_rejected now page req st hrej⟩
    obtain ⟨t, b, hi, _, hn⟩ := hp
    exact hrej t b ⟨hi, hn⟩

theorem noteUpdate_atomic_iff (id : Long) (hid : 0 < id.val) :
    (((handleNoteUpdate true req id).serve (Env.quiet now page) st).1.result ≠ .ok →
      ((handleNoteUpdate true req id).serve (Env.quiet now page) st).2 = st) ↔
    ¬ (WriteTarget.noteUpdate id).Poison now req st := by
  by_cases h : ∃ title body row, NoteInput req title body ∧ st.notes.table.get id = some row
  · obtain ⟨title, body, row, hi, hrow⟩ := h
    rw [handleNoteUpdate_stored now page req st id row title body hid hrow hi]
    by_cases hc : Clean title.bytes ∧ Clean body.bytes
    · have htext := noteRowToJson_clean (row.edit title body now) hi.valid hc.1 hc.2
        StaticBuffer.noteGetBody.cap 0 (by decide)
      rw [htext, noteGetReply_ok _ _ htext]
      refine ⟨fun _ hp => ?_, fun _ hne => absurd rfl hne⟩
      obtain ⟨t, b, _, hi', hn', _⟩ := hp
      obtain ⟨rfl, rfl⟩ := hi'.unique hi
      exact hn' hc
    · rw [noteRowToJson_not_clean _ hc]
      have hself : { st with notes := st.notes.update id title body now } = st ↔
          row.edit title body now = row := by
        rw [Store.notes_eq_self]
        exact NoteTable.update_eq_iff st.notes id title body now row hrow
      constructor
      · intro ha hp
        obtain ⟨t, b, row', hi', _, hrow', hne⟩ := hp
        obtain ⟨rfl, rfl⟩ := hi'.unique hi
        rw [hrow] at hrow'
        cases hrow'
        have hr : ApiError.internal ≠ .ok := by decide
        exact hne (hself.mp (ha hr))
      · intro hp _
        apply hself.mpr
        by_contra hne
        exact hp ⟨title, body, row, hi, hc, hrow, hne⟩
  · have hrej : ∀ title body row,
        ¬ (NoteInput req title body ∧ st.notes.table.get id = some row) :=
      fun title body row hi => h ⟨title, body, row, hi⟩
    refine ⟨fun _ hp => ?_, fun _ _ => handleNoteUpdate_rejected now page req st id hrej⟩
    obtain ⟨t, b, row, hi, _, hrow, _⟩ := hp
    exact hrej t b row ⟨hi, hrow⟩

theorem WriteTarget.atomic_iff (t : WriteTarget) (ht : t.Valid) :
    (((t.handler true req).serve (Env.quiet now page) st).1.result ≠ .ok →
      ((t.handler true req).serve (Env.quiet now page) st).2 = st) ↔ ¬ t.Poison now req st := by
  cases t with
  | kvPut key => exact kvPut_atomic_iff now page req st key ht
  | kvDel key => exact ⟨fun _ hp => hp, fun _ => kvDel_atomic now page st key ht⟩
  | noteCreate => exact noteCreate_atomic_iff now page req st
  | noteUpdate id => exact noteUpdate_atomic_iff now page req st id ht
  | noteDel id => exact ⟨fun _ hp => hp, fun _ => noteDel_atomic now page st id ht⟩

/-- **An error leaves the store as it is, exactly unless the request is a poison.** -/
theorem apiDispatch_atomic_iff (server : Server) :
    ((apiDispatch (Env.quiet now page) req st server).1.result ≠ .ok →
      (apiDispatch (Env.quiet now page) req st server).2 = st) ↔ ¬ Poison now server req st := by
  rcases apiRoute_cases (Env.quiet now page) req server with ⟨t, ht, _, _, _, he⟩ | ⟨hn, _⟩
  · have hp : Poison now server req st ↔ t.Poison now req st := by
      constructor
      · intro h
        obtain ⟨t', ht', hp⟩ := h
        rw [ht] at ht'
        cases ht'
        exact hp
      · intro h
        exact ⟨t, ht, h⟩
    rw [hp]
    unfold apiDispatch
    rw [he]
    exact t.atomic_iff now page req st (writeTarget_valid server req t ht)
  · refine ⟨fun _ hp => ?_, fun _ _ => apiDispatch_noTarget _ _ _ _ hn⟩
    obtain ⟨t, ht, _⟩ := hp
    rw [hn] at ht
    cases ht

end

/-- `PUT /api/kv/k` of the value 0x01, standing for itself in the body -/
def rawControlPut : HttpRequest :=
  { HttpRequest.zero with
    method := .put
    path := CBuf.print _ pathLen_pos (.lit "/api/kv/k")
    contentLength := 13
    contentType := CBuf.print _ contentTypeLen_pos (.lit "application/json")
    body := some (ascii "\x7b\"value\":\"" ++ [1] ++ ascii "\"\x7d") }

/-- the value is written, and the answer is 500 -/
theorem apiDispatch_writes_then_fails :
    (apiDispatch (Env.quiet (Long.clamp 0) []) rawControlPut Store.empty openServer).1.result
      = .internal ∧
    (apiDispatch (Env.quiet (Long.clamp 0) []) rawControlPut Store.empty openServer).2
      ≠ Store.empty := by
  have h : (apiDispatch (Env.quiet (Long.clamp 0) []) rawControlPut Store.empty openServer).1.result
      = .internal ∧
    (apiDispatch (Env.quiet (Long.clamp 0) []) rawControlPut Store.empty openServer).2.kv.rows.length
      = 1 := by decide +kernel
  refine ⟨h.1, fun he => ?_⟩
  have hlen := h.2
  rw [he] at hlen
  cases hlen

end CServer
