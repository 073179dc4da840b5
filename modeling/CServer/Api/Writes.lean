import CServer.Api.Access

/-!
# The handlers when nothing fails

What each handler does under `Env.quiet`: which inputs it stores, what the store is afterwards,
and what it answers.

* `PutInput`, `NoteInput`        the requests that a PUT, a POST or a note PUT accepts;
* `handleKvPut_stored`, ...      an accepted request is stored, then rendered;
* `handleKvPut_rejected`, ...    any other leaves the store as it is;
* `KvFits`, `kvReply_clean`     a clean value can be rendered, within the buffers of its reply.
-/

namespace CServer

/-! ## rendering -/

theorem answerWith_json (status : Nat) (body : Bytes) (hs : status < 10 ^ 3)
    (hb : body.length < 10 ^ 20) :
    answerWith true (jsonResponse status body) = ⟨.ok, [jsonResponse status body]⟩ := by
  have hfit : (responseHeader (jsonResponse status body)).length < 1024 := by
    apply responseHeader_length _ hs _ hb
    · intro a ha
      cases ha
    · show APPLICATION_JSON.length ≤ 64
      decide
  unfold answerWith
  rw [httpRespond_fits true _ hfit]
  rfl

theorem answerPrinted_below (sendOk : Bool) (cap : Nat) (text : Bytes) (h : text.length < cap) :
    answerPrinted sendOk cap text = answerWith sendOk (jsonResponse 200 text) :=
  if_neg (Nat.not_le.mpr h)

theorem answerPrinted_fits (cap : Nat) (text : Bytes) (hcap : cap ≤ 10 ^ 20)
    (h : text.length < cap) :
    answerPrinted true cap text = ⟨.ok, [jsonResponse 200 text]⟩ := by
  rw [answerPrinted_below _ _ _ h]
  exact answerWith_json 200 text (by decide) (by omega)

/-- The escaped key, the escaped value and the object printed from them fit their arrays. -/
structure KvFits (key value : CStr) : Prop where
  escapedKey : jsonEscape (STORE_MAX_KEY_LEN * 2 + 1) key = some (escapeText key.bytes)
  escapedValue : jsonEscape (STORE_MAX_VALUE_LEN * 2 + 1) value = some (escapeText value.bytes)
  body : (kvItem (escapeText key.bytes) (escapeText value.bytes)).length
    < STORE_MAX_VALUE_LEN * 2 + 512

theorem kvFits (key value : CStr) (hk : storeValidateKey key = .ok) (hv : Clean value.bytes)
    (hlen : value.length ≤ STORE_MAX_VALUE_LEN) : KvFits key value := by
  have hkl : key.length ≤ STORE_MAX_KEY_LEN := ((storeValidateKey_ok key).mp hk).2.1
  have h1 := escapeText_length_le key.bytes
  have h2 := escapeText_length_le value.bytes
  have hk' : key.bytes.length ≤ STORE_MAX_KEY_LEN := hkl
  have hv' : value.bytes.length ≤ STORE_MAX_VALUE_LEN := hlen
  unfold STORE_MAX_KEY_LEN at hk'
  unfold STORE_MAX_VALUE_LEN at hv'
  refine ⟨jsonEscape_of_clean _ key (validKey_clean key hk) (by omega),
    jsonEscape_of_clean _ value hv (by omega), ?_⟩
  rw [kvItem_length]
  unfold STORE_MAX_VALUE_LEN
  omega

theorem KvFits.reply {key value : CStr} (h : KvFits key value) (sendOk : Bool) :
    kvReply sendOk key value = answerWith sendOk
      (jsonResponse 200 (kvItem (escapeText key.bytes) (escapeText value.bytes))) := by
  unfold kvReply
  rw [h.escapedKey, h.escapedValue]
  exact answerPrinted_below _ _ _ h.body

theorem kvReply_clean (key value : CStr) (hk : storeValidateKey key = .ok)
    (hv : Clean value.bytes) (hlen : value.length ≤ STORE_MAX_VALUE_LEN) :
    kvReply true key value =
      ⟨.ok, [jsonResponse 200 (kvItem (escapeText key.bytes) (escapeText value.bytes))]⟩ := by
  have hfits := kvFits key value hk hv hlen
  have hbody := hfits.body
  rw [hfits.reply]
  apply answerWith_json 200 _ (by decide)
  exact lt_trans hbody (by decide)

theorem kvReply_not_clean (key value : CStr) (hv : ¬ Clean value.bytes) :
    (kvReply true key value).result = .internal := by
  unfold kvReply
  rw [jsonEscape_of_not_clean _ value hv]
  rfl


/-! ## accepted requests -/

/-- The request has a body in which exactly one member reads as `field`, and its value reads as
`out`. -/
def Decodes (req : HttpRequest) (field : String) (outCap : Nat) (out : CStr) : Prop :=
  ∃ body, req.body = some body ∧ Reads body (.lit field) outCap out

theorem jsonGetString_decodes (req : HttpRequest) (field : String) (outCap : Nat) (out : CStr) :
    jsonGetString req.body (.lit field) outCap = .ok out ↔ Decodes req field outCap out := by
  unfold Decodes
  cases req.body with
  | none => exact ⟨fun h => (by cases h), fun h => by obtain ⟨_, h, _⟩ := h; cases h⟩
  | some body =>
    rw [jsonGetString_ok_iff]
    exact ⟨fun h => ⟨body, rfl, h⟩, fun h => by obtain ⟨_, hb, h⟩ := h; cases hb; exact h⟩

theorem Decodes.length {req : HttpRequest} {field : String} {outCap : Nat} {out : CStr}
    (h : Decodes req field outCap out) : out.length < JSON_VALUE_CAP ∧ out.length < outCap :=
  jsonGetString_ok_length _ _ _ _ ((jsonGetString_decodes _ _ _ _).mpr h)

structure PutInput (req : HttpRequest) (value : CStr) : Prop where
  json : apiRequireJson req true = .ok
  reads : Decodes req "value" (STORE_MAX_VALUE_LEN + 1) value

structure NoteInput (req : HttpRequest) (title body : CStr) : Prop where
  json : apiRequireJson req true = .ok
  readsTitle : Decodes req "title" (STORE_MAX_TITLE_LEN + 1) title
  readsBody : Decodes req "body" (STORE_MAX_BODY_LEN + 1) body
  valid : validateNoteFields title body = .ok

theorem NoteInput.submits {req : HttpRequest} {title body : CStr} (h : NoteInput req title body) :
    Submits req title body :=
  ⟨(jsonGetString_decodes _ _ _ _).mpr h.readsTitle, (jsonGetString_decodes _ _ _ _).mpr h.readsBody⟩

theorem Submits.input {req : HttpRequest} {title body : CStr} (h : Submits req title body)
    (hjson : apiRequireJson req true = .ok) (hvalid : validateNoteFields title body = .ok) :
    NoteInput req title body :=
  ⟨hjson, (jsonGetString_decodes _ _ _ _).mp h.1, (jsonGetString_decodes _ _ _ _).mp h.2, hvalid⟩

theorem PutInput.length {req : HttpRequest} {value : CStr} (h : PutInput req value) :
    value.length ≤ 8191 := Nat.le_of_lt_succ h.reads.length.1

theorem PutInput.unique {req : HttpRequest} {v w : CStr} (hv : PutInput req v)
    (hw : PutInput req w) : v = w := by
  have h := (jsonGetString_decodes _ _ _ _).mpr hv.reads
  rw [(jsonGetString_decodes _ _ _ _).mpr hw.reads] at h
  exact (Except.ok.inj h).symm

theorem NoteInput.unique {req : HttpRequest} {t b t' b' : CStr} (h : NoteInput req t b)
    (h' : NoteInput req t' b') : t = t' ∧ b = b' := by
  obtain ⟨ht, hb⟩ := h.submits
  rw [h'.submits.1] at ht
  rw [h'.submits.2] at hb
  exact ⟨(Except.ok.inj ht).symm, (Except.ok.inj hb).symm⟩

/-! ## the writing handlers -/

section
variable (now : Long) (page : Bytes) (req : HttpRequest) (st : Store)

theorem handleKvPut_stored (key value : CStr) (hk : storeValidateKey key = .ok)
    (h : PutInput req value) :
    (handleKvPut true req key).serve (Env.quiet now page) st =
      (kvReply true key value, { st with kv := st.kv.put ⟨key, value, now⟩ }) := by
  have hv : validateValue value = .ok := by
    have hlen := h.length
    unfold validateValue
    rw [if_neg (by unfold STORE_MAX_VALUE_LEN; omega)]
  have hput : storeKvPut .none now st.kv key value = (.ok, st.kv.put ⟨key, value, now⟩) := by
    unfold storeKvPut
    rw [if_neg (by simp [hk]), if_neg (by simp [hv]), if_neg (by simp)]
  rw [handleKvPut_call true req key value h.json ((jsonGetString_decodes _ _ _ _).mpr h.reads)]
  show (kvPutReply true key value (storeKvPut .none now st.kv key value).1,
    { st with kv := (storeKvPut .none now st.kv key value).2 }) = _
  rw [hput]
  rfl

theorem handleKvPut_rejected (env : Env) (key : CStr) (h : ∀ value, ¬ PutInput req value) :
    ((handleKvPut env.sendOk req key).serve env st).2 = st ∧
      ((handleKvPut env.sendOk req key).serve env st).1.result ≠ .ok := by
  rcases handleKvPut_cases env.sendOk req key with hs | ⟨value, hjson, hvalue, _⟩
  · exact hs.serve env st
  · exact absurd ⟨hjson, (jsonGetString_decodes _ _ _ _).mp hvalue⟩ (h value)

theorem handleKvGet_present (key : CStr) (row : KvRow) (hk : storeValidateKey key = .ok)
    (hrow : st.kv.get key = some row) (hlen : row.value.length ≤ STORE_MAX_VALUE_LEN) :
    (handleKvGet true key).serve (Env.quiet now page) st = (kvReply true key row.value, st) := by
  have hget := storeKvGet_row st.kv key row (STORE_MAX_VALUE_LEN + 1) hk hrow (by omega)
  show (kvGetReply true key (storeKvGet .none st.kv key (STORE_MAX_VALUE_LEN + 1)), st) = _
  rw [hget]
  rfl

theorem handleKvGet_absent (key : CStr) (hk : storeValidateKey key = .ok)
    (hrow : st.kv.get key = none) :
    (handleKvGet true key).serve (Env.quiet now page) st =
      (answerError true .notFound "key not found", st) := by
  have hget : storeKvGet .none st.kv key (STORE_MAX_VALUE_LEN + 1) = .error .notFound := by
    unfold storeKvGet
    rw [if_neg (by omega), if_neg (by simp [hk]), if_neg (by simp), hrow]
  show (kvGetReply true key (storeKvGet .none st.kv key (STORE_MAX_VALUE_LEN + 1)), st) = _
  rw [hget]
  rfl

theorem handleKvDel_present (key : CStr) (hk : storeValidateKey key = .ok)
    (h : st.kv.get key ≠ none) :
    (handleKvDel true key).serve (Env.quiet now page) st =
      (answerNoContent true, { st with kv := st.kv.erase key }) := by
  have hdel : storeKvDel .none st.kv key = (.ok, st.kv.erase key) := by
    unfold storeKvDel
    rw [if_neg (by simp [hk]), if_neg (by simp)]
    cases hg : st.kv.get key with
    | none => exact absurd hg h
    | some row => rfl
  show (kvDelReply true (storeKvDel .none st.kv key).1,
    { st with kv := (storeKvDel .none st.kv key).2 }) = _
  rw [hdel]
  rfl

theorem handleKvDel_absent (key : CStr) (hk : storeValidateKey key = .ok)
    (h : st.kv.get key = none) :
    (handleKvDel true key).serve (Env.quiet now page) st =
      (answerError true .notFound "key not found", st) := by
  have hdel : storeKvDel .none st.kv key = (.notFound, st.kv) := by
    unfold storeKvDel
    rw [if_neg (by simp [hk]), if_neg (by simp), h, st.kv.erase_eq_self key h]
  show (kvDelReply true (storeKvDel .none st.kv key).1,
    { st with kv := (storeKvDel .none st.kv key).2 }) = _
  rw [hdel]
  rfl

theorem answerNoContent_ok : (answerNoContent true).result = .ok := by
  unfold answerNoContent answerWith
  rw [httpRespond_fits]
  · rfl
  · decide +kernel

/-- the new row of a POST -/
def createdRow (hn : st.notes.HasNext) (title body : CStr) : NoteRow :=
  ⟨st.notes.nextId hn, title, body, now, now⟩

theorem handleNoteCreate_stored (title body : CStr) (h : NoteInput req title body)
    (hn : st.notes.HasNext) :
    (handleNoteCreate true req).serve (Env.quiet now page) st =
      (noteCreateReply true
        (noteRowToJson (createdRow now st hn title body) StaticBuffer.noteCreateJson.cap 0),
        { st with notes := st.notes.insert hn title body now }) := by
  have hcreate : storeNoteCreate .none now st.notes title body =
      (.ok (st.notes.nextId hn), st.notes.insert hn title body now) := by
    unfold storeNoteCreate
    rw [if_neg (by simp [h.valid]), if_neg (by simp), dif_pos hn]
  have hget : storeNoteGet .none (st.notes.insert hn title body now) (st.notes.nextId hn)
      StaticBuffer.noteCreateJson.cap =
      noteRowToJson (createdRow now st hn title body) StaticBuffer.noteCreateJson.cap 0 := by
    have hid : 0 < (st.notes.nextId hn).val := by
      show (0 : Int) < (st.notes.seq : Int) + 1
      omega
    have hrow : (st.notes.insert hn title body now).table.get (st.notes.nextId hn) =
        some (createdRow now st hn title body) := by
      show (st.notes.table.put _).get _ = _
      rw [Table.get_put]
      exact if_pos rfl
    exact storeNoteGet_row .none _ _ _ _ hid (by decide) (by decide) hrow
  rw [handleNoteCreate_call true req title body h.json h.submits]
  show Program.run _ 1
    (noteCreateNext true (storeNoteCreate .none now st.notes title body).1)
    { st with notes := (storeNoteCreate .none now st.notes title body).2 } = _
  rw [hcreate, ← hget]
  rfl

theorem handleNoteCreate_rejected (h : ∀ title body, ¬ (NoteInput req title body ∧ st.notes.HasNext)) :
    ((handleNoteCreate true req).serve (Env.quiet now page) st).2 = st := by
  rcases handleNoteCreate_cases true req with hs | ⟨title, body, hjson, hsubmits, hcall⟩
  · exact (hs.serve _ st).1
  · rw [hcall]
    show (Program.run _ 1
      (noteCreateNext true (storeNoteCreate .none now st.notes title body).1)
      { st with notes := (storeNoteCreate .none now st.notes title body).2 }).2 = st
    rcases storeNoteCreate_cases .none now st.notes title body with ⟨e, _, hr⟩ | ⟨hv, hn, _⟩
    · rw [hr]
      rfl
    · exact absurd ⟨hsubmits.input hjson hv, hn⟩ (h title body)

theorem update_get (notes : NoteTable) (id : Long) (row : NoteRow) (title body : CStr)
    (hrow : notes.table.get id = some row) :
    (notes.update id title body now).table.get id = some (row.edit title body now) := by
  show (notes.table.modify id (NoteRow.edit title body now)
    (NoteRow.edit_id title body now)).get id = _
  rw [Table.get_modify, if_pos rfl, hrow]
  rfl

theorem handleNoteGet_present (id : Long) (row : NoteRow) (hid : 0 < id.val)
    (hrow : st.notes.table.get id = some row) :
    (handleNoteGet true id).serve (Env.quiet now page) st =
      (noteGetReply true (noteRowToJson row StaticBuffer.noteGetBody.cap 0), st) := by
  have hget := storeNoteGet_row .none st.notes id row StaticBuffer.noteGetBody.cap hid (by decide)
    (by decide) hrow
  rw [← hget]
  rfl

theorem handleNoteGet_absent (id : Long) (hid : 0 < id.val) (hrow : st.notes.table.get id = none) :
    (handleNoteGet true id).serve (Env.quiet now page) st =
      (answerError true .notFound "note not found", st) := by
  have hget : storeNoteGet .none st.notes id StaticBuffer.noteGetBody.cap = .error .notFound := by
    unfold storeNoteGet
    rw [if_neg (by omega), if_neg (by simp), hrow]
  show (noteGetReply true (storeNoteGet .none st.notes id StaticBuffer.noteGetBody.cap), st) = _
  rw [hget]
  rfl

theorem handleNoteUpdate_stored (id : Long) (row : NoteRow) (title body : CStr)
    (hid : 0 < id.val) (hrow : st.notes.table.get id = some row) (h : NoteInput req title body) :
    (handleNoteUpdate true req id).serve (Env.quiet now page) st =
      (noteGetReply true
        (noteRowToJson (row.edit title body now) StaticBuffer.noteGetBody.cap 0),
        { st with notes := st.notes.update id title body now }) := by
  have hupdate : storeNoteUpdate .none now st.notes id title body =
      (.ok, st.notes.update id title body now) := by
    unfold storeNoteUpdate
    rw [if_neg (by omega), if_neg (by simp [h.valid]), if_neg (by simp), hrow]
  rw [handleNoteUpdate_call true req id title body h.json h.submits]
  show Program.run _ 1
    (noteUpdateNext true id (storeNoteUpdate .none now st.notes id title body).1)
    { st with notes := (storeNoteUpdate .none now st.notes id title body).2 } = _
  rw [hupdate]
  exact handleNoteGet_present now page _ id _ hid (update_get now st.notes id row title body hrow)

theorem handleNoteUpdate_absent (id : Long) (title body : CStr) (hid : 0 < id.val)
    (hrow : st.notes.table.get id = none) (h : NoteInput req title body) :
    (handleNoteUpdate true req id).serve (Env.quiet now page) st =
      (answerError true .notFound "note not found", st) := by
  have hupdate : storeNoteUpdate .none now st.notes id title body = (.notFound, st.notes) := by
    unfold storeNoteUpdate
    rw [if_neg (by omega), if_neg (by simp [h.valid]), if_neg (by simp), hrow,
      st.notes.update_absent id title body now hrow]
  rw [handleNoteUpdate_call true req id title body h.json h.submits]
  show Program.run _ 1
    (noteUpdateNext true id (storeNoteUpdate .none now st.notes id title body).1)
    { st with notes := (storeNoteUpdate .none now st.notes id title body).2 } = _
  rw [hupdate]
  rfl

theorem handleNoteUpdate_rejected (id : Long)
    (h : ∀ title body row, ¬ (NoteInput req title body ∧ st.notes.table.get id = some row)) :
    ((handleNoteUpdate true req id).serve (Env.quiet now page) st).2 = st := by
  rcases handleNoteUpdate_cases true req id with hs | ⟨title, body, hjson, hsubmits, hcall⟩
  · exact (hs.serve _ st).1
  · rw [hcall]
    show (Program.run _ 1
      (noteUpdateNext true id (storeNoteUpdate .none now st.notes id title body).1)
      { st with notes := (storeNoteUpdate .none now st.notes id title body).2 }).2 = st
    rcases storeNoteUpdate_cases .none now st.notes id title body with
      ⟨e, he, hr⟩ | ⟨_, hv, row, hrow, _⟩
    · rw [hr]
      unfold noteUpdateNext
      rw [if_pos he]
      rfl
    · exact absurd ⟨hsubmits.input hjson hv, hrow⟩ (h title body row)

theorem handleNoteDel_present (id : Long) (hid : 0 < id.val)
    (h : st.notes.table.get id ≠ none) :
    (handleNoteDel true id).serve (Env.quiet now page) st =
      (answerNoContent true, { st with notes := st.notes.delete id }) := by
  have hdel : storeNoteDel .none st.notes id = (.ok, st.notes.delete id) := by
    unfold storeNoteDel
    rw [if_neg (by omega), if_neg (by simp)]
    cases hg : st.notes.table.get id with
    | none => exact absurd hg h
    | some row => rfl
  show (noteDelReply true (storeNoteDel .none st.notes id).1,
    { st with notes := (storeNoteDel .none st.notes id).2 }) = _
  rw [hdel]
  rfl

theorem handleNoteDel_absent (id : Long) (hid : 0 < id.val) (h : st.notes.table.get id = none) :
    (handleNoteDel true id).serve (Env.quiet now page) st =
      (answerError true .notFound "note not found", st) := by
  have hdel : storeNoteDel .none st.notes id = (.notFound, st.notes) := by
    unfold storeNoteDel
    rw [if_neg (by omega), if_neg (by simp), h, st.notes.delete_eq_self id h]
  show (noteDelReply true (storeNoteDel .none st.notes id).1,
    { st with notes := (storeNoteDel .none st.notes id).2 }) = _
  rw [hdel]
  rfl

end

end CServer
