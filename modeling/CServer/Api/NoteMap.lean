import CServer.Api.KvMap
import CServer.Store.NoteText

/-!
# The notes API as a table

* `NoteOp`, `NoteOp.Asks`   an operation on `/api/notes` and `/api/notes/:id` within the documented
                            limits, and the requests that ask for it;
* `NoteSpec`                a table of titles and bodies with ids that are handed out in order, with
                            the answers that each operation gets;
* `noteStep`                one request on a store that holds the table;
* `noteMap_iff`             a run is answered as the table says, exactly when every member of a
                            submitted object fits the arrays of the decoder.
-/

namespace CServer
open FlatJson

/-! ## operations -/

/-- The body is a strict object in which one member is the title and one the body. -/
def EncodesNote (text : Bytes) (title body : CStr) : Prop :=
  ∃ d : Doc, d.Strict ∧ d.text = text ∧ matching (.lit "title") d.members = [title.bytes] ∧
    matching (.lit "body") d.members = [body.bytes]

/-- the documented limits, and no byte that is rendered as `\u` -/
structure NoteLimits (title body : CStr) : Prop where
  titlePos : 0 < title.length
  titleLen : title.length ≤ STORE_MAX_TITLE_LEN
  bodyLen : body.length ≤ STORE_MAX_BODY_LEN
  title : Clean title.bytes
  body : Clean body.bytes

structure SubmitsNote (req : HttpRequest) (title body : CStr) : Prop where
  json : apiRequireJson req true = .ok
  limits : NoteLimits title body
  encodes : ∃ text, req.body = some text ∧ text.length ≤ HTTP_MAX_BODY_SIZE ∧
    EncodesNote text title body

inductive NoteOp where
  | create (title body : CStr)
  | get (id : Long)
  | update (id : Long) (title body : CStr)
  | delete (id : Long)

/-- `req` asks for the operation; `:id` is read as the router reads it. -/
def NoteOp.Asks (req : HttpRequest) : NoteOp → Prop
  | .create title body => req.method = .post ∧
      (req.path.bytes = ascii "/api/notes" ∨ req.path.bytes = ascii "/api/notes/") ∧
      SubmitsNote req title body
  | .get id => req.method = .get ∧ parseNoteId req.path.toCStr = .ok id
  | .update id title body => req.method = .put ∧ parseNoteId req.path.toCStr = .ok id ∧
      SubmitsNote req title body
  | .delete id => req.method = .delete ∧ parseNoteId req.path.toCStr = .ok id

/-- a request for an operation, to a server without a key -/
structure NoteCall where
  incoming : Incoming
  op : NoteOp
  openMode : serverAuthEnabled incoming.server = false
  asks : op.Asks incoming.req

namespace NoteCall

def answer (st : Store) (c : NoteCall) : Answer :=
  (apiDispatch (Env.quiet c.incoming.now c.incoming.page) c.incoming.req st c.incoming.server).1

def step (st : Store) (c : NoteCall) : Store := st.after c.incoming

/-- every member of the submitted object fits `name[128]` and `value[8192]` of `json_get_string` -/
def Small (c : NoteCall) : Prop :=
  match c.op with
  | .create _ _ | .update _ _ _ =>
    ∀ d : Doc, c.incoming.req.body = some d.text → ∀ m ∈ d.members, Fits m
  | _ => True

end NoteCall

/-! ## the table -/

/-- The titles and bodies by id. The ids 1 to `handed` have been handed out, and every note has one
of them. -/
structure NoteSpec where
  notes : Long → Option (CStr × CStr)
  handed : Nat
  numbered : ∀ id, notes id ≠ none → id.val ≤ handed

namespace NoteSpec

def empty : NoteSpec := ⟨fun _ => none, 0, fun _ h => absurd rfl h⟩

/-- the id of the next POST -/
def newId (m : NoteSpec) : Long := Long.clamp (m.handed + 1)

def put (m : NoteSpec) (id : Long) (note : CStr × CStr) (handed : Nat) (hmore : m.handed ≤ handed)
    (hid : id.val ≤ handed) : NoteSpec where
  notes := Function.update m.notes id (some note)
  handed := handed
  numbered := by
    intro id' hne
    by_cases hsame : id' = id
    · rw [hsame]
      exact hid
    · rw [Function.update_of_ne hsame] at hne
      have hle := m.numbered id' hne
      omega

def remove (m : NoteSpec) (id : Long) : NoteSpec where
  notes := Function.update m.notes id none
  handed := m.handed
  numbered := by
    intro id' hne
    by_cases hsame : id' = id
    · rw [hsame, Function.update_self] at hne
      exact absurd rfl hne
    · rw [Function.update_of_ne hsame] at hne
      exact m.numbered id' hne

theorem newId_le (m : NoteSpec) : m.newId.val ≤ (m.handed + 1 : Nat) := by
  unfold newId Long.clamp
  split_ifs
  · omega
  · show (2 ^ 63 - 1 : Int) ≤ _
    omega
  · exact le_refl _

theorem isSome_le (m : NoteSpec) (id : Long) (h : (m.notes id).isSome) : id.val ≤ m.handed :=
  m.numbered id fun hnone => by
    rw [hnone] at h
    cases h

def next (m : NoteSpec) (c : NoteCall) : NoteSpec :=
  match c.op with
  | .create title body => m.put m.newId (title, body) (m.handed + 1) (Nat.le_succ _) m.newId_le
  | .get _ => m
  | .update id title body =>
    if h : (m.notes id).isSome then m.put id (title, body) m.handed (le_refl _) (m.isSome_le id h)
    else m
  | .delete id => m.remove id

/-- one response of the status, with the note -/
def Shows (a : Answer) (status : Nat) (id : Long) (title body : CStr) : Prop :=
  ∃ text, a = ⟨.ok, [jsonResponse status text]⟩ ∧ NoteText text id title body

def Allows (m : NoteSpec) (c : NoteCall) (a : Answer) : Prop :=
  match c.op with
  | .create title body =>
    m.handed < m.newId.val ∧ m.notes m.newId = none ∧ Shows a 201 m.newId title body
  | .get id =>
    match m.notes id with
    | some (title, body) => Shows a 200 id title body
    | none => a.Is .notFound 404
  | .update id title body =>
    if (m.notes id).isSome then Shows a 200 id title body else a.Is .notFound 404
  | .delete id => if (m.notes id).isSome then a.Is .ok 204 else a.Is .notFound 404

theorem newId_val (m : NoteSpec) (h : m.handed + 1 < 2 ^ 63) : m.newId.val = m.handed + 1 := by
  unfold newId Long.clamp
  rw [dif_neg (by omega), dif_neg (by omega)]

/-- an id that has not been handed out has no note -/
theorem fresh (m : NoteSpec) (id : Long) (hid : m.handed < id.val) : m.notes id = none := by
  by_contra hne
  have hle := m.numbered id hne
  omega

/-- an operation leaves the notes of the other ids alone -/
theorem next_other (m : NoteSpec) (c : NoteCall) (id : Long)
    (hcreate : ∀ title body, c.op = .create title body → id ≠ m.newId)
    (hother : ∀ id' title body, c.op = .update id' title body ∨ c.op = .delete id' → id ≠ id') :
    (m.next c).notes id = m.notes id := by
  unfold next
  cases hop : c.op with
  | create title body => exact Function.update_of_ne (hcreate title body hop) _ _
  | get id' => rfl
  | update id' title body =>
    simp only
    split_ifs
    · exact Function.update_of_ne (hother id' title body (.inl hop)) _ _
    · rfl
  | delete id' => exact Function.update_of_ne (hother id' CStr.empty CStr.empty (.inr hop)) _ _

end NoteSpec

/-- The store holds the table, and every note of it can be rendered. -/
structure HoldsNotes (st : Store) (m : NoteSpec) : Prop where
  handed : st.notes.seq = m.handed
  get : ∀ id, (st.notes.table.get id).map (fun r => (r.title, r.body)) = m.notes id
  limits : ∀ id title body, m.notes id = some (title, body) → NoteLimits title body

theorem holdsNotes_empty : HoldsNotes Store.empty NoteSpec.empty :=
  ⟨rfl, fun _ => rfl, fun _ _ _ h => by cases h⟩

/-! ## the submitted note -/

/-- The two members are decoded when all members fit. -/
theorem SubmitsNote.input {req : HttpRequest} {title body : CStr} (h : SubmitsNote req title body)
    (hsmall : ∀ d : Doc, req.body = some d.text → ∀ m ∈ d.members, Fits m) :
    NoteInput req title body := by
  obtain ⟨text, htext, _, d, _, rfl, ht, hb⟩ := h.encodes
  have hfits := hsmall d htext
  have htitle := h.limits.titleLen
  have hbody := h.limits.bodyLen
  refine ⟨h.json, ⟨_, htext, d, rfl, hfits, title.bytes, ht, (CStr.ofBytes_eq title).symm, ?_⟩,
    ⟨_, htext, d, rfl, hfits, body.bytes, hb, (CStr.ofBytes_eq body).symm, ?_⟩, ?_⟩
  · exact Nat.lt_succ_of_le htitle
  · exact Nat.lt_succ_of_le hbody
  · exact (validateNoteFields_ok _ _).mpr ⟨h.limits.titlePos, htitle, hbody⟩

/-- A member that does not fit keeps every field from being decoded. -/
theorem decodes_fits {req : HttpRequest} {field : String} {outCap : Nat} {out : CStr}
    (h : Decodes req field outCap out) :
    ∀ d : Doc, req.body = some d.text → ∀ m ∈ d.members, Fits m := by
  obtain ⟨text, htext, d', hd', hfits, _⟩ := h
  intro d hd
  rw [htext] at hd
  have hsame : d' = d := Doc.text_injective _ _ (hd'.trans (Option.some.inj hd))
  exact hsame ▸ hfits

section
variable (now : Long) (page : Bytes) (req : HttpRequest) (st : Store)

/-- a POST whose title cannot be decoded -/
theorem handleNoteCreate_undecoded (h : ∀ title, ¬ Decodes req "title" (STORE_MAX_TITLE_LEN + 1) title) :
    ((handleNoteCreate true req).serve (Env.quiet now page) st).1.result ≠ .ok := by
  unfold handleNoteCreate
  by_cases hc : apiRequireJson req true ≠ .ok
  · simp only [if_pos hc]
    exact hc
  · simp only [if_neg hc]
    cases ht : jsonGetString req.body (.lit "title") (STORE_MAX_TITLE_LEN + 1) with
    | error e =>
      have he : e ≠ .ok := (jsonGetString_error _ _ _ e ht).ne_ok
      exact he
    | ok title => exact absurd ((jsonGetString_decodes _ _ _ _).mp ht) (h title)

/-- a PUT whose title cannot be decoded is a bad request, whether there is such a note or not -/
theorem handleNoteUpdate_undecoded (id : Long) (hjson : apiRequireJson req true = .ok)
    (h : ∀ title, ¬ Decodes req "title" (STORE_MAX_TITLE_LEN + 1) title) :
    ((handleNoteUpdate true req id).serve (Env.quiet now page) st).1.result = .badRequest := by
  unfold handleNoteUpdate
  simp only [hjson, ne_eq, not_true_eq_false, if_false]
  cases ht : jsonGetString req.body (.lit "title") (STORE_MAX_TITLE_LEN + 1) with
  | error e => rfl
  | ok title => exact absurd ((jsonGetString_decodes _ _ _ _).mp ht) (h title)

end

/-- the rendering of a note of the table -/
theorem noteRow_shows (status : Nat) (hs : status < 10 ^ 3) (row : NoteRow) (outCap : Nat)
    (hcap : outCap = 17408) (h : NoteLimits row.title row.body) :
    ∃ text, noteRowToJson row outCap 0 = .ok text ∧
      NoteSpec.Shows (answerWith true (jsonResponse status text)) status row.id row.title
        row.body := by
  have hbounded : row.Bounded := (validateNoteFields_ok _ _).mpr ⟨h.titlePos, h.titleLen, h.bodyLen⟩
  have hjson := noteRowToJson_clean row hbounded h.title h.body outCap 0 (by omega)
  have hlen := noteRowToJson_length row outCap 0 _ hjson
  refine ⟨_, hjson, _, answerWith_json status _ hs (by omega), noteItem_text row h.title h.body⟩

/-! ## one request -/

/-- a request for notes runs the handler of its path and method -/
theorem NoteCall.serve (c : NoteCall) (st : Store) (h : Handler)
    (hroute : apiRoute (Env.quiet c.incoming.now c.incoming.page) c.incoming.req c.incoming.server = h) :
    (c.answer st, c.step st) = Handler.serve (Env.quiet c.incoming.now c.incoming.page) h st := by
  rw [← hroute]
  rfl

section
variable (c : NoteCall) (st : Store) (m : NoteSpec) (id : Long) (title body : CStr)

theorem NoteCall.routeId (hid : parseNoteId c.incoming.req.path.toCStr = .ok id) :
    apiRoute (Env.quiet c.incoming.now c.incoming.page) c.incoming.req c.incoming.server =
      match c.incoming.req.method with
      | .get => handleNoteGet true id
      | .put => handleNoteUpdate true c.incoming.req id
      | .delete => handleNoteDel true id
      | _ => .done (answerMethodNotAllowed true "GET, PUT, DELETE") :=
  apiRoute_note _ _ _ id hid fun _ => serverAuthCheck_open _ _ c.openMode

theorem NoteCall.createServe (hop : c.op = .create title body) :
    (c.answer st, c.step st) = (handleNoteCreate true c.incoming.req).serve
      (Env.quiet c.incoming.now c.incoming.page) st ∧ SubmitsNote c.incoming.req title body := by
  have hasks := c.asks
  rw [hop] at hasks
  obtain ⟨hmethod, hpath, hsubmits⟩ := hasks
  have hroute := apiRoute_notes (Env.quiet c.incoming.now c.incoming.page) c.incoming.req
    c.incoming.server hpath fun _ => serverAuthCheck_open _ _ c.openMode
  rw [hmethod] at hroute
  exact ⟨c.serve st _ hroute, hsubmits⟩

theorem NoteCall.updateServe (hop : c.op = .update id title body) :
    (c.answer st, c.step st) = (handleNoteUpdate true c.incoming.req id).serve
      (Env.quiet c.incoming.now c.incoming.page) st ∧ 0 < id.val ∧
      SubmitsNote c.incoming.req title body := by
  have hasks := c.asks
  rw [hop] at hasks
  obtain ⟨hmethod, hid, hsubmits⟩ := hasks
  have hroute := c.routeId id hid
  rw [hmethod] at hroute
  exact ⟨c.serve st _ hroute, (parseNoteId_path _ _ hid).2.2, hsubmits⟩

theorem NoteCall.getServe (hop : c.op = .get id) :
    (c.answer st, c.step st) = (handleNoteGet true id).serve
      (Env.quiet c.incoming.now c.incoming.page) st ∧ 0 < id.val := by
  have hasks := c.asks
  rw [hop] at hasks
  obtain ⟨hmethod, hid⟩ := hasks
  have hroute := c.routeId id hid
  rw [hmethod] at hroute
  exact ⟨c.serve st _ hroute, (parseNoteId_path _ _ hid).2.2⟩

theorem NoteCall.deleteServe (hop : c.op = .delete id) :
    (c.answer st, c.step st) = (handleNoteDel true id).serve
      (Env.quiet c.incoming.now c.incoming.page) st ∧ 0 < id.val := by
  have hasks := c.asks
  rw [hop] at hasks
  obtain ⟨hmethod, hid⟩ := hasks
  have hroute := c.routeId id hid
  rw [hmethod] at hroute
  exact ⟨c.serve st _ hroute, (parseNoteId_path _ _ hid).2.2⟩

/-- what the store has of a note of the table -/
theorem HoldsNotes.row {st : Store} {m : NoteSpec} (h : HoldsNotes st m) {id : Long}
    (hsome : (m.notes id).isSome) : ∃ row, st.notes.table.get id = some row ∧ row.id = id ∧
      m.notes id = some (row.title, row.body) ∧ NoteLimits row.title row.body := by
  have hget := h.get id
  cases hrow : st.notes.table.get id with
  | none =>
    rw [hrow] at hget
    rw [← hget] at hsome
    cases hsome
  | some row =>
    rw [hrow] at hget
    exact ⟨row, rfl, (Table.get_eq_some hrow).2, hget.symm, h.limits id _ _ hget.symm⟩

theorem HoldsNotes.noRow {st : Store} {m : NoteSpec} (h : HoldsNotes st m) {id : Long}
    (hnone : m.notes id = none) : st.notes.table.get id = none := by
  have hget := h.get id
  rw [hnone] at hget
  exact Option.map_eq_none_iff.mp hget

/-- one note of the table is replaced, and the rest stays -/
theorem HoldsNotes.set {st : Store} {m m' : NoteSpec} (h : HoldsNotes st m) (notes : NoteTable)
    (id : Long) (note : Option (CStr × CStr)) (hnotes : m'.notes = Function.update m.notes id note)
    (hseq : notes.seq = m'.handed)
    (hself : (notes.table.get id).map (fun r => (r.title, r.body)) = note)
    (hother : ∀ id', id' ≠ id → notes.table.get id' = st.notes.table.get id')
    (hlimits : ∀ title body, note = some (title, body) → NoteLimits title body) :
    HoldsNotes { st with notes := notes } m' := by
  refine ⟨hseq, fun id' => ?_, fun id' title body hnote => ?_⟩
  · show (notes.table.get id').map _ = _
    rw [hnotes]
    by_cases hsame : id' = id
    · subst hsame
      rw [Function.update_self]
      exact hself
    · rw [Function.update_of_ne hsame, hother id' hsame]
      exact h.get id'
  · rw [hnotes] at hnote
    by_cases hsame : id' = id
    · subst hsame
      rw [Function.update_self] at hnote
      exact hlimits title body hnote
    · rw [Function.update_of_ne hsame] at hnote
      exact h.limits id' title body hnote

theorem noteCreate_step (hop : c.op = .create title body) (hsmall : c.Small)
    (hleft : m.handed + 1 < 2 ^ 63) (h : HoldsNotes st m) :
    m.Allows c (c.answer st) ∧ HoldsNotes (c.step st) (m.next c) := by
  obtain ⟨hserve, hsubmits⟩ := c.createServe st title body hop
  unfold NoteCall.Small at hsmall
  rw [hop] at hsmall
  have hnext : st.notes.HasNext := by
    unfold NoteTable.HasNext
    rw [h.handed]
    omega
  have hid : st.notes.nextId hnext = m.newId := by
    apply Long.ext'
    rw [m.newId_val hleft, ← h.handed]
    rfl
  have hget : ∀ id', (st.notes.insert hnext title body c.incoming.now).table.get id' =
      if m.newId = id' then some (createdRow c.incoming.now st hnext title body)
      else st.notes.table.get id' := by
    intro id'
    rw [← hid]
    exact Table.get_put _ _ _
  rw [handleNoteCreate_stored _ _ _ _ title body (hsubmits.input hsmall) hnext] at hserve
  obtain ⟨ha, hs⟩ := Prod.mk.inj hserve
  obtain ⟨text, hjson, hshows⟩ := noteRow_shows 201 (by decide)
    (createdRow c.incoming.now st hnext title body) StaticBuffer.noteCreateJson.cap rfl
    hsubmits.limits
  constructor
  · unfold NoteSpec.Allows
    rw [hop, ha, hjson]
    simp only
    have hfresh : (m.handed : Int) < m.newId.val := by
      rw [m.newId_val hleft]
      omega
    refine ⟨hfresh, m.fresh _ hfresh, ?_⟩
    rw [← hid]
    exact hshows
  · unfold NoteSpec.next
    rw [hop, hs]
    refine h.set _ m.newId (some (title, body)) rfl (congrArg (· + 1) h.handed) ?_ ?_ ?_
    · rw [hget, if_pos rfl]
      rfl
    · intro id' hne
      rw [hget, if_neg hne.symm]
    · intro t b hsome
      cases hsome
      exact hsubmits.limits

theorem noteGet_step (hop : c.op = .get id) (h : HoldsNotes st m) :
    m.Allows c (c.answer st) ∧ HoldsNotes (c.step st) (m.next c) := by
  obtain ⟨hserve, hid⟩ := c.getServe st id hop
  unfold NoteSpec.Allows NoteSpec.next
  rw [hop]
  simp only
  cases hnote : m.notes id with
  | none =>
    rw [handleNoteGet_absent _ _ st id hid (h.noRow hnote)] at hserve
    obtain ⟨ha, hs⟩ := Prod.mk.inj hserve
    rw [ha, hs]
    exact ⟨answerNotFound_is _, h⟩
  | some note =>
    obtain ⟨row, hrow, hrowId, hsame, hlimits⟩ := h.row (by rw [hnote]; rfl : (m.notes id).isSome)
    obtain ⟨text, hjson, hshows⟩ := noteRow_shows 200 (by decide) row StaticBuffer.noteGetBody.cap
      rfl hlimits
    rw [handleNoteGet_present _ _ st id row hid hrow, hjson] at hserve
    obtain ⟨ha, hs⟩ := Prod.mk.inj hserve
    rw [hnote] at hsame
    cases hsame
    rw [ha, hs, ← hrowId]
    exact ⟨hshows, h⟩

theorem noteUpdate_step (hop : c.op = .update id title body) (hsmall : c.Small)
    (h : HoldsNotes st m) : m.Allows c (c.answer st) ∧ HoldsNotes (c.step st) (m.next c) := by
  obtain ⟨hserve, hid, hsubmits⟩ := c.updateServe st id title body hop
  unfold NoteCall.Small at hsmall
  rw [hop] at hsmall
  have hinput := hsubmits.input hsmall
  unfold NoteSpec.Allows NoteSpec.next
  rw [hop]
  simp only
  by_cases hsome : (m.notes id).isSome
  · rw [if_pos hsome, dif_pos hsome]
    obtain ⟨row, hrow, hrowId, _, _⟩ := h.row hsome
    have hupdated := update_get c.incoming.now st.notes id row title body hrow
    obtain ⟨text, hjson, hshows⟩ := noteRow_shows 200 (by decide)
      (row.edit title body c.incoming.now) StaticBuffer.noteGetBody.cap rfl hsubmits.limits
    rw [handleNoteUpdate_stored _ _ _ st id row title body hid hrow hinput, hjson] at hserve
    obtain ⟨ha, hs⟩ := Prod.mk.inj hserve
    rw [ha, hs]
    constructor
    · rw [← hrowId]
      exact hshows
    · refine h.set _ id (some (title, body)) rfl h.handed ?_ ?_ ?_
      · rw [hupdated]
        rfl
      · intro id' hne
        show (st.notes.table.modify id (NoteRow.edit title body c.incoming.now)
          (NoteRow.edit_id title body c.incoming.now)).get id' = _
        rw [Table.get_modify, if_neg hne]
      · intro t b heq
        cases heq
        exact hsubmits.limits
  · rw [if_neg hsome, dif_neg hsome]
    have hnone : m.notes id = none := Option.not_isSome_iff_eq_none.mp hsome
    rw [handleNoteUpdate_absent _ _ _ st id title body hid (h.noRow hnone) hinput] at hserve
    obtain ⟨ha, hs⟩ := Prod.mk.inj hserve
    rw [ha, hs]
    exact ⟨answerNotFound_is _, h⟩

theorem noteDelete_step (hop : c.op = .delete id) (h : HoldsNotes st m) :
    m.Allows c (c.answer st) ∧ HoldsNotes (c.step st) (m.next c) := by
  obtain ⟨hserve, hid⟩ := c.deleteServe st id hop
  unfold NoteSpec.Allows NoteSpec.next
  rw [hop]
  simp only
  by_cases hsome : (m.notes id).isSome
  · rw [if_pos hsome]
    obtain ⟨row, hrow, _⟩ := h.row hsome
    have hpresent : st.notes.table.get id ≠ none := by
      rw [hrow]
      exact Option.some_ne_none row
    rw [handleNoteDel_present _ _ st id hid hpresent] at hserve
    obtain ⟨ha, hs⟩ := Prod.mk.inj hserve
    have hget : ∀ id', (st.notes.delete id).table.get id' =
        if id' = id then none else st.notes.table.get id' := fun id' => Table.get_erase _ _ _
    rw [ha, hs]
    refine ⟨answerNoContent_is, h.set _ id none rfl h.handed ?_ ?_ ?_⟩
    · rw [hget, if_pos rfl]
      rfl
    · intro id' hne
      rw [hget, if_neg hne]
    · intro t b heq
      cases heq
  · rw [if_neg hsome]
    have hnone : m.notes id = none := Option.not_isSome_iff_eq_none.mp hsome
    rw [handleNoteDel_absent _ _ st id hid (h.noRow hnone)] at hserve
    obtain ⟨ha, hs⟩ := Prod.mk.inj hserve
    have hsame : (m.remove id).notes = m.notes := by
      show Function.update m.notes id none = m.notes
      rw [← hnone]
      exact Function.update_eq_self id m.notes
    rw [ha, hs]
    refine ⟨answerNotFound_is _, h.handed, ?_, ?_⟩
    · rw [hsame]
      exact h.get
    · rw [hsame]
      exact h.limits

theorem noteStep (hsmall : c.Small) (hleft : m.handed + 1 < 2 ^ 63) (h : HoldsNotes st m) :
    m.Allows c (c.answer st) ∧ HoldsNotes (c.step st) (m.next c) := by
  cases hop : c.op with
  | create title body => exact noteCreate_step c st m title body hop hsmall hleft h
  | get id => exact noteGet_step c st m id hop h
  | update id title body => exact noteUpdate_step c st m id title body hop hsmall h
  | delete id => exact noteDelete_step c st m id hop h

/-- a POST hands out one id, and nothing else does -/
theorem NoteSpec.next_handed : (m.next c).handed ≤ m.handed + 1 := by
  unfold NoteSpec.next
  cases c.op with
  | create title body => exact le_refl _
  | get id => exact Nat.le_succ _
  | update id title body =>
    simp only
    split_ifs
    · exact Nat.le_succ _
    · exact Nat.le_succ _
  | delete id => exact Nat.le_succ _

/-- a POST that is answered 201, and a PUT that is answered 200 or 404, has small members -/
theorem noteSmall_of_allows (h : m.Allows c (c.answer st)) : c.Small := by
  unfold NoteCall.Small
  cases hop : c.op with
  | get id => trivial
  | delete id => trivial
  | create title body =>
    simp only
    by_contra hbig
    obtain ⟨hserve, _⟩ := c.createServe st title body hop
    have hans : c.answer st = _ := congrArg Prod.fst hserve
    have hrej := handleNoteCreate_undecoded c.incoming.now c.incoming.page c.incoming.req st
      fun _ hd => hbig (decodes_fits hd)
    unfold NoteSpec.Allows at h
    rw [hop] at h
    obtain ⟨_, _, text, hok, _⟩ := h
    rw [hans] at hok
    exact hrej (congrArg Answer.result hok)
  | update id title body =>
    simp only
    by_contra hbig
    obtain ⟨hserve, _, hsubmits⟩ := c.updateServe st id title body hop
    have hans : c.answer st = _ := congrArg Prod.fst hserve
    have hrej := handleNoteUpdate_undecoded c.incoming.now c.incoming.page c.incoming.req st id
      hsubmits.json fun _ hd => hbig (decodes_fits hd)
    unfold NoteSpec.Allows at h
    rw [hop] at h
    simp only at h
    rw [hans] at h
    split_ifs at h
    · obtain ⟨text, hok, _⟩ := h
      rw [hok] at hrej
      cases hrej
    · rw [h.1] at hrej
      cases hrej

end

/-! ## runs -/

/-- every answer of the run is the one that the table gives -/
def RefinesTable (run : List NoteCall) : Prop :=
  Refines (fun st c => NoteCall.step st c) (fun st c => NoteCall.answer st c) NoteSpec.next
    NoteSpec.Allows Store.empty NoteSpec.empty run

/-- **A run on the empty store is answered as the table says, exactly when every member of every
submitted object fits the decoder.** -/
theorem noteMap_iff (run : List NoteCall) (hids : run.length < 2 ^ 63) :
    RefinesTable run ↔ ∀ c ∈ run, c.Small := by
  constructor
  · intro h
    exact all_of_refines _ _ _ _ NoteCall.Small (fun st m c ha => noteSmall_of_allows c st m ha) _ _ _ h
  · intro h
    refine refines_of_countdown _ _ _ _ NoteCall.Small
      (fun n st m => HoldsNotes st m ∧ m.handed + n < 2 ^ 63) ?_ _ _ _ ?_ h
    · rintro n st m c hsmall ⟨hh, hleft⟩
      have hhanded := NoteSpec.next_handed c m
      obtain ⟨ha, hs⟩ := noteStep c st m hsmall (by omega) hh
      exact ⟨ha, hs, by omega⟩
    · refine ⟨holdsNotes_empty, ?_⟩
      show 0 + run.length < 2 ^ 63
      omega

/-! ## notes to submit -/

/-- `{"title":"...","body":"..."}` -/
def noteDoc (title body : CStr) : Doc where
  lead := Ws.none
  items := .more (plainMember (ascii "title") title.bytes)
    (.last (plainMember (ascii "body") body.bytes))
  trail := Ws.none

theorem noteDoc_length (title body : CStr) :
    (noteDoc title body).text.length ≤ 2 * (title.length + body.length) + 22 := by
  have ht := escapeText_length_le title.bytes
  have hb := escapeText_length_le body.bytes
  have htl : title.length = title.bytes.length := rfl
  have hbl : body.length = body.bytes.length := rfl
  have htitle : (escapeText (ascii "title")).length = 5 := by decide
  have hbody : (escapeText (ascii "body")).length = 4 := by decide
  unfold noteDoc plainMember
  simp only [Doc.text, Items.text, Member.text, Str.text, escapePieces_body, Ws.none_bytes,
    List.length_append, List.length_cons, List.length_nil, htitle, hbody]
  omega

theorem plainMember_named (field : CStr) (name value : Bytes) :
    named field (plainMember name value) = decide (cstr name = field.bytes) := by
  show decide (cstr (Str.value (escapePieces name)) = field.bytes) = _
  rw [escapePieces_value]

theorem noteDoc_encodes (title body : CStr) (h : NoteLimits title body) :
    EncodesNote (noteDoc title body).text title body := by
  refine ⟨noteDoc title body, ⟨fun m hm => ?_, True.intro⟩, rfl, ?_, ?_⟩
  · rcases List.mem_cons.mp hm with rfl | hm
    · exact plainMember_strict _ _ (by decide +kernel) h.title
    · rw [List.mem_singleton.mp hm]
      exact plainMember_strict _ _ (by decide +kernel) h.body
  · show matching _ [plainMember _ _, plainMember _ _] = _
    rw [matching_cons_of_named _ _ _ (by rw [plainMember_named]; decide),
      matching_cons_of_not_named _ _ _ (by rw [plainMember_named]; decide)]
    exact congrArg (fun v => [v]) (escapePieces_value title.bytes)
  · show matching _ [plainMember _ _, plainMember _ _] = _
    rw [matching_cons_of_not_named _ _ _ (by rw [plainMember_named]; decide),
      matching_cons_of_named _ _ _ (by rw [plainMember_named]; decide)]
    exact congrArg (fun v => [v]) (escapePieces_value body.bytes)

def notePost (title body : CStr) : HttpRequest :=
  { HttpRequest.zero with
    method := .post
    path := CBuf.print _ pathLen_pos (.lit "/api/notes")
    contentLength := (noteDoc title body).text.length
    contentType := CBuf.print _ contentTypeLen_pos (.lit "application/json")
    body := some (noteDoc title body).text }

theorem notePost_asks (title body : CStr) (h : NoteLimits title body) :
    (NoteOp.create title body).Asks (notePost title body) := by
  have ht := h.titleLen
  have hb := h.bodyLen
  have hlen := noteDoc_length title body
  have hpath : (CBuf.print HTTP_MAX_PATH_LEN pathLen_pos (.lit "/api/notes")).bytes =
      ascii "/api/notes" := by decide
  have hjson : strstr ((CBuf.print 128 contentTypeLen_pos (CBuf.print 128 contentTypeLen_pos
      (.lit "application/json")).toCStr).bytes.map toLower) (ascii "application/json") = true := by
    decide
  refine ⟨rfl, .inl hpath, ?_, h, _, rfl, ?_, noteDoc_encodes title body h⟩
  · unfold apiRequireJson
    rw [if_neg (fun hneg => absurd hneg.2 (not_lt_of_ge (Int.natCast_nonneg _))),
      if_neg (fun hnone => by cases hnone.2)]
    exact if_pos hjson
  · unfold STORE_MAX_TITLE_LEN STORE_MAX_BODY_LEN at *
    unfold HTTP_MAX_BODY_SIZE
    omega

def createCall (title body : CStr) (h : NoteLimits title body) : NoteCall where
  incoming := ⟨Long.clamp 0, [], openServer, notePost title body⟩
  op := .create title body
  openMode := (by decide : serverAuthEnabled openServer = false)
  asks := notePost_asks title body h

/-- a POST of a plain object is small when its title and body are -/
theorem createCall_small (title body : CStr) (h : NoteLimits title body) :
    (createCall title body h).Small ↔ body.length < JSON_VALUE_CAP := by
  have hmembers : (noteDoc title body).members =
      [plainMember (ascii "title") title.bytes, plainMember (ascii "body") body.bytes] := rfl
  have hlen : ∀ name value : Bytes, (plainMember name value).name.length = name.length ∧
      (plainMember name value).value.length = value.length := by
    intro name value
    rw [← Str.value_length, ← Str.value_length]
    exact ⟨congrArg _ (escapePieces_value name), congrArg _ (escapePieces_value value)⟩
  constructor
  · intro hsmall
    have hall := hsmall (noteDoc title body) rfl
    rw [hmembers] at hall
    have hfits := (hall _ (List.mem_cons_of_mem _ List.mem_cons_self)).2
    rw [(hlen _ _).2] at hfits
    exact hfits
  · intro hbody d hd m hm
    have hsame : d = noteDoc title body := Doc.text_injective _ _ (Option.some.inj hd).symm
    have htitle := h.titleLen
    have hcap : STORE_MAX_TITLE_LEN < JSON_VALUE_CAP := by decide
    rw [hsame, hmembers] at hm
    rcases List.mem_cons.mp hm with rfl | hm
    · refine ⟨?_, ?_⟩
      · rw [(hlen _ _).1]
        decide
      · rw [(hlen _ _).2]
        exact lt_of_le_of_lt htitle hcap
    · rw [List.mem_singleton.mp hm]
      refine ⟨?_, ?_⟩
      · rw [(hlen _ _).1]
        decide
      · rw [(hlen _ _).2]
        exact hbody

theorem limits_short : NoteLimits (.lit "a") (.lit "b") :=
  ⟨by decide, by decide, by decide, by decide +kernel, by decide +kernel⟩

theorem noteMap_iff_short : RefinesTable [createCall (.lit "a") (.lit "b") limits_short] := by
  refine (noteMap_iff _ (by decide)).mpr fun c hc => ?_
  rw [List.mem_singleton.mp hc]
  exact (createCall_small _ _ _).mpr (by decide)

theorem limits_long : NoteLimits (.lit "a") longValue :=
  ⟨by decide, by decide, le_of_eq longValue_length, by decide +kernel, longValue_clean⟩

/-- a POST with a body of 8192 bytes, the documented limit, is not answered 201 -/
theorem noteMap_long_body : ¬ RefinesTable [createCall (.lit "a") longValue limits_long] := by
  intro h
  have hsmall := (createCall_small _ _ limits_long).mp
    (noteSmall_of_allows _ Store.empty NoteSpec.empty h.1)
  rw [longValue_length] at hsmall
  exact absurd hsmall (by decide)

end CServer
