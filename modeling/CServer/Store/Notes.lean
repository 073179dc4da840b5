import CServer.Http.Types
import CServer.Json.Escape
import CServer.Store.Kv

/-!
# The notes half of `store_sqlite.c`

As in `Store/Kv.lean`; a function that runs two statements takes two faults.
-/

namespace CServer

def STORE_MAX_TITLE_LEN : Nat := 200
def STORE_MAX_BODY_LEN : Nat := 8192

def validateNoteFields (title body : CStr) : ApiError :=
  if title.length = 0 ∨ title.length > STORE_MAX_TITLE_LEN then .badRequest
  else if body.length > STORE_MAX_BODY_LEN then .payloadTooLarge
  else .ok

theorem validateNoteFields_ok (title body : CStr) :
    validateNoteFields title body = .ok ↔
      0 < title.length ∧ title.length ≤ STORE_MAX_TITLE_LEN ∧ body.length ≤ STORE_MAX_BODY_LEN := by
  unfold validateNoteFields
  by_cases h1 : title.length = 0 ∨ title.length > STORE_MAX_TITLE_LEN
  · rw [if_pos h1]
    exact ⟨fun h => (by cases h), fun h => by omega⟩
  · rw [if_neg h1]
    by_cases h2 : body.length > STORE_MAX_BODY_LEN
    · rw [if_pos h2]
      exact ⟨fun h => (by cases h), fun h => by omega⟩
    · rw [if_neg h2]
      exact ⟨fun _ => by omega, fun _ => rfl⟩

/-- the texts of the row fit their columns -/
def NoteRow.Bounded (row : NoteRow) : Prop := validateNoteFields row.title row.body = .ok

/-- Inserts the note and hands its id back.  When the largest id is used up the insert fails. -/
def storeNoteCreate (fault : SqlFault) (now : Long) (notes : NoteTable) (title body : CStr) :
    Except ApiError Long × NoteTable :=
  if validateNoteFields title body ≠ .ok then (.error (validateNoteFields title body), notes)
  else if fault = .prepare ∨ fault = .step 0 then (.error .internal, notes)
  else if h : notes.HasNext then
    (.ok (notes.nextId h), notes.insert h title body now)
  else (.error .internal, notes)

/-- A created note has the next id; an error leaves the table alone. -/
theorem storeNoteCreate_cases (fault : SqlFault) (now : Long) (notes : NoteTable)
    (title body : CStr) :
    (∃ e, (e = validateNoteFields title body ∧ e ≠ .ok ∨ e = .internal) ∧
      storeNoteCreate fault now notes title body = (.error e, notes)) ∨
    (validateNoteFields title body = .ok ∧ ∃ h : notes.HasNext,
      storeNoteCreate fault now notes title body =
        (.ok (notes.nextId h), notes.insert h title body now)) := by
  unfold storeNoteCreate
  by_cases hv : validateNoteFields title body ≠ .ok
  · exact .inl ⟨_, .inl ⟨rfl, hv⟩, if_pos hv⟩
  · rw [if_neg hv]
    by_cases hf : fault = .prepare ∨ fault = .step 0
    · exact .inl ⟨_, .inr rfl, if_pos hf⟩
    · rw [if_neg hf]
      by_cases hs : notes.HasNext
      · exact .inr ⟨not_not.mp hv, hs, dif_pos hs⟩
      · exact .inl ⟨_, .inr rfl, dif_neg hs⟩

/-- `sizeof(et)` and `sizeof(eb)` of `note_row_to_json` -/
def NOTE_TITLE_CAP : Nat := STORE_MAX_TITLE_LEN * 2 + 1
def NOTE_BODY_CAP : Nat := STORE_MAX_BODY_LEN * 2 + 1

/-- the object of a row -/
def noteItem (row : NoteRow) (et eb : Bytes) : Bytes :=
  ascii "\x7b\"id\":" ++ row.id.print ++ ascii ",\"title\":\"" ++ et ++ ascii "\",\"body\":\"" ++ eb
    ++ ascii "\",\"created_at\":" ++ row.createdAt.print ++ ascii ",\"updated_at\":"
    ++ row.updatedAt.print ++ ascii "\x7d"

theorem noteItem_length (row : NoteRow) (et eb : Bytes) :
    (noteItem row et eb).length ≤ et.length + eb.length + 116 := by
  have h1 := row.id.print_length
  have h2 := row.createdAt.print_length
  have h3 := row.updatedAt.print_length
  unfold noteItem
  simp only [List.length_append, show (ascii "\x7b\"id\":").length = 6 by decide,
    show (ascii ",\"title\":\"").length = 10 by decide,
    show (ascii "\",\"body\":\"").length = 10 by decide,
    show (ascii "\",\"created_at\":").length = 15 by decide,
    show (ascii ",\"updated_at\":").length = 14 by decide,
    show (ascii "\x7d").length = 1 by decide]
  omega

/-- what `note_row_to_json` prints at `out_json + pos` -/
def noteRowToJson (row : NoteRow) (outCap pos : Nat) : Except ApiError Bytes :=
  match jsonEscape NOTE_TITLE_CAP row.title, jsonEscape NOTE_BODY_CAP row.body with
  | some et, some eb =>
    if (noteItem row et eb).length ≥ outCap - pos then .error .payloadTooLarge
    else .ok (noteItem row et eb)
  | _, _ => .error .internal

theorem noteRowToJson_clean (row : NoteRow) (hb : row.Bounded) (ht : Clean row.title.bytes)
    (hc : Clean row.body.bytes) (outCap pos : Nat) (hcap : pos + 17000 ≤ outCap) :
    noteRowToJson row outCap pos =
      .ok (noteItem row (escapeText row.title.bytes) (escapeText row.body.bytes)) := by
  obtain ⟨_, hb1, hb2⟩ := (validateNoteFields_ok _ _).mp hb
  have h1 := escapeText_length_le row.title.bytes
  have h2 := escapeText_length_le row.body.bytes
  have h3 := noteItem_length row (escapeText row.title.bytes) (escapeText row.body.bytes)
  have hb1' : row.title.bytes.length ≤ 200 := hb1
  have hb2' : row.body.bytes.length ≤ 8192 := hb2
  have ht' := jsonEscape_of_clean NOTE_TITLE_CAP row.title ht
    (show 2 * row.title.bytes.length < 401 by omega)
  have hc' := jsonEscape_of_clean NOTE_BODY_CAP row.body hc
    (show 2 * row.body.bytes.length < 16385 by omega)
  unfold noteRowToJson
  rw [ht', hc']
  show (if _ then _ else _) = _
  rw [if_neg (by omega)]

theorem noteRowToJson_length (row : NoteRow) (outCap pos : Nat) (text : Bytes)
    (h : noteRowToJson row outCap pos = .ok text) : text.length < outCap - pos := by
  unfold noteRowToJson at h
  split at h
  · split_ifs at h with hfit
    cases h
    omega
  · cases h

theorem noteRowToJson_not_clean (row : NoteRow)
    (h : ¬ (Clean row.title.bytes ∧ Clean row.body.bytes)) (outCap pos : Nat) :
    noteRowToJson row outCap pos = .error .internal := by
  unfold noteRowToJson
  by_cases ht : Clean row.title.bytes
  · have hb : ¬ Clean row.body.bytes := fun hb => h ⟨ht, hb⟩
    rw [jsonEscape_of_not_clean _ row.body hb]
    cases jsonEscape NOTE_TITLE_CAP row.title <;> rfl
  · rw [jsonEscape_of_not_clean _ row.title ht]

/-- the row loop, at the call number `call` of `sqlite3_step`, with `out_json[0..pos)` in `text` -/
def noteListLoop (fault : SqlFault) (outCap call : Nat) (text : Bytes) (first : Bool) :
    List NoteRow → Except ApiError Bytes
  | [] => if fault = .step call then .error .internal else .ok text
  | row :: rows =>
    if fault = .step call then .error .internal
    else if first = false ∧ text.length + 1 ≥ outCap then .error .payloadTooLarge
    else
      let text := if first then text else text ++ [comma]
      match noteRowToJson row outCap text.length with
      | .error e => .error e
      | .ok item => noteListLoop fault outCap (call + 1) (text ++ item) false rows

/-- `SELECT ... FROM notes ORDER BY id LIMIT ? OFFSET ?` -/
def noteSelect (notes : NoteTable) (limit offset : Nat) : List NoteRow :=
  ((notes.table.select (fun r => r.id.val) fun _ => true).drop offset).take limit

/-- The listing and the total.  A failing `SELECT COUNT(*)` step leaves the total at 0. -/
def storeNoteList (countFault fault : SqlFault) (notes : NoteTable) (limit offset : Int)
    (outCap : Nat) : Except ApiError (Bytes × Nat) :=
  if limit ≤ 0 ∨ limit > STORE_MAX_LIST ∨ offset < 0 then .error .invalidQuery
  else if countFault = .prepare then .error .internal
  else
    let total := if countFault = .step 0 then 0 else notes.table.rows.length
    if fault = .prepare then .error .internal
    else if outCap < 16 then .error .internal
    else if (ascii "\x7b\"items\":[").length ≥ outCap then .error .payloadTooLarge
    else
      match noteListLoop fault outCap 0 (ascii "\x7b\"items\":[") true
          (noteSelect notes limit.toNat offset.toNat) with
      | .error e => .error e
      | .ok text =>
        let written := ascii "],\"total\":" ++ digits total ++ ascii "\x7d"
        if written.length ≥ outCap - text.length then .error .payloadTooLarge
        else .ok (text ++ written, total)

def storeNoteGet (fault : SqlFault) (notes : NoteTable) (id : Long) (outCap : Nat) :
    Except ApiError Bytes :=
  if id.val ≤ 0 then .error .invalidId
  else if fault = .prepare ∨ fault = .step 0 then .error .internal
  else
    match notes.table.get id with
    | none => .error .notFound
    | some row => noteRowToJson row outCap 0

theorem storeNoteGet_row (fault : SqlFault) (notes : NoteTable) (id : Long) (row : NoteRow)
    (outCap : Nat) (hid : 0 < id.val) (hprepare : fault ≠ .prepare) (hstep : fault ≠ .step 0)
    (hrow : notes.table.get id = some row) :
    storeNoteGet fault notes id outCap = noteRowToJson row outCap 0 := by
  unfold storeNoteGet
  rw [if_neg (by omega), if_neg (fun h => h.elim hprepare hstep), hrow]

def storeNoteUpdate (fault : SqlFault) (now : Long) (notes : NoteTable) (id : Long)
    (title body : CStr) : ApiError × NoteTable :=
  if id.val ≤ 0 then (.invalidId, notes)
  else if validateNoteFields title body ≠ .ok then (validateNoteFields title body, notes)
  else if fault = .prepare ∨ fault = .step 0 then (.internal, notes)
  else
    match notes.table.get id with
    | none => (.notFound, notes.update id title body now)
    | some _ => (.ok, notes.update id title body now)

/-- An update writes the row of the note; an error leaves the table alone. -/
theorem storeNoteUpdate_cases (fault : SqlFault) (now : Long) (notes : NoteTable) (id : Long)
    (title body : CStr) :
    (∃ e, e ≠ .ok ∧ storeNoteUpdate fault now notes id title body = (e, notes)) ∨
    (0 < id.val ∧ validateNoteFields title body = .ok ∧ ∃ row, notes.table.get id = some row ∧
      storeNoteUpdate fault now notes id title body = (.ok, notes.update id title body now)) := by
  unfold storeNoteUpdate
  by_cases hid : id.val ≤ 0
  · exact .inl ⟨.invalidId, by decide, if_pos hid⟩
  · rw [if_neg hid]
    by_cases hv : validateNoteFields title body ≠ .ok
    · exact .inl ⟨_, hv, if_pos hv⟩
    · rw [if_neg hv]
      by_cases hf : fault = .prepare ∨ fault = .step 0
      · exact .inl ⟨.internal, by decide, if_pos hf⟩
      · rw [if_neg hf]
        cases hrow : notes.table.get id with
        | none =>
          refine .inl ⟨.notFound, by decide, ?_⟩
          simp only
          rw [notes.update_absent id title body now hrow]
        | some row => exact .inr ⟨by omega, not_not.mp hv, row, rfl, rfl⟩

def storeNoteDel (fault : SqlFault) (notes : NoteTable) (id : Long) : ApiError × NoteTable :=
  if id.val ≤ 0 then (.invalidId, notes)
  else if fault = .prepare ∨ fault = .step 0 then (.internal, notes)
  else
    match notes.table.get id with
    | none => (.notFound, notes.delete id)
    | some _ => (.ok, notes.delete id)

/-- The two counts of `store_counts`; a failing step leaves its count at 0. -/
def storeCounts (kvFault noteFault : SqlFault) (st : Store) : Except ApiError (Nat × Nat) :=
  if kvFault = .prepare then .error .internal
  else if noteFault = .prepare then .error .internal
  else .ok (if kvFault = .step 0 then 0 else st.kv.rows.length,
    if noteFault = .step 0 then 0 else st.notes.table.rows.length)

end CServer
