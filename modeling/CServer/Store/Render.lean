import CServer.Lib.Memory
import CServer.Store.Listing

/-!
# The listings in their output arrays

`store_kv_list` and `store_note_list` write into `out_json[out_cap]` at a position that they keep
themselves.  Here every write is checked; `none` is one outside the array.

* `kvListInto`, `noteListInto`   the two functions behind their queries;
* `Leaves`                       what a call leaves for the caller, against the answer of the model
                                 without an array;
* `storeKvList_leaves`, `storeNoteList_leaves`   they leave that answer;
* `kvListText_json`, `noteListText_json`       the texts are JSON;
* `listings_exact`               a listing is written whole exactly when it fits.
-/

namespace CServer

/-! ## the functions -/

section
variable {cap : Nat}

/-- the row loop of `store_kv_list`, at `out_json + pos`: the result with the position -/
def kvRowsInto (buf : Block cap) (pos : Nat) (first : Bool) :
    List KvRow → Option (Except ApiError Nat × Block cap)
  | [] => some (.ok pos, buf)
  | row :: rows =>
    match jsonEscape KV_LIST_KEY_CAP row.key, jsonEscape KV_LIST_VALUE_CAP row.value with
    | some ek, some ev =>
      let written := (if first then [] else [comma]) ++ kvItem ek ev
      match buf.print pos written with
      | none => none
      | some buf =>
        if written.length ≥ cap - pos then some (.error .payloadTooLarge, buf)
        else kvRowsInto buf (pos + written.length) false rows
    | _, _ => some (.error .internal, buf)

def kvListInto (buf : Block cap) (rows : List KvRow) : Option (ApiError × Block cap) :=
  if cap < 3 then some (.internal, buf)
  else
    match buf.store 0 (ascii "[") with
    | none => none
    | some buf =>
      match kvRowsInto buf 1 true rows with
      | none => none
      | some (.error e, buf) => some (e, buf)
      | some (.ok pos, buf) =>
        if pos + 2 > cap then some (.payloadTooLarge, buf)
        else
          match buf.store pos (ascii "]") with
          | none => none
          | some buf => (buf.store (pos + 1) [0]).map fun buf => (.ok, buf)

/-- `note_row_to_json` -/
def noteRowInto (buf : Block cap) (pos : Nat) (row : NoteRow) :
    Option (Except ApiError Nat × Block cap) :=
  match jsonEscape NOTE_TITLE_CAP row.title, jsonEscape NOTE_BODY_CAP row.body with
  | some et, some eb =>
    match buf.print pos (noteItem row et eb) with
    | none => none
    | some buf =>
      if (noteItem row et eb).length ≥ cap - pos then some (.error .payloadTooLarge, buf)
      else some (.ok (pos + (noteItem row et eb).length), buf)
  | _, _ => some (.error .internal, buf)

/-- the row loop of `store_note_list` -/
def noteRowsInto (buf : Block cap) (pos : Nat) (first : Bool) :
    List NoteRow → Option (Except ApiError Nat × Block cap)
  | [] => some (.ok pos, buf)
  | row :: rows =>
    if first = false ∧ pos + 1 ≥ cap then some (.error .payloadTooLarge, buf)
    else
      match if first then some buf else buf.store pos [comma] with
      | none => none
      | some buf =>
        match noteRowInto buf (if first then pos else pos + 1) row with
        | none => none
        | some (.error e, buf) => some (.error e, buf)
        | some (.ok pos, buf) => noteRowsInto buf pos false rows

def noteListInto (buf : Block cap) (rows : List NoteRow) (total : Long) :
    Option (ApiError × Block cap) :=
  if cap < 16 then some (.internal, buf)
  else
    match buf.print 0 (ascii "\x7b\"items\":[") with
    | none => none
    | some buf =>
      if (ascii "\x7b\"items\":[").length ≥ cap - 0 then some (.payloadTooLarge, buf)
      else
        match noteRowsInto buf (ascii "\x7b\"items\":[").length true rows with
        | none => none
        | some (.error e, buf) => some (e, buf)
        | some (.ok pos, buf) =>
          let written := ascii "],\"total\":" ++ total.print ++ ascii "\x7d"
          match buf.print pos written with
          | none => none
          | some buf =>
            if written.length ≥ cap - pos then some (.payloadTooLarge, buf) else some (.ok, buf)

/-! ## what they leave -/

/-- what a row loop leaves: the text up to its position, or the error -/
def LeavesRows (answer : Except ApiError Bytes) (left : Option (Except ApiError Nat × Block cap)) :
    Prop :=
  match answer with
  | .ok text => ∃ buf, left = some (.ok text.length, buf) ∧ buf.Begins text
  | .error e => ∃ buf, left = some (.error e, buf)

/-- what a call leaves: `API_OK` and the text with its terminator, or the error -/
def Leaves (answer : Except ApiError Bytes) (left : Option (ApiError × Block cap)) : Prop :=
  match answer with
  | .ok text => ∃ buf, left = some (.ok, buf) ∧ buf.bytes.take (text.length + 1) = text ++ [0]
  | .error e => ∃ buf, left = some (e, buf)

theorem begins_nil (buf : Block cap) (h : 0 < cap) : buf.Begins [] := ⟨h, rfl⟩

theorem kvRowsInto_leaves (buf : Block cap) (call : Nat) (text : Bytes) (first : Bool)
    (rows : List KvRow) (h : buf.Begins text) :
    LeavesRows (kvListLoop .none cap call text first rows)
      (kvRowsInto buf text.length first rows) := by
  induction rows generalizing buf call text first with
  | nil =>
    rw [kvListLoop, if_neg (by simp), kvRowsInto]
    exact ⟨buf, rfl, h⟩
  | cons row rows ih =>
    rw [kvListLoop, if_neg (by simp), kvRowsInto]
    cases jsonEscape KV_LIST_KEY_CAP row.key with
    | none => exact ⟨buf, rfl⟩
    | some ek =>
      cases jsonEscape KV_LIST_VALUE_CAP row.value with
      | none => exact ⟨buf, rfl⟩
      | some ev =>
        simp only
        by_cases hfit : ((if first then [] else [comma]) ++ kvItem ek ev).length ≥ cap - text.length
        · obtain ⟨buf', hprint⟩ := buf.print_total text.length
            ((if first then [] else [comma]) ++ kvItem ek ev) (Nat.le_of_lt h.1)
          rw [if_pos hfit, hprint]
          exact ⟨buf', if_pos hfit⟩
        · obtain ⟨buf', hprint, hbegins, _⟩ := h.print _ (Nat.not_le.mp hfit)
          rw [if_neg hfit, hprint]
          simp only
          rw [if_neg hfit, ← List.length_append]
          exact ih buf' _ _ _ hbegins

/-- **`store_kv_list` in its array leaves the answer of the model.** -/
theorem kvListInto_leaves (buf : Block cap) (rows : List KvRow) (hcap : 3 ≤ cap) :
    Leaves (kvListAnswer cap rows) (kvListInto buf rows) := by
  obtain ⟨buf1, hstore, hbegins⟩ := (begins_nil buf (by omega)).store 91 (by
    rw [List.length_nil]
    omega)
  have hopen : buf.store 0 (ascii "[") = some buf1 := hstore
  have hrows := kvRowsInto_leaves buf1 0 (ascii "[") true rows hbegins
  unfold kvListAnswer kvListInto
  rw [if_neg (by omega), hopen]
  simp only
  rw [show (ascii "[").length = 1 by decide] at hrows
  cases hloop : kvListLoop .none cap 0 (ascii "[") true rows with
  | error e =>
    rw [hloop] at hrows
    obtain ⟨buf2, hleft⟩ := hrows
    rw [hleft]
    exact ⟨buf2, rfl⟩
  | ok text =>
    rw [hloop] at hrows
    obtain ⟨buf2, hleft, htext⟩ := hrows
    rw [hleft]
    simp only
    by_cases hfit : text.length + 2 > cap
    · rw [if_pos hfit, if_pos hfit]
      exact ⟨buf2, rfl⟩
    · have hlen : (text ++ ascii "]").length = text.length + 1 := List.length_append
      obtain ⟨buf3, hclose, hclosed⟩ := htext.store 93 (by omega)
      obtain ⟨buf4, hend, htake⟩ := buf3.store_eq (text.length + 1) [0] (by
        rw [List.length_singleton]
        omega)
      rw [if_neg hfit, if_neg hfit, show buf2.store text.length (ascii "]") = some buf3 from hclose]
      simp only
      rw [hend]
      refine ⟨buf4, rfl, ?_⟩
      have hkeep : buf3.bytes.take (text.length + 1) = text ++ ascii "]" := by
        rw [← hlen]
        exact hclosed.2
      rw [hlen, ← hkeep]
      exact htake

theorem noteRowInto_leaves (buf : Block cap) (text : Bytes) (row : NoteRow) (h : buf.Begins text) :
    LeavesRows ((noteRowToJson row cap text.length).map fun item => text ++ item)
      (noteRowInto buf text.length row) := by
  unfold noteRowToJson noteRowInto
  cases jsonEscape NOTE_TITLE_CAP row.title with
  | none => exact ⟨buf, rfl⟩
  | some et =>
    cases jsonEscape NOTE_BODY_CAP row.body with
    | none => exact ⟨buf, rfl⟩
    | some eb =>
      simp only
      by_cases hfit : (noteItem row et eb).length ≥ cap - text.length
      · obtain ⟨buf', hprint⟩ := buf.print_total text.length (noteItem row et eb) (Nat.le_of_lt h.1)
        rw [if_pos hfit, hprint]
        exact ⟨buf', if_pos hfit⟩
      · obtain ⟨buf', hprint, hbegins, _⟩ := h.print _ (Nat.not_le.mp hfit)
        rw [if_neg hfit, hprint]
        simp only
        rw [if_neg hfit, ← List.length_append]
        exact ⟨buf', rfl, hbegins⟩

theorem noteRowsInto_leaves (buf : Block cap) (call : Nat) (text : Bytes) (first : Bool)
    (rows : List NoteRow) (h : buf.Begins text) :
    LeavesRows (noteListLoop .none cap call text first rows)
      (noteRowsInto buf text.length first rows) := by
  induction rows generalizing buf call text first with
  | nil =>
    rw [noteListLoop, if_neg (by simp), noteRowsInto]
    exact ⟨buf, rfl, h⟩
  | cons row rows ih =>
    rw [noteListLoop, if_neg (by simp), noteRowsInto]
    by_cases hcomma : first = false ∧ text.length + 1 ≥ cap
    · rw [if_pos hcomma, if_pos hcomma]
      exact ⟨buf, rfl⟩
    · rw [if_neg hcomma, if_neg hcomma]
      -- the array behind the comma, if there is one
      have hnext : ∃ buf1, (if first then some buf else buf.store text.length [comma]) = some buf1 ∧
          buf1.Begins (if first then text else text ++ [comma]) ∧
          (if first then text.length else text.length + 1) =
            (if first then text else text ++ [comma]).length := by
        cases first with
        | true => exact ⟨buf, rfl, h, rfl⟩
        | false =>
          have hroom : text.length + 1 < cap := by
            by_contra hfull
            exact hcomma ⟨rfl, by omega⟩
          obtain ⟨buf1, hstore, hbegins⟩ := h.store comma hroom
          refine ⟨buf1, hstore, hbegins, ?_⟩
          show text.length + 1 = (text ++ [comma]).length
          rw [List.length_append, List.length_singleton]
      obtain ⟨buf1, hstore, hbegins, hpos⟩ := hnext
      have hrow := noteRowInto_leaves buf1 _ row hbegins
      rw [hstore, hpos]
      simp only
      cases hitem : noteRowToJson row cap (if first then text else text ++ [comma]).length with
      | error e =>
        rw [hitem] at hrow
        obtain ⟨buf2, hleft⟩ := hrow
        rw [hleft]
        exact ⟨buf2, rfl⟩
      | ok item =>
        rw [hitem] at hrow
        obtain ⟨buf2, hleft, htext⟩ := hrow
        rw [hleft]
        exact ih buf2 _ _ _ htext

/-- **`store_note_list` in its array leaves the answer of the model.** -/
theorem noteListInto_leaves (buf : Block cap) (rows : List NoteRow) (total : Long)
    (hcap : 16 ≤ cap) :
    Leaves (noteListAnswer cap rows total.val) (noteListInto buf rows total) := by
  have hten : (ascii "\x7b\"items\":[").length = 10 := by decide
  obtain ⟨buf1, hprint, hbegins, _⟩ := (begins_nil buf (by omega)).print (ascii "\x7b\"items\":[") (by
    rw [hten, List.length_nil]
    omega)
  have hrows := noteRowsInto_leaves buf1 0 (ascii "\x7b\"items\":[") true rows hbegins
  unfold noteListAnswer noteListInto Long.print
  rw [if_neg (by omega), show buf.print 0 (ascii "\x7b\"items\":[") = some buf1 from hprint]
  simp only
  rw [if_neg (by omega)]
  cases hloop : noteListLoop .none cap 0 (ascii "\x7b\"items\":[") true rows with
  | error e =>
    rw [hloop] at hrows
    obtain ⟨buf2, hleft⟩ := hrows
    rw [hleft]
    exact ⟨buf2, rfl⟩
  | ok text =>
    rw [hloop] at hrows
    obtain ⟨buf2, hleft, htext⟩ := hrows
    rw [hleft]
    simp only
    by_cases hfit : (ascii "],\"total\":" ++ decimal total.val ++ ascii "\x7d").length ≥
        cap - text.length
    · obtain ⟨buf3, hend⟩ := buf2.print_total text.length
        (ascii "],\"total\":" ++ decimal total.val ++ ascii "\x7d") (Nat.le_of_lt htext.1)
      rw [if_pos hfit, hend]
      exact ⟨buf3, if_pos hfit⟩
    · obtain ⟨buf3, hend, _, htake⟩ := htext.print _ (Nat.not_le.mp hfit)
      rw [if_neg hfit, hend]
      exact ⟨buf3, if_neg hfit, htake⟩

theorem storeKvList_leaves (buf : Block cap) (kv : KvTable) (pfx : CStr) (limit : Int)
    (hlimit : 0 < limit ∧ limit ≤ STORE_MAX_LIST) (hcap : 3 ≤ cap) :
    Leaves (storeKvList .none kv pfx limit cap) (kvListInto buf (kvSelect kv pfx limit.toNat)) := by
  rw [storeKvList_answer kv pfx limit cap hlimit hcap]
  exact kvListInto_leaves buf _ hcap

theorem storeNoteList_leaves (buf : Block cap) (notes : NoteTable) (limit offset : Int)
    (total : Long) (hlimit : 0 < limit ∧ limit ≤ STORE_MAX_LIST ∧ 0 ≤ offset) (hcap : 16 ≤ cap)
    (htotal : total.val = notes.table.rows.length) :
    Leaves ((storeNoteList .none .none notes limit offset cap).map Prod.fst)
      (noteListInto buf (noteSelect notes limit.toNat offset.toNat) total) := by
  have hleaves := noteListInto_leaves buf (noteSelect notes limit.toNat offset.toNat) total hcap
  rw [storeNoteList_answer notes limit offset cap hlimit hcap, ← htotal]
  cases hanswer : noteListAnswer cap (noteSelect notes limit.toNat offset.toNat) total.val with
  | error e => rwa [hanswer] at hleaves
  | ok text => rwa [hanswer] at hleaves

end

/-! ## the texts are JSON -/

/-- the value of a row of `kv` -/
def KvRow.json (row : KvRow) : Json :=
  .obj [(ascii "key", .str row.key.bytes), (ascii "value", .str row.value.bytes)]

/-- the value of a row of `notes` -/
def NoteRow.json (row : NoteRow) : Json :=
  .obj [(ascii "id", .num row.id.val), (ascii "title", .str row.title.bytes),
    (ascii "body", .str row.body.bytes), (ascii "created_at", .num row.createdAt.val),
    (ascii "updated_at", .num row.updatedAt.val)]

/-- an escaped string between its quotes -/
theorem escaped_json (s : Bytes) (h : Clean s) :
    Json.Text (quote :: (escapeText s ++ [quote])) (.str s) := by
  have hstr := Json.Text.str (escapePieces s) (escapePieces_strict s h)
  rw [escapePieces_value] at hstr
  unfold FlatJson.Str.text at hstr
  rwa [escapePieces_body] at hstr

section
variable {t ts : Bytes} {v : Json} {ms : List (Bytes × Json)} (name : Bytes)

/-- a name that is printed as it is -/
theorem name_text (hplain : escapeText name = name) :
    (escapePieces name).text = quote :: (name ++ [quote]) := by
  unfold FlatJson.Str.text
  rw [escapePieces_body, hplain]

theorem lastMember (hclean : Clean name) (hplain : escapeText name = name) (h : Json.Text t v) :
    Json.Members (quote :: (name ++ quote :: colon :: t)) [(name, v)] := by
  have hm := Json.Members.last (escapePieces name) (escapePieces_strict name hclean) h
  rw [escapePieces_value, name_text name hplain] at hm
  simpa using hm

theorem nextMember (hclean : Clean name) (hplain : escapeText name = name) (h : Json.Text t v)
    (hms : Json.Members ts ms) :
    Json.Members (quote :: (name ++ quote :: colon :: (t ++ comma :: ts))) ((name, v) :: ms) := by
  have hm := Json.Members.more (escapePieces name) (escapePieces_strict name hclean) h hms
  rw [escapePieces_value, name_text name hplain] at hm
  simpa using hm

end

theorem kvRowText_json (row : KvRow) (h : row.Escapes) : Json.Text (kvRowText row) row.json := by
  have hkey := escaped_json row.key.bytes (jsonEscape_isSome _ _ h.key).2
  have hvalue := escaped_json row.value.bytes (jsonEscape_isSome _ _ h.value).2
  have hms := nextMember (ascii "key") (by decide +kernel) (by decide) hkey
    (lastMember (ascii "value") (by decide +kernel) (by decide) hvalue)
  unfold KvRow.json
  convert Json.Text.obj hms using 1
  unfold kvRowText kvItem
  simp [ascii]

theorem noteRowText_json (row : NoteRow) (h : row.Escapes) :
    Json.Text (noteRowText row) row.json := by
  have htitle := escaped_json row.title.bytes (jsonEscape_isSome _ _ h.title).2
  have hbody := escaped_json row.body.bytes (jsonEscape_isSome _ _ h.body).2
  have hupdated := lastMember (ascii "updated_at") (by decide +kernel) (by decide)
    (Json.Text.decimal row.updatedAt.val)
  have hcreated := nextMember (ascii "created_at") (by decide +kernel) (by decide)
    (Json.Text.decimal row.createdAt.val) hupdated
  have hms := nextMember (ascii "id") (by decide +kernel) (by decide) (Json.Text.decimal row.id.val)
    (nextMember (ascii "title") (by decide +kernel) (by decide) htitle
      (nextMember (ascii "body") (by decide +kernel) (by decide) hbody hcreated))
  unfold NoteRow.json
  convert Json.Text.obj hms using 1
  unfold noteRowText noteItem Long.print
  simp [ascii]

theorem kvListText_json (rows : List KvRow) (h : ∀ row ∈ rows, row.Escapes) :
    Json.Text (kvListText rows) (.arr (rows.map KvRow.json)) := by
  convert Json.Text.array kvRowText KvRow.json rows (fun r hr => kvRowText_json r (h r hr)) using 1
  unfold kvListText
  rw [kvRowsText_eq]
  rfl

theorem noteListText_json (rows : List NoteRow) (total : Int) (h : ∀ row ∈ rows, row.Escapes) :
    Json.Text (noteListText rows total)
      (.obj [(ascii "items", .arr (rows.map NoteRow.json)), (ascii "total", .num total)]) := by
  have harray := Json.Text.array noteRowText NoteRow.json rows fun r hr => noteRowText_json r (h r hr)
  have hms := nextMember (ascii "items") (by decide +kernel) (by decide) harray
    (lastMember (ascii "total") (by decide +kernel) (by decide) (Json.Text.decimal total))
  convert Json.Text.obj hms using 1
  unfold noteListText
  simp [ascii, lbracket, rbracket]

/-! ## every listing -/

/-- The call stays inside its array.  It returns `API_OK` exactly when the text fits with its
terminator, and then leaves the text; otherwise `API_ERR_PAYLOAD_TOO_LARGE`.  The text is JSON of the
value. -/
structure RendersExactly {cap : Nat} (text : Bytes) (v : Json)
    (left : Option (ApiError × Block cap)) : Prop where
  left : ∃ result buf, left = some (result, buf) ∧ (result = .ok ↔ text.length < cap) ∧
    (result = .ok → buf.bytes.take (text.length + 1) = text ++ [0]) ∧
    (result ≠ .ok → result = .payloadTooLarge)
  json : Json.Text text v

theorem Leaves.exactly {cap : Nat} {text : Bytes} {v : Json} {left : Option (ApiError × Block cap)}
    (h : Leaves (if text.length < cap then .ok text else .error .payloadTooLarge) left)
    (hjson : Json.Text text v) : RendersExactly text v left := by
  refine ⟨?_, hjson⟩
  by_cases hfit : text.length < cap
  · rw [if_pos hfit] at h
    obtain ⟨buf, hleft, htake⟩ := h
    exact ⟨.ok, buf, hleft, ⟨fun _ => hfit, fun _ => rfl⟩, fun _ => htake, fun hne => absurd rfl hne⟩
  · rw [if_neg hfit] at h
    obtain ⟨buf, hleft⟩ := h
    exact ⟨.payloadTooLarge, buf, hleft, ⟨fun he => (by cases he), fun hlt => absurd hlt hfit⟩,
      fun he => (by cases he), fun _ => rfl⟩

/-- **A listing is written whole exactly when it fits with its terminator, and never outside its
array; what is written is JSON whose strings decode to those of the rows.** -/
theorem listings_exact {cap : Nat} (buf : Block cap) (hcap : 16 ≤ cap) :
    (∀ rows : List KvRow, (∀ row ∈ rows, row.Escapes) →
      RendersExactly (kvListText rows) (.arr (rows.map KvRow.json)) (kvListInto buf rows)) ∧
    (∀ (rows : List NoteRow) (total : Long), (∀ row ∈ rows, row.Escapes) →
      RendersExactly (noteListText rows total.val)
        (.obj [(ascii "items", .arr (rows.map NoteRow.json)), (ascii "total", .num total.val)])
        (noteListInto buf rows total)) := by
  constructor
  · intro rows h
    have hleaves := kvListInto_leaves buf rows (by omega)
    rw [kvListAnswer_exact cap rows (by omega) h] at hleaves
    exact hleaves.exactly (kvListText_json rows h)
  · intro rows total h
    have hleaves := noteListInto_leaves buf rows total hcap
    rw [noteListAnswer_exact cap rows total.val hcap h] at hleaves
    exact hleaves.exactly (noteListText_json rows total.val h)

/-- a row of each table, in an array of 100 bytes -/
theorem listings_exact_small :
    RendersExactly
      (kvListText [⟨CStr.ofBytes (ascii "k"), CStr.ofBytes (ascii "\""), Long.clamp 0⟩])
      (.arr [.obj [(ascii "key", .str (ascii "k")), (ascii "value", .str (ascii "\""))]])
      (kvListInto (Block.zero 100)
        [⟨CStr.ofBytes (ascii "k"), CStr.ofBytes (ascii "\""), Long.clamp 0⟩]) := by
  refine (listings_exact (Block.zero 100) (by decide)).1 _ fun row hrow => ?_
  rw [List.mem_singleton.mp hrow]
  exact ⟨by decide, by decide⟩

end CServer
