import CServer.Lib.FlatJson
import CServer.Lib.JsonText
import CServer.Store.Kv
import CServer.Store.Notes

/-!
# The row loops of the listings

* `kvItem_text`           the object of a row as a derivation of the grammar;
* `Renders`               a text that has the key and the value;
* `KvRow.Listable`        the row fits the fixed buffers of `store_kv_list`;
* `kvListAnswer_exact`, `noteListAnswer_exact`   rows that can be escaped are all listed, or refused
                          as too large;
* `storeKvList_listable`, `storeNoteList_clean`   they are never an internal error.
-/

namespace CServer
open FlatJson

/-! ## the object of a row -/

def plainMember (name value : Bytes) : Member :=
  ⟨Ws.none, escapePieces name, Ws.none, Ws.none, escapePieces value, Ws.none⟩

def kvItems (key value : Bytes) : Items :=
  .more (plainMember (ascii "key") key) (.last (plainMember (ascii "value") value))

theorem kvItem_text (key value : Bytes) :
    kvItem (escapeText key) (escapeText value) = lbrace :: (kvItems key value).text := by
  have hkey : escapeText (ascii "key") = ascii "key" := by decide
  have hval : escapeText (ascii "value") = ascii "value" := by decide
  unfold kvItem kvItems plainMember
  simp only [Items.text, Member.text, Str.text, escapePieces_body, hkey, hval, Ws.none_bytes,
    List.append_nil, List.nil_append]
  simp [ascii]

/-- the key and the value can be read off the object -/
theorem kvItem_split (key value key' value' r r' : Bytes)
    (h : kvItem (escapeText key) (escapeText value) ++ r =
      kvItem (escapeText key') (escapeText value') ++ r') :
    key = key' ∧ value = value' ∧ r = r' := by
  rw [kvItem_text, kvItem_text, List.cons_append, List.cons_append] at h
  obtain ⟨hi, hr⟩ := Items.split _ _ _ _ (List.cons.inj h).2
  obtain ⟨hm, hl⟩ := Items.more.inj hi
  have hk : Str.value (escapePieces key) = Str.value (escapePieces key') :=
    congrArg (fun m : Member => Str.value m.value) hm
  have hv : Str.value (escapePieces value) = Str.value (escapePieces value') :=
    congrArg (fun m : Member => Str.value m.value) (Items.last.inj hl)
  rw [escapePieces_value, escapePieces_value] at hk hv
  exact ⟨hk, hv, hr⟩

/-- The text is a strict object with the members `"key"` and `"value"`. -/
def Renders (body : Bytes) (key value : CStr) : Prop :=
  ∃ d : Doc, d.Strict ∧ d.text = body ∧
    d.members.map (fun m => (Str.value m.name, Str.value m.value)) =
      [(ascii "key", key.bytes), (ascii "value", value.bytes)]

theorem plainMember_strict (name value : Bytes) (hn : Clean name) (hv : Clean value) :
    (plainMember name value).Strict :=
  ⟨escapePieces_strict name hn, escapePieces_strict value hv⟩

theorem clean_key : Clean (ascii "key") := by decide +kernel
theorem clean_value : Clean (ascii "value") := by decide +kernel

theorem kvItem_renders (key value : CStr) (hk : Clean key.bytes) (hv : Clean value.bytes) :
    Renders (kvItem (escapeText key.bytes) (escapeText value.bytes)) key value := by
  refine ⟨⟨Ws.none, kvItems key.bytes value.bytes, Ws.none⟩, ⟨fun m hm => ?_, True.intro⟩, ?_, ?_⟩
  · rcases List.mem_cons.mp hm with rfl | hm
    · exact plainMember_strict _ _ clean_key hk
    · rw [List.mem_singleton.mp hm]
      exact plainMember_strict _ _ clean_value hv
  · rw [kvItem_text]
    show [] ++ [lbrace] ++ (kvItems key.bytes value.bytes).text ++ [] = _
    simp
  · show [(Str.value (escapePieces _), Str.value (escapePieces _)),
      (Str.value (escapePieces _), Str.value (escapePieces _))] = _
    simp only [escapePieces_value]

/-! ## the rows of `kv` -/

/-- the strings of the row are accepted by the calls of `json_escape` into `ek` and `ev` -/
structure KvRow.Escapes (row : KvRow) : Prop where
  key : (jsonEscape KV_LIST_KEY_CAP row.key).isSome
  value : (jsonEscape KV_LIST_VALUE_CAP row.value).isSome

structure KvRow.Listable (row : KvRow) : Prop where
  key : storeValidateKey row.key = .ok
  value : Clean row.value.bytes
  fits : (escapeText row.value.bytes).length < KV_LIST_VALUE_CAP

theorem KvRow.Listable.escapes {row : KvRow} (h : row.Listable) : row.Escapes := by
  have hlen := ((storeValidateKey_ok row.key).mp h.key).2.1
  have hkey := jsonEscape_of_clean KV_LIST_KEY_CAP row.key (validKey_clean _ h.key)
    (by unfold KV_LIST_KEY_CAP; omega)
  have hvalue := (jsonEscape_eq_some KV_LIST_VALUE_CAP row.value _).mpr ⟨h.value, rfl, h.fits⟩
  exact ⟨by rw [hkey]; rfl, by rw [hvalue]; rfl⟩

/-- the object that lists a row -/
def kvRowText (row : KvRow) : Bytes := kvItem (escapeText row.key.bytes) (escapeText row.value.bytes)

/-- the objects of the rows, each behind a comma except for the first one -/
def kvRowsText (first : Bool) : List KvRow → Bytes
  | [] => []
  | row :: rows => (if first then [] else [comma]) ++ kvRowText row ++ kvRowsText false rows

theorem kvRowsText_eq (first : Bool) (rows : List KvRow) :
    kvRowsText first rows = joinRows kvRowText first rows := by
  induction rows generalizing first with
  | nil => rfl
  | cons row rows ih => rw [kvRowsText, joinRows, ih]

/-- **The loop over rows that can be escaped: all of them, or too large.** -/
theorem kvListLoop_exact (outCap call : Nat) (text : Bytes) (first : Bool) (rows : List KvRow)
    (h : ∀ row ∈ rows, row.Escapes) (hstart : text.length < outCap) :
    kvListLoop .none outCap call text first rows =
      if (text ++ kvRowsText first rows).length < outCap then .ok (text ++ kvRowsText first rows)
      else .error .payloadTooLarge := by
  induction rows generalizing call text first with
  | nil => rw [kvListLoop, if_neg (by simp), kvRowsText, List.append_nil, if_pos hstart]
  | cons row rows ih =>
    have hrow := h row List.mem_cons_self
    have hsplit : text ++ kvRowsText first (row :: rows) =
        (text ++ ((if first then [] else [comma]) ++ kvRowText row)) ++ kvRowsText false rows := by
      rw [kvRowsText]
      simp only [List.append_assoc]
    rw [kvListLoop, if_neg (by simp), (jsonEscape_isSome _ _ hrow.key).1,
      (jsonEscape_isSome _ _ hrow.value).1, hsplit]
    show (if ((if first then [] else [comma]) ++ kvRowText row).length ≥ outCap - text.length then _
      else _) = _
    have hlen : (text ++ ((if first then [] else [comma]) ++ kvRowText row)).length =
        text.length + ((if first then [] else [comma]) ++ kvRowText row).length :=
      List.length_append
    by_cases hfit : ((if first then [] else [comma]) ++ kvRowText row).length ≥ outCap - text.length
    · rw [if_pos hfit, if_neg]
      rw [List.length_append]
      omega
    · rw [if_neg hfit]
      have hroom : (text ++ ((if first then [] else [comma]) ++ kvRowText row)).length < outCap := by
        omega
      exact ih _ _ _ (fun r hr => h r (List.mem_cons_of_mem _ hr)) hroom

/-- the loop with room -/
theorem kvListLoop_eq (outCap call : Nat) (text : Bytes) (first : Bool) (rows : List KvRow)
    (h : ∀ row ∈ rows, row.Listable) (hroom : (text ++ kvRowsText first rows).length < outCap) :
    kvListLoop .none outCap call text first rows = .ok (text ++ kvRowsText first rows) := by
  have hle : text.length ≤ (text ++ kvRowsText first rows).length := by
    rw [List.length_append]
    omega
  rw [kvListLoop_exact outCap call text first rows (fun r hr => (h r hr).escapes) (by omega),
    if_pos hroom]

/-- the array of the rows -/
def kvListText (rows : List KvRow) : Bytes := ascii "[" ++ kvRowsText true rows ++ ascii "]"

theorem kvListText_length (rows : List KvRow) :
    (kvListText rows).length = (ascii "[" ++ kvRowsText true rows).length + 1 := List.length_append

/-- `store_kv_list` behind its checks, over the rows of the query -/
def kvListAnswer (outCap : Nat) (rows : List KvRow) : Except ApiError Bytes :=
  match kvListLoop .none outCap 0 (ascii "[") true rows with
  | .error e => .error e
  | .ok text => if text.length + 2 > outCap then .error .payloadTooLarge else .ok (text ++ ascii "]")

theorem storeKvList_answer (kv : KvTable) (pfx : CStr) (limit : Int) (outCap : Nat)
    (hlimit : 0 < limit ∧ limit ≤ STORE_MAX_LIST) (hcap : 3 ≤ outCap) :
    storeKvList .none kv pfx limit outCap = kvListAnswer outCap (kvSelect kv pfx limit.toNat) := by
  unfold storeKvList
  rw [if_neg (by omega), if_neg (by simp), if_neg (by omega)]
  rfl

theorem kvListAnswer_exact (outCap : Nat) (rows : List KvRow) (hcap : 3 ≤ outCap)
    (h : ∀ row ∈ rows, row.Escapes) :
    kvListAnswer outCap rows =
      if (kvListText rows).length < outCap then .ok (kvListText rows)
      else .error .payloadTooLarge := by
  have hone : (ascii "[").length = 1 := by decide
  have hlen := kvListText_length rows
  unfold kvListAnswer
  rw [kvListLoop_exact outCap 0 (ascii "[") true _ h (by omega)]
  by_cases hloop : (ascii "[" ++ kvRowsText true rows).length < outCap
  · rw [if_pos hloop]
    show (if (ascii "[" ++ kvRowsText true rows).length + 2 > outCap then _ else _) = _
    by_cases hfit : (kvListText rows).length < outCap
    · rw [if_neg (by omega), if_pos hfit]
      rfl
    · rw [if_pos (by omega), if_neg hfit]
  · rw [if_neg hloop, if_neg (by omega)]

/-- **`store_kv_list` hands back the whole array exactly when it fits with its terminator.** -/
theorem storeKvList_exact (kv : KvTable) (pfx : CStr) (limit : Int) (outCap : Nat)
    (hlimit : 0 < limit ∧ limit ≤ STORE_MAX_LIST) (hcap : 3 ≤ outCap)
    (h : ∀ row ∈ kvSelect kv pfx limit.toNat, row.Escapes) :
    storeKvList .none kv pfx limit outCap =
      if (kvListText (kvSelect kv pfx limit.toNat)).length < outCap then
        .ok (kvListText (kvSelect kv pfx limit.toNat))
      else .error .payloadTooLarge := by
  rw [storeKvList_answer kv pfx limit outCap hlimit hcap, kvListAnswer_exact _ _ hcap h]

theorem storeKvList_listable (kv : KvTable) (pfx : CStr) (limit : Int) (outCap : Nat)
    (hcap : 3 ≤ outCap) (h : ∀ row ∈ kv.rows, row.Listable) :
    storeKvList .none kv pfx limit outCap ≠ .error .internal := by
  have hsel : ∀ row ∈ kvSelect kv pfx limit.toNat, row.Escapes := by
    intro row hr
    exact (h row ((Table.mem_select KvRow.rank _ _ _).mp (List.mem_of_mem_take hr)).1).escapes
  by_cases hl : limit ≤ 0 ∨ limit > STORE_MAX_LIST
  · unfold storeKvList
    rw [if_pos hl]
    intro he
    cases he
  · rw [storeKvList_exact kv pfx limit outCap (by omega) hcap hsel]
    split_ifs <;> intro he <;> cases he

/-! ## notes -/

/-- the strings of the row are accepted by the calls of `json_escape` into `et` and `eb` -/
structure NoteRow.Escapes (row : NoteRow) : Prop where
  title : (jsonEscape NOTE_TITLE_CAP row.title).isSome
  body : (jsonEscape NOTE_BODY_CAP row.body).isSome

theorem NoteRow.Bounded.escapes {row : NoteRow} (h : row.Bounded) (ht : Clean row.title.bytes)
    (hc : Clean row.body.bytes) : row.Escapes := by
  have hb := (validateNoteFields_ok _ _).mp h
  have htitle := jsonEscape_of_clean NOTE_TITLE_CAP row.title ht (by unfold NOTE_TITLE_CAP; omega)
  have hbody := jsonEscape_of_clean NOTE_BODY_CAP row.body hc (by unfold NOTE_BODY_CAP; omega)
  exact ⟨by rw [htitle]; rfl, by rw [hbody]; rfl⟩

/-- the object of a row -/
def noteRowText (row : NoteRow) : Bytes :=
  noteItem row (escapeText row.title.bytes) (escapeText row.body.bytes)

theorem noteRowToJson_exact (row : NoteRow) (h : row.Escapes) (outCap pos : Nat) :
    noteRowToJson row outCap pos =
      if (noteRowText row).length < outCap - pos then .ok (noteRowText row)
      else .error .payloadTooLarge := by
  unfold noteRowToJson
  rw [(jsonEscape_isSome _ _ h.title).1, (jsonEscape_isSome _ _ h.body).1]
  show (if (noteRowText row).length ≥ outCap - pos then _ else _) = _
  by_cases hfit : (noteRowText row).length < outCap - pos
  · rw [if_neg (by omega), if_pos hfit]
    rfl
  · rw [if_pos (by omega), if_neg hfit]

/-- **The loop over rows that can be escaped: all of them, or too large.** -/
theorem noteListLoop_exact (outCap call : Nat) (text : Bytes) (first : Bool) (rows : List NoteRow)
    (h : ∀ row ∈ rows, row.Escapes) (hstart : text.length < outCap) :
    noteListLoop .none outCap call text first rows =
      if (text ++ joinRows noteRowText first rows).length < outCap then
        .ok (text ++ joinRows noteRowText first rows)
      else .error .payloadTooLarge := by
  induction rows generalizing call text first with
  | nil => rw [noteListLoop, if_neg (by simp), joinRows, List.append_nil, if_pos hstart]
  | cons row rows ih =>
    have hsplit : text ++ joinRows noteRowText first (row :: rows) =
        ((if first then text else text ++ [comma]) ++ noteRowText row) ++
          joinRows noteRowText false rows := by
      rw [joinRows]
      cases first <;> simp
    rw [noteListLoop, if_neg (by simp), hsplit]
    have hcomma : (if first then text else text ++ [comma]).length =
        text.length + if first then 0 else 1 := by
      cases first
      · exact List.length_append
      · rfl
    have hlen : ((if first then text else text ++ [comma]) ++ noteRowText row).length =
        (if first then text else text ++ [comma]).length + (noteRowText row).length :=
      List.length_append
    by_cases hf : first = false ∧ text.length + 1 ≥ outCap
    · rw [if_pos hf, if_neg]
      rw [List.length_append]
      rw [hf.1] at hcomma hlen ⊢
      simp only [Bool.false_eq_true, if_false] at hcomma hlen ⊢
      omega
    · rw [if_neg hf]
      have hcap : (if first then text else text ++ [comma]).length < outCap := by
        cases first
        · simp only [true_and] at hf
          simp only [Bool.false_eq_true, if_false] at hcomma ⊢
          omega
        · exact hstart
      simp only
      rw [noteRowToJson_exact row (h row List.mem_cons_self)]
      by_cases hfit : (noteRowText row).length <
          outCap - (if first then text else text ++ [comma]).length
      · have hroom : ((if first then text else text ++ [comma]) ++ noteRowText row).length <
            outCap := by omega
        rw [if_pos hfit]
        exact ih _ _ _ (fun r hr => h r (List.mem_cons_of_mem _ hr)) hroom
      · have hlong : ¬ ((if first then text else text ++ [comma]) ++ noteRowText row ++
            joinRows noteRowText false rows).length < outCap := by
          rw [List.length_append]
          omega
        rw [if_neg hfit]
        exact (if_neg hlong).symm

/-- the object of the listing -/
def noteListText (rows : List NoteRow) (total : Int) : Bytes :=
  ascii "\x7b\"items\":[" ++ joinRows noteRowText true rows ++
    (ascii "],\"total\":" ++ decimal total ++ ascii "\x7d")

/-- `store_note_list` behind its checks, over the rows of the query -/
def noteListAnswer (outCap : Nat) (rows : List NoteRow) (total : Int) : Except ApiError Bytes :=
  match noteListLoop .none outCap 0 (ascii "\x7b\"items\":[") true rows with
  | .error e => .error e
  | .ok text =>
    if (ascii "],\"total\":" ++ decimal total ++ ascii "\x7d").length ≥ outCap - text.length then
      .error .payloadTooLarge
    else .ok (text ++ (ascii "],\"total\":" ++ decimal total ++ ascii "\x7d"))

theorem storeNoteList_answer (notes : NoteTable) (limit offset : Int) (outCap : Nat)
    (hlimit : 0 < limit ∧ limit ≤ STORE_MAX_LIST ∧ 0 ≤ offset) (hcap : 16 ≤ outCap) :
    storeNoteList .none .none notes limit offset outCap =
      (noteListAnswer outCap (noteSelect notes limit.toNat offset.toNat)
        notes.table.rows.length).map fun text => (text, notes.table.rows.length) := by
  have hten : (ascii "\x7b\"items\":[").length = 10 := by decide
  have hdec : decimal (notes.table.rows.length : Int) = digits notes.table.rows.length := rfl
  unfold storeNoteList noteListAnswer
  rw [if_neg (by omega), if_neg (by simp)]
  simp only [reduceCtorEq, if_false, hdec]
  rw [if_neg (by omega), if_neg (by omega)]
  cases noteListLoop .none outCap 0 (ascii "\x7b\"items\":[") true
      (noteSelect notes limit.toNat offset.toNat) with
  | error e => rfl
  | ok text =>
    simp only
    split_ifs <;> rfl

theorem noteListAnswer_exact (outCap : Nat) (rows : List NoteRow) (total : Int)
    (hcap : 16 ≤ outCap) (h : ∀ row ∈ rows, row.Escapes) :
    noteListAnswer outCap rows total =
      if (noteListText rows total).length < outCap then .ok (noteListText rows total)
      else .error .payloadTooLarge := by
  have hten : (ascii "\x7b\"items\":[").length = 10 := by decide
  have hlen : (noteListText rows total).length =
      (ascii "\x7b\"items\":[" ++ joinRows noteRowText true rows).length +
        (ascii "],\"total\":" ++ decimal total ++ ascii "\x7d").length := List.length_append
  unfold noteListAnswer
  rw [noteListLoop_exact outCap 0 _ true _ h (by omega)]
  by_cases hloop : (ascii "\x7b\"items\":[" ++ joinRows noteRowText true rows).length < outCap
  · rw [if_pos hloop]
    simp only
    by_cases hfit : (noteListText rows total).length < outCap
    · rw [if_pos hfit, if_neg (by omega)]
      rfl
    · rw [if_neg hfit, if_pos (by omega)]
  · rw [if_neg hloop, if_neg (by omega)]

theorem storeNoteList_clean (notes : NoteTable) (limit offset : Int) (outCap : Nat)
    (hcap : 16 ≤ outCap) (h : ∀ row ∈ notes.table.rows,
      row.Bounded ∧ Clean row.title.bytes ∧ Clean row.body.bytes) :
    storeNoteList .none .none notes limit offset outCap ≠ .error .internal := by
  have hsel : ∀ row ∈ noteSelect notes limit.toNat offset.toNat, row.Escapes := by
    intro row hr
    have hmem := List.mem_of_mem_drop (List.mem_of_mem_take hr)
    obtain ⟨hb, ht, hc⟩ := h row ((Table.mem_select _ _ _ _).mp hmem).1
    exact hb.escapes ht hc
  by_cases hl : limit ≤ 0 ∨ limit > STORE_MAX_LIST ∨ offset < 0
  · unfold storeNoteList
    rw [if_pos hl]
    intro he
    cases he
  · rw [storeNoteList_answer notes limit offset outCap (by omega) hcap,
      noteListAnswer_exact outCap _ _ hcap hsel]
    split_ifs <;> intro he <;> cases he

end CServer
