import CServer.Api.Writes

/-!
# The response buffers

The arrays that a handler escapes into and prints its body to, at the largest texts that can reach
it.

* `EchoFits`, `NoteFits`   with `KvFits`, what fits what;
* `handleEcho_fits`        the echo of any string that `json_get_string` delivers;
* `noteFits`               a row of `notes` in the array of a GET and in that of a POST;
* `responseBuffers_fit`    no reply overflows.
-/

namespace CServer

/-! ## echo -/

/-- the object that `handle_echo` prints -/
def echoText (data : Bytes) : Bytes :=
  ascii "\x7b\"data\":\"" ++ escapeText data ++ ascii "\"\x7d"

theorem echoText_length (data : Bytes) : (echoText data).length = (escapeText data).length + 11 := by
  unfold echoText
  simp only [List.length_append, show (ascii "\x7b\"data\":\"").length = 9 by decide,
    show (ascii "\"\x7d").length = 2 by decide]
  omega

/-- The escaped string and the object printed from it fit their arrays. -/
structure EchoFits (data : CStr) : Prop where
  escaped : jsonEscape (HTTP_MAX_BODY_SIZE + 128) data = some (escapeText data.bytes)
  body : (echoText data.bytes).length < HTTP_MAX_BODY_SIZE + 256

/-- The bound is the decoder's own one, not the size of `data[HTTP_MAX_BODY_SIZE]`. -/
theorem echoFits (data : CStr) (hlen : data.length < JSON_VALUE_CAP) (hd : Clean data.bytes) :
    EchoFits data := by
  have hle := escapeText_length_le data.bytes
  have hlen' : data.bytes.length < JSON_VALUE_CAP := hlen
  have hlen'' : data.length < 8192 := hlen
  unfold JSON_VALUE_CAP at hlen'
  refine ⟨jsonEscape_of_clean _ data hd ?_, ?_⟩
  · unfold HTTP_MAX_BODY_SIZE
    omega
  · rw [echoText_length]
    unfold HTTP_MAX_BODY_SIZE
    omega

theorem handleEcho_fits (sendOk : Bool) (req : HttpRequest) (data : CStr)
    (hjson : apiRequireJson req true = .ok)
    (hdata : jsonGetString req.body (.lit "data") HTTP_MAX_BODY_SIZE = .ok data)
    (hd : Clean data.bytes) :
    handleEcho sendOk req = .done (answerWith sendOk (jsonResponse 200 (echoText data.bytes))) := by
  have hfits := echoFits data (jsonGetString_ok_length _ _ _ _ hdata).1 hd
  unfold handleEcho
  simp only [hjson, ne_eq, not_true_eq_false, if_false, hdata, hfits.escaped]
  exact congrArg Program.done (answerPrinted_below _ _ _ hfits.body)

/-! ## notes -/

/-- The escaped title, the escaped body and the object printed from them fit their arrays. -/
structure NoteFits (row : NoteRow) (outCap : Nat) : Prop where
  escapedTitle : jsonEscape NOTE_TITLE_CAP row.title = some (escapeText row.title.bytes)
  escapedBody : jsonEscape NOTE_BODY_CAP row.body = some (escapeText row.body.bytes)
  object : (noteItem row (escapeText row.title.bytes) (escapeText row.body.bytes)).length < outCap

theorem noteFits (row : NoteRow) (hb : row.Bounded) (ht : Clean row.title.bytes)
    (hc : Clean row.body.bytes) (outCap : Nat) (hcap : 17000 ≤ outCap) : NoteFits row outCap := by
  obtain ⟨_, hb1, hb2⟩ := (validateNoteFields_ok _ _).mp hb
  refine ⟨jsonEscape_of_clean _ _ ht ?_, jsonEscape_of_clean _ _ hc ?_, ?_⟩
  · unfold NOTE_TITLE_CAP
    omega
  · unfold NOTE_BODY_CAP
    omega
  · have htext := noteRowToJson_clean row hb ht hc outCap 0 (by omega)
    exact noteRowToJson_length row outCap 0 _ htext

/-! ## every reply -/

/-- **The fixed response buffers are large enough.**  A key and a value that may be stored, a
string that can be echoed and a note that may be stored are escaped and printed within their
arrays, each reply then goes on to send its object. -/
theorem responseBuffers_fit (sendOk : Bool) :
    (∀ key value, storeValidateKey key = .ok → validateValue value = .ok → Clean value.bytes →
      KvFits key value ∧
      kvPutReply sendOk key value .ok = answerWith sendOk
        (jsonResponse 200 (kvItem (escapeText key.bytes) (escapeText value.bytes))) ∧
      kvGetReply sendOk key (.ok value) = answerWith sendOk
        (jsonResponse 200 (kvItem (escapeText key.bytes) (escapeText value.bytes)))) ∧
    (∀ req data, apiRequireJson req true = .ok →
      jsonGetString req.body (.lit "data") HTTP_MAX_BODY_SIZE = .ok data → Clean data.bytes →
      EchoFits data ∧
      handleEcho sendOk req =
        .done (answerWith sendOk (jsonResponse 200 (echoText data.bytes)))) ∧
    (∀ row : NoteRow, validateNoteFields row.title row.body = .ok → Clean row.title.bytes →
      Clean row.body.bytes →
      ∀ out ∈ [StaticBuffer.noteGetBody, StaticBuffer.noteCreateJson],
        NoteFits row out.cap ∧
        noteRowToJson row out.cap 0 =
          .ok (noteItem row (escapeText row.title.bytes) (escapeText row.body.bytes))) := by
  refine ⟨?_, ?_, ?_⟩
  · intro key value hk hvalid hv
    have hlen : value.length ≤ STORE_MAX_VALUE_LEN := by
      unfold validateValue at hvalid
      split_ifs at hvalid with h
      omega
    have hfits := kvFits key value hk hv hlen
    exact ⟨hfits, hfits.reply sendOk, hfits.reply sendOk⟩
  · intro req data hjson hdata hd
    exact ⟨echoFits data (jsonGetString_ok_length _ _ _ _ hdata).1 hd,
      handleEcho_fits sendOk req data hjson hdata hd⟩
  · intro row hb ht hc out hout
    have hcap : 17000 ≤ out.cap := by
      rcases List.mem_pair.mp hout with rfl | rfl <;> decide
    exact ⟨noteFits row hb ht hc out.cap hcap, noteRowToJson_clean row hb ht hc out.cap 0 (by omega)⟩

/-! ## at the bounds -/

/-- as many quotation marks, each of which is escaped -/
def quoteMarks (n : Nat) : CStr where
  bytes := List.replicate n quote
  nulFree := fun h => absurd (List.eq_of_mem_replicate h) (by decide)

theorem quoteMarks_bytes (n : Nat) : (quoteMarks n).bytes = List.replicate n quote :=
  CStr.mk_bytes _ _

theorem quoteMarks_length (n : Nat) : (quoteMarks n).length = n := by
  show (quoteMarks n).bytes.length = n
  rw [quoteMarks_bytes, List.length_replicate]

theorem quoteMarks_clean (n : Nat) : Clean (quoteMarks n).bytes := by
  intro c hc
  rw [quoteMarks_bytes] at hc
  rw [List.eq_of_mem_replicate hc]
  decide

/-- the largest note, of the largest id -/
def largestNote : NoteRow :=
  ⟨Long.clamp (2 ^ 63 - 1), quoteMarks 200, quoteMarks 8192, Long.clamp (-2 ^ 63),
    Long.clamp (-2 ^ 63)⟩

/-- POST /api/echo of one quotation mark -/
def echoQuote : HttpRequest :=
  { HttpRequest.zero with
    contentLength := 13
    contentType := CBuf.print _ contentTypeLen_pos (.lit "application/json")
    body := some (ascii "\x7b\"data\":\"\\\"\"\x7d") }

/-- the largest value and the largest note, of quotation marks only, and one of them echoed -/
theorem responseBuffers_fit_quotes :
    KvFits (.lit "k") (quoteMarks 60000) ∧ EchoFits (.lit "\"") ∧ NoteFits largestNote 17408 := by
  have hvalue : validateValue (quoteMarks 60000) = .ok := by
    unfold validateValue
    rw [quoteMarks_length]
    rfl
  have hnote : validateNoteFields largestNote.title largestNote.body = .ok := by
    apply (validateNoteFields_ok _ _).mpr
    show 0 < (quoteMarks 200).length ∧ (quoteMarks 200).length ≤ 200 ∧
      (quoteMarks 8192).length ≤ 8192
    rw [quoteMarks_length, quoteMarks_length]
    decide
  have h := responseBuffers_fit true
  exact ⟨(h.1 _ _ (by decide) hvalue (quoteMarks_clean 60000)).1,
    (h.2.1 echoQuote (.lit "\"") (by decide +kernel) (by decide +kernel)
      (by decide +kernel)).1,
    (h.2.2 largestNote hnote (quoteMarks_clean 200) (quoteMarks_clean 8192) .noteGetBody
      List.mem_cons_self).1⟩

end CServer
