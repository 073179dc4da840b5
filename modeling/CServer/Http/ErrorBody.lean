import CServer.Http.Respond
import CServer.Json.Contract
import CServer.Lib.Memory

/-!
# The body of an error response

`http_respond_error` escapes the detail into `safe_detail[512]` by a loop of its own and prints the
body around it.  Here the writes are checked; `none` is one outside the array.

* `safeDetailInto`        the loop, at `safe_detail + pos`;
* `safeDetailLoop_kept`   what the loop writes: the escaped form of a prefix of the detail;
* `storeSafeDetail_eq`    it stays inside the array;
* `errorBody_encodes`     the body as an encoded object;
* `errorBodies_valid`     the body is read back.
-/

namespace CServer
open FlatJson

/-! ## the loop in its array -/

/-- the loop of `http_respond_error`, at `safe_detail + pos` -/
def safeDetailInto (safe : Block 512) (pos : Nat) : Bytes → Option (Nat × Block 512)
  | [] => some (pos, safe)
  | c :: p =>
    if pos + 2 < 512 then
      if c = quote ∨ c = backslash then
        match safe.store pos [backslash] with
        | none => none
        | some safe =>
          match safe.store (pos + 1) [c] with
          | none => none
          | some safe => safeDetailInto safe (pos + 2) p
      else
        match safe.store pos [c] with
        | none => none
        | some safe => safeDetailInto safe (pos + 1) p
    else some (pos, safe)

/-- the loop and the terminator behind it -/
def storeSafeDetail (safe : Block 512) (detail : CStr) : Option (Block 512) :=
  match safeDetailInto safe 0 detail.bytes with
  | none => none
  | some (pos, safe) => safe.store pos [0]

/-- **The loop writes inside the array what the model without one writes.** -/
theorem safeDetailInto_eq (safe : Block 512) (text p : Bytes) (h : safe.Begins text) :
    ∃ safe', safeDetailInto safe text.length p = some ((safeDetailLoop text p).length, safe') ∧
      safe'.Begins (safeDetailLoop text p) := by
  induction p generalizing safe text with
  | nil => exact ⟨safe, rfl, h⟩
  | cons c p ih =>
    rw [safeDetailInto, safeDetailLoop]
    by_cases hroom : text.length + 2 < 512
    · rw [if_pos hroom, if_pos hroom]
      by_cases hc : c = quote ∨ c = backslash
      · obtain ⟨safe1, hstore1, hbegins1⟩ := h.store backslash (by omega)
        have hlen : (text ++ [backslash]).length = text.length + 1 := List.length_append
        obtain ⟨safe2, hstore2, hbegins2⟩ := hbegins1.store c (by omega)
        rw [hlen] at hstore2
        have hpair : text ++ [backslash] ++ [c] = text ++ [backslash, c] := List.append_assoc _ _ _
        have hpos : (text ++ [backslash, c]).length = text.length + 2 := List.length_append
        rw [if_pos hc, if_pos hc, hstore1]
        simp only
        rw [hstore2]
        simp only
        rw [← hpos]
        exact ih safe2 _ (hpair ▸ hbegins2)
      · obtain ⟨safe1, hstore, hbegins⟩ := h.store c (by omega)
        have hlen : (text ++ [c]).length = text.length + 1 := List.length_append
        rw [if_neg hc, if_neg hc, hstore]
        simp only
        rw [← hlen]
        exact ih safe1 _ hbegins
    · rw [if_neg hroom, if_neg hroom]
      exact ⟨safe, rfl, h⟩

theorem storeSafeDetail_eq (safe : Block 512) (detail : CStr) :
    ∃ safe', storeSafeDetail safe detail = some safe' ∧
      safe'.bytes.take ((safeDetail detail.bytes).length + 1) = safeDetail detail.bytes ++ [0] := by
  obtain ⟨safe1, hloop, hbegins⟩ := safeDetailInto_eq safe [] detail.bytes ⟨by decide, rfl⟩
  have hlen : (safeDetail detail.bytes).length < 512 :=
    safeDetailLoop_length [] detail.bytes (by decide)
  obtain ⟨safe2, hstore, htake⟩ := safe1.store_eq (safeDetail detail.bytes).length [0] (by
    rw [List.length_singleton]
    omega)
  refine ⟨safe2, ?_, ?_⟩
  · unfold storeSafeDetail
    rw [show safeDetailInto safe 0 detail.bytes = _ from hloop]
    exact hstore
  · have hkeep : safe1.bytes.take (safeDetail detail.bytes).length = safeDetail detail.bytes :=
      hbegins.2
    rwa [hkeep] at htake

/-! ## what is kept of the detail -/

/-- the loop escapes a byte that is no control byte as `json_escape` does -/
theorem escSeq_plain (c : Byte) (h : 0x20 ≤ c) :
    escSeq c = if c = quote ∨ c = backslash then [backslash, c] else [c] := by
  unfold escSeq
  have hlf : c ≠ lf := fun e => absurd (e ▸ h) (by decide)
  have hcr : c ≠ cr := fun e => absurd (e ▸ h) (by decide)
  have htab : c ≠ tab := fun e => absurd (e ▸ h) (by decide)
  by_cases hq : c = quote
  · rw [if_pos hq, if_pos (.inl hq), hq]
  · by_cases hb : c = backslash
    · rw [if_neg hq, if_pos hb, if_pos (.inr hb), hb]
    · rw [if_neg hq, if_neg hb, if_neg hlf, if_neg hcr, if_neg htab, if_neg (by simp [hq, hb])]

/-- **What the loop writes: whole escape sequences of the first bytes, and of all of them when the
escaped form takes at most 510 bytes.** -/
theorem safeDetailLoop_kept (safe p : Bytes) (h : ∀ c ∈ p, 0x20 ≤ c) :
    ∃ kept, kept <+: p ∧ safeDetailLoop safe p = safe ++ escapeText kept ∧
      (safe.length + (escapeText p).length ≤ 510 → kept = p) := by
  induction p generalizing safe with
  | nil => exact ⟨[], List.nil_prefix, (List.append_nil safe).symm, fun _ => rfl⟩
  | cons c p ih =>
    have hc := escSeq_plain c (h c List.mem_cons_self)
    rw [safeDetailLoop]
    by_cases hroom : safe.length + 2 < 512
    · have hnext : (if c = quote ∨ c = backslash then safe ++ [backslash, c] else safe ++ [c]) =
          safe ++ escSeq c := by
        rw [hc]
        split_ifs <;> rfl
      obtain ⟨kept, hpre, hloop, hall⟩ :=
        ih (safe ++ escSeq c) fun d hd => h d (List.mem_cons_of_mem _ hd)
      rw [if_pos hroom, hnext, hloop]
      refine ⟨c :: kept, List.cons_prefix_cons.mpr ⟨rfl, hpre⟩, ?_, fun hfit => ?_⟩
      · rw [escapeText_cons, List.append_assoc]
      · rw [escapeText_cons, List.length_append] at hfit
        rw [hall (by rw [List.length_append]; omega)]
    · have hpos : 0 < (escSeq c).length := by
        rw [hc]
        split_ifs <;> exact Nat.succ_pos _
      rw [if_neg hroom]
      refine ⟨[], List.nil_prefix, (List.append_nil safe).symm, fun hfit => ?_⟩
      rw [escapeText_cons, List.length_append] at hfit
      omega

theorem length_le_escapeText (s : Bytes) : s.length ≤ (escapeText s).length := by
  induction s with
  | nil => exact Nat.zero_le _
  | cons c s ih =>
    have hc : 0 < (escSeq c).length := by
      unfold escSeq
      split_ifs <;> exact Nat.succ_pos _
    rw [escapeText_cons, List.length_append, List.length_cons]
    omega

/-! ## the body -/

/-- the bytes of an error code -/
def WordByte (c : Byte) : Prop := c = 0x5F ∨ (0x61 ≤ c ∧ c ≤ 0x7A)

instance (c : Byte) : Decidable (WordByte c) := by unfold WordByte; infer_instance

/-- `json_escape` leaves a word as it is. -/
theorem escapeText_word {s : Bytes} (h : ∀ c ∈ s, WordByte c) :
    Clean s ∧ (0 : Byte) ∉ s ∧ escapeText s = s := by
  have hlow : ∀ c, WordByte c → 0x20 ≤ c := by
    rintro c (rfl | ⟨hc, -⟩)
    · decide
    · exact UInt8.le_trans (by decide) hc
  refine ⟨fun c hc => .inl (hlow c (h c hc)), fun h0 => absurd (h 0 h0) (by decide), ?_⟩
  induction s with
  | nil => rfl
  | cons c s ih =>
    have hc : WordByte c := h c List.mem_cons_self
    have hplain : ¬ (c = quote ∨ c = backslash) := by
      rintro (rfl | rfl) <;> exact absurd hc (by decide)
    rw [escapeText_cons, escSeq_plain c (hlow c hc), if_neg hplain,
      ih fun d hd => h d (List.mem_cons_of_mem _ hd), List.singleton_append]

theorem apiErrorCode_word (e : ApiError) : ∀ c ∈ apiErrorCode e, WordByte c := by
  cases e <;> simp [apiErrorCode, ascii, WordByte]

theorem apiErrorCode_clean (e : ApiError) :
    Clean (apiErrorCode e) ∧ (0 : Byte) ∉ apiErrorCode e ∧
      escapeText (apiErrorCode e) = apiErrorCode e :=
  escapeText_word (apiErrorCode_word e)

/-- `api_error_code` as a C string -/
def apiErrorText (e : ApiError) : CStr := ⟨apiErrorCode e, (apiErrorCode_clean e).2.1⟩

/-- the members of the body of an error -/
def errorFields (e : ApiError) (message : CStr) (hclean : Clean message.bytes)
    (hfits : message.length ≤ 8191) : List Field :=
  [plainField ⟨ascii "error", by decide⟩ (apiErrorText e)
      ⟨by decide +kernel, (apiErrorCode_clean e).1, by decide,
        (apiErrorCode_length e).trans (by decide)⟩,
    plainField ⟨ascii "message", by decide⟩ message ⟨by decide +kernel, hclean, by decide, hfits⟩]

/-- **The body is the encoded object of the code and of what is kept of the detail.** -/
theorem errorBody_encodes (e : ApiError) (detail : Bytes) (message : CStr)
    (hclean : Clean message.bytes) (hfits : message.length ≤ 8191)
    (hsafe : safeDetail detail = escapeText message.bytes) :
    errorBody e detail =
      encodeObject Ws.none Ws.none Ws.none (errorFields e message hclean hfits) := by
  have hname : ∀ s ∈ [ascii "error", ascii "message"], escapeText s = s := by decide
  have h1 : ascii "\x7b\"error\":\"" = lbrace :: quote :: (ascii "error" ++ [quote, colon, quote]) := by
    decide
  have h2 : ascii "\",\"message\":\"" =
      quote :: comma :: quote :: (ascii "message" ++ [quote, colon, quote]) := by decide
  have h3 : ascii "\"\x7d" = [quote, rbrace] := by decide
  have hquoted : ∀ s : CStr, Clean s.bytes → quoted s = quote :: (escapeText s.bytes ++ [quote]) := by
    intro s hs
    rw [quoted_eq s hs, Str.text, escapePieces_body]
  unfold errorBody encodeObject errorFields
  rw [if_neg (by simp), hsafe, h1, h2, h3]
  simp only [List.map_cons, List.map_nil, Field.encode, plainField]
  rw [hquoted ⟨ascii "error", _⟩ (by decide +kernel), hquoted _ (apiErrorCode_clean e).1,
    hquoted ⟨ascii "message", _⟩ (by decide +kernel), hquoted _ hclean, hname _ List.mem_cons_self,
    hname _ (List.mem_cons_of_mem _ List.mem_cons_self),
    show (apiErrorText e).bytes = apiErrorCode e from rfl, (apiErrorCode_clean e).2.2]
  simp [List.intercalate, Ws.none_bytes]

/-- The body is a well-formed object whose members `"error"` and `"message"` are read as the code
and the message. -/
structure ReadsAsError (body : Bytes) (e : ApiError) (message : CStr) : Prop where
  wellFormed : WellFormed body
  error : ∀ outCap, (apiErrorText e).length < outCap →
    jsonGetString (some body) ⟨ascii "error", by decide⟩ outCap = .ok (apiErrorText e)
  message : ∀ outCap, message.length < outCap →
    jsonGetString (some body) ⟨ascii "message", by decide⟩ outCap = .ok message

theorem errorFields_read (e : ApiError) (message : CStr) (hclean : Clean message.bytes)
    (hfits : message.length ≤ 8191) :
    ReadsAsError (encodeObject Ws.none Ws.none Ws.none (errorFields e message hclean hfits)) e
      message := by
  refine ⟨encodeObject_wellFormed _ _ _ _, fun outCap hcap => ?_, fun outCap hcap => ?_⟩
  · rw [jsonGetString_encodeObject _ _ _ _ _ _ (by omega)]
    exact if_pos hcap
  · rw [jsonGetString_encodeObject _ _ _ _ _ _ (by omega)]
    exact if_pos hcap

/-- the error that `http_respond_error` answers: `API_OK` is none -/
def answeredError (err : ApiError) : ApiError := if err = .ok then .internal else err

theorem httpRespondError_answered (sendOk : Bool) (err : ApiError) (detail : Bytes) :
    httpRespondError sendOk err detail = httpRespondError sendOk (answeredError err) detail := by
  by_cases h : err = .ok
  · rw [h]
    rfl
  · unfold answeredError
    rw [if_neg h]

theorem answeredError_ne_ok (err : ApiError) : answeredError err ≠ .ok := by
  cases err <;> decide

/-- **The body of an error is a well-formed object that reads back as the error's code and as the
detail, whole when its escaped form takes at most 510 bytes and otherwise cut behind a whole escape
sequence; the text stays in `safe_detail[512]` and the body fits `body[1024]`.** -/
theorem errorBodies_valid (sendOk : Bool) (err : ApiError) (detail : CStr)
    (h : ∀ c ∈ detail.bytes, 0x20 ≤ c) (safe : Block 512) :
    ∃ message : CStr, message.bytes <+: detail.bytes ∧
      ((escapeText detail.bytes).length ≤ 510 → message = detail) ∧
      (∃ safe', storeSafeDetail safe detail = some safe' ∧
        safe'.bytes.take ((escapeText message.bytes).length + 1) =
          escapeText message.bytes ++ [0]) ∧
      (errorBody (answeredError err) detail.bytes).length < 1024 ∧
      httpRespondError sendOk err detail.bytes =
        ⟨[⟨apiErrorStatus (answeredError err), APPLICATION_JSON,
          errorBody (answeredError err) detail.bytes,
          if answeredError err = .methodNotAllowed then some (ascii "GET, POST, PUT, DELETE")
          else none⟩], sendOk⟩ ∧
      ReadsAsError (errorBody (answeredError err) detail.bytes) (answeredError err) message := by
  obtain ⟨kept, hpre, hloop, hall⟩ := safeDetailLoop_kept [] detail.bytes h
  have hnul : (0 : Byte) ∉ kept := fun h0 => detail.nulFree (hpre.subset h0)
  have hclean : Clean kept := fun c hc => .inl (h c (hpre.subset hc))
  have hsafe : safeDetail detail.bytes = escapeText kept := hloop
  have hlen := errorBody_length (answeredError err) detail.bytes
  have hfits : kept.length ≤ 8191 := by
    have hroom := safeDetailLoop_length [] detail.bytes (by decide)
    have hpos : kept.length ≤ (escapeText kept).length := length_le_escapeText kept
    rw [hloop, List.nil_append] at hroom
    omega
  obtain ⟨safe', hstore, htake⟩ := storeSafeDetail_eq safe detail
  rw [hsafe] at htake
  refine ⟨⟨kept, hnul⟩, hpre, fun hfit => CStr.ext' (hall ?_), ⟨safe', hstore, htake⟩, by omega,
    ?_, ?_⟩
  · rw [List.length_nil]
    omega
  · rw [httpRespondError_answered, httpRespondError_eq _ _ _ (answeredError_ne_ok err)]
  · rw [errorBody_encodes (answeredError err) detail.bytes ⟨kept, hnul⟩ hclean hfits hsafe]
    exact errorFields_read _ _ _ _

/-- a detail with a quote -/
theorem errorBodies_valid_quote :
    ReadsAsError (errorBody .notFound (ascii "no \"k\"")) .notFound ⟨ascii "no \"k\"", by decide⟩ := by
  obtain ⟨message, _, hall, _, _, _, hreads⟩ := errorBodies_valid true .notFound
    ⟨ascii "no \"k\"", by decide⟩ (by decide +kernel) (Block.zero 512)
  rw [hall (by decide +kernel)] at hreads
  exact hreads

end CServer
