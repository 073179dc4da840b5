import CServer.Http.ContentLength
import CServer.Http.Method
import CServer.Lib.HttpMessage

/-!
# A request as its client wrote it

* `Sendable`, `WithinLimits`  a message with a request line, and the limits of the server;
* `Carries`              a parsed request has what the message says;
* `lineTexts`            the tokens of its header block;
* `findTerminator_message`   the first CR LF CR LF is the one in front of the body;
* `parseRequestLine_words`, `parseHeaderLine_field`   its lines are accepted within the limits;
* `parseRequestLine_overlong`, `parseLines_refused`   and refused above them;
* `httpReadRequest_message`  **the server reads the message back exactly when it fits**, however it
                             arrives.
-/

set_option linter.unusedVariables false

namespace CServer
open Http11

/-! ## messages -/

/-- A message that asks for `target`, with field values that the arrays of the server hold. -/
structure Sendable (m : Message) (method target : Bytes) : Prop where
  wf : m.WF
  start : m.start = method ++ space :: (target ++ space :: ascii "HTTP/1.1")
  method : method ∈ METHODS
  word : Word target
  nul : (0 : Byte) ∉ target
  slash : target.head? = some 47
  names : ∀ f ∈ m.fields, f.name.length < 64
  nulFree : ∀ f ∈ m.fields, (0 : Byte) ∉ f.line
  typeFits : ∀ v ∈ fieldValues (ascii "content-type") m.fields, v.length ≤ 127
  keyFits : ∀ v ∈ fieldValues (ascii "x-api-key") m.fields, v.length ≤ 255
  notChunked : ∀ v ∈ fieldValues (ascii "transfer-encoding") m.fields,
    ¬ ascii "chunked" <:+: v.map toLower

/-- the limits on the request line, the body and the header block -/
structure WithinLimits (m : Message) (target : Bytes) : Prop where
  target : target.length ≤ 2047
  body : m.body.length ≤ HTTP_MAX_BODY_SIZE
  block : m.block.length + 4 < HTTP_MAX_HEADERS_SIZE

instance (m : Message) (target : Bytes) : Decidable (WithinLimits m target) :=
  decidable_of_iff (target.length ≤ 2047 ∧ m.body.length ≤ HTTP_MAX_BODY_SIZE ∧
      m.block.length + 4 < HTTP_MAX_HEADERS_SIZE)
    ⟨fun ⟨ht, hb, hk⟩ => ⟨ht, hb, hk⟩, fun h => ⟨h.target, h.body, h.block⟩⟩

/-- The request has what the message says: a value that is sent twice counts the second time. -/
structure Carries (m : Message) (method target : Bytes) (req : HttpRequest) : Prop where
  methodText : req.methodText.bytes = method
  method : req.method = methodFromString method
  path : req.path.bytes = target.takeWhile fun c => c != 63
  query : req.query.bytes = (target.dropWhile fun c => c != 63).tail
  contentType : req.contentType.bytes = (fieldValues (ascii "content-type") m.fields).getLast?.getD []
  apiKey : req.apiKey.bytes = (fieldValues (ascii "x-api-key") m.fields).getLast?.getD []
  contentLength : req.contentLength =
    if fieldValues CONTENT_LENGTH m.fields = [] then -1 else (m.body.length : Int)
  chunked : req.hasChunked = false
  body : req.body = if m.body = [] then none else some m.body

/-! ## the tokens of the block -/

/-- a line and the fields behind it: each line but the last keeps its carriage return -/
def lineTexts (line : Bytes) : List HeaderField → List Bytes
  | [] => [line]
  | f :: fields => (line ++ [cr]) :: lineTexts f.line fields

theorem strtokLines_fields (line : Bytes) (fields : List HeaderField) (hline : lf ∉ line) (hne : line ≠ [])
    (h : ∀ f ∈ fields, f.WF) :
    strtokLines (line ++ fields.flatMap fun f => lineEnd ++ f.line) = lineTexts line fields := by
  induction fields generalizing line with
  | nil =>
    rw [List.flatMap_nil, List.append_nil]
    exact strtokLines_last line hline hne
  | cons f fields ih =>
    have hf := h f List.mem_cons_self
    have hsplit : line ++ ((f :: fields).flatMap fun f => lineEnd ++ f.line) =
        (line ++ [cr]) ++ lf :: (f.line ++ fields.flatMap fun f => lineEnd ++ f.line) := by
      rw [List.flatMap_cons]
      simp [lineEnd]
    have hlf : lf ∉ line ++ [cr] := by
      intro hm
      rcases List.mem_append.mp hm with hm | hm
      · exact hline hm
      · exact absurd (List.mem_singleton.mp hm) (by decide)
    rw [hsplit, strtokLines_line _ _ hlf (List.append_ne_nil_of_left_ne_nil hne _),
      ih f.line hf.inline.2 f.line_ne_nil fun g hg => h g (List.mem_cons_of_mem _ hg)]
    rfl

theorem stripCr_inline {line : Bytes} (h : Inline line) :
    stripCr line = line ∧ stripCr (line ++ [cr]) = line := by
  constructor
  · unfold stripCr
    rw [if_neg]
    exact fun he => h.1 (List.mem_of_getLast? he)
  · unfold stripCr
    rw [if_pos List.getLast?_concat, List.dropLast_concat]

/-! ## the terminator -/

theorem findTerminator_skip (line s : Bytes) (h : cr ∉ line) :
    findTerminator (line ++ s) = (findTerminator s).map fun e => e + line.length := by
  induction line with
  | nil => exact (congrFun Option.map_id (findTerminator s)).symm
  | cons c line ih =>
    rw [List.mem_cons, not_or] at h
    have hne : ¬ (c :: (line ++ s)).take 4 = crlf2 := by
      intro he
      exact h.1 (List.cons.inj he).1.symm
    rw [List.cons_append, findTerminator, if_neg hne, ih h.2, Option.map_map]
    rfl

/-- a line end in front of a line that is not empty -/
theorem findTerminator_lineEnd (s : Bytes) (h : s.head? ≠ some cr) :
    findTerminator (lineEnd ++ s) = (findTerminator s).map fun e => e + 2 := by
  have hfirst : ¬ (cr :: lf :: s).take 4 = crlf2 := by
    intro he
    cases s with
    | nil => cases he
    | cons d s => exact h (congrArg some (List.cons.inj (List.cons.inj (List.cons.inj he).2).2).1)
  have hsecond : ¬ (lf :: s).take 4 = crlf2 := by
    intro he
    exact absurd (List.cons.inj he).1 (by decide)
  show findTerminator (cr :: lf :: s) = _
  rw [findTerminator, if_neg hfirst, findTerminator, if_neg hsecond, Option.map_map]
  rfl

theorem findTerminator_fields (line : Bytes) (fields : List HeaderField) (hline : Inline line)
    (h : ∀ f ∈ fields, f.WF) (rest : Bytes) :
    findTerminator (line ++ ((fields.flatMap fun f => lineEnd ++ f.line) ++
      (lineEnd ++ lineEnd ++ rest))) =
      some (line ++ fields.flatMap fun f => lineEnd ++ f.line).length := by
  induction fields generalizing line with
  | nil =>
    rw [findTerminator_skip line _ hline.1, List.flatMap_nil, List.nil_append, List.append_nil]
    show some (0 + line.length) = _
    rw [Nat.zero_add]
  | cons f fields ih =>
    have hf := h f List.mem_cons_self
    have hhead : ∀ s, (f.line ++ s).head? ≠ some cr := by
      intro s he
      cases hname : f.line with
      | nil => exact f.line_ne_nil hname
      | cons c l =>
        rw [hname] at he
        exact hf.inline.1 (hname ▸ Option.some.inj he ▸ List.mem_cons_self)
    rw [findTerminator_skip line _ hline.1, List.flatMap_cons, List.append_assoc, List.append_assoc,
      findTerminator_lineEnd _ (hhead _), ih f.line hf.inline fun g hg => h g (List.mem_cons_of_mem _ hg)]
    show some _ = some _
    simp only [List.length_append, show lineEnd.length = 2 from rfl]
    congr 1
    omega

/-- **The first CR LF CR LF of a message is the one in front of its body.** -/
theorem findTerminator_message (m : Message) (h : m.WF) (rest : Bytes) :
    findTerminator (m.text ++ rest) = some m.block.length := by
  have hterm := findTerminator_fields m.start m.fields h.start h.fields (m.body ++ rest)
  have htext : m.text ++ rest = m.start ++ ((m.fields.flatMap fun f => lineEnd ++ f.line) ++
      (lineEnd ++ lineEnd ++ (m.body ++ rest))) := by
    simp only [Message.text, Message.block, List.append_assoc]
  rw [htext]
  exact hterm

theorem message_append (m : Message) (rest : Bytes) :
    m.text ++ rest = m.block ++ (crlf2 ++ (m.body ++ rest)) := by
  simp only [Message.text, List.append_assoc]
  rfl

theorem message_take (m : Message) (rest : Bytes) :
    (m.text ++ rest).take m.block.length = m.block := by
  rw [message_append m, List.take_left]

/-! ## the request line -/

/-- what a request line leaves in the request -/
structure LineTaken (method target : Bytes) (out out' : HttpRequest) : Prop where
  methodText : out'.methodText.bytes = method
  method : out'.method = methodFromString method
  path : out'.path.bytes = target.takeWhile fun c => c != 63
  query : out'.query.bytes = (target.dropWhile fun c => c != 63).tail
  contentLength : out'.contentLength = out.contentLength
  contentType : out'.contentType = out.contentType
  apiKey : out'.apiKey = out.apiKey
  chunked : out'.hasChunked = out.hasChunked

theorem print_method (m : Bytes) (h : m ∈ METHODS) :
    (CBuf.print _ methodLen_pos (CStr.ofBytes m)).bytes = m := by
  have hlen := methods_length m h
  rw [CBuf.print_bytes, CStr.ofBytes_bytes, cstr_of_nulFree m (methods_word m h).2.2]
  exact List.take_of_length_le (show m.length ≤ 7 by omega)

theorem Sendable.target_ne {m : Message} {method target : Bytes} (h : Sendable m method target) :
    target ≠ [] := by
  intro he
  have hs := h.slash
  rw [he] at hs
  cases hs

/-- the words of the request line -/
theorem Sendable.scan {m : Message} {method target : Bytes} (h : Sendable m method target) :
    scanWord 7 m.start = some (method, space :: (target ++ space :: ascii "HTTP/1.1")) ∧
      scanWord 2047 (space :: (target ++ space :: ascii "HTTP/1.1")) =
        some (target.take 2047, target.drop 2047 ++ space :: ascii "HTTP/1.1") := by
  obtain ⟨hmword, hmne, _⟩ := methods_word method h.method
  have hmlen := methods_length method h.method
  have h1 := scanWord_word 7 method (space :: (target ++ space :: ascii "HTTP/1.1")) (by decide) hmne
    hmword (space_isSpace _)
  rw [List.take_of_length_le (by omega), List.drop_eq_nil_of_le (by omega), List.nil_append] at h1
  rw [h.start, scanWord_space]
  exact ⟨h1, scanWord_word 2047 target (space :: ascii "HTTP/1.1") (by decide) h.target_ne h.word
    (space_isSpace _)⟩

theorem parseRequestLine_words {m : Message} {method target : Bytes} (h : Sendable m method target)
    (hfit : target.length ≤ 2047) (line : CStr) (hline : line.bytes = m.start) (out : HttpRequest) :
    ∃ out', parseRequestLine line out = .ok out' ∧ LineTaken method target out out' := by
  obtain ⟨h1, h2⟩ := h.scan
  rw [List.take_of_length_le hfit, List.drop_eq_nil_of_le hfit, List.nil_append] at h2
  have h3 : scanWord 15 (ascii "HTTP/1.1") = some (ascii "HTTP/1.1", []) := by decide
  have hversion : ¬ (ascii "HTTP/1.").isPrefixOf (ascii "HTTP/1.1") = false := by decide
  have hmax : HTTP_MAX_PATH_LEN = 2048 := rfl
  unfold parseRequestLine
  rw [hline, h1]
  simp only
  rw [h2]
  simp only
  rw [scanWord_space, h3]
  simp only
  rw [if_neg hversion, if_neg (not_or.mpr ⟨h.target_ne, not_not.mpr h.slash⟩), if_neg (by omega)]
  cases hd : target.dropWhile fun c => c != 63 with
  | nil =>
    have hall : target.takeWhile (fun c => c != 63) = target := by
      have hsplit := List.takeWhile_append_dropWhile (p := fun c : Byte => c != 63) (l := target)
      rwa [hd, List.append_nil] at hsplit
    exact ⟨_, rfl, print_method method h.method, rfl,
      (print_fits target h.nul (by omega)).trans hall.symm, by rw [hd]; rfl, rfl, rfl, rfl, rfl⟩
  | cons q query =>
    have hsplit := List.takeWhile_append_dropWhile (p := fun c : Byte => c != 63) (l := target)
    rw [hd] at hsplit
    have hlen := congrArg List.length hsplit
    rw [List.length_append, List.length_cons] at hlen
    have hpathNul : (0 : Byte) ∉ target.takeWhile fun c => c != 63 := fun h0 =>
      h.nul ((List.takeWhile_prefix _).subset h0)
    have hqueryNul : (0 : Byte) ∉ query := fun h0 => h.nul (by
      rw [← hsplit]
      exact List.mem_append_right _ (List.mem_cons_of_mem _ h0))
    have hpathLen : (target.takeWhile fun c => c != 63).length < HTTP_MAX_PATH_LEN :=
      ((List.takeWhile_prefix _).length_le.trans hfit).trans_lt (by decide)
    simp only
    rw [if_neg (not_le.mpr hpathLen)]
    exact ⟨_, rfl, print_method method h.method, rfl, print_fits _ hpathNul hpathLen, by
      rw [hd]
      exact print_fits query hqueryNul (by omega), rfl, rfl, rfl, rfl⟩

/-- a target that is cut: what stands behind the cut is taken for the version -/
theorem parseRequestLine_overlong {m : Message} {method target : Bytes} (h : Sendable m method target)
    (hlong : 2047 < target.length) (hhttp : ¬ ascii "HTTP/1." <+: target.drop 2047) (line : CStr)
    (hline : line.bytes = m.start) (out : HttpRequest) :
    parseRequestLine line out = .error .badRequest := by
  obtain ⟨h1, h2⟩ := h.scan
  have hne : target.drop 2047 ≠ [] := by
    rw [Ne, List.drop_eq_nil_iff]
    omega
  have h3 := scanWord_word 15 (target.drop 2047) (space :: ascii "HTTP/1.1") (by decide) hne
    (fun c hc => h.word c (List.mem_of_mem_drop hc)) (space_isSpace _)
  have hversion : (ascii "HTTP/1.").isPrefixOf ((target.drop 2047).take 15) = false :=
    Bool.eq_false_iff.mpr fun hp =>
      hhttp ((List.isPrefixOf_iff_prefix.mp hp).trans (List.take_prefix _ _))
  unfold parseRequestLine
  rw [hline, h1]
  simp only
  rw [h2]
  simp only
  rw [h3]
  simp only
  rw [if_pos hversion]

/-! ## the header lines -/

theorem isBlank_isOws : isBlank = isOws := rfl

theorem headerName_line {f : HeaderField} (h : f.WF) : headerName f.line = f.name.map toLower := by
  unfold headerName
  rw [show f.line = f.name ++ colon :: space :: f.value from rfl,
    (takeWhile_name f.name _ h.noColon).1]

theorem headerValue_line {f : HeaderField} (h : f.WF) : headerValue f.line = f.value := by
  unfold headerValue
  rw [show f.line = f.name ++ colon :: space :: f.value from rfl,
    (takeWhile_name f.name _ h.noColon).2]
  show (space :: f.value).dropWhile isOws = _
  rw [List.dropWhile_cons_of_pos (by decide)]
  cases hv : f.value with
  | nil => rfl
  | cons c value =>
    rw [List.dropWhile_cons_of_neg]
    rw [h.head c (by rw [hv]; rfl)]
    decide

theorem named_iff {f : HeaderField} (h : f.WF) (name : String) :
    f.named (ascii name) = isHeader name f.line := by
  unfold HeaderField.named isHeader
  rw [headerName_line h]
  exact beq_eq_decide _ _

/-- the digits of a length are accepted as that length -/
theorem readLength_digits (n : Nat) (h : n ≤ HTTP_MAX_BODY_SIZE) : readLength (digits n) = .ok n := by
  obtain ⟨hdigits, hvalue, hne, _⟩ := digits_spec n
  refine (PlainLength.accepts (n := n) ⟨digits n, [], (List.append_nil _).symm, hne, hdigits, ?_, ?_⟩
    (by omega)).read
  · exact fun c hc => absurd hc List.not_mem_nil
  · rw [hvalue]

theorem readLength_oversized (n : Nat) (h : HTTP_MAX_BODY_SIZE < n) :
    readLength (digits n) = .error .payloadTooLarge := by
  obtain ⟨hdigits, hvalue, hne, _⟩ := digits_spec n
  refine (PlainLength.oversized (n := n) ⟨digits n, [], (List.append_nil _).symm, hne, hdigits, ?_, ?_⟩
    (by omega)).read
  · exact fun c hc => absurd hc List.not_mem_nil
  · rw [hvalue]

/-- **A field line is accepted**; a Content-Length field of `n` sets the length to it. -/
theorem parseHeaderLine_field {f : HeaderField} (h : f.WF) (n : Nat) (hn : n ≤ HTTP_MAX_BODY_SIZE)
    (hshort : f.name.length < 64) (hlength : f.named CONTENT_LENGTH = true → f.value = digits n)
    (line : CStr) (hline : line.bytes = f.line) (out : HttpRequest) :
    ∃ out', parseHeaderLine line out = .ok out' ∧
      out'.contentLength = (if f.named CONTENT_LENGTH then (n : Int) else out.contentLength) ∧
      out'.methodText = out.methodText := by
  obtain ⟨htake, hdrop⟩ := takeWhile_name f.name (space :: f.value) h.noColon
  have hpos : f.name.length ≠ 0 := fun h0 => h.name_ne (List.length_eq_zero_iff.mp h0)
  have hvalue : (space :: f.value).dropWhile isBlank = f.value := by
    have hv := headerValue_line h
    unfold headerValue at hv
    rwa [show f.line = f.name ++ colon :: space :: f.value from rfl, hdrop] at hv
  unfold parseHeaderLine
  rw [hline, show f.line = f.name ++ colon :: space :: f.value from rfl, hdrop]
  simp only
  rw [htake, if_neg (by omega), hvalue]
  by_cases hcl : f.name.map toLower = ascii "content-length"
  · have hnamed : f.named CONTENT_LENGTH = true := beq_iff_eq.mpr hcl
    rw [if_pos hcl, parseContentLength_eq, hlength hnamed, readLength_digits n hn, if_pos hnamed]
    exact ⟨_, rfl, rfl, rfl⟩
  · have hnot : ¬ f.named CONTENT_LENGTH = true := fun hnamed => hcl (beq_iff_eq.mp hnamed)
    rw [if_neg hcl, if_neg hnot]
    split_ifs <;> exact ⟨_, rfl, rfl, rfl⟩

/-- a length that is refused -/
theorem parseLines_refused (texts : List Bytes) (out : HttpRequest) (k : Nat) (line : Bytes) (e : ApiError)
    (hnul : ∀ t ∈ texts, (0 : Byte) ∉ t) (hline : line ∈ fullLines texts)
    (hlength : isLength line = true) (hbad : readLength (headerValue line) = .error e) :
    ∃ e', parseLines out (k + 1) texts = .error e' := by
  induction texts generalizing out k with
  | nil => exact absurd hline List.not_mem_nil
  | cons text texts ih =>
    have hbytes := ofBytes_stripCr text (hnul text List.mem_cons_self)
    rw [parseLines]
    simp only [Nat.add_one_ne_zero, if_false]
    by_cases hhere : line = stripCr text
    · have hne : (CStr.ofBytes (stripCr text)).bytes ≠ [] := by
        rw [hbytes, ← hhere]
        exact fun he => by
          rw [he] at hlength
          cases hlength
      rw [if_pos hne, parseHeaderLine_isLength _ _ (by rw [hbytes, ← hhere]; exact hlength), hbytes,
        ← hhere, hbad]
      exact ⟨e, rfl⟩
    · have hlater : line ∈ fullLines texts := by
        obtain ⟨hmem, hne⟩ := List.mem_filter.mp hline
        rw [List.map_cons, List.mem_cons] at hmem
        exact List.mem_filter.mpr ⟨hmem.resolve_left hhere, hne⟩
      have hrest := fun out => ih out (k + 1) (fun t ht => hnul t (List.mem_cons_of_mem _ ht)) hlater
      cases hresult : (if (CStr.ofBytes (stripCr text)).bytes ≠ [] then
          parseHeaderLine (CStr.ofBytes (stripCr text)) out else .ok out) with
      | error e => exact ⟨e, rfl⟩
      | ok out => exact hrest out

/-- the lines behind the request line -/
theorem parseLines_fields (n : Nat) (hn : n ≤ HTTP_MAX_BODY_SIZE) (f : HeaderField)
    (fields : List HeaderField)
    (h : ∀ g ∈ f :: fields, g.WF ∧ g.name.length < 64 ∧ (0 : Byte) ∉ g.line)
    (hlength : ∀ v ∈ fieldValues CONTENT_LENGTH (f :: fields), v = digits n) (out : HttpRequest) (k : Nat) :
    ∃ out' j, parseLines out (k + 1) (lineTexts f.line fields) = .ok (out', j + 1) ∧
      out'.contentLength =
        (if fieldValues CONTENT_LENGTH (f :: fields) = [] then out.contentLength else (n : Int)) ∧
      out'.methodText = out.methodText := by
  induction fields generalizing f out k with
  | nil =>
    obtain ⟨hf, hshort, hnul⟩ := h f List.mem_cons_self
    have hline : (CStr.ofBytes (stripCr f.line)).bytes = f.line := by
      rw [(stripCr_inline hf.inline).1, CStr.ofBytes_bytes, cstr_of_nulFree _ hnul]
    obtain ⟨out', hparse, hlen, htext⟩ := parseHeaderLine_field hf n hn hshort (fun hnamed =>
      hlength _ (List.mem_map_of_mem (List.mem_filter.mpr ⟨List.mem_cons_self, hnamed⟩))) _ hline out
    refine ⟨out', k + 1, ?_, ?_, htext⟩
    · rw [lineTexts, parseLines]
      simp only [Nat.add_one_ne_zero, if_false]
      rw [if_pos (by rw [hline]; exact f.line_ne_nil), hparse]
      rfl
    · rw [hlen]
      unfold fieldValues
      by_cases hnamed : f.named CONTENT_LENGTH = true
      · rw [if_pos hnamed, List.filter_cons_of_pos hnamed]
        rfl
      · rw [if_neg hnamed, List.filter_cons_of_neg hnamed]
        rfl
  | cons g fields ih =>
    obtain ⟨hf, hshort, hnul⟩ := h f List.mem_cons_self
    have hline : (CStr.ofBytes (stripCr (f.line ++ [cr]))).bytes = f.line := by
      rw [(stripCr_inline hf.inline).2, CStr.ofBytes_bytes, cstr_of_nulFree _ hnul]
    obtain ⟨out1, hparse, hlen1, htext1⟩ := parseHeaderLine_field hf n hn hshort (fun hnamed =>
      hlength _ (List.mem_map_of_mem (List.mem_filter.mpr ⟨List.mem_cons_self, hnamed⟩))) _ hline out
    have hlater : ∀ v ∈ fieldValues CONTENT_LENGTH (g :: fields), v = digits n := by
      intro v hv
      obtain ⟨x, hx, rfl⟩ := List.mem_map.mp hv
      obtain ⟨hmem, hnamed⟩ := List.mem_filter.mp hx
      exact hlength _ (List.mem_map_of_mem (List.mem_filter.mpr ⟨List.mem_cons_of_mem _ hmem, hnamed⟩))
    obtain ⟨out', j, hrest, hlen, htext⟩ :=
      ih g (fun x hx => h x (List.mem_cons_of_mem _ hx)) hlater out1 (k + 1)
    refine ⟨out', j, ?_, ?_, htext.trans htext1⟩
    · rw [lineTexts, parseLines]
      simp only [Nat.add_one_ne_zero, if_false]
      rw [if_pos (by rw [hline]; exact f.line_ne_nil), hparse]
      exact hrest
    · have hvalues : fieldValues CONTENT_LENGTH (f :: g :: fields) =
          (if f.named CONTENT_LENGTH then [f.value] else []) ++
          fieldValues CONTENT_LENGTH (g :: fields) := by
        unfold fieldValues
        by_cases hnamed : f.named CONTENT_LENGTH = true
        · rw [if_pos hnamed, List.filter_cons_of_pos hnamed]
          rfl
        · rw [if_neg hnamed, List.filter_cons_of_neg hnamed]
          rfl
      rw [hlen, hvalues, hlen1]
      by_cases hnamed : f.named CONTENT_LENGTH = true
      · rw [if_pos hnamed, if_pos hnamed, ite_self, if_neg (by simp)]
      · rw [if_neg hnamed, if_neg hnamed, List.nil_append]

/-! ## the whole message -/

/-- the lines behind the request line, without their carriage returns -/
theorem fullLines_fields (f : HeaderField) (fields : List HeaderField) (h : ∀ g ∈ f :: fields, g.WF) :
    fullLines (lineTexts f.line fields) = (f :: fields).map HeaderField.line := by
  induction fields generalizing f with
  | nil =>
    have hf := h f List.mem_cons_self
    unfold fullLines
    rw [lineTexts, List.map_singleton, (stripCr_inline hf.inline).1,
      List.filter_cons_of_pos (by simpa using f.line_ne_nil)]
    rfl
  | cons g fields ih =>
    have hf := h f List.mem_cons_self
    have hrest := ih g fun x hx => h x (List.mem_cons_of_mem _ hx)
    unfold fullLines at hrest ⊢
    rw [lineTexts, List.map_cons, (stripCr_inline hf.inline).2,
      List.filter_cons_of_pos (by simpa using f.line_ne_nil), hrest]
    rfl

/-- the value that counts is the same, in the lines and in the fields -/
theorem lastValue_fields (name : String) (fields : List HeaderField) (h : ∀ f ∈ fields, f.WF) :
    lastValue name (fields.map HeaderField.line) = (fieldValues (ascii name) fields).getLast? := by
  have hfilter : (fields.map HeaderField.line).filter (isHeader name) =
      (fields.filter (HeaderField.named (ascii name))).map HeaderField.line := by
    rw [List.filter_map]
    congr 1
    exact List.filter_congr fun f hf => (named_iff (h f hf) name).symm
  unfold lastValue fieldValues
  rw [hfilter, List.getLast?_map, List.getLast?_map, Option.map_map]
  refine Option.map_congr fun f hf => ?_
  exact headerValue_line (h f (List.mem_of_mem_filter (List.mem_of_getLast? hf)))

theorem Sendable.block_nulFree {m : Message} {method target : Bytes} (h : Sendable m method target) :
    (0 : Byte) ∉ m.block := by
  intro h0
  rcases List.mem_append.mp h0 with h0 | h0
  · rw [h.start] at h0
    rcases List.mem_append.mp h0 with h0 | h0
    · exact (methods_word method h.method).2.2 h0
    · rcases List.mem_cons.mp h0 with h0 | h0
      · exact absurd h0 (by decide)
      · rcases List.mem_append.mp h0 with h0 | h0
        · exact h.nul h0
        · exact absurd h0 (by decide)
  · obtain ⟨f, hf, h0⟩ := List.mem_flatMap.mp h0
    rcases List.mem_append.mp h0 with h0 | h0
    · exact absurd h0 (by decide)
    · exact h.nulFree f hf h0

theorem Sendable.start_ne {m : Message} {method target : Bytes} (h : Sendable m method target) :
    m.start ≠ [] := by
  rw [h.start]
  exact List.append_ne_nil_of_right_ne_nil _ (List.cons_ne_nil _ _)

/-- no field announces chunks -/
theorem Sendable.any_chunked {m : Message} {method target : Bytes} (h : Sendable m method target) :
    (m.fields.map HeaderField.line).any announcesChunked = false := by
  rw [List.any_eq_false]
  intro line hline
  obtain ⟨f, hf, rfl⟩ := List.mem_map.mp hline
  have hwf := h.wf.fields f hf
  unfold announcesChunked
  rw [headerName_line hwf, headerValue_line hwf, Bool.and_eq_true, decide_eq_true_eq]
  rintro ⟨hname, hchunked⟩
  have hvalue : f.value ∈ fieldValues (ascii "transfer-encoding") m.fields :=
    List.mem_map_of_mem (List.mem_filter.mpr ⟨hf, beq_iff_eq.mpr hname⟩)
  have htake : (f.value.take 127).map toLower <+: f.value.map toLower :=
    (List.take_prefix _ _).map _
  exact h.notChunked _ hvalue ((of_decide_eq_true hchunked).trans htake.isInfix)

theorem Sendable.texts {m : Message} {method target : Bytes} (h : Sendable m method target) :
    strtokLines (cstr m.block) = lineTexts m.start m.fields := by
  rw [cstr_of_nulFree _ h.block_nulFree]
  exact strtokLines_fields m.start m.fields h.wf.start.2 h.start_ne h.wf.fields

theorem Sendable.texts_nulFree {m : Message} {method target : Bytes} (h : Sendable m method target) :
    ∀ t ∈ lineTexts m.start m.fields, (0 : Byte) ∉ t := by
  rw [← h.texts]
  exact fun t ht h0 => cstr_nulFree m.block (strtokLines_subset _ t ht h0)

/-- the request line, with or without its carriage return -/
theorem Sendable.first {m : Message} {method target : Bytes} (h : Sendable m method target) (text : Bytes)
    (ht : text = m.start ∨ text = m.start ++ [cr]) :
    (CStr.ofBytes (stripCr text)).bytes = m.start := by
  have hnul : (0 : Byte) ∉ m.start := fun h0 => h.block_nulFree (List.mem_append_left _ h0)
  have hstrip : stripCr text = m.start := by
    rcases ht with rfl | rfl
    · exact (stripCr_inline h.wf.start).1
    · exact (stripCr_inline h.wf.start).2
  rw [hstrip, CStr.ofBytes_bytes, cstr_of_nulFree _ hnul]

/-- **The header block of a message is parsed to what the message says.** -/
theorem parseHeaders_message {m : Message} {method target : Bytes} (h : Sendable m method target)
    (hfits : WithinLimits m target) :
    ∃ out : HttpRequest, parseHeaders m.block = .ok out ∧
      Carries m method target { out with body := if m.body = [] then none else some m.body } := by
  have hknown := methodFromString_methods method h.method
  unfold parseHeaders
  rw [h.texts]
  cases hfields : m.fields with
  | nil =>
    obtain ⟨out, hparse, htaken⟩ :=
      parseRequestLine_words h hfits.target _ (h.first m.start (.inl rfl)) HttpRequest.zero
    refine ⟨out, ?_, ?_⟩
    · rw [lineTexts, parseLines]
      simp only [if_true]
      rw [hparse]
      show (if (0 : Nat) + 1 = 0 then _ else if out.method = .unknown then _
        else if out.hasChunked then _ else _) = Except.ok out
      rw [if_neg (by decide), if_neg (by rw [htaken.method]; exact hknown), htaken.chunked]
      rfl
    · have hnone : ∀ name, fieldValues name m.fields = [] := fun name => by rw [hfields]; rfl
      exact ⟨htaken.methodText, htaken.method, htaken.path, htaken.query,
        by rw [hnone]; exact congrArg (fun b : CBuf _ => b.bytes) htaken.contentType,
        by rw [hnone]; exact congrArg (fun b : CBuf _ => b.bytes) htaken.apiKey,
        by rw [if_pos (hnone _)]; exact htaken.contentLength, htaken.chunked, rfl⟩
  | cons f fields =>
    obtain ⟨out0, hparse, htaken⟩ :=
      parseRequestLine_words h hfits.target _ (h.first (m.start ++ [cr]) (.inr rfl)) HttpRequest.zero
    have hall : ∀ g ∈ f :: fields, g.WF ∧ g.name.length < 64 ∧ (0 : Byte) ∉ g.line := by
      rw [← hfields]
      exact fun g hg => ⟨h.wf.fields g hg, h.names g hg, h.nulFree g hg⟩
    obtain ⟨out, j, hlines, hlength, htext⟩ := parseLines_fields m.body.length hfits.body f fields hall
      (by rw [← hfields]; exact h.wf.sized) out0 0
    have hnulTexts : ∀ t ∈ lineTexts f.line fields, (0 : Byte) ∉ t := by
      have hall := h.texts_nulFree
      rw [hfields] at hall
      exact fun t ht => hall t (List.mem_cons_of_mem _ ht)
    have heffect := parseLines_effect _ _ _ 0 _ hnulTexts hlines
    rw [fullLines_fields f fields fun g hg => (hall g hg).1, ← hfields] at heffect
    have hchunked : out.hasChunked = false := by
      rw [heffect.chunked, h.any_chunked, htaken.chunked]
      rfl
    refine ⟨out, ?_, ?_⟩
    · rw [lineTexts, parseLines]
      simp only [if_true]
      rw [hparse]
      simp only
      rw [hlines]
      show (if j + 1 = 0 then _ else if out.method = .unknown then _
        else if out.hasChunked then _ else _) = Except.ok out
      rw [if_neg (Nat.succ_ne_zero j), if_neg (by rw [heffect.method, htaken.method]; exact hknown),
        hchunked]
      rfl
    · have huncut : ∀ (name : String) (n : Nat), (∀ v ∈ fieldValues (ascii name) m.fields, v.length ≤ n) →
          ((lastValue name (m.fields.map HeaderField.line)).map (List.take n)).getD [] =
            (fieldValues (ascii name) m.fields).getLast?.getD [] := by
        intro name n hfit
        rw [lastValue_fields name m.fields h.wf.fields]
        cases hv : (fieldValues (ascii name) m.fields).getLast? with
        | none => rfl
        | some v => exact List.take_of_length_le (hfit v (List.mem_of_getLast? hv))
      refine ⟨?_, ?_, ?_, ?_, ?_, ?_, ?_, hchunked, rfl⟩
      · exact (congrArg (fun b : CBuf _ => b.bytes) htext).trans htaken.methodText
      · exact heffect.method.trans htaken.method
      · exact (congrArg (fun b : CBuf _ => b.bytes) heffect.path).trans htaken.path
      · exact (congrArg (fun b : CBuf _ => b.bytes) heffect.query).trans htaken.query
      · refine heffect.contentType.trans ?_
        rw [htaken.contentType]
        exact huncut "content-type" 127 h.typeFits
      · refine heffect.apiKey.trans ?_
        rw [htaken.apiKey]
        exact huncut "x-api-key" 255 h.keyFits
      · show out.contentLength = _
        rw [hlength, hfields]
        split_ifs
        · exact htaken.contentLength
        · rfl

/-- **A header block above the limits is refused.** -/
theorem parseHeaders_overlong {m : Message} {method target : Bytes} (h : Sendable m method target)
    (hhttp : ¬ ascii "HTTP/1." <+: target.drop 2047)
    (hover : 2047 < target.length ∨ HTTP_MAX_BODY_SIZE < m.body.length) :
    ∃ e, parseHeaders m.block = .error e := by
  have hnul := h.texts_nulFree
  have hsized := h.wf.sized
  have hunsized := h.wf.unsized
  -- it is enough that one of the lines is refused
  suffices hlines : ∃ e, parseLines HttpRequest.zero 0 (lineTexts m.start m.fields) = .error e by
    obtain ⟨e, he⟩ := hlines
    refine ⟨e, ?_⟩
    unfold parseHeaders
    rw [h.texts, he]
  have hfirst : ∀ text texts, (text = m.start ∨ text = m.start ++ [cr]) → 2047 < target.length →
      ∃ e, parseLines HttpRequest.zero 0 (text :: texts) = .error e := by
    intro text texts ht hlong
    refine ⟨.badRequest, ?_⟩
    rw [parseLines]
    simp only [if_true]
    rw [parseRequestLine_overlong h hlong hhttp _ (h.first text ht)]
  cases hfields : m.fields with
  | nil =>
    rw [hfields] at hunsized
    have hbody : m.body = [] := hunsized rfl
    rw [hbody] at hover
    exact hfirst m.start [] (.inl rfl) (hover.resolve_right (by decide))
  | cons f fields =>
    rcases hover with hlong | hbig
    · exact hfirst (m.start ++ [cr]) _ (.inr rfl) hlong
    · rw [hfields] at hnul hsized hunsized
      have hwf : ∀ g ∈ f :: fields, g.WF := by
        rw [← hfields]
        exact h.wf.fields
      -- a body of its own is announced
      obtain ⟨v, hv⟩ : ∃ v, v ∈ fieldValues CONTENT_LENGTH (f :: fields) := by
        refine List.exists_mem_of_ne_nil _ fun hnone => ?_
        rw [hunsized hnone] at hbig
        exact absurd hbig (by decide)
      obtain ⟨g, hg, hvalue⟩ := List.mem_map.mp hv
      obtain ⟨hmem, hnamed⟩ := List.mem_filter.mp hg
      have hg' := hwf g hmem
      have hline : g.line ∈ fullLines (lineTexts f.line fields) := by
        rw [fullLines_fields f fields hwf]
        exact List.mem_map_of_mem hmem
      have hlength : isLength g.line = true := by
        refine (isLength_iff _).mpr ⟨?_, List.mem_append_right _ List.mem_cons_self⟩
        rw [headerName_line hg']
        exact beq_iff_eq.mp hnamed
      have hbad : readLength (headerValue g.line) = .error .payloadTooLarge := by
        rw [headerValue_line hg', hvalue, hsized v hv]
        exact readLength_oversized _ hbig
      have hrest : ∀ out, ∃ e, parseLines out 1 (lineTexts f.line fields) = .error e := fun out =>
        parseLines_refused _ out 0 _ _ (fun t ht => hnul t (List.mem_cons_of_mem _ ht)) hline hlength hbad
      rw [lineTexts, parseLines]
      simp only [if_true]
      cases parseRequestLine (CStr.ofBytes (stripCr (m.start ++ [cr]))) HttpRequest.zero with
      | error e => exact ⟨e, rfl⟩
      | ok out => exact hrest out

/-- the answer of a stream that begins with a message -/
theorem readStream_message {m : Message} {method target : Bytes} (h : Sendable m method target)
    (hfits : WithinLimits m target) (rest : Bytes) :
    ∃ req, readStream true (m.text ++ rest) = .ok req ∧ Carries m method target req := by
  obtain ⟨out, hparse, hcarries⟩ := parseHeaders_message h hfits
  have hfind := findTerminator_message m h.wf rest
  have hblock := hfits.block
  have hbehind : (m.text ++ rest).drop (m.block.length + 4) = m.body ++ rest := by
    rw [message_append m, ← List.drop_drop, List.drop_left]
    rfl
  have hneed : out.need = m.body.length := by
    have hlength : out.contentLength = _ := hcarries.contentLength
    unfold HttpRequest.need
    rw [hlength]
    by_cases hnone : fieldValues CONTENT_LENGTH m.fields = []
    · rw [if_pos hnone, if_pos (by decide), h.wf.unsized hnone]
      rfl
    · rw [if_neg hnone, if_neg (by omega)]
      rfl
  have hbody : (if out.need = 0 then none else some ((m.body ++ rest).take out.need)) =
      if m.body = [] then none else some m.body := by
    rw [hneed, List.take_left]
    by_cases hnil : m.body = []
    · rw [if_pos (by rw [hnil]; rfl), if_pos hnil]
    · rw [if_neg (fun h0 => hnil (List.length_eq_zero_iff.mp h0)), if_neg hnil]
  refine ⟨{ out with body := if m.body = [] then none else some m.body }, ?_, hcarries⟩
  unfold readStream
  rw [findTerminator_take _ _ _ hfind (by omega)]
  simp only [Bool.true_eq_false, if_false]
  rw [message_take m, hparse, hbehind]
  unfold takeBody
  simp only
  rw [if_neg (by rw [hneed, List.length_append]; omega), hbody]

/-- and of a stream that begins with a message above the limits -/
theorem readStream_overlong {m : Message} {method target : Bytes} (h : Sendable m method target)
    (hhttp : ¬ ascii "HTTP/1." <+: target.drop 2047) (hover : ¬ WithinLimits m target) (mallocOk : Bool)
    (rest : Bytes) : ∃ e, readStream mallocOk (m.text ++ rest) = .error e := by
  have hfind := findTerminator_message m h.wf rest
  unfold readStream
  by_cases hblock : m.block.length + 4 < HTTP_MAX_HEADERS_SIZE
  · rw [findTerminator_take _ _ _ hfind (by omega)]
    simp only
    rw [message_take m]
    have hrest : 2047 < target.length ∨ HTTP_MAX_BODY_SIZE < m.body.length := by
      by_contra hin
      rw [not_or, not_lt, not_lt] at hin
      exact hover ⟨hin.1, hin.2, hblock⟩
    obtain ⟨e, he⟩ := parseHeaders_overlong h hhttp hrest
    rw [he]
    split_ifs
    · exact ⟨.internal, rfl⟩
    · exact ⟨e, rfl⟩
  · rw [findTerminator_take_none _ _ fun e he => by
      rw [hfind] at he
      cases he
      omega]
    exact ⟨.badRequest, rfl⟩

/-- PUT /k with a body of three bytes -/
def putMessage : Message :=
  ⟨ascii "PUT /k HTTP/1.1", [⟨ascii "Content-Length", ascii "3"⟩], ascii "abc"⟩

theorem putMessage_sendable : Sendable putMessage (ascii "PUT") (ascii "/k") where
  wf :=
    { start := by decide
      fields := by
        intro f hf
        rw [List.mem_singleton.mp hf]
        refine ⟨by decide, by decide, by decide, by decide, fun c hc => ?_, fun c hc => ?_⟩
        · cases hc
          decide
        · cases hc
          decide
      sized := by decide +kernel
      unsized := by decide }
  start := by decide
  method := by decide
  word := by
    unfold Word
    decide +kernel
  nul := by decide
  slash := by decide
  names := by decide
  nulFree := by decide
  typeFits := by decide
  keyFits := by decide
  notChunked := by decide

theorem putMessage_fits : WithinLimits putMessage (ascii "/k") := by decide

end CServer
