import CServer.Http.Request
import CServer.Lib.Socket

/-!
# `http_read_request`

* `readHeaders`       the loop that receives until the terminator is in the header buffer;
* `readBody`          the loop that receives the rest of the body;
* `httpReadRequest`   the whole function, with both buffers checked;
* `readStream`        the answer as a function of the bytes that arrive;
* `readHeaders_spec`, `readBody_spec`   the loops keep `buffer up to total ++ rest of the stream`;
* `httpReadRequest_eq`                  the function computes `readStream`, however the stream is
                                        cut;
* `httpReadRequest_stream`              two ways of cutting one stream are the same request.
-/

set_option linter.unusedVariables false

namespace CServer

/-! ## the function -/

/-- what the header loop leaves -/
structure HeaderRead (cap : Nat) where
  buf : Block cap
  total : Nat
  headerEnd : Nat
  socket : Socket

def readHeaders {cap : Nat} (s : Socket) (buf : Block cap) (total : Nat) :
    Option (Except ApiError (HeaderRead cap)) :=
  if htotal : total + 1 < cap then
    match hgot : s.recvInto buf total (cap - 1 - total) with
    | none => none
    | some (.ended _) => some (.error .badRequest)
    | some (.got n buf rest) =>
      match buf.store (total + n) [0] with
      | none => none
      | some buf =>
        match scanTerminator buf (total + n) 0 with
        | none => none
        | some (some i) => some (.ok ⟨buf, total + n, i + 4, rest⟩)
        | some none =>
          if total + n ≥ HTTP_MAX_HEADERS_SIZE then some (.error .payloadTooLarge)
          else readHeaders rest buf (total + n)
  else some (.error .badRequest)
termination_by cap - total
decreasing_by
  have hpos := s.recvInto_pos _ _ _ _ _ _ (by omega) hgot
  omega

/-- the loop `while (have < need)`: the body buffer and `have` at its end -/
def readBody {cap : Nat} (s : Socket) (buf : Block cap) (need got : Nat) :
    Option (Except ApiError (Block cap × Nat)) :=
  if hneed : got < need then
    match hgot : s.recvInto buf got (need - got) with
    | none => none
    | some (.ended _) => some (.error .badRequest)
    | some (.got n buf rest) => readBody rest buf need (got + n)
  else some (.ok (buf, got))
termination_by need - got
decreasing_by
  have hpos := s.recvInto_pos _ _ _ _ _ _ (by omega) hgot
  omega

/-- `content_length`, and 0 when the header is absent -/
def HttpRequest.need (out : HttpRequest) : Nat :=
  if out.contentLength < 0 then 0 else out.contentLength.toNat

/-- `body_len` -/
def HttpRequest.bodyLen (out : HttpRequest) : Nat := (out.body.getD []).length

/-- `memcpy(body_buf, header_buf + header_end, copy_now)`, if there is anything to copy -/
def copyPipelined {headerCap bodyCap : Nat} (read : HeaderRead headerCap) (bodyBuf : Block bodyCap)
    (copyNow : Nat) : Option (Block bodyCap) :=
  if copyNow > 0 then
    (read.buf.load read.headerEnd copyNow).bind fun bytes => bodyBuf.store 0 bytes
  else some bodyBuf

/-- from the parsed headers on -/
def receiveBody {headerCap bodyCap : Nat} (read : HeaderRead headerCap) (bodyBuf : Block bodyCap)
    (out : HttpRequest) : Option (Except ApiError HttpRequest) :=
  let already := read.total - read.headerEnd
  let need := out.need
  if need > 0 ∧ need > bodyCap then some (.error .payloadTooLarge)
  else if need > HTTP_MAX_BODY_SIZE then some (.error .payloadTooLarge)
  else if already > bodyCap then some (.error .payloadTooLarge)
  else
    let copyNow := if already < need then already else need
    match copyPipelined read bodyBuf copyNow with
    | none => none
    | some bodyBuf =>
      match readBody read.socket bodyBuf need copyNow with
      | none => none
      | some (.error e) => some (.error e)
      | some (.ok (bodyBuf, got)) =>
        if need = 0 then some (.ok { out with body := none })
        else (bodyBuf.load 0 got).map fun bytes => .ok { out with body := some bytes }

def httpReadRequest {headerCap bodyCap : Nat} (mallocOk : Bool) (headerBuf : Block headerCap)
    (bodyBuf : Block bodyCap) (s : Socket) : Option (Except ApiError HttpRequest) :=
  if headerCap < 512 ∨ bodyCap < 1 then some (.error .internal)
  else
    match readHeaders s headerBuf 0 with
    | none => none
    | some (.error e) => some (.error e)
    | some (.ok read) =>
      match httpParseRequest mallocOk read.buf read.total with
      | none => none
      | some (.error e) => some (.error e)
      | some (.ok out) => receiveBody read bodyBuf out

/-! ## the answer of a stream -/

/-- the body at the start of what follows the headers -/
def takeBody (out : HttpRequest) (rest : Bytes) : Except ApiError HttpRequest :=
  if out.need > rest.length then .error .badRequest
  else .ok { out with body := if out.need = 0 then none else some (rest.take out.need) }

/-- The terminator has to end within the header buffer less its last byte. -/
def readStream (mallocOk : Bool) (stream : Bytes) : Except ApiError HttpRequest :=
  match findTerminator (stream.take (HTTP_MAX_HEADERS_SIZE - 1)) with
  | none => .error .badRequest
  | some headerLen =>
    if mallocOk = false then .error .internal
    else
      match parseHeaders (stream.take headerLen) with
      | .error e => .error e
      | .ok out => takeBody out (stream.drop (headerLen + 4))

/-! ## the header loop -/

section headers
variable {cap : Nat} {s rest : Socket} {buf buf1 buf2 : Block cap} {total n : Nat}

theorem readHeaders_full (h : ¬total + 1 < cap) :
    readHeaders s buf total = some (.error .badRequest) := by
  rw [readHeaders, dif_neg h]

theorem readHeaders_ended {ending : StreamEnd} (hroom : total + 1 < cap)
    (hr : s.recvInto buf total (cap - 1 - total) = some (.ended ending)) :
    readHeaders s buf total = some (.error .badRequest) := by
  rw [readHeaders, dif_pos hroom]
  split
  · rename_i h
    rw [hr] at h
    cases h
  · rfl
  · rename_i h
    rw [hr] at h
    cases h

/-- one turn of the loop with bytes received -/
theorem readHeaders_got (hroom : total + 1 < cap) (hlen : total + n ≤ cap)
    (hr : s.recvInto buf total (cap - 1 - total) = some (.got n buf1 rest))
    (hstore : buf1.store (total + n) [0] = some buf2) :
    readHeaders s buf total =
      match findTerminator (buf2.bytes.take (total + n)) with
      | some e => some (.ok ⟨buf2, total + n, e + 4, rest⟩)
      | none =>
        if total + n ≥ HTTP_MAX_HEADERS_SIZE then some (.error .payloadTooLarge)
        else readHeaders rest buf2 (total + n) := by
  rw [readHeaders, dif_pos hroom]
  split
  · rename_i h
    rw [hr] at h
    cases h
  · rename_i h
    rw [hr] at h
    cases h
  · rename_i h
    rw [hr] at h
    cases h
    rw [hstore]
    simp only [scanTerminator_eq _ _ _ hlen, List.drop_zero]
    cases findTerminator (buf2.bytes.take (total + n)) with
    | none => rfl
    | some e => rfl

end headers

/-- **The header loop ends, stays inside the buffer, and finds the first terminator of the stream
if that fits.** -/
theorem readHeaders_spec {cap : Nat} (hcap : cap ≤ HTTP_MAX_HEADERS_SIZE) (s : Socket)
    (buf : Block cap) (total : Nat) (htotal : total < cap)
    (hnone : findTerminator (buf.bytes.take total) = none) :
    (findTerminator ((buf.bytes.take total ++ s.stream).take (cap - 1)) = none ∧
      readHeaders s buf total = some (.error .badRequest)) ∨
    ∃ read headerLen, readHeaders s buf total = some (.ok read) ∧
      findTerminator ((buf.bytes.take total ++ s.stream).take (cap - 1)) = some headerLen ∧
      findTerminator (read.buf.bytes.take read.total) = some headerLen ∧
      read.headerEnd = headerLen + 4 ∧ read.total < cap ∧
      read.buf.bytes.take read.total ++ read.socket.stream = buf.bytes.take total ++ s.stream := by
  induction hk : cap - total using Nat.strong_induction_on generalizing s buf total with
  | _ k ih =>
    have hlen : (buf.bytes.take total).length = total := buf.take_length _ (by omega)
    by_cases hroom : total + 1 < cap
    · rcases s.recvInto_cases buf total (cap - 1 - total) (by omega) (by omega) with
        ⟨hs, hr⟩ | ⟨n, buf1, rest, hr, hn, hle, hkeep⟩
      · left
        refine ⟨?_, readHeaders_ended hroom hr⟩
        rw [hs, List.append_nil, List.take_take, min_eq_right (by omega)]
        exact hnone
      · have hone : total + n + [(0 : Byte)].length ≤ cap := by
          rw [List.length_singleton]
          omega
        obtain ⟨buf2, hstore, hbelow⟩ := buf1.store_below (total + n) [0] hone
        have hstep := readHeaders_got hroom (by omega) hr hstore
        have hlen2 : (buf2.bytes.take (total + n)).length = total + n :=
          buf2.take_length _ (by omega)
        rw [← hkeep, ← hbelow]
        cases hfind : findTerminator (buf2.bytes.take (total + n)) with
        | some e =>
          right
          rw [hfind] at hstep
          refine ⟨_, e, hstep, ?_, hfind, rfl, ?_, rfl⟩
          · rw [List.take_append, List.take_of_length_le (by omega)]
            exact findTerminator_append _ _ _ hfind
          · show total + n < cap
            omega
        | none =>
          rw [hfind] at hstep
          replace hstep : readHeaders s buf total = readHeaders rest buf2 (total + n) :=
            hstep.trans (if_neg (by omega))
          rw [hstep]
          exact ih (cap - (total + n)) (by omega) rest buf2 (total + n) (by omega) hfind rfl
    · left
      refine ⟨?_, readHeaders_full hroom⟩
      rw [List.take_append_of_le_length (by omega), List.take_take, min_eq_right (by omega)]
      exact hnone

/-! ## the body loop -/

section body
variable {cap : Nat} {s rest : Socket} {buf buf1 : Block cap} {need got n : Nat}

theorem readBody_done (h : ¬got < need) : readBody s buf need got = some (.ok (buf, got)) := by
  rw [readBody, dif_neg h]

theorem readBody_ended {ending : StreamEnd} (hneed : got < need)
    (hr : s.recvInto buf got (need - got) = some (.ended ending)) :
    readBody s buf need got = some (.error .badRequest) := by
  rw [readBody, dif_pos hneed]
  split
  · rename_i h
    rw [hr] at h
    cases h
  · rfl
  · rename_i h
    rw [hr] at h
    cases h

/-- one turn of the loop with bytes received -/
theorem readBody_got (hneed : got < need)
    (hr : s.recvInto buf got (need - got) = some (.got n buf1 rest)) :
    readBody s buf need got = readBody rest buf1 need (got + n) := by
  rw [readBody, dif_pos hneed]
  split
  · rename_i h
    rw [hr] at h
    cases h
  · rename_i h
    rw [hr] at h
    cases h
  · rename_i h
    rw [hr] at h
    cases h
    rfl

end body

/-- **The body loop ends, stays inside the buffer, and takes the next bytes of the stream.** -/
theorem readBody_spec {cap : Nat} (s : Socket) (buf : Block cap) (need got : Nat)
    (hcap : need ≤ cap) (hgot : got ≤ need) :
    (need > (buf.bytes.take got ++ s.stream).length ∧
      readBody s buf need got = some (.error .badRequest)) ∨
    ∃ buf', readBody s buf need got = some (.ok (buf', need)) ∧
      need ≤ (buf.bytes.take got ++ s.stream).length ∧
      buf'.bytes.take need = (buf.bytes.take got ++ s.stream).take need := by
  induction hk : need - got using Nat.strong_induction_on generalizing s buf got with
  | _ k ih =>
    have hlen : (buf.bytes.take got).length = got := buf.take_length _ (by omega)
    by_cases hneed : got < need
    · rcases s.recvInto_cases buf got (need - got) (by omega) (by omega) with
        ⟨hs, hr⟩ | ⟨n, buf1, rest, hr, hn, hle, hkeep⟩
      · left
        refine ⟨?_, readBody_ended hneed hr⟩
        rw [hs, List.append_nil, hlen]
        exact hneed
      · rw [readBody_got hneed hr, ← hkeep]
        exact ih (need - (got + n)) (by omega) rest buf1 (got + n) (by omega) rfl
    · right
      obtain rfl : got = need := by omega
      refine ⟨buf, readBody_done hneed, ?_, ?_⟩
      · rw [List.length_append, hlen]
        omega
      · rw [List.take_left' hlen]

/-! ## the body -/

/-- what the pipelined bytes leave in the body buffer -/
theorem copyPipelined_eq {headerCap bodyCap : Nat} (read : HeaderRead headerCap)
    (bodyBuf : Block bodyCap) (copyNow : Nat) (hfrom : read.headerEnd + copyNow ≤ headerCap)
    (hto : copyNow ≤ bodyCap) :
    ∃ bodyBuf', copyPipelined read bodyBuf copyNow = some bodyBuf' ∧
      bodyBuf'.bytes.take copyNow = (read.buf.bytes.drop read.headerEnd).take copyNow := by
  unfold copyPipelined
  by_cases hpos : copyNow > 0
  · have hlen : ((read.buf.bytes.drop read.headerEnd).take copyNow).length = copyNow := by
      rw [List.length_take, List.length_drop, read.buf.size]
      omega
    obtain ⟨bodyBuf', hstore, htake⟩ :=
      bodyBuf.store_eq 0 ((read.buf.bytes.drop read.headerEnd).take copyNow) (by omega)
    rw [hlen, Nat.zero_add, List.take_zero, List.nil_append] at htake
    rw [if_pos hpos, read.buf.load_eq _ _ hfrom]
    exact ⟨bodyBuf', hstore, htake⟩
  · obtain rfl : copyNow = 0 := by omega
    rw [if_neg hpos]
    exact ⟨bodyBuf, rfl, rfl⟩

/-- copying no more than is needed from `front` loses nothing of what is needed -/
theorem take_min_append (front back : Bytes) (need : Nat) :
    (front.take (min front.length need) ++ back).take need = (front ++ back).take need ∧
      (need ≤ (front.take (min front.length need) ++ back).length ↔
        need ≤ (front ++ back).length) := by
  rcases Nat.le_total front.length need with h | h
  · rw [min_eq_left h, List.take_length]
    exact ⟨rfl, Iff.rfl⟩
  · have hlen : (front.take need).length = need := by
      rw [List.length_take, min_eq_left h]
    rw [min_eq_right h]
    refine ⟨?_, ?_⟩
    · rw [List.take_left' hlen, List.take_append_of_le_length h]
    · rw [List.length_append, List.length_append, hlen]
      omega

/-- **Behind the headers the function takes the body from the stream.** -/
theorem receiveBody_eq {headerCap bodyCap : Nat} (read : HeaderRead headerCap)
    (bodyBuf : Block bodyCap) (out : HttpRequest) (hend : read.headerEnd ≤ read.total)
    (htotal : read.total < headerCap) (hcaps : headerCap ≤ bodyCap) (hneed : out.need ≤ bodyCap)
    (hmax : out.need ≤ HTTP_MAX_BODY_SIZE) :
    receiveBody read bodyBuf out =
      some (takeBody out
        ((read.buf.bytes.take read.total ++ read.socket.stream).drop read.headerEnd)) := by
  have hlen : (read.buf.bytes.take read.total).length = read.total :=
    read.buf.take_length _ (by omega)
  have hfront : ((read.buf.bytes.take read.total).drop read.headerEnd).length =
      read.total - read.headerEnd := by
    rw [List.length_drop, hlen]
  obtain ⟨hsame, henough⟩ := take_min_append
    ((read.buf.bytes.take read.total).drop read.headerEnd) read.socket.stream out.need
  rw [hfront] at hsame henough
  obtain ⟨bodyBuf1, hcopy, htake⟩ := copyPipelined_eq read bodyBuf
    (min (read.total - read.headerEnd) out.need) (by omega) (by omega)
  have hcopied : bodyBuf1.bytes.take (min (read.total - read.headerEnd) out.need) =
      ((read.buf.bytes.take read.total).drop read.headerEnd).take
        (min (read.total - read.headerEnd) out.need) := by
    rw [htake, List.drop_take, List.take_take, min_eq_left (min_le_left _ _)]
  have hrest : (read.buf.bytes.take read.total ++ read.socket.stream).drop read.headerEnd =
      (read.buf.bytes.take read.total).drop read.headerEnd ++ read.socket.stream :=
    List.drop_append_of_le_length (by omega)
  have hmin : (if read.total - read.headerEnd < out.need then read.total - read.headerEnd
      else out.need) = min (read.total - read.headerEnd) out.need := by
    split <;> omega
  rw [← hcopied] at hsame henough
  rw [hrest]
  unfold receiveBody takeBody
  simp only [hmin]
  rw [if_neg (by omega), if_neg (by omega), if_neg (by omega), hcopy]
  rcases readBody_spec read.socket bodyBuf1 out.need (min (read.total - read.headerEnd) out.need)
    hneed (min_le_right _ _) with ⟨hshort, hread⟩ | ⟨bodyBuf2, hread, hle, hbody⟩
  · have hlack : out.need > ((read.buf.bytes.take read.total).drop read.headerEnd ++
        read.socket.stream).length := by omega
    simp only [hread]
    rw [if_pos hlack]
  · have hhave : ¬out.need > ((read.buf.bytes.take read.total).drop read.headerEnd ++
        read.socket.stream).length := by omega
    simp only [hread]
    rw [if_neg hhave]
    by_cases hzero : out.need = 0
    · rw [if_pos hzero, if_pos hzero]
    · rw [if_neg hzero, if_neg hzero, bodyBuf2.load_eq _ _ (by omega), List.drop_zero, hbody, hsame]
      rfl

/-! ## the parsed length -/

/-- no length, or one that fits the body buffer -/
def HttpRequest.LengthValid (out : HttpRequest) : Prop :=
  out.contentLength = -1 ∨ 0 ≤ out.contentLength ∧ out.contentLength ≤ HTTP_MAX_BODY_SIZE

theorem HttpRequest.LengthValid.need_eq {out : HttpRequest} (h : out.LengthValid) :
    (out.need : Int) = if out.contentLength = -1 then 0 else out.contentLength := by
  unfold HttpRequest.need
  rcases h with h | ⟨h0, h1⟩
  · rw [if_pos (by omega), if_pos h]
    rfl
  · rw [if_neg (by omega), if_neg (by omega)]
    omega

theorem HttpRequest.LengthValid.need_le {out : HttpRequest} (h : out.LengthValid) :
    out.need ≤ HTTP_MAX_BODY_SIZE := by
  unfold HttpRequest.need
  rcases h with h | ⟨h0, h1⟩
  · rw [if_pos (by omega)]
    exact Nat.zero_le _
  · rw [if_neg (by omega)]
    omega

theorem parseRequestLine_length (line : CStr) (out out' : HttpRequest)
    (h : parseRequestLine line out = .ok out') : out'.contentLength = out.contentLength := by
  rcases parseRequestLine_cases line out with herror | ⟨_, _, _, _, hok⟩
  · rw [herror] at h
    cases h
  · rw [hok] at h
    rw [← Except.ok.inj h]

theorem parseContentLength_length (value : Bytes) (out out' : HttpRequest)
    (h : parseContentLength value out = .ok out') : out'.LengthValid := by
  unfold parseContentLength at h
  simp only at h
  split at h
  · cases h
  · rename_i hbounds
    split at h
    · cases h
    · cases h
      push Not at hbounds
      exact .inr ⟨hbounds.2.2.1, hbounds.2.2.2⟩

theorem parseHeaderLine_length (line : CStr) (out out' : HttpRequest)
    (h : parseHeaderLine line out = .ok out') (hv : out.LengthValid) : out'.LengthValid := by
  unfold parseHeaderLine at h
  split at h
  · cases h
  · simp only at h
    split at h
    · cases h
    · split at h
      · exact parseContentLength_length _ _ _ h
      · split at h
        · cases h
          exact hv
        · split at h
          · cases h
            exact hv
          · split at h
            · split at h
              · cases h
                exact hv
              · cases h
                exact hv
            · cases h
              exact hv

theorem parseLines_length (lines : List Bytes) (out : HttpRequest) (lineNo : Nat)
    (result : HttpRequest × Nat) (h : parseLines out lineNo lines = .ok result)
    (hv : out.LengthValid) : result.1.LengthValid := by
  induction lines generalizing out lineNo with
  | nil =>
    cases h
    exact hv
  | cons text lines ih =>
    rw [parseLines] at h
    split at h
    · cases h
    · rename_i out1 hline
      refine ih out1 (lineNo + 1) h ?_
      split at hline
      · have hsame := parseRequestLine_length _ _ _ hline
        unfold HttpRequest.LengthValid
        rw [hsame]
        exact hv
      · split at hline
        · exact parseHeaderLine_length _ _ _ hline hv
        · cases hline
          exact hv

/-- **A parsed request has no content length, or one of at most 65536.** -/
theorem parseHeaders_length (scratch : Bytes) (out : HttpRequest)
    (h : parseHeaders scratch = .ok out) : out.LengthValid := by
  unfold parseHeaders at h
  split at h
  · cases h
  · rename_i out1 lineNo hlines
    have hv := parseLines_length _ _ _ _ hlines (.inl rfl)
    split at h
    · cases h
    · split at h
      · cases h
      · split at h
        · cases h
        · cases h
          exact hv

/-! ## the whole function -/

/-- the parser on a buffer that has the terminator -/
theorem httpParseRequest_eq {cap : Nat} (mallocOk : Bool) (buf : Block cap) (len headerLen : Nat)
    (hlen : len ≤ cap) (hmax : headerLen < HTTP_MAX_HEADERS_SIZE)
    (hfind : findTerminator (buf.bytes.take len) = some headerLen) :
    httpParseRequest mallocOk buf len =
      some (if mallocOk = false then .error .internal
        else parseHeaders ((buf.bytes.take len).take headerLen)) := by
  have hb := findTerminator_bound _ _ hfind
  rw [buf.take_length len hlen] at hb
  unfold httpParseRequest
  rw [if_neg (by omega), scanTerminator_eq buf len 0 hlen, List.drop_zero, hfind]
  show (if headerLen ≥ HTTP_MAX_HEADERS_SIZE then _ else _) = _
  rw [if_neg (by omega)]
  by_cases hmalloc : mallocOk = false
  · rw [if_pos hmalloc, if_pos hmalloc]
  · rw [if_neg hmalloc, if_neg hmalloc]
    show (buf.load 0 headerLen).map parseHeaders = _
    rw [buf.load_eq _ _ (by omega), List.drop_zero, List.take_take, min_eq_left (by omega)]
    rfl

/-- **However the stream arrives, the function computes `readStream` of it, inside both
buffers.** -/
theorem httpReadRequest_eq (mallocOk : Bool) (headerBuf : Block HTTP_MAX_HEADERS_SIZE)
    (bodyBuf : Block HTTP_MAX_BODY_SIZE) (s : Socket) :
    httpReadRequest mallocOk headerBuf bodyBuf s = some (readStream mallocOk s.stream) := by
  have hcaps : ¬(HTTP_MAX_HEADERS_SIZE < 512 ∨ HTTP_MAX_BODY_SIZE < 1) := by decide
  unfold httpReadRequest readStream
  rw [if_neg hcaps]
  rcases readHeaders_spec le_rfl s headerBuf 0 (by decide) rfl with
    ⟨hnone, hread⟩ | ⟨read, headerLen, hread, hwindow, hfind, hend, htotal, hkeep⟩
  · rw [List.take_zero, List.nil_append] at hnone
    rw [hread, hnone]
  · rw [List.take_zero, List.nil_append] at hwindow hkeep
    have hlen : (read.buf.bytes.take read.total).length = read.total :=
      read.buf.take_length _ (by omega)
    have hb := findTerminator_bound _ _ hfind
    have hhead : (read.buf.bytes.take read.total).take headerLen = s.stream.take headerLen := by
      rw [← hkeep, List.take_append_of_le_length (by omega)]
    rw [hread, hwindow]
    dsimp only
    rw [httpParseRequest_eq mallocOk read.buf read.total headerLen (by omega) (by omega) hfind, hhead]
    cases mallocOk with
    | false => rfl
    | true =>
      cases hparse : parseHeaders (s.stream.take headerLen) with
      | error e => simp
      | ok out =>
        have hneed := (parseHeaders_length _ _ hparse).need_le
        have hbody := receiveBody_eq read bodyBuf out (by omega) htotal (by decide) hneed hneed
        rw [hkeep, hend] at hbody
        simp [hbody]

/-! ## what an accepted stream is -/

theorem findTerminator_split (p : Bytes) (e : Nat) (h : findTerminator p = some e) :
    p = p.take e ++ crlf2 ++ p.drop (e + 4) := by
  have hspec := (findTerminator_spec p e h).1
  rw [← hspec, List.append_assoc, ← List.drop_drop, List.take_append_drop, List.take_append_drop]

theorem takeBody_ok (out out' : HttpRequest) (rest : Bytes) (h : takeBody out rest = .ok out') :
    out'.contentLength = out.contentLength ∧ out'.bodyLen = out.need ∧ out.need ≤ rest.length ∧
      out'.body = if out.need = 0 then none else some (rest.take out.need) := by
  unfold takeBody at h
  split at h
  · cases h
  · rename_i hle
    cases h
    refine ⟨rfl, ?_, by omega, rfl⟩
    unfold HttpRequest.bodyLen
    by_cases hzero : out.need = 0
    · simp [hzero]
    · simp only [hzero, if_false, Option.getD_some, List.length_take]
      omega

/-- **An accepted stream is the headers, the first terminator, and at least the body the headers
announce.** -/
theorem readStream_ok (mallocOk : Bool) (stream : Bytes) (out : HttpRequest)
    (h : readStream mallocOk stream = .ok out) :
    ∃ headers rest, stream = headers ++ crlf2 ++ rest ∧
      (∀ j < headers.length, (stream.drop j).take 4 ≠ crlf2) ∧
      (out.bodyLen : Int) = (if out.contentLength = -1 then 0 else out.contentLength) ∧
      out.bodyLen ≤ rest.length ∧
      out.body = (if out.bodyLen = 0 then none else some (rest.take out.bodyLen)) := by
  unfold readStream at h
  cases hwindow : findTerminator (stream.take (HTTP_MAX_HEADERS_SIZE - 1)) with
  | none =>
    rw [hwindow] at h
    cases h
  | some headerLen =>
    have hfind := findTerminator_append _ (stream.drop (HTTP_MAX_HEADERS_SIZE - 1)) _ hwindow
    rw [List.take_append_drop] at hfind
    have hb := findTerminator_bound _ _ hfind
    rw [hwindow] at h
    dsimp only at h
    split at h
    · cases h
    · cases hparse : parseHeaders (stream.take headerLen) with
      | error e =>
        rw [hparse] at h
        cases h
      | ok parsed =>
        rw [hparse] at h
        obtain ⟨hsame, hlen, hle, hbody⟩ := takeBody_ok _ _ _ h
        refine ⟨_, _, findTerminator_split _ _ hfind, ?_, ?_, ?_, ?_⟩
        · intro j hj
          rw [List.length_take] at hj
          exact (findTerminator_spec _ _ hfind).2 j (by omega)
        · rw [hlen, hsame]
          exact (parseHeaders_length _ _ hparse).need_eq
        · rw [hlen]
          exact hle
        · rw [hlen]
          exact hbody

/-- **What is read is a function of the byte stream**: two sockets that deliver the same bytes,
in whatever pieces, with whatever in the buffers before, give the same answer; the accesses stay
inside the two buffers; and an accepted request has as its body the bytes behind the first
terminator, as many as its content length says. -/
theorem httpReadRequest_stream (mallocOk : Bool)
    (headerBuf headerBuf' : Block HTTP_MAX_HEADERS_SIZE)
    (bodyBuf bodyBuf' : Block HTTP_MAX_BODY_SIZE) (s s' : Socket) (h : s.stream = s'.stream) :
    ∃ result, httpReadRequest mallocOk headerBuf bodyBuf s = some result ∧
      httpReadRequest mallocOk headerBuf' bodyBuf' s' = some result ∧
      ∀ out, result = .ok out →
        ∃ headers rest, s.stream = headers ++ crlf2 ++ rest ∧
          (∀ j < headers.length, (s.stream.drop j).take 4 ≠ crlf2) ∧
          (out.bodyLen : Int) = (if out.contentLength = -1 then 0 else out.contentLength) ∧
          out.bodyLen ≤ rest.length ∧
          out.body = (if out.bodyLen = 0 then none else some (rest.take out.bodyLen)) := by
  refine ⟨_, httpReadRequest_eq _ _ _ s, ?_, fun out hout => readStream_ok _ _ _ hout⟩
  rw [h]
  exact httpReadRequest_eq _ _ _ s'

def zeroedHeader : Block HTTP_MAX_HEADERS_SIZE := Block.zero _

def zeroedBody : Block HTTP_MAX_BODY_SIZE := Block.zero _

def putInOnePiece : Socket :=
  ⟨[.data (ascii "PUT /k HTTP/1.1\r\nContent-Length: 3\r\n\r\nabc") (by decide)], .closed⟩

/-- the same bytes, cut inside the terminator and inside the body -/
def putInThreePieces : Socket :=
  ⟨[.data (ascii "PUT /k HTTP/1.1\r\nContent-Length: 3\r\n\r") (by decide), .interrupt,
    .data (ascii "\na") (by decide), .data (ascii "bc") (by decide)], .failed⟩

theorem httpReadRequest_stream_cut :
    ∃ out, httpReadRequest true zeroedHeader zeroedBody putInOnePiece = some (.ok out) ∧
      httpReadRequest true zeroedHeader zeroedBody putInThreePieces = some (.ok out) ∧
      out.body = some (ascii "abc") := by
  obtain ⟨result, h1, h2, _⟩ := httpReadRequest_stream true zeroedHeader zeroedHeader zeroedBody
    zeroedBody putInOnePiece putInThreePieces (by decide)
  have hresult : result = readStream true putInOnePiece.stream := by
    rw [httpReadRequest_eq] at h1
    exact (Option.some.inj h1).symm
  have hbody : (readStream true putInOnePiece.stream).toOption.bind HttpRequest.body =
      some (ascii "abc") := by decide +kernel
  rw [← hresult] at hbody
  cases result with
  | error e => cases hbody
  | ok out => exact ⟨out, h1, h2, hbody⟩

end CServer
