import CServer.Http.Types
import CServer.Lib.CScan
import CServer.Lib.Memory

/-!
# `http_parse_request`

* `scanTerminator`      the search for CR LF CR LF in a buffer, every read checked;
* `findTerminator`      the first CR LF CR LF of a list of bytes;
* `scanTerminator_eq`   the search stays inside the buffer and finds it;
* `parseHeaders`        what becomes of the header block;
* `httpParseRequest`    `http_parse_request`; `mallocOk` says whether `malloc` succeeds.
-/

namespace CServer

/-! ## lines -/

def parseRequestLine (line : CStr) (out : HttpRequest) : Except ApiError HttpRequest :=
  match scanWord 7 line.bytes with
  | none => .error .badRequest
  | some (method, rest) =>
    match scanWord 2047 rest with
    | none => .error .badRequest
    | some (target, rest) =>
      match scanWord 15 rest with
      | none => .error .badRequest
      | some (version, _) =>
        if (ascii "HTTP/1.").isPrefixOf version = false then .error .badRequest
        else if target = [] ∨ target.head? ≠ some 47 then .error .badRequest
        else if target.length ≥ HTTP_MAX_PATH_LEN then .error .badRequest
        else
          let out := { out with
            methodText := CBuf.print _ methodLen_pos (CStr.ofBytes method)
            method := methodFromString method }
          match target.dropWhile fun c => c != 63 with
          | [] => .ok { out with
              path := CBuf.print _ pathLen_pos (CStr.ofBytes target)
              query := CBuf.empty _ pathLen_pos }
          | _ :: query =>
            let path := target.takeWhile fun c => c != 63
            if path.length ≥ HTTP_MAX_PATH_LEN then .error .badRequest
            else .ok { out with
              path := CBuf.print _ pathLen_pos (CStr.ofBytes path)
              query := CBuf.print _ pathLen_pos (CStr.ofBytes query) }

/-- a bad request, or an answer in the four fields of the request line -/
theorem parseRequestLine_cases (line : CStr) (out : HttpRequest) :
    parseRequestLine line out = .error .badRequest ∨
    ∃ methodText method path query, parseRequestLine line out = .ok { out with
      methodText := methodText
      method := method
      path := path
      query := query } := by
  unfold parseRequestLine
  cases scanWord 7 line.bytes with
  | none => exact .inl rfl
  | some scan1 =>
    simp only
    cases scanWord 2047 scan1.2 with
    | none => exact .inl rfl
    | some scan2 =>
      simp only
      cases scanWord 15 scan2.2 with
      | none => exact .inl rfl
      | some scan3 =>
        simp only
        by_cases hversion : (ascii "HTTP/1.").isPrefixOf scan3.1 = false
        · exact .inl (if_pos hversion)
        · rw [if_neg hversion]
          by_cases htarget : scan2.1 = [] ∨ scan2.1.head? ≠ some 47
          · exact .inl (if_pos htarget)
          · rw [if_neg htarget]
            by_cases hlen : scan2.1.length ≥ HTTP_MAX_PATH_LEN
            · exact .inl (if_pos hlen)
            · rw [if_neg hlen]
              cases scan2.1.dropWhile fun c => c != 63 with
              | nil => exact .inr ⟨_, _, _, _, rfl⟩
              | cons c query =>
                simp only
                split_ifs
                · exact .inl rfl
                · exact .inr ⟨_, _, _, _, rfl⟩

def isBlank (c : Byte) : Bool := c == space || c == tab

def parseContentLength (value : Bytes) (out : HttpRequest) : Except ApiError HttpRequest :=
  let parsed := strtol value
  if parsed.range = true ∨ parsed.converted = false ∨ parsed.value.val < 0 ∨
      parsed.value.val > HTTP_MAX_BODY_SIZE then
    .error (if parsed.value.val > HTTP_MAX_BODY_SIZE then .payloadTooLarge else .badRequest)
  else if (parsed.stop.dropWhile fun c => isBlank c || c == cr) ≠ [] then .error .badRequest
  else .ok { out with contentLength := parsed.value.val }

def parseHeaderLine (line : CStr) (out : HttpRequest) : Except ApiError HttpRequest :=
  match line.bytes.dropWhile fun c => c != colon with
  | [] => .error .badRequest
  | _ :: afterColon =>
    let rawName := line.bytes.takeWhile fun c => c != colon
    if rawName.length = 0 ∨ rawName.length ≥ 64 then .error .badRequest
    else
      let name := rawName.map toLower
      let value := afterColon.dropWhile isBlank
      if name = ascii "content-length" then parseContentLength value out
      else if name = ascii "content-type" then
        .ok { out with contentType := CBuf.print _ contentTypeLen_pos (CStr.ofBytes value) }
      else if name = ascii "x-api-key" then
        .ok { out with apiKey := CBuf.print _ apiKeyLen_pos (CStr.ofBytes value) }
      else if name = ascii "transfer-encoding" then
        let lowered := (CBuf.print 128 contentTypeLen_pos (CStr.ofBytes value)).bytes.map toLower
        if strstr lowered (ascii "chunked") then .ok { out with hasChunked := true } else .ok out
      else .ok out

/-- the line without a carriage return at its end -/
def stripCr (line : Bytes) : Bytes := if line.getLast? = some cr then line.dropLast else line

/-- the line loop, at the line number `lineNo` -/
def parseLines (out : HttpRequest) (lineNo : Nat) : List Bytes → Except ApiError (HttpRequest × Nat)
  | [] => .ok (out, lineNo)
  | text :: lines =>
    let line := CStr.ofBytes (stripCr text)
    let result :=
      if lineNo = 0 then parseRequestLine line out
      else if line.bytes ≠ [] then parseHeaderLine line out
      else .ok out
    match result with
    | .error e => .error e
    | .ok out => parseLines out (lineNo + 1) lines

/-- from the header block in `scratch` to the answer -/
def parseHeaders (scratch : Bytes) : Except ApiError HttpRequest :=
  match parseLines HttpRequest.zero 0 (strtokLines (cstr scratch)) with
  | .error e => .error e
  | .ok (out, lineNo) =>
    if lineNo = 0 then .error .badRequest
    else if out.method = .unknown then .error .methodNotAllowed
    else if out.hasChunked then .error .notImplemented
    else .ok out

/-! ## the terminator -/

/-- CR LF CR LF -/
def crlf2 : Bytes := [cr, lf, cr, lf]

/-- the position of the first CR LF CR LF -/
def findTerminator : Bytes → Option Nat
  | [] => none
  | c :: rest =>
    if (c :: rest).take 4 = crlf2 then some 0 else (findTerminator rest).map fun e => e + 1

/-- The loops `for (i = 0; i + 3 < len; i++)` over a buffer, from `i` on; `none` is a read outside
the buffer. -/
def scanTerminator {cap : Nat} (buf : Block cap) (len i : Nat) : Option (Option Nat) :=
  if i + 3 < len then
    match buf.load i 4 with
    | none => none
    | some four => if four = crlf2 then some (some i) else scanTerminator buf len (i + 1)
  else some none
termination_by len - i

theorem findTerminator_short (p : Bytes) (h : p.length < 4) : findTerminator p = none := by
  induction p with
  | nil => rfl
  | cons c p ih =>
    have hne : (c :: p).take 4 ≠ crlf2 := by
      intro he
      have hl := congrArg List.length he
      rw [List.length_take, show crlf2.length = 4 from rfl] at hl
      omega
    rw [List.length_cons] at h
    rw [findTerminator, if_neg hne, ih (by omega)]
    rfl

theorem findTerminator_spec (p : Bytes) (e : Nat) (h : findTerminator p = some e) :
    (p.drop e).take 4 = crlf2 ∧ ∀ j < e, (p.drop j).take 4 ≠ crlf2 := by
  induction p generalizing e with
  | nil => cases h
  | cons c p ih =>
    rw [findTerminator] at h
    by_cases hc : (c :: p).take 4 = crlf2
    · rw [if_pos hc] at h
      cases h
      exact ⟨hc, fun j hj => absurd hj (Nat.not_lt_zero j)⟩
    · rw [if_neg hc] at h
      obtain ⟨e', he', rfl⟩ := Option.map_eq_some_iff.mp h
      obtain ⟨h1, h2⟩ := ih e' he'
      refine ⟨h1, fun j hj => ?_⟩
      cases j with
      | zero => exact hc
      | succ j => exact h2 j (by omega)

theorem findTerminator_bound (p : Bytes) (e : Nat) (h : findTerminator p = some e) :
    e + 4 ≤ p.length := by
  have hl := congrArg List.length (findTerminator_spec p e h).1
  rw [List.length_take, List.length_drop, show crlf2.length = 4 from rfl] at hl
  omega

/-- what has been found stays found when more arrives -/
theorem findTerminator_append (p r : Bytes) (e : Nat) (h : findTerminator p = some e) :
    findTerminator (p ++ r) = some e := by
  induction p generalizing e with
  | nil => cases h
  | cons c p ih =>
    have hb := findTerminator_bound _ _ h
    have htake : ((c :: p) ++ r).take 4 = (c :: p).take 4 :=
      List.take_append_of_le_length (by omega)
    rw [findTerminator] at h
    rw [List.cons_append, findTerminator, ← List.cons_append, htake]
    by_cases hc : (c :: p).take 4 = crlf2
    · rw [if_pos hc] at h ⊢
      exact h
    · rw [if_neg hc] at h ⊢
      obtain ⟨e', he', rfl⟩ := Option.map_eq_some_iff.mp h
      rw [ih e' he']
      rfl

/-- **The search reads inside the buffer only, and finds the first terminator.** -/
theorem scanTerminator_eq {cap : Nat} (buf : Block cap) (len i : Nat) (hlen : len ≤ cap) :
    scanTerminator buf len i =
      some ((findTerminator ((buf.bytes.take len).drop i)).map fun e => e + i) := by
  induction hn : len - i generalizing i with
  | zero =>
    have hshort : ((buf.bytes.take len).drop i).length < 4 := by
      rw [List.length_drop, List.length_take]
      omega
    rw [scanTerminator, if_neg (by omega), findTerminator_short _ hshort]
    rfl
  | succ n ih =>
    rw [scanTerminator]
    by_cases hi : i + 3 < len
    · have hsize := buf.size
      have hin : i < (buf.bytes.take len).length := by
        rw [List.length_take]
        omega
      have hdrop := List.drop_eq_getElem_cons hin
      have hfour : ((buf.bytes.take len).drop i).take 4 = (buf.bytes.drop i).take 4 := by
        rw [List.drop_take, List.take_take, min_eq_left (by omega)]
      rw [if_pos hi, buf.load_eq i 4 (by omega)]
      rw [hdrop, findTerminator, ← hdrop, hfour]
      by_cases hc : (buf.bytes.drop i).take 4 = crlf2
      · simp only [if_pos hc]
        simp
      · simp only [if_neg hc]
        rw [ih (i + 1) (by omega)]
        cases findTerminator ((buf.bytes.take len).drop (i + 1)) with
        | none => rfl
        | some e =>
          show some (some (e + (i + 1))) = some (some (e + 1 + i))
          congr 2
          omega
    · have hshort : ((buf.bytes.take len).drop i).length < 4 := by
        rw [List.length_drop, List.length_take]
        omega
      rw [if_neg hi, findTerminator_short _ hshort]
      rfl

/-! ## the request -/

def httpParseRequest {cap : Nat} (mallocOk : Bool) (buf : Block cap) (len : Nat) :
    Option (Except ApiError HttpRequest) :=
  if len = 0 then some (.error .badRequest)
  else
    match scanTerminator buf len 0 with
    | none => none
    | some none => some (.error .badRequest)
    | some (some headerLen) =>
      if headerLen ≥ HTTP_MAX_HEADERS_SIZE then some (.error .payloadTooLarge)
      else if mallocOk = false then some (.error .internal)
      else (buf.load 0 headerLen).map parseHeaders

end CServer
