import CServer.Http.Types

/-!
# `http_respond` and `http_respond_error`

A `Response` is what a client is sent; `responseHeader` is its status line and header block.  A
`Reply` says what went onto the socket and whether the C function returned 0.
-/

namespace CServer

def reasonFor (status : Nat) : Bytes :=
  match status with
  | 200 => ascii "OK"
  | 201 => ascii "Created"
  | 204 => ascii "No Content"
  | 400 => ascii "Bad Request"
  | 401 => ascii "Unauthorized"
  | 403 => ascii "Forbidden"
  | 404 => ascii "Not Found"
  | 405 => ascii "Method Not Allowed"
  | 411 => ascii "Length Required"
  | 413 => ascii "Payload Too Large"
  | 415 => ascii "Unsupported Media Type"
  | 500 => ascii "Internal Server Error"
  | 501 => ascii "Not Implemented"
  | _ => ascii "Error"

structure Response where
  status : Nat
  contentType : Bytes
  body : Bytes
  allow : Option Bytes
  deriving DecidableEq

/-- the two formats of `http_respond` -/
def responseHeader (r : Response) : Bytes :=
  ascii "HTTP/1.1 " ++ digits r.status ++ [space] ++ reasonFor r.status
    ++ ascii "\r\nContent-Type: " ++ r.contentType
    ++ ascii "\r\nContent-Length: " ++ digits r.body.length
    ++ (match r.allow with
      | some allow => ascii "\r\nAllow: " ++ allow
      | none => [])
    ++ ascii "\r\nConnection: close\r\n\r\n"

structure Reply where
  sent : List Response
  done : Bool
  deriving DecidableEq

/-- `http_respond` with a non-NULL content type; `sendOk` says whether the sends succeed.  The
header is built in `header[1024]`. -/
def httpRespond (sendOk : Bool) (r : Response) : Reply :=
  if (responseHeader r).length ≥ 1024 then ⟨[], false⟩ else ⟨[r], sendOk⟩

def APPLICATION_JSON : Bytes := ascii "application/json"

/-- the escaping loop of `http_respond_error`, with `safe_detail[0..pos)` in `safe` -/
def safeDetailLoop (safe : Bytes) : Bytes → Bytes
  | [] => safe
  | c :: p =>
    if safe.length + 2 < 512 then
      safeDetailLoop (if c = quote ∨ c = backslash then safe ++ [backslash, c] else safe ++ [c]) p
    else safe

def safeDetail (detail : Bytes) : Bytes := safeDetailLoop [] detail

def errorBody (err : ApiError) (detail : Bytes) : Bytes :=
  ascii "\x7b\"error\":\"" ++ apiErrorCode err ++ ascii "\",\"message\":\"" ++ safeDetail detail
    ++ ascii "\"\x7d"

def httpRespondError (sendOk : Bool) (err : ApiError) (detail : Bytes) : Reply :=
  let err := if err = .ok then .internal else err
  let body := errorBody err detail
  if body.length ≥ 1024 then
    httpRespond sendOk ⟨500, APPLICATION_JSON,
      ascii "\x7b\"error\":\"internal_error\",\"message\":\"encode overflow\"\x7d", none⟩
  else
    let allow := if err = .methodNotAllowed then some (ascii "GET, POST, PUT, DELETE") else none
    httpRespond sendOk ⟨apiErrorStatus err, APPLICATION_JSON, body, allow⟩

/-! ## sizes -/

theorem reasonFor_length (status : Nat) : (reasonFor status).length ≤ 22 := by
  unfold reasonFor
  split <;> decide

/-- the header of a response with a short content type and Allow list fits -/
theorem responseHeader_length (r : Response) (hs : r.status < 10 ^ 3)
    (hc : r.contentType.length ≤ 64) (hb : r.body.length < 10 ^ 20)
    (ha : ∀ a, r.allow = some a → a.length ≤ 64) : (responseHeader r).length < 1024 := by
  have h1 := digits_length 2 r.status hs
  have h2 := digits_length 19 r.body.length hb
  have h3 := reasonFor_length r.status
  have h4 : (match r.allow with
      | some allow => ascii "\r\nAllow: " ++ allow
      | none => []).length ≤ 73 := by
    cases hr : r.allow with
    | none => exact Nat.zero_le _
    | some a =>
      have := ha a hr
      show (ascii "\r\nAllow: " ++ a).length ≤ 73
      rw [List.length_append, show (ascii "\r\nAllow: ").length = 9 by decide]
      omega
  unfold responseHeader
  simp only [List.length_append, show (ascii "HTTP/1.1 ").length = 9 by decide,
    show (ascii "\r\nContent-Type: ").length = 16 by decide,
    show (ascii "\r\nContent-Length: ").length = 18 by decide,
    show (ascii "\r\nConnection: close\r\n\r\n").length = 23 by decide, List.length_singleton]
  omega

theorem httpRespond_fits (sendOk : Bool) (r : Response) (h : (responseHeader r).length < 1024) :
    httpRespond sendOk r = ⟨[r], sendOk⟩ := if_neg (by omega)

theorem safeDetailLoop_length (safe p : Bytes) (h : safe.length < 512) :
    (safeDetailLoop safe p).length < 512 := by
  induction p generalizing safe with
  | nil => exact h
  | cons c p ih =>
    rw [safeDetailLoop]
    by_cases hf : safe.length + 2 < 512
    · rw [if_pos hf]
      apply ih
      split_ifs
      · rw [List.length_append, List.length_cons, List.length_singleton]
        omega
      · rw [List.length_append, List.length_singleton]
        omega
    · rw [if_neg hf]
      exact h

theorem errorBody_length (err : ApiError) (detail : Bytes) :
    (errorBody err detail).length < 600 := by
  have h1 := apiErrorCode_length err
  have h2 := safeDetailLoop_length [] detail (by decide)
  unfold errorBody safeDetail
  simp only [List.length_append, show (ascii "\x7b\"error\":\"").length = 10 by decide,
    show (ascii "\",\"message\":\"").length = 13 by decide,
    show (ascii "\"\x7d").length = 2 by decide]
  omega

theorem apiErrorStatus_lt (e : ApiError) : apiErrorStatus e < 10 ^ 3 := by
  cases e <;> decide

/-- **An error is answered with its own status and body.** -/
theorem httpRespondError_eq (sendOk : Bool) (err : ApiError) (detail : Bytes) (h : err ≠ .ok) :
    httpRespondError sendOk err detail =
      ⟨[⟨apiErrorStatus err, APPLICATION_JSON, errorBody err detail,
        if err = .methodNotAllowed then some (ascii "GET, POST, PUT, DELETE") else none⟩],
        sendOk⟩ := by
  have hlen := errorBody_length err detail
  unfold httpRespondError
  simp only [if_neg h]
  rw [if_neg (by omega)]
  apply httpRespond_fits
  apply responseHeader_length _ (apiErrorStatus_lt err)
  · show (APPLICATION_JSON).length ≤ 64
    decide
  · show (errorBody err detail).length < _
    omega
  · intro a ha
    split_ifs at ha
    cases ha
    decide

end CServer
