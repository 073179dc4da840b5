import CServer.Lib.CString

/-!
# Typed API errors and parsed requests

`ApiError`, `api_error_status`, `api_error_code`, `HttpMethod` and `HttpRequest` of `http.h` and
`http.c`.  A fallible function that hands a value back through a pointer returns
`Except ApiError`: `.ok v` is `API_OK` with `v` in the output, `.error e` the error `e`.
-/

namespace CServer

def HTTP_MAX_HEADERS_SIZE : Nat := 16384
def HTTP_MAX_BODY_SIZE : Nat := 65536
def HTTP_MAX_PATH_LEN : Nat := 2048
def HTTP_MAX_METHOD_LEN : Nat := 8
def HTTP_MAX_API_KEY_LEN : Nat := 256

theorem methodLen_pos : 0 < HTTP_MAX_METHOD_LEN := by decide
theorem pathLen_pos : 0 < HTTP_MAX_PATH_LEN := by decide
theorem apiKeyLen_pos : 0 < HTTP_MAX_API_KEY_LEN := by decide
/-- of `content_type[128]` and `lowered[128]` -/
theorem contentTypeLen_pos : 0 < 128 := by decide

inductive ApiError where
  | ok
  | badRequest
  | missingField
  | invalidKey
  | invalidId
  | invalidQuery
  | notFound
  | methodNotAllowed
  | lengthRequired
  | payloadTooLarge
  | unsupportedMedia
  | unauthorized
  | forbidden
  | notImplemented
  | internal
  deriving DecidableEq, Repr

def apiErrorStatus : ApiError → Nat
  | .ok => 200
  | .badRequest => 400
  | .missingField => 400
  | .invalidKey => 400
  | .invalidId => 400
  | .invalidQuery => 400
  | .notFound => 404
  | .methodNotAllowed => 405
  | .lengthRequired => 411
  | .payloadTooLarge => 413
  | .unsupportedMedia => 415
  | .unauthorized => 401
  | .forbidden => 403
  | .notImplemented => 501
  | .internal => 500

def apiErrorCode : ApiError → Bytes
  | .ok => ascii "ok"
  | .badRequest => ascii "bad_request"
  | .missingField => ascii "missing_field"
  | .invalidKey => ascii "invalid_key"
  | .invalidId => ascii "invalid_id"
  | .invalidQuery => ascii "invalid_query"
  | .notFound => ascii "not_found"
  | .methodNotAllowed => ascii "method_not_allowed"
  | .lengthRequired => ascii "length_required"
  | .payloadTooLarge => ascii "payload_too_large"
  | .unsupportedMedia => ascii "unsupported_media_type"
  | .unauthorized => ascii "unauthorized"
  | .forbidden => ascii "forbidden"
  | .notImplemented => ascii "not_implemented"
  | .internal => ascii "internal_error"

inductive HttpMethod where
  | get
  | post
  | put
  | delete
  | unknown
  deriving DecidableEq, Repr

def methodFromString (text : Bytes) : HttpMethod :=
  if text = ascii "GET" then .get
  else if text = ascii "POST" then .post
  else if text = ascii "PUT" then .put
  else if text = ascii "DELETE" then .delete
  else .unknown

/-- `HttpRequest`.  `contentLength` is `-1` when the header is absent; `body` is `none` for a NULL
pointer, and otherwise the `body_len` bytes it points to. -/
structure HttpRequest where
  method : HttpMethod
  methodText : CBuf HTTP_MAX_METHOD_LEN
  path : CBuf HTTP_MAX_PATH_LEN
  query : CBuf HTTP_MAX_PATH_LEN
  contentLength : Int
  contentType : CBuf 128
  apiKey : CBuf HTTP_MAX_API_KEY_LEN
  hasChunked : Bool
  body : Option Bytes
  deriving DecidableEq

/-- the request after `memset(out, 0, sizeof(*out))` and `content_length = -1` -/
def HttpRequest.zero : HttpRequest where
  method := .get
  methodText := CBuf.empty _ methodLen_pos
  path := CBuf.empty _ pathLen_pos
  query := CBuf.empty _ pathLen_pos
  contentLength := -1
  contentType := CBuf.empty _ contentTypeLen_pos
  apiKey := CBuf.empty _ apiKeyLen_pos
  hasChunked := false
  body := none

/-- an error code is shorter than any buffer it is printed to -/
theorem apiErrorCode_length (e : ApiError) : (apiErrorCode e).length ≤ 22 := by
  cases e <;> decide

end CServer
