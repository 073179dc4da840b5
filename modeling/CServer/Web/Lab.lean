import CServer.Web.Api

/-!
# `lab.js`: the calls of the page, and the last one of them

* `trace`, `copyCurl`      the last traced call, and the command that is copied for it;
* `rawRun`, `authWrong`    the calls that trace their own entry;
* `Call.run`               the request and the entry of a traced call.
-/

namespace CServer
namespace Web
open Shell (Chars)

/-- `HISTORY_LIMIT` -/
def historyLimit : Nat := 15

/-- what the page keeps of its calls -/
structure Lab where
  lastCall : Option Entry
  history : List Entry

def trace (entry : Entry) (lab : Lab) : Lab :=
  let history := entry :: lab.history
  { lastCall := some entry
    history := if history.length > historyLimit then history.dropLast else history }

/-- the copied text; nothing is copied before the first call -/
def Lab.copyCurl (origin : Chars) (lab : Lab) : Option Chars :=
  lab.lastCall.map fun call => buildCurl origin call.method call.path call.headers call.reqBody

variable (fetch : Request → Option Reply)

/-- the fields of the raw form -/
structure RawForm where
  method : Chars
  path : Chars
  headers : Chars
  body : Chars

/-- `cache("rawPath").value.trim() || "/"` -/
def RawForm.target (form : RawForm) : Chars :=
  let path := trim form.path
  if path = [] then "/".toList else path

/-- `!headers[name]` -/
def Headers.lacks (h : Headers) (name : Chars) : Bool :=
  match h.get name with
  | none => true
  | some value => value.isEmpty

def rawHeaders (raw : Chars) (headers : Headers) : Headers :=
  if raw ≠ [] ∧ headers.lacks contentType ∧ headers.lacks "content-type".toList then
    headers.set contentType applicationJson
  else headers

def rawRun (form : RawForm) : Option (Request × Entry) :=
  match parseHeaders form.headers with
  -- the message goes to a toast, and nothing is sent
  | .error _ => none
  | .ok headers =>
    let headers := rawHeaders form.body headers
    (doFetch fetch form.method form.target form.body headers).map fun (request, result) =>
      (request, ⟨form.method, form.target, form.body, none, result.status, result.text,
        some (form.method ++ " ".toList ++ form.target ++ " (raw)".toList)⟩)

/-- `I18N[lang].wrongKey`, the same in every language -/
def wrongKey : Chars := "definitely-wrong".toList

def authPath : Chars := "/api/kv/authtest".toList
def authBody : Chars := "\x7b\"value\":\"ok\"\x7d".toList

def authWrong : Option (Request × Entry) :=
  let headers := (Headers.empty.set contentType applicationJson).set apiKey wrongKey
  (doFetch fetch "PUT".toList authPath authBody headers).map fun (request, result) =>
    (request, ⟨"PUT".toList, authPath, authBody, none, result.status, result.text,
      some "PUT /api/kv/:key (wrong key)".toList⟩)

inductive Call where
  | callJson (token method path : Chars) (body : Option JsonText) (opts : Options)
  | rawRun (form : RawForm)
  | authWrong

/-- the request and the entry of a call that is answered and traced -/
def Call.run : Call → Option (Request × Entry)
  | .callJson token method path body opts =>
    (Web.callJson fetch token method path body opts).bind fun (request, entry) =>
      entry.map fun entry => (request, entry)
  | .rawRun form => Web.rawRun fetch form
  | .authWrong => Web.authWrong fetch

theorem copyCurl_trace (origin : Chars) (entry : Entry) (lab : Lab) :
    (trace entry lab).copyCurl origin =
      some (buildCurl origin entry.method entry.path entry.headers entry.reqBody) := rfl

/-! ## what a call sends and what it leaves behind -/

/-- the body that a method carries -/
def sentBody (method raw : Chars) : Option Chars :=
  if raw ≠ [] ∧ method ≠ "GET".toList ∧ method ≠ "DELETE".toList then some raw else none

theorem doFetch_eq {method path raw : Chars} {headers : Headers} {answer : Request × Reply}
    (h : doFetch fetch method path raw headers = some answer) :
    answer.1 = ⟨method, path, headers, sentBody method raw⟩ := by
  obtain ⟨response, -, rfl⟩ := Option.map_eq_some_iff.mp h
  rfl

/-- **An answered call of `callJson` traces the headers and the body it was given.** -/
theorem run_callJson {token method path : Chars} {body : Option JsonText} {opts : Options}
    {request : Request} {entry : Entry}
    (h : (Call.callJson token method path body opts).run fetch = some (request, entry)) :
    request = ⟨method, path, callHeaders token method body opts, sentBody method (rawOf body)⟩ ∧
      entry.method = method ∧ entry.path = path ∧ entry.reqBody = rawOf body ∧
      entry.headers = some (callHeaders token method body opts) := by
  obtain ⟨⟨request', entry'⟩, hcall, hentry⟩ := Option.bind_eq_some_iff.mp h
  obtain ⟨answer, hfetch, hpair⟩ := Option.map_eq_some_iff.mp hcall
  obtain ⟨hrequest, hkept⟩ := Prod.mk.inj hpair
  obtain ⟨e, he, hpair'⟩ := Option.map_eq_some_iff.mp hentry
  obtain ⟨rfl, rfl⟩ := Prod.mk.inj hpair'
  rw [he] at hkept
  split at hkept
  · obtain rfl := Option.some.inj hkept
    exact ⟨hrequest.symm.trans (doFetch_eq fetch hfetch), rfl, rfl, rfl, rfl⟩
  · cases hkept

/-- **The entry of the raw form has none of its headers.** -/
theorem run_rawRun {form : RawForm} {request : Request} {entry : Entry}
    (h : (Call.rawRun form).run fetch = some (request, entry)) :
    (∃ headers, parseHeaders form.headers = .ok headers ∧
      request = ⟨form.method, form.target, rawHeaders form.body headers,
        sentBody form.method form.body⟩) ∧
      entry.method = form.method ∧ entry.path = form.target ∧ entry.reqBody = form.body ∧
      entry.headers = none := by
  change rawRun fetch form = some (request, entry) at h
  unfold rawRun at h
  split at h
  · cases h
  · rename_i headers hparse
    obtain ⟨answer, hfetch, hpair⟩ := Option.map_eq_some_iff.mp h
    obtain ⟨rfl, rfl⟩ := Prod.mk.inj hpair
    exact ⟨⟨headers, hparse, doFetch_eq fetch hfetch⟩, rfl, rfl, rfl, rfl⟩

theorem run_authWrong {request : Request} {entry : Entry}
    (h : Call.authWrong.run fetch = some (request, entry)) :
    request = ⟨"PUT".toList, authPath,
        (Headers.empty.set contentType applicationJson).set apiKey wrongKey,
        sentBody "PUT".toList authBody⟩ ∧
      entry.method = "PUT".toList ∧ entry.path = authPath ∧ entry.reqBody = authBody ∧
      entry.headers = none := by
  obtain ⟨answer, hfetch, hpair⟩ := Option.map_eq_some_iff.mp h
  obtain ⟨rfl, rfl⟩ := Prod.mk.inj hpair
  exact ⟨doFetch_eq fetch hfetch, rfl, rfl, rfl, rfl⟩

end Web
end CServer
