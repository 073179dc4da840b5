import CServer.Http.Lines

/-!
# Fields that the header lines leave alone

* `HttpRequest.setMethod`, `HttpRequest.setLength`   the method of a request, and its content length;
* `Edit f`              `f` changes none of the three text and flag fields that header lines write;
* `parseHeaderLine_edit`   such a change before a line is one behind it;
* `parseLines_edit`        and for all lines behind the first one.
-/

namespace CServer

/-- what the scan of the request line does with its first word -/
def HttpRequest.setMethod (method : Bytes) (out : HttpRequest) : HttpRequest :=
  { out with
    methodText := CBuf.print _ methodLen_pos (CStr.ofBytes method)
    method := methodFromString method }

def HttpRequest.setLength (n : Int) (out : HttpRequest) : HttpRequest := { out with contentLength := n }

/-- `f` does not touch what the header lines write, the content length apart. -/
structure Edit (f : HttpRequest → HttpRequest) : Prop where
  contentType : ∀ out v, f { out with contentType := v } = { f out with contentType := v }
  apiKey : ∀ out v, f { out with apiKey := v } = { f out with apiKey := v }
  hasChunked : ∀ out v, f { out with hasChunked := v } = { f out with hasChunked := v }

theorem setMethod_edit (method : Bytes) : Edit (HttpRequest.setMethod method) :=
  ⟨fun _ _ => rfl, fun _ _ => rfl, fun _ _ => rfl⟩

theorem setLength_edit (n : Int) : Edit (HttpRequest.setLength n) :=
  ⟨fun _ _ => rfl, fun _ _ => rfl, fun _ _ => rfl⟩

theorem parseContentLength_edit (value : Bytes) (out : HttpRequest) (f : HttpRequest → HttpRequest)
    (hf : ∀ out n, f (HttpRequest.setLength n out) = HttpRequest.setLength n (f out)) :
    parseContentLength value (f out) = (parseContentLength value out).map f := by
  unfold parseContentLength
  simp only
  split_ifs
  · rfl
  · rfl
  · rfl
  · exact congrArg Except.ok (hf out _).symm

/-- **An edit before a line is one behind it;** at a Content-Length line it must leave the length
alone as well. -/
theorem parseHeaderLine_edit (line : CStr) (out : HttpRequest) (f : HttpRequest → HttpRequest)
    (hf : Edit f)
    (hlen : headerName line.bytes = ascii "content-length" →
      ∀ out n, f (HttpRequest.setLength n out) = HttpRequest.setLength n (f out)) :
    parseHeaderLine line (f out) = (parseHeaderLine line out).map f := by
  have hfold : (line.bytes.takeWhile fun c => c != colon).map toLower = headerName line.bytes := rfl
  unfold parseHeaderLine
  cases line.bytes.dropWhile fun c => c != colon with
  | nil => rfl
  | cons c after =>
    simp only [hfold]
    split_ifs with hname h1 h2 h3 h4 h5
    · rfl
    · exact parseContentLength_edit _ out f (hlen h1)
    · exact congrArg Except.ok (hf.contentType out _).symm
    · exact congrArg Except.ok (hf.apiKey out _).symm
    · exact congrArg Except.ok (hf.hasChunked out _).symm
    · rfl
    · rfl

/-- the same for the lines behind the first one -/
theorem parseLines_edit (texts : List Bytes) (out : HttpRequest) (k : Nat)
    (f : HttpRequest → HttpRequest) (hf : Edit f)
    (hlen : ∀ out n, f (HttpRequest.setLength n out) = HttpRequest.setLength n (f out)) :
    parseLines (f out) (k + 1) texts =
      (parseLines out (k + 1) texts).map fun result => (f result.1, result.2) := by
  induction texts generalizing out k with
  | nil => rfl
  | cons text texts ih =>
    rw [parseLines, parseLines]
    simp only [Nat.add_one_ne_zero, if_false]
    by_cases hempty : (CStr.ofBytes (stripCr text)).bytes ≠ []
    · rw [if_pos hempty, if_pos hempty, parseHeaderLine_edit _ out f hf fun _ => hlen]
      cases parseHeaderLine (CStr.ofBytes (stripCr text)) out with
      | error e => rfl
      | ok out1 => exact ih out1 (k + 1)
    · rw [if_neg hempty, if_neg hempty]
      exact ih out (k + 1)

end CServer
