import CServer.Api.Handlers
import CServer.Http.Fields
import CServer.Lib.Strtol

/-!
# The media type of a body

`api_require_json` looks for `application/json` anywhere in the part of the Content-Type value that
`content_type[128]` holds.

* `mediaType`         the value up to the first semicolon, without the blanks around it;
* `JsonOnly`          a body is let through exactly when the last Content-Type line is of the media
                      type `application/json`;
* `apiRequireJson_seen`   what the function looks at;
* `jsonOnly_iff`      the condition on the block under which bodies are JSON only.
-/

namespace CServer

/-! ## media types -/

/-- the type and subtype, in lower case -/
def mediaType (value : Bytes) : Bytes :=
  (((value.takeWhile fun c => c != 59).dropWhile isBlank).rdropWhile isBlank).map toLower

/-- the value of the last Content-Type line of the block -/
def lastType (block : Bytes) : Option Bytes :=
  lastValue "content-type" ((headerLines block).filter fun l => decide (colon ∈ l))

def IsJsonType (value : Option Bytes) : Prop := value.map mediaType = some (ascii "application/json")

instance (value : Option Bytes) : Decidable (IsJsonType value) := by
  unfold IsJsonType
  infer_instance

/-- Every body that arrives with the headers is judged by the media type. -/
def JsonOnly (block : Bytes) (out : HttpRequest) : Prop :=
  ∀ body : Bytes, body ≠ [] → apiRequireJson { out with body := some body } true =
    if IsJsonType (lastType block) then .ok else .unsupportedMedia

/-! ## what the function looks at -/

/-- the value of the last Content-Type line in front of the first NUL -/
def seenType (block : Bytes) : Option Bytes := lastValue "content-type" (headerLines (cstr block))

/-- `application/json` occurs in the first 127 bytes -/
def namesJson (value : Option Bytes) : Bool :=
  strstr (((value.getD []).take 127).map toLower) (ascii "application/json")

theorem apiRequireJson_body (out : HttpRequest) (body : Bytes) (hlen : 0 < out.contentLength) :
    apiRequireJson { out with body := some body } true =
      if strstr ((out.contentType.bytes.take 127).map toLower) (ascii "application/json") then .ok
      else .unsupportedMedia := by
  unfold apiRequireJson
  rw [if_neg (fun h => absurd h.2 (Int.not_lt.mpr (Int.le_of_lt hlen))), if_neg (by simp)]
  rfl

/-- **The body is let through exactly when the value that is seen names JSON.** -/
theorem apiRequireJson_seen {block : Bytes} {out : HttpRequest} (h : AcceptedBlock block out)
    (hlen : 0 < out.contentLength) (body : Bytes) :
    apiRequireJson { out with body := some body } true =
      if namesJson (seenType block) then .ok else .unsupportedMedia := by
  obtain ⟨first, rest, out0, _, hparse, heffect⟩ := h.lines
  obtain ⟨_, _, _, hscan⟩ := parseRequestLine_ok _ _ _ hparse
  have htype := heffect.contentType
  rw [hscan.contentType] at htype
  have hseen : out.contentType.bytes.take 127 = ((seenType block).getD []).take 127 := by
    rw [htype]
    unfold seenType
    cases lastValue "content-type" (headerLines (cstr block)) with
    | none => rfl
    | some v =>
      show (v.take 127).take 127 = v.take 127
      rw [List.take_take, min_self]
  rw [apiRequireJson_body out body hlen, hseen]
  rfl

/-! ## the condition -/

/-- The value that is seen names `application/json` only as the media type of the last line, and no
NUL hides a last line of that type. -/
structure TypesPlain (block : Bytes) : Prop where
  names : namesJson (seenType block) = true → IsJsonType (lastType block)
  hidden : (0 : Byte) ∈ block → IsJsonType (lastType block) → namesJson (seenType block) = true

/-- a value of the media type names it in its first bytes -/
theorem namesJson_of_type (line : Bytes)
    (h : mediaType (headerValue line) = ascii "application/json") :
    namesJson (some (headerValue line)) = true := by
  have hhead : ∀ c, (headerValue line).head? = some c → isBlank c = false :=
    fun c hc => dropWhile_head _ _ _ hc
  have hdrop : ((headerValue line).takeWhile fun c => c != 59).dropWhile isBlank =
      (headerValue line).takeWhile fun c => c != 59 := by
    cases htake : (headerValue line).takeWhile fun c => c != 59 with
    | nil => rfl
    | cons c rest =>
      have hpre : c :: rest <+: headerValue line := htake ▸ List.takeWhile_prefix _
      have hc : (headerValue line).head? = some c := by
        obtain ⟨t, ht⟩ := hpre
        rw [← ht]
        rfl
      rw [List.dropWhile_cons_of_neg]
      rw [hhead c hc]
      decide
  unfold mediaType at h
  rw [hdrop] at h
  have hpre := (List.rdropWhile_prefix isBlank (l := (headerValue line).takeWhile fun c => c != 59)).trans
    (List.takeWhile_prefix _)
  have hlen := congrArg List.length h
  rw [List.length_map, show (ascii "application/json").length = 16 by decide] at hlen
  have hcut : ((headerValue line).takeWhile fun c => c != 59).rdropWhile isBlank <+:
      (headerValue line).take 127 := by
    apply List.prefix_take_iff.mpr
    exact ⟨hpre, by omega⟩
  have hnames := (hcut.map toLower).isInfix
  rw [h] at hnames
  exact decide_eq_true hnames

/-- without NUL the last line is seen -/
theorem seenType_of_nulFree {block : Bytes} {out : HttpRequest} (h : AcceptedBlock block out)
    (hnul : (0 : Byte) ∉ block) : seenType block = lastType block := by
  obtain ⟨_, _, _, _, _, heffect⟩ := h.lines
  rw [cstr_of_nulFree _ hnul] at heffect
  unfold seenType lastType
  rw [cstr_of_nulFree _ hnul]
  congr 1
  rw [eq_comm, List.filter_eq_self]
  exact fun l hl => decide_eq_true (heffect.names l hl).colon

theorem lastType_names (block : Bytes) (h : IsJsonType (lastType block)) :
    namesJson (lastType block) = true := by
  unfold IsJsonType at h
  obtain ⟨v, hv, hm⟩ := Option.map_eq_some_iff.mp h
  obtain ⟨l, _, _, rfl⟩ := lastValue_mem _ _ _ hv
  rw [hv]
  exact namesJson_of_type l hm

/-- **The bodies of an accepted request are JSON only exactly when its block has plain types.** -/
theorem jsonOnly_iff {cap : Nat} (mallocOk : Bool) (buf : Block cap) (len : Nat) (hlen : len ≤ cap)
    (out : HttpRequest) (h : httpParseRequest mallocOk buf len = some (.ok out))
    (hbody : 0 < out.contentLength) :
    JsonOnly (headerBlock (buf.bytes.take len)) out ↔ TypesPlain (headerBlock (buf.bytes.take len)) := by
  obtain ⟨_, haccepted⟩ := httpParseRequest_accepted mallocOk buf len hlen out h
  generalize headerBlock (buf.bytes.take len) = block at *
  have hseen := apiRequireJson_seen haccepted hbody
  constructor
  · intro honly
    have hsame := honly [123] (by decide)
    rw [hseen] at hsame
    refine ⟨fun hnames => ?_, fun _ htype => ?_⟩
    · by_contra hno
      rw [if_pos hnames, if_neg hno] at hsame
      cases hsame
    · by_contra hno
      rw [if_neg hno, if_pos htype] at hsame
      cases hsame
  · intro hplain body _
    rw [hseen]
    by_cases htype : IsJsonType (lastType block)
    · have hnames : namesJson (seenType block) = true := by
        by_cases hnul : (0 : Byte) ∈ block
        · exact hplain.hidden hnul htype
        · rw [seenType_of_nulFree haccepted hnul]
          exact lastType_names block htype
      rw [if_pos hnames, if_pos htype]
    · rw [if_neg (fun hnames => htype (hplain.names hnames)), if_neg htype]

/-! ## two requests -/

def jsonPost : Bytes :=
  ascii "POST / HTTP/1.1\r\nContent-Length: 2\r\nContent-Type: Application/JSON ; a=b\r\n\r\n"

def plainPost : HttpRequest :=
  { HttpRequest.zero with
    method := .post
    methodText := CBuf.print _ methodLen_pos (.lit "POST")
    path := CBuf.print _ pathLen_pos (.lit "/")
    contentLength := 2 }

theorem jsonOnly_jsonPost : JsonOnly (headerBlock jsonPost)
      { plainPost with contentType := CBuf.print _ contentTypeLen_pos (.lit "Application/JSON ; a=b") } ↔
    TypesPlain (headerBlock jsonPost) :=
  jsonOnly_iff true (textBlock jsonPost) jsonPost.length le_rfl _ (by decide +kernel) (by decide)

def textPost : Bytes :=
  ascii "POST / HTTP/1.1\r\nContent-Length: 2\r\nContent-Type: text/plain; a=application/json\r\n\r\n"

def textPostRequest : HttpRequest :=
  { plainPost with
    contentType := CBuf.print _ contentTypeLen_pos (.lit "text/plain; a=application/json") }

/-- **A body of plain text is let through when a parameter names JSON.** -/
theorem jsonOnly_textPost :
    httpParseRequest true (textBlock textPost) textPost.length = some (.ok textPostRequest) ∧
      ¬ JsonOnly (headerBlock textPost) textPostRequest := by
  refine ⟨by decide +kernel, fun h => ?_⟩
  have hbody := h [123, 125] (by decide)
  revert hbody
  decide +kernel

end CServer
