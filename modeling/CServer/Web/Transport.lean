import CServer.Api.Exchange
import CServer.Lib.UrlPath
import CServer.Web.Lab

/-!
# From `fetch` to the server and back

* `Delivers`             a message that a browser makes of a request;
* `Exchanged`            one connection, from the request of the page to the reply it sees;
* `Delivers.sendable`    the message is one that the server can be sent;
* `Exchanged.shows`      the reply shows the response of the server;
* `Exchanged.dispatched`  which is the one that `api_dispatch` gives for what the request says.
-/

namespace CServer
namespace Web
open Shell (Chars)
open Http11 UrlPath

/-! ## requests -/

/-- the white space that is taken off a field value -/
def isFieldSpace (b : Byte) : Bool := b = space || b = tab || b = cr || b = lf

/-- the value of a header, a byte for each character -/
def fieldValue (value : Chars) : Bytes :=
  ((value.map fun c => UInt8.ofNat c.toNat).dropWhile isFieldSpace).rdropWhile isFieldSpace

/-- the values of a header of the request -/
def headerValues (request : Request) (name : Chars) : List Bytes :=
  ((request.headers.get name).map fieldValue).toList

/-- The message is one that a browser makes of the request: what the request names stands in it, and
the other fields are the browser's own, of 14000 bytes at most with the rest of the block. -/
structure Delivers (request : Request) (m : Message) : Prop where
  wf : m.WF
  start : m.start = utf8 request.method ++
    space :: (utf8 (urlPath request.path) ++ space :: ascii "HTTP/1.1")
  /-- `fetch` throws at any other value -/
  latin : ∀ p ∈ request.headers.fields, ∀ c ∈ p.2, c.toNat < 256
  contentType : fieldValues (ascii "content-type") m.fields = headerValues request contentType
  apiKey : fieldValues (ascii "x-api-key") m.fields = headerValues request apiKey
  body : m.body = utf8 (request.body.getD [])
  names : ∀ f ∈ m.fields, f.name.length < 64
  nulFree : ∀ f ∈ m.fields, (0 : Byte) ∉ f.line
  keyFits : ∀ v ∈ headerValues request Web.apiKey, v.length ≤ 255
  notChunked : ∀ v ∈ fieldValues (ascii "transfer-encoding") m.fields,
    ¬ ascii "chunked" <:+: v.map toLower
  own : m.block.length ≤ (utf8 (urlPath request.path)).length + 14000

/-- a target without white space, behind a slash -/
structure PlainTarget (target : Bytes) : Prop where
  word : Word target
  nul : (0 : Byte) ∉ target
  slash : target.head? = some 47

theorem Delivers.sendable {request : Request} {m : Message} (h : Delivers request m)
    (hmethod : utf8 request.method ∈ METHODS) (htarget : PlainTarget (utf8 (urlPath request.path)))
    (htype : ∀ v ∈ headerValues request Web.contentType, v.length ≤ 127) :
    Sendable m (utf8 request.method) (utf8 (urlPath request.path)) where
  wf := h.wf
  start := h.start
  method := hmethod
  word := htarget.word
  nul := htarget.nul
  slash := htarget.slash
  names := h.names
  nulFree := h.nulFree
  typeFits := by
    rw [h.contentType]
    exact htype
  keyFits := by
    rw [h.apiKey]
    exact h.keyFits
  notChunked := h.notChunked

/-! ## connections -/

/-- what a connection meets: the clock, the page, the buffers, the pieces in which the request arrives,
what follows it, and how the socket takes the response -/
structure Connection where
  now : Long
  page : Bytes
  headerBuf : Block HTTP_MAX_HEADERS_SIZE
  bodyBuf : Block HTTP_MAX_BODY_SIZE
  socket : Socket
  message : Message
  behind : Bytes
  schedule : Schedule

def Connection.env (c : Connection) : Env := Env.quiet c.now c.page

/-- **One request of the page over one connection.**  The response goes out whole, and the reply is what
a client reads of it; `response.text()` decodes UTF-8 and drops a byte order mark. -/
structure Exchanged (server : Server) (st st' : Store) (request : Request) (reply : Reply)
    (c : Connection) : Prop where
  page : c.page.length < 2 ^ 64
  delivers : Delivers request c.message
  arrives : c.socket.stream = c.message.text ++ c.behind
  answered : ∃ a r answer,
    handleClient c.env true c.headerBuf c.bodyBuf c.socket st server = some (a, st') ∧ a.sent = [r] ∧
    (httpRespondOver r c.schedule).returned = some (.ok ()) ∧
    readMessage (httpRespondOver r c.schedule).accepted = some (answer, []) ∧
    reply.status = readStatus answer.start ∧
    ∀ text, answer.body = utf8 text → text.head? ≠ some '\uFEFF' → reply.text = text

/-- The reply shows the response. -/
structure Shows (reply : Reply) (r : Response) : Prop where
  status : reply.status = r.status
  text : ∀ text, r.body = utf8 text → text.head? ≠ some '\uFEFF' → reply.text = text

theorem Exchanged.shows {server : Server} {st st' : Store} {request : Request} {reply : Reply}
    {c : Connection} (h : Exchanged server st st' request reply c) :
    ∃ r, clientAnswer c.env st server (readStream true (c.message.text ++ c.behind)) =
        ((clientAnswer c.env st server (readStream true (c.message.text ++ c.behind))).1, st') ∧
      (clientAnswer c.env st server (readStream true (c.message.text ++ c.behind))).1.sent = [r] ∧
      Shows reply r := by
  obtain ⟨a, r, answer, hclient, hsent, hwhole, hread, hstatus, htext⟩ := h.answered
  unfold handleClient at hclient
  rw [httpReadRequest_eq, h.arrives] at hclient
  have hpair := Option.some.inj hclient
  obtain ⟨r', hsent', hplain, -⟩ := clientAnswer_framed c.env st server
    (readStream true (c.message.text ++ c.behind)) rfl h.page
  rw [hpair] at hsent' ⊢
  obtain rfl : r = r' := (List.cons.inj (hsent.symm.trans hsent')).1
  rw [readMessage_sent r hplain c.schedule hwhole] at hread
  obtain ⟨rfl, -⟩ := Prod.mk.inj (Option.some.inj hread)
  refine ⟨r, rfl, hsent, ⟨?_, htext⟩⟩
  rw [hstatus, readStatus_message]

/-- **A delivered request is answered as `api_dispatch` answers what it says, or it is above the limits
and nothing changes.** -/
theorem Exchanged.dispatched {server : Server} {st st' : Store} {request : Request} {reply : Reply}
    {c : Connection} (h : Exchanged server st st' request reply c)
    (hsend : Sendable c.message (utf8 request.method) (utf8 (urlPath request.path)))
    (hhttp : ¬ ascii "HTTP/1." <+: (utf8 (urlPath request.path)).drop 2047) :
    (∃ req a r, WithinLimits c.message (utf8 (urlPath request.path)) ∧
      Carries c.message (utf8 request.method) (utf8 (urlPath request.path)) req ∧
      apiDispatch c.env req st server = (a, st') ∧ a.sent = [r] ∧ Shows reply r) ∨
    (¬ WithinLimits c.message (utf8 (urlPath request.path)) ∧ st' = st ∧
      ∃ r, r.Refuses ∧ Shows reply r) := by
  obtain ⟨r, hpair, hsent, hshows⟩ := h.shows
  by_cases hfits : WithinLimits c.message (utf8 (urlPath request.path))
  · obtain ⟨req, hcarries, hdispatch⟩ := clientAnswer_message c.env st server hsend hfits c.behind
    rw [hdispatch] at hpair hsent
    exact .inl ⟨req, _, r, hfits, hcarries, hpair, hsent, hshows⟩
  · obtain ⟨hsame, hrefuses⟩ :=
      clientAnswer_overlong c.env st server hsend hhttp hfits true c.behind
    rw [hpair] at hsame
    exact .inr ⟨hfits, hsame, r, hrefuses r (by rw [hsent]; exact List.mem_singleton_self r), hshows⟩

/-- **Every message of a request is answered**, in whatever pieces it arrives. -/
theorem exchanged_exists (server : Server) (st : Store) {request : Request} (c : Connection)
    (hpage : c.page.length < 2 ^ 64) (hm : Delivers request c.message)
    (hs : c.socket.stream = c.message.text ++ c.behind) (hsched : c.schedule = takesAll) :
    ∃ st' reply, Exchanged server st st' request reply c := by
  obtain ⟨r, hsent, hplain, hfits⟩ := clientAnswer_framed c.env st server
    (readStream true (c.message.text ++ c.behind)) rfl hpage
  have hwhole := httpRespondOver_takesAll r hfits
  -- the text is what the body decodes to, where it does
  obtain ⟨text, htext⟩ : ∃ text : Chars, ∀ t, r.body = utf8 t → text = t := by
    by_cases hdecodes : ∃ t, r.body = utf8 t
    · obtain ⟨t, ht⟩ := hdecodes
      exact ⟨t, fun t' ht' => utf8_injective (ht.symm.trans ht')⟩
    · exact ⟨[], fun t ht => absurd ⟨t, ht⟩ hdecodes⟩
  refine ⟨(clientAnswer c.env st server (readStream true (c.message.text ++ c.behind))).2,
    ⟨r.status, text⟩, hpage, hm, hs, _, r, r.message, ?_, hsent, ?_, ?_, (readStatus_message r).symm,
    fun t ht _ => htext t ht⟩
  · unfold handleClient
    rw [httpReadRequest_eq, hs]
    rfl
  · rw [hsched]
    exact hwhole
  · rw [hsched]
    exact readMessage_sent r hplain takesAll hwhole

end Web
end CServer
