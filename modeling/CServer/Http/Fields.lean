import CServer.Http.RequestLine
import CServer.Server.Auth

/-!
# The header fields

* `CompleteFields`   the key and the content type are complete values, and no line of the block hides
                     `chunked` or has no name;
* `KeyBound`         no key that is longer than the key of the server passes;
* `Uncut`            a block without NUL whose values fit the arrays that they are copied to;
* `fields_complete`  an accepted request has complete fields exactly when its block is uncut.
-/

namespace CServer

structure CompleteFields (block : Bytes) (out : HttpRequest) : Prop where
  nul : (0 : Byte) ∉ block
  apiKey : out.apiKey.bytes = (lastValue "x-api-key" (headerLines block)).getD []
  contentType : out.contentType.bytes = (lastValue "content-type" (headerLines block)).getD []
  keyFits : ∀ l ∈ headerLines block, isHeader "x-api-key" l → (headerValue l).length ≤ 255
  typeFits : ∀ l ∈ headerLines block, isHeader "content-type" l → (headerValue l).length ≤ 127
  notChunked : ∀ l ∈ headerLines block, isHeader "transfer-encoding" l →
    ¬ ascii "chunked" <:+: (headerValue l).map toLower
  names : ∀ l ∈ headerLines block, HasName l

/-- A key that passes is no longer than the one of the server. -/
def KeyBound (block : Bytes) (out : HttpRequest) : Prop :=
  ∀ server : Server, serverAuthEnabled server = true → serverAuthCheck server out = .ok →
    ((lastValue "x-api-key" (headerLines block)).getD []).length ≤ server.apiKey.length

/-- Every value fits the array that `parse_header_line` copies it to, as far as the array is looked
at: `lowered[128]` is searched for `chunked`. -/
structure Uncut (block : Bytes) : Prop where
  nul : (0 : Byte) ∉ block
  apiKey : ∀ l ∈ headerLines block, isHeader "x-api-key" l → (headerValue l).length ≤ 255
  contentType : ∀ l ∈ headerLines block, isHeader "content-type" l → (headerValue l).length ≤ 127
  chunked : ∀ l ∈ headerLines block, isHeader "transfer-encoding" l →
    ascii "chunked" <:+: (headerValue l).map toLower →
      ascii "chunked" <:+: ((headerValue l).take 127).map toLower

theorem lastValue_mem (name : String) (lines : List Bytes) (v : Bytes)
    (h : lastValue name lines = some v) : ∃ l ∈ lines, isHeader name l = true ∧ headerValue l = v := by
  unfold lastValue at h
  obtain ⟨l, hl, rfl⟩ := Option.map_eq_some_iff.mp h
  obtain ⟨hmem, hname⟩ := List.mem_filter.mp (List.mem_of_getLast? hl)
  exact ⟨l, hmem, hname, rfl⟩

/-- a value that fits is not cut -/
theorem lastValue_uncut (name : String) (lines : List Bytes) (n : Nat)
    (h : ∀ l ∈ lines, isHeader name l → (headerValue l).length ≤ n) :
    ((lastValue name lines).map (List.take n)).getD [] = (lastValue name lines).getD [] := by
  cases hv : lastValue name lines with
  | none => rfl
  | some v =>
    obtain ⟨l, hl, hname, rfl⟩ := lastValue_mem name lines v hv
    exact List.take_of_length_le (h l hl hname)

theorem CompleteFields.keyBound {block : Bytes} {out : HttpRequest} (h : CompleteFields block out) :
    KeyBound block out := by
  intro server henabled hok
  rw [serverAuthCheck_protected server out henabled] at hok
  split_ifs at hok with hempty hsame
  rw [← h.apiKey, hsame]
  exact le_refl _

/-- **The fields of an accepted request are complete exactly when its block is uncut: it has no NUL,
its X-API-Key values have at most 255 bytes and its Content-Type values 127, and no `chunked` begins
only behind the part of a Transfer-Encoding value that is searched.** -/
theorem fields_complete {cap : Nat} (mallocOk : Bool) (buf : Block cap) (len : Nat)
    (hlen : len ≤ cap) (out : HttpRequest) (h : httpParseRequest mallocOk buf len = some (.ok out)) :
    (CompleteFields (headerBlock (buf.bytes.take len)) out ∧
      KeyBound (headerBlock (buf.bytes.take len)) out) ↔ Uncut (headerBlock (buf.bytes.take len)) := by
  constructor
  · rintro ⟨hc, _⟩
    exact ⟨hc.nul, hc.keyFits, hc.typeFits, fun l hl hte hch => absurd hch (hc.notChunked l hl hte)⟩
  · intro hu
    obtain ⟨_, haccepted⟩ := httpParseRequest_accepted mallocOk buf len hlen out h
    obtain ⟨first, rest, out0, _, hparse, heffect⟩ := haccepted.lines
    obtain ⟨_, _, _, hscan⟩ := parseRequestLine_ok _ _ _ hparse
    rw [cstr_of_nulFree _ hu.nul] at heffect
    have hkey := heffect.apiKey
    have htype := heffect.contentType
    have hchunked := heffect.chunked
    rw [hscan.apiKey] at hkey
    rw [hscan.contentType] at htype
    rw [hscan.chunked, haccepted.chunked] at hchunked
    have hcomplete : CompleteFields (headerBlock (buf.bytes.take len)) out := by
      refine ⟨hu.nul, hkey.trans (lastValue_uncut _ _ 255 hu.apiKey),
        htype.trans (lastValue_uncut _ _ 127 hu.contentType), hu.apiKey, hu.contentType,
        fun l hl hte hch => ?_, heffect.names⟩
      have hno : announcesChunked l = false := by
        have hany := (Bool.or_eq_false_iff.mp hchunked.symm).2
        exact Bool.eq_false_iff.mpr (List.any_eq_false.mp hany l hl)
      unfold announcesChunked at hno
      rw [show decide _ = true from hte, Bool.true_and] at hno
      exact of_decide_eq_false hno (hu.chunked l hl hte hch)
    exact ⟨hcomplete, hcomplete.keyBound⟩

theorem fields_complete_plain :
    (CompleteFields (headerBlock (ascii "GET / HTTP/1.1\r\n\r\n")) plainGet ∧
      KeyBound (headerBlock (ascii "GET / HTTP/1.1\r\n\r\n")) plainGet) ↔
      Uncut (headerBlock (ascii "GET / HTTP/1.1\r\n\r\n")) :=
  fields_complete true (textBlock (ascii "GET / HTTP/1.1\r\n\r\n")) 18 (by decide) plainGet
    (by decide +kernel)

/-! ## a key that is cut -/

/-- `n` times the letter `k` -/
def keyOf (n : Nat) : CStr where
  bytes := List.replicate n 107
  nulFree := fun h => absurd (List.eq_of_mem_replicate h) (by decide)

def longKeyText : Bytes :=
  ascii "GET / HTTP/1.1\r\nX-API-Key: " ++ (keyOf 256).bytes ++ ascii "\r\n\r\n"

def longKeyGet : HttpRequest := { plainGet with apiKey := CBuf.print _ apiKeyLen_pos (keyOf 255) }

def longKeyServer : Server where
  apiKey := CBuf.print _ apiKeyLen_pos (keyOf 255)
  startTime := Long.clamp 0
  stats := ⟨0, 0, 0, 0, 0⟩

/-- **A key of 256 bytes passes on a server whose key has 255.** -/
theorem fields_longKey :
    httpParseRequest true (textBlock longKeyText) longKeyText.length = some (.ok longKeyGet) ∧
      serverAuthCheck longKeyServer longKeyGet = .ok ∧
      ¬ KeyBound (headerBlock longKeyText) longKeyGet := by
  have hprotected : serverAuthEnabled longKeyServer = true := by decide +kernel
  have hsent : longKeyGet.apiKey.bytes ≠ [] := by decide +kernel
  have hok : serverAuthCheck longKeyServer longKeyGet = .ok := by
    rw [serverAuthCheck_protected _ _ hprotected, if_neg hsent]
    exact if_pos rfl
  refine ⟨by decide +kernel, hok, fun h => ?_⟩
  have hlen := h longKeyServer hprotected hok
  revert hlen
  decide +kernel

end CServer
