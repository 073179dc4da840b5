import CServer.Http.Read

/-!
# The lines of an accepted request

A line ends with a line feed; a carriage return in front of the line feed is not part of it.

* `headerBlock`        the bytes in front of the first CR LF CR LF;
* `headerLines`        the non-empty lines of the block behind its first one;
* `HeaderEffect`       what `parse_header_line` does with a line;
* `parseHeaderLine_ok` it does so with every line that it accepts;
* `AcceptedBlock`           an accepted block: its first token is a request line, and each line behind it
                       has had its effect;
* `httpParseRequest_accepted`   what `http_parse_request` accepts.
-/

namespace CServer

/-! ## one header line -/

/-- the bytes up to the colon, in lower case -/
def headerName (line : Bytes) : Bytes := (line.takeWhile fun c => c != colon).map toLower

/-- the bytes behind the colon and the blanks -/
def headerValue (line : Bytes) : Bytes :=
  ((line.dropWhile fun c => c != colon).drop 1).dropWhile isBlank

/-- a colon behind 1 to 63 bytes -/
structure HasName (line : Bytes) : Prop where
  colon : colon ∈ line
  pos : 0 < (line.takeWhile fun c => c != CServer.colon).length
  short : (line.takeWhile fun c => c != CServer.colon).length < 64

def announcesChunked (line : Bytes) : Bool :=
  decide (headerName line = ascii "transfer-encoding") &&
    strstr (((headerValue line).take 127).map toLower) (ascii "chunked")

structure HeaderEffect (line : Bytes) (out out' : HttpRequest) : Prop where
  name : HasName line
  apiKey : out'.apiKey.bytes =
    if headerName line = ascii "x-api-key" then (headerValue line).take 255 else out.apiKey.bytes
  contentType : out'.contentType.bytes =
    if headerName line = ascii "content-type" then (headerValue line).take 127
    else out.contentType.bytes
  chunked : out'.hasChunked = (out.hasChunked || announcesChunked line)
  method : out'.method = out.method
  path : out'.path = out.path
  query : out'.query = out.query

theorem headerValue_subset (line : Bytes) : headerValue line ⊆ line := fun _ hc =>
  (List.dropWhile_suffix _).subset (List.mem_of_mem_drop ((List.dropWhile_suffix _).subset hc))

theorem cstr_headerValue (line : CStr) : cstr (headerValue line.bytes) = headerValue line.bytes :=
  cstr_of_nulFree _ fun h => line.nulFree (headerValue_subset _ h)

theorem parseContentLength_ok (value : Bytes) (out out' : HttpRequest)
    (h : parseContentLength value out = .ok out') :
    ∃ n, out' = { out with contentLength := n } := by
  unfold parseContentLength at h
  simp only at h
  split_ifs at h
  cases h
  exact ⟨_, rfl⟩

theorem announcesChunked_of_ne (line : Bytes) (h : headerName line ≠ ascii "transfer-encoding") :
    announcesChunked line = false := by
  unfold announcesChunked
  rw [decide_eq_false h, Bool.false_and]

theorem headerNames_ne : ascii "content-length" ≠ ascii "content-type" ∧
    ascii "content-length" ≠ ascii "x-api-key" ∧
    ascii "content-length" ≠ ascii "transfer-encoding" ∧
    ascii "content-type" ≠ ascii "x-api-key" ∧
    ascii "content-type" ≠ ascii "transfer-encoding" ∧
    ascii "x-api-key" ≠ ascii "transfer-encoding" := by decide

/-- **What `parse_header_line` does with a line that it accepts.** -/
theorem parseHeaderLine_ok (line : CStr) (out out' : HttpRequest)
    (h : parseHeaderLine line out = .ok out') : HeaderEffect line.bytes out out' := by
  obtain ⟨n1, n2, n3, n4, n5, n6⟩ := headerNames_ne
  have hvalue := cstr_headerValue line
  unfold parseHeaderLine at h
  cases hd : line.bytes.dropWhile fun c => c != colon with
  | nil =>
    rw [hd] at h
    cases h
  | cons c after =>
    have hcolon : colon ∈ line.bytes := by
      by_contra hno
      have hall : line.bytes.dropWhile (fun c => c != colon) = [] := by
        rw [List.dropWhile_eq_nil_iff]
        intro x hx
        exact bne_iff_ne.mpr fun he => hno (he ▸ hx)
      rw [hall] at hd
      cases hd
    have hafter : after.dropWhile isBlank = headerValue line.bytes := by
      unfold headerValue
      rw [hd]
      rfl
    have hfold : (line.bytes.takeWhile fun c => c != colon).map toLower = headerName line.bytes := rfl
    rw [hd] at h
    simp only [hafter, hfold] at h
    by_cases hlen : (line.bytes.takeWhile fun c => c != colon).length = 0 ∨
        (line.bytes.takeWhile fun c => c != colon).length ≥ 64
    · rw [if_pos hlen] at h
      cases h
    · have hname : HasName line.bytes := ⟨hcolon, by omega, by omega⟩
      rw [if_neg hlen] at h
      have hplain := announcesChunked_of_ne line.bytes
      by_cases hcl : headerName line.bytes = ascii "content-length"
      · rw [if_pos hcl] at h
        obtain ⟨n, rfl⟩ := parseContentLength_ok _ _ _ h
        refine ⟨hname, ?_, ?_, ?_, rfl, rfl, rfl⟩
        · rw [hcl, if_neg n2]
        · rw [hcl, if_neg n1]
        · rw [hplain (hcl ▸ n3), Bool.or_false]
      · rw [if_neg hcl] at h
        by_cases hct : headerName line.bytes = ascii "content-type"
        · rw [if_pos hct] at h
          cases h
          refine ⟨hname, ?_, ?_, ?_, rfl, rfl, rfl⟩
          · rw [hct, if_neg n4]
          · rw [hct, if_pos rfl, CBuf.print_bytes, CStr.ofBytes_bytes, hvalue]
          · rw [hplain (hct ▸ n5), Bool.or_false]
        · rw [if_neg hct] at h
          by_cases hkey : headerName line.bytes = ascii "x-api-key"
          · rw [if_pos hkey] at h
            cases h
            refine ⟨hname, ?_, ?_, ?_, rfl, rfl, rfl⟩
            · rw [hkey, if_pos rfl, CBuf.print_bytes, CStr.ofBytes_bytes, hvalue]
              rfl
            · rw [hkey, if_neg n4.symm]
            · rw [hplain (hkey ▸ n6), Bool.or_false]
          · rw [if_neg hkey] at h
            by_cases hte : headerName line.bytes = ascii "transfer-encoding"
            · rw [if_pos hte, CBuf.print_bytes, CStr.ofBytes_bytes, hvalue] at h
              have heffect : ∀ found, out' = { out with hasChunked := out.hasChunked || found } →
                  announcesChunked line.bytes = found → HeaderEffect line.bytes out out' := by
                rintro found rfl hfound
                exact ⟨hname, (if_neg hkey).symm, (if_neg hct).symm, by rw [hfound], rfl, rfl, rfl⟩
              have hfound : announcesChunked line.bytes =
                  strstr (((headerValue line.bytes).take 127).map toLower) (ascii "chunked") := by
                unfold announcesChunked
                rw [decide_eq_true hte, Bool.true_and]
              apply heffect _ _ hfound
              split at h
              · rename_i hch
                cases h
                rw [show strstr _ _ = true from hch, Bool.or_true]
              · rename_i hch
                cases h
                rw [show strstr _ _ = false from Bool.eq_false_iff.mpr hch, Bool.or_false]
            · rw [if_neg hte] at h
              cases h
              refine ⟨hname, (if_neg hkey).symm, (if_neg hct).symm, ?_, rfl, rfl, rfl⟩
              rw [hplain hte, Bool.or_false]

/-! ## the lines behind the request line -/

def isHeader (name : String) (line : Bytes) : Bool := decide (headerName line = ascii name)

/-- the value of the last line of the name -/
def lastValue (name : String) (lines : List Bytes) : Option Bytes :=
  (lines.filter (isHeader name)).getLast?.map headerValue

theorem lastValue_cons (name : String) (l : Bytes) (lines : List Bytes) :
    lastValue name (l :: lines) = (lastValue name lines).or
      (if headerName l = ascii name then some (headerValue l) else none) := by
  unfold lastValue
  by_cases h : headerName l = ascii name
  · have hpos : isHeader name l = true := decide_eq_true h
    rw [List.filter_cons_of_pos hpos, List.getLast?_cons, if_pos h]
    cases (lines.filter (isHeader name)).getLast? <;> rfl
  · have hneg : ¬ isHeader name l = true := fun ht => h (of_decide_eq_true ht)
    rw [List.filter_cons_of_neg hneg, if_neg h, Option.or_none]

/-- the effect of the lines, one after the other -/
structure LinesEffect (lines : List Bytes) (out out' : HttpRequest) : Prop where
  names : ∀ l ∈ lines, HasName l
  apiKey : out'.apiKey.bytes =
    ((lastValue "x-api-key" lines).map (List.take 255)).getD out.apiKey.bytes
  contentType : out'.contentType.bytes =
    ((lastValue "content-type" lines).map (List.take 127)).getD out.contentType.bytes
  chunked : out'.hasChunked = (out.hasChunked || lines.any announcesChunked)
  method : out'.method = out.method
  path : out'.path = out.path
  query : out'.query = out.query

theorem linesEffect_nil (out : HttpRequest) : LinesEffect [] out out :=
  ⟨fun _ h => (by cases h), rfl, rfl, (Bool.or_false _).symm, rfl, rfl, rfl⟩

/-- a field that the last line of its name sets -/
theorem lastValue_step (name : String) (l : Bytes) (lines : List Bytes) (n : Nat)
    (before between after : Bytes)
    (hl : between = if headerName l = ascii name then (headerValue l).take n else before)
    (hlines : after = ((lastValue name lines).map (List.take n)).getD between) :
    after = ((lastValue name (l :: lines)).map (List.take n)).getD before := by
  rw [hlines, hl, lastValue_cons]
  cases lastValue name lines with
  | some v => rfl
  | none => by_cases h : headerName l = ascii name <;> simp [h]

theorem linesEffect_cons (l : Bytes) (lines : List Bytes) (out out1 out' : HttpRequest)
    (h : HeaderEffect l out out1) (hrest : LinesEffect lines out1 out') :
    LinesEffect (l :: lines) out out' where
  names := by
    intro x hx
    rcases List.mem_cons.mp hx with rfl | hx
    · exact h.name
    · exact hrest.names x hx
  apiKey := lastValue_step _ _ _ _ _ _ _ h.apiKey hrest.apiKey
  contentType := lastValue_step _ _ _ _ _ _ _ h.contentType hrest.contentType
  chunked := by rw [hrest.chunked, h.chunked, List.any_cons, Bool.or_assoc]
  method := hrest.method.trans h.method
  path := hrest.path.trans h.path
  query := hrest.query.trans h.query

/-- the lines that are not empty, without their carriage returns -/
def fullLines (texts : List Bytes) : List Bytes := (texts.map stripCr).filter fun l => l != []

theorem stripCr_subset (line : Bytes) : stripCr line ⊆ line := by
  unfold stripCr
  split_ifs
  · exact List.dropLast_subset _
  · exact List.Subset.refl _

theorem parseLines_effect (texts : List Bytes) (out out' : HttpRequest) (k n : Nat)
    (hnul : ∀ t ∈ texts, (0 : Byte) ∉ t) (h : parseLines out (k + 1) texts = .ok (out', n)) :
    LinesEffect (fullLines texts) out out' := by
  induction texts generalizing out k with
  | nil =>
    cases h
    exact linesEffect_nil _
  | cons text texts ih =>
    have hrest : ∀ t ∈ texts, (0 : Byte) ∉ t := fun t ht => hnul t (List.mem_cons_of_mem _ ht)
    have hline : (CStr.ofBytes (stripCr text)).bytes = stripCr text :=
      cstr_of_nulFree _ fun h0 => hnul text List.mem_cons_self (stripCr_subset text h0)
    rw [parseLines] at h
    simp only [Nat.add_one_ne_zero, if_false] at h
    by_cases hempty : (CStr.ofBytes (stripCr text)).bytes ≠ []
    · rw [if_pos hempty] at h
      cases hparse : parseHeaderLine (CStr.ofBytes (stripCr text)) out with
      | error e =>
        rw [hparse] at h
        cases h
      | ok out1 =>
        rw [hparse] at h
        have heffect := parseHeaderLine_ok _ _ _ hparse
        rw [hline] at heffect hempty
        have hcons : fullLines (text :: texts) = stripCr text :: fullLines texts :=
          List.filter_cons_of_pos (bne_iff_ne.mpr hempty)
        rw [hcons]
        exact linesEffect_cons _ _ _ _ _ heffect (ih _ _ hrest h)
    · rw [if_neg hempty] at h
      rw [hline] at hempty
      have hcons : fullLines (text :: texts) = fullLines texts :=
        List.filter_cons_of_neg (by simpa using hempty)
      rw [hcons]
      exact ih _ _ hrest h

theorem parseLines_lineNo (texts : List Bytes) (out : HttpRequest) (k : Nat)
    (result : HttpRequest × Nat) (h : parseLines out k texts = .ok result) :
    result.2 = k + texts.length := by
  induction texts generalizing out k with
  | nil =>
    cases h
    rfl
  | cons text texts ih =>
    rw [parseLines] at h
    split at h
    · cases h
    · rw [ih _ _ h, List.length_cons]
      omega

theorem stripCr_append_of_ne_nil (s p : Bytes) (hp : p ≠ []) : stripCr (s ++ p) = s ++ stripCr p := by
  unfold stripCr
  rw [List.getLast?_append_of_ne_nil _ hp]
  split_ifs
  · rw [List.dropLast_append_of_ne_nil hp]
  · rfl

/-! ## a block that is accepted -/

/-- the non-empty lines behind the first one that is not empty -/
def headerLines (block : Bytes) : List Bytes := fullLines (strtokLines block).tail

/-- The first token of the block is an accepted request line, and the lines behind it have had their
effect. -/
structure AcceptedBlock (block : Bytes) (out : HttpRequest) : Prop where
  lines : ∃ first rest out0, strtokLines (cstr block) = first :: rest ∧
    parseRequestLine (CStr.ofBytes (stripCr first)) HttpRequest.zero = .ok out0 ∧
    LinesEffect (headerLines (cstr block)) out0 out
  method : out.method ≠ .unknown
  chunked : out.hasChunked = false

theorem parseHeaders_accepted (block : Bytes) (out : HttpRequest)
    (h : parseHeaders block = .ok out) : AcceptedBlock block out := by
  unfold parseHeaders at h
  cases hlines : parseLines HttpRequest.zero 0 (strtokLines (cstr block)) with
  | error e =>
    rw [hlines] at h
    cases h
  | ok result =>
    obtain ⟨out1, lineNo⟩ := result
    rw [hlines] at h
    simp only at h
    split_ifs at h with hno hm hc
    cases h
    refine ⟨?_, hm, by simpa using hc⟩
    have hnul : ∀ t ∈ strtokLines (cstr block), (0 : Byte) ∉ t := fun t ht h0 =>
      cstr_nulFree block (strtokLines_subset _ t ht h0)
    unfold headerLines
    cases htoks : strtokLines (cstr block) with
    | nil =>
      rw [htoks] at hlines
      cases hlines
      exact absurd rfl hno
    | cons first rest =>
      rw [htoks] at hlines hnul
      rw [parseLines] at hlines
      simp only [if_true] at hlines
      cases hfirst : parseRequestLine (CStr.ofBytes (stripCr first)) HttpRequest.zero with
      | error e =>
        rw [hfirst] at hlines
        cases hlines
      | ok out0 =>
        rw [hfirst] at hlines
        exact ⟨first, rest, out0, rfl, hfirst, parseLines_effect rest out0 _ 0 lineNo
          (fun t ht => hnul t (List.mem_cons_of_mem _ ht)) hlines⟩

/-- the bytes in front of the first CR LF CR LF -/
def headerBlock (s : Bytes) : Bytes :=
  match findTerminator s with
  | some e => s.take e
  | none => s

/-- **What `http_parse_request` accepts is a terminated block that is accepted.** -/
theorem httpParseRequest_accepted {cap : Nat} (mallocOk : Bool) (buf : Block cap) (len : Nat)
    (hlen : len ≤ cap) (out : HttpRequest) (h : httpParseRequest mallocOk buf len = some (.ok out)) :
    (∃ after, buf.bytes.take len = headerBlock (buf.bytes.take len) ++ crlf2 ++ after) ∧
      AcceptedBlock (headerBlock (buf.bytes.take len)) out := by
  unfold httpParseRequest at h
  by_cases hzero : len = 0
  · rw [if_pos hzero] at h
    cases h
  · rw [if_neg hzero, scanTerminator_eq buf len 0 hlen, List.drop_zero] at h
    unfold headerBlock
    cases hfind : findTerminator (buf.bytes.take len) with
    | none =>
      rw [hfind] at h
      cases h
    | some e =>
      have hb := findTerminator_bound _ _ hfind
      rw [buf.take_length len hlen] at hb
      rw [hfind] at h
      simp only [Option.map_some, Nat.add_zero] at h
      split at h
      · cases h
      · split at h
        · cases h
        · rw [buf.load_eq 0 e (by omega), List.drop_zero] at h
          have hparse : parseHeaders (buf.bytes.take e) = .ok out := Option.some.inj h
          have hsplit := findTerminator_split _ _ hfind
          simp only
          rw [List.take_take, min_eq_left (by omega)] at hsplit ⊢
          exact ⟨⟨_, hsplit⟩, parseHeaders_accepted _ _ hparse⟩

end CServer
