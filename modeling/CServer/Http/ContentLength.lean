import CServer.Http.LengthValue
import CServer.Http.RequestLine

/-!
# Content-Length lines

* `lengthValues`        the values of the Content-Length lines among some lines;
* `otherTexts`          the other lines;
* `parseLines_lengths`  the values act beside the other lines;
* `cutTexts`            the lines that `strtok_r` sees, which stops at a NUL;
* `OthersAccepted`      the block is accepted but for its Content-Length lines;
* `parseHeaders_lengths`   then the verdict on it is that on its values;
* `ExactLength`         the length is read exactly;
* `contentLength_iff`   the blocks in which it is.
-/

namespace CServer

/-- of a line without its carriage return -/
def isLength (line : Bytes) : Bool := isHeader "content-length" line && decide (colon ∈ line)

def lengthText (text : Bytes) : Bool := isLength (stripCr text)

def lengthValues (texts : List Bytes) : List Bytes :=
  (texts.filter lengthText).map fun t => headerValue (stripCr t)

def otherTexts (texts : List Bytes) : List Bytes := texts.filter fun t => !lengthText t

theorem isLength_iff (line : Bytes) :
    isLength line = true ↔ headerName line = ascii "content-length" ∧ colon ∈ line := by
  unfold isLength isHeader
  rw [Bool.and_eq_true, decide_eq_true_eq, decide_eq_true_eq]

/-! ## one line -/

theorem dropWhile_colon (line : Bytes) (h : colon ∈ line) :
    ∃ after, line.dropWhile (fun c => c != colon) = colon :: after := by
  cases hd : line.dropWhile fun c => c != colon with
  | nil =>
    have hall := List.dropWhile_eq_nil_iff.mp hd colon h
    exact absurd hall (by decide)
  | cons c after =>
    have hc := dropWhile_head (fun c => c != colon) line c (by rw [hd]; rfl)
    exact ⟨after, by rw [bne_eq_false_iff_eq.mp hc]⟩

/-- **A Content-Length line sets the length that its value gives.** -/
theorem parseHeaderLine_isLength (line : CStr) (out : HttpRequest) (h : isLength line.bytes = true) :
    parseHeaderLine line out =
      (readLength (headerValue line.bytes)).map fun n => out.setLength n := by
  obtain ⟨hname, hcolon⟩ := (isLength_iff _).mp h
  obtain ⟨after, hd⟩ := dropWhile_colon _ hcolon
  have hvalue : after.dropWhile isBlank = headerValue line.bytes := by
    unfold headerValue
    rw [hd]
    rfl
  have hfold : (line.bytes.takeWhile fun c => c != colon).map toLower = headerName line.bytes := rfl
  have hlen : (line.bytes.takeWhile fun c => c != colon).length = 14 := by
    have := congrArg List.length hname
    rw [← hfold, List.length_map] at this
    exact this
  unfold parseHeaderLine
  rw [hd]
  simp only [hfold, hvalue, hname, if_true]
  rw [if_neg (by omega)]
  exact parseContentLength_eq _ out

/-- any other line that is accepted leaves the length alone -/
theorem parseHeaderLine_other (line : CStr) (out out' : HttpRequest) (n : Int)
    (h : isLength line.bytes = false) (hparse : parseHeaderLine line out = .ok out') :
    parseHeaderLine line (out.setLength n) = .ok (out'.setLength n) := by
  have hname : headerName line.bytes ≠ ascii "content-length" := by
    intro hname
    have hcolon := (parseHeaderLine_ok _ _ _ hparse).name.colon
    rw [(isLength_iff _).mpr ⟨hname, hcolon⟩] at h
    cases h
  rw [parseHeaderLine_edit line out _ (setLength_edit n) fun hno => absurd hno hname, hparse]
  rfl

/-! ## the lines behind the first one -/

theorem ofBytes_stripCr (text : Bytes) (h : (0 : Byte) ∉ text) :
    (CStr.ofBytes (stripCr text)).bytes = stripCr text :=
  cstr_of_nulFree _ fun h0 => h (stripCr_subset text h0)

/-- **The values act one after the other, beside the other lines.** -/
theorem parseLines_lengths (texts : List Bytes) (out out' : HttpRequest) (k j m : Nat) (n : Int)
    (hnul : ∀ t ∈ texts, (0 : Byte) ∉ t)
    (hothers : parseLines out (j + 1) (otherTexts texts) = .ok (out', m)) :
    (parseLines (out.setLength n) (k + 1) texts).map Prod.fst =
      (readLengths n (lengthValues texts)).map fun n' => out'.setLength n' := by
  induction texts generalizing out k j n with
  | nil =>
    cases hothers
    rfl
  | cons text texts ih =>
    have hrest : ∀ t ∈ texts, (0 : Byte) ∉ t := fun t ht => hnul t (List.mem_cons_of_mem _ ht)
    have hline := ofBytes_stripCr text (hnul text List.mem_cons_self)
    rw [parseLines]
    simp only [Nat.add_one_ne_zero, if_false]
    by_cases hl : lengthText text = true
    · have hvalues : lengthValues (text :: texts) =
          headerValue (stripCr text) :: lengthValues texts := by
        unfold lengthValues
        rw [List.filter_cons_of_pos hl, List.map_cons]
      have hsame : otherTexts (text :: texts) = otherTexts texts :=
        List.filter_cons_of_neg (by rw [hl]; decide)
      have hfull : (CStr.ofBytes (stripCr text)).bytes ≠ [] := by
        rw [hline]
        exact List.ne_nil_of_mem ((isLength_iff _).mp hl).2
      rw [hsame] at hothers
      rw [hvalues, readLengths, if_pos hfull,
        parseHeaderLine_isLength _ _ (by rw [hline]; exact hl), hline]
      cases readLength (headerValue (stripCr text)) with
      | error e => rfl
      | ok n' => exact ih out (k + 1) j n' hrest hothers
    · have hl' : lengthText text = false := Bool.eq_false_iff.mpr hl
      have hvalues : lengthValues (text :: texts) = lengthValues texts := by
        unfold lengthValues
        rw [List.filter_cons_of_neg hl]
      have hsame : otherTexts (text :: texts) = text :: otherTexts texts :=
        List.filter_cons_of_pos (by rw [hl']; rfl)
      rw [hsame, parseLines] at hothers
      simp only [Nat.add_one_ne_zero, if_false] at hothers
      rw [hvalues]
      by_cases hfull : (CStr.ofBytes (stripCr text)).bytes ≠ []
      · rw [if_pos hfull] at hothers ⊢
        cases hparse : parseHeaderLine (CStr.ofBytes (stripCr text)) out with
        | error e =>
          rw [hparse] at hothers
          cases hothers
        | ok out1 =>
          rw [hparse] at hothers
          rw [parseHeaderLine_other _ _ _ n (by rw [hline]; exact hl') hparse]
          exact ih out1 (k + 1) (j + 1) n hrest hothers
      · rw [if_neg hfull] at hothers ⊢
        exact ih out (k + 1) (j + 1) n hrest hothers

/-! ## a NUL in a line -/

/-- A NUL in a Content-Length line is in its value. -/
theorem isLength_nul (line : Bytes) (h : isLength line = true) (h0 : (0 : Byte) ∈ line) :
    (0 : Byte) ∈ headerValue line := by
  obtain ⟨hname, hcolon⟩ := (isLength_iff _).mp h
  obtain ⟨after, hd⟩ := dropWhile_colon _ hcolon
  have hfront : (0 : Byte) ∉ line.takeWhile fun c => c != colon := by
    intro hm
    have hlow : toLower 0 ∈ headerName line := List.mem_map_of_mem hm
    rw [hname] at hlow
    exact absurd hlow (by decide)
  rw [← List.takeWhile_append_dropWhile (p := fun c => c != colon) (l := line), hd] at h0
  have hafter : (0 : Byte) ∈ after := by
    rcases List.mem_append.mp h0 with h0 | h0
    · exact absurd h0 hfront
    · rcases List.mem_cons.mp h0 with h0 | h0
      · exact absurd h0 (by decide)
      · exact h0
  have hvalue : after.dropWhile isBlank = headerValue line := by
    unfold headerValue
    rw [hd]
    rfl
  rw [← List.takeWhile_append_dropWhile (p := isBlank) (l := after)] at hafter
  rcases List.mem_append.mp hafter with hm | hm
  · exact absurd (List.mem_takeWhile_imp hm) (by decide)
  · rw [← hvalue]
    exact hm

theorem stripCr_mem (text : Bytes) (c : Byte) (hc : c ≠ cr) (h : c ∈ text) : c ∈ stripCr text := by
  rcases stripCr_cases text with he | he
  · rw [he]
    exact h
  · rw [he] at h
    rcases List.mem_append.mp h with h | h
    · exact h
    · exact absurd (List.mem_singleton.mp h) hc

/-- what stands behind a Content-Length line belongs to its value -/
theorem isLength_append (line more : Bytes) (h : isLength line = true) :
    isLength (line ++ more) = true := by
  obtain ⟨hname, hcolon⟩ := (isLength_iff _).mp h
  refine (isLength_iff _).mpr ⟨?_, List.mem_append_left _ hcolon⟩
  obtain ⟨after, hd⟩ := dropWhile_colon _ hcolon
  have hsplit := List.takeWhile_append_dropWhile (p := fun c => c != colon) (l := line)
  have htake : (line ++ more).takeWhile (fun c => c != colon) = line.takeWhile fun c => c != colon := by
    rw [← hsplit, hd, List.append_assoc, ← hd, hsplit, hd]
    have hall : ∀ c ∈ line.takeWhile (fun c => c != colon), (c != colon) = true := by
      intro c hc
      exact List.mem_takeWhile_imp (p := fun c => c != colon) hc
    exact takeWhile_run (fun c => c != colon) _ _ hall fun c hc => by cases hc; rfl
  unfold headerName at hname ⊢
  rw [htake]
  exact hname

/-- a Content-Length line that a NUL cuts off has the NUL in its value -/
theorem lengthText_cut (t : Bytes) (h0 : (0 : Byte) ∈ t) (h : lengthText (cstr t) = true) :
    lengthText t = true ∧ (0 : Byte) ∈ headerValue (stripCr t) := by
  have hsplit : cstr t ++ t.dropWhile (fun c => c != 0) = t := List.takeWhile_append_dropWhile
  have hd : t.dropWhile (fun c => c != 0) ≠ [] := by
    intro he
    exact absurd (List.dropWhile_eq_nil_iff.mp he 0 h0) (by decide)
  have hstrip : stripCr t = cstr t ++ stripCr (t.dropWhile fun c => c != 0) := by
    rw [← stripCr_append_of_ne_nil _ _ hd, hsplit]
  obtain ⟨more, hmore⟩ : ∃ more, stripCr t = stripCr (cstr t) ++ more := by
    rcases stripCr_cases (cstr t) with he | he
    · exact ⟨_, by rw [he]; exact hstrip⟩
    · refine ⟨[cr] ++ stripCr (t.dropWhile fun c => c != 0), ?_⟩
      rw [hstrip, ← List.append_assoc, ← he]
  have hl : lengthText t = true := by
    unfold lengthText
    rw [hmore]
    exact isLength_append _ _ h
  exact ⟨hl, isLength_nul _ hl (stripCr_mem t 0 (by decide) h0)⟩

/-! ## the block -/

/-- the values of the Content-Length lines behind the first line -/
def blockValues (block : Bytes) : List Bytes := lengthValues (strtokLines block).tail

/-- The values that the C string has are those of the block, but for one with a NUL. -/
theorem blockValues_cstr (block v : Bytes) (h : v ∈ blockValues (cstr block)) :
    v ∈ blockValues block ∨ ∃ w ∈ blockValues block, (0 : Byte) ∈ w := by
  unfold blockValues at h ⊢
  rw [strtokLines_cstr] at h
  obtain ⟨u, hu, rfl⟩ := List.mem_map.mp h
  obtain ⟨hmem, hl⟩ := List.mem_filter.mp hu
  rcases cutTexts_tail_mem _ _ hmem with hmem | ⟨t, ht, h0, rfl⟩
  · exact .inl (List.mem_map_of_mem (List.mem_filter.mpr ⟨hmem, hl⟩))
  · obtain ⟨hlt, hnul⟩ := lengthText_cut t h0 hl
    exact .inr ⟨_, List.mem_map_of_mem (List.mem_filter.mpr ⟨ht, hlt⟩), hnul⟩

/-- The C string of the block, without the Content-Length lines behind its first line, is
accepted. -/
structure OthersAccepted (block : Bytes) : Prop where
  lines : ∃ first rest out n, strtokLines (cstr block) = first :: rest ∧
    parseLines HttpRequest.zero 0 (first :: otherTexts rest) = .ok (out, n) ∧
    out.method ≠ .unknown ∧ out.hasChunked = false

/-- **The verdict on a block is that on its Content-Length values.** -/
theorem parseHeaders_lengths (block : Bytes) (h : OthersAccepted block) :
    ∃ out : HttpRequest, parseHeaders block =
      (readLengths (-1) (blockValues (cstr block))).map fun n => out.setLength n := by
  obtain ⟨first, rest, out, n, htexts, hothers, hmethod, hchunked⟩ := h.lines
  refine ⟨out, ?_⟩
  have hnul : ∀ t ∈ rest, (0 : Byte) ∉ t := by
    intro t ht h0
    apply cstr_nulFree block
    exact strtokLines_subset _ t (htexts ▸ List.mem_cons_of_mem _ ht) h0
  rw [parseLines] at hothers
  simp only [if_true] at hothers
  have hvalues : blockValues (cstr block) = lengthValues rest := by
    unfold blockValues
    rw [htexts]
    rfl
  unfold parseHeaders
  rw [htexts, hvalues, parseLines]
  simp only [if_true]
  cases hfirst : parseRequestLine (CStr.ofBytes (stripCr first)) HttpRequest.zero with
  | error e =>
    rw [hfirst] at hothers
    cases hothers
  | ok out0 =>
    rw [hfirst] at hothers
    have hstart : out0.setLength (-1) = out0 := by
      have hlen : out0.contentLength = -1 := parseRequestLine_length _ _ _ hfirst
      unfold HttpRequest.setLength
      rw [← hlen]
    have hrun := parseLines_lengths rest out0 out 0 0 n (-1) hnul hothers
    rw [hstart] at hrun
    rw [← hrun]
    dsimp only
    cases hlines : parseLines out0 (0 + 1) rest with
    | error e => rfl
    | ok result =>
      have hno := parseLines_lineNo _ _ _ _ hlines
      rw [hlines] at hrun
      cases hread : readLengths (-1) (lengthValues rest) with
      | error e =>
        rw [hread] at hrun
        cases hrun
      | ok m =>
        rw [hread] at hrun
        have hout : result.1 = out.setLength m := Except.ok.inj hrun
        show (if result.2 = 0 then _ else if result.1.method = .unknown then _
          else if result.1.hasChunked then _ else _) = Except.ok result.1
        rw [if_neg (by omega), hout]
        show (if out.method = .unknown then _ else if out.hasChunked then _ else _) = _
        rw [if_neg hmethod, hchunked]
        rfl

/-! ## the exact length -/

/-- the answers that the values call for, when they give no length -/
def CallsFor (values : List Bytes) (e : ApiError) : Prop :=
  e = .payloadTooLarge ∧ (∃ v ∈ values, ∃ n, PlainLength v n ∧ HTTP_MAX_BODY_SIZE < n) ∨
  e = .badRequest ∧ ((∃ v ∈ values, ∀ n, ¬ PlainLength v n) ∨
    ∃ v ∈ values, ∃ w ∈ values, ∃ n m, PlainLength v n ∧ PlainLength w m ∧
      n ≤ HTTP_MAX_BODY_SIZE ∧ m ≤ HTTP_MAX_BODY_SIZE ∧ n ≠ m)

/-- The result gives the number that all values are, `-1` without a value, and else an error that
the values call for. -/
structure ExactLength (values : List Bytes) (result : Except ApiError HttpRequest) : Prop where
  number : ∀ n : Int, 0 ≤ n → ((∃ out, result = .ok out ∧ out.contentLength = n) ↔
    values ≠ [] ∧ ∀ v ∈ values, PlainLength v n ∧ n ≤ HTTP_MAX_BODY_SIZE)
  absent : (∃ out, result = .ok out ∧ out.contentLength = -1) ↔ values = []
  range : ∀ out, result = .ok out → -1 ≤ out.contentLength
  errors : ∀ e, result = .error e → CallsFor values e

/-- `raw` are the values of the block, and `seen` those of its C string.

* If each seen value passes the tests behind `strtol`, then all values are one and the same plain
  number up to the limit, and one of them is seen if there are any.
* If the first seen value that does not pass is too large for `strtol`, then some value is a plain
  number above the limit. -/
structure ExactWhen (raw seen : List Bytes) : Prop where
  accepted : (∀ v ∈ seen, ∃ k, Accepts v k) →
    (∃ n : Int, n ≤ HTTP_MAX_BODY_SIZE ∧ ∀ v ∈ raw, PlainLength v n) ∧ (seen = [] → raw = [])
  tooLarge : ∀ before v after, seen = before ++ v :: after → (∀ u ∈ before, ∃ k, Accepts u k) →
    Oversized v → ∃ w ∈ raw, ∃ n, PlainLength w n ∧ HTTP_MAX_BODY_SIZE < n

theorem Accepts.unique {v : Bytes} {n m : Int} (hn : Accepts v n) (hm : Accepts v m) : n = m :=
  Except.ok.inj (hn.read.symm.trans hm.read)

theorem exactLength_ok (raw seen : List Bytes) (out : HttpRequest) (m : Int)
    (hseen : ∀ v ∈ seen, v ∈ raw ∨ ∃ w ∈ raw, (0 : Byte) ∈ w)
    (hread : readLengths (-1) seen = .ok m) :
    ExactLength raw (.ok (out.setLength m)) ↔ ExactWhen raw seen := by
  obtain ⟨haccepts, hlast⟩ := readLengths_ok (-1) m seen hread
  have hresult : ∀ n : Int, (∃ out', Except.ok (out.setLength m) = Except.ok (ε := ApiError) out' ∧
      out'.contentLength = n) ↔ m = n := by
    intro n
    constructor
    · rintro ⟨out', hout, rfl⟩
      cases hout
      rfl
    · rintro rfl
      exact ⟨_, rfl, rfl⟩
  have hrange : -1 ≤ m := by
    rcases hlast with ⟨_, rfl⟩ | ⟨v, _, hv⟩
    · exact le_rfl
    · obtain ⟨_, _, _, _, _, _, h0, _⟩ := hv
      omega
  constructor
  · intro h
    have hnumber := fun n hn => (hresult n).symm.trans (h.number n hn)
    have habsent := (hresult (-1)).symm.trans h.absent
    refine ⟨fun _ => ?_, fun before v after hsplit _ hv => ?_⟩
    · by_cases hm : m = -1
      · have hraw := habsent.mp hm
        exact ⟨⟨0, by decide, fun v hv => by rw [hraw] at hv; cases hv⟩, fun _ => hraw⟩
      · obtain ⟨hne, hall⟩ := (hnumber m (by omega)).mp rfl
        refine ⟨⟨m, ?_, fun v hv => (hall v hv).1⟩, fun hnil => ?_⟩
        · obtain ⟨v, hv⟩ := List.exists_mem_of_ne_nil raw hne
          exact (hall v hv).2
        · rcases hlast with ⟨_, he⟩ | ⟨v, hv, _⟩
          · exact absurd he hm
          · rw [hnil] at hv
            cases hv
    · obtain ⟨k, hk⟩ := haccepts v (by rw [hsplit]; exact List.mem_append_cons_self)
      rw [← readLength_tooLarge, hk.read] at hv
      cases hv
  · intro h
    obtain ⟨⟨n, hmax, hplain⟩, hhidden⟩ := h.accepted haccepts
    have hkeep : ∀ v ∈ seen, v ∈ raw := by
      intro v hv
      rcases hseen v hv with hmem | ⟨w, hw, h0⟩
      · exact hmem
      · exact absurd h0 (hplain w hw).nulFree
    have hvalue : raw ≠ [] → m = n := by
      intro hne
      rcases hlast with ⟨hnil, _⟩ | ⟨v, hv, hm⟩
      · exact absurd (hhidden hnil) hne
      · exact hm.unique ((hplain v (hkeep v hv)).accepts hmax)
    have hnone : raw = [] → m = -1 := by
      intro hraw
      rcases hlast with ⟨_, hm⟩ | ⟨v, hv, _⟩
      · exact hm
      · have := hkeep v hv
        rw [hraw] at this
        cases this
    refine ⟨fun k hk => (hresult k).trans ⟨?_, ?_⟩, (hresult (-1)).trans ⟨?_, hnone⟩, ?_, ?_⟩
    · rintro rfl
      have hne : raw ≠ [] := by
        intro hraw
        rw [hnone hraw] at hk
        omega
      exact ⟨hne, fun v hv => by rw [hvalue hne]; exact ⟨hplain v hv, hmax⟩⟩
    · rintro ⟨hne, hall⟩
      obtain ⟨v, hv⟩ := List.exists_mem_of_ne_nil raw hne
      obtain ⟨hvk, hk'⟩ := hall v hv
      rw [hvalue hne]
      exact ((hplain v hv).accepts hmax).unique (hvk.accepts hk')
    · intro hm
      by_contra hne
      obtain ⟨v, hv⟩ := List.exists_mem_of_ne_nil raw hne
      have hpos := (hplain v hv).nonneg
      rw [hvalue hne] at hm
      omega
    · intro out' hout
      cases hout
      exact hrange
    · intro e he
      cases he

/-- a bad request is no plain number -/
theorem badRequest_not_plain (v : Bytes) (n : Int) (h : readLength v = .error .badRequest) :
    ¬ PlainLength v n := by
  intro hplain
  by_cases hn : n ≤ HTTP_MAX_BODY_SIZE
  · rw [(hplain.accepts hn).read] at h
    cases h
  · rw [(hplain.oversized (by omega)).read] at h
    cases h

theorem exactLength_error (raw seen : List Bytes) (e : ApiError)
    (hseen : ∀ v ∈ seen, v ∈ raw ∨ ∃ w ∈ raw, (0 : Byte) ∈ w)
    (hread : readLengths (-1) seen = .error e) :
    ExactLength raw (.error e) ↔ ExactWhen raw seen := by
  obtain ⟨before, v, after, hsplit, hbefore, hv⟩ := (readLengths_error (-1) seen e).mp hread
  have hmem : v ∈ seen := by
    rw [hsplit]
    exact List.mem_append_cons_self
  have hrefused : ∀ k, ¬ Accepts v k := by
    intro k hk
    rw [hk.read] at hv
    cases hv
  constructor
  · intro h
    refine ⟨fun hall => ?_, fun before' v' after' hsplit' hbefore' hlarge => ?_⟩
    · obtain ⟨k, hk⟩ := hall v hmem
      exact absurd hk (hrefused k)
    · have hread' := (readLengths_error (-1) seen .payloadTooLarge).mpr
        ⟨before', v', after', hsplit', hbefore', hlarge.read⟩
      rw [hread] at hread'
      obtain rfl := Except.error.inj hread'
      rcases h.errors _ rfl with ⟨_, hcall⟩ | ⟨hbad, _⟩
      · exact hcall
      · cases hbad
  · intro h
    have hnotPlain : ∀ n : Int, n ≤ HTTP_MAX_BODY_SIZE → ¬ ∀ w ∈ raw, PlainLength w n := by
      intro n hn hall
      rcases hseen v hmem with hraw | ⟨w, hw, h0⟩
      · exact hrefused n ((hall v hraw).accepts hn)
      · exact (hall w hw).nulFree h0
    refine ⟨fun n _ => ⟨?_, ?_⟩, ⟨?_, ?_⟩, ?_, ?_⟩
    · rintro ⟨_, hout, _⟩
      cases hout
    · rintro ⟨hne, hall⟩
      obtain ⟨w, hw⟩ := List.exists_mem_of_ne_nil raw hne
      exact absurd (fun w hw => (hall w hw).1) (hnotPlain n (hall w hw).2)
    · rintro ⟨_, hout, _⟩
      cases hout
    · intro hraw
      exact absurd (fun w hw => by rw [hraw] at hw; cases hw) (hnotPlain 0 (by decide))
    · intro _ hout
      cases hout
    · intro e' he
      obtain rfl := Except.error.inj he
      rcases readLength_cases v with ⟨k, hk⟩ | hlarge | hbad
      · exact absurd hk (hrefused k)
      · rw [hlarge.read] at hv
        obtain rfl := Except.error.inj hv
        exact .inl ⟨rfl, h.tooLarge before v after hsplit hbefore hlarge⟩
      · rw [hbad] at hv
        obtain rfl := Except.error.inj hv
        refine .inr ⟨rfl, .inl ?_⟩
        rcases hseen v hmem with hraw | ⟨w, hw, h0⟩
        · exact ⟨v, hraw, fun n => badRequest_not_plain v n hbad⟩
        · exact ⟨w, hw, fun n hplain => hplain.nulFree h0⟩

/-- **The length is exact for the blocks of `ExactWhen`, and for no other block.** -/
theorem contentLength_iff {cap : Nat} (buf : Block cap) (len headerLen : Nat) (hlen : len ≤ cap)
    (hfind : findTerminator (buf.bytes.take len) = some headerLen)
    (hmax : headerLen < HTTP_MAX_HEADERS_SIZE)
    (hothers : OthersAccepted ((buf.bytes.take len).take headerLen)) :
    ∃ result, httpParseRequest true buf len = some result ∧
      (ExactLength (blockValues ((buf.bytes.take len).take headerLen)) result ↔
        ExactWhen (blockValues ((buf.bytes.take len).take headerLen))
          (blockValues (cstr ((buf.bytes.take len).take headerLen)))) := by
  refine ⟨_, httpParseRequest_eq true buf len headerLen hlen hmax hfind, ?_⟩
  generalize (buf.bytes.take len).take headerLen = block at *
  obtain ⟨out, hparse⟩ := parseHeaders_lengths block hothers
  rw [if_neg (by decide), hparse]
  cases hread : readLengths (-1) (blockValues (cstr block)) with
  | error e => exact exactLength_error _ _ e (blockValues_cstr block) hread
  | ok m => exact exactLength_ok _ _ out m (blockValues_cstr block) hread

/-! ## two blocks -/

/-- equal plain numbers up to the limit, none of them cut -/
theorem exactWhen_plain (values : List Bytes) (n : Int) (hn : n ≤ HTTP_MAX_BODY_SIZE)
    (h : ∀ v ∈ values, PlainLength v n) : ExactWhen values values := by
  refine ⟨fun _ => ⟨⟨n, hn, h⟩, id⟩, fun before v after hsplit _ hlarge => ?_⟩
  have hv : v ∈ values := by
    rw [hsplit]
    exact List.mem_append_cons_self
  have hread := ((h v hv).accepts hn).read
  rw [hlarge.read] at hread
  cases hread

def lengthGet (value : String) : Bytes :=
  ascii "GET / HTTP/1.1\r\nContent-Length: " ++ ascii value ++ ascii "\r\n\r\n"

/-- the block of `lengthGet` -/
def lengthBlock (value : String) : Bytes :=
  ascii "GET / HTTP/1.1\r\nContent-Length: " ++ ascii value

theorem lengthBlock_plain : OthersAccepted (lengthBlock "5") ∧ OthersAccepted (lengthBlock "+5") :=
  ⟨⟨ascii "GET / HTTP/1.1\r", [ascii "Content-Length: 5"], plainGet, 1,
      by decide +kernel, by decide +kernel, by decide, rfl⟩,
    ⟨ascii "GET / HTTP/1.1\r", [ascii "Content-Length: +5"], plainGet, 1,
      by decide +kernel, by decide +kernel, by decide, rfl⟩⟩

/-- `Content-Length: 5` -/
theorem contentLength_five :
    ∃ result, httpParseRequest true (textBlock (lengthGet "5")) 37 = some result ∧
      ExactLength [ascii "5"] result := by
  have htake : ((textBlock (lengthGet "5")).bytes.take 37).take 33 = lengthBlock "5" := by decide +kernel
  have hvalues : blockValues (lengthBlock "5") = [ascii "5"] ∧
      blockValues (cstr (lengthBlock "5")) = [ascii "5"] := by decide +kernel
  have hplain : PlainLength (ascii "5") 5 := ⟨ascii "5", [], by decide +kernel⟩
  obtain ⟨result, hresult, hexact⟩ := contentLength_iff (textBlock (lengthGet "5")) 37 33
    (by decide +kernel) (by decide +kernel) (by decide) (htake ▸ lengthBlock_plain.1)
  rw [htake, hvalues.1, hvalues.2] at hexact
  refine ⟨result, hresult, hexact.mpr (exactWhen_plain _ 5 (by decide) fun v hv => ?_)⟩
  rw [List.mem_singleton.mp hv]
  exact hplain

/-- **`Content-Length: +5` is accepted as five.** -/
theorem contentLength_signed :
    httpParseRequest true (textBlock (lengthGet "+5")) 38 = some (.ok (plainGet.setLength 5)) ∧
      OthersAccepted (lengthBlock "+5") ∧
      blockValues (lengthBlock "+5") = [ascii "+5"] ∧
      ¬ ExactLength [ascii "+5"] (.ok (plainGet.setLength 5)) := by
  refine ⟨by decide +kernel, lengthBlock_plain.2, by decide +kernel, fun h => ?_⟩
  obtain ⟨_, hall⟩ := (h.number 5 (by decide)).mp ⟨_, rfl, rfl⟩
  obtain ⟨ds, tail, htext, hne, hds, _⟩ := (hall _ List.mem_cons_self).1.text
  obtain ⟨d, ds, rfl⟩ := List.exists_cons_of_ne_nil hne
  have hhead : (43 : Byte) = d := (List.cons.inj htext).1
  have hdigit := hds d List.mem_cons_self
  rw [← hhead] at hdigit
  exact absurd hdigit (by decide)

end CServer
