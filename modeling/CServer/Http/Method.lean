import CServer.Http.Edits
import CServer.Http.Limits
import CServer.Http.RequestLine

/-!
# Requests that differ in their method

A request is a method token and a tail that begins with a blank: the target, the version, the
header lines and the body.

* `MethodToken`         up to seven bytes, no white space and no NUL among them;
* `tailFields`          what the lines of a tail say, the method apart;
* `parseHeaders_token`  the verdict on a header block, for each token;
* `HeadersFit`                the headers fit the buffer;
* `readStream_token`    the verdict on a stream, for each token.
-/

namespace CServer

structure MethodToken (token : Bytes) : Prop where
  ne : token ≠ []
  length : token.length ≤ 7
  word : Word token
  nul : (0 : Byte) ∉ token

theorem MethodToken.noLf {token : Bytes} (h : MethodToken token) : lf ∉ token := by
  intro hm
  have := h.word lf hm
  revert this
  decide

theorem MethodToken.noCr {token : Bytes} (h : MethodToken token) : cr ∉ token := by
  intro hm
  have := h.word cr hm
  revert this
  decide

theorem methods_token (m : Bytes) (h : m ∈ METHODS) : MethodToken m := by
  obtain ⟨hw, hne, hnul⟩ := methods_word m h
  have hlen := methods_length m h
  exact ⟨hne, by omega, hw, hnul⟩

/-! ## the request line -/

/-- **The request line of a token is that of `GET` with another method.** -/
theorem parseRequestLine_token (token p : Bytes) (ht : MethodToken token) (hp : p.head? = some space)
    (line get : CStr) (hline : line.bytes = token ++ p) (hget : get.bytes = ascii "GET" ++ p)
    (out : HttpRequest) :
    parseRequestLine line out =
      (parseRequestLine get out).map (HttpRequest.setMethod token) := by
  have hspace : ∀ c, p.head? = some c → isSpace c = true := by
    intro c hc
    rw [hp] at hc
    cases hc
    decide
  have hgetToken := methods_token (ascii "GET") (by decide)
  have hscan : ∀ t : Bytes, MethodToken t → scanWord 7 (t ++ p) = some (t, p) := by
    intro t h
    rw [scanWord_word 7 t p (by decide) h.ne h.word hspace, List.take_of_length_le h.length,
      List.drop_eq_nil_of_le h.length, List.nil_append]
  unfold parseRequestLine
  rw [hline, hget, hscan token ht, hscan _ hgetToken]
  simp only
  cases scanWord 2047 p with
  | none => rfl
  | some scanned =>
    obtain ⟨target, rest⟩ := scanned
    simp only
    cases scanWord 15 rest with
    | none => rfl
    | some scanned =>
      obtain ⟨version, rest⟩ := scanned
      simp only
      by_cases h1 : (ascii "HTTP/1.").isPrefixOf version = false
      · rw [if_pos h1, if_pos h1]
        rfl
      · rw [if_neg h1, if_neg h1]
        by_cases h2 : target = [] ∨ target.head? ≠ some 47
        · rw [if_pos h2, if_pos h2]
          rfl
        · rw [if_neg h2, if_neg h2]
          by_cases h3 : target.length ≥ HTTP_MAX_PATH_LEN
          · rw [if_pos h3, if_pos h3]
            rfl
          · rw [if_neg h3, if_neg h3]
            cases target.dropWhile fun c => c != 63 with
            | nil => rfl
            | cons c query =>
              simp only
              split_ifs
              · rfl
              · rfl

/-! ## the header block -/

/-- the bytes up to the first line feed, and the tokens behind it -/
theorem strtokLines_token (token s : Bytes) (ht : MethodToken token) :
    strtokLines (token ++ s) =
      (token ++ s.takeWhile fun c => c != lf) ::
        strtokLines ((s.dropWhile fun c => c != lf).drop 1) := by
  have hall : ∀ t : Bytes, MethodToken t → t ++ s.takeWhile (fun c => c != lf) ≠ [] := by
    intro t h he
    exact h.ne (List.append_eq_nil_iff.mp he).1
  have hline : lf ∉ token ++ s.takeWhile fun c => c != lf := by
    intro hm
    rcases List.mem_append.mp hm with hm | hm
    · exact ht.noLf hm
    · have := List.mem_takeWhile_imp hm
      revert this
      decide
  have hsplit := List.takeWhile_append_dropWhile (p := fun c => c != lf) (l := s)
  cases hd : s.dropWhile fun c => c != lf with
  | nil =>
    rw [hd, List.append_nil] at hsplit
    rw [hsplit] at hline ⊢
    rw [strtokLines_last _ hline (hsplit ▸ hall token ht)]
    rfl
  | cons c rest =>
    have hc : c = lf := by
      have hhead := List.head?_dropWhile_not (fun c => c != lf) s
      rw [hd] at hhead
      simpa using hhead
    rw [hd, hc] at hsplit
    have hs : token ++ s = (token ++ s.takeWhile fun c => c != lf) ++ lf :: rest := by
      rw [List.append_assoc, hsplit]
    rw [hs, strtokLines_line _ _ hline (hall token ht)]
    rfl

/-- what the lines of the block say with the method `GET` -/
def tailFields (block : Bytes) : Except ApiError HttpRequest :=
  (parseLines HttpRequest.zero 0 (strtokLines (cstr (ascii "GET" ++ block)))).map Prod.fst

theorem cstr_token (token block : Bytes) (ht : MethodToken token) :
    cstr (token ++ block) = token ++ cstr block :=
  List.takeWhile_append_of_pos fun _ hc => bne_iff_ne.mpr fun he => ht.nul (he ▸ hc)

theorem stripCr_head (p : Bytes) (hp : p.head? = some space) : (stripCr p).head? = some space := by
  cases p with
  | nil => cases hp
  | cons c p =>
    unfold stripCr
    split_ifs with hlast
    · cases p with
      | nil =>
        cases hp
        exact absurd hlast (by decide)
      | cons d p => exact hp
    · exact hp

/-- the lines of a block, for each token -/
theorem parseLines_token (token block : Bytes) (ht : MethodToken token)
    (hb : block.head? = some space) :
    parseLines HttpRequest.zero 0 (strtokLines (cstr (token ++ block))) =
      (parseLines HttpRequest.zero 0 (strtokLines (cstr (ascii "GET" ++ block)))).map
        fun result => (result.1.setMethod token, result.2) := by
  have hget := methods_token (ascii "GET") (by decide)
  obtain ⟨rest, rfl⟩ : ∃ rest, block = space :: rest := by
    cases block with
    | nil => cases hb
    | cons c rest =>
      cases hb
      exact ⟨rest, rfl⟩
  have hcstr : cstr (space :: rest) = space :: cstr rest := List.takeWhile_cons_of_pos (by decide)
  have hfirst : (cstr (space :: rest)).takeWhile (fun c => c != lf) =
      space :: (cstr rest).takeWhile fun c => c != lf := by
    rw [hcstr]
    exact List.takeWhile_cons_of_pos (by decide)
  generalize hp : (cstr (space :: rest)).takeWhile (fun c => c != lf) = p at *
  have hhead : p.head? = some space := by rw [hfirst]; rfl
  have hnul : (0 : Byte) ∉ stripCr p := by
    intro h0
    have hmem := stripCr_subset p h0
    rw [← hp] at hmem
    exact cstr_nulFree _ ((List.takeWhile_prefix _).subset hmem)
  have hbytes : ∀ t : Bytes, MethodToken t →
      (CStr.ofBytes (stripCr (t ++ p))).bytes = t ++ stripCr p := by
    intro t h
    rw [CStr.ofBytes_bytes, stripCr_append_of_ne_nil t p (by rw [hfirst]; exact List.cons_ne_nil _ _)]
    exact cstr_of_nulFree _ fun h0 => (List.mem_append.mp h0).elim h.nul hnul
  rw [cstr_token _ _ ht, cstr_token _ _ hget, strtokLines_token _ _ ht, strtokLines_token _ _ hget, hp]
  rw [parseLines, parseLines]
  simp only [if_true]
  rw [parseRequestLine_token token (stripCr p) ht (stripCr_head p hhead) _ _ (hbytes token ht)
    (hbytes _ hget)]
  cases parseRequestLine (CStr.ofBytes (stripCr (ascii "GET" ++ p))) HttpRequest.zero with
  | error e => rfl
  | ok out => exact parseLines_edit _ out 0 _ (setMethod_edit token) fun _ _ => rfl

/-- **The verdict on a header block, for each token.** -/
theorem parseHeaders_token (token block : Bytes) (ht : MethodToken token)
    (hb : block.head? = some space) :
    parseHeaders (token ++ block) =
      match tailFields block with
      | .error e => .error e
      | .ok out =>
        if methodFromString token = .unknown then .error .methodNotAllowed
        else if out.hasChunked then .error .notImplemented
        else .ok (out.setMethod token) := by
  have hget := methods_token (ascii "GET") (by decide)
  unfold parseHeaders tailFields
  rw [parseLines_token token block ht hb]
  cases hlines : parseLines HttpRequest.zero 0 (strtokLines (cstr (ascii "GET" ++ block))) with
  | error e => rfl
  | ok result =>
    have hno : result.2 ≠ 0 := by
      have hlen := parseLines_lineNo _ _ _ _ hlines
      rw [cstr_token _ _ hget, strtokLines_token _ _ hget, List.length_cons] at hlen
      omega
    show (if result.2 = 0 then _ else _) = _
    rw [if_neg hno]
    rfl

/-! ## the stream -/

theorem findTerminator_token (token tail : Bytes) (h : cr ∉ token) :
    findTerminator (token ++ tail) = (findTerminator tail).map fun e => token.length + e := by
  induction token with
  | nil =>
    have hid : (fun e : Nat => ([] : Bytes).length + e) = id := by
      funext e
      exact Nat.zero_add e
    rw [List.nil_append, hid, Option.map_id_fun, id]
  | cons c token ih =>
    rw [List.mem_cons, not_or] at h
    have hne : ((c :: token) ++ tail).take 4 ≠ crlf2 := by
      intro he
      have hhead := congrArg List.head? he
      exact h.1 (Option.some.inj hhead).symm
    rw [List.cons_append] at hne ⊢
    rw [findTerminator, if_neg hne, ih h.2, Option.map_map, List.length_cons]
    congr 1
    funext e
    show token.length + e + 1 = token.length + 1 + e
    omega

/-- the headers of the stream fit the header buffer -/
def HeadersFit (stream : Bytes) : Prop :=
  ∃ e, findTerminator stream = some e ∧ e + 4 < HTTP_MAX_HEADERS_SIZE

/-- the terminator of a stream that fits is in its tail -/
theorem HeadersFit.terminator {token tail : Bytes} (ht : MethodToken token)
    (h : HeadersFit (token ++ tail)) : ∃ e, findTerminator tail = some e := by
  obtain ⟨e', he', _⟩ := h
  rw [findTerminator_token token tail ht.noCr] at he'
  obtain ⟨e, he, _⟩ := Option.map_eq_some_iff.mp he'
  exact ⟨e, he⟩

theorem readStream_unfit (mallocOk : Bool) (stream : Bytes) (h : ¬ HeadersFit stream) :
    readStream mallocOk stream = .error .badRequest := by
  apply readStream_beyond
  intro e he
  by_contra hlt
  exact h ⟨e, he, by omega⟩

/-- **The verdict on a stream that fits, for each token.** -/
theorem readStream_token (mallocOk : Bool) (token tail : Bytes) (e : Nat) (ht : MethodToken token)
    (hs : tail.head? = some space) (he : findTerminator tail = some e) (hfit : HeadersFit (token ++ tail)) :
    readStream mallocOk (token ++ tail) =
      if mallocOk = false then .error .internal
      else
        match tailFields (tail.take e) with
        | .error e => .error e
        | .ok out =>
          if methodFromString token = .unknown then .error .methodNotAllowed
          else if out.hasChunked then .error .notImplemented
          else takeBody (out.setMethod token) (tail.drop (e + 4)) := by
  have hfind := findTerminator_token token tail ht.noCr
  rw [he] at hfind
  obtain ⟨e', he', hlt⟩ := hfit
  rw [hfind] at he'
  obtain rfl := Option.some.inj he'
  have hpos : (tail.take e).head? = some space := by
    cases e with
    | zero =>
      have hspec := (findTerminator_spec tail 0 he).1
      rw [List.drop_zero] at hspec
      have hhead := congrArg List.head? hspec
      rw [List.head?_take, if_neg (by decide), hs] at hhead
      exact absurd hhead (by decide)
    | succ e =>
      rw [List.head?_take, if_neg (by omega)]
      exact hs
  obtain ⟨parsed, hparsed, hread⟩ := readStream_at mallocOk (token ++ tail) _ hfind hlt
  rw [parseBlock_eq mallocOk _ _ hfind (by omega)] at hparsed
  rw [hread, ← Option.some.inj hparsed]
  have htake : (token ++ tail).take (token.length + e) = token ++ tail.take e := by
    rw [List.take_length_add_append]
  have hdrop : (token ++ tail).drop (token.length + e + 4) = tail.drop (e + 4) := by
    rw [Nat.add_assoc, List.drop_length_add_append]
  rw [htake, hdrop, parseHeaders_token token _ ht hpos]
  cases mallocOk with
  | false => rfl
  | true =>
    show Except.bind (match tailFields (tail.take e) with | .error e => _ | .ok out => _) _ = _
    cases tailFields (tail.take e) with
    | error e => rfl
    | ok out =>
      simp only [Bool.true_eq_false, if_false]
      split_ifs <;> rfl

/-! ## another method -/

theorem parseRequestLine_error (line : CStr) (out : HttpRequest) (e : ApiError)
    (h : parseRequestLine line out = .error e) : e = .badRequest := by
  rcases parseRequestLine_cases line out with herror | ⟨_, _, _, _, hok⟩
  · rw [herror] at h
    exact (Except.error.inj h).symm
  · rw [hok] at h
    cases h

theorem parseHeaderLine_error (line : CStr) (out : HttpRequest) (e : ApiError)
    (h : parseHeaderLine line out = .error e) : e = .badRequest ∨ e = .payloadTooLarge := by
  unfold parseHeaderLine at h
  split at h
  · cases h
    exact .inl rfl
  · simp only at h
    split_ifs at h
    · cases h
      exact .inl rfl
    · unfold parseContentLength at h
      simp only at h
      split_ifs at h
      · cases h
        exact .inr rfl
      · cases h
        exact .inl rfl
      · cases h
        exact .inl rfl

theorem parseLines_error (texts : List Bytes) (out : HttpRequest) (k : Nat) (e : ApiError)
    (h : parseLines out k texts = .error e) : e = .badRequest ∨ e = .payloadTooLarge := by
  induction texts generalizing out k with
  | nil => cases h
  | cons text texts ih =>
    rw [parseLines] at h
    split at h
    · next e' hline =>
      cases h
      split_ifs at hline
      · exact .inl (parseRequestLine_error _ _ _ hline)
      · exact parseHeaderLine_error _ _ _ hline
    · exact ih _ _ h

theorem tailFields_error (block : Bytes) (e : ApiError) (h : tailFields block = .error e) :
    e = .badRequest ∨ e = .payloadTooLarge := by
  unfold tailFields at h
  cases hlines : parseLines HttpRequest.zero 0 (strtokLines (cstr (ascii "GET" ++ block))) with
  | error e' =>
    rw [hlines] at h
    cases h
    exact parseLines_error _ _ _ _ hlines
  | ok result =>
    rw [hlines] at h
    cases h

theorem methodFromString_methods (m : Bytes) (h : m ∈ METHODS) : methodFromString m ≠ .unknown := by
  have hall : ∀ m ∈ METHODS, methodFromString m ≠ .unknown := by decide
  exact hall m h

theorem takeBody_setMethod (token : Bytes) (out : HttpRequest) (rest : Bytes) :
    takeBody (out.setMethod token) rest = (takeBody out rest).map (HttpRequest.setMethod token) := by
  have hneed : (out.setMethod token).need = out.need := rfl
  unfold takeBody
  rw [hneed]
  split_ifs <;> rfl

section
variable (mallocOk : Bool) (token tail : Bytes) (ht : MethodToken token)
  (hs : tail.head? = some space)
include ht hs

/-- what an accepted stream says but for its method -/
theorem readStream_accepted (out : HttpRequest) (h : readStream mallocOk (token ++ tail) = .ok out) :
    methodFromString token ≠ .unknown ∧ mallocOk = true ∧
      ∃ e fields taken, findTerminator tail = some e ∧ tailFields (tail.take e) = .ok fields ∧
        fields.hasChunked = false ∧ takeBody fields (tail.drop (e + 4)) = .ok taken ∧
        out = taken.setMethod token := by
  by_cases hfit : HeadersFit (token ++ tail)
  · obtain ⟨e, he⟩ := hfit.terminator ht
    rw [readStream_token mallocOk token tail e ht hs he hfit] at h
    cases mallocOk with
    | false => cases h
    | true =>
      simp only [Bool.true_eq_false, if_false] at h
      cases hfields : tailFields (tail.take e) with
      | error x =>
        rw [hfields] at h
        cases h
      | ok fields =>
        rw [hfields] at h
        simp only at h
        split_ifs at h with hm hc
        rw [takeBody_setMethod] at h
        cases hbody : takeBody fields (tail.drop (e + 4)) with
        | error x =>
          rw [hbody] at h
          cases h
        | ok taken =>
          rw [hbody] at h
          cases h
          exact ⟨hm, rfl, e, fields, taken, he, hfields, by simpa using hc, hbody, rfl⟩
  · rw [readStream_unfit mallocOk _ hfit] at h
    cases h

/-- **Another token in front of an accepted tail: the same request with its method, or an unknown
method.** -/
theorem readStream_exchange (token' : Bytes) (ht' : MethodToken token') (hfit : HeadersFit (token' ++ tail))
    (out : HttpRequest) (h : readStream mallocOk (token ++ tail) = .ok out) :
    readStream mallocOk (token' ++ tail) =
      if methodFromString token' = .unknown then .error .methodNotAllowed
      else .ok (out.setMethod token') := by
  obtain ⟨_, rfl, e, fields, taken, he, hfields, hchunked, hbody, rfl⟩ :=
    readStream_accepted mallocOk token tail ht hs out h
  rw [readStream_token true token' tail e ht' hs he hfit, hfields]
  simp only [Bool.true_eq_false, if_false, hchunked]
  rw [takeBody_setMethod, hbody]
  rfl

theorem readStream_known (hknown : token ∈ METHODS) :
    readStream mallocOk (token ++ tail) ≠ .error .methodNotAllowed := by
  intro h
  by_cases hfit : HeadersFit (token ++ tail)
  · obtain ⟨e, he⟩ := hfit.terminator ht
    rw [readStream_token mallocOk token tail e ht hs he hfit] at h
    cases mallocOk with
    | false => cases h
    | true =>
      simp only [Bool.true_eq_false, if_false] at h
      cases hfields : tailFields (tail.take e) with
      | error x =>
        rw [hfields] at h
        cases h
        rcases tailFields_error _ _ hfields with hx | hx <;> cases hx
      | ok fields =>
        rw [hfields] at h
        simp only [if_neg (methodFromString_methods token hknown)] at h
        unfold takeBody at h
        split_ifs at h <;> cases h
  · rw [readStream_unfit mallocOk _ hfit] at h
    cases h

end

end CServer
