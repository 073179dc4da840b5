import CServer.Http.Read

/-!
# The limit on the headers

The header buffer has room for one byte less than `HTTP_MAX_HEADERS_SIZE`, so the terminator has to
end within `HTTP_MAX_HEADERS_SIZE - 1` bytes.

* `OneLimit`        the documented limit: a block that begins its terminator below it is parsed, a
                    longer one is too large;
* `InsideLimit`     the streams on which the function keeps to it;
* `readStream_at`   a terminator that ends inside the buffer;
* `readStream_beyond`   no terminator that does: a bad request;
* `headerLimit_iff`     the function keeps to the limit exactly inside.
-/

namespace CServer

/-! ## the documented limit -/

/-- a buffer with the block in front of the terminator at `e`, and the terminator -/
def blockBuffer (stream : Bytes) (e : Nat) : Block (stream.take (e + 4)).length :=
  ⟨stream.take (e + 4), rfl⟩

/-- what `http_parse_request` decides about the block -/
def parseBlock (mallocOk : Bool) (stream : Bytes) (e : Nat) : Option (Except ApiError HttpRequest) :=
  httpParseRequest mallocOk (blockBuffer stream e) (stream.take (e + 4)).length

structure OneLimit (mallocOk : Bool) (stream : Bytes) (result : Except ApiError HttpRequest) :
    Prop where
  below : ∀ e, findTerminator stream = some e → e < HTTP_MAX_HEADERS_SIZE →
    ∃ parsed, parseBlock mallocOk stream e = some parsed ∧
      result = parsed.bind fun out => takeBody out (stream.drop (e + 4))
  above : HTTP_MAX_HEADERS_SIZE ≤ stream.length →
    (∀ e, findTerminator stream = some e → HTTP_MAX_HEADERS_SIZE ≤ e) →
    result = .error .payloadTooLarge

/-- a block that is a bad request of its own, or announces more of a body than arrives -/
def RefusedAnyway (mallocOk : Bool) (stream : Bytes) (e : Nat) : Prop :=
  parseBlock mallocOk stream e = some (.error .badRequest) ∨
    ∃ out, parseBlock mallocOk stream e = some (.ok out) ∧ (stream.drop (e + 4)).length < out.need

structure InsideLimit (mallocOk : Bool) (stream : Bytes) : Prop where
  below : ∀ e, findTerminator stream = some e → e < HTTP_MAX_HEADERS_SIZE →
    e + 4 < HTTP_MAX_HEADERS_SIZE ∨ RefusedAnyway mallocOk stream e
  above : stream.length < HTTP_MAX_HEADERS_SIZE ∨
    ∃ e, findTerminator stream = some e ∧ e < HTTP_MAX_HEADERS_SIZE

/-! ## the terminator in the window -/

theorem findTerminator_none (p : Bytes) (h : findTerminator p = none) (j : Nat) :
    (p.drop j).take 4 ≠ crlf2 := by
  induction p generalizing j with
  | nil =>
    rw [List.drop_nil, List.take_nil]
    decide
  | cons c p ih =>
    rw [findTerminator] at h
    by_cases hc : (c :: p).take 4 = crlf2
    · rw [if_pos hc] at h
      cases h
    · rw [if_neg hc] at h
      cases j with
      | zero => exact hc
      | succ j => exact ih (Option.map_eq_none_iff.mp h) j

/-- a window that the terminator ends in -/
theorem findTerminator_take (p : Bytes) (e n : Nat) (h : findTerminator p = some e)
    (hn : e + 4 ≤ n) : findTerminator (p.take n) = some e := by
  cases hw : findTerminator (p.take n) with
  | some e' =>
    have hsame := findTerminator_append _ (p.drop n) _ hw
    rw [List.take_append_drop, h] at hsame
    exact hsame.symm
  | none =>
    have hspec := (findTerminator_spec p e h).1
    have hno := findTerminator_none _ hw e
    rw [List.drop_take, List.take_take, min_eq_left (by omega)] at hno
    exact absurd hspec hno

/-- a window that it does not end in -/
theorem findTerminator_take_none (p : Bytes) (n : Nat)
    (h : ∀ e, findTerminator p = some e → n < e + 4) : findTerminator (p.take n) = none := by
  cases hw : findTerminator (p.take n) with
  | none => rfl
  | some e =>
    have hb := findTerminator_bound _ _ hw
    rw [List.length_take] at hb
    have hsame := findTerminator_append _ (p.drop n) _ hw
    rw [List.take_append_drop] at hsame
    have hlt := h e hsame
    omega

theorem parseBlock_eq (mallocOk : Bool) (stream : Bytes) (e : Nat)
    (h : findTerminator stream = some e) (he : e < HTTP_MAX_HEADERS_SIZE) :
    parseBlock mallocOk stream e =
      some (if mallocOk = false then .error .internal else parseHeaders (stream.take e)) := by
  have hfind : findTerminator ((blockBuffer stream e).bytes.take (stream.take (e + 4)).length) =
      some e := by
    rw [show (blockBuffer stream e).bytes = stream.take (e + 4) from rfl, List.take_length]
    exact findTerminator_take _ _ _ h le_rfl
  unfold parseBlock
  rw [httpParseRequest_eq mallocOk _ _ e le_rfl he hfind]
  rw [show (blockBuffer stream e).bytes = stream.take (e + 4) from rfl, List.take_length,
    List.take_take, min_eq_left (by omega)]

/-! ## what the function does -/

/-- **A terminator that ends inside the buffer: the block is parsed, and the body is taken.** -/
theorem readStream_at (mallocOk : Bool) (stream : Bytes) (e : Nat)
    (h : findTerminator stream = some e) (he : e + 4 < HTTP_MAX_HEADERS_SIZE) :
    ∃ parsed, parseBlock mallocOk stream e = some parsed ∧
      readStream mallocOk stream = parsed.bind fun out => takeBody out (stream.drop (e + 4)) := by
  refine ⟨_, parseBlock_eq mallocOk stream e h (by omega), ?_⟩
  unfold readStream
  rw [findTerminator_take stream e _ h (by omega)]
  cases mallocOk with
  | false => rfl
  | true =>
    simp only [Bool.true_eq_false, if_false]
    cases parseHeaders (stream.take e) <;> rfl

/-- **No terminator ends inside the buffer: a bad request, whatever the length.** -/
theorem readStream_beyond (mallocOk : Bool) (stream : Bytes)
    (h : ∀ e, findTerminator stream = some e → HTTP_MAX_HEADERS_SIZE ≤ e + 4) :
    readStream mallocOk stream = .error .badRequest := by
  have hpos : 0 < HTTP_MAX_HEADERS_SIZE := by decide
  unfold readStream
  rw [findTerminator_take_none stream _ fun e he => by have := h e he; omega]

theorem takeBody_badRequest (out : HttpRequest) (rest : Bytes) :
    takeBody out rest = .error .badRequest ↔ rest.length < out.need := by
  unfold takeBody
  split_ifs with h
  · exact ⟨fun _ => h, fun _ => rfl⟩
  · exact ⟨fun he => (by cases he), fun hlt => absurd hlt h⟩

/-- **`http_read_request` keeps to the limit exactly on the streams inside it:** those whose first
terminator ends within `HTTP_MAX_HEADERS_SIZE - 1` bytes, or whose block is refused as a bad request
anyway, or that end before the limit. -/
theorem headerLimit_iff (mallocOk : Bool) (headerBuf : Block HTTP_MAX_HEADERS_SIZE)
    (bodyBuf : Block HTTP_MAX_BODY_SIZE) (s : Socket) :
    ∃ result, httpReadRequest mallocOk headerBuf bodyBuf s = some result ∧
      (OneLimit mallocOk s.stream result ↔ InsideLimit mallocOk s.stream) := by
  refine ⟨_, httpReadRequest_eq mallocOk headerBuf bodyBuf s, ?_⟩
  have hbeyond := readStream_beyond mallocOk s.stream
  constructor
  · intro h
    refine ⟨fun e hfind he => ?_, ?_⟩
    · by_cases hend : e + 4 < HTTP_MAX_HEADERS_SIZE
      · exact .inl hend
      · right
        obtain ⟨parsed, hparsed, hresult⟩ := h.below e hfind he
        rw [hbeyond fun e' he' => by rw [hfind] at he'; cases he'; omega] at hresult
        cases parsed with
        | error e' =>
          rw [← show Except.error ApiError.badRequest = Except.error e' from hresult] at hparsed
          exact .inl hparsed
        | ok out => exact .inr ⟨out, hparsed, (takeBody_badRequest out _).mp hresult.symm⟩
    · by_contra hout
      rw [not_or, Nat.not_lt] at hout
      have hlate : ∀ e, findTerminator s.stream = some e → HTTP_MAX_HEADERS_SIZE ≤ e :=
        fun e hfind => Nat.not_lt.mp fun hlt => hout.2 ⟨e, hfind, hlt⟩
      have hlarge := h.above hout.1 hlate
      rw [hbeyond fun e hfind => le_trans (hlate e hfind) (by omega)] at hlarge
      cases hlarge
  · intro h
    refine ⟨fun e hfind he => ?_, fun hlen hlate => ?_⟩
    · rcases h.below e hfind he with hend | hrefused
      · exact readStream_at mallocOk s.stream e hfind hend
      · by_cases hend : e + 4 < HTTP_MAX_HEADERS_SIZE
        · exact readStream_at mallocOk s.stream e hfind hend
        · rw [hbeyond fun e' he' => by rw [hfind] at he'; cases he'; omega]
          rcases hrefused with hbad | ⟨out, hok, hshort⟩
          · exact ⟨_, hbad, rfl⟩
          · exact ⟨_, hok, ((takeBody_badRequest out _).mpr hshort).symm⟩
    · rcases h.above with hshort | ⟨e, hfind, hlt⟩
      · omega
      · have hle := hlate e hfind
        omega

/-! ## a request that is too large -/

/-- 16384 bytes without a terminator, in one piece -/
def longHeaders : Socket := ⟨[.data (List.replicate 16384 97) (by decide)], .closed⟩

theorem longHeaders_stream : longHeaders.stream = List.replicate 16384 97 := List.append_nil _

theorem findTerminator_replicate (n : Nat) : findTerminator (List.replicate n 97) = none := by
  induction n with
  | zero => rfl
  | succ n ih =>
    have hne : (List.replicate (n + 1) (97 : Byte)).take 4 ≠ crlf2 := by
      intro he
      have hhead := congrArg List.head? he
      cases hhead
    rw [List.replicate_succ, findTerminator, ← List.replicate_succ, if_neg hne, ih]
    rfl

/-- 16384 bytes of headers are answered as a bad request, not as too large -/
theorem longHeaders_badRequest :
    httpReadRequest true (Block.zero HTTP_MAX_HEADERS_SIZE) (Block.zero HTTP_MAX_BODY_SIZE)
        longHeaders = some (.error .badRequest) ∧
      ¬ OneLimit true longHeaders.stream (.error .badRequest) := by
  have hnone := findTerminator_replicate 16384
  constructor
  · rw [httpReadRequest_eq, longHeaders_stream]
    rw [readStream_beyond true _ fun e he => by rw [hnone] at he; cases he]
  · intro h
    have hlen : HTTP_MAX_HEADERS_SIZE ≤ longHeaders.stream.length := by
      rw [longHeaders_stream, List.length_replicate]
      exact le_rfl
    have hlarge := h.above hlen fun e he => by
      rw [longHeaders_stream, hnone] at he
      cases he
    cases hlarge

end CServer
