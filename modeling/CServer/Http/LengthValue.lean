import CServer.Http.Edits
import CServer.Lib.Strtol

/-!
# The value of a Content-Length line

* `readLength`        what `parse_header_line` makes of the value;
* `readLengths`       the values of several lines, one after the other;
* `PlainLength v n`   digits for `n`, and blanks behind them;
* `Accepts v n`, `Oversized v`   what the tests behind `strtol` let pass as `n`, and what they call
                      too large;
* `readLength_cases`  a value is accepted, too large, or a bad request;
* `readLengths_ok`, `readLengths_error`   the first value that is refused decides.
-/

namespace CServer

def readLength (value : Bytes) : Except ApiError Int :=
  let parsed := strtol value
  if parsed.range = true ∨ parsed.converted = false ∨ parsed.value.val < 0 ∨
      parsed.value.val > HTTP_MAX_BODY_SIZE then
    .error (if parsed.value.val > HTTP_MAX_BODY_SIZE then .payloadTooLarge else .badRequest)
  else if (parsed.stop.dropWhile fun c => isBlank c || c == cr) ≠ [] then .error .badRequest
  else .ok parsed.value.val

theorem parseContentLength_eq (value : Bytes) (out : HttpRequest) :
    parseContentLength value out = (readLength value).map fun n => out.setLength n := by
  unfold parseContentLength readLength
  simp only
  split_ifs <;> rfl

/-- the length so far and the values of the lines to come -/
def readLengths (n : Int) : List Bytes → Except ApiError Int
  | [] => .ok n
  | value :: values =>
    match readLength value with
    | .error e => .error e
    | .ok n => readLengths n values

/-! ## kinds of values -/

structure PlainLength (value : Bytes) (n : Int) : Prop where
  text : ∃ ds tail, value = ds ++ tail ∧ ds ≠ [] ∧ (∀ c ∈ ds, isDigit c = true) ∧
    (∀ c ∈ tail, isBlank c = true) ∧ (digitsValue ds : Int) = n

/-- white space, a sign, digits for `n` up to the limit, and blanks and carriage returns -/
def Accepts (value : Bytes) (n : Int) : Prop :=
  ∃ ws sign ds rest, IsNumber value ws sign ds rest ∧ signedValue sign ds = n ∧
    0 ≤ n ∧ n ≤ HTTP_MAX_BODY_SIZE ∧ ∀ c ∈ rest, isBlank c = true ∨ c = cr

/-- white space, a sign, digits for a number above the limit, and anything -/
def Oversized (value : Bytes) : Prop :=
  ∃ ws sign ds rest, IsNumber value ws sign ds rest ∧ HTTP_MAX_BODY_SIZE < signedValue sign ds

theorem isBlank_not_digit (c : Byte) (h : isBlank c = true) : isDigit c = false := by
  unfold isBlank at h
  rcases Bool.or_eq_true_iff.mp h with h | h
  · rw [beq_iff_eq.mp h]
    decide
  · rw [beq_iff_eq.mp h]
    decide

theorem PlainLength.isNumber {value : Bytes} {n : Int} (h : PlainLength value n) :
    ∃ ds tail, IsNumber value [] [] ds tail ∧ signedValue [] ds = n ∧ ∀ c ∈ tail, isBlank c = true := by
  obtain ⟨ds, tail, htext, hne, hds, htail, hn⟩ := h.text
  refine ⟨ds, tail, ⟨htext, by simp, .inl rfl, hne, hds, fun c hc => ?_⟩,
    (if_neg (by decide)).trans hn, htail⟩
  exact isBlank_not_digit c (htail c (List.mem_of_head? hc))

theorem PlainLength.nonneg {value : Bytes} {n : Int} (h : PlainLength value n) : 0 ≤ n := by
  obtain ⟨ds, _, _, _, _, _, rfl⟩ := h.text
  exact Int.natCast_nonneg _

theorem PlainLength.nulFree {value : Bytes} {n : Int} (h : PlainLength value n) :
    (0 : Byte) ∉ value := by
  obtain ⟨ds, tail, rfl, _, hds, htail, _⟩ := h.text
  intro hm
  rcases List.mem_append.mp hm with hm | hm
  · exact absurd (hds 0 hm) (by decide)
  · exact absurd (htail 0 hm) (by decide)

/-! ## one value -/

/-- **The verdict on a number depends on its integer and on what stops the digits.** -/
theorem IsNumber.readLength {value ws sign ds rest : Bytes} (h : IsNumber value ws sign ds rest) :
    readLength value =
      if HTTP_MAX_BODY_SIZE < signedValue sign ds then .error .payloadTooLarge
      else if signedValue sign ds < 0 ∨ ¬ ∀ c ∈ rest, isBlank c = true ∨ c = cr then
        .error .badRequest
      else .ok (signedValue sign ds) := by
  have hmax : (HTTP_MAX_BODY_SIZE : Int) = 65536 := rfl
  have hrest : (rest.dropWhile fun c => isBlank c || c == cr) ≠ [] ↔
      ¬ ∀ c ∈ rest, isBlank c = true ∨ c = cr := by
    rw [ne_eq, List.dropWhile_eq_nil_iff]
    simp only [Bool.or_eq_true, beq_iff_eq]
  generalize hn : signedValue sign ds = n at *
  unfold CServer.readLength
  simp only [h.strtol, hn]
  by_cases hhigh : HTTP_MAX_BODY_SIZE < n
  · rw [if_pos hhigh]
    have hval : (Long.clamp n).val > HTTP_MAX_BODY_SIZE := by
      by_cases hr : n < 2 ^ 63
      · rw [clamp_val n (by omega) hr]
        exact hhigh
      · rw [clamp_high n (by omega)]
        omega
    rw [if_pos (.inr (.inr (.inr hval))), if_pos hval]
  · rw [if_neg hhigh]
    by_cases hlow : n < 0
    · have hpos := (clamp_pos_iff n).not.mpr (by omega)
      have hval : ¬ (Long.clamp n).val > HTTP_MAX_BODY_SIZE := by omega
      have hbad : decide (n < -2 ^ 63 ∨ 2 ^ 63 ≤ n) = true ∨ true = false ∨
          (Long.clamp n).val < 0 ∨ (Long.clamp n).val > HTTP_MAX_BODY_SIZE := by
        by_cases hr : n < -2 ^ 63
        · exact .inl (decide_eq_true (.inl hr))
        · rw [clamp_val n (by omega) (by omega)]
          exact .inr (.inr (.inl hlow))
      rw [if_pos hbad, if_neg hval, if_pos (.inl hlow)]
    · have hval := clamp_val n (by omega) (by omega)
      rw [hval]
      have hgood : ¬ (decide (n < -2 ^ 63 ∨ 2 ^ 63 ≤ n) = true ∨ true = false ∨ n < 0 ∨
          n > HTTP_MAX_BODY_SIZE) := by
        rw [decide_eq_true_eq]
        simp only [Bool.true_eq_false, false_or]
        omega
      rw [if_neg hgood]
      by_cases hstop : ∀ c ∈ rest, isBlank c = true ∨ c = cr
      · rw [if_neg (fun h => hrest.mp h hstop), if_neg (not_or.mpr ⟨hlow, not_not.mpr hstop⟩)]
      · rw [if_pos (hrest.mpr hstop), if_pos (.inr hstop)]

theorem Accepts.read {value : Bytes} {n : Int} (h : Accepts value n) : readLength value = .ok n := by
  obtain ⟨ws, sign, ds, rest, hnum, rfl, h0, hmax, hrest⟩ := h
  rw [hnum.readLength, if_neg (by omega), if_neg (not_or.mpr ⟨by omega, not_not.mpr hrest⟩)]

theorem Oversized.read {value : Bytes} (h : Oversized value) :
    readLength value = .error .payloadTooLarge := by
  obtain ⟨ws, sign, ds, rest, hnum, hlarge⟩ := h
  rw [hnum.readLength, if_pos hlarge]

/-- **A value is accepted, too large, or a bad request.** -/
theorem readLength_cases (value : Bytes) :
    (∃ n, Accepts value n) ∨ Oversized value ∨ readLength value = .error .badRequest := by
  cases hc : (strtol value).converted with
  | false =>
    right
    right
    have hzero : (strtol value).value.val = 0 := by
      unfold strtol at hc ⊢
      simp only at hc ⊢
      split_ifs at hc ⊢
      exact clamp_val 0 (by decide) (by decide)
    unfold readLength
    simp only
    rw [if_pos (.inr (.inl hc)), if_neg (by rw [hzero]; decide)]
  | true =>
    obtain ⟨ws, sign, ds, hnum⟩ := strtol_isNumber value hc
    have hread := hnum.readLength
    split_ifs at hread with hlarge hbad
    · exact .inr (.inl ⟨_, _, _, _, hnum, hlarge⟩)
    · exact .inr (.inr hread)
    · rw [not_or, not_not] at hbad
      exact .inl ⟨_, _, _, _, _, hnum, rfl, by omega, by omega, hbad.2⟩

theorem readLength_ok (value : Bytes) (n : Int) : readLength value = .ok n ↔ Accepts value n := by
  refine ⟨fun h => ?_, Accepts.read⟩
  rcases readLength_cases value with ⟨m, hm⟩ | hl | hb
  · rw [hm.read] at h
    exact Except.ok.inj h ▸ hm
  · rw [hl.read] at h
    cases h
  · rw [hb] at h
    cases h

theorem readLength_tooLarge (value : Bytes) :
    readLength value = .error .payloadTooLarge ↔ Oversized value := by
  refine ⟨fun h => ?_, Oversized.read⟩
  rcases readLength_cases value with ⟨m, hm⟩ | hl | hb
  · rw [hm.read] at h
    cases h
  · exact hl
  · rw [hb] at h
    cases h

theorem PlainLength.accepts {value : Bytes} {n : Int} (h : PlainLength value n)
    (hn : n ≤ HTTP_MAX_BODY_SIZE) : Accepts value n := by
  obtain ⟨ds, tail, hnum, hv, htail⟩ := h.isNumber
  exact ⟨_, _, _, _, hnum, hv, h.nonneg, hn, fun c hc => .inl (htail c hc)⟩

theorem PlainLength.oversized {value : Bytes} {n : Int} (h : PlainLength value n)
    (hn : HTTP_MAX_BODY_SIZE < n) : Oversized value := by
  obtain ⟨ds, tail, hnum, hv, _⟩ := h.isNumber
  exact ⟨_, _, _, _, hnum, hv ▸ hn⟩

/-! ## several values -/

/-- all of them are accepted, and the last one counts -/
theorem readLengths_ok (n m : Int) (values : List Bytes) (h : readLengths n values = .ok m) :
    (∀ v ∈ values, ∃ k, Accepts v k) ∧
      ((values = [] ∧ m = n) ∨ ∃ v ∈ values, Accepts v m) := by
  induction values generalizing n with
  | nil =>
    cases h
    exact ⟨fun _ hv => (by cases hv), .inl ⟨rfl, rfl⟩⟩
  | cons value values ih =>
    rw [readLengths] at h
    cases hread : readLength value with
    | error e =>
      rw [hread] at h
      cases h
    | ok k =>
      rw [hread] at h
      have haccepts := (readLength_ok value k).mp hread
      obtain ⟨hall, hlast⟩ := ih k h
      refine ⟨fun v hv => ?_, .inr ?_⟩
      · rcases List.mem_cons.mp hv with rfl | hv
        · exact ⟨k, haccepts⟩
        · exact hall v hv
      · rcases hlast with ⟨_, rfl⟩ | ⟨v, hv, hm⟩
        · exact ⟨value, List.mem_cons_self, haccepts⟩
        · exact ⟨v, List.mem_cons_of_mem _ hv, hm⟩

/-- the first one that is refused decides -/
theorem readLengths_error (n : Int) (values : List Bytes) (e : ApiError) :
    readLengths n values = .error e ↔
      ∃ before v after, values = before ++ v :: after ∧ (∀ u ∈ before, ∃ k, Accepts u k) ∧
        readLength v = .error e := by
  constructor
  · intro h
    induction values generalizing n with
    | nil => cases h
    | cons value values ih =>
      rw [readLengths] at h
      cases hread : readLength value with
      | error e' =>
        rw [hread] at h
        cases h
        exact ⟨[], value, values, rfl, fun _ hu => (by cases hu), hread⟩
      | ok k =>
        rw [hread] at h
        obtain ⟨before, v, after, rfl, hbefore, hv⟩ := ih k h
        refine ⟨value :: before, v, after, rfl, fun u hu => ?_, hv⟩
        rcases List.mem_cons.mp hu with rfl | hu
        · exact ⟨k, (readLength_ok _ _).mp hread⟩
        · exact hbefore u hu
  · rintro ⟨before, v, after, rfl, hbefore, hv⟩
    induction before generalizing n with
    | nil => rw [List.nil_append, readLengths, hv]
    | cons u before ih =>
      obtain ⟨k, hk⟩ := hbefore u List.mem_cons_self
      rw [List.cons_append, readLengths, hk.read]
      exact ih k fun w hw => hbefore w (List.mem_cons_of_mem _ hw)

end CServer
