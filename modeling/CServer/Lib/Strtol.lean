import CServer.Lib.CScan

/-!
# The numbers that `strtol` reads

* `IsNumber`            a text as white space, a sign, digits and what stops the digits;
* `IsNumber.strtol`     `strtol` reads it, and saturates;
* `strtol_isNumber`     `strtol` reads nothing else;
* `clamp_val`, `clamp_high`   what the range of `long` makes of an integer.
-/

namespace CServer

theorem dropWhile_head (p : Byte → Bool) (s : Bytes) (c : Byte)
    (h : (s.dropWhile p).head? = some c) : p c = false := by
  have hne : s.dropWhile p ≠ [] := by
    intro hnil
    rw [hnil] at h
    cases h
  have hnot := List.head_dropWhile_not p hne
  rw [List.head?_eq_some_head hne] at h
  rw [← Option.some.inj h]
  exact hnot

/-! ## numbers -/

/-- white space, an optional sign and at least one digit, as far as the digits go -/
structure IsNumber (s ws sign ds rest : Bytes) : Prop where
  text : s = ws ++ (sign ++ (ds ++ rest))
  white : ∀ c ∈ ws, isSpace c = true
  sign : sign = [] ∨ sign = [43] ∨ sign = [45]
  nonempty : ds ≠ []
  digits : ∀ c ∈ ds, isDigit c = true
  stops : ∀ c, rest.head? = some c → isDigit c = false

/-- the integer that the sign and the digits denote -/
def signedValue (sign ds : Bytes) : Int :=
  if sign = [45] then -(digitsValue ds : Int) else (digitsValue ds : Int)

theorem isDigit_not_space (c : Byte) (h : isDigit c = true) : isSpace c = false ∧ c ≠ 45 ∧ c ≠ 43 := by
  revert h
  unfold isDigit isSpace
  simp only [Bool.and_eq_true, decide_eq_true_eq, Bool.or_eq_false_iff, beq_eq_false_iff_ne,
    Bool.and_eq_false_iff, decide_eq_false_iff_not, UInt8.le_iff_toNat_le, ne_eq,
    ← UInt8.toNat_inj]
  rintro ⟨h1, h2⟩
  have e1 : (48 : Byte).toNat = 48 := rfl
  have e2 : (57 : Byte).toNat = 57 := rfl
  have e3 : (13 : Byte).toNat = 13 := rfl
  have e4 : space.toNat = 32 := rfl
  have e5 : (45 : Byte).toNat = 45 := rfl
  have e6 : (43 : Byte).toNat = 43 := rfl
  omega

section
variable {s ws sign ds rest : Bytes}

/-- what `strtol` does with the sign in front of the digits -/
theorem IsNumber.strtolSign (h : IsNumber s ws sign ds rest) :
    strtolSign (sign ++ (ds ++ rest)) = (decide (sign = [45]), ds ++ rest) := by
  rcases h.sign with rfl | rfl | rfl
  · cases hds : ds with
    | nil => exact absurd hds h.nonempty
    | cons d more =>
      have hd := isDigit_not_space d (h.digits d (by rw [hds]; exact List.mem_cons_self))
      show CServer.strtolSign (d :: (more ++ rest)) = _
      unfold CServer.strtolSign
      split
      · rename_i heq
        exact absurd (List.cons.inj heq).1 hd.2.1
      · rename_i heq
        exact absurd (List.cons.inj heq).1 hd.2.2
      · rfl
  · rfl
  · rfl

theorem IsNumber.dropWhite (h : IsNumber s ws sign ds rest) :
    s.dropWhile isSpace = sign ++ (ds ++ rest) := by
  rw [h.text]
  apply dropWhile_run _ _ _ h.white
  intro c hc
  rcases h.sign with hs | hs | hs
  · cases hds : ds with
    | nil => exact absurd hds h.nonempty
    | cons d more =>
      rw [hs, hds] at hc
      rw [← show d = c from Option.some.inj hc]
      exact (isDigit_not_space d (h.digits d (by rw [hds]; exact List.mem_cons_self))).1
  · rw [hs] at hc
    cases hc
    decide
  · rw [hs] at hc
    cases hc
    decide

/-- **`strtol` reads a number, cut to the range of `long`, and stops behind its digits.** -/
theorem IsNumber.strtol (h : IsNumber s ws sign ds rest) :
    strtol s = ⟨Long.clamp (signedValue sign ds), rest, true,
      decide (signedValue sign ds < -2 ^ 63 ∨ 2 ^ 63 ≤ signedValue sign ds)⟩ := by
  have hvalue : (if decide (sign = [45]) = true then -(digitsValue ds : Int)
      else (digitsValue ds : Int)) = signedValue sign ds := by
    unfold signedValue
    simp only [decide_eq_true_eq]
  unfold CServer.strtol
  rw [h.dropWhite, h.strtolSign]
  simp only [takeWhile_run _ _ _ h.digits h.stops, dropWhile_run _ _ _ h.digits h.stops, hvalue]
  exact if_neg h.nonempty

end

/-- every text is white space, an optional sign and what `strtolSign` leaves -/
theorem strtolSign_text (t : Bytes) : ∃ sign, (sign = [] ∨ sign = [43] ∨ sign = [45]) ∧
    t = sign ++ (strtolSign t).2 := by
  unfold strtolSign
  split
  · exact ⟨[45], .inr (.inr rfl), rfl⟩
  · exact ⟨[43], .inr (.inl rfl), rfl⟩
  · exact ⟨[], .inl rfl, rfl⟩

/-- **What `strtol` converts is a number.** -/
theorem strtol_isNumber (s : Bytes) (h : (strtol s).converted = true) :
    ∃ ws sign ds, IsNumber s ws sign ds (strtol s).stop := by
  obtain ⟨sign, hsign, htext⟩ := strtolSign_text (s.dropWhile isSpace)
  have hds : (strtolSign (s.dropWhile isSpace)).2.takeWhile isDigit ≠ [] := by
    intro hnil
    unfold strtol at h
    simp only [hnil, if_true] at h
    cases h
  have hstop : (strtol s).stop = (strtolSign (s.dropWhile isSpace)).2.dropWhile isDigit := by
    unfold strtol
    simp only [if_neg hds]
  refine ⟨s.takeWhile isSpace, sign, _, ?_, ?_, hsign, hds, ?_, ?_⟩
  · rw [hstop, List.takeWhile_append_dropWhile, ← htext, List.takeWhile_append_dropWhile]
  · exact fun c hc => List.mem_takeWhile_imp hc
  · exact fun c hc => List.mem_takeWhile_imp hc
  · intro c hc
    rw [hstop] at hc
    exact dropWhile_head _ _ _ hc

/-! ## saturation -/

theorem clamp_pos_iff (n : Int) : 0 < (Long.clamp n).val ↔ 0 < n := by
  unfold Long.clamp
  split_ifs <;> simp only <;> omega

theorem clamp_val (n : Int) (h1 : -2 ^ 63 ≤ n) (h2 : n < 2 ^ 63) : (Long.clamp n).val = n := by
  unfold Long.clamp
  rw [dif_neg (by omega), dif_neg (by omega)]

theorem clamp_high (n : Int) (h : 2 ^ 63 ≤ n) : (Long.clamp n).val = 2 ^ 63 - 1 := by
  unfold Long.clamp
  rw [dif_neg (by omega), dif_pos h]

end CServer
