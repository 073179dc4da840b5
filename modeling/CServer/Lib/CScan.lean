import CServer.Lib.CString

/-!
# Scanning functions of the C library

Each works on the bytes of a C string from the pointer on; a pointer that it hands back is the
rest of that string.

* `strtol`        base 10, with the pointer behind the digits, the conversion flag and `ERANGE`;
* `scanWord`      one `%Ns` conversion of `sscanf`;
* `strtokLines`   the tokens of repeated `strtok_r(s, "\n")` calls;
* `strstr`        whether the needle occurs;
* `scanWord_word`, `strtokLines_line`   the word, and the line, at the front;
* `strtokLines_cstr`   the tokens of a block that is read as a C string.
-/

namespace CServer

/-- the value of a run of decimal digits -/
def digitsValue (ds : Bytes) : Nat := ds.foldl (fun n c => 10 * n + (c.toNat - 48)) 0

/-- What a call of `strtol(s, &end, 10)` leaves: the value, the string at `end`, whether a number
was converted (`end != s`), and whether `errno` is `ERANGE`. -/
structure Strtol where
  value : Long
  stop : Bytes
  converted : Bool
  range : Bool
  deriving DecidableEq

/-- the optional sign: whether it is a minus, and the rest -/
def strtolSign : Bytes → Bool × Bytes
  | 45 :: rest => (true, rest)
  | 43 :: rest => (false, rest)
  | s => (false, s)

def strtol (s : Bytes) : Strtol :=
  let (neg, t) := strtolSign (s.dropWhile isSpace)
  let ds := t.takeWhile isDigit
  if ds = [] then ⟨Long.clamp 0, s, false, false⟩
  else
    let n : Int := if neg then -(digitsValue ds : Int) else (digitsValue ds : Int)
    ⟨Long.clamp n, t.dropWhile isDigit, true, decide (n < -2 ^ 63 ∨ 2 ^ 63 ≤ n)⟩

/-- One `%Ns` conversion: skip white space, then take up to `width` bytes that are none. -/
def scanWord (width : Nat) (s : Bytes) : Option (Bytes × Bytes) :=
  let t := s.dropWhile isSpace
  let word := (t.takeWhile fun c => !isSpace c).take width
  if word = [] then none else some (word, t.drop word.length)

/-- the tokens of a string, behind the part `tok` of one that has begun -/
def strtokFrom (tok : Bytes) : Bytes → List Bytes
  | [] => if tok = [] then [] else [tok]
  | c :: s =>
    if c = lf then
      if tok = [] then strtokFrom [] s else tok :: strtokFrom [] s
    else strtokFrom (tok ++ [c]) s

/-- the non-empty pieces between line feeds -/
def strtokLines (s : Bytes) : List Bytes := strtokFrom [] s

def strstr (hay needle : Bytes) : Bool := decide (needle <:+: hay)

/-! ## one word -/

theorem scanWord_space (width : Nat) (s : Bytes) : scanWord width (space :: s) = scanWord width s := by
  have h : (space :: s).dropWhile isSpace = s.dropWhile isSpace :=
    List.dropWhile_cons_of_pos (by decide)
  unfold scanWord
  rw [h]

/-- a word at the front, and behind it the end or white space -/
theorem scanWord_word (width : Nat) (w rest : Bytes) (hwidth : 0 < width) (hne : w ≠ [])
    (hw : ∀ c ∈ w, isSpace c = false) (hrest : ∀ c, rest.head? = some c → isSpace c = true) :
    scanWord width (w ++ rest) = some (w.take width, w.drop width ++ rest) := by
  have hdrop : (w ++ rest).dropWhile isSpace = w ++ rest := by
    cases w with
    | nil => exact absurd rfl hne
    | cons c w =>
      rw [List.cons_append, List.dropWhile_cons_of_neg]
      rw [hw c List.mem_cons_self]
      decide
  have htake : (w ++ rest).takeWhile (fun c => !isSpace c) = w := by
    rw [List.takeWhile_append_of_pos (fun c hc => by rw [hw c hc]; rfl)]
    cases rest with
    | nil => rw [List.takeWhile_nil, List.append_nil]
    | cons c rest =>
      rw [List.takeWhile_cons_of_neg, List.append_nil]
      rw [hrest c rfl]
      decide
  have hword : w.take width ≠ [] := by
    intro h
    rcases List.take_eq_nil_iff.mp h with h | h
    · omega
    · exact hne h
  unfold scanWord
  rw [hdrop]
  simp only
  rw [htake, if_neg hword, List.length_take]
  congr 2
  rcases Nat.le_total width w.length with h | h
  · rw [min_eq_left h, List.drop_append_of_le_length h]
  · rw [min_eq_right h, List.drop_left, List.drop_eq_nil_of_le h, List.nil_append]

theorem scanWord_nil (width : Nat) : scanWord width [] = none := by
  unfold scanWord
  rw [if_pos (by simp)]

/-- the word and the rest come from the string -/
theorem scanWord_subset (width : Nat) (s word rest : Bytes) (h : scanWord width s = some (word, rest)) :
    word ⊆ s ∧ rest ⊆ s := by
  unfold scanWord at h
  simp only at h
  split_ifs at h
  cases h
  have hdrop : s.dropWhile isSpace ⊆ s := (List.dropWhile_suffix _).subset
  exact ⟨fun c hc => hdrop ((List.takeWhile_prefix _).subset (List.mem_of_mem_take hc)),
    fun c hc => hdrop (List.mem_of_mem_drop hc)⟩

/-! ## lines -/

theorem strtokFrom_line (tok p s : Bytes) (hp : lf ∉ p) :
    strtokFrom tok (p ++ lf :: s) =
      if tok ++ p = [] then strtokFrom [] s else (tok ++ p) :: strtokFrom [] s := by
  induction p generalizing tok with
  | nil =>
    rw [List.nil_append, List.append_nil, strtokFrom, if_pos rfl]
  | cons c p ih =>
    rw [List.mem_cons, not_or] at hp
    rw [List.cons_append, strtokFrom, if_neg (fun h => hp.1 h.symm), ih _ hp.2, List.append_assoc]
    rfl

theorem strtokFrom_last (tok p : Bytes) (hp : lf ∉ p) :
    strtokFrom tok p = if tok ++ p = [] then [] else [tok ++ p] := by
  induction p generalizing tok with
  | nil => rw [List.append_nil, strtokFrom]
  | cons c p ih =>
    rw [List.mem_cons, not_or] at hp
    rw [strtokFrom, if_neg (fun h => hp.1 h.symm), ih _ hp.2, List.append_assoc]
    rfl

/-- the first token of a string that begins with a line -/
theorem strtokLines_line (p s : Bytes) (hp : lf ∉ p) (hne : p ≠ []) :
    strtokLines (p ++ lf :: s) = p :: strtokLines s := by
  unfold strtokLines
  rw [strtokFrom_line [] p s hp, List.nil_append, if_neg hne]

theorem strtokLines_last (p : Bytes) (hp : lf ∉ p) (hne : p ≠ []) : strtokLines p = [p] := by
  unfold strtokLines
  rw [strtokFrom_last [] p hp, List.nil_append, if_neg hne]

/-- the bytes of a token come from the string -/
theorem strtokFrom_subset (tok s t : Bytes) (h : t ∈ strtokFrom tok s) : t ⊆ tok ++ s := by
  induction s generalizing tok with
  | nil =>
    rw [strtokFrom] at h
    split_ifs at h
    · cases h
    · rw [List.mem_singleton.mp h, List.append_nil]
      exact List.Subset.refl _
  | cons c s ih =>
    have hnew : ∀ tok', t ∈ strtokFrom tok' s → tok' ⊆ tok ++ c :: s → t ⊆ tok ++ c :: s := by
      intro tok' ht htok x hx
      rcases List.mem_append.mp (ih tok' ht hx) with hx | hx
      · exact htok hx
      · exact List.mem_append_right _ (List.mem_cons_of_mem _ hx)
    rw [strtokFrom] at h
    split_ifs at h
    · exact hnew [] h (List.nil_subset _)
    · rcases List.mem_cons.mp h with rfl | h
      · exact List.subset_append_left _ _
      · exact hnew [] h (List.nil_subset _)
    · refine hnew _ h fun x hx => ?_
      rcases List.mem_append.mp hx with hx | hx
      · exact List.mem_append_left _ hx
      · rw [List.mem_singleton.mp hx]
        exact List.mem_append_right _ List.mem_cons_self

theorem strtokLines_subset (s t : Bytes) (h : t ∈ strtokLines s) : t ⊆ s := by
  have hsub := strtokFrom_subset [] s t h
  rwa [List.nil_append] at hsub

/-! ## a NUL among the tokens -/

/-- the tokens up to the first one with a NUL, and of that one the part before -/
def cutTexts : List Bytes → List Bytes
  | [] => []
  | t :: ts => if (0 : Byte) ∈ t then if cstr t = [] then [] else [cstr t] else t :: cutTexts ts

theorem strtokFrom_begun (tok s : Bytes) (h : tok ≠ []) :
    ∃ more rest, strtokFrom tok s = (tok ++ more) :: rest := by
  induction s generalizing tok with
  | nil =>
    rw [strtokFrom, if_neg h]
    exact ⟨[], [], by rw [List.append_nil]⟩
  | cons c s ih =>
    rw [strtokFrom]
    by_cases hc : c = lf
    · rw [if_pos hc, if_neg h]
      exact ⟨[], _, by rw [List.append_nil]⟩
    · rw [if_neg hc]
      obtain ⟨more, rest, he⟩ := ih (tok ++ [c]) (by simp)
      exact ⟨c :: more, rest, by rw [he, List.append_assoc]; rfl⟩

theorem strtokFrom_cstr (tok s : Bytes) (h : (0 : Byte) ∉ tok) :
    strtokFrom tok (cstr s) = cutTexts (strtokFrom tok s) := by
  induction s generalizing tok with
  | nil =>
    show strtokFrom tok [] = cutTexts (strtokFrom tok [])
    rw [strtokFrom]
    by_cases ht : tok = []
    · rw [if_pos ht]
      rfl
    · rw [if_neg ht, cutTexts, if_neg h]
      rfl
  | cons c s ih =>
    by_cases h0 : c = 0
    · subst h0
      have hcut : cstr ((0 : Byte) :: s) = [] := List.takeWhile_cons_of_neg (by decide)
      obtain ⟨more, rest, he⟩ := strtokFrom_begun (tok ++ [0]) s (by simp)
      have hhead : cstr (tok ++ [0] ++ more) = tok := by
        rw [List.append_assoc]
        exact takeWhile_run (fun c => c != 0) tok _ (fun c hc => bne_iff_ne.mpr fun he => h (he ▸ hc))
          fun c hc => by cases hc; rfl
      have hmem : (0 : Byte) ∈ tok ++ [0] ++ more :=
        List.mem_append_left _ (List.mem_append_right _ List.mem_cons_self)
      have hleft : strtokFrom tok [] = if tok = [] then [] else [tok] := by rw [strtokFrom]
      have hright : strtokFrom tok (0 :: s) = strtokFrom (tok ++ [0]) s := by
        rw [strtokFrom, if_neg (by decide)]
      rw [hcut, hleft, hright, he, cutTexts, if_pos hmem, hhead]
    · have hcut : cstr (c :: s) = c :: cstr s := List.takeWhile_cons_of_pos (bne_iff_ne.mpr h0)
      rw [hcut, strtokFrom, strtokFrom]
      by_cases hc : c = lf
      · rw [if_pos hc, if_pos hc]
        by_cases ht : tok = []
        · rw [if_pos ht, if_pos ht]
          exact ih [] (by simp)
        · rw [if_neg ht, if_neg ht, cutTexts, if_neg h, ih [] (by simp)]
      · rw [if_neg hc, if_neg hc]
        apply ih
        intro hm
        rcases List.mem_append.mp hm with hm | hm
        · exact h hm
        · exact h0 (List.mem_singleton.mp hm).symm

/-- **`strtok_r` sees the lines up to the first NUL.** -/
theorem strtokLines_cstr (s : Bytes) : strtokLines (cstr s) = cutTexts (strtokLines s) :=
  strtokFrom_cstr [] s (by simp)

theorem cutTexts_mem (texts : List Bytes) (u : Bytes) (h : u ∈ cutTexts texts) :
    u ∈ texts ∨ ∃ t ∈ texts, (0 : Byte) ∈ t ∧ u = cstr t := by
  induction texts with
  | nil => cases h
  | cons t ts ih =>
    rw [cutTexts] at h
    split_ifs at h with h0 hnil
    · cases h
    · exact .inr ⟨t, List.mem_cons_self, h0, List.mem_singleton.mp h⟩
    · rcases List.mem_cons.mp h with rfl | h
      · exact .inl List.mem_cons_self
      · rcases ih h with hu | ⟨w, hw, hcut⟩
        · exact .inl (List.mem_cons_of_mem _ hu)
        · exact .inr ⟨w, List.mem_cons_of_mem _ hw, hcut⟩

/-- the same for the tokens behind the first one -/
theorem cutTexts_tail_mem (texts : List Bytes) (u : Bytes) (h : u ∈ (cutTexts texts).tail) :
    u ∈ texts.tail ∨ ∃ t ∈ texts.tail, (0 : Byte) ∈ t ∧ u = cstr t := by
  cases texts with
  | nil => cases h
  | cons t ts =>
    rw [cutTexts] at h
    split_ifs at h
    · cases h
    · cases h
    · exact cutTexts_mem ts u h

end CServer
