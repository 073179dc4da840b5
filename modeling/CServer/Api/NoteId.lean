import CServer.Api.Dispatch
import CServer.Lib.Strtol

/-!
# The ids of notes

The text behind `/api/notes/` is read by `strtol`.

* `NoteIdText`          a text of digits that denotes an id;
* `ReadsExactly`        `parse_note_id` accepts exactly such texts, as the id that they denote;
* `LenientId`           white space, a plus sign or digits beyond the range of `long`;
* `parseNoteId_cases`   what the function does with any text;
* `noteIds_exact_iff`   it reads exactly the texts that are not lenient.
-/

namespace CServer

/-- the path of a text that is meant to be an id -/
structure IdPath (path : CStr) (t : Bytes) : Prop where
  path : path.bytes = ascii "/api/notes/" ++ t
  noSlash : (47 : Byte) ∉ t

/-- The text is a run of digits that denotes `n`, an id. -/
structure NoteIdText (t : Bytes) (n : Int) : Prop where
  nonempty : t ≠ []
  digits : ∀ c ∈ t, isDigit c = true
  value : n = digitsValue t
  pos : 1 ≤ n
  hi : n ≤ 2 ^ 63 - 1

structure ReadsExactly (path : CStr) (t : Bytes) : Prop where
  ok : ∀ id : Long, parseNoteId path = .ok id ↔ NoteIdText t id.val
  other : (∀ n, ¬ NoteIdText t n) → parseNoteId path = .error .invalidId

/-- a positive number that is more than its digits, or beyond the range of `long` -/
def LenientId (t : Bytes) : Prop :=
  ∃ ws sign ds, IsNumber t ws sign ds [] ∧ sign ≠ [45] ∧ 0 < digitsValue ds ∧
    (ws ≠ [] ∨ sign ≠ [] ∨ 2 ^ 63 ≤ digitsValue ds)

/-! ## what `parse_note_id` does -/

theorem IdPath.parse {path : CStr} {t : Bytes} (h : IdPath path t) :
    parseNoteId path =
      if t = [] ∨ (strtol t).converted = false ∨ (strtol t).stop ≠ [] ∨ (strtol t).value.val ≤ 0 then
        .error .invalidId
      else .ok (strtol t).value := by
  have hpre : (ascii "/api/notes/").isPrefixOf path.bytes = true :=
    List.isPrefixOf_iff_prefix.mpr ⟨t, h.path.symm⟩
  have hdrop : path.bytes.drop 11 = t := by
    rw [h.path]
    exact List.drop_left' (by decide)
  unfold parseNoteId
  rw [hdrop, hpre]
  by_cases ht : t = []
  · rw [if_pos (.inr ht), if_pos (.inl ht)]
  · rw [if_neg (fun h => h.elim (fun h => by cases h) ht), if_neg h.noSlash]
    simp only [ht, false_or]

/-- the value of a number, where it is positive -/
theorem signedValue_pos (sign ds : Bytes) (h : 0 < signedValue sign ds) :
    sign ≠ [45] ∧ signedValue sign ds = digitsValue ds := by
  unfold signedValue at h ⊢
  by_cases hs : sign = [45]
  · rw [if_pos hs] at h
    omega
  · exact ⟨hs, if_neg hs⟩

/-- **What `parse_note_id` does with a text:** a positive number is read, and cut to the range of
`long`; anything else is an invalid id. -/
theorem parseNoteId_cases {path : CStr} {t : Bytes} (h : IdPath path t) :
    (∃ ws sign ds, IsNumber t ws sign ds [] ∧ sign ≠ [45] ∧ 0 < digitsValue ds ∧
      parseNoteId path = .ok (Long.clamp (digitsValue ds))) ∨
    ((∀ ws sign ds, IsNumber t ws sign ds [] → sign ≠ [45] → digitsValue ds = 0) ∧
      parseNoteId path = .error .invalidId) := by
  rw [h.parse]
  by_cases hbad : t = [] ∨ (strtol t).converted = false ∨ (strtol t).stop ≠ [] ∨
      (strtol t).value.val ≤ 0
  · right
    refine ⟨fun ws sign ds hn hs => ?_, if_pos hbad⟩
    rw [hn.strtol] at hbad
    rcases hbad with hbad | hbad | hbad | hbad
    · exact absurd (List.append_eq_nil_iff.mp (List.append_eq_nil_iff.mp
        (List.append_eq_nil_iff.mp (hn.text.symm.trans hbad)).2).2).1 hn.nonempty
    · cases hbad
    · exact absurd rfl hbad
    · have hv : signedValue sign ds = digitsValue ds := if_neg hs
      have hle : ¬ 0 < (Long.clamp (signedValue sign ds)).val := Int.not_lt.mpr hbad
      rw [clamp_pos_iff, hv] at hle
      omega
  · left
    have hgood := hbad
    rw [not_or, not_or, not_or, not_not] at hgood
    obtain ⟨_, hconv, hstop, hpos⟩ := hgood
    obtain ⟨ws, sign, ds, hn⟩ := strtol_isNumber t (by simpa using hconv)
    rw [hstop] at hn
    have hread := hn.strtol
    have hpos' : 0 < (Long.clamp (signedValue sign ds)).val := by
      rw [hread] at hpos
      exact Int.not_le.mp hpos
    rw [clamp_pos_iff] at hpos'
    obtain ⟨hs, hv⟩ := signedValue_pos sign ds hpos'
    refine ⟨ws, sign, ds, hn, hs, by omega, ?_⟩
    rw [if_neg hbad, hread, hv]

/-! ## ids of digits -/

theorem NoteIdText.isNumber {t : Bytes} {n : Int} (h : NoteIdText t n) : IsNumber t [] [] t [] :=
  ⟨by simp, by simp, .inl rfl, h.nonempty, h.digits, by simp⟩

/-- a number that is not lenient is its digits -/
theorem digits_of_not_lenient {t ws sign ds : Bytes} (h : ¬ LenientId t)
    (hn : IsNumber t ws sign ds []) (hs : sign ≠ [45]) (hpos : 0 < digitsValue ds) :
    NoteIdText t (digitsValue ds) := by
  have hws : ws = [] := by
    by_contra hws
    exact h ⟨ws, sign, ds, hn, hs, hpos, .inl hws⟩
  have hsign : sign = [] := by
    by_contra hsign
    exact h ⟨ws, sign, ds, hn, hs, hpos, .inr (.inl hsign)⟩
  have hlow : digitsValue ds < 2 ^ 63 := by
    by_contra hhigh
    exact h ⟨ws, sign, ds, hn, hs, hpos, .inr (.inr (Nat.not_lt.mp hhigh))⟩
  have ht : t = ds := by
    have htext := hn.text
    rwa [hws, hsign, List.nil_append, List.nil_append, List.append_nil] at htext
  rw [ht]
  exact ⟨hn.nonempty, hn.digits, rfl, by omega, by omega⟩

/-- a lenient text is not the text of an id -/
theorem LenientId.not_text {t : Bytes} (h : LenientId t) (n : Int) : ¬ NoteIdText t n := by
  intro htext
  obtain ⟨ws, sign, ds, hn, hs, hpos, hl⟩ := h
  have hmem : ∀ c ∈ t, isDigit c = true := htext.digits
  rw [hn.text] at hmem
  have hws : ws = [] := by
    cases ws with
    | nil => rfl
    | cons c ws =>
      have hc := isDigit_not_space c (hmem c List.mem_cons_self)
      rw [hn.white c List.mem_cons_self] at hc
      cases hc.1
  have hsign : sign = [] := by
    rcases hn.sign with h | rfl | rfl
    · exact h
    · have hc : isDigit 43 = true := hmem 43 (List.mem_append_right _ List.mem_cons_self)
      cases hc
    · exact absurd rfl hs
  have ht : t = ds := by
    have htext := hn.text
    rwa [hws, hsign, List.nil_append, List.nil_append, List.append_nil] at htext
  have hv := htext.value
  have hhi := htext.hi
  rw [ht] at hv
  rcases hl with hl | hl | hl
  · exact hl hws
  · exact hl hsign
  · omega

theorem readsExactly_iff {path : CStr} {t : Bytes} (h : IdPath path t) :
    ReadsExactly path t ↔ ¬ LenientId t := by
  constructor
  · intro hexact hl
    have herror := hexact.other hl.not_text
    obtain ⟨ws, sign, ds, hn, hs, hpos, _⟩ := hl
    rcases parseNoteId_cases h with ⟨_, _, _, _, _, _, hok⟩ | ⟨hzero, _⟩
    · rw [hok] at herror
      cases herror
    · rw [hzero ws sign ds hn hs] at hpos
      exact Nat.lt_irrefl 0 hpos
  · intro hl
    rcases parseNoteId_cases h with ⟨ws, sign, ds, hn, hs, hpos, hok⟩ | ⟨hzero, herror⟩
    · have htext := digits_of_not_lenient hl hn hs hpos
      have hval := clamp_val (digitsValue ds) (by omega) (by have := htext.hi; omega)
      refine ⟨fun id => ⟨fun hid => ?_, fun hid => ?_⟩, fun hno => absurd htext (hno _)⟩
      · rw [hok] at hid
        rw [← Except.ok.inj hid, hval]
        exact htext
      · rw [hok]
        apply congrArg
        apply Long.ext'
        rw [hval, htext.value, hid.value]
    · refine ⟨fun id => ⟨fun hid => ?_, fun hid => ?_⟩, fun _ => herror⟩
      · rw [herror] at hid
        cases hid
      · have hz := hzero [] [] t hid.isNumber (by decide)
        have hv := hid.value
        have hp := hid.pos
        omega

/-! ## two texts -/

/-- what a run of digits is read as -/
theorem parseNoteId_digits {path : CStr} {t : Bytes} (h : IdPath path t) (hne : t ≠ [])
    (hd : ∀ c ∈ t, isDigit c = true) (id : Long) :
    parseNoteId path = .ok id ↔ 0 < digitsValue t ∧ id = Long.clamp (digitsValue t) := by
  have hn : IsNumber t [] [] t [] := ⟨by simp, by simp, .inl rfl, hne, hd, by simp⟩
  have hpos := clamp_pos_iff (digitsValue t)
  have hv : signedValue [] t = digitsValue t := if_neg (by decide)
  rw [h.parse, hn.strtol, hv]
  by_cases h0 : 0 < digitsValue t
  · rw [if_neg (by
      simp only [hne, ne_eq, not_true_eq_false, false_or, Bool.true_eq_false]
      omega)]
    exact ⟨fun hid => ⟨h0, (Except.ok.inj hid).symm⟩, fun hid => by rw [hid.2]⟩
  · rw [if_pos (.inr (.inr (.inr (by
      show (Long.clamp _).val ≤ 0
      omega))))]
    exact ⟨fun hid => (by cases hid), fun hid => absurd hid.1 h0⟩

/-- No note is selected by both. -/
def SelectsApart (path path' : CStr) : Prop :=
  ∀ id, ¬ (parseNoteId path = .ok id ∧ parseNoteId path' = .ok id)

theorem selectsApart_iff {path path' : CStr} {t t' : Bytes} (h : IdPath path t)
    (h' : IdPath path' t') (hne : t ≠ []) (hd : ∀ c ∈ t, isDigit c = true) (hne' : t' ≠ [])
    (hd' : ∀ c ∈ t', isDigit c = true) (hdiff : digitsValue t ≠ digitsValue t') :
    SelectsApart path path' ↔ digitsValue t < 2 ^ 63 - 1 ∨ digitsValue t' < 2 ^ 63 - 1 := by
  unfold SelectsApart
  simp only [parseNoteId_digits h hne hd, parseNoteId_digits h' hne' hd']
  constructor
  · intro hapart
    by_contra hboth
    rw [not_or] at hboth
    have hsame : ∀ n : Nat, ¬ n < 2 ^ 63 - 1 → (Long.clamp n).val = 2 ^ 63 - 1 := by
      intro n hn
      by_cases hhigh : 2 ^ 63 ≤ (n : Int)
      · exact clamp_high _ hhigh
      · rw [clamp_val _ (by omega) (by omega)]
        omega
    refine hapart _ ⟨⟨by omega, rfl⟩, ⟨by omega, Long.ext' ?_⟩⟩
    rw [hsame _ hboth.1, hsame _ hboth.2]
  · rintro hlow id ⟨⟨_, rfl⟩, ⟨_, heq⟩⟩
    have hval := congrArg Long.val heq
    have hlt : ∀ n : Nat, n < 2 ^ 63 - 1 → (Long.clamp n).val = n := fun n hn =>
      clamp_val _ (by omega) (by omega)
    have hle : ∀ n : Nat, (Long.clamp n).val = n ∨ (Long.clamp n).val = 2 ^ 63 - 1 := by
      intro n
      by_cases hhigh : 2 ^ 63 ≤ (n : Int)
      · exact .inr (clamp_high _ hhigh)
      · exact .inl (clamp_val _ (by omega) (by omega))
    rcases hlow with hlow | hlow
    · rw [hlt _ hlow] at hval
      rcases hle (digitsValue t') with h2 | h2 <;> omega
    · rw [hlt _ hlow] at hval
      rcases hle (digitsValue t) with h2 | h2 <;> omega

/-- **`parse_note_id` reads a text exactly when it is not lenient, and two runs of digits that
denote different integers select different notes exactly when one of them is below the largest
`long`.** -/
theorem noteIds_exact_iff (path path' : CStr) (t t' : Bytes) (h : IdPath path t)
    (h' : IdPath path' t') :
    (ReadsExactly path t ↔ ¬ LenientId t) ∧
    (t ≠ [] → (∀ c ∈ t, isDigit c = true) → t' ≠ [] → (∀ c ∈ t', isDigit c = true) →
      digitsValue t ≠ digitsValue t' →
      (SelectsApart path path' ↔ digitsValue t < 2 ^ 63 - 1 ∨ digitsValue t' < 2 ^ 63 - 1)) :=
  ⟨readsExactly_iff h, selectsApart_iff h h'⟩

/-- a sign is read, and note 5 is selected -/
theorem noteIds_exact_plus : ¬ ReadsExactly (.lit "/api/notes/+5") (ascii "+5") := by
  intro hexact
  have hiff := noteIds_exact_iff (.lit "/api/notes/+5") (.lit "/api/notes/5") (ascii "+5") (ascii "5")
    ⟨by decide, by decide⟩ ⟨by decide, by decide⟩
  refine hiff.1.mp hexact ⟨[], [43], [53], ?_, by decide, by decide, .inr (.inl (by decide))⟩
  exact ⟨by decide, by simp, by decide, by decide, by decide +kernel, by simp⟩

/-- the largest id, and a text that denotes another integer -/
def largestIdPath : CStr := .lit "/api/notes/9223372036854775807"
def beyondPath : CStr := .lit "/api/notes/99999999999999999999"

/-- a text beyond the range of `long` selects the note of the largest id -/
theorem parseNoteId_saturates :
    ¬ ReadsExactly beyondPath (ascii "99999999999999999999") ∧
      ¬ SelectsApart largestIdPath beyondPath := by
  have hbeyond : parseNoteId beyondPath = .ok (Long.clamp (2 ^ 63 - 1)) := by decide +kernel
  have hlargest : parseNoteId largestIdPath = .ok (Long.clamp (2 ^ 63 - 1)) := by decide +kernel
  refine ⟨fun h => ?_, fun h => h _ ⟨hlargest, hbeyond⟩⟩
  have hvalue := ((h.ok _).mp hbeyond).value
  revert hvalue
  decide +kernel

end CServer
