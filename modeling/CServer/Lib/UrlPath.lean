import CServer.Lib.Utf8
import Mathlib.Tactic.IntervalCases

/-!
# Components and paths of a URL, as a page writes them

A text is the list of its characters.

* `encodeURIComponent`  a text as one component of a URL;
* `urlPath`             the path that is asked for: the dot segments are gone;
* `encode_eq_self`, `percent_mem`   a component is its text, or has a percent sign;
* `singleDot_encode`, `doubleDot_encode`  only a dot and two dots are encoded to dot segments;
* `urlPath_three`       a path of two segments and a component.
-/

namespace CServer
namespace UrlPath

/-! ## components -/

/-- the characters that stand for themselves -/
def unreserved (c : Char) : Bool :=
  c.isAlphanum || c ∈ ['-', '_', '.', '!', '~', '*', '\'', '(', ')']

/-- a hexadecimal digit in upper case -/
def hexDigit (n : Nat) : Char := if n < 10 then Char.ofNat (48 + n) else Char.ofNat (55 + n)

def percent (b : Byte) : List Char := ['%', hexDigit (b.toNat / 16), hexDigit (b.toNat % 16)]

def encodeChar (c : Char) : List Char :=
  if unreserved c then [c] else (String.utf8EncodeChar c).flatMap percent

def encodeURIComponent (s : List Char) : List Char := s.flatMap encodeChar

theorem hexDigit_alphanum (n : Nat) (h : n < 16) : (hexDigit n).isAlphanum = true := by
  interval_cases n <;> decide

theorem unreserved_hexDigit (n : Nat) (h : n < 16) : unreserved (hexDigit n) = true := by
  unfold unreserved
  rw [hexDigit_alphanum n h, Bool.true_or]

theorem mem_percent {b : Byte} {c : Char} (h : c ∈ percent b) : unreserved c = true ∨ c = '%' := by
  have hb := b.toNat_lt
  rcases List.mem_cons.mp h with rfl | h
  · exact .inr rfl
  · rcases List.mem_cons.mp h with rfl | h
    · exact .inl (unreserved_hexDigit _ (by omega))
    · rw [List.mem_singleton.mp h]
      exact .inl (unreserved_hexDigit _ (by omega))

theorem mem_encode {s : List Char} {c : Char} (h : c ∈ encodeURIComponent s) :
    unreserved c = true ∨ c = '%' := by
  obtain ⟨d, -, hd⟩ := List.mem_flatMap.mp h
  unfold encodeChar at hd
  split_ifs at hd with hplain
  · rw [List.mem_singleton.mp hd]
    exact .inl hplain
  · obtain ⟨b, -, hb⟩ := List.mem_flatMap.mp hd
    exact mem_percent hb

theorem slash_notMem (s : List Char) : '/' ∉ encodeURIComponent s := by
  intro h
  rcases mem_encode h with h | h
  · exact absurd h (by decide)
  · exact absurd h (by decide)

theorem unreserved_visible {c : Char} (h : unreserved c = true) : 0x21 ≤ c.toNat ∧ c.toNat < 0x7F := by
  unfold unreserved at h
  rw [Bool.or_eq_true, decide_eq_true_eq] at h
  rcases h with h | h
  · unfold Char.isAlphanum Char.isAlpha Char.isUpper Char.isLower Char.isDigit at h
    simp only [Bool.or_eq_true, Bool.and_eq_true, decide_eq_true_eq, ge_iff_le,
      UInt32.le_iff_toNat_le] at h
    show 0x21 ≤ c.val.toNat ∧ c.val.toNat < 0x7F
    have h1 : 'A'.val.toNat = 65 := rfl
    have h2 : 'Z'.val.toNat = 90 := rfl
    have h3 : 'a'.val.toNat = 97 := rfl
    have h4 : 'z'.val.toNat = 122 := rfl
    have h5 : '0'.val.toNat = 48 := rfl
    have h6 : '9'.val.toNat = 57 := rfl
    omega
  · simp only [List.mem_cons, List.not_mem_nil, or_false] at h
    rcases h with rfl | rfl | rfl | rfl | rfl | rfl | rfl | rfl | rfl <;> decide

/-- every character of a component is visible ASCII -/
theorem encode_visible {s : List Char} {c : Char} (h : c ∈ encodeURIComponent s) :
    0x21 ≤ c.toNat ∧ c.toNat < 0x7F := by
  rcases mem_encode h with h | rfl
  · exact unreserved_visible h
  · decide

/-- **A text of plain characters is its own component.** -/
theorem encode_eq_self {s : List Char} (h : ∀ c ∈ s, unreserved c = true) : encodeURIComponent s = s := by
  induction s with
  | nil => rfl
  | cons c s ih =>
    show encodeChar c ++ encodeURIComponent s = _
    rw [ih fun d hd => h d (List.mem_cons_of_mem _ hd), encodeChar, if_pos (h c List.mem_cons_self)]
    rfl

theorem encodeChar_ne_nil (c : Char) : encodeChar c ≠ [] := by
  unfold encodeChar
  split_ifs
  · exact List.cons_ne_nil _ _
  · obtain ⟨lead, tail, henc, _⟩ := utf8EncodeChar_begins c
    rw [henc]
    exact List.cons_ne_nil _ _

theorem encode_eq_nil {s : List Char} : encodeURIComponent s = [] ↔ s = [] := by
  constructor
  · intro h
    cases s with
    | nil => rfl
    | cons c s => exact absurd (List.append_eq_nil_iff.mp h).1 (encodeChar_ne_nil c)
  · rintro rfl
    rfl

/-- what stands behind the percent sign of a character that is not plain -/
theorem encodeChar_percent {c : Char} (h : unreserved c = false) :
    ∃ b rest, encodeChar c = percent b ++ rest ∧ b.toNat ≠ 0x2E := by
  obtain ⟨lead, tail, henc, hlead, hlen, -, -⟩ := utf8EncodeChar_begins c
  refine ⟨lead, tail.flatMap percent, ?_, fun hdot => ?_⟩
  · unfold encodeChar
    rw [if_neg (by rw [h]; decide), henc, List.flatMap_cons]
  · -- a dot is a character of one byte, and it is plain
    have hbyte : lead = 0x2E := UInt8.toNat_inj.mp hdot
    have htail : tail = [] := by
      rw [hbyte] at hlen
      exact List.length_eq_zero_iff.mp (Nat.succ_injective (hlen.symm.trans (by decide)))
    have hsame : String.utf8EncodeChar c = String.utf8EncodeChar '.' := by
      rw [henc, hbyte, htail]
      rfl
    have hc : [c] = ['.'] := utf8_injective (by
      show utf8 (c :: []) = utf8 ('.' :: [])
      rw [utf8_cons, utf8_cons, hsame])
    rw [(List.cons.inj hc).1] at h
    exact absurd h (by decide)

/-- **Any other text has a percent sign in its component**, and no dot is written so. -/
theorem percent_mem {s : List Char} (h : ¬ ∀ c ∈ s, unreserved c = true) :
    ∃ front b rest, encodeURIComponent s = front ++ (percent b ++ rest) ∧ b.toNat ≠ 0x2E := by
  induction s with
  | nil => exact absurd (fun c hc => absurd hc List.not_mem_nil) h
  | cons c s ih =>
    cases hc : unreserved c with
    | false =>
      obtain ⟨b, rest, henc, hb⟩ := encodeChar_percent hc
      refine ⟨[], b, rest ++ encodeURIComponent s, ?_, hb⟩
      show encodeChar c ++ encodeURIComponent s = _
      rw [henc, List.append_assoc, List.nil_append]
    | true =>
      have hlater : ¬ ∀ d ∈ s, unreserved d = true := fun hall =>
        h (List.forall_mem_cons.mpr ⟨hc, hall⟩)
      obtain ⟨front, b, rest, henc, hb⟩ := ih hlater
      refine ⟨encodeChar c ++ front, b, rest, ?_, hb⟩
      show encodeChar c ++ encodeURIComponent s = _
      rw [henc, List.append_assoc]

/-! ## dot segments -/

/-- the segment, whatever the case of its letters, is one of these -/
def spelled (spellings : List (List Char)) (s : List Char) : Bool :=
  spellings.any fun t => s.map Char.toLower = t

theorem mem_of_spelled {spellings : List (List Char)} {s : List Char} (h : spelled spellings s = true) :
    s.map Char.toLower ∈ spellings := by
  obtain ⟨t, ht, hs⟩ := List.any_eq_true.mp h
  rw [of_decide_eq_true hs]
  exact ht

def isSingleDot (s : List Char) : Bool := spelled [['.'], ['%', '2', 'e']] s

def isDoubleDot (s : List Char) : Bool :=
  spelled [['.', '.'], ['.', '%', '2', 'e'], ['%', '2', 'e', '.'], ['%', '2', 'e', '%', '2', 'e']] s

/-- the segments behind `out`, without the dot segments among them -/
def takeSegments (out : List (List Char)) : List (List Char) → List (List Char)
  | [] => out
  | s :: rest =>
    let last := if rest = [] then [[]] else []
    if isDoubleDot s then takeSegments (out.dropLast ++ last) rest
    else if isSingleDot s then takeSegments (out ++ last) rest
    else takeSegments (out ++ [s]) rest

/-- the path of the URL that a page makes of a path without a query -/
def urlPath (path : List Char) : List Char :=
  (takeSegments [] ((path.drop 1).splitOn '/')).flatMap fun s => '/' :: s

/-- every percent sign is followed by the digits of a dot -/
def DotsOnly (s : List Char) : Prop :=
  ∀ i < s.length, s[i]? = some '%' → s[i + 1]? = some '2' ∧ s[i + 2]? = some 'e'

instance (s : List Char) : Decidable (DotsOnly s) := by unfold DotsOnly; infer_instance

theorem hexDigit_dot (n : Nat) (h : n < 256) (hhigh : (hexDigit (n / 16)).toLower = '2')
    (hlow : (hexDigit (n % 16)).toLower = 'e') : n = 0x2E := by
  have hall : ∀ k < 16, ((hexDigit k).toLower = '2' → k = 2) ∧ ((hexDigit k).toLower = 'e' → k = 14) := by
    decide
  have h1 := (hall (n / 16) (by omega)).1 hhigh
  have h2 := (hall (n % 16) (by omega)).2 hlow
  omega

/-- a text with another byte behind a percent sign -/
theorem not_dotsOnly_percent (front rest : List Char) (b : Byte) (hb : b.toNat ≠ 0x2E) :
    ¬ DotsOnly (front ++ ((percent b).map Char.toLower ++ rest)) := by
  intro hdots
  have hat : ∀ k, (front ++ ((percent b).map Char.toLower ++ rest))[front.length + k]? =
      ((percent b).map Char.toLower ++ rest)[k]? := by
    intro k
    rw [List.getElem?_append_right (by omega), Nat.add_sub_cancel_left]
  have hlen : front.length < (front ++ ((percent b).map Char.toLower ++ rest)).length := by
    rw [List.length_append, List.length_append]
    show _ < front.length + (3 + rest.length)
    omega
  obtain ⟨h1, h2⟩ := hdots front.length hlen (hat 0)
  rw [hat 1] at h1
  rw [hat 2] at h2
  exact hb (hexDigit_dot b.toNat b.toNat_lt (Option.some.inj h1) (Option.some.inj h2))

/-- a component with a percent sign is no dot segment -/
theorem not_dotsOnly {s : List Char} (h : ¬ ∀ c ∈ s, unreserved c = true) :
    ¬ DotsOnly ((encodeURIComponent s).map Char.toLower) := by
  obtain ⟨front, b, rest, henc, hb⟩ := percent_mem h
  rw [henc, List.map_append, List.map_append]
  exact not_dotsOnly_percent _ _ b hb

/-- the lower case of a plain character -/
theorem unreserved_toLower {c : Char} (h : unreserved c = true) :
    c.toLower ≠ '%' ∧ (c.toLower = '.' → c = '.') := by
  have hall : ∀ n < 0x7F, unreserved (Char.ofNat n) = true →
      (Char.ofNat n).toLower ≠ '%' ∧ ((Char.ofNat n).toLower = '.' → Char.ofNat n = '.') := by
    decide
  have hc := hall c.toNat (unreserved_visible h).2
  rw [Char.ofNat_toNat] at hc
  exact hc h

/-- a dot segment that is a component has plain characters, and so no percent sign -/
theorem dots_encode {s : List Char} (forms : List (List Char)) (hforms : ∀ f ∈ forms, DotsOnly f)
    (h : (encodeURIComponent s).map Char.toLower ∈ forms) :
    (∀ c ∈ s, unreserved c = true) ∧ s.map Char.toLower ∈ forms ∧ '%' ∉ s.map Char.toLower := by
  have hplain : ∀ c ∈ s, unreserved c = true := by
    by_contra hnot
    exact not_dotsOnly hnot (hforms _ h)
  rw [encode_eq_self hplain] at h
  refine ⟨hplain, h, fun hmem => ?_⟩
  obtain ⟨c, hc, hlower⟩ := List.mem_map.mp hmem
  exact (unreserved_toLower (hplain c hc)).1 hlower

/-- **Only a dot is encoded to a single-dot segment.** -/
theorem singleDot_encode (s : List Char) : isSingleDot (encodeURIComponent s) = true ↔ s = ['.'] := by
  constructor
  · intro h
    obtain ⟨hplain, hmem, hpercent⟩ := dots_encode _ (by decide) (mem_of_spelled h)
    rcases List.mem_cons.mp hmem with he | he
    · obtain ⟨c, rfl, hc⟩ := List.map_eq_singleton_iff.mp he
      rw [(unreserved_toLower (hplain c List.mem_cons_self)).2 hc]
    · rw [List.mem_singleton.mp he] at hpercent
      exact absurd List.mem_cons_self hpercent
  · rintro rfl
    decide

/-- **Only two dots are encoded to a double-dot segment.** -/
theorem doubleDot_encode (s : List Char) :
    isDoubleDot (encodeURIComponent s) = true ↔ s = ['.', '.'] := by
  constructor
  · intro h
    obtain ⟨hplain, hmem, hpercent⟩ := dots_encode _ (by decide) (mem_of_spelled h)
    rcases List.mem_cons.mp hmem with he | he
    · obtain ⟨c, s, rfl, hc, hs⟩ := List.map_eq_cons_iff.mp he
      obtain ⟨d, rfl, hd⟩ := List.map_eq_singleton_iff.mp hs
      rw [(unreserved_toLower (hplain c List.mem_cons_self)).2 hc,
        (unreserved_toLower (hplain d (List.mem_cons_of_mem _ List.mem_cons_self))).2 hd]
    · -- the other forms have a percent sign
      have hforms : ∀ f ∈ ([['.', '%', '2', 'e'], ['%', '2', 'e', '.'], ['%', '2', 'e', '%', '2', 'e']] :
          List (List Char)), '%' ∈ f := by decide
      exact absurd (hforms _ he) hpercent
  · rintro rfl
    decide

/-! ## a path of two segments and a component -/

/-- **The path that is asked for**: a component that is a dot segment is gone. -/
theorem urlPath_three (a b s : List Char) (ha : '/' ∉ a) (hb : '/' ∉ b) (hs : '/' ∉ s)
    (hadots : isDoubleDot a = false ∧ isSingleDot a = false)
    (hbdots : isDoubleDot b = false ∧ isSingleDot b = false) :
    urlPath ('/' :: (a ++ '/' :: (b ++ '/' :: s))) =
      if isDoubleDot s then '/' :: (a ++ ['/'])
      else '/' :: (a ++ '/' :: (b ++ '/' :: if isSingleDot s then [] else s)) := by
  have hsplit : (a ++ '/' :: (b ++ '/' :: s)).splitOn '/' = [a, b, s] := by
    rw [List.splitOn_append_cons_self_of_not_mem ha, List.splitOn_append_cons_self_of_not_mem hb,
      List.splitOn_eq_singleton hs]
  unfold urlPath
  show (takeSegments [] ((a ++ '/' :: (b ++ '/' :: s)).splitOn '/')).flatMap _ = _
  rw [hsplit]
  simp only [takeSegments, hadots.1, hadots.2, hbdots.1, hbdots.2]
  split_ifs <;> simp_all

end UrlPath
end CServer
