import Mathlib

/-!
# The words of a shell command line

A command line is read character by character into words. A word keeps for each of its characters
whether it was quoted, since only an unquoted `*`, `?` or `[` makes it a pattern of file names.

* `Shell.read`            the words of the rest of a line, in the mode that the reading stands in;
* `Shell.simpleCommand`   the arguments of a line that is one simple command and expands nothing;
* `gap_step`, `word_step`   what one character does, between words and inside one;
* `Apart.append`          a reading that has dropped a character of its word does not catch up;
* `gap_sync`, `single_sync`   a word that is read as it stands holds nothing that the shell takes for syntax.
-/

namespace CServer
namespace Shell

abbrev Chars := List Char

/-- the characters of a word, each with whether it was quoted -/
abbrev Letters := List (Char × Bool)

def Letters.text (w : Letters) : Chars := w.map Prod.fst

def patternChars : List Char := ['*', '?', '[']

def Letters.IsPattern (w : Letters) : Prop := ∃ p ∈ w, p.2 = false ∧ p.1 ∈ patternChars

instance (w : Letters) : Decidable w.IsPattern := by unfold Letters.IsPattern; infer_instance

inductive Kind where
  | blank
  | special
  | single
  | double
  | backslash
  | plain
  deriving DecidableEq

/-- What an unquoted character does: the special ones end a command, open a substitution or an
expansion, or are reserved for it. -/
def kind (c : Char) : Kind :=
  match c with
  | ' ' | '\t' => .blank
  | '|' | '&' | ';' | '<' | '>' | '(' | ')' | '$' | '\x60' | '\n' => .special
  | '\'' => .single
  | '"' => .double
  | '\\' => .backslash
  | _ => .plain

inductive Mode where
  | gap
  | gapEscaped
  | bare
  | escaped
  | single
  | double
  | doubleEscaped
  deriving DecidableEq

/-- what is left of the word that is being read, and the words behind it -/
abbrev Reading := Letters × List Letters

def push (c : Char) (quoted : Bool) (r : Reading) : Reading := ((c, quoted) :: r.1, r.2)

/-- a word begins here -/
def begin (r : Reading) : Reading := ([], r.1 :: r.2)

/-- The reading of the rest of a line: `none` for a quote without its end, a backslash that nothing
follows, and what is no plain word of one simple command (an operator, a second line, a comment, an
expansion). -/
def read : Mode → Chars → Option Reading
  | .gap, [] => some ([], [])
  | .gap, c :: s =>
    match kind c with
    | .blank => read .gap s
    | .special => none
    | .single => (read .single s).map begin
    | .double => (read .double s).map begin
    | .backslash => read .gapEscaped s
    | .plain => if c = '#' ∨ c = '~' then none else (read .bare s).map (begin ∘ push c false)
  | .gapEscaped, [] => none
  | .gapEscaped, c :: s =>
    -- a backslash and the end of the line vanish
    if c = '\n' then read .gap s else (read .bare s).map (begin ∘ push c true)
  | .bare, [] => some ([], [])
  | .bare, c :: s =>
    match kind c with
    | .blank => read .gap s
    | .special => none
    | .single => read .single s
    | .double => read .double s
    | .backslash => read .escaped s
    | .plain => (read .bare s).map (push c false)
  | .escaped, [] => none
  | .escaped, c :: s => if c = '\n' then read .bare s else (read .bare s).map (push c true)
  | .single, [] => none
  | .single, c :: s =>
    if kind c = .single then read .bare s else (read .single s).map (push c true)
  | .double, [] => none
  | .double, c :: s =>
    if kind c = .double then read .bare s
    else if kind c = .backslash then read .doubleEscaped s
    else if c = '$' ∨ c = '\x60' then none
    else (read .double s).map (push c true)
  | .doubleEscaped, [] => none
  | .doubleEscaped, c :: s =>
    if c = '\n' then read .double s
    else if c ∈ ['$', '\x60', '"', '\\'] then (read .double s).map (push c true)
    else (read .double s).map (push '\\' true ∘ push c true)

example : (read .gap "a  'b c'\\' d".toList).map (fun r => r.2.map Letters.text) =
    some [['a'], ['b', ' ', 'c', '\''], ['d']] := rfl

variable (files : Letters → List Chars)

/-- The word stands for itself: if it is a pattern, no file but one of its own name matches it. -/
def Stays (w : Letters) : Prop := w.IsPattern → files w = [] ∨ files w = [w.text]

instance (w : Letters) : Decidable (Stays files w) := by unfold Stays; infer_instance

/-- The arguments of a line that is one simple command without redirections, when none of its words is
expanded; the first word is taken for the name of the command, and `files` are the names that a
pattern matches. No line holds a NUL. -/
def simpleCommand (s : Chars) : Option (List Chars) :=
  if '\x00' ∈ s then none
  else (read .gap s).bind fun r =>
    if ∀ w ∈ r.2, Stays files w then some (r.2.map Letters.text) else none

/-! ## what stands behind a word -/

/-- The line ends here, or a blank follows and behind it a plain character. -/
inductive Ends : Chars → Prop where
  | nil : Ends []
  | next (b o : Char) (s : Chars) (hb : kind b = .blank) (ho : kind o = .plain) : Ends (b :: o :: s)

theorem kind_single {c : Char} : kind c = .single ↔ c = '\'' := by
  unfold kind
  split <;> simp_all

theorem kind_backslash {c : Char} : kind c = .backslash ↔ c = '\\' := by
  unfold kind
  split <;> simp_all

theorem kind_plain {c : Char} : kind c = .plain ↔
    c ∉ [' ', '\t', '|', '&', ';', '<', '>', '(', ')', '$', '\x60', '\n', '\'', '"', '\\'] := by
  unfold kind
  split <;> simp_all

/-- a character that no mode takes for something else -/
theorem kind_word {c : Char} (h : kind c = .blank ∨ kind c = .plain) :
    kind c ≠ .single ∧ kind c ≠ .double ∧ kind c ≠ .backslash ∧ c ≠ '\n' ∧ ¬ (c = '$' ∨ c = '\x60') := by
  refine ⟨?_, ?_, ?_, ?_, ?_⟩
  · rcases h with h | h <;> rw [h] <;> decide
  · rcases h with h | h <;> rw [h] <;> decide
  · rcases h with h | h <;> rw [h] <;> decide
  · rintro rfl
    simp [kind] at h
  · rintro (rfl | rfl) <;> simp [kind] at h

theorem read_gap_blank {c : Char} (s : Chars) (h : kind c = .blank) :
    read .gap (c :: s) = read .gap s := by
  rw [read, h]

theorem read_gap_plain {c : Char} (s : Chars) (h : kind c = .plain) :
    read .gap (c :: s) =
      if c = '#' ∨ c = '~' then none else (read .bare s).map (begin ∘ push c false) := by
  rw [read, h]

theorem read_bare_blank {c : Char} (s : Chars) (h : kind c = .blank) :
    read .bare (c :: s) = read .gap s := by
  rw [read, h]

theorem read_bare_plain {c : Char} (s : Chars) (h : kind c = .plain) :
    read .bare (c :: s) = (read .bare s).map (push c false) := by
  rw [read, h]

/-- Between quotes a blank is a character like another. -/
theorem read_quote_word {mode : Mode} {c : Char} (s : Chars) (hmode : mode = .single ∨ mode = .double)
    (h : kind c = .blank ∨ kind c = .plain) : read mode (c :: s) = (read mode s).map (push c true) := by
  obtain ⟨h1, h2, h3, -, h5⟩ := kind_word h
  rcases hmode with rfl | rfl
  · rw [read, if_neg h1]
  · rw [read, if_neg h2, if_neg h3, if_neg h5]

theorem text_push (c : Char) (quoted : Bool) (r : Reading) :
    Letters.text (push c quoted r).1 = c :: Letters.text r.1 := rfl

/-- What a character between words does: it is passed over, opens quotes, or begins a word. -/
inductive GapStep : Mode → Char → Chars → Reading → Prop where
  | passes {mode mode' : Mode} {c : Char} {s : Chars} {r : Reading} (hc : kind c ≠ .plain)
      (hmode' : mode' = .gap ∨ mode' = .gapEscaped) (h : read mode' s = some r) : GapStep mode c s r
  | opens {mode mode' : Mode} {c : Char} {s : Chars} {r : Reading} (hc : kind c ≠ .plain)
      (hmode' : mode' = .single ∨ mode' = .double) (h : read mode' s = some r) :
      GapStep mode c s (begin r)
  | begins {mode : Mode} {c : Char} {s : Chars} {r : Reading} (quoted : Bool)
      (hc : mode = .gap → kind c = .plain ∧ ¬ (c = '#' ∨ c = '~')) (h : read .bare s = some r) :
      GapStep mode c s (begin (push c quoted r))

theorem gap_step {mode : Mode} {c : Char} {s : Chars} {r : Reading}
    (hmode : mode = .gap ∨ mode = .gapEscaped) (h : read mode (c :: s) = some r) :
    GapStep mode c s r := by
  rcases hmode with rfl | rfl
  · rw [read] at h
    split at h
    case h_1 hc => exact .passes (by rw [hc]; decide) (.inl rfl) h
    case h_2 hc => cases h
    case h_3 hc =>
      obtain ⟨r', hr, rfl⟩ := Option.map_eq_some_iff.mp h
      exact .opens (by rw [hc]; decide) (.inl rfl) hr
    case h_4 hc =>
      obtain ⟨r', hr, rfl⟩ := Option.map_eq_some_iff.mp h
      exact .opens (by rw [hc]; decide) (.inr rfl) hr
    case h_5 hc => exact .passes (by rw [hc]; decide) (.inr rfl) h
    case h_6 hc =>
      split at h
      case isTrue => cases h
      case isFalse hfirst =>
        obtain ⟨r', hr, rfl⟩ := Option.map_eq_some_iff.mp h
        exact .begins false (fun _ => ⟨hc, hfirst⟩) hr
  · rw [read] at h
    split at h
    case isTrue hc =>
      subst hc
      exact .passes (by simp [kind]) (.inl rfl) h
    case isFalse hc =>
      obtain ⟨r', hr, rfl⟩ := Option.map_eq_some_iff.mp h
      exact .begins true (fun hgap => by cases hgap) hr

/-- Between words no word has been begun. -/
theorem read_gap_fst {s : Chars} {mode : Mode} {r : Reading} (hmode : mode = .gap ∨ mode = .gapEscaped)
    (h : read mode s = some r) : r.1 = [] := by
  induction s generalizing mode with
  | nil =>
    rcases hmode with rfl | rfl
    · rw [← Option.some.inj h]
    · cases h
  | cons c s ih =>
    cases gap_step hmode h with
    | passes hc hmode' h => exact ih hmode' h
    | opens hc hmode' h => rfl
    | begins quoted hc h => rfl

/-- At its end a word that is not read bare takes a plain character of what stands behind it. -/
theorem read_end {mode : Mode} {d : Chars} {r : Reading} (hd : Ends d)
    (hmode : mode ≠ .gap ∧ mode ≠ .gapEscaped) (h : read mode d = some r) :
    (mode = .bare ∧ r.1 = []) ∨ ∃ o ∈ Letters.text r.1, kind o = .plain := by
  cases hd with
  | nil =>
    cases mode with
    | gap => exact absurd rfl hmode.1
    | gapEscaped => exact absurd rfl hmode.2
    | bare => exact .inl ⟨rfl, by rw [← Option.some.inj h]⟩
    | escaped | single | double | doubleEscaped => exact absurd h (by simp [read])
  | next b o s hb ho =>
    obtain ⟨-, -, -, hline, -⟩ := kind_word (.inl hb)
    cases mode with
    | gap => exact absurd rfl hmode.1
    | gapEscaped => exact absurd rfl hmode.2
    | bare =>
      rw [read_bare_blank _ hb] at h
      exact .inl ⟨rfl, read_gap_fst (.inl rfl) h⟩
    | escaped =>
      rw [read, if_neg hline, read_bare_plain _ ho, Option.map_map] at h
      obtain ⟨r', -, rfl⟩ := Option.map_eq_some_iff.mp h
      exact .inr ⟨o, by simp [text_push], ho⟩
    | single =>
      rw [read_quote_word _ (.inl rfl) (.inl hb), read_quote_word _ (.inl rfl) (.inr ho),
        Option.map_map] at h
      obtain ⟨r', -, rfl⟩ := Option.map_eq_some_iff.mp h
      exact .inr ⟨o, by simp [text_push], ho⟩
    | double =>
      rw [read_quote_word _ (.inr rfl) (.inl hb), read_quote_word _ (.inr rfl) (.inr ho),
        Option.map_map] at h
      obtain ⟨r', -, rfl⟩ := Option.map_eq_some_iff.mp h
      exact .inr ⟨o, by simp [text_push], ho⟩
    | doubleEscaped =>
      rw [read, if_neg hline, read_quote_word _ (.inr rfl) (.inr ho)] at h
      split at h
      · obtain ⟨r', hr, rfl⟩ := Option.map_eq_some_iff.mp h
        obtain ⟨r'', -, rfl⟩ := Option.map_eq_some_iff.mp hr
        exact .inr ⟨o, by simp [text_push], ho⟩
      · obtain ⟨r', hr, rfl⟩ := Option.map_eq_some_iff.mp h
        obtain ⟨r'', -, rfl⟩ := Option.map_eq_some_iff.mp hr
        exact .inr ⟨o, by simp [text_push], ho⟩

/-! ## a reading that is behind the text

Once the reading has dropped a character that the word is to have, the word cannot be had any more: what
it still lacks is the text ahead and, in front of it, characters that no text outside quotes gives. -/

/-- what the word lacks in front of the text ahead, in a mode that can stand there -/
def Lead : Mode → Chars → Prop
  | .gap, _ => False
  | .gapEscaped, _ => False
  | .bare, q => q ≠ []
  | .escaped, q => '\\' ∈ q
  | .single, q => q ≠ []
  | .double, q => q ≠ []
  | .doubleEscaped, q => 2 ≤ q.length

theorem lead_append {mode : Mode} (q : Chars) (c : Char)
    (hmode : mode = .bare ∨ mode = .single ∨ mode = .double) : Lead mode (q ++ [c]) := by
  rcases hmode with rfl | rfl | rfl <;> exact List.append_ne_nil_of_right_ne_nil q (List.cons_ne_nil _ _)

def Behind (mode : Mode) (q : Chars) : Prop := Lead mode q ∧ ∀ c ∈ q, kind c ≠ .plain

theorem Behind.ne_nil {mode : Mode} {q : Chars} (h : Behind mode q) : q ≠ [] := by
  rintro rfl
  cases mode <;> simp [Behind, Lead] at h

theorem Behind.mode_ne {mode : Mode} {q : Chars} (h : Behind mode q) :
    mode ≠ .gap ∧ mode ≠ .gapEscaped := by
  constructor <;> rintro rfl <;> exact h.1

/-- a dropped character -/
theorem Behind.drop {mode mode' : Mode} {q : Chars} {c : Char} (h : Behind mode q) (hc : kind c ≠ .plain)
    (hlead : Lead mode' (q ++ [c])) : Behind mode' (q ++ [c]) := by
  refine ⟨hlead, fun e he => ?_⟩
  rcases List.mem_append.mp he with he | he
  · exact h.2 e he
  · rw [List.mem_singleton.mp he]
    exact hc

/-- a character that was read as the next one of the word -/
theorem Behind.turn {mode mode' : Mode} {q X t : Chars} {c : Char} (h : Behind mode q)
    (ht : c :: t = q ++ c :: X) (hmode' : mode' = .bare ∨ mode' = .single ∨ mode' = .double) :
    ∃ q', Behind mode' q' ∧ t = q' ++ X := by
  obtain ⟨q0, q', rfl⟩ := List.exists_cons_of_ne_nil h.ne_nil
  have hcons := List.cons.inj ht
  obtain rfl : c = q0 := hcons.1
  have htail : t = q' ++ c :: X := hcons.2
  refine ⟨q' ++ [c], ⟨?_, fun e he => h.2 e ?_⟩, ?_⟩
  · rcases hmode' with rfl | rfl | rfl <;> simp [Lead]
  · rcases List.mem_append.mp he with he | he
    · exact List.mem_cons_of_mem _ he
    · rw [List.mem_singleton.mp he]
      exact List.mem_cons_self
  · rw [htail, List.append_assoc, List.singleton_append]

/-- What a character inside a word does: it ends the word, is dropped, or is taken, in the last case with
the backslash in front of it. -/
inductive WordStep : Mode → Char → Chars → Reading → Prop where
  | ends {c : Char} {s : Chars} {r : Reading} (hr : r.1 = []) : WordStep .bare c s r
  | drops {mode mode' : Mode} {c : Char} {s : Chars} {r : Reading} (hc : kind c ≠ .plain)
      (hlead : ∀ q, (mode = .double → q ≠ []) → Lead mode' (q ++ [c])) (h : read mode' s = some r) :
      WordStep mode c s r
  | takes {mode mode' : Mode} {c : Char} {s : Chars} {r : Reading} (quoted : Bool)
      (hmode' : mode' = .bare ∨ mode' = .single ∨ mode' = .double)
      (hc : mode = .bare → mode' = .bare ∧ kind c = .plain) (h : read mode' s = some r) :
      WordStep mode c s (push c quoted r)
  | takesBoth {c : Char} {s : Chars} {r : Reading} (h : read .double s = some r) :
      WordStep .doubleEscaped c s (push '\\' true (push c true r))

theorem word_step {mode : Mode} {c : Char} {s : Chars} {r : Reading}
    (hmode : mode ≠ .gap ∧ mode ≠ .gapEscaped) (h : read mode (c :: s) = some r) :
    WordStep mode c s r := by
  cases mode with
  | gap => exact absurd rfl hmode.1
  | gapEscaped => exact absurd rfl hmode.2
  | bare =>
    rw [read] at h
    split at h
    case h_1 hc => exact .ends (read_gap_fst (.inl rfl) h)
    case h_2 hc => cases h
    case h_3 hc =>
      exact .drops (by rw [hc]; decide) (fun q _ => lead_append q c (.inr (.inl rfl))) h
    case h_4 hc =>
      exact .drops (by rw [hc]; decide) (fun q _ => lead_append q c (.inr (.inr rfl))) h
    case h_5 hc =>
      refine .drops (by rw [hc]; decide) (fun q _ => ?_) h
      rw [kind_backslash.mp hc]
      exact List.mem_append_right _ (List.mem_singleton.mpr rfl)
    case h_6 hc =>
      obtain ⟨r', hr, rfl⟩ := Option.map_eq_some_iff.mp h
      exact .takes false (.inl rfl) (fun _ => ⟨rfl, hc⟩) hr
  | escaped =>
    rw [read] at h
    split at h
    case isTrue hc =>
      subst hc
      exact .drops (by simp [kind]) (fun q _ => lead_append q _ (.inl rfl)) h
    case isFalse hc =>
      obtain ⟨r', hr, rfl⟩ := Option.map_eq_some_iff.mp h
      exact .takes true (.inl rfl) (fun hbare => by cases hbare) hr
  | single =>
    rw [read] at h
    split at h
    case isTrue hc => exact .drops (by rw [hc]; decide) (fun q _ => lead_append q c (.inl rfl)) h
    case isFalse hc =>
      obtain ⟨r', hr, rfl⟩ := Option.map_eq_some_iff.mp h
      exact .takes true (.inr (.inl rfl)) (fun hbare => by cases hbare) hr
  | double =>
    rw [read] at h
    split at h
    case isTrue hc => exact .drops (by rw [hc]; decide) (fun q _ => lead_append q c (.inl rfl)) h
    case isFalse hc =>
      split at h
      case isTrue hc =>
        refine .drops (by rw [hc]; decide) (fun q hq => ?_) h
        have hpos := List.length_pos_of_ne_nil (hq rfl)
        change 2 ≤ (q ++ [c]).length
        rw [List.length_append, List.length_singleton]
        omega
      case isFalse hc =>
        split at h
        case isTrue hc => cases h
        case isFalse hc =>
          obtain ⟨r', hr, rfl⟩ := Option.map_eq_some_iff.mp h
          exact .takes true (.inr (.inr rfl)) (fun hbare => by cases hbare) hr
  | doubleEscaped =>
    rw [read] at h
    split at h
    case isTrue hc =>
      subst hc
      exact .drops (by simp [kind]) (fun q _ => lead_append q _ (.inr (.inr rfl))) h
    case isFalse hc =>
      split at h
      case isTrue hc =>
        obtain ⟨r', hr, rfl⟩ := Option.map_eq_some_iff.mp h
        exact .takes true (.inr (.inr rfl)) (fun hbare => by cases hbare) hr
      case isFalse hc =>
        obtain ⟨r', hr, rfl⟩ := Option.map_eq_some_iff.mp h
        exact .takesBoth hr

/-- No reading of `d` gives what the word lacks. -/
def Apart (d : Chars) : Prop :=
  ∀ mode q r, Behind mode q → read mode d = some r → Letters.text r.1 ≠ q

theorem Ends.apart {d : Chars} (hd : Ends d) : Apart d := by
  intro mode q r hq h ht
  rcases read_end hd hq.mode_ne h with ⟨-, hr⟩ | ⟨o, ho, hplain⟩
  · rw [hr] at ht
    exact hq.ne_nil ht.symm
  · exact hq.2 o (ht ▸ ho) hplain

/-- the end of a quoted word -/
theorem Ends.quote_apart {d : Chars} (hd : Ends d) : Apart ('\'' :: d) := by
  intro mode q r hq h ht
  have hkind : kind '\'' = .single := kind_single.mpr rfl
  cases mode with
  | gap => exact hq.1
  | gapEscaped => exact hq.1
  | bare =>
    rw [read, hkind] at h
    rcases read_end hd (by decide) h with ⟨hmode, -⟩ | ⟨o, ho, hplain⟩
    · cases hmode
    · exact hq.2 o (ht ▸ ho) hplain
  | escaped =>
    rw [read, if_neg (by decide)] at h
    obtain ⟨r', hr, rfl⟩ := Option.map_eq_some_iff.mp h
    rcases read_end hd (by decide) hr with ⟨-, hnil⟩ | ⟨o, ho, hplain⟩
    · -- the word would be the quote alone, and the backslash is lacking
      rw [text_push, hnil] at ht
      have hmem : '\\' ∈ q := hq.1
      rw [← ht] at hmem
      exact absurd (List.mem_singleton.mp hmem) (by decide)
    · exact hq.2 o (ht ▸ List.mem_cons_of_mem _ ho) hplain
  | single =>
    rw [read, if_pos hkind] at h
    rcases read_end hd (by decide) h with ⟨-, hnil⟩ | ⟨o, ho, hplain⟩
    · rw [hnil] at ht
      exact hq.ne_nil ht.symm
    · exact hq.2 o (ht ▸ ho) hplain
  | double =>
    rw [read, if_neg (by rw [hkind]; decide), if_neg (by rw [hkind]; decide), if_neg (by decide)] at h
    obtain ⟨r', hr, rfl⟩ := Option.map_eq_some_iff.mp h
    rcases read_end hd (by decide) hr with ⟨hmode, -⟩ | ⟨o, ho, hplain⟩
    · cases hmode
    · exact hq.2 o (ht ▸ List.mem_cons_of_mem _ ho) hplain
  | doubleEscaped =>
    rw [read, if_neg (by decide), if_neg (by decide)] at h
    obtain ⟨r', hr, rfl⟩ := Option.map_eq_some_iff.mp h
    rcases read_end hd (by decide) hr with ⟨hmode, -⟩ | ⟨o, ho, hplain⟩
    · cases hmode
    · exact hq.2 o (ht ▸ List.mem_cons_of_mem _ (List.mem_cons_of_mem _ ho)) hplain

/-- **A reading that is behind never catches up.** -/
theorem Apart.append {d : Chars} (hd : Apart d) (X : Chars) {mode : Mode} {q : Chars} {r : Reading}
    (hq : Behind mode q) (h : read mode (X ++ d) = some r) : Letters.text r.1 ≠ q ++ X := by
  induction X generalizing mode q r with
  | nil =>
    rw [List.append_nil]
    exact hd mode q r hq h
  | cons c X ih =>
    cases word_step hq.mode_ne h with
    | ends hr =>
      rw [hr]
      exact (List.append_ne_nil_of_right_ne_nil _ (List.cons_ne_nil _ _)).symm
    | drops hc hlead hs =>
      rw [List.append_cons]
      exact ih (hq.drop hc (hlead q fun _ => hq.ne_nil)) hs
    | takes quoted hmode' hc hs =>
      intro ht
      obtain ⟨q', hq', ht⟩ := hq.turn ht hmode'
      exact ih hq' hs ht
    | takesBoth hs =>
      intro ht
      -- the backslash is lacking too, but it is not all that is lacking
      obtain ⟨q0, q', rfl⟩ := List.exists_cons_of_ne_nil hq.ne_nil
      obtain ⟨-, ht⟩ := List.cons.inj ht
      have hne' : q' ≠ [] := by
        rintro rfl
        exact absurd hq.1 (by simp [Lead])
      have hq' : Behind .double q' := ⟨hne', fun e he => hq.2 e (List.mem_cons_of_mem _ he)⟩
      obtain ⟨q'', hq'', ht⟩ := hq'.turn ht (.inr (.inr rfl))
      exact ih hq'' hs ht

/-- The same between words, where the word has not begun. -/
theorem gap_behind {d : Chars} (hd : Ends d) (X : Chars) {mode : Mode} {q : Chars} {r : Reading}
    (hmode : mode = .gap ∨ mode = .gapEscaped) (hq : Behind .bare q)
    (h : read mode (X ++ d) = some r) : r.2.head?.map Letters.text ≠ some (q ++ X) := by
  have hword : ∀ (r' : Reading) (t : Chars), Letters.text r'.1 ≠ t →
      (begin r').2.head?.map Letters.text ≠ some t := fun r' t hne ht => hne (Option.some.inj ht)
  induction X generalizing mode q r with
  | nil =>
    rw [List.append_nil]
    cases hd with
    | nil =>
      rcases hmode with rfl | rfl
      · rw [← Option.some.inj h]
        simp
      · exact absurd h (by simp [read])
    | next b o s hb ho =>
      rcases hmode with rfl | rfl
      · rw [List.nil_append, read_gap_blank _ hb, read_gap_plain _ ho] at h
        split at h
        · exact absurd h (by simp)
        · obtain ⟨r', -, rfl⟩ := Option.map_eq_some_iff.mp h
          refine hword (push o false r') q fun ht => hq.2 o ?_ ho
          rw [← ht]
          exact List.mem_cons_self
      · rw [List.nil_append, read, if_neg (kind_word (.inl hb)).2.2.2.1, read_bare_plain _ ho,
          Option.map_map] at h
        obtain ⟨r', -, rfl⟩ := Option.map_eq_some_iff.mp h
        refine hword (push b true (push o false r')) q fun ht => hq.2 o ?_ ho
        rw [← ht]
        exact List.mem_cons_of_mem _ List.mem_cons_self
  | cons c X ih =>
    cases gap_step hmode h with
    | passes hc hmode' hs =>
      rw [List.append_cons]
      exact ih hmode' (hq.drop hc (lead_append q c (.inl rfl))) hs
    | opens hc hmode' hs =>
      rw [List.append_cons]
      exact hword _ _ (hd.apart.append X (hq.drop hc (lead_append q c (.inr hmode'))) hs)
    | begins quoted hc hs =>
      refine hword _ _ fun ht => ?_
      obtain ⟨q', hq', ht⟩ := hq.turn ht (.inl rfl)
      exact hd.apart.append X hq' hs ht

/-! ## what a word that is read as it stands is like -/

/-- a word none of whose characters is taken for something else -/
structure BareWord (X : Chars) : Prop where
  ne_nil : X ≠ []
  plain : ∀ c ∈ X, kind c = .plain
  first : X.head? ≠ some '#' ∧ X.head? ≠ some '~'

theorem bare_sync {d X : Chars} {r : Reading} (hd : Ends d) (h : read .bare (X ++ d) = some r)
    (ht : Letters.text r.1 = X) : ∀ c ∈ X, kind c = .plain := by
  induction X generalizing r with
  | nil => simp
  | cons c X ih =>
    cases word_step (by decide) h with
    | ends hr =>
      rw [hr] at ht
      cases ht
    | drops hc hlead hs =>
      have hq := hlead [] fun hmode => by cases hmode
      exact absurd ht (hd.apart.append X ⟨hq, by simpa using hc⟩ hs)
    | takes quoted hmode' hbare hs =>
      obtain ⟨rfl, hc⟩ := hbare rfl
      have htail := (List.cons.inj ht).2
      intro e he
      rcases List.mem_cons.mp he with rfl | he
      · exact hc
      · exact ih hs htail e he

theorem gap_sync {d X : Chars} {r : Reading} (hd : Ends d) (h : read .gap (X ++ d) = some r)
    (ht : r.2.head?.map Letters.text = some X) : BareWord X := by
  cases X with
  | nil =>
    cases hd with
    | nil =>
      rw [← Option.some.inj h] at ht
      cases ht
    | next b o s hb ho =>
      rw [List.nil_append, read_gap_blank _ hb, read_gap_plain _ ho] at h
      split at h
      · cases h
      · obtain ⟨r', -, rfl⟩ := Option.map_eq_some_iff.mp h
        cases Option.some.inj ht
  | cons c X =>
    cases gap_step (.inl rfl) h with
    | passes hc hmode' hs =>
      have hq : Behind .bare [c] := ⟨by simp [Lead], by simpa using hc⟩
      exact absurd ht (gap_behind hd X hmode' hq hs)
    | opens hc hmode' hs =>
      have hlead := lead_append [] c (.inr hmode')
      exact absurd (Option.some.inj ht) (hd.apart.append X ⟨hlead, by simpa using hc⟩ hs)
    | begins quoted hgap hs =>
      obtain ⟨hc, hfirst⟩ := hgap rfl
      have htail := (List.cons.inj (Option.some.inj ht)).2
      refine ⟨List.cons_ne_nil _ _, fun e he => ?_, ?_, ?_⟩
      · rcases List.mem_cons.mp he with rfl | he
        · exact hc
        · exact bare_sync hd hs htail e he
      · exact fun he => hfirst (.inl (Option.some.inj he))
      · exact fun he => hfirst (.inr (Option.some.inj he))

theorem single_sync {d X : Chars} {r : Reading} (hd : Ends d)
    (h : read .single (X ++ '\'' :: d) = some r) (ht : Letters.text r.1 = X) : '\'' ∉ X := by
  induction X generalizing r with
  | nil => simp
  | cons c X ih =>
    rw [List.cons_append, read] at h
    split at h
    case isTrue hc =>
      have hq : Behind .bare [c] := ⟨by simp [Lead], by simp [hc]⟩
      exact absurd ht (hd.quote_apart.append X hq h)
    case isFalse hc =>
      obtain ⟨r', hr, rfl⟩ := Option.map_eq_some_iff.mp h
      have htail : Letters.text r'.1 = X := (List.cons.inj ht).2
      intro hmem
      rcases List.mem_cons.mp hmem with rfl | hmem
      · exact hc (kind_single.mpr rfl)
      · exact ih hr htail hmem

end Shell
end CServer
