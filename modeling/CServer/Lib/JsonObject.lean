import Mathlib.Data.List.Nodup
import Mathlib.Tactic.IntervalCases

/-!
# Objects of strings, as `JSON.parse` and `JSON.stringify` see them

A text is the list of its characters.

* `quoted`, `layout`   a string, and an object of strings with white space around its members;
* `readBody`           the rest of a string behind its opening quote;
* `parseObject`        the members of an object text whose values are strings;
* `parse_layout`       **an object is read back from every layout of it.**
-/

set_option linter.unusedVariables false

namespace CServer
namespace JsonObject

/-! ## strings -/

/-- a hexadecimal digit in lower case -/
def hexDigit (n : Nat) : Char := if n < 10 then Char.ofNat (48 + n) else Char.ofNat (87 + n)

def hexValue (c : Char) : Option Nat :=
  if '0' ≤ c ∧ c ≤ '9' then some (c.toNat - 48)
  else if 'a' ≤ c ∧ c ≤ 'f' then some (c.toNat - 87)
  else if 'A' ≤ c ∧ c ≤ 'F' then some (c.toNat - 55)
  else none

/-- the escapes with a letter of their own -/
def shortEscape (c : Char) : Option Char :=
  if c = '"' then some '"'
  else if c = '\\' then some '\\'
  else if c = '\x08' then some 'b'
  else if c = '\x0c' then some 'f'
  else if c = '\n' then some 'n'
  else if c = '\r' then some 'r'
  else if c = '\t' then some 't'
  else none

/-- how `JSON.stringify` writes a character -/
def escapeChar (c : Char) : List Char :=
  match shortEscape c with
  | some d => ['\\', d]
  | none =>
    if c.toNat < 0x20 then ['\\', 'u', '0', '0', hexDigit (c.toNat / 16), hexDigit (c.toNat % 16)]
    else [c]

def escaped (s : List Char) : List Char := s.flatMap escapeChar

/-- a string with its quotes -/
def quoted (s : List Char) : List Char := '"' :: (escaped s ++ ['"'])

/-- what the letter of an escape stands for -/
def letterValue (c : Char) : Option Char :=
  if c = '"' ∨ c = '\\' ∨ c = '/' then some c
  else if c = 'b' then some '\x08'
  else if c = 'f' then some '\x0c'
  else if c = 'n' then some '\n'
  else if c = 'r' then some '\r'
  else if c = 't' then some '\t'
  else none

def readHex4 : List Char → Option (Nat × List Char)
  | a :: b :: c :: d :: s =>
    match hexValue a, hexValue b, hexValue c, hexValue d with
    | some a, some b, some c, some d => some (4096 * a + 256 * b + 16 * c + d, s)
    | _, _, _, _ => none
  | _ => none

/-- the second half of a pair; a first half alone is no character -/
def readLow (high : Nat) : List Char → Option (Char × List Char)
  | c :: d :: s =>
    if c = '\\' ∧ d = 'u' then
      match readHex4 s with
      | some (low, s) =>
        if 0xDC00 ≤ low ∧ low ≤ 0xDFFF then
          some (Char.ofNat (0x10000 + 0x400 * (high - 0xD800) + (low - 0xDC00)), s)
        else none
      | none => none
    else none
  | _ => none

/-- behind `\u` -/
def readUnicode (s : List Char) : Option (Char × List Char) :=
  match readHex4 s with
  | none => none
  | some (n, s) =>
    if 0xD800 ≤ n ∧ n ≤ 0xDBFF then readLow n s
    else if 0xDC00 ≤ n ∧ n ≤ 0xDFFF then none
    else some (Char.ofNat n, s)

/-- behind the backslash -/
def readEscape : List Char → Option (Char × List Char)
  | [] => none
  | c :: s => if c = 'u' then readUnicode s else (letterValue c).map fun d => (d, s)

/-- one character of a string -/
def readChar : List Char → Option (Char × List Char)
  | [] => none
  | c :: s =>
    if c = '\\' then readEscape s else if c.toNat < 0x20 then none else some (c, s)

/-- The rest of a string behind its opening quote, and what follows the closing one. A character takes
a turn, so a text never has more turns than characters. -/
def readBody : Nat → List Char → Option (List Char × List Char)
  | 0, _ => none
  | _ + 1, [] => none
  | turns + 1, c :: s =>
    if c = '"' then some ([], s)
    else
      match readChar (c :: s) with
      | none => none
      | some (d, s) => (readBody turns s).map fun p => (d :: p.1, p.2)

/-! ## objects -/

def isBlank (c : Char) : Bool := c = ' ' || c = '\t' || c = '\n' || c = '\r'

def skip (s : List Char) : List Char := s.dropWhile isBlank

/-- the text behind `c`, when that is the next character but for blanks -/
def expect (c : Char) (s : List Char) : Option (List Char) :=
  match skip s with
  | [] => none
  | d :: s => if d = c then some s else none

def readString (s : List Char) : Option (List Char × List Char) :=
  (expect '"' s).bind fun s => readBody s.length s

abbrev Members := List (List Char × List Char)

/-- behind an opening brace or a comma: a member, and the others up to the closing brace -/
def readMembers : Nat → List Char → Option (Members × List Char)
  | 0, _ => none
  | turns + 1, s =>
    match readString s with
    | none => none
    | some (name, s) =>
      match (expect ':' s).bind readString with
      | none => none
      | some (value, s) =>
        match expect ',' s with
        | some s => (readMembers turns s).map fun p => ((name, value) :: p.1, p.2)
        | none => (expect '}' s).map fun s => ([(name, value)], s)

/-- what an assignment to a property leaves: a name keeps its place -/
def setMember (ms : Members) (name value : List Char) : Members :=
  if ms.any (fun m => m.1 = name) then ms.map fun m => if m.1 = name then (name, value) else m
  else ms ++ [(name, value)]

/-- The object of a text whose members are strings, the last value of a name counting; `none` for any
other text. -/
def parseObject (s : List Char) : Option Members :=
  match expect '{' s with
  | none => none
  | some s =>
    let read := match expect '}' s with
      | some s => some ([], s)
      | none => readMembers s.length s
    match read with
    | none => none
    | some (ms, s) =>
      if skip s = [] then some (ms.foldl (fun out m => setMember out m.1 m.2) []) else none

def member (name : List Char) (ms : Members) : Option (List Char) :=
  (ms.find? fun m => m.1 = name).map Prod.snd

/-! ## layouts -/

/-- the white space of a layout: in front of a member, behind a colon, in front of the closing brace -/
structure Layout where
  before : List Char
  behindColon : List Char
  close : List Char
  blank : ∀ c ∈ before ++ behindColon ++ close, isBlank c = true

/-- `JSON.stringify(value)` -/
def compact : Layout := ⟨[], [], [], by simp⟩

/-- `JSON.stringify(value, null, 2)` -/
def indented : Layout := ⟨['\n', ' ', ' '], [' '], ['\n'], by simp [isBlank]⟩

def Layout.member (l : Layout) (m : List Char × List Char) : List Char :=
  l.before ++ (quoted m.1 ++ ':' :: (l.behindColon ++ quoted m.2))

def Layout.members (l : Layout) : Members → List Char
  | [] => ['}']
  | [m] => l.member m ++ (l.close ++ ['}'])
  | m :: ms => l.member m ++ ',' :: l.members ms

/-- an object in a layout -/
def Layout.text (l : Layout) (ms : Members) : List Char := '{' :: l.members ms

/-! ## strings are read back -/

theorem hexValue_hexDigit (n : Nat) (h : n < 16) : hexValue (hexDigit n) = some n := by
  interval_cases n <;> rfl

theorem letterValue_shortEscape (c d : Char) (h : shortEscape c = some d) :
    letterValue d = some c ∧ d ≠ 'u' := by
  unfold shortEscape at h
  split_ifs at h with h1 h2 h3 h4 h5 h6 h7
  all_goals
    cases h
    subst_vars
    exact ⟨rfl, by decide⟩

theorem shortEscape_none (c : Char) (h : shortEscape c = none) : c ≠ '"' ∧ c ≠ '\\' := by
  constructor
  · rintro rfl
    cases h
  · rintro rfl
    cases h

/-- **A character is read back from what `JSON.stringify` writes for it.** -/
theorem readChar_escapeChar (c : Char) (rest : List Char) :
    readChar (escapeChar c ++ rest) = some (c, rest) := by
  unfold escapeChar
  cases h : shortEscape c with
  | some d =>
    obtain ⟨hvalue, hu⟩ := letterValue_shortEscape c d h
    show readEscape (d :: rest) = _
    rw [readEscape, if_neg hu, hvalue]
    rfl
  | none =>
    obtain ⟨_, hback⟩ := shortEscape_none c h
    simp only
    by_cases hlow : c.toNat < 0x20
    · rw [if_pos hlow]
      have hhigh := hexValue_hexDigit (c.toNat / 16) (by omega)
      have hlast := hexValue_hexDigit (c.toNat % 16) (by omega)
      have hzero : hexValue '0' = some 0 := rfl
      have hsum : 4096 * 0 + 256 * 0 + 16 * (c.toNat / 16) + c.toNat % 16 = c.toNat := by omega
      show readUnicode ('0' :: '0' :: hexDigit (c.toNat / 16) :: hexDigit (c.toNat % 16) :: rest) = _
      have hread : readHex4 ('0' :: '0' :: hexDigit (c.toNat / 16) :: hexDigit (c.toNat % 16) :: rest) =
          some (c.toNat, rest) := by
        show (match hexValue '0', hexValue '0', hexValue (hexDigit (c.toNat / 16)),
            hexValue (hexDigit (c.toNat % 16)) with
          | some a, some b, some c, some d => some (4096 * a + 256 * b + 16 * c + d, rest)
          | _, _, _, _ => none) = _
        rw [hzero, hhigh, hlast]
        show some (_, rest) = _
        rw [hsum]
      unfold readUnicode
      rw [hread]
      simp only
      rw [if_neg (by omega), if_neg (by omega), Char.ofNat_toNat]
    · rw [if_neg hlow]
      show readChar (c :: rest) = _
      rw [readChar, if_neg hback, if_neg hlow]

theorem escapeChar_head (c : Char) : ∃ d s, escapeChar c = d :: s ∧ d ≠ '"' := by
  unfold escapeChar
  cases h : shortEscape c with
  | some d => exact ⟨'\\', [d], rfl, by decide⟩
  | none =>
    simp only
    by_cases hlow : c.toNat < 0x20
    · rw [if_pos hlow]
      exact ⟨'\\', _, rfl, by decide⟩
    · rw [if_neg hlow]
      exact ⟨c, [], rfl, (shortEscape_none c h).1⟩

theorem readBody_escaped (s rest : List Char) (turns : Nat) (h : s.length < turns) :
    readBody turns (escaped s ++ '"' :: rest) = some (s, rest) := by
  induction s generalizing turns with
  | nil =>
    cases turns with
    | zero => exact absurd h (Nat.not_lt_zero _)
    | succ turns =>
      show readBody (turns + 1) ('"' :: rest) = _
      rw [readBody, if_pos rfl]
  | cons c s ih =>
    cases turns with
    | zero => exact absurd h (Nat.not_lt_zero _)
    | succ turns =>
      obtain ⟨d, t, hesc, hd⟩ := escapeChar_head c
      have hread := readChar_escapeChar c (escaped s ++ '"' :: rest)
      rw [hesc, List.cons_append] at hread
      have htext : escaped (c :: s) ++ '"' :: rest = d :: (t ++ (escaped s ++ '"' :: rest)) := by
        show (escapeChar c ++ escaped s) ++ _ = _
        rw [hesc, List.append_assoc, List.cons_append]
      rw [htext, readBody, if_neg hd, hread]
      simp only
      rw [ih turns (Nat.lt_of_succ_lt_succ h)]
      rfl

theorem escaped_length (s : List Char) : s.length ≤ (escaped s).length := by
  induction s with
  | nil => exact Nat.le_refl 0
  | cons c s ih =>
    obtain ⟨d, t, hesc, _⟩ := escapeChar_head c
    show _ ≤ (escapeChar c ++ escaped s).length
    rw [hesc, List.length_append, List.length_cons, List.length_cons]
    omega

theorem expect_blanks (pad : List Char) (c : Char) (rest : List Char)
    (hpad : ∀ d ∈ pad, isBlank d = true) (hc : isBlank c = false) (e : Char) :
    expect e (pad ++ c :: rest) = if c = e then some rest else none := by
  have hskip : skip (pad ++ c :: rest) = c :: rest := by
    unfold skip
    rw [List.dropWhile_append_of_pos hpad, List.dropWhile_cons_of_neg]
    rw [hc]
    exact Bool.false_ne_true
  unfold expect
  rw [hskip]

theorem readString_quoted (pad s rest : List Char) (hpad : ∀ d ∈ pad, isBlank d = true) :
    readString (pad ++ (quoted s ++ rest)) = some (s, rest) := by
  have hlen := escaped_length s
  have hquoted : quoted s ++ rest = '"' :: (escaped s ++ '"' :: rest) := by
    unfold quoted
    rw [List.cons_append, List.append_assoc]
    rfl
  unfold readString
  rw [hquoted, expect_blanks pad '"' _ hpad (by decide), if_pos rfl, Option.bind_some]
  refine readBody_escaped s rest _ ?_
  rw [List.length_append, List.length_cons]
  omega

/-! ## objects are read back -/

section
variable (l : Layout)

theorem Layout.blank_before : ∀ c ∈ l.before, isBlank c = true := fun c hc =>
  l.blank c (List.mem_append_left _ (List.mem_append_left _ hc))

theorem Layout.blank_colon : ∀ c ∈ l.behindColon, isBlank c = true := fun c hc =>
  l.blank c (List.mem_append_left _ (List.mem_append_right _ hc))

theorem Layout.blank_close : ∀ c ∈ l.close, isBlank c = true := fun c hc =>
  l.blank c (List.mem_append_right _ hc)

/-- one member, up to the comma or the brace behind it -/
theorem readMembers_member (m : List Char × List Char) (turns : Nat) (rest : List Char) :
    readMembers (turns + 1) (l.member m ++ rest) =
      match expect ',' rest with
      | some s => (readMembers turns s).map fun p => (m :: p.1, p.2)
      | none => (expect '}' rest).map fun s => ([m], s) := by
  have htext : l.member m ++ rest =
      l.before ++ (quoted m.1 ++ ':' :: (l.behindColon ++ (quoted m.2 ++ rest))) := by
    unfold Layout.member
    simp only [List.append_assoc, List.cons_append]
  have hcolon : expect ':' (':' :: (l.behindColon ++ (quoted m.2 ++ rest))) =
      some (l.behindColon ++ (quoted m.2 ++ rest)) := by
    have h := expect_blanks [] ':' (l.behindColon ++ (quoted m.2 ++ rest)) (by simp) (by decide) ':'
    rwa [if_pos rfl] at h
  rw [htext, readMembers, readString_quoted l.before m.1 _ l.blank_before]
  simp only
  rw [hcolon, Option.bind_some, readString_quoted l.behindColon m.2 rest l.blank_colon]

theorem readMembers_members (m : List Char × List Char) (ms : Members) (rest : List Char) (turns : Nat)
    (h : ms.length < turns) : readMembers turns (l.members (m :: ms) ++ rest) = some (m :: ms, rest) := by
  induction ms generalizing m turns with
  | nil =>
    cases turns with
    | zero => exact absurd h (Nat.not_lt_zero _)
    | succ turns =>
      have hclose : ∀ e, expect e (l.close ++ '}' :: rest) = if '}' = e then some rest else none :=
        expect_blanks l.close '}' rest l.blank_close (by decide)
      show readMembers (turns + 1) (l.member m ++ (l.close ++ ['}']) ++ rest) = _
      rw [List.append_assoc, readMembers_member, List.append_assoc]
      show (match expect ',' (l.close ++ '}' :: rest) with
        | some s => _
        | none => _) = _
      rw [hclose ',', if_neg (by decide)]
      show (expect '}' (l.close ++ '}' :: rest)).map _ = _
      rw [hclose '}', if_pos rfl]
      rfl
  | cons m' ms ih =>
    cases turns with
    | zero => exact absurd h (Nat.not_lt_zero _)
    | succ turns =>
      have hcomma := expect_blanks [] ',' (l.members (m' :: ms) ++ rest) (by simp) (by decide) ','
      rw [if_pos rfl, List.nil_append] at hcomma
      show readMembers (turns + 1) (l.member m ++ ',' :: l.members (m' :: ms) ++ rest) = _
      rw [List.append_assoc, readMembers_member, List.cons_append, hcomma]
      simp only
      rw [ih m' turns (Nat.lt_of_succ_lt_succ h)]
      rfl

/-- the members of distinct names are an object as they stand -/
theorem foldl_setMember (ms out : Members) (h : ((out ++ ms).map Prod.fst).Nodup) :
    ms.foldl (fun out m => setMember out m.1 m.2) out = out ++ ms := by
  induction ms generalizing out with
  | nil => exact (List.append_nil out).symm
  | cons m ms ih =>
    have hnew : ¬ (out.any fun o => o.1 = m.1) = true := by
      intro hany
      obtain ⟨o, ho, hname⟩ := List.any_eq_true.mp hany
      rw [List.map_append, List.nodup_append] at h
      exact h.2.2 o.1 (List.mem_map_of_mem ho) m.1 (List.mem_map_of_mem List.mem_cons_self)
        (of_decide_eq_true hname)
    have hset : setMember out m.1 m.2 = out ++ [m] := if_neg hnew
    have hassoc : out ++ m :: ms = (out ++ [m]) ++ ms := by rw [List.append_assoc]; rfl
    rw [List.foldl_cons, hset, hassoc]
    exact ih (out ++ [m]) (by rw [← hassoc]; exact h)

theorem members_length (m : List Char × List Char) (ms : Members) :
    ms.length < (l.members (m :: ms)).length := by
  induction ms generalizing m with
  | nil =>
    show 0 < (l.member m ++ (l.close ++ ['}'])).length
    rw [List.length_append, List.length_append, List.length_singleton]
    omega
  | cons m' ms ih =>
    have hrest := ih m'
    show _ < (l.member m ++ ',' :: l.members (m' :: ms)).length
    rw [List.length_append, List.length_cons, List.length_cons]
    omega

/-- a member starts with its quote -/
theorem Layout.members_quote (m : List Char × List Char) (ms : Members) :
    ∃ rest, l.members (m :: ms) = l.before ++ '"' :: rest := by
  have hmember : l.member m =
      l.before ++ '"' :: (escaped m.1 ++ ['"'] ++ ':' :: (l.behindColon ++ quoted m.2)) := rfl
  cases ms with
  | nil =>
    refine ⟨escaped m.1 ++ ['"'] ++ ':' :: (l.behindColon ++ quoted m.2) ++ (l.close ++ ['}']), ?_⟩
    show l.member m ++ (l.close ++ ['}']) = _
    rw [hmember, List.append_assoc, List.cons_append]
  | cons m' ms =>
    refine ⟨escaped m.1 ++ ['"'] ++ ':' :: (l.behindColon ++ quoted m.2) ++ ',' :: l.members (m' :: ms), ?_⟩
    show l.member m ++ ',' :: l.members (m' :: ms) = _
    rw [hmember, List.append_assoc, List.cons_append]

/-- **An object of strings is read back, whatever its layout.** -/
theorem parse_layout (ms : Members) (h : (ms.map Prod.fst).Nodup) :
    parseObject (l.text ms) = some ms := by
  have hopen : expect '{' (l.text ms) = some (l.members ms) := by
    have hbrace := expect_blanks [] '{' (l.members ms) (by simp) (by decide) '{'
    rwa [if_pos rfl] at hbrace
  have hset : ms.foldl (fun out m => setMember out m.1 m.2) [] = ms := by
    rw [foldl_setMember ms [] (by rw [List.nil_append]; exact h), List.nil_append]
  unfold parseObject
  rw [hopen]
  cases ms with
  | nil => rfl
  | cons m ms =>
    have hnot : expect '}' (l.members (m :: ms)) = none := by
      obtain ⟨rest, hrest⟩ := l.members_quote m ms
      rw [hrest, expect_blanks l.before '"' rest l.blank_before (by decide), if_neg (by decide)]
    have hread := readMembers_members l m ms [] _ (members_length l m ms)
    rw [List.append_nil] at hread
    simp only
    rw [hnot]
    simp only
    rw [hread]
    simp only
    rw [hset]
    exact if_pos rfl

end

end JsonObject
end CServer
