import CServer.Lib.FlatJson

/-!
# `json_escape`

* `jsonEscape cap src`   `some dest` when the C function returns 0 with `dest` in the buffer,
                         `none` when it returns -1;
* `Clean s`              no byte below 0x20 but `\n`, `\r` and `\t`;
* `jsonEscape_eq_some`   the function succeeds exactly on clean sources whose escaped text and
                         terminator fit the buffer, and then writes the escaped text;
* `escapePieces`         the escaped text as a string of the flat JSON grammar, which
                         decodes to the source.
-/

namespace CServer

/-- the text `esc` of the switch; the default branch copies the byte -/
def escSeq (c : Byte) : Bytes :=
  if c = quote then [backslash, quote]
  else if c = backslash then [backslash, backslash]
  else if c = lf then [backslash, 110]
  else if c = cr then [backslash, 114]
  else if c = tab then [backslash, 116]
  else [c]

/-- `esc == seq`: the default branch of the switch was taken -/
def isPlain (c : Byte) : Bool :=
  c != quote && c != backslash && c != lf && c != cr && c != tab

def jsonEscapeLoop (destCap : Nat) (dest : Bytes) : Bytes → Option Bytes
  | [] => some dest
  | c :: p =>
    if c < 0x20 ∧ isPlain c then none
    else if dest.length + (escSeq c).length + 1 > destCap then none
    else jsonEscapeLoop destCap (dest ++ escSeq c) p

def jsonEscape (destCap : Nat) (src : CStr) : Option Bytes :=
  if destCap = 0 then none else jsonEscapeLoop destCap [] src.bytes

/-! ## what it computes -/

/-- a byte that a JSON string of this server can carry -/
def CleanByte (c : Byte) : Prop := 0x20 ≤ c ∨ c = lf ∨ c = cr ∨ c = tab

instance (c : Byte) : Decidable (CleanByte c) := by unfold CleanByte; infer_instance

def Clean (s : Bytes) : Prop := ∀ c ∈ s, CleanByte c

instance (s : Bytes) : Decidable (Clean s) := by unfold Clean; infer_instance

theorem Clean.nil : Clean [] := fun c hc => absurd hc (by simp)

theorem clean_cons (c : Byte) (s : Bytes) : Clean (c :: s) ↔ CleanByte c ∧ Clean s := by
  simp [Clean]

/-- the control bytes without a named escape are the ones that are not clean -/
theorem cleanByte_iff (c : Byte) : CleanByte c ↔ ¬ (c < 0x20 ∧ isPlain c = true) := by
  unfold CleanByte isPlain
  constructor
  · rintro (h | h | h | h) ⟨hlt, hp⟩
    · exact absurd hlt (UInt8.not_lt.mpr h)
    · simp [h] at hp
    · simp [h] at hp
    · simp [h] at hp
  · intro h
    by_cases hlt : c < 0x20
    · have hq : c ≠ quote := fun e => absurd (e ▸ hlt) (by decide)
      have hb : c ≠ backslash := fun e => absurd (e ▸ hlt) (by decide)
      by_contra hn
      simp only [not_or] at hn
      exact h ⟨hlt, by simp [hq, hb, hn.2.1, hn.2.2.1, hn.2.2.2]⟩
    · exact .inl (UInt8.not_lt.mp hlt)

/-- the escaped text of a source -/
def escapeText (s : Bytes) : Bytes := s.flatMap escSeq

theorem escapeText_nil : escapeText [] = [] := rfl
theorem escapeText_cons (c : Byte) (s : Bytes) :
    escapeText (c :: s) = escSeq c ++ escapeText s := rfl

theorem escSeq_le_two (c : Byte) : (escSeq c).length ≤ 2 := by
  unfold escSeq
  split_ifs <;> simp

/-- escaping at most doubles a text -/
theorem escapeText_length_le (s : Bytes) : (escapeText s).length ≤ 2 * s.length := by
  induction s with
  | nil => simp [escapeText_nil]
  | cons c s ih =>
    have h := escSeq_le_two c
    rw [escapeText_cons, List.length_append, List.length_cons]
    omega

theorem escapeText_replicate (n : Nat) (c : Byte) :
    (escapeText (List.replicate n c)).length = n * (escSeq c).length := by
  induction n with
  | zero => rw [Nat.zero_mul]; rfl
  | succ n ih =>
    rw [List.replicate_succ, escapeText_cons, List.length_append, ih, Nat.succ_mul, Nat.add_comm]

theorem jsonEscapeLoop_eq_some (destCap : Nat) (dest src e : Bytes) (hd : dest.length < destCap) :
    jsonEscapeLoop destCap dest src = some e ↔
      Clean src ∧ e = dest ++ escapeText src ∧ e.length < destCap := by
  induction src generalizing dest with
  | nil =>
    rw [jsonEscapeLoop, escapeText_nil, List.append_nil]
    constructor
    · intro h
      have he : dest = e := Option.some.inj h
      exact ⟨Clean.nil, he.symm, he ▸ hd⟩
    · rintro ⟨_, rfl, _⟩
      rfl
  | cons c src ih =>
    rw [jsonEscapeLoop, clean_cons, escapeText_cons, cleanByte_iff]
    by_cases hc : c < 0x20 ∧ isPlain c = true
    · rw [if_pos hc]
      simp [hc]
    · rw [if_neg hc]
      by_cases hfit : dest.length + (escSeq c).length + 1 > destCap
      · rw [if_pos hfit]
        constructor
        · intro h
          exact absurd h (by simp)
        · rintro ⟨_, rfl, hlen⟩
          simp only [List.length_append] at hlen
          omega
      · have hd' : (dest ++ escSeq c).length < destCap := by
          rw [List.length_append]
          omega
        rw [if_neg hfit, ih _ hd', List.append_assoc]
        simp [hc]

/-- **`json_escape` succeeds exactly on the clean sources that fit, and writes their escaped
text.** -/
theorem jsonEscape_eq_some (destCap : Nat) (src : CStr) (e : Bytes) :
    jsonEscape destCap src = some e ↔
      Clean src.bytes ∧ e = escapeText src.bytes ∧ e.length < destCap := by
  unfold jsonEscape
  by_cases h0 : destCap = 0
  · rw [if_pos h0]
    constructor
    · intro h
      exact absurd h (by simp)
    · rintro ⟨_, _, hlt⟩
      omega
  · rw [if_neg h0, jsonEscapeLoop_eq_some _ _ _ _ (by simpa using Nat.pos_of_ne_zero h0)]
    rfl

/-- a clean source fits a buffer of twice its length and one more byte -/
theorem jsonEscape_of_clean (destCap : Nat) (src : CStr) (h : Clean src.bytes)
    (hcap : 2 * src.length < destCap) : jsonEscape destCap src = some (escapeText src.bytes) := by
  have hle := escapeText_length_le src.bytes
  have hlen : 2 * src.bytes.length < destCap := hcap
  exact (jsonEscape_eq_some destCap src _).mpr ⟨h, rfl, by omega⟩

theorem jsonEscape_of_not_clean (destCap : Nat) (src : CStr) (h : ¬ Clean src.bytes) :
    jsonEscape destCap src = none := by
  cases he : jsonEscape destCap src with
  | none => rfl
  | some e => exact absurd ((jsonEscape_eq_some _ _ _).mp he).1 h

/-- what an accepted source is written as -/
theorem jsonEscape_isSome (destCap : Nat) (src : CStr) (h : (jsonEscape destCap src).isSome) :
    jsonEscape destCap src = some (escapeText src.bytes) ∧ Clean src.bytes := by
  obtain ⟨e, he⟩ := Option.isSome_iff_exists.mp h
  obtain ⟨hclean, hval, _⟩ := (jsonEscape_eq_some destCap src e).mp he
  exact ⟨hval ▸ he, hclean⟩

/-! ## the escaped text in the grammar -/

open FlatJson in
/-- the piece that `json_escape` writes for a byte -/
def pieceOf (c : Byte) : Piece :=
  if hq : c = quote then .esc .quote
  else if hb : c = backslash then .esc .backslash
  else if c = lf then .esc .newline
  else if c = cr then .esc .carriage
  else if c = tab then .esc .tab
  else .raw c hq hb

theorem pieceOf_text (c : Byte) : (pieceOf c).text = escSeq c := by
  unfold pieceOf escSeq
  split_ifs <;> rfl

theorem pieceOf_value (c : Byte) : (pieceOf c).value = c := by
  unfold pieceOf
  split_ifs with h1 h2 h3 h4 h5 <;>
    simp only [FlatJson.Piece.value, FlatJson.Escape.value, *]

theorem pieceOf_strict (c : Byte) (h : CleanByte c) : (pieceOf c).Strict := by
  unfold pieceOf
  split_ifs with h1 h2 h3 h4 h5
  · trivial
  · trivial
  · trivial
  · trivial
  · trivial
  · rcases h with h | h | h | h
    · exact h
    · exact absurd h h3
    · exact absurd h h4
    · exact absurd h h5

def escapePieces (s : Bytes) : FlatJson.Str := s.map pieceOf

theorem escapePieces_body (s : Bytes) : (escapePieces s).body = escapeText s := by
  induction s with
  | nil => rfl
  | cons c s ih =>
    show (pieceOf c).text ++ (escapePieces s).body = _
    rw [ih, pieceOf_text, escapeText_cons]

theorem escapePieces_value (s : Bytes) : (escapePieces s).value = s := by
  induction s with
  | nil => rfl
  | cons c s ih =>
    show (pieceOf c).value :: (escapePieces s).value = _
    rw [ih, pieceOf_value]

theorem escapePieces_strict (s : Bytes) (h : Clean s) : (escapePieces s).Strict := by
  intro p hp
  obtain ⟨c, hc, rfl⟩ := List.mem_map.mp hp
  exact pieceOf_strict c (h c hc)

end CServer
