import CServer.Console.Pad
import CServer.Lib.Memory
import CServer.Lib.Utf8

/-!
# `draw_row`

A row cuts a text that is too long into `safe`, centres it in a slot, colours it in another and prints
it through `painted`.  Here the writes into `safe` are checked; `none` is one outside the array, or a
read behind a text.

* `copyGlyphs`, `rowText`   the cut;
* `drawRow`                 the row;
* `copyGlyphs_ends`         where the loop of the cut stops;
* `paint_iff`               when the coloured text is printed whole;
* `rowExact_iff`            the rows that are exact;
* `rowExact_two_bytes`      up to U+07FF, all of them.
-/

namespace CServer
open Ansi

/-- `CONSOLE_MAX_WIDTH` -/
def consoleMaxWidth : Nat := 74

/-- the size of `safe` and of `painted` -/
def rowSize : Nat := consoleMaxWidth * 2 + 16

/-! ## the cut -/

/-- the loops' `safe`, `at` and `p` -/
structure RowCut where
  safe : Block rowSize
  filled : Nat
  p : Nat

/-- the inner loop, with `n` of its turns left -/
def copyGlyph (mem : Bytes) (seq : Nat) : Nat → RowCut → Option RowCut
  | 0, cut => some cut
  | n + 1, cut =>
    match mem[cut.p]? with
    | none => none
    | some c =>
      if c ≠ 0 ∧ cut.filled + seq < rowSize then
        match cut.safe.store cut.filled [c] with
        | none => none
        | some safe => copyGlyph mem seq n ⟨safe, cut.filled + 1, cut.p + 1⟩
      else some cut

def copyGlyphs (mem : Bytes) (room cells : Nat) (cut : RowCut) : Option RowCut :=
  match mem[cut.p]? with
  | none => none
  | some c =>
    if c ≠ 0 ∧ cells + 1 < room then
      match copyGlyph mem (seqLength c) (seqLength c) cut with
      | none => none
      | some cut => copyGlyphs mem room (cells + 1) cut
    else some cut
termination_by room - cells

/-- `'.'` -/
abbrev dot : Byte := 46

/-- the cut text: `safe` holds whatever the stack held before -/
def cutText (text : CStr) (room : Nat) (safe : Block rowSize) : Option CStr :=
  match copyGlyphs text.array room 0 ⟨safe, 0, 0⟩ with
  | none => none
  | some cut =>
    match cut.safe.store cut.filled [dot] with
    | none => none
    | some safe => (safe.store (cut.filled + 1) [0]).map fun safe => CStr.ofBytes safe.bytes

/-- the cells that a row leaves for its text -/
def rowRoom (inner : Nat) : Nat := if inner ≥ 3 then inner - 2 else inner

/-- the text that the row shows -/
def rowText (text : CStr) (inner : Nat) (safe : Block rowSize) : Option CStr :=
  match consoleVisibleWidth (some text) with
  | none => none
  | some used => if used > rowRoom inner then cutText text (rowRoom inner) safe else some text

/-! ## colours and glyphs -/

/-- what the terminal allows: `color_enabled()` and `unicode_enabled()` -/
structure Terminal where
  color : Bool
  unicode : Bool

def colorCode (name : CStr) : Bytes :=
  if name.bytes = ascii "bold" then ascii "1"
  else if name.bytes = ascii "white" then ascii "1;38;5;255"
  else if name.bytes = ascii "dim" then ascii "38;5;244"
  else if name.bytes = ascii "amber" then ascii "38;5;220"
  else if name.bytes = ascii "hot" then ascii "1;38;5;220"
  else if name.bytes = ascii "gold" then ascii "38;5;178"
  else if name.bytes = ascii "green" then ascii "38;5;71"
  else if name.bytes = ascii "cyan" then ascii "38;5;215"
  else if name.bytes = ascii "yellow" then ascii "38;5;220"
  else if name.bytes = ascii "red" then ascii "38;5;203"
  else if name.bytes = ascii "magenta" then ascii "38;5;170"
  else ascii "0"

/-- `"\033[%sm"` -/
def colorOpen (name : CStr) : Bytes := esc :: openBracket :: (colorCode name ++ ascii "m")

/-- `"\033[0m"` -/
def colorReset : Bytes := esc :: openBracket :: ascii "0m"

/-- what stands between `"\033["` and `"m"` -/
def CodeText (code : Bytes) : Prop := (∀ c ∈ code, isAlpha c = false ∧ c ≠ 0) ∧ code.length ≤ 10

instance (code : Bytes) : Decidable (CodeText code) := by unfold CodeText; infer_instance

theorem colorCode_text (name : CStr) : CodeText (colorCode name) := by
  unfold colorCode
  repeat refine iteInduction (motive := CodeText) (fun _ => by decide +kernel) fun _ => ?_
  decide +kernel

theorem colorOpen_nulFree (name : CStr) : (0 : Byte) ∉ colorOpen name := by
  intro h0
  unfold colorOpen at h0
  simp only [List.mem_cons, List.mem_append] at h0
  rcases h0 with h0 | h0 | h0 | h0
  · exact absurd h0 (by decide)
  · exact absurd h0 (by decide)
  · exact ((colorCode_text name).1 0 h0).2 rfl
  · exact absurd h0 (by decide)

/-- the printed text of `console_colorize` -/
def colored (name text : CStr) : CStr where
  bytes := colorOpen name ++ text.bytes ++ colorReset
  nulFree := by
    intro h0
    rcases List.mem_append.mp h0 with h0 | h0
    · rcases List.mem_append.mp h0 with h0 | h0
      · exact colorOpen_nulFree name h0
      · exact text.nulFree h0
    · exact absurd h0 (by decide)

/-- `console_colorize`; NULL is the empty text -/
def consoleColorize (term : Terminal) (name : CStr) (text : Option CStr) : CStr :=
  match text with
  | none => CStr.empty
  | some text => if term.color then (printSlot (colored name text)).toCStr else text

/-- a `Glyph` -/
structure Glyph where
  unicode : CStr
  ascii : CStr

def glyph (term : Terminal) (g : Glyph) : CStr := if term.unicode then g.unicode else g.ascii

/-- `G_VZ`, the vertical border -/
def glyphVz : Glyph := ⟨⟨[0xE2, 0x94, 0x82], by decide⟩, ⟨ascii "|", by decide⟩⟩

def dim : CStr := ⟨ascii "dim", by decide⟩

/-! ## the row -/

/-- the three strings that the row prints in front of the newline -/
structure Row where
  left : CStr
  painted : CBuf rowSize
  right : CStr

/-- `snprintf(painted, sizeof(painted), "%s", s)` -/
def printRow (s : CStr) : CBuf rowSize := CBuf.print rowSize (by decide) s

/-- `draw_row` -/
def drawRow (term : Terminal) (text : CStr) (inner : Nat) (color : CStr) (safe : Block rowSize) :
    Option Row :=
  match rowText text inner safe with
  | none => none
  | some text =>
    match consoleCenter (some text) inner with
    | none => none
    | some padded => some
        { left := consoleColorize term dim (some (glyph term glyphVz))
          painted := printRow (consoleColorize term color (some padded.toCStr))
          right := consoleColorize term dim (some (glyph term glyphVz)) }

/-! ## where the loops of the cut stop -/

/-- where the inner loop stops with `n` turns left -/
def reach (text : Bytes) (seq filled n : Nat) : Nat :=
  filled + min n (min (text.length - filled) (rowSize - seq - filled))

/-- both cursors are at the same byte of the text, and `safe` has what is behind them -/
structure RowCut.At (cut : RowCut) (text : Bytes) : Prop where
  same : cut.p = cut.filled
  inText : cut.filled ≤ text.length
  begins : cut.safe.Begins (text.take cut.filled)

theorem array_read (text : CStr) (i : Nat) (h : i < text.bytes.length) :
    text.array[i]? = text.bytes[i]? := List.getElem?_append_left h

theorem array_end (text : CStr) : text.array[text.bytes.length]? = some 0 := by
  show (text.bytes ++ [0])[text.bytes.length]? = some 0
  rw [List.getElem?_append_right (le_refl _), Nat.sub_self]
  rfl

theorem byte_ne_zero (text : CStr) (i : Nat) (c : Byte) (h : text.bytes[i]? = some c) : c ≠ 0 :=
  fun h0 => text.nulFree (h0 ▸ List.mem_of_getElem? h)

theorem copyGlyph_eq (text : CStr) (seq n : Nat) (hseq : 1 ≤ seq) (cut : RowCut)
    (h : cut.At text.bytes) :
    ∃ cut', copyGlyph text.array seq n cut = some cut' ∧ cut'.At text.bytes ∧
      cut'.filled = reach text.bytes seq cut.filled n := by
  induction n generalizing cut with
  | zero => exact ⟨cut, rfl, h, by rw [reach, Nat.zero_min, Nat.add_zero]⟩
  | succ n ih =>
    rw [copyGlyph, h.same]
    rcases Nat.eq_or_lt_of_le h.inText with hend | hlt
    · rw [hend, array_end]
      refine ⟨cut, if_neg fun hc => hc.1 rfl, h, ?_⟩
      unfold reach
      omega
    · obtain ⟨c, hc⟩ : ∃ c, text.bytes[cut.filled]? = some c := ⟨_, List.getElem?_eq_getElem hlt⟩
      rw [array_read text _ hlt, hc]
      by_cases hroom : cut.filled + seq < rowSize
      · have htake : text.bytes.take (cut.filled + 1) = text.bytes.take cut.filled ++ [c] := by
          rw [List.take_add_one, hc]
          rfl
        have hlen : (text.bytes.take cut.filled).length = cut.filled := List.length_take_of_le h.inText
        obtain ⟨safe, hstore, hbegins⟩ := h.begins.store c (by omega)
        rw [hlen] at hstore
        rw [← htake] at hbegins
        obtain ⟨cut', hcopy, hat, hfilled⟩ :=
          ih ⟨safe, cut.filled + 1, cut.filled + 1⟩ ⟨rfl, hlt, hbegins⟩
        refine ⟨cut', ?_, hat, ?_⟩
        · simp only
          rw [if_pos ⟨byte_ne_zero text _ c hc, hroom⟩, hstore]
          exact hcopy
        · rw [hfilled]
          unfold reach
          simp only
          omega
      · refine ⟨cut, if_neg fun hc => hroom hc.2, h, ?_⟩
        unfold reach
        omega

/-- what every turn of the outer loop keeps holds where it stops -/
theorem copyGlyphs_run (text : CStr) (room : Nat) (I : Nat → Nat → Prop)
    (hturn : ∀ filled cells c, text.bytes[filled]? = some c → cells + 1 < room → I filled cells →
      I (reach text.bytes (seqLength c) filled (seqLength c)) (cells + 1))
    (n cells : Nat) (hn : room - cells ≤ n) (cut : RowCut) (h : cut.At text.bytes)
    (hI : I cut.filled cells) :
    ∃ cut' cells', copyGlyphs text.array room cells cut = some cut' ∧ cut'.At text.bytes ∧
      I cut'.filled cells' ∧ (cut'.filled = text.bytes.length ∨ room ≤ cells' + 1) := by
  induction n generalizing cells cut with
  | zero =>
    obtain ⟨c, hc⟩ : ∃ c, text.array[cut.p]? = some c := by
      rw [h.same]
      rcases Nat.eq_or_lt_of_le h.inText with hend | hlt
      · exact ⟨0, by rw [hend, array_end]⟩
      · exact ⟨_, (array_read text _ hlt).trans (List.getElem?_eq_getElem hlt)⟩
    refine ⟨cut, cells, ?_, h, hI, .inr (by omega)⟩
    rw [copyGlyphs, hc]
    exact if_neg fun hc => absurd hc.2 (by omega)
  | succ n ih =>
    rw [copyGlyphs, h.same]
    rcases Nat.eq_or_lt_of_le h.inText with hend | hlt
    · rw [hend, array_end]
      exact ⟨cut, cells, if_neg fun hc => hc.1 rfl, h, hI, .inl hend⟩
    · obtain ⟨c, hc⟩ : ∃ c, text.bytes[cut.filled]? = some c := ⟨_, List.getElem?_eq_getElem hlt⟩
      rw [array_read text _ hlt, hc]
      by_cases hroom : cells + 1 < room
      · obtain ⟨next, hcopy, hat, hfilled⟩ :=
          copyGlyph_eq text (seqLength c) (seqLength c) (seqLength_bounds c).1 cut h
        obtain ⟨cut', cells', hrun, hat', hI', hstop⟩ :=
          ih (cells + 1) (by omega) next hat (hfilled ▸ hturn _ _ c hc hroom hI)
        refine ⟨cut', cells', ?_, hat', hI', hstop⟩
        simp only
        rw [if_pos ⟨byte_ne_zero text _ c hc, hroom⟩, hcopy]
        exact hrun
      · exact ⟨cut, cells, if_neg fun hc => hroom hc.2, h, hI, .inr (by omega)⟩

/-! ## the cut of a well-formed text -/

/-- A well-formed text in front of its NUL, without escape sequences. -/
structure Text where
  chars : List Char
  nulFree : '\x00' ∉ chars
  plain : Plain (utf8 chars)

namespace Text

def cstr (text : Text) : CStr := ⟨utf8 text.chars, utf8_nulFree _ text.nulFree⟩

/-- the bytes of the first `k` characters -/
def first (text : Text) (k : Nat) : Nat := (utf8 (text.chars.take k)).length

theorem cells_cstr (text : Text) : cells text.cstr.bytes = text.chars.length :=
  cells_utf8 text.chars text.plain

theorem first_le (text : Text) (k : Nat) : text.first k ≤ text.cstr.bytes.length :=
  (utf8_take_begins text.chars k).length_le

theorem first_all (text : Text) (k : Nat) (h : text.chars.length ≤ k) :
    text.first k = text.cstr.bytes.length := by
  unfold first
  rw [List.take_of_length_le h]
  rfl

theorem leads_first (text : Text) (k : Nat) (h : k ≤ text.chars.length) :
    leads (text.cstr.bytes.take (text.first k)) = k := by
  have htake : text.cstr.bytes.take (text.first k) = utf8 (text.chars.take k) := utf8_take text.chars k
  rw [htake, leads_utf8, List.length_take_of_le h]

end Text

/-- The loop has met a character that the guard keeps it from copying whole: the characters that the row
has room for take more than 160 bytes. -/
structure Overrun (text : Text) (room filled cells : Nat) : Prop where
  long : 160 < text.first (room - 1)
  full : 160 ≤ filled
  counted : leads (text.cstr.bytes.take filled) ≤ cells
  lost : 161 ≤ filled ∨ (∀ k, filled ≠ text.first k) ∨ leads (text.cstr.bytes.take filled) + 1 ≤ cells

/-- What every turn keeps: the cells counted are the characters copied, until one is not copied whole. -/
def Cutting (text : Text) (room filled cells : Nat) : Prop :=
  cells + 1 ≤ room ∧
    (cells ≤ text.chars.length ∧ filled = text.first cells ∨ Overrun text room filled cells)

theorem cutting_turn (text : Text) (room filled cells : Nat) (c : Byte)
    (hc : text.cstr.bytes[filled]? = some c) (hroom : cells + 1 < room)
    (h : Cutting text room filled cells) :
    Cutting text room (reach text.cstr.bytes (seqLength c) filled (seqLength c)) (cells + 1) := by
  have hbounds := seqLength_bounds c
  have hlt := (List.getElem?_eq_some_iff.mp hc).1
  refine ⟨hroom, ?_⟩
  obtain ⟨-, hwhole | hover⟩ := h
  · obtain ⟨hle, rfl⟩ := hwhole
    have hmore : cells < text.chars.length := by
      by_contra hge
      have hall := text.first_all cells (not_lt.mp hge)
      omega
    obtain ⟨ch, hch⟩ : ∃ ch, text.chars[cells]? = some ch := ⟨_, List.getElem?_eq_getElem hmore⟩
    obtain ⟨lead, tail, henc, hlead, hlen, htail, -⟩ := utf8EncodeChar_begins ch
    have hclead : c = lead := by
      have hdrop := utf8_drop text.chars cells ch hch
      rw [henc, List.cons_append] at hdrop
      exact Option.some.inj (hc.symm.trans (read_of_drop hdrop).1)
    subst hclead
    have hseq : (String.utf8EncodeChar ch).length = seqLength c := by
      rw [henc, hlen]
      rfl
    have hnext : text.first (cells + 1) = text.first cells + seqLength c := by
      unfold Text.first
      rw [utf8_take_succ text.chars cells ch hch, List.length_append, hseq]
    have hinText := text.first_le (cells + 1)
    by_cases hfits : text.first cells + seqLength c + seqLength c ≤ rowSize
    · left
      refine ⟨hmore, ?_⟩
      unfold reach
      omega
    · right
      -- the guard stops the copy `rowSize - seq - filled` bytes on, inside the character or in front of it
      obtain ⟨m, hm, hreach⟩ : ∃ m, m = rowSize - seqLength c - text.first cells ∧
          reach text.cstr.bytes (seqLength c) (text.first cells) (seqLength c) = text.first cells + m :=
        ⟨_, rfl, by unfold reach; omega⟩
      have hsize : rowSize = 164 := rfl
      have hmono : text.first (cells + 1) ≤ text.first (room - 1) :=
        utf8_take_mono text.chars (show cells + 1 ≤ room - 1 by omega)
      have hcounted := leads_step text.chars (text.first cells) m c hc (by omega)
      have hbefore := text.leads_first cells hle
      rw [hreach]
      refine ⟨by omega, by omega, ?_, ?_⟩
      · exact hcounted.trans (Nat.add_le_add_right hbefore.le 1)
      · rcases Nat.eq_zero_or_pos m with hzero | hpos
        · right; right
          subst hzero
          exact Nat.add_le_add_right hbefore.le 1
        · right; left
          intro k
          exact utf8_take_ne text.chars cells m k ch hch hpos (by omega)
  · right
    obtain ⟨m, hm, hreach⟩ : ∃ m, m ≤ seqLength c ∧
        reach text.cstr.bytes (seqLength c) filled (seqLength c) = filled + m :=
      ⟨_, Nat.min_le_left _ _, rfl⟩
    have hcounted := leads_step text.chars filled m c hc hm
    have hbefore := hover.counted
    have hfull := hover.full
    rw [hreach]
    refine ⟨hover.long, by omega, ?_, ?_⟩
    · exact hcounted.trans (Nat.add_le_add_right hbefore 1)
    · rcases Nat.eq_zero_or_pos m with hzero | hpos
      · right; right
        subst hzero
        exact Nat.add_le_add_right hbefore 1
      · left
        omega

/-- **Where the loop stops** on a text that is too long: behind the characters that the row has room
for, or behind one that it did not copy whole. -/
theorem copyGlyphs_ends (text : Text) (room : Nat) (hroom : 1 ≤ room)
    (hlong : room < text.chars.length) (safe : Block rowSize) :
    ∃ cut cells, copyGlyphs text.cstr.array room 0 ⟨safe, 0, 0⟩ = some cut ∧
      cut.At text.cstr.bytes ∧ cells + 1 ≤ room ∧
      (cut.filled = text.first (room - 1) ∧ cells = room - 1 ∨ Overrun text room cut.filled cells) := by
  have hstart : Cutting text room 0 0 := ⟨hroom, .inl ⟨Nat.zero_le _, rfl⟩⟩
  obtain ⟨cut, cells, hrun, hat, ⟨hcells, hcut⟩, hstop⟩ := copyGlyphs_run text.cstr room
    (Cutting text room) (cutting_turn text room) room 0 (Nat.sub_le _ _) ⟨safe, 0, 0⟩
    ⟨rfl, Nat.zero_le _, show 0 < rowSize by decide, rfl⟩ hstart
  refine ⟨cut, cells, hrun, hat, hcells, ?_⟩
  rcases hcut with ⟨hle, hfilled⟩ | hover
  · left
    have hend : room ≤ cells + 1 := by
      rcases hstop with hall | hend
      · have hleads := text.leads_first cells hle
        have hwhole : leads text.cstr.bytes = text.chars.length := leads_utf8 text.chars
        rw [← hfilled, hall, List.take_length, hwhole] at hleads
        omega
      · exact hend
    have hsame : cells = room - 1 := by omega
    exact ⟨hsame ▸ hfilled, hsame⟩
  · exact .inr hover

/-- the first `n` bytes of a text with a dot behind them -/
def dotted (text : CStr) (n : Nat) : CStr where
  bytes := text.bytes.take n ++ [dot]
  nulFree := by
    intro h0
    rcases List.mem_append.mp h0 with h0 | h0
    · exact text.nulFree (List.mem_of_mem_take h0)
    · exact absurd (List.mem_singleton.mp h0) (by decide)

/-- the dot and the terminator need two bytes -/
theorem cutText_eq (text : CStr) (room : Nat) (safe : Block rowSize) (cut : RowCut)
    (h : copyGlyphs text.array room 0 ⟨safe, 0, 0⟩ = some cut) (hat : cut.At text.bytes) :
    cutText text room safe =
      if cut.filled + 2 ≤ rowSize then some (dotted text cut.filled) else none := by
  have hlen : (text.bytes.take cut.filled).length = cut.filled := List.length_take_of_le hat.inText
  obtain ⟨hlt, htake⟩ := hat.begins
  rw [hlen] at hlt htake
  obtain ⟨safe1, hdot, htake1⟩ := cut.safe.store_eq cut.filled [dot] hlt
  unfold cutText
  rw [h]
  simp only
  rw [hdot]
  simp only
  by_cases hroom : cut.filled + 2 ≤ rowSize
  · obtain ⟨safe2, hend, htake2⟩ := safe1.store_eq (cut.filled + 1) [0] hroom
    rw [if_pos hroom, hend, Option.map_some]
    congr 1
    apply CStr.ext'
    rw [List.length_singleton, htake] at htake1
    rw [htake1] at htake2
    have hfree := (dotted text cut.filled).nulFree
    have hsplit : safe2.bytes = (text.bytes.take cut.filled ++ [dot]) ++
        0 :: safe2.bytes.drop (cut.filled + 1 + [(0 : Byte)].length) := by
      conv_lhs => rw [← List.take_append_drop (cut.filled + 1 + [(0 : Byte)].length) safe2.bytes, htake2]
      exact List.append_assoc _ _ _
    rw [CStr.ofBytes_bytes, hsplit]
    exact takeWhile_run _ _ _ (fun c hc => by
      have hne : c ≠ 0 := fun h0 => hfree (h0 ▸ hc)
      simpa using hne) (fun c hc => by cases hc; rfl)
  · rw [if_neg hroom]
    have hnone : safe1.store (cut.filled + 1) [0] = none := dif_neg hroom
    rw [hnone, Option.map_none]

/-! ## painting -/

/-- A padded text of `n` bytes has room in `painted` with its colour, or all of it but the reset. -/
def PaintFits (term : Terminal) (color : CStr) (n : Nat) : Prop :=
  if term.color then
    (colorOpen color).length + n + colorReset.length < rowSize ∨ (colorOpen color).length + n + 1 = rowSize
  else n < rowSize

instance (term : Terminal) (color : CStr) (n : Nat) : Decidable (PaintFits term color n) := by
  unfold PaintFits
  infer_instance

theorem colorOpen_length (name : CStr) : (colorOpen name).length ≤ 13 := by
  have hcode := (colorCode_text name).2
  have hlen : (colorOpen name).length = (colorCode name).length + 1 + 1 + 1 := by
    unfold colorOpen
    rw [List.length_cons, List.length_cons, List.length_append]
    rfl
  omega

/-- the first bytes of the reset sequence take no cell when they are none or all of them -/
theorem colorReset_take (n : Nat) :
    (Complete (colorReset.take n) ∧ cells (colorReset.take n) = 0) ↔ n = 0 ∨ colorReset.length ≤ n := by
  rcases Nat.lt_or_ge n colorReset.length with h | h
  · have hlt : n < 4 := h
    interval_cases n <;> decide
  · rw [List.take_of_length_le h]
    exact ⟨fun _ => .inr h, fun _ => by decide⟩

/-- what `painted` holds of a coloured text -/
theorem printRow_colored (color s : CStr) (h : (colored color s).bytes.length < slotSize) :
    (printRow (printSlot (colored color s)).toCStr).bytes =
      esc :: openBracket :: (colorCode color ++
        109 :: (s.bytes ++ colorReset).take (163 - (colorOpen color).length)) := by
  have hopen := colorOpen_length color
  have htake : (colored color s).bytes.take 163 =
      colorOpen color ++ (s.bytes ++ colorReset).take (163 - (colorOpen color).length) := by
    show (colorOpen color ++ s.bytes ++ colorReset).take 163 = _
    rw [List.append_assoc, List.take_append, List.take_of_length_le (by omega)]
  have hspell : colorOpen color = esc :: openBracket :: (colorCode color ++ [109]) := rfl
  show (printSlot (colored color s)).bytes.take 163 = _
  rw [print_whole _ h, htake]
  generalize (s.bytes ++ colorReset).take (163 - (colorOpen color).length) = kept
  rw [hspell, List.cons_append, List.cons_append, List.append_assoc]
  rfl

/-- **A padded text that ends with a space** takes its own cells in `painted` when it fits. -/
theorem paint_iff (term : Terminal) (color s : CStr) (body : Bytes) (hs : s.bytes = body ++ [space])
    (hplain : Plain s.bytes) (hslot : s.bytes.length < 480) :
    consoleVisibleWidth (some (printRow (consoleColorize term color (some s))).toCStr) =
      some (cells s.bytes) ↔ PaintFits term color s.bytes.length := by
  have hlen : s.bytes.length = body.length + 1 := by
    rw [hs, List.length_append, List.length_singleton]
  have hsize : rowSize = 164 := rfl
  have hcut : ∀ n, n < s.bytes.length → cells (s.bytes.take n) < cells s.bytes := by
    intro n hn
    rw [hs] at hplain ⊢
    exact cells_take_lt hplain n (by omega)
  rw [visibleWidth_some_iff]
  unfold PaintFits consoleColorize
  cases term.color with
  | false =>
    show Complete (s.bytes.take 163) ∧ cells (s.bytes.take 163) = _ ↔ s.bytes.length < rowSize
    constructor
    · rintro ⟨-, hcells⟩
      by_contra hge
      exact absurd hcells (hcut 163 (by omega)).ne
    · intro hlt
      rw [List.take_of_length_le (by omega)]
      exact ⟨hplain.complete, rfl⟩
  | true =>
    have hopen := colorOpen_length color
    have hreset : colorReset.length = 4 := rfl
    have hcolored : (colored color s).bytes.length < slotSize := by
      show (colorOpen color ++ s.bytes ++ colorReset).length < 512
      rw [List.length_append, List.length_append]
      omega
    have hprinted := printRow_colored color s hcolored
    generalize hk : 163 - (colorOpen color).length = k at hprinted
    show Complete (printRow (printSlot (colored color s)).toCStr).bytes ∧
      cells (printRow (printSlot (colored color s)).toCStr).bytes = _ ↔ (_ ∨ _)
    obtain ⟨hcomplete, hcells⟩ := cells_seq (colorCode color) 109 ((s.bytes ++ colorReset).take k)
      (fun c hc => ((colorCode_text color).1 c hc).1) (by decide)
    rw [hprinted, hcomplete, hcells]
    rcases Nat.lt_or_ge k s.bytes.length with hlt | hge
    · rw [List.take_append_of_le_length hlt.le]
      constructor
      · exact fun h => absurd h.2 (hcut k hlt).ne
      · intro h
        omega
    · -- what is left for the reset
      obtain ⟨hcomplete', hcells'⟩ := cells_append s.bytes (colorReset.take (k - s.bytes.length))
        hplain.complete (by
          cases k - s.bytes.length with
          | zero => exact fun h => nomatch h
          | succ n => exact fun h => absurd (Option.some.inj h) (by decide))
      have hzero : cells s.bytes + cells (colorReset.take (k - s.bytes.length)) = cells s.bytes ↔
          cells (colorReset.take (k - s.bytes.length)) = 0 := Nat.add_eq_left
      rw [List.take_append, List.take_of_length_le hge, hcomplete', hcells', hzero, colorReset_take]
      omega

/-! ## exact rows -/

/-- The row shows the text, or first characters of it and a dot. -/
def CutBetween (text : Text) (shown : CStr) : Prop :=
  shown = text.cstr ∨ ∃ k, shown.bytes = utf8 (text.chars.take k) ++ [dot]

/-- No access is outside an array, the text is cut between two characters, and the row takes `inner`
cells between its borders. -/
def RowExact (term : Terminal) (text : Text) (inner : Nat) (color : CStr) (safe : Block rowSize) :
    Prop :=
  ∃ shown row, rowText text.cstr inner safe = some shown ∧
    drawRow term text.cstr inner color safe = some row ∧ CutBetween text shown ∧
    consoleVisibleWidth (some row.painted.toCStr) = some inner

/-- The bytes of a row's text with its padding: the whole text, or as many characters as leave room for
the dot. -/
def rowBytes (text : Text) (inner : Nat) : Nat :=
  if text.chars.length ≤ rowRoom inner then
    text.cstr.bytes.length + (inner - text.chars.length)
  else text.first (rowRoom inner - 1) + 1 + (inner - rowRoom inner)

/-- **A shown text that leaves two cells** is printed exactly when its padded form fits. -/
theorem drawRow_iff (term : Terminal) (text : CStr) (inner : Nat) (color : CStr) (safe : Block rowSize)
    (shown : CStr) (hshown : rowText text inner safe = some shown) (hplain : Plain shown.bytes)
    (hroom : cells shown.bytes + 2 ≤ inner)
    (hslot : shown.bytes.length + (inner - cells shown.bytes) < 480) :
    (∃ row, drawRow term text inner color safe = some row ∧
      consoleVisibleWidth (some row.painted.toCStr) = some inner) ↔
      PaintFits term color (shown.bytes.length + (inner - cells shown.bytes)) := by
  have hsize : slotSize = 512 := rfl
  obtain ⟨padded, hcenter, hpadded⟩ := consoleCenter_eq shown inner hplain.complete (by omega)
  generalize hl : (inner - cells shown.bytes) / 2 = l at hpadded
  generalize hr : inner - cells shown.bytes - l = r at hpadded
  obtain ⟨r', rfl⟩ : ∃ r', r = r' + 1 := ⟨r - 1, by omega⟩
  have hlen : padded.bytes.length = shown.bytes.length + (inner - cells shown.bytes) := by
    rw [hpadded, List.length_append, List.length_append]
    unfold spaces
    rw [List.length_replicate, List.length_replicate]
    omega
  have hcells : cells padded.bytes = inner := by
    rw [hpadded, (cells_between l (r' + 1) shown.bytes hplain.complete).2]
    omega
  have hends : padded.bytes = (spaces l ++ shown.bytes ++ spaces r') ++ [space] := by
    rw [hpadded, List.append_assoc _ (spaces r') [space]]
    exact congrArg _ List.replicate_succ'
  have hpaint := paint_iff term color padded.toCStr _ hends
    (hpadded ▸ plain_between l (r' + 1) hplain) (by omega)
  rw [hcells, hlen] at hpaint
  rw [← hpaint]
  unfold drawRow
  rw [hshown]
  simp only
  rw [hcenter]
  constructor
  · rintro ⟨row, hrow, hwidth⟩
    cases hrow
    exact hwidth
  · exact fun hwidth => ⟨_, rfl, hwidth⟩

theorem utf8_length_le (s : List Char) : (utf8 s).length ≤ 4 * s.length := by
  induction s with
  | nil => exact le_refl 0
  | cons c s ih =>
    have hsize := c.utf8Size_le_four
    rw [utf8_cons, List.length_append, String.length_utf8EncodeChar, List.length_cons]
    omega

section
variable (term : Terminal) (text : Text) (inner : Nat) (color : CStr) (safe : Block rowSize)

/-- a text that the row has room for -/
theorem rowExact_whole (hinner : inner ≤ 72) (hroom : text.chars.length + 2 ≤ inner)
    (hused : text.chars.length ≤ rowRoom inner) :
    RowExact term text inner color safe ↔ PaintFits term color (rowBytes text inner) := by
  have hcells := text.cells_cstr
  have hshown : rowText text.cstr inner safe = some text.cstr := by
    unfold rowText
    rw [(visibleWidth_iff text.cstr).mpr text.plain.complete, hcells]
    exact if_neg (not_lt.mpr hused)
  have hbytes : text.cstr.bytes.length ≤ 4 * text.chars.length := utf8_length_le text.chars
  have hiff := drawRow_iff term text.cstr inner color safe text.cstr hshown text.plain
    (by omega) (by omega)
  rw [hcells] at hiff
  unfold rowBytes
  rw [if_pos hused, ← hiff]
  constructor
  · rintro ⟨shown, row, -, hrow, -, hwidth⟩
    exact ⟨row, hrow, hwidth⟩
  · rintro ⟨row, hrow, hwidth⟩
    exact ⟨text.cstr, row, hshown, hrow, .inl rfl, hwidth⟩

/-- the cells of a cut text -/
theorem cells_dotted (filled : Nat) :
    Plain (dotted text.cstr filled).bytes ∧
      cells (dotted text.cstr filled).bytes = leads (text.cstr.bytes.take filled) + 1 := by
  have hpre : Plain (text.cstr.bytes.take filled) := text.plain.sub (List.take_prefix _ _).isInfix
  have hplain : Plain (dotted text.cstr filled).bytes :=
    hpre.append (show Plain [dot] by decide) (by decide)
  refine ⟨hplain, ?_⟩
  rw [cells_plain hplain]
  exact leads_append _ _

/-- What the row shows of a text that is too long: nothing, if the dot or its terminator has no room. -/
theorem rowText_cut (hlong : rowRoom inner < text.chars.length) (hroom : 1 ≤ rowRoom inner) :
    ∃ filled cells, rowText text.cstr inner safe =
        (if filled + 2 ≤ rowSize then some (dotted text.cstr filled) else none) ∧
      filled ≤ text.cstr.bytes.length ∧ filled < rowSize ∧ cells + 1 ≤ rowRoom inner ∧
      (filled = text.first (rowRoom inner - 1) ∧ cells = rowRoom inner - 1 ∨
        Overrun text (rowRoom inner) filled cells) := by
  obtain ⟨cut, cells, hrun, hat, hcells, hends⟩ := copyGlyphs_ends text (rowRoom inner) hroom hlong safe
  have hfilled := hat.begins.1
  rw [List.length_take_of_le hat.inText] at hfilled
  refine ⟨cut.filled, cells, ?_, hat.inText, hfilled, hcells, hends⟩
  unfold rowText
  rw [(visibleWidth_iff text.cstr).mpr text.plain.complete, text.cells_cstr]
  exact (if_pos hlong).trans (cutText_eq text.cstr (rowRoom inner) safe cut hrun hat)

/-- the row of a cut text -/
theorem drawRow_dotted (filled : Nat) (hinner : inner ≤ 72)
    (hshown : rowText text.cstr inner safe = some (dotted text.cstr filled))
    (hfilled : filled ≤ text.cstr.bytes.length) (hlt : filled < rowSize)
    (hroom : leads (text.cstr.bytes.take filled) + 3 ≤ inner) :
    (∃ row, drawRow term text.cstr inner color safe = some row ∧
      consoleVisibleWidth (some row.painted.toCStr) = some inner) ↔
      PaintFits term color (filled + 1 + (inner - (leads (text.cstr.bytes.take filled) + 1))) := by
  have hsize : rowSize = 164 := rfl
  obtain ⟨hplain, hcells⟩ := cells_dotted text filled
  have hlen : (dotted text.cstr filled).bytes.length = filled + 1 := by
    show (text.cstr.bytes.take filled ++ [dot]).length = _
    rw [List.length_append, List.length_take_of_le hfilled]
    rfl
  have hiff := drawRow_iff term text.cstr inner color safe _ hshown hplain (by omega) (by omega)
  rwa [hlen, hcells] at hiff

/-- a padded text of more than 163 bytes has no room -/
theorem not_paintFits (n : Nat) (h : rowSize ≤ n) : ¬ PaintFits term color n := by
  unfold PaintFits
  have hopen : 0 < (colorOpen color).length := Nat.succ_pos _
  split_ifs <;> omega

/-- a text that is cut behind the characters that the row has room for -/
theorem rowExact_dotted {filled : Nat} (hinner : inner ≤ 72) (hmin : 3 ≤ inner)
    (hlong : rowRoom inner < text.chars.length) (hroom : rowRoom inner + 2 = inner)
    (hshown : rowText text.cstr inner safe =
      if filled + 2 ≤ rowSize then some (dotted text.cstr filled) else none)
    (hfilled : filled ≤ text.cstr.bytes.length) (hlt : filled < rowSize)
    (hwhole : filled = text.first (rowRoom inner - 1)) :
    RowExact term text inner color safe ↔ PaintFits term color (filled + 1 + 2) := by
  have hsize : rowSize = 164 := rfl
  have hleads := text.leads_first (rowRoom inner - 1) (by omega)
  rw [← hwhole] at hleads
  by_cases hfits : filled + 2 ≤ rowSize
  · rw [if_pos hfits] at hshown
    have hiff := drawRow_dotted term text inner color safe filled hinner hshown hfilled hlt (by omega)
    have htwo : inner - (leads (text.cstr.bytes.take filled) + 1) = 2 := by omega
    rw [htwo] at hiff
    rw [← hiff]
    constructor
    · rintro ⟨shown, row, -, hrow, -, hwidth⟩
      exact ⟨row, hrow, hwidth⟩
    · rintro ⟨row, hrow, hwidth⟩
      refine ⟨_, row, hshown, hrow, .inr ⟨rowRoom inner - 1, ?_⟩, hwidth⟩
      show text.cstr.bytes.take filled ++ [dot] = _
      rw [hwhole]
      exact congrArg (· ++ [dot]) (utf8_take text.chars (rowRoom inner - 1))
  · rw [if_neg hfits] at hshown
    constructor
    · rintro ⟨shown, row, hsome, -⟩
      rw [hshown] at hsome
      cases hsome
    · exact fun h => absurd h (not_paintFits term color _ (by omega))

/-- a text that the guard has cut: the row is never exact -/
theorem not_rowExact_overrun {filled cells : Nat} (hinner : inner ≤ 72)
    (hlong : rowRoom inner < text.chars.length) (hroom : rowRoom inner + 2 = inner)
    (hshown : rowText text.cstr inner safe =
      if filled + 2 ≤ rowSize then some (dotted text.cstr filled) else none)
    (hfilled : filled ≤ text.cstr.bytes.length) (hlt : filled < rowSize)
    (hcells : cells + 1 ≤ rowRoom inner) (hover : Overrun text (rowRoom inner) filled cells) :
    ¬ RowExact term text inner color safe := by
  have hsize : rowSize = 164 := rfl
  rintro ⟨shown, row, hsome, hrow, hbetween, hwidth⟩
  by_cases hfits : filled + 2 ≤ rowSize
  · rw [if_pos hfits] at hshown
    have hcounted := hover.counted
    have hfull := hover.full
    have hpaint := (drawRow_dotted term text inner color safe filled hinner hshown hfilled hlt
      (by omega)).mp ⟨row, hrow, hwidth⟩
    have hshort := mt (not_paintFits term color _) (not_not_intro hpaint)
    rcases hover.lost with hmore | hinside | hfewer
    · omega
    · -- exactly 160 bytes are kept, and they end inside a character
      rw [hshown] at hsome
      cases hsome
      rcases hbetween with hsame | ⟨k, hk⟩
      · have hdotted := (cells_dotted text filled).2
        have htext := text.cells_cstr
        rw [hsame] at hdotted
        omega
      · have hlen := congrArg List.length (List.append_cancel_right hk)
        rw [List.length_take_of_le hfilled] at hlen
        exact hinside k hlen
    · omega
  · rw [if_neg hfits] at hshown
    rw [hshown] at hsome
    cases hsome

/-- a text that is too long -/
theorem rowExact_cut (hinner : inner ≤ 72) (hmin : 3 ≤ inner)
    (hlong : rowRoom inner < text.chars.length) (hroom : rowRoom inner + 2 = inner) :
    RowExact term text inner color safe ↔ PaintFits term color (rowBytes text inner) := by
  have hsize : rowSize = 164 := rfl
  obtain ⟨filled, cells, hshown, hfilled, hlt, hcells, hends⟩ :=
    rowText_cut text inner safe hlong (by omega)
  have hbytes : rowBytes text inner = text.first (rowRoom inner - 1) + 1 + 2 := by
    unfold rowBytes
    rw [if_neg (not_le.mpr hlong)]
    omega
  rw [hbytes]
  rcases hends with ⟨hwhole, -⟩ | hover
  · rw [← hwhole]
    exact rowExact_dotted term text inner color safe hinner hmin hlong hroom hshown hfilled hlt hwhole
  · have hlongBytes := hover.long
    refine iff_of_false ?_ (not_paintFits term color _ (by omega))
    exact not_rowExact_overrun term text inner color safe hinner hlong hroom hshown hfilled hlt hcells
      hover

theorem rowExact_paint (hmin : 3 ≤ inner) (hmax : inner ≤ 72) :
    RowExact term text inner color safe ↔ PaintFits term color (rowBytes text inner) := by
  have hroom : rowRoom inner + 2 = inner := by
    unfold rowRoom
    rw [if_pos (by omega)]
    omega
  rcases Nat.lt_or_ge (rowRoom inner) text.chars.length with hlong | hused
  · exact rowExact_cut term text inner color safe hmax hmin hlong hroom
  · exact rowExact_whole term text inner color safe hmax (by omega) hused

/-- **A row is exact if and only if its padded text has room in `painted`.** -/
theorem rowExact_iff (hmin : 46 ≤ inner) (hmax : inner ≤ 72) :
    RowExact term text inner color safe ↔ PaintFits term color (rowBytes text inner) :=
  rowExact_paint term text inner color safe (le_trans (by decide) hmin) hmax

end

/-- a narrow row of a short text -/
theorem rowExact_iff_short :
    RowExact ⟨true, true⟩ ⟨['v', '1'], by decide, by decide⟩ 46 dim (Block.zero rowSize) ↔
      PaintFits ⟨true, true⟩ dim (rowBytes ⟨['v', '1'], by decide, by decide⟩ 46) :=
  rowExact_iff _ _ 46 _ _ (by decide) (by decide)

theorem utf8_length_two (s : List Char) (h : ∀ c ∈ s, c.utf8Size ≤ 2) :
    (utf8 s).length ≤ 2 * s.length := by
  induction s with
  | nil => exact le_refl 0
  | cons c s ih =>
    have hc := h c List.mem_cons_self
    have hs := ih fun d hd => h d (List.mem_cons_of_mem _ hd)
    rw [utf8_cons, List.length_append, String.length_utf8EncodeChar, List.length_cons]
    omega

/-- **Up to U+07FF every row is exact**, whatever the length of its text. -/
theorem rowExact_two_bytes (term : Terminal) (text : Text) (inner : Nat) (color : CStr)
    (safe : Block rowSize) (hmin : 3 ≤ inner) (hmax : inner ≤ 72)
    (h : ∀ c ∈ text.chars, c.utf8Size ≤ 2) : RowExact term text inner color safe := by
  refine (rowExact_paint term text inner color safe hmin hmax).mpr ?_
  have hroom : rowRoom inner + 2 = inner := by
    unfold rowRoom
    rw [if_pos hmin]
    omega
  have hbytes : rowBytes text inner ≤ 2 * inner := by
    unfold rowBytes
    split_ifs with hused
    · have hall : text.cstr.bytes.length ≤ 2 * text.chars.length := utf8_length_two text.chars h
      omega
    · have hfirst : text.first (rowRoom inner - 1) ≤ 2 * (rowRoom inner - 1) :=
        (utf8_length_two _ fun c hc => h c (List.mem_of_mem_take hc)).trans
          (Nat.mul_le_mul_left 2 (List.length_take_le _ _))
      omega
  have hopen := colorOpen_length color
  have hreset : colorReset.length = 4 := rfl
  have hsize : rowSize = 164 := rfl
  unfold PaintFits
  split_ifs
  · left
    omega
  · omega

/-! ## the version line of the banner -/

/-- `unicode_enabled() ? " \u00b7 " : " - "` -/
def bannerDot (term : Terminal) : Bytes := if term.unicode then [32, 0xC2, 0xB7, 32] else ascii " - "

/-- `version_line` of `console_print_banner`; its `stack` always fits -/
def versionLine (term : Terminal) (version : Option CStr) : CBuf 192 :=
  CBuf.print 192 (by decide) (CStr.ofBytes (ascii "v" ++ (version.getD ⟨ascii "?", by decide⟩).bytes ++
    bannerDot term ++ ascii "HTTP/1.1" ++ bannerDot term ++ ascii "JSON" ++ bannerDot term ++
    ascii "SQLITE WAL"))

def gold : CStr := ⟨ascii "gold", by decide⟩

/-- a version of forty characters of four bytes each -/
def clefs : CStr := ⟨utf8 (List.replicate 40 '𝄞'), by decide +kernel⟩

/-- the row of that version -/
def clefText : Text where
  chars := 'v' :: List.replicate 40 '𝄞' ++ " - HTTP/1.1 - JSON - SQLITE WA".toList
  nulFree := by decide +kernel
  plain := by decide +kernel

/-- The loop stops at 163 bytes, and the terminator is written behind `safe`. -/
theorem clefText_outside :
    (versionLine ⟨false, false⟩ (some clefs)).bytes = clefText.cstr.bytes ∧
      (drawRow ⟨false, false⟩ clefText.cstr 72 gold (Block.zero rowSize)).isNone = true ∧
      ¬ RowExact ⟨false, false⟩ clefText 72 gold (Block.zero rowSize) := by
  refine ⟨by decide +kernel, by decide +kernel, ?_⟩
  rw [rowExact_paint ⟨false, false⟩ clefText 72 gold (Block.zero rowSize) (by decide) (by decide)]
  decide +kernel

end CServer
