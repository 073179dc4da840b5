import CServer.Console.Width

/-!
# `console_pad_right` and `console_center`

Both hand out a slot of `SLOT_SIZE` bytes that holds the text between spaces.

* `consolePadRight`, `consoleCenter`   the functions;
* `consolePadRight_eq`, `consoleCenter_eq`   what the slot holds when it has room;
* `padding_exact`                      the spaces on both sides, and the width of the result.
-/

namespace CServer
open Ansi

/-- `SLOT_SIZE` -/
def slotSize : Nat := 512

abbrev Slot := CBuf slotSize

/-- `snprintf(out, SLOT_SIZE, "%s", s)` -/
def printSlot (s : CStr) : Slot := CBuf.print slotSize (by decide) s

/-- `INT_MAX` -/
def intMax : Nat := 2 ^ 31 - 1

/-- `text == NULL ? "" : text` -/
def textOrEmpty (text : Option CStr) : CStr := text.getD CStr.empty

/-- `out[at++] = ' '; out[at] = '\0'` -/
def pushSpace (out : Slot) (h : ¬ out.length + 1 ≥ slotSize) : Slot where
  bytes := out.bytes ++ [space]
  nulFree := by
    intro h0
    rcases List.mem_append.mp h0 with h0 | h0
    · exact out.nulFree h0
    · exact absurd (List.mem_singleton.mp h0) (by decide)
  fits := by
    rw [List.length_append, List.length_singleton]
    exact not_le.mp h

/-- the loop of `console_pad_right` -/
def padLoop (out : Slot) (used width : Nat) : Slot :=
  if used < width then
    if h : out.length + 1 ≥ slotSize then out
    else padLoop (pushSpace out h) (used + 1) width
  else out
termination_by width - used

/-- `snprintf` fails on a result that is longer than an `int` counts. -/
def consolePadRight (text : Option CStr) (width : Nat) : Option Slot :=
  let text := textOrEmpty text
  let out := printSlot text
  if intMax < text.length then some out
  else (consoleVisibleWidth (some out.toCStr)).map fun used => padLoop out used width

/-- `"%*s"` of `(int)n` and the empty string -/
def blankField (n : Nat) : Bytes := spaces (Int.bmod n (2 ^ 32)).natAbs

/-- `"%*s%s%*s"` of `(int)left`, the text and `(int)right` -/
def centered (left : Nat) (text : CStr) (right : Nat) : CStr where
  bytes := blankField left ++ text.bytes ++ blankField right
  nulFree := by
    have hblank : ∀ n, (0 : Byte) ∉ blankField n := fun n h0 =>
      absurd (List.eq_of_mem_replicate h0) (by decide)
    intro h0
    rcases List.mem_append.mp h0 with h0 | h0
    · rcases List.mem_append.mp h0 with h0 | h0
      · exact hblank left h0
      · exact text.nulFree h0
    · exact hblank right h0

def consoleCenter (text : Option CStr) (width : Nat) : Option Slot :=
  let text := textOrEmpty text
  (consoleVisibleWidth (some text)).map fun used =>
    let left := if used ≥ width then 0 else (width - used) / 2
    let right := if used ≥ width then 0 else width - used - left
    let printed := centered left text right
    if intMax < printed.length then CBuf.empty slotSize (by decide)
    else printSlot printed

/-! ## what the slot holds -/

theorem print_whole (s : CStr) (h : s.bytes.length < slotSize) :
    (printSlot s).bytes = s.bytes := by
  show s.bytes.take (slotSize - 1) = s.bytes
  exact List.take_of_length_le (Nat.le_sub_one_of_lt h)

theorem padLoop_bytes (out : Slot) (used width : Nat)
    (h : out.bytes.length + (width - used) < slotSize) :
    (padLoop out used width).bytes = out.bytes ++ spaces (width - used) := by
  fun_induction padLoop out used width with
  | case1 out used hlt hfull =>
    have hlen : out.length = out.bytes.length := rfl
    omega
  | case2 out used hlt hroom ih =>
    have hlen : (pushSpace out hroom).bytes.length = out.bytes.length + 1 := List.length_append
    have hone : width - used = width - (used + 1) + 1 := by omega
    rw [ih (by omega), hone]
    show out.bytes ++ [space] ++ _ = out.bytes ++ space :: _
    rw [List.append_assoc]
    rfl
  | case3 out used hle =>
    rw [Nat.sub_eq_zero_of_le (not_lt.mp hle)]
    exact (List.append_nil _).symm

theorem consolePadRight_eq (text : CStr) (width : Nat) (h : Complete text.bytes)
    (hfit : text.bytes.length + (width - cells text.bytes) < slotSize) :
    ∃ out : Slot, consolePadRight (some text) width = some out ∧
      out.bytes = text.bytes ++ spaces (width - cells text.bytes) := by
  have hwhole : (printSlot text).bytes = text.bytes :=
    print_whole text (by omega)
  have hsame : (printSlot text).toCStr = text := CStr.ext' hwhole
  have hshort : ¬ intMax < text.length := by
    have hlen : text.length = text.bytes.length := rfl
    unfold intMax
    unfold slotSize at hfit
    omega
  refine ⟨padLoop (printSlot text) (cells text.bytes) width, ?_, ?_⟩
  · show (if intMax < text.length then some (printSlot text)
      else (consoleVisibleWidth (some (printSlot text).toCStr)).map fun used =>
        padLoop (printSlot text) used width) = _
    rw [if_neg hshort, hsame, (visibleWidth_iff text).mpr h]
    rfl
  · rw [padLoop_bytes _ _ _ (by rw [hwhole]; exact hfit), hwhole]

theorem blankField_eq (n : Nat) (h : n < 2 ^ 31) : blankField n = spaces n := by
  unfold blankField
  rw [Int.bmod_eq_of_le (by omega) (by omega)]
  rfl

theorem consoleCenter_eq (text : CStr) (width : Nat) (h : Complete text.bytes)
    (hfit : text.bytes.length + (width - cells text.bytes) < slotSize) :
    ∃ out : Slot, consoleCenter (some text) width = some out ∧
      out.bytes = spaces ((width - cells text.bytes) / 2) ++ text.bytes ++
        spaces (width - cells text.bytes - (width - cells text.bytes) / 2) := by
  have hleft : (if cells text.bytes ≥ width then 0 else (width - cells text.bytes) / 2)
      = (width - cells text.bytes) / 2 := by
    split_ifs <;> omega
  have hright : (if cells text.bytes ≥ width then 0
      else width - cells text.bytes - (width - cells text.bytes) / 2)
      = width - cells text.bytes - (width - cells text.bytes) / 2 := by
    split_ifs <;> omega
  generalize hspare : width - cells text.bytes = spare at *
  have hprinted : (centered (spare / 2) text (spare - spare / 2)).bytes
      = spaces (spare / 2) ++ text.bytes ++ spaces (spare - spare / 2) := by
    unfold slotSize at hfit
    show blankField _ ++ _ ++ blankField _ = _
    rw [blankField_eq _ (by omega), blankField_eq _ (by omega)]
  have hlen : (centered (spare / 2) text (spare - spare / 2)).length < slotSize := by
    unfold CStr.length
    rw [hprinted, List.length_append, List.length_append]
    unfold spaces
    rw [List.length_replicate, List.length_replicate]
    omega
  have hshort : ¬ intMax < (centered (spare / 2) text (spare - spare / 2)).length := by
    unfold slotSize at hlen
    unfold intMax
    omega
  refine ⟨printSlot (centered (spare / 2) text (spare - spare / 2)), ?_, ?_⟩
  · show (consoleVisibleWidth (some text)).map _ = _
    rw [(visibleWidth_iff text).mpr h, Option.map_some]
    simp only [hspare]
    rw [hleft, hright]
    exact congrArg some (if_neg hshort)
  · rw [print_whole _ hlen, hprinted]

/-- The result is the text with `l` spaces in front and the rest of the width behind, and takes the
width unless the text takes more. -/
def Padded (text : CStr) (width l : Nat) (result : Option Slot) : Prop :=
  ∃ (out : Slot) (r : Nat), result = some out ∧ out.bytes = spaces l ++ text.bytes ++ spaces r ∧
    l + r = width - cells text.bytes ∧
    consoleVisibleWidth (some out.toCStr) = some (max width (cells text.bytes))

theorem padded_of_bytes (text : CStr) (width l r : Nat) (out : Slot) (h : Complete text.bytes)
    (hout : out.bytes = spaces l ++ text.bytes ++ spaces r)
    (hlr : l + r = width - cells text.bytes) : Padded text width l (some out) := by
  obtain ⟨hcomplete, hcells⟩ := cells_between l r text.bytes h
  rw [← hout] at hcomplete hcells
  refine ⟨out, r, rfl, hout, hlr, ?_⟩
  rw [(visibleWidth_iff out.toCStr).mpr hcomplete, hcells]
  congr 1
  omega

/-- **Padding is exact**, for a text whose sequences are complete and a slot with room for the
result. -/
theorem padding_exact (text : CStr) (width : Nat) (h : Complete text.bytes)
    (hfit : text.bytes.length + (width - cells text.bytes) ≤ 511) :
    consoleVisibleWidth (some text) = some (cells text.bytes) ∧
      Padded text width ((width - cells text.bytes) / 2) (consoleCenter (some text) width) ∧
      Padded text width 0 (consolePadRight (some text) width) := by
  have hroom : text.bytes.length + (width - cells text.bytes) < slotSize := Nat.lt_succ_of_le hfit
  refine ⟨(visibleWidth_iff text).mpr h, ?_, ?_⟩
  · obtain ⟨out, hcenter, hout⟩ := consoleCenter_eq text width h hroom
    rw [hcenter]
    exact padded_of_bytes text width _ _ out h hout (by omega)
  · obtain ⟨out, hpad, hout⟩ := consolePadRight_eq text width h hroom
    rw [hpad]
    exact padded_of_bytes text width 0 _ out h hout (Nat.zero_add _)

/-- a green word in a field of eleven cells -/
theorem padding_exact_green :
    (ascii "\x1b[32mabc\x1b[0m").length = 12 ∧
    Padded (CStr.ofBytes (ascii "\x1b[32mabc\x1b[0m")) 11 4
      (consoleCenter (some (CStr.ofBytes (ascii "\x1b[32mabc\x1b[0m"))) 11) :=
  ⟨by decide, (padding_exact _ 11 (by decide) (by decide)).2.1⟩

end CServer
