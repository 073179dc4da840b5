import CServer.Lib.Ansi
import CServer.Lib.Reads

/-!
# `console_visible_width`

The function runs over the array of its text with one pointer that both of its loops advance; a read
behind the terminator is `none`.

* `consoleVisibleWidth`   the function;
* `visibleWidthAt_eq`     from a position on: the cells of a complete text, and otherwise a read behind
                          the terminator;
* `visibleWidth_iff`      so for the whole text.
-/

namespace CServer
open Ansi

/-- the inner loop: the position of the letter, or of the terminator -/
def sequenceEnd (mem : Bytes) (p : Nat) : Option Nat := scanFrom mem (fun c => c == 0 || isAlpha c) p

/-- What a turn of the outer loop finds at `p`: the end of the string, or the position that the turn
leaves `p` at (before `p++`) and whether it counted a cell. -/
inductive WidthTurn where
  | ended
  | next (p : Nat) (counted : Bool)

/-- the second condition of a turn -/
def countByte (c : Byte) (p : Nat) : WidthTurn := .next p (c &&& 0xC0 != 0x80)

def widthTurn (mem : Bytes) (p : Nat) : Option WidthTurn :=
  match mem[p]? with
  | none => none
  | some c =>
    if c = 0 then some .ended
    else if c = esc then
      match mem[p + 1]? with
      | none => none
      | some d =>
        if d = openBracket then (sequenceEnd mem (p + 1)).map fun q => .next q false
        else some (countByte c p)
    else some (countByte c p)

theorem widthTurn_next (mem : Bytes) (p q : Nat) (counted : Bool)
    (h : widthTurn mem p = some (.next q counted)) : p ≤ q ∧ p < mem.length := by
  unfold widthTurn at h
  split at h
  · cases h
  · rename_i c hread
    have hlt := (List.getElem?_eq_some_iff.mp hread).1
    split_ifs at h
    · cases h
    · split at h
      · cases h
      · split_ifs at h
        · obtain ⟨r, hscan, hr⟩ := Option.map_eq_some_iff.mp h
          cases hr
          have hbound := scanFrom_bound _ _ _ hscan
          exact ⟨by omega, hlt⟩
        · cases h
          exact ⟨le_refl _, hlt⟩
    · cases h
      exact ⟨le_refl _, hlt⟩

def visibleWidthAt (mem : Bytes) (p width : Nat) : Option Nat :=
  match h : widthTurn mem p with
  | none => none
  | some .ended => some width
  | some (.next q counted) => visibleWidthAt mem (q + 1) (if counted then width + 1 else width)
termination_by mem.length - p
decreasing_by
  have hnext := widthTurn_next mem p q counted h
  omega

/-- `console_visible_width`; NULL has no cells -/
def consoleVisibleWidth (text : Option CStr) : Option Nat :=
  match text with
  | none => some 0
  | some text => visibleWidthAt text.array 0 0

/-! ## what it measures -/

theorem visibleWidthAt_turn (mem : Bytes) (p width : Nat) :
    visibleWidthAt mem p width =
      match widthTurn mem p with
      | none => none
      | some .ended => some width
      | some (.next q counted) =>
        visibleWidthAt mem (q + 1) (if counted then width + 1 else width) := by
  rw [visibleWidthAt]
  split <;> rename_i h <;> rw [h]

section
variable {mem : Bytes} {p : Nat}

theorem widthTurn_byte (c : Byte) (s : Bytes) (hc : c ≠ 0) (h0 : (0 : Byte) ∉ s)
    (h : ¬ (c = esc ∧ s.head? = some openBracket)) (hdrop : mem.drop p = c :: (s ++ [0])) :
    widthTurn mem p = some (.next p (!isContinuation c)) := by
  obtain ⟨hread, hrest⟩ := read_of_drop hdrop
  unfold widthTurn
  rw [hread]
  simp only [if_neg hc]
  by_cases hesc : c = esc
  · rw [if_pos hesc]
    have hnext : ∃ d, mem[p + 1]? = some d ∧ d ≠ openBracket := by
      cases s with
      | nil => exact ⟨0, (read_of_drop hrest).1, by decide⟩
      | cons d s => exact ⟨d, (read_of_drop hrest).1, fun hd => h ⟨hesc, by rw [hd]; rfl⟩⟩
    obtain ⟨d, hd, hne⟩ := hnext
    rw [hd]
    simp only [if_neg hne]
    rfl
  · rw [if_neg hesc]
    rfl

/-- the inner loop stops at the letter -/
theorem widthTurn_seq (run : Bytes) (letter : Byte) (rest : Bytes)
    (hrun : ∀ c ∈ run, isAlpha c = false ∧ c ≠ 0) (hletter : isAlpha letter = true)
    (hdrop : mem.drop p = esc :: openBracket :: (run ++ letter :: rest)) :
    widthTurn mem p = some (.next (p + (run.length + 2)) false) := by
  obtain ⟨hread, hrest⟩ := read_of_drop hdrop
  have hscan : sequenceEnd mem (p + 1) = some (p + 1 + (openBracket :: run).length) := by
    refine scanFrom_run _ (p + 1) (openBracket :: run) letter rest hrest (fun c hc => ?_)
      (by rw [hletter, Bool.or_true])
    rcases List.mem_cons.mp hc with rfl | hc
    · decide
    · rw [Bool.or_eq_false_iff]
      exact ⟨beq_eq_false_iff_ne.mpr (hrun c hc).2, (hrun c hc).1⟩
  unfold widthTurn
  rw [hread]
  simp only [if_neg (show ¬ esc = 0 by decide), if_true]
  rw [(read_of_drop hrest).1]
  simp only [if_true]
  rw [hscan, List.length_cons, Option.map_some]
  congr 2
  omega

/-- and without one at the terminator, which `p++` then steps over -/
theorem widthTurn_cut (run : Bytes) (hrun : ∀ c ∈ run, isAlpha c = false ∧ c ≠ 0)
    (hdrop : mem.drop p = esc :: openBracket :: (run ++ [0])) :
    widthTurn mem p = some (.next (p + (run.length + 2)) false) := by
  obtain ⟨hread, hrest⟩ := read_of_drop hdrop
  have hscan : sequenceEnd mem (p + 1) = some (p + 1 + (openBracket :: run).length) := by
    refine scanFrom_run _ (p + 1) (openBracket :: run) 0 [] hrest (fun c hc => ?_) rfl
    rcases List.mem_cons.mp hc with rfl | hc
    · decide
    · rw [Bool.or_eq_false_iff]
      exact ⟨beq_eq_false_iff_ne.mpr (hrun c hc).2, (hrun c hc).1⟩
  unfold widthTurn
  rw [hread]
  simp only [if_neg (show ¬ esc = 0 by decide), if_true]
  rw [(read_of_drop hrest).1]
  simp only [if_true]
  rw [hscan, List.length_cons, Option.map_some]
  congr 2
  omega

end

/-- **From a position on**: the cells of what stands there, unless a sequence of it lacks its letter.
Every piece but that one is behind the pointer when its turn ends. -/
theorem visibleWidthAt_eq {mem : Bytes} (s : Bytes) : ∀ p width : Nat, mem.drop p = s ++ [0] →
    (0 : Byte) ∉ s →
    visibleWidthAt mem p width = if Complete s then some (width + cells s) else none := by
  induction hn : s.length using Nat.strong_induction_on generalizing s with
  | _ n ih =>
  subst hn
  intro p width hdrop h0
  cases begins s with
  | nil =>
    have hread : mem[p]? = some 0 := (read_of_drop hdrop).1
    have hturn : widthTurn mem p = some .ended := by
      unfold widthTurn
      rw [hread]
      rfl
    rw [visibleWidthAt_turn, hturn, if_pos (by decide)]
    rfl
  | byte c s hopen =>
    have hc : c ≠ 0 := fun he => h0 (he ▸ List.mem_cons_self)
    have h0' : (0 : Byte) ∉ s := fun hmem => h0 (List.mem_cons_of_mem _ hmem)
    rw [visibleWidthAt_turn, widthTurn_byte c s hc h0' hopen hdrop]
    simp only
    rw [ih s.length (Nat.lt_succ_self _) s rfl (p + 1) _ (read_of_drop hdrop).2 h0']
    obtain ⟨hcomplete, hcells⟩ := cells_byte c s hopen
    rw [if_congr hcomplete rfl rfl, hcells]
    have hwidth : (if !isContinuation c then width + 1 else width) + cells s
        = width + ((if !isContinuation c then 1 else 0) + cells s) := by
      split_ifs <;> omega
    rw [hwidth]
  | seq run letter rest hrun hletter =>
    have hrun' : ∀ c ∈ run, isAlpha c = false ∧ c ≠ 0 := fun c hc =>
      ⟨hrun c hc, fun he => h0 (he ▸ by simp [hc])⟩
    have h0' : (0 : Byte) ∉ rest := fun hmem => h0 (by simp [hmem])
    have hdrop' : mem.drop p = esc :: openBracket :: (run ++ letter :: (rest ++ [0])) := by
      rw [hdrop]
      simp
    have hnext : mem.drop (p + (run.length + 2) + 1) = rest ++ [0] := by
      have hskip : (esc :: openBracket :: (run ++ [letter])).length = run.length + 2 + 1 := by simp
      rw [Nat.add_assoc, ← List.drop_drop, hdrop', ← hskip]
      rw [show esc :: openBracket :: (run ++ letter :: (rest ++ [0]))
        = (esc :: openBracket :: (run ++ [letter])) ++ (rest ++ [0]) by simp, List.drop_left]
    rw [visibleWidthAt_turn, widthTurn_seq run letter (rest ++ [0]) hrun' hletter hdrop']
    simp only [Bool.false_eq_true, if_false]
    rw [ih rest.length (by simp; omega) rest rfl _ width hnext h0']
    obtain ⟨hcomplete, hcells⟩ := cells_seq run letter rest hrun hletter
    rw [if_congr hcomplete rfl rfl, hcells]
  | cut run hrun =>
    have hrun' : ∀ c ∈ run, isAlpha c = false ∧ c ≠ 0 := fun c hc =>
      ⟨hrun c hc, fun he => h0 (he ▸ by simp [hc])⟩
    have hbehind : mem[p + (run.length + 2) + 1]? = none := by
      rw [Nat.add_assoc, ← List.getElem?_drop, hdrop]
      exact List.getElem?_eq_none (by simp)
    have hturn : widthTurn mem (p + (run.length + 2) + 1) = none := by
      unfold widthTurn
      rw [hbehind]
    have hcut : ¬ Complete (esc :: openBracket :: run) :=
      not_complete_cut _ run (by rw [pieces_open, piecesIn_cut [] run hrun, List.nil_append])
    rw [visibleWidthAt_turn, widthTurn_cut run hrun' hdrop, if_neg hcut]
    simp only
    rw [visibleWidthAt_turn, hturn]

theorem consoleVisibleWidth_eq (text : CStr) :
    consoleVisibleWidth (some text) =
      if Complete text.bytes then some (cells text.bytes) else none := by
  have hat := @visibleWidthAt_eq text.array text.bytes 0 0 rfl text.nulFree
  rwa [Nat.zero_add] at hat

theorem visibleWidth_some_iff (text : CStr) (width : Nat) :
    consoleVisibleWidth (some text) = some width ↔
      Complete text.bytes ∧ cells text.bytes = width := by
  rw [consoleVisibleWidth_eq]
  split_ifs with h
  · exact ⟨fun he => ⟨h, Option.some.inj he⟩, fun he => congrArg some he.2⟩
  · exact ⟨fun he => (nomatch he), fun hc => absurd hc.1 h⟩

/-- **The width of a text is the number of its cells, and is read from its array alone, if and only if
every sequence of it has its letter.** -/
theorem visibleWidth_iff (text : CStr) :
    consoleVisibleWidth (some text) = some (cells text.bytes) ↔ Complete text.bytes := by
  rw [visibleWidth_some_iff]
  exact ⟨fun h => h.1, fun h => ⟨h, rfl⟩⟩

/-- On `"\033["` the inner loop ends at the terminator, and `p++` steps over it. -/
theorem visibleWidth_opened :
    consoleVisibleWidth (some ⟨[esc, openBracket], by decide⟩) = none ∧
      consoleVisibleWidth (some ⟨[esc, openBracket], by decide⟩) ≠ some (cells [esc, openBracket]) := by
  rw [consoleVisibleWidth_eq, if_neg (by decide)]
  exact ⟨rfl, fun h => (nomatch h)⟩

end CServer
