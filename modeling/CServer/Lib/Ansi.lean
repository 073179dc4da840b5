import CServer.Lib.CString

/-!
# Text with escape sequences

A terminal text is read as pieces: single bytes, escape sequences `ESC [ ... letter`, and at its end
possibly a sequence without its letter.

* `Ansi.pieces`           the pieces of a text, and `pieces_text`: they make it up;
* `Ansi.cells`            the bytes outside sequences that begin a character;
* `Ansi.Complete`         no sequence lacks its letter;
* `pieces_append`         the pieces of a complete text with a text behind it;
* `cells_between`         a complete text between spaces;
* `cells_plain`           a text without sequences.
-/

namespace CServer
namespace Ansi

abbrev esc : Byte := 27
abbrev openBracket : Byte := 91

/-- `isalpha` of the C locale -/
def isAlpha (c : Byte) : Bool := (65 ≤ c && c ≤ 90) || (97 ≤ c && c ≤ 122)

/-- a UTF-8 continuation byte -/
def isContinuation (c : Byte) : Bool := c &&& 0xC0 == 0x80

inductive Piece where
  | byte (c : Byte)
  | seq (params : Bytes) (letter : Byte)
  | cut (params : Bytes)
  deriving DecidableEq

def Piece.text : Piece → Bytes
  | .byte c => [c]
  | .seq params letter => esc :: openBracket :: (params ++ [letter])
  | .cut params => esc :: openBracket :: params

/-- a byte that takes a cell of its own -/
def Piece.visible : Piece → Bool
  | .byte c => !isContinuation c
  | .seq _ _ => false
  | .cut _ => false

def Piece.isCut : Piece → Bool
  | .byte _ => false
  | .seq _ _ => false
  | .cut _ => true

/-- The pieces of the rest of a text; inside a sequence, `some params` is what it has so far. -/
def piecesIn : Option Bytes → Bytes → List Piece
  | none, [] => []
  | none, [c] => [.byte c]
  | none, c :: d :: s =>
    if c = esc ∧ d = openBracket then piecesIn (some []) s else .byte c :: piecesIn none (d :: s)
  | some params, [] => [.cut params]
  | some params, c :: s =>
    if isAlpha c then .seq params c :: piecesIn none s else piecesIn (some (params ++ [c])) s

def pieces (s : Bytes) : List Piece := piecesIn none s

/-- the number of cells that a text takes -/
def cells (s : Bytes) : Nat := (pieces s).countP Piece.visible

def Complete (s : Bytes) : Prop := ∀ p ∈ pieces s, p.isCut = false

instance (s : Bytes) : Decidable (Complete s) := by unfold Complete; infer_instance

/-- the text that is left out of the pieces of `piecesIn` -/
def opened : Option Bytes → Bytes
  | none => []
  | some params => esc :: openBracket :: params

theorem piecesIn_text (mode : Option Bytes) (s : Bytes) :
    (piecesIn mode s).flatMap Piece.text = opened mode ++ s := by
  fun_induction piecesIn mode s with
  | case1 => rfl
  | case2 c => rfl
  | case3 c d s h ih =>
    rw [ih, h.1, h.2]
    rfl
  | case4 c d s h ih =>
    rw [List.flatMap_cons, ih]
    rfl
  | case5 params => simp [Piece.text, opened]
  | case6 params c s h ih =>
    rw [List.flatMap_cons, ih]
    simp [Piece.text, opened]
  | case7 params c s h ih =>
    rw [ih]
    simp [opened]

/-- **The pieces make up the text.** -/
theorem pieces_text (s : Bytes) : (pieces s).flatMap Piece.text = s := piecesIn_text none s

/-! ## how a text begins -/

theorem pieces_nil : pieces [] = [] := rfl

/-- a byte that opens no sequence -/
theorem pieces_byte (c : Byte) (s : Bytes) (h : ¬ (c = esc ∧ s.head? = some openBracket)) :
    pieces (c :: s) = .byte c :: pieces s := by
  cases s with
  | nil => rfl
  | cons d s =>
    have hcd : ¬ (c = esc ∧ d = openBracket) := fun he => h ⟨he.1, by rw [he.2]; rfl⟩
    exact if_neg hcd

theorem pieces_open (s : Bytes) : pieces (esc :: openBracket :: s) = piecesIn (some []) s := by
  unfold pieces
  rw [piecesIn, if_pos ⟨rfl, rfl⟩]

theorem piecesIn_seq (params run : Bytes) (letter : Byte) (rest : Bytes)
    (hrun : ∀ c ∈ run, isAlpha c = false) (hletter : isAlpha letter = true) :
    piecesIn (some params) (run ++ letter :: rest) = .seq (params ++ run) letter :: pieces rest := by
  induction run generalizing params with
  | nil =>
    rw [List.nil_append, List.append_nil, piecesIn, if_pos hletter]
    rfl
  | cons c run ih =>
    rw [List.cons_append, piecesIn, if_neg (by rw [hrun c List.mem_cons_self]; decide),
      ih _ fun d hd => hrun d (List.mem_cons_of_mem _ hd), List.append_assoc]
    rfl

theorem piecesIn_cut (params run : Bytes) (hrun : ∀ c ∈ run, isAlpha c = false) :
    piecesIn (some params) run = [.cut (params ++ run)] := by
  induction run generalizing params with
  | nil => rw [piecesIn, List.append_nil]
  | cons c run ih =>
    rw [piecesIn, if_neg (by rw [hrun c List.mem_cons_self]; decide),
      ih _ fun d hd => hrun d (List.mem_cons_of_mem _ hd), List.append_assoc]
    rfl

theorem not_complete_cut (s run : Bytes) (h : pieces s = [.cut run]) : ¬ Complete s := by
  intro hc
  have hcut := hc (.cut run) (by rw [h]; exact List.mem_singleton.mpr rfl)
  cases hcut

/-- How a text begins: with a byte of its own, a sequence, or one without its letter. -/
inductive Begins : Bytes → Prop
  | nil : Begins []
  | byte (c : Byte) (s : Bytes) (h : ¬ (c = esc ∧ s.head? = some openBracket)) : Begins (c :: s)
  | seq (run : Bytes) (letter : Byte) (rest : Bytes) (hrun : ∀ c ∈ run, isAlpha c = false)
      (hletter : isAlpha letter = true) : Begins (esc :: openBracket :: (run ++ letter :: rest))
  | cut (run : Bytes) (hrun : ∀ c ∈ run, isAlpha c = false) : Begins (esc :: openBracket :: run)

theorem begins (s : Bytes) : Begins s := by
  cases s with
  | nil => exact .nil
  | cons c s =>
    by_cases h : c = esc ∧ s.head? = some openBracket
    · obtain ⟨rfl, hs⟩ := h
      cases s with
      | nil => cases hs
      | cons d s =>
        have hd : d = openBracket := Option.some.inj hs
        subst hd
        have hrun : ∀ c ∈ s.takeWhile fun c => !isAlpha c, isAlpha c = false := by
          intro c hc
          have himp := List.mem_takeWhile_imp hc
          simpa using himp
        have hsplit := List.takeWhile_append_dropWhile (p := fun c => !isAlpha c) (l := s)
        cases hrest : s.dropWhile fun c => !isAlpha c with
        | nil =>
          rw [hrest, List.append_nil] at hsplit
          rw [hsplit] at hrun
          exact .cut s hrun
        | cons letter rest =>
          have hletter : isAlpha letter = true := by
            have hhead := List.head_dropWhile_not (fun c => !isAlpha c)
              (l := s) (by rw [hrest]; exact List.cons_ne_nil _ _)
            simp only [hrest, List.head_cons, Bool.not_eq_false'] at hhead
            exact hhead
          rw [hrest] at hsplit
          rw [← hsplit]
          exact .seq _ letter rest hrun hletter
    · exact .byte c s h

/-! ## texts one behind the other -/

/-- **Behind a complete text, a text keeps its pieces** unless it begins with the bracket. -/
theorem piecesIn_append (mode : Option Bytes) (s t : Bytes)
    (h : ∀ p ∈ piecesIn mode s, p.isCut = false) (ht : t.head? ≠ some openBracket) :
    piecesIn mode (s ++ t) = piecesIn mode s ++ pieces t := by
  fun_induction piecesIn mode s with
  | case1 => rfl
  | case2 c =>
    show pieces (c :: t) = _
    rw [pieces_byte c t fun he => ht he.2]
    rfl
  | case3 c d s hcd ih =>
    rw [List.cons_append, List.cons_append, piecesIn, if_pos hcd]
    exact ih h
  | case4 c d s hcd ih =>
    rw [List.cons_append, List.cons_append, piecesIn, if_neg hcd, List.cons_append]
    congr 1
    exact ih fun p hp => h p (List.mem_cons_of_mem _ hp)
  | case5 params =>
    have hcut := h (.cut params) (List.mem_singleton.mpr rfl)
    cases hcut
  | case6 params c s hc ih =>
    rw [List.cons_append, piecesIn, if_pos hc, List.cons_append]
    congr 1
    exact ih fun p hp => h p (List.mem_cons_of_mem _ hp)
  | case7 params c s hc ih =>
    rw [List.cons_append, piecesIn, if_neg hc]
    exact ih h

theorem pieces_append (s t : Bytes) (h : Complete s) (ht : t.head? ≠ some openBracket) :
    pieces (s ++ t) = pieces s ++ pieces t := piecesIn_append none s t h ht

def spaces (n : Nat) : Bytes := List.replicate n space

theorem pieces_spaces (n : Nat) (s : Bytes) :
    pieces (spaces n ++ s) = List.replicate n (.byte space) ++ pieces s := by
  induction n with
  | zero => rfl
  | succ n ih =>
    show pieces (space :: (spaces n ++ s)) = _
    rw [pieces_byte space _ fun he => absurd he.1 (by decide), ih, List.replicate_succ]
    rfl

theorem spaces_head (n : Nat) : (spaces n).head? ≠ some openBracket := by
  cases n with
  | zero => exact fun h => (by cases h)
  | succ n =>
    intro h
    exact absurd (Option.some.inj h) (by decide)

/-- the pieces of a complete text between spaces -/
theorem pieces_between (l r : Nat) (s : Bytes) (h : Complete s) :
    pieces (spaces l ++ s ++ spaces r) =
      List.replicate l (.byte space) ++ (pieces s ++ List.replicate r (.byte space)) := by
  have hright : pieces (spaces r) = List.replicate r (.byte space) := by
    have hr := pieces_spaces r []
    rwa [List.append_nil, pieces_nil, List.append_nil] at hr
  rw [List.append_assoc, pieces_spaces, pieces_append s _ h (spaces_head r), hright]

/-- **A complete text between spaces** is complete, and takes a cell more for each of them. -/
theorem cells_between (l r : Nat) (s : Bytes) (h : Complete s) :
    Complete (spaces l ++ s ++ spaces r) ∧ cells (spaces l ++ s ++ spaces r) = l + cells s + r := by
  have hpieces := pieces_between l r s h
  have hspace : Piece.visible (.byte space) = true := by decide
  constructor
  · intro p hp
    rw [hpieces] at hp
    rcases List.mem_append.mp hp with hp | hp
    · rw [List.eq_of_mem_replicate hp]
      rfl
    · rcases List.mem_append.mp hp with hp | hp
      · exact h p hp
      · rw [List.eq_of_mem_replicate hp]
        rfl
  · unfold cells
    rw [hpieces, List.countP_append, List.countP_append, List.countP_replicate,
      List.countP_replicate, if_pos hspace, if_pos hspace, Nat.add_assoc]

/-! ## texts without sequences -/

def Plain (s : Bytes) : Prop := ¬ [esc, openBracket] <:+: s

instance (s : Bytes) : Decidable (Plain s) := by unfold Plain; infer_instance

theorem plain_cons (c : Byte) (s : Bytes) :
    Plain (c :: s) ↔ ¬ (c = esc ∧ s.head? = some openBracket) ∧ Plain s := by
  unfold Plain
  rw [List.infix_cons_iff, not_or, List.cons_prefix_cons]
  have hhead : [openBracket] <+: s ↔ s.head? = some openBracket := by
    cases s with
    | nil => exact ⟨fun h => absurd h.length_le (Nat.not_succ_le_zero 0), fun h => nomatch h⟩
    | cons d s =>
      rw [List.cons_prefix_cons]
      exact ⟨fun h => congrArg some h.1.symm, fun h => ⟨(Option.some.inj h).symm, List.nil_prefix⟩⟩
  rw [hhead, @eq_comm _ esc c]

theorem Plain.sub {s t : Bytes} (h : Plain t) (hs : s <:+: t) : Plain s := fun hseq =>
  h (hseq.trans hs)

theorem Plain.append {s t : Bytes} (hs : Plain s) (ht : Plain t) (hhead : t.head? ≠ some openBracket) :
    Plain (s ++ t) := by
  induction s with
  | nil => exact ht
  | cons c s ih =>
    obtain ⟨hc, hs⟩ := (plain_cons c s).mp hs
    refine (plain_cons c (s ++ t)).mpr ⟨?_, ih hs⟩
    cases s with
    | nil => exact fun h => hhead h.2
    | cons d s => exact hc

theorem plain_spaces (n : Nat) {s : Bytes} (h : Plain s) : Plain (spaces n ++ s) := by
  induction n with
  | zero => exact h
  | succ n ih => exact (plain_cons space (spaces n ++ s)).mpr ⟨fun he => absurd he.1 (by decide), ih⟩

theorem plain_between (l r : Nat) {s : Bytes} (h : Plain s) : Plain (spaces l ++ s ++ spaces r) := by
  have hright : Plain (spaces r) := by
    have hr := plain_spaces r (show Plain [] by decide)
    rwa [List.append_nil] at hr
  rw [List.append_assoc]
  exact plain_spaces l (h.append hright (spaces_head r))

theorem pieces_plain {s : Bytes} (h : Plain s) : pieces s = s.map .byte := by
  induction s with
  | nil => rfl
  | cons c s ih =>
    obtain ⟨hc, hs⟩ := (plain_cons c s).mp h
    rw [pieces_byte c s hc, ih hs, List.map_cons]

theorem Plain.complete {s : Bytes} (h : Plain s) : Complete s := by
  intro p hp
  rw [pieces_plain h] at hp
  obtain ⟨c, _, rfl⟩ := List.mem_map.mp hp
  rfl

/-- the number of bytes that begin a character -/
def leads (s : Bytes) : Nat := s.countP fun c => !isContinuation c

theorem leads_append (s t : Bytes) : leads (s ++ t) = leads s + leads t := List.countP_append

/-- **Without sequences, the cells are the bytes that begin a character.** -/
theorem cells_plain {s : Bytes} (h : Plain s) : cells s = leads s := by
  unfold cells
  rw [pieces_plain h, List.countP_map]
  rfl

/-- a text that loses its last space loses a cell -/
theorem cells_take_lt {s : Bytes} (h : Plain (s ++ [space])) (n : Nat) (hn : n ≤ s.length) :
    cells ((s ++ [space]).take n) < cells (s ++ [space]) := by
  have hpre : (s ++ [space]).take n <+: s ++ [space] := List.take_prefix _ _
  have hle : leads (s.take n) ≤ leads s := (List.take_sublist n s).countP_le
  rw [cells_plain (h.sub hpre.isInfix), cells_plain h, List.take_append_of_le_length hn, leads_append]
  exact Nat.lt_succ_of_le hle

/-- a byte in front of a text, when it opens no sequence -/
theorem cells_byte (c : Byte) (s : Bytes) (h : ¬ (c = esc ∧ s.head? = some openBracket)) :
    (Complete (c :: s) ↔ Complete s) ∧
      cells (c :: s) = (if !isContinuation c then 1 else 0) + cells s := by
  constructor
  · unfold Complete
    rw [pieces_byte c s h, List.forall_mem_cons]
    exact ⟨fun h => h.2, fun h => ⟨rfl, h⟩⟩
  · unfold cells
    rw [pieces_byte c s h, List.countP_cons, Nat.add_comm]
    rfl

/-- a sequence in front of a text takes no cell -/
theorem cells_seq (code : Bytes) (letter : Byte) (s : Bytes) (hcode : ∀ c ∈ code, isAlpha c = false)
    (hletter : isAlpha letter = true) :
    (Complete (esc :: openBracket :: (code ++ letter :: s)) ↔ Complete s) ∧
      cells (esc :: openBracket :: (code ++ letter :: s)) = cells s := by
  have hpieces : pieces (esc :: openBracket :: (code ++ letter :: s)) = .seq code letter :: pieces s := by
    rw [pieces_open, piecesIn_seq [] code letter s hcode hletter, List.nil_append]
  constructor
  · unfold Complete
    rw [hpieces, List.forall_mem_cons]
    exact ⟨fun h => h.2, fun h => ⟨rfl, h⟩⟩
  · unfold cells
    rw [hpieces, List.countP_cons_of_neg fun h => by cases h]

/-- a text behind a complete one -/
theorem cells_append (s t : Bytes) (h : Complete s) (ht : t.head? ≠ some openBracket) :
    (Complete (s ++ t) ↔ Complete t) ∧ cells (s ++ t) = cells s + cells t := by
  have hpieces := pieces_append s t h ht
  constructor
  · unfold Complete
    rw [hpieces, List.forall_mem_append]
    exact ⟨fun hst => hst.2, fun hst => ⟨h, hst⟩⟩
  · unfold cells
    rw [hpieces, List.countP_append]

end Ansi
end CServer
