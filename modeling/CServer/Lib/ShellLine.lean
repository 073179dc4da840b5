import CServer.Lib.Shell

/-!
# Written command lines

A program that writes a command line puts down its arguments one after the other, a space between two.
An argument is written raw, between single quotes, or between single quotes with its own ones escaped.

* `Argument.Good`         nothing in the argument is taken for syntax;
* `read_line`             a line of good arguments has them for its words;
* `line_sound`            where the words are the arguments, the arguments are good;
* `simpleCommand_line`    exactly when a line gives the arguments that are asked of it.
-/

namespace CServer
namespace Shell

def mark (quoted : Bool) (X : Chars) : Letters := X.map fun c => (c, quoted)

theorem text_mark (quoted : Bool) (X : Chars) : (mark quoted X).text = X := by
  rw [Letters.text, mark, List.map_map]
  exact List.map_id X

/-- `'` becomes `'\''`: the quotes are closed, an escaped quote stands there, and they are opened again. -/
def escapeQuote (c : Char) : Chars := if c = '\'' then ['\'', '\\', '\'', '\''] else [c]

inductive Argument where
  | raw (arg : Chars)
  | quoted (arg : Chars)
  | escaped (arg : Chars)
  deriving DecidableEq

/-- the argument that is meant -/
def Argument.arg : Argument → Chars
  | .raw arg => arg
  | .quoted arg => arg
  | .escaped arg => arg

def Argument.text : Argument → Chars
  | .raw arg => arg
  | .quoted arg => '\'' :: (arg ++ ['\''])
  | .escaped arg => '\'' :: (arg.flatMap escapeQuote ++ ['\''])

def Argument.word : Argument → Letters
  | .raw arg => mark false arg
  | .quoted arg => mark true arg
  | .escaped arg => mark true arg

def Argument.Good : Argument → Prop
  | .raw arg => BareWord arg
  | .quoted arg => '\'' ∉ arg
  | .escaped _ => True

theorem Argument.text_word (x : Argument) : x.word.text = x.arg := by
  cases x <;> exact text_mark _ _

/-- the arguments behind the first one -/
def lineRest (l : List Argument) : Chars := l.flatMap fun x => ' ' :: x.text

def line : List Argument → Chars
  | [] => []
  | x :: l => x.text ++ lineRest l

/-! ## the words of good arguments -/

def prepend (w : Letters) (r : Reading) : Reading := (w ++ r.1, r.2)

/-- a whole word in front of the others -/
def consWord (w : Letters) (r : Reading) : Reading := ([], w :: r.2)

theorem map_prepend_nil (quoted : Bool) (o : Option Reading) :
    o.map (prepend (mark quoted [])) = o := by
  cases o <;> rfl

/-- what stands behind an argument -/
def Stops (d : Chars) : Prop := d = [] ∨ ∃ s, d = ' ' :: s

theorem stops_lineRest (l : List Argument) : Stops (lineRest l) := by
  cases l with
  | nil => exact .inl rfl
  | cons x l => exact .inr ⟨x.text ++ lineRest l, rfl⟩

theorem read_bare_stops {d : Chars} (hd : Stops d) : read .bare d = read .gap d := by
  rcases hd with rfl | ⟨s, rfl⟩
  · rfl
  · rw [read_bare_blank s rfl, read_gap_blank s rfl]

theorem read_bare_word (X s : Chars) (h : ∀ c ∈ X, kind c = .plain) :
    read .bare (X ++ s) = (read .bare s).map (prepend (mark false X)) := by
  induction X with
  | nil => exact (map_prepend_nil _ _).symm
  | cons c X ih =>
    rw [List.cons_append, read_bare_plain _ (h c List.mem_cons_self),
      ih fun e he => h e (List.mem_cons_of_mem _ he), Option.map_map]
    rfl

theorem read_single_quoted (X s : Chars) (h : '\'' ∉ X) :
    read .single (X ++ '\'' :: s) = (read .bare s).map (prepend (mark true X)) := by
  induction X with
  | nil =>
    rw [List.nil_append, read, if_pos (kind_single.mpr rfl)]
    exact (map_prepend_nil _ _).symm
  | cons c X ih =>
    have hc : kind c ≠ .single := fun hk => h (kind_single.mp hk ▸ List.mem_cons_self)
    rw [List.cons_append, read, if_neg hc, ih fun he => h (List.mem_cons_of_mem _ he), Option.map_map]
    rfl

/-- an escaped quote inside single quotes -/
theorem read_single_escape (s : Chars) :
    read .single (escapeQuote '\'' ++ s) = (read .single s).map (push '\'' true) := by
  have hquote : kind '\'' = .single := kind_single.mpr rfl
  have hslash : kind '\\' = .backslash := kind_backslash.mpr rfl
  change read .single ('\'' :: '\\' :: '\'' :: '\'' :: s) = _
  rw [read, if_pos hquote, read, hslash]
  change read .escaped ('\'' :: '\'' :: s) = _
  rw [read, if_neg (by decide), read, hquote]

theorem read_single_escaped (X s : Chars) :
    read .single (X.flatMap escapeQuote ++ '\'' :: s) = (read .bare s).map (prepend (mark true X)) := by
  induction X with
  | nil => exact read_single_quoted [] s (by simp)
  | cons c X ih =>
    have hstep : ∀ s, read .single (escapeQuote c ++ s) = (read .single s).map (push c true) := by
      intro s
      by_cases hc : c = '\''
      · subst hc
        exact read_single_escape s
      · have hk : kind c ≠ .single := fun hk => hc (kind_single.mp hk)
        rw [escapeQuote, if_neg hc, List.singleton_append, read, if_neg hk]
    rw [List.flatMap_cons, List.append_assoc, hstep, ih, Option.map_map]
    rfl

/-- the quote that opens a word -/
theorem read_gap_quote (s : Chars) : read .gap ('\'' :: s) = (read .single s).map begin := by
  rw [read, kind_single.mpr rfl]

/-- **A good argument is one word.** -/
theorem read_written (x : Argument) {d : Chars} (hx : x.Good) (hd : Stops d) :
    read .gap (x.text ++ d) = (read .gap d).map (consWord x.word) := by
  have hclose : ∀ w, ((read .gap d).map (prepend w)).map begin = (read .gap d).map (consWord w) := by
    intro w
    rw [Option.map_map]
    refine Option.map_congr fun r hr => ?_
    have hfst : r.1 = [] := read_gap_fst (.inl rfl) hr
    simp [begin, prepend, consWord, hfst]
  cases x with
  | raw arg =>
    obtain ⟨hne, hplain, hfirst⟩ := hx
    obtain ⟨c, X, rfl⟩ := List.exists_cons_of_ne_nil hne
    have hc : ¬ (c = '#' ∨ c = '~') := by
      rintro (rfl | rfl)
      · exact hfirst.1 rfl
      · exact hfirst.2 rfl
    change read .gap (c :: (X ++ d)) = _
    rw [read_gap_plain _ (hplain c List.mem_cons_self), if_neg hc,
      read_bare_word X d fun e he => hplain e (List.mem_cons_of_mem _ he), read_bare_stops hd,
      Argument.word, ← hclose (mark false (c :: X)), Option.map_map, Option.map_map]
    rfl
  | quoted arg =>
    change read .gap ('\'' :: (arg ++ ['\''] ++ d)) = _
    rw [read_gap_quote, List.append_assoc, List.singleton_append, read_single_quoted arg d hx,
      read_bare_stops hd]
    exact hclose (mark true arg)
  | escaped arg =>
    change read .gap ('\'' :: (arg.flatMap escapeQuote ++ ['\''] ++ d)) = _
    rw [read_gap_quote, List.append_assoc, List.singleton_append, read_single_escaped arg d,
      read_bare_stops hd]
    exact hclose (mark true arg)

theorem read_lineRest (l : List Argument) : read .gap (lineRest l) = read .gap (line l) := by
  cases l with
  | nil => rfl
  | cons x l =>
    change read .gap (' ' :: (x.text ++ lineRest l)) = _
    rw [read_gap_blank _ rfl]
    rfl

theorem read_line (l : List Argument) (h : ∀ x ∈ l, x.Good) :
    read .gap (line l) = some ([], l.map Argument.word) := by
  induction l with
  | nil => rfl
  | cons x l ih =>
    change read .gap (x.text ++ lineRest l) = _
    rw [read_written x (h x List.mem_cons_self) (stops_lineRest l), read_lineRest,
      ih fun y hy => h y (List.mem_cons_of_mem _ hy)]
    rfl

/-! ## the arguments that a line has -/

/-- The text of the argument begins with a plain character. -/
def Argument.Opens (x : Argument) : Prop := ∃ o t, x.text = o :: t ∧ kind o = .plain

/-- An argument is good, or behind it stands one that begins with a plain character. -/
def Spaced (l : List Argument) : Prop := l.IsChain fun x y => x.Good ∨ y.Opens

theorem ends_lineRest {x : Argument} {l : List Argument} (h : Spaced (x :: l)) (hx : ¬ x.Good) :
    Ends (lineRest l) := by
  cases l with
  | nil => exact .nil
  | cons y l =>
    rcases (List.isChain_cons_cons.mp h).1 with hgood | ⟨o, t, hy, ho⟩
    · exact absurd hgood hx
    · change Ends (' ' :: (y.text ++ lineRest l))
      rw [hy]
      exact .next ' ' o _ rfl ho

/-- An argument that is read as it is meant is good. -/
theorem good_of_read {x : Argument} {d : Chars} {r : Reading} (hd : Ends d)
    (h : read .gap (x.text ++ d) = some r) (ht : r.2.head?.map Letters.text = some x.arg) : x.Good := by
  cases x with
  | raw arg => exact gap_sync hd h ht
  | quoted arg =>
    change read .gap ('\'' :: (arg ++ ['\''] ++ d)) = some r at h
    rw [read_gap_quote, List.append_assoc, List.singleton_append] at h
    obtain ⟨r', hr, rfl⟩ := Option.map_eq_some_iff.mp h
    exact single_sync hd hr (Option.some.inj ht)
  | escaped arg => exact trivial

/-- **As far as the words are the arguments that were meant, the arguments are good.** -/
theorem line_sound {l : List Argument} (hl : Spaced l) {r : Reading} {k : Nat}
    (h : read .gap (line l) = some r)
    (ht : (r.2.map Letters.text).take k = (l.map Argument.arg).take k) : ∀ x ∈ l.take k, x.Good := by
  induction l generalizing r k with
  | nil => simp
  | cons x l ih =>
    cases k with
    | zero => simp
    | succ k =>
      have hhead : r.2.head?.map Letters.text = some x.arg := by
        rw [← List.head?_map]
        have hh := congrArg List.head? ht
        rwa [List.head?_take, if_neg (Nat.succ_ne_zero k), List.head?_take,
          if_neg (Nat.succ_ne_zero k), List.map_cons, List.head?_cons] at hh
      have hx : x.Good := by
        by_contra hx
        exact hx (good_of_read (ends_lineRest hl hx) h hhead)
      change read .gap (x.text ++ lineRest l) = some r at h
      rw [read_written x hx (stops_lineRest l), read_lineRest] at h
      obtain ⟨r', hr, rfl⟩ := Option.map_eq_some_iff.mp h
      have htail : (r'.2.map Letters.text).take k = (l.map Argument.arg).take k := by
        have hcons : Letters.text x.word :: (r'.2.map Letters.text).take k =
            x.arg :: (l.map Argument.arg).take k := ht
        exact (List.cons.inj hcons).2
      intro y hy
      rcases List.mem_cons.mp hy with rfl | hy
      · exact hx
      · exact ih hl.tail hr htail y hy

theorem nul_mem_written (x : Argument) : '\x00' ∈ x.text ↔ '\x00' ∈ x.arg := by
  have hescape : ∀ c, '\x00' ∈ escapeQuote c ↔ '\x00' = c := by
    intro c
    unfold escapeQuote
    split
    · rename_i hc
      subst hc
      simp
    · exact List.mem_singleton
  cases x with
  | raw arg => exact Iff.rfl
  | quoted arg => simp [Argument.text, Argument.arg]
  | escaped arg => simp [Argument.text, Argument.arg, hescape]

theorem nul_mem_line (l : List Argument) : '\x00' ∈ line l ↔ ∃ x ∈ l, '\x00' ∈ x.arg := by
  have hrest : ∀ l : List Argument, '\x00' ∈ lineRest l ↔ ∃ x ∈ l, '\x00' ∈ x.arg := by
    intro l
    simp [lineRest, nul_mem_written]
  cases l with
  | nil => simp [line]
  | cons x l => simp [line, hrest, nul_mem_written]

/-- **The arguments of a written line.** The line is asked for `args`, whose first `k` are those that
were meant; behind them it is written well. -/
theorem simpleCommand_line (files : Letters → List Chars) {l : List Argument} (hl : Spaced l) (k : Nat)
    (args : List Chars) (htake : args.take k = (l.map Argument.arg).take k)
    (hdrop : ∀ x ∈ l.drop k, x.Good) :
    simpleCommand files (line l) = some args ↔
      args = l.map Argument.arg ∧ ∀ x ∈ l, x.Good ∧ '\x00' ∉ x.arg ∧ Stays files x.word := by
  have htexts : (l.map Argument.word).map Letters.text = l.map Argument.arg := by
    rw [List.map_map]
    exact List.map_congr_left fun x _ => x.text_word
  unfold simpleCommand
  constructor
  · intro h
    split at h
    · exact absurd h (by simp)
    rename_i hnul
    obtain ⟨r, hr, h⟩ := Option.bind_eq_some_iff.mp h
    split at h
    · rename_i hstays
      have hargs : r.2.map Letters.text = args := Option.some.inj h
      have hgood : ∀ x ∈ l, x.Good := by
        intro x hx
        rw [← List.take_append_drop k l] at hx
        rcases List.mem_append.mp hx with hx | hx
        · exact line_sound hl hr (by rw [hargs, htake]) x hx
        · exact hdrop x hx
      obtain rfl := Option.some.inj (hr.symm.trans (read_line l hgood))
      refine ⟨by rw [← hargs, htexts], fun x hx => ⟨hgood x hx, fun hmem => hnul ?_, ?_⟩⟩
      · exact (nul_mem_line l).mpr ⟨x, hx, hmem⟩
      · exact hstays _ (List.mem_map_of_mem hx)
    · exact absurd h (by simp)
  · rintro ⟨rfl, hall⟩
    have hnul : '\x00' ∉ line l := by
      rw [nul_mem_line]
      rintro ⟨x, hx, hmem⟩
      exact (hall x hx).2.1 hmem
    have hstays : ∀ w ∈ l.map Argument.word, Stays files w := by
      intro w hw
      obtain ⟨x, hx, rfl⟩ := List.mem_map.mp hw
      exact (hall x hx).2.2
    rw [if_neg hnul, read_line l fun x hx => (hall x hx).1]
    change (if ∀ w ∈ l.map Argument.word, Stays files w then _ else _) = _
    rw [if_pos hstays, htexts]

/-- No character of a quoted argument makes it a pattern. -/
theorem stays_quoted (files : Letters → List Chars) (arg : Chars) : Stays files (mark true arg) := by
  rintro ⟨p, hp, hq, -⟩
  obtain ⟨c, -, rfl⟩ := List.mem_map.mp hp
  cases hq

end Shell
end CServer
