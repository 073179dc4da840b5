import CServer.Lib.CString

/-!
# Reading an array through a cursor

A cursor is a position in an array of bytes, and a read behind the array is `none`.  A C string
stands in an array that ends with its NUL.

* `scanFrom`               the first position from `i` on at which a condition holds;
* `strlenAt`, `strchrAt`, `memchrAt`, `strcmpAt`, `rangeAt`   the library functions at a position;
* `scanFrom_run`, ...      what they find, by what stands behind the position.
-/

namespace CServer

/-- the array of a C string -/
def CStr.array (s : CStr) : Bytes := s.bytes ++ [0]

section
variable (mem : Bytes)

def scanFrom (stop : Byte → Bool) (i : Nat) : Option Nat :=
  match h : mem[i]? with
  | none => none
  | some c => if stop c then some i else scanFrom stop (i + 1)
termination_by mem.length - i
decreasing_by
  have hlt := (List.getElem?_eq_some_iff.mp h).1
  omega

/-- `strlen(mem + i)` -/
def strlenAt (i : Nat) : Option Nat := (scanFrom mem (fun x => x == 0) i).map fun j => j - i

/-- `strchr(mem + i, c)`, `none` for the null pointer -/
def strchrAt (c : Byte) (i : Nat) : Option (Option Nat) :=
  (scanFrom mem (fun x => x == c || x == 0) i).map fun j => if mem[j]? = some c then some j else none

/-- `memchr(mem + i, c, n)` -/
def memchrAt (c : Byte) : Nat → Nat → Option (Option Nat)
  | _, 0 => some none
  | i, n + 1 =>
    match mem[i]? with
    | none => none
    | some x => if x = c then some (some i) else memchrAt c (i + 1) n

/-- `strcmp(mem + i, other + i) == 0` -/
def strcmpAt (other : Bytes) (i : Nat) : Option Bool :=
  match h : mem[i]?, other[i]? with
  | none, _ => none
  | some _, none => none
  | some x, some y =>
    if x ≠ y then some false else if x = 0 then some true else strcmpAt other (i + 1)
termination_by mem.length - i
decreasing_by
  have hlt := (List.getElem?_eq_some_iff.mp h).1
  omega

/-- the `n` bytes at `mem + i` -/
def rangeAt (i n : Nat) : Option Bytes :=
  if i + n ≤ mem.length then some ((mem.drop i).take n) else none

variable {mem}

/-- the byte at a position, and what stands behind it -/
theorem read_of_drop {i : Nat} {c : Byte} {rest : Bytes} (h : mem.drop i = c :: rest) :
    mem[i]? = some c ∧ mem.drop (i + 1) = rest := by
  constructor
  · have h0 : (mem.drop i)[0]? = some c := by
      rw [h]
      rfl
    rwa [List.getElem?_drop, Nat.add_zero] at h0
  · rw [← List.drop_drop, h]
    rfl

theorem scanFrom_read (stop : Byte → Bool) (i : Nat) (c : Byte) (h : mem[i]? = some c) :
    scanFrom mem stop i = if stop c then some i else scanFrom mem stop (i + 1) := by
  rw [scanFrom]
  split
  · rename_i hnone
    rw [h] at hnone
    cases hnone
  · rename_i d hsome
    rw [h] at hsome
    cases hsome
    rfl

theorem scanFrom_run (stop : Byte → Bool) (i : Nat) (a : Bytes) (c : Byte) (rest : Bytes)
    (h : mem.drop i = a ++ c :: rest) (ha : ∀ x ∈ a, stop x = false) (hc : stop c = true) :
    scanFrom mem stop i = some (i + a.length) := by
  induction a generalizing i with
  | nil => rw [scanFrom_read stop i c (read_of_drop h).1, if_pos hc, List.length_nil, Nat.add_zero]
  | cons x a ih =>
    obtain ⟨hread, hdrop⟩ := read_of_drop h
    rw [scanFrom_read stop i x hread, if_neg (by rw [ha x List.mem_cons_self]; decide),
      ih (i + 1) hdrop fun y hy => ha y (List.mem_cons_of_mem _ hy), List.length_cons]
    congr 1
    omega

/-- a scan that ends has read as far as that, and no further -/
theorem scanFrom_bound (stop : Byte → Bool) (i j : Nat) (h : scanFrom mem stop i = some j) :
    i ≤ j ∧ j < mem.length := by
  fun_induction scanFrom mem stop i with
  | case1 => cases h
  | case2 i c hread hstop =>
    cases h
    exact ⟨le_refl _, (List.getElem?_eq_some_iff.mp hread).1⟩
  | case3 i c hread hstop ih =>
    obtain ⟨hle, hlt⟩ := ih h
    exact ⟨by omega, hlt⟩

theorem strlenAt_run (i : Nat) (a rest : Bytes) (h : mem.drop i = a ++ 0 :: rest)
    (ha : (0 : Byte) ∉ a) : strlenAt mem i = some a.length := by
  unfold strlenAt
  rw [scanFrom_run _ i a 0 rest h (fun x hx => ?_) rfl, Option.map_some, Nat.add_sub_cancel_left]
  exact beq_eq_false_iff_ne.mpr fun h0 => ha (h0 ▸ hx)

theorem strchrAt_found (c : Byte) (i : Nat) (a rest : Bytes) (h : mem.drop i = a ++ c :: rest)
    (ha : c ∉ a) (h0 : (0 : Byte) ∉ a) : strchrAt mem c i = some (some (i + a.length)) := by
  have hread : mem[i + a.length]? = some c := by
    rw [← List.getElem?_drop, h, List.getElem?_append_right (le_refl _), Nat.sub_self]
    rfl
  unfold strchrAt
  rw [scanFrom_run _ i a c rest h (fun x hx => ?_) (by rw [beq_self_eq_true, Bool.true_or]),
    Option.map_some, if_pos hread]
  rw [Bool.or_eq_false_iff]
  exact ⟨beq_eq_false_iff_ne.mpr fun he => ha (he ▸ hx), beq_eq_false_iff_ne.mpr fun he => h0 (he ▸ hx)⟩

theorem strchrAt_missing (c : Byte) (i : Nat) (a rest : Bytes) (hc : c ≠ 0)
    (h : mem.drop i = a ++ 0 :: rest) (ha : c ∉ a) (h0 : (0 : Byte) ∉ a) :
    strchrAt mem c i = some none := by
  have hread : mem[i + a.length]? = some 0 := by
    rw [← List.getElem?_drop, h, List.getElem?_append_right (le_refl _), Nat.sub_self]
    rfl
  unfold strchrAt
  rw [scanFrom_run _ i a 0 rest h (fun x hx => ?_) (by rw [beq_self_eq_true, Bool.or_true]),
    Option.map_some, hread, if_neg fun he => hc (Option.some.inj he).symm]
  rw [Bool.or_eq_false_iff]
  exact ⟨beq_eq_false_iff_ne.mpr fun he => ha (he ▸ hx), beq_eq_false_iff_ne.mpr fun he => h0 (he ▸ hx)⟩

theorem strchrAt_bound (c : Byte) (i j : Nat) (h : strchrAt mem c i = some (some j)) :
    i ≤ j ∧ j < mem.length := by
  unfold strchrAt at h
  obtain ⟨k, hscan, hk⟩ := Option.map_eq_some_iff.mp h
  split_ifs at hk
  cases hk
  exact scanFrom_bound _ _ _ hscan

theorem memchrAt_found (c : Byte) (i n : Nat) (a rest : Bytes) (h : mem.drop i = a ++ c :: rest)
    (ha : c ∉ a) (hn : a.length < n) : memchrAt mem c i n = some (some (i + a.length)) := by
  induction a generalizing i n with
  | nil =>
    cases n with
    | zero => exact absurd hn (Nat.not_lt_zero _)
    | succ n =>
      rw [memchrAt, (read_of_drop h).1]
      exact if_pos rfl
  | cons x a ih =>
    obtain ⟨hread, hdrop⟩ := read_of_drop h
    cases n with
    | zero => exact absurd hn (Nat.not_lt_zero _)
    | succ n =>
      rw [memchrAt, hread]
      simp only
      rw [if_neg fun hx : x = c => ha (hx ▸ List.mem_cons_self),
        ih (i + 1) n hdrop (fun hc => ha (List.mem_cons_of_mem _ hc)) (Nat.lt_of_succ_lt_succ hn),
        List.length_cons]
      congr 2
      omega

theorem memchrAt_missing (c : Byte) (i : Nat) (a rest : Bytes) (h : mem.drop i = a ++ rest)
    (ha : c ∉ a) : memchrAt mem c i a.length = some none := by
  induction a generalizing i with
  | nil => rfl
  | cons x a ih =>
    obtain ⟨hread, hdrop⟩ := read_of_drop h
    rw [List.length_cons, memchrAt, hread]
    simp only
    rw [if_neg fun hx : x = c => ha (hx ▸ List.mem_cons_self)]
    exact ih (i + 1) hdrop fun hc => ha (List.mem_cons_of_mem _ hc)

theorem strcmpAt_read (other : Bytes) (i : Nat) (x y : Byte) (hx : mem[i]? = some x)
    (hy : other[i]? = some y) : strcmpAt mem other i =
      if x ≠ y then some false else if x = 0 then some true else strcmpAt mem other (i + 1) := by
  rw [strcmpAt]
  split
  · rename_i hnone
    rw [hx] at hnone
    cases hnone
  · rename_i hnone
    rw [hy] at hnone
    cases hnone
  · rename_i hx' hy'
    rw [hx] at hx'
    rw [hy] at hy'
    cases hx'
    cases hy'
    rfl

/-- two strings in their arrays -/
theorem strcmpAt_eq (other : Bytes) (i : Nat) (a b more more' : Bytes)
    (ha : mem.drop i = a ++ 0 :: more) (hb : other.drop i = b ++ 0 :: more')
    (ha0 : (0 : Byte) ∉ a) (hb0 : (0 : Byte) ∉ b) : strcmpAt mem other i = some (decide (a = b)) := by
  induction a generalizing i b with
  | nil =>
    cases b with
    | nil =>
      rw [strcmpAt_read other i 0 0 (read_of_drop ha).1 (read_of_drop hb).1]
      rfl
    | cons y b =>
      have hy : y ≠ 0 := fun h0 => hb0 (h0 ▸ List.mem_cons_self)
      rw [strcmpAt_read other i 0 y (read_of_drop ha).1 (read_of_drop hb).1, if_pos hy.symm]
      rfl
  | cons x a ih =>
    obtain ⟨hread, hdrop⟩ := read_of_drop ha
    have hx : x ≠ 0 := fun h0 => ha0 (h0 ▸ List.mem_cons_self)
    cases b with
    | nil =>
      rw [strcmpAt_read other i x 0 hread (read_of_drop hb).1, if_pos hx]
      rfl
    | cons y b =>
      obtain ⟨hread', hdrop'⟩ := read_of_drop hb
      rw [strcmpAt_read other i x y hread hread']
      by_cases hxy : x = y
      · rw [if_neg (not_not_intro hxy), if_neg hx,
          ih (i + 1) b hdrop hdrop' (fun h0 => ha0 (List.mem_cons_of_mem _ h0))
            fun h0 => hb0 (List.mem_cons_of_mem _ h0)]
        simp [hxy]
      · rw [if_pos hxy]
        simp [hxy]

theorem rangeAt_eq (i n : Nat) (a rest : Bytes) (h : mem.drop i = a ++ rest) (hn : a.length = n)
    (hi : i ≤ mem.length) : rangeAt mem i n = some a := by
  have hlen := congrArg List.length h
  rw [List.length_drop, List.length_append] at hlen
  unfold rangeAt
  rw [if_pos (by omega), h, List.take_left' hn]

end

end CServer
