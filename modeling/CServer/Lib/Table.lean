import Mathlib

/-!
# Keyed tables

A `Table key` is a list of rows no two of which have the same key, as a relational table with a
primary key.

* `get`, `put`, `erase`, `modify`   lookup, upsert, delete and update by key;
* `get_put`, `get_erase`, `get_modify`   what a lookup sees afterwards;
* `put_eq_self`, `modify_eq_self`   when a write changes nothing;
* `select`   the rows that satisfy a condition, in the order of a ranking.
-/

set_option linter.unusedSectionVars false

namespace CServer

structure Table {α κ : Type} (key : α → κ) where
  rows : List α
  unique : (rows.map key).Nodup

namespace Table
variable {α κ : Type} [DecidableEq κ] {key : α → κ}

theorem ext' {t u : Table key} (h : t.rows = u.rows) : t = u := by
  cases t
  cases u
  cases h
  rfl

def empty (key : α → κ) : Table key := ⟨[], List.nodup_nil⟩

@[simp] theorem empty_rows : (empty key).rows = [] := rfl

/-- the row with the key `k` -/
def get (t : Table key) (k : κ) : Option α := t.rows.find? fun r => decide (key r = k)

/-- replace the row with the key of `x`, or append `x` -/
def putRows (key : α → κ) (x : α) : List α → List α
  | [] => [x]
  | r :: rs => if key r = key x then x :: rs else r :: putRows key x rs

theorem putRows_keys (x : α) (rs : List α) (h : key x ∈ rs.map key) :
    (putRows key x rs).map key = rs.map key := by
  induction rs with
  | nil => cases h
  | cons r rs ih =>
    rw [putRows]
    by_cases hr : key r = key x
    · rw [if_pos hr, List.map_cons, List.map_cons, hr]
    · rw [if_neg hr, List.map_cons, List.map_cons, ih]
      rcases List.mem_cons.mp h with h | h
      · exact absurd h.symm hr
      · exact h

theorem putRows_append (x : α) (rs : List α) (h : key x ∉ rs.map key) :
    putRows key x rs = rs ++ [x] := by
  induction rs with
  | nil => rfl
  | cons r rs ih =>
    rw [List.map_cons, List.mem_cons, not_or] at h
    rw [putRows, if_neg fun hr => h.1 hr.symm, ih h.2, List.cons_append]

theorem putRows_unique (x : α) (rs : List α) (h : (rs.map key).Nodup) :
    ((putRows key x rs).map key).Nodup := by
  by_cases hx : key x ∈ rs.map key
  · rw [putRows_keys x rs hx]
    exact h
  · rw [putRows_append x rs hx, List.map_append, List.map_singleton]
    refine List.Nodup.append h (List.nodup_singleton _) fun k hk hk' => ?_
    rw [List.mem_singleton] at hk'
    exact hx (hk' ▸ hk)

def put (t : Table key) (x : α) : Table key :=
  ⟨putRows key x t.rows, putRows_unique x t.rows t.unique⟩

def erase (t : Table key) (k : κ) : Table key :=
  ⟨t.rows.filter fun r => decide (key r ≠ k), (List.filter_sublist.map key).nodup t.unique⟩

theorem modify_keys (k : κ) (f : α → α) (hf : ∀ r, key (f r) = key r) (rs : List α) :
    (rs.map fun r => if key r = k then f r else r).map key = rs.map key := by
  rw [List.map_map]
  apply List.map_congr_left
  intro r _
  show key (if key r = k then f r else r) = key r
  by_cases hr : key r = k
  · rw [if_pos hr, hf]
  · rw [if_neg hr]

/-- apply `f` to the row with the key `k` -/
def modify (t : Table key) (k : κ) (f : α → α) (hf : ∀ r, key (f r) = key r) : Table key :=
  ⟨t.rows.map fun r => if key r = k then f r else r, by
    rw [modify_keys k f hf]
    exact t.unique⟩

/-! ## lookups -/

theorem get_eq_some {t : Table key} {k : κ} {r : α} (h : t.get k = some r) :
    r ∈ t.rows ∧ key r = k := by
  have hf : t.rows.find? (fun r => decide (key r = k)) = some r := h
  exact ⟨List.mem_of_find?_eq_some hf, by simpa using List.find?_some hf⟩

theorem get_eq_none {t : Table key} {k : κ} : t.get k = none ↔ ∀ r ∈ t.rows, key r ≠ k := by
  unfold get
  rw [List.find?_eq_none]
  simp

theorem find_of_mem (rs : List α) (h : (rs.map key).Nodup) (r : α) (hr : r ∈ rs) :
    rs.find? (fun x => decide (key x = key r)) = some r := by
  induction rs with
  | nil => cases hr
  | cons x rs ih =>
    rw [List.map_cons, List.nodup_cons] at h
    rcases List.mem_cons.mp hr with rfl | hr
    · exact List.find?_cons_of_pos (by simp)
    · have hne : key x ≠ key r := fun he => h.1 (he ▸ List.mem_map_of_mem hr)
      rw [List.find?_cons_of_neg (by simpa using hne)]
      exact ih h.2 hr

theorem get_of_mem (t : Table key) {r : α} (hr : r ∈ t.rows) : t.get (key r) = some r :=
  find_of_mem t.rows t.unique r hr

theorem get_iff (t : Table key) (k : κ) (r : α) : t.get k = some r ↔ r ∈ t.rows ∧ key r = k := by
  constructor
  · exact get_eq_some
  · rintro ⟨hr, rfl⟩
    exact t.get_of_mem hr

theorem find_putRows (x : α) (rs : List α) (k : κ) :
    (putRows key x rs).find? (fun r => decide (key r = k)) =
      if key x = k then some x else rs.find? fun r => decide (key r = k) := by
  induction rs with
  | nil =>
    by_cases h : key x = k
    · simp [putRows, h]
    · simp [putRows, h]
  | cons r rs ih =>
    rw [putRows]
    by_cases hr : key r = key x
    · rw [if_pos hr]
      by_cases h : key x = k
      · simp [h]
      · have hrk : key r ≠ k := fun e => h (hr ▸ e)
        simp [h, hrk]
    · rw [if_neg hr]
      by_cases hrk : key r = k
      · have h : key x ≠ k := fun e => hr (hrk.trans e.symm)
        simp [h, hrk]
      · rw [List.find?_cons_of_neg (by simpa using hrk), ih,
          List.find?_cons_of_neg (by simpa using hrk)]

theorem get_put (t : Table key) (x : α) (k : κ) :
    (t.put x).get k = if key x = k then some x else t.get k := find_putRows x t.rows k

theorem get_erase (t : Table key) (k k' : κ) :
    (t.erase k).get k' = if k' = k then none else t.get k' := by
  by_cases h : k' = k
  · subst h
    rw [if_pos rfl, get_eq_none]
    intro r hr
    exact of_decide_eq_true (List.mem_filter.mp hr).2
  · rw [if_neg h]
    unfold get erase
    simp only
    rw [List.find?_filter]
    congr 1
    funext r
    by_cases hr : key r = k'
    · simp [hr, h]
    · simp [hr]

theorem get_modify (t : Table key) (k : κ) (f : α → α) (hf : ∀ r, key (f r) = key r) (k' : κ) :
    (t.modify k f hf).get k' = if k' = k then (t.get k').map f else t.get k' := by
  unfold get modify
  simp only
  generalize t.rows = rs
  induction rs with
  | nil => simp
  | cons r rs ih =>
    rw [List.map_cons]
    by_cases hr : key r = k'
    · by_cases h : k' = k
      · have hrk : key r = k := hr.trans h
        simp [hrk, hf, h]
      · simp [hr, h]
    · have hk : key (if key r = k then f r else r) ≠ k' := by
        by_cases hrk : key r = k
        · rw [if_pos hrk, hf]
          exact hr
        · rw [if_neg hrk]
          exact hr
      rw [List.find?_cons_of_neg (by simpa using hk), ih, List.find?_cons_of_neg (by simpa using hr)]

/-! ## members -/

theorem mem_put (t : Table key) (x r : α) : r ∈ (t.put x).rows ↔ r = x ∨ r ∈ t.rows ∧ key r ≠ key x := by
  have h := (t.put x).get_iff (key r) r
  rw [get_put] at h
  constructor
  · intro hr
    have hs := h.mpr ⟨hr, rfl⟩
    by_cases he : key x = key r
    · rw [if_pos he] at hs
      exact .inl (Option.some.inj hs).symm
    · rw [if_neg he] at hs
      exact .inr ⟨(get_eq_some hs).1, fun e => he e.symm⟩
  · rintro (rfl | ⟨hr, hne⟩)
    · rw [if_pos rfl] at h
      exact (h.mp rfl).1
    · rw [if_neg fun e => hne e.symm] at h
      exact (h.mp (t.get_of_mem hr)).1

theorem mem_erase (t : Table key) (k : κ) (r : α) :
    r ∈ (t.erase k).rows ↔ r ∈ t.rows ∧ key r ≠ k := by
  show r ∈ t.rows.filter _ ↔ _
  rw [List.mem_filter]
  simp

theorem mem_modify (t : Table key) (k : κ) (f : α → α) (hf : ∀ r, key (f r) = key r) (r : α)
    (h : r ∈ (t.modify k f hf).rows) : r ∈ t.rows ∨ ∃ s ∈ t.rows, key s = k ∧ r = f s := by
  obtain ⟨s, hs, rfl⟩ := List.mem_map.mp h
  by_cases he : key s = k
  · rw [if_pos he]
    exact .inr ⟨s, hs, he, rfl⟩
  · rw [if_neg he]
    exact .inl hs

/-- an upsert changes nothing exactly when the row is there -/
theorem put_eq_self (t : Table key) (x : α) : t.put x = t ↔ x ∈ t.rows := by
  constructor
  · intro h
    rw [← h]
    exact (t.mem_put x x).mpr (.inl rfl)
  · intro hx
    apply ext'
    show putRows key x t.rows = t.rows
    have hu := t.unique
    generalize t.rows = rs at hx hu
    induction rs with
    | nil => cases hx
    | cons r rs ih =>
      rw [List.map_cons, List.nodup_cons] at hu
      rw [putRows]
      rcases List.mem_cons.mp hx with rfl | hx
      · rw [if_pos rfl]
      · have hne : key r ≠ key x := fun e => hu.1 (e ▸ List.mem_map_of_mem hx)
        rw [if_neg hne, ih hx hu.2]

/-- an update changes nothing exactly when it fixes the row it is applied to -/
theorem modify_eq_self (t : Table key) (k : κ) (f : α → α) (hf : ∀ r, key (f r) = key r) :
    t.modify k f hf = t ↔ ∀ r ∈ t.rows, key r = k → f r = r := by
  constructor
  · intro h r hr hk
    have hg := get_modify t k f hf k
    rw [h, if_pos rfl] at hg
    subst hk
    rw [t.get_of_mem hr, Option.map_some] at hg
    exact (Option.some.inj hg).symm
  · intro h
    apply ext'
    show t.rows.map (fun r => if key r = k then f r else r) = t.rows
    conv => rhs; rw [← List.map_id t.rows]
    apply List.map_congr_left
    intro r hr
    by_cases hk : key r = k
    · rw [if_pos hk]
      exact h r hr hk
    · rw [if_neg hk]
      rfl

/-! ## ordered selection -/

theorem take_filter_eq_iff (L : List α) (q : α → Bool) (n : Nat) :
    (L.filter q).take n = L.take n ↔ ∀ x ∈ L.take n, q x = true := by
  constructor
  · intro h x hx
    rw [← h] at hx
    exact (List.mem_filter.mp (List.mem_of_mem_take hx)).2
  · intro h
    have hall : (L.take n).filter q = L.take n := List.filter_eq_self.mpr h
    by_cases hle : n ≤ L.length
    · calc (L.filter q).take n = ((L.take n ++ L.drop n).filter q).take n := by
            rw [List.take_append_drop]
        _ = (L.take n ++ (L.drop n).filter q).take n := by rw [List.filter_append, hall]
        _ = L.take n := List.take_left' (List.length_take_of_le hle)
    · have hself : L.take n = L := List.take_of_length_le (by omega)
      rw [hself] at hall ⊢
      rw [hall, hself]

/-- **Pages one behind the other are the beginning of the list.** -/
theorem take_pages (L : List α) (size n : Nat) :
    ((List.range n).flatMap fun k => (L.drop (k * size)).take size) = L.take (n * size) := by
  induction n with
  | zero =>
    rw [Nat.zero_mul, List.take_zero]
    rfl
  | succ n ih =>
    rw [List.range_succ, List.flatMap_append, ih, List.flatMap_singleton, Nat.succ_mul, List.take_add]

section
variable {ι : Type} [LinearOrder ι] (rank : α → ι)

/-- the rows that satisfy `p`, by ascending rank -/
def select (t : Table key) (p : α → Bool) : List α :=
  (t.rows.filter p).insertionSort fun r s => rank r ≤ rank s

theorem mem_select (t : Table key) (p : α → Bool) (r : α) :
    r ∈ t.select rank p ↔ r ∈ t.rows ∧ p r = true := by
  unfold select
  rw [List.mem_insertionSort, List.mem_filter]

theorem select_sorted (t : Table key) (p : α → Bool) :
    (t.select rank p).Pairwise fun r s => rank r ≤ rank s := by
  have : Std.Total fun r s : α => rank r ≤ rank s := ⟨fun r s => le_total _ _⟩
  have : IsTrans α fun r s : α => rank r ≤ rank s := ⟨fun _ _ _ => le_trans⟩
  exact List.pairwise_insertionSort _ _

theorem select_nodup (t : Table key) (p : α → Bool) : (t.select rank p).Nodup := by
  have hn : t.rows.Nodup := List.Nodup.of_map key t.unique
  exact (List.perm_insertionSort _ _).nodup_iff.mpr (hn.filter p)

/-- rows of different keys have different ranks, so the selection ascends strictly -/
theorem select_strict (t : Table key) (p : α → Bool)
    (hinj : ∀ r s : α, rank r = rank s → key r = key s) :
    (t.select rank p).Pairwise fun r s => rank r < rank s := by
  have hs := select_sorted rank t p
  have hn := select_nodup rank t p
  have hmem : ∀ r ∈ t.select rank p, r ∈ t.rows := fun r hr => ((mem_select rank t p r).mp hr).1
  refine ((hs.and hn).imp_of_mem fun {r s} hr hs' h => ?_)
  refine lt_of_le_of_ne h.1 fun he => h.2 ?_
  have h1 := t.get_of_mem (hmem r hr)
  have h2 := t.get_of_mem (hmem s hs')
  rw [hinj r s he] at h1
  exact Option.some.inj (h1.symm.trans h2)

/-- In an ascending list, all of the first `n` elements satisfy `q` exactly when every element
that does not has `n` below it that do. -/
theorem take_all_iff (L : List α) (hL : L.Pairwise fun r s => rank r < rank s) (q : α → Bool)
    (n : Nat) :
    (∀ x ∈ L.take n, q x = true) ↔
      ∀ s ∈ L, q s = false → n ≤ (L.filter fun r => q r && decide (rank r < rank s)).length := by
  induction L generalizing n with
  | nil =>
    constructor
    · intro _ s hs
      cases hs
    · intro _ x hx
      rw [List.take_nil] at hx
      cases hx
  | cons a L ih =>
    obtain ⟨ha, hL⟩ := List.pairwise_cons.mp hL
    cases n with
    | zero =>
      constructor
      · intro _ s _ _
        exact Nat.zero_le _
      · intro _ x hx
        rw [List.take_zero] at hx
        cases hx
    | succ n =>
      have hself : (L.filter fun r => q r && decide (rank r < rank a)) = [] := by
        rw [List.filter_eq_nil_iff]
        intro r hr
        have := not_lt_of_gt (ha r hr)
        simp [this]
      cases hq : q a with
      | false =>
        constructor
        · intro h
          have := h a (by simp)
          rw [hq] at this
          cases this
        · intro h
          have := h a List.mem_cons_self hq
          rw [List.filter_cons_of_neg (by simp), hself] at this
          simp at this
      | true =>
        have hbelow : ∀ s ∈ L, ((a :: L).filter fun r => q r && decide (rank r < rank s)).length =
            (L.filter fun r => q r && decide (rank r < rank s)).length + 1 := by
          intro s hs
          rw [List.filter_cons_of_pos (by simp [hq, ha s hs]), List.length_cons]
        rw [List.take_succ_cons]
        constructor
        · intro h s hs hqs
          rcases List.mem_cons.mp hs with rfl | hs
          · rw [hq] at hqs
            cases hqs
          · rw [hbelow s hs]
            have := (ih hL n).mp (fun x hx => h x (List.mem_cons_of_mem _ hx)) s hs hqs
            omega
        · intro h x hx
          rcases List.mem_cons.mp hx with rfl | hx
          · exact hq
          · refine (ih hL n).mpr (fun s hs hqs => ?_) x hx
            have := h s (List.mem_cons_of_mem _ hs) hqs
            rw [hbelow s hs] at this
            omega

/-- selecting less is filtering the selection -/
theorem select_filter (t : Table key) (p q : α → Bool) (hpq : ∀ r, q r = true → p r = true)
    (hinj : ∀ r s : α, rank r = rank s → key r = key s) :
    (t.select rank p).filter q = t.select rank q := by
  have h1 := (select_strict rank t p hinj).filter q
  have h2 := select_strict rank t q hinj
  have : Std.Irrefl fun r s : α => rank r < rank s := ⟨fun r => lt_irrefl _⟩
  have : Std.Antisymm fun r s : α => rank r < rank s := ⟨fun r s h1 h2 => absurd h1 (not_lt_of_gt h2)⟩
  apply List.Pairwise.eq_of_mem_iff h1 h2
  intro r
  rw [List.mem_filter, mem_select, mem_select]
  constructor
  · intro h
    exact ⟨h.1.1, h.2⟩
  · intro h
    exact ⟨⟨h.1, hpq r h.2⟩, h.2⟩

/-- the number of rows below `s` that satisfy `q` -/
def below (t : Table key) (q : α → Bool) (s : α) : Nat :=
  (t.rows.filter fun r => q r && decide (rank r < rank s)).length

/-- **When the first `n` rows of a selection are those of a narrower one:** every row that the
narrower one leaves out has `n` of its rows below. -/
theorem take_select_eq_iff (t : Table key) (p q : α → Bool) (hpq : ∀ r, q r = true → p r = true)
    (hinj : ∀ r s : α, rank r = rank s → key r = key s) (n : Nat) :
    (t.select rank q).take n = (t.select rank p).take n ↔
      ∀ s ∈ t.rows, p s = true → q s = false →
        n ≤ t.below rank q s := by
  have hcount : ∀ s, ((t.select rank p).filter fun r => q r && decide (rank r < rank s)).length =
      t.below rank q s := by
    intro s
    rw [select_filter rank t p _ (fun r hr => hpq r (Bool.and_eq_true _ _ ▸ hr).1) hinj]
    exact List.length_insertionSort _ _
  rw [← select_filter rank t p q hpq hinj, take_filter_eq_iff,
    take_all_iff rank _ (select_strict rank t p hinj)]
  constructor
  · intro h s hs hp hq
    rw [← hcount]
    exact h s ((mem_select rank t p s).mpr ⟨hs, hp⟩) hq
  · intro h s hs hq
    obtain ⟨hs, hp⟩ := (mem_select rank t p s).mp hs
    rw [hcount]
    exact h s hs hp hq

end

end Table
end CServer
