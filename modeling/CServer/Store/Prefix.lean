import CServer.Store.Listing

/-!
# Listing by prefix

`store_kv_list` asks SQLite for the keys that are `LIKE` the prefix with `%` behind it.  In that
pattern `_` stands for any character and letters match in both cases.

* `ListsPrefix`             the answer lists the first `limit` keys that begin with the prefix;
* `PrefixExact`             no key that only looks like the prefix comes among them, and their values
                            fit `ev`;
* `storeKvList_prefix_iff`  the listing is exact under that condition and under no other.
-/

namespace CServer
open FlatJson

/-! ## what the loop accepts -/

theorem kvRowText_split (row row' : KvRow) (r r' : Bytes)
    (h : kvRowText row ++ r = kvRowText row' ++ r') :
    row.key = row'.key ∧ row.value = row'.value ∧ r = r' := by
  obtain ⟨hk, hv, hr⟩ := kvItem_split _ _ _ _ _ _ h
  exact ⟨CStr.ext' hk, CStr.ext' hv, hr⟩

theorem kvRowText_ne_nil (row : KvRow) (r : Bytes) : kvRowText row ++ r ≠ [] := by
  unfold kvRowText
  rw [kvItem_text]
  exact List.cons_ne_nil _ _

/-- the listed keys can be read off the text -/
theorem kvRowsText_keys (first : Bool) (rows rows' : List KvRow)
    (h : kvRowsText first rows = kvRowsText first rows') :
    rows.map KvRow.key = rows'.map KvRow.key := by
  have hne : ∀ (first : Bool) (row : KvRow) (rows : List KvRow),
      kvRowsText first (row :: rows) ≠ [] := by
    intro first row rows he
    rw [kvRowsText, List.append_assoc] at he
    exact kvRowText_ne_nil row _ (List.append_eq_nil_iff.mp he).2
  induction rows generalizing first rows' with
  | nil =>
    cases rows' with
    | nil => rfl
    | cons row' rows' => exact absurd h.symm (hne first row' rows')
  | cons row rows ih =>
    cases rows' with
    | nil => exact absurd h (hne first row rows)
    | cons row' rows' =>
      rw [kvRowsText, kvRowsText, List.append_assoc, List.append_assoc] at h
      obtain ⟨hk, _, hr⟩ := kvRowText_split _ _ _ _ (List.append_cancel_left h)
      rw [List.map_cons, List.map_cons, hk, ih false rows' hr]

/-- what an accepted listing looks like -/
theorem kvListLoop_ok (outCap call : Nat) (text out : Bytes) (first : Bool) (rows : List KvRow)
    (h : kvListLoop .none outCap call text first rows = .ok out) :
    out = text ++ kvRowsText first rows ∧
      ∀ row ∈ rows, (escapeText row.value.bytes).length < KV_LIST_VALUE_CAP := by
  induction rows generalizing call text first with
  | nil =>
    rw [kvListLoop, if_neg (by simp)] at h
    cases h
    rw [kvRowsText, List.append_nil]
    exact ⟨rfl, fun row hr => by cases hr⟩
  | cons row rows ih =>
    rw [kvListLoop, if_neg (by simp)] at h
    split at h
    · next ek ev hk hv =>
      obtain ⟨_, hek, _⟩ := (jsonEscape_eq_some _ _ _).mp hk
      obtain ⟨_, hev, hlt⟩ := (jsonEscape_eq_some _ _ _).mp hv
      subst hek
      subst hev
      simp only at h
      by_cases hfit : ((if first then [] else [comma]) ++ kvItem (escapeText row.key.bytes)
          (escapeText row.value.bytes)).length ≥ outCap - text.length
      · rw [if_pos hfit] at h
        cases h
      · rw [if_neg hfit] at h
        obtain ⟨ho, hrows⟩ := ih _ _ _ h
        constructor
        · rw [ho, kvRowsText]
          show text ++ ((if first then [] else [comma]) ++ kvRowText row) ++ _ = _
          simp only [List.append_assoc]
        · intro x hx
          rcases List.mem_cons.mp hx with rfl | hx
          · exact hlt
          · exact hrows x hx
    · cases h

/-! ## room -/

/-- a buffer that holds the rendering of the whole table -/
def kvRoom (kv : KvTable) : Nat := 3 + (kv.rows.map fun r => (kvRowText r).length + 1).sum

theorem kvRowsText_length (first : Bool) (rows : List KvRow) :
    (kvRowsText first rows).length ≤ (rows.map fun r => (kvRowText r).length + 1).sum := by
  induction rows generalizing first with
  | nil => exact Nat.zero_le _
  | cons row rows ih =>
    have hcomma : (if first then [] else [comma]).length ≤ 1 := by
      split_ifs <;> decide
    have htail := ih false
    rw [kvRowsText, List.length_append, List.length_append, List.map_cons, List.sum_cons]
    omega

theorem kvSelect_length (kv : KvTable) (pfx : CStr) (limit : Nat) (first : Bool) :
    (kvRowsText first (kvSelect kv pfx limit)).length + 3 ≤ kvRoom kv := by
  have hlen := kvRowsText_length first (kvSelect kv pfx limit)
  have htake : (kvSelect kv pfx limit).Sublist
      (kv.select KvRow.rank fun r => like backslash (kvPattern pfx) r.key.bytes) :=
    List.take_sublist _ _
  have hperm : (kv.select KvRow.rank fun r => like backslash (kvPattern pfx) r.key.bytes).Perm
      (kv.rows.filter fun r => like backslash (kvPattern pfx) r.key.bytes) :=
    List.perm_insertionSort _ _
  have hfilter : (kv.rows.filter fun r => like backslash (kvPattern pfx) r.key.bytes).Sublist
      kv.rows := List.filter_sublist
  have h1 := (htake.map fun r => (kvRowText r).length + 1).sum_le_sum fun _ _ => Nat.zero_le _
  have h2 := (hperm.map fun r => (kvRowText r).length + 1).sum_eq
  have h3 := (hfilter.map fun r => (kvRowText r).length + 1).sum_le_sum fun _ _ => Nat.zero_le _
  unfold kvRoom
  omega

/-! ## exact listings -/

/-- the rows whose key begins with the prefix, by ascending key -/
def kvPrefixed (kv : KvTable) (pfx : CStr) : List KvRow :=
  kv.select KvRow.rank fun r => pfx.bytes.isPrefixOf r.key.bytes

/-- The answer is `API_OK` with the first `limit` of the rows whose key begins with the prefix, in
ascending byte order. -/
def ListsPrefix (kv : KvTable) (pfx : CStr) (limit : Nat) (answer : Except ApiError Bytes) : Prop :=
  ∃ all : List KvRow, (all.Pairwise fun r s => r.rank < s.rank) ∧
    (∀ r, r ∈ all ↔ r ∈ kv.rows ∧ pfx.bytes <+: r.key.bytes) ∧
    answer = .ok (ascii "[" ++ kvRowsText true (all.take limit) ++ ascii "]")

/-- A key that begins with the prefix only up to the case of letters and with `_` for any
character has `limit` keys below it that begin with the prefix; and the values to be listed fit
`ev`. -/
structure PrefixExact (kv : KvTable) (pfx : CStr) (limit : Nat) : Prop where
  strays : ∀ s ∈ kv.rows, LikeBegins pfx.bytes s.key.bytes → ¬ pfx.bytes <+: s.key.bytes →
    limit ≤ kv.below KvRow.rank (fun r => pfx.bytes.isPrefixOf r.key.bytes) s
  fits : ∀ r ∈ (kvPrefixed kv pfx).take limit,
    (escapeText r.value.bytes).length < KV_LIST_VALUE_CAP

theorem kvPrefixed_unique (kv : KvTable) (pfx : CStr) (all : List KvRow)
    (hs : all.Pairwise fun r s => r.rank < s.rank)
    (hm : ∀ r, r ∈ all ↔ r ∈ kv.rows ∧ pfx.bytes <+: r.key.bytes) : all = kvPrefixed kv pfx := by
  have : Std.Irrefl fun r s : KvRow => r.rank < s.rank := ⟨fun r => lt_irrefl _⟩
  have : Std.Antisymm fun r s : KvRow => r.rank < s.rank :=
    ⟨fun r s h1 h2 => absurd h1 (not_lt_of_gt h2)⟩
  apply List.Pairwise.eq_of_mem_iff hs (Table.select_strict KvRow.rank kv _ KvRow.rank_inj)
  intro r
  rw [hm, Table.mem_select, List.isPrefixOf_iff_prefix]

theorem kvPrefixed_mem (kv : KvTable) (pfx : CStr) (r : KvRow) :
    r ∈ kvPrefixed kv pfx ↔ r ∈ kv.rows ∧ pfx.bytes <+: r.key.bytes := by
  unfold kvPrefixed
  rw [Table.mem_select, List.isPrefixOf_iff_prefix]

/-- the pattern matches the keys that look like the prefix -/
theorem like_kvPattern (pfx key : CStr) (h : pfx.bytes = [] ∨ storeValidateKey pfx = .ok) :
    like backslash (kvPattern pfx) key.bytes = true ↔ LikeBegins pfx.bytes key.bytes := by
  have hchars : ∀ c ∈ pfx.bytes, keyChar c = true ∧ pfx.bytes.length ≤ STORE_MAX_KEY_LEN := by
    intro c hc
    rcases h with h | h
    · rw [h] at hc
      cases hc
    · obtain ⟨_, hl, hk⟩ := (storeValidateKey_ok pfx).mp h
      exact ⟨hk c hc, hl⟩
  have hlen : pfx.bytes.length ≤ STORE_MAX_KEY_LEN := by
    rcases h with h | h
    · rw [h]
      exact Nat.zero_le _
    · exact ((storeValidateKey_ok pfx).mp h).2.1
  have hpattern : kvPattern pfx = pfx.bytes ++ [percent] := by
    unfold kvPattern
    apply List.take_of_length_le
    rw [List.length_append, List.length_singleton]
    omega
  rw [hpattern]
  apply like_literal_percent
  intro c hc
  have hk := (hchars c hc).1
  refine ⟨fun he => ?_, fun he => ?_⟩
  · rw [he] at hk
    exact absurd hk (by decide)
  · rw [he] at hk
    exact absurd hk (by decide)

/-- rows of one table with the same keys in the same order are the same -/
theorem rows_eq_of_keys (kv : KvTable) (rows rows' : List KvRow) (h : ∀ r ∈ rows, r ∈ kv.rows)
    (h' : ∀ r ∈ rows', r ∈ kv.rows) (hk : rows.map KvRow.key = rows'.map KvRow.key) :
    rows = rows' := by
  induction rows generalizing rows' with
  | nil => exact (List.map_eq_nil_iff.mp hk.symm).symm
  | cons r rows ih =>
    cases rows' with
    | nil => cases hk
    | cons r' rows' =>
      obtain ⟨hr, hrest⟩ := List.cons.inj hk
      have h1 := kv.get_of_mem (h r List.mem_cons_self)
      have h2 := kv.get_of_mem (h' r' List.mem_cons_self)
      rw [hr] at h1
      rw [Option.some.inj (h1.symm.trans h2),
        ih rows' (fun x hx => h x (List.mem_cons_of_mem _ hx))
          (fun x hx => h' x (List.mem_cons_of_mem _ hx)) hrest]

/-- the selection of the statement is the wanted one exactly when no stray comes first -/
theorem kvSelect_eq_iff (kv : KvTable) (pfx : CStr) (limit : Nat)
    (hpfx : pfx.bytes = [] ∨ storeValidateKey pfx = .ok) :
    (kvPrefixed kv pfx).take limit = kvSelect kv pfx limit ↔
      ∀ s ∈ kv.rows, LikeBegins pfx.bytes s.key.bytes → ¬ pfx.bytes <+: s.key.bytes →
        limit ≤ kv.below KvRow.rank (fun r => pfx.bytes.isPrefixOf r.key.bytes) s := by
  unfold kvPrefixed kvSelect
  rw [Table.take_select_eq_iff KvRow.rank kv _ _ (fun r hr => ?_) KvRow.rank_inj]
  · constructor
    · intro h s hs hl hn
      apply h s hs ((like_kvPattern pfx s.key hpfx).mpr hl)
      rw [← Bool.not_eq_true, List.isPrefixOf_iff_prefix]
      exact hn
    · intro h s hs hl hn
      apply h s hs ((like_kvPattern pfx s.key hpfx).mp hl)
      rw [← List.isPrefixOf_iff_prefix, hn]
      decide
  · exact (like_kvPattern pfx r.key hpfx).mpr
      (likeBegins_of_isPrefix _ _ (List.isPrefixOf_iff_prefix.mp hr))

theorem storeKvList_run (kv : KvTable) (pfx : CStr) (limit outCap : Nat)
    (hlimit : 1 ≤ limit ∧ limit ≤ STORE_MAX_LIST) (hcap : 3 ≤ outCap) :
    storeKvList .none kv pfx limit outCap =
      match kvListLoop .none outCap 0 (ascii "[") true (kvSelect kv pfx limit) with
      | .error e => .error e
      | .ok text =>
        if text.length + 2 > outCap then .error .payloadTooLarge else .ok (text ++ ascii "]") := by
  rw [storeKvList_answer kv pfx limit outCap (by omega) hcap]
  rfl

/-- **The listing is exact under `PrefixExact`, and under no other condition.** -/
theorem storeKvList_prefix_iff (kv : KvTable) (pfx : CStr) (limit outCap : Nat)
    (hkeys : ∀ r ∈ kv.rows, storeValidateKey r.key = .ok)
    (hvalues : ∀ r ∈ kv.rows, Clean r.value.bytes)
    (hpfx : pfx.bytes = [] ∨ storeValidateKey pfx = .ok)
    (hlimit : 1 ≤ limit ∧ limit ≤ STORE_MAX_LIST) (hroom : kvRoom kv ≤ outCap) :
    ListsPrefix kv pfx limit (storeKvList .none kv pfx limit outCap) ↔ PrefixExact kv pfx limit := by
  have hsel := kvSelect_eq_iff kv pfx limit hpfx
  have hselmem : ∀ r ∈ kvSelect kv pfx limit, r ∈ kv.rows := fun r hr =>
    ((Table.mem_select KvRow.rank _ _ _).mp (List.mem_of_mem_take hr)).1
  have hlen := kvSelect_length kv pfx limit true
  have hcap : 3 ≤ outCap := by omega
  rw [storeKvList_run kv pfx limit outCap hlimit hcap]
  constructor
  · intro h
    obtain ⟨all, hs, hm, he⟩ := h
    rw [kvPrefixed_unique kv pfx all hs hm] at he
    cases hr : kvListLoop .none outCap 0 (ascii "[") true (kvSelect kv pfx limit) with
    | error e =>
      rw [hr] at he
      cases he
    | ok text =>
      obtain ⟨ht, hfits⟩ := kvListLoop_ok _ _ _ _ _ _ hr
      rw [hr] at he
      simp only at he
      split_ifs at he
      have htext := Except.ok.inj he
      rw [ht, List.append_assoc, List.append_assoc] at htext
      have hrows := List.append_cancel_right (List.append_cancel_left htext)
      have hmem : ∀ r ∈ (kvPrefixed kv pfx).take limit, r ∈ kv.rows := fun r hr =>
        ((kvPrefixed_mem kv pfx r).mp (List.mem_of_mem_take hr)).1
      have hsame := rows_eq_of_keys kv _ _ hselmem hmem (kvRowsText_keys true _ _ hrows)
      refine ⟨hsel.mp hsame.symm, ?_⟩
      rw [← hsame]
      exact hfits
  · intro h
    have hsame := hsel.mpr h.strays
    have hlist : ∀ r ∈ kvSelect kv pfx limit, r.Listable := by
      intro r hr
      refine ⟨hkeys r (hselmem r hr), hvalues r (hselmem r hr), h.fits r ?_⟩
      rw [hsame]
      exact hr
    have hone : (ascii "[").length = 1 := by decide
    have hfull : (ascii "[" ++ kvRowsText true (kvSelect kv pfx limit)).length + 2 ≤ outCap := by
      rw [List.length_append, hone]
      omega
    rw [kvListLoop_eq outCap 0 (ascii "[") true _ hlist (by omega)]
    refine ⟨kvPrefixed kv pfx, Table.select_strict KvRow.rank kv _ KvRow.rank_inj,
      kvPrefixed_mem kv pfx, ?_⟩
    rw [hsame]
    exact if_neg (by omega)

/-- a table with the keys `ab` and `b` -/
def smallTable : KvTable where
  rows := [⟨CStr.ofBytes (ascii "b"), CStr.ofBytes (ascii "y"), Long.clamp 0⟩,
    ⟨CStr.ofBytes (ascii "ab"), CStr.ofBytes (ascii "x"), Long.clamp 0⟩]
  unique := by decide

theorem storeKvList_prefix_small :
    ListsPrefix smallTable (CStr.ofBytes (ascii "a")) 10
      (storeKvList .none smallTable (CStr.ofBytes (ascii "a")) 10 1000) := by
  refine (storeKvList_prefix_iff smallTable (CStr.ofBytes (ascii "a")) 10 1000 (by decide)
    (by decide +kernel) (.inr (by decide)) (by decide) (by decide)).mpr ⟨?_, by decide +kernel⟩
  intro s hs hl hn
  have hkey : like backslash (ascii "a%") s.key.bytes = true :=
    (like_kvPattern (CStr.ofBytes (ascii "a")) s.key (.inr (by decide))).mpr hl
  rcases List.mem_cons.mp hs with rfl | hs
  · exact absurd hkey (by decide)
  · rw [List.mem_singleton.mp hs] at hn
    exact absurd ⟨ascii "b", rfl⟩ hn

/-- a table with the keys `a_b` and `axb` -/
def wildcardTable : KvTable where
  rows := [⟨CStr.ofBytes (ascii "a_b"), CStr.ofBytes (ascii "1"), Long.clamp 0⟩,
    ⟨CStr.ofBytes (ascii "axb"), CStr.ofBytes (ascii "2"), Long.clamp 0⟩]
  unique := by decide

/-- the prefix `a_` lists the key `axb` -/
theorem storeKvList_wildcard :
    (∀ r ∈ wildcardTable.rows, storeValidateKey r.key = .ok ∧ Clean r.value.bytes) ∧
    storeValidateKey (CStr.ofBytes (ascii "a_")) = .ok ∧ kvRoom wildcardTable ≤ 1000 ∧
    ¬ ListsPrefix wildcardTable (CStr.ofBytes (ascii "a_")) 10
      (storeKvList .none wildcardTable (CStr.ofBytes (ascii "a_")) 10 1000) := by
  refine ⟨by decide +kernel, by decide, by decide, fun h => ?_⟩
  obtain ⟨all, hs, hm, he⟩ := h
  rw [kvPrefixed_unique _ _ all hs hm] at he
  revert he
  decide +kernel

end CServer
