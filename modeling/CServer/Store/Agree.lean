import CServer.Lib.Runs
import CServer.Store.Prefix

/-!
# The two ways to read a value

`store_kv_get` hands the value back as it is; `store_kv_list` escapes it into `ev`.

* `KvEdit`, `kvReached`   `store_kv_put` and `store_kv_del` calls, and the table they lead to;
* `ListsPair`             the listing has the key with the value;
* `kvPaths_agree`         a value that `store_kv_get` returns is listed exactly when the escaped
                          values of all rows to be listed fit `ev`.
-/

namespace CServer
open FlatJson

/-! ## tables that are reached -/

inductive KvEdit where
  | put (fault : SqlFault) (now : Long) (key value : CStr)
  | del (fault : SqlFault) (key : CStr)

def KvEdit.run (kv : KvTable) : KvEdit → KvTable
  | .put fault now key value => (storeKvPut fault now kv key value).2
  | .del fault key => (storeKvDel fault kv key).2

/-- the value has no byte that is rendered as `\u` -/
def KvEdit.Clean : KvEdit → Prop
  | .put _ _ _ value => CServer.Clean value.bytes
  | .del _ _ => True

def kvReached (edits : List KvEdit) : KvTable := edits.foldl KvEdit.run (Table.empty KvRow.key)

theorem kvReached_put (fault : SqlFault) (now : Long) (key value : CStr) :
    kvReached [.put fault now key value] =
      (storeKvPut fault now (Table.empty KvRow.key) key value).2 := rfl

/-- every row has a valid key and a clean value -/
def KvTable.Sound (kv : KvTable) : Prop :=
  ∀ r ∈ kv.rows, storeValidateKey r.key = .ok ∧ Clean r.value.bytes

theorem storeKvPut_sound (fault : SqlFault) (now : Long) (kv : KvTable) (key value : CStr)
    (hv : Clean value.bytes) (h : kv.Sound) : (storeKvPut fault now kv key value).2.Sound := by
  unfold storeKvPut
  by_cases hkey : storeValidateKey key ≠ .ok
  · rw [if_pos hkey]
    exact h
  · rw [if_neg hkey]
    split_ifs
    · exact h
    · exact h
    · intro r hr
      rcases (Table.mem_put _ _ _).mp hr with rfl | ⟨hr, _⟩
      · exact ⟨not_not.mp hkey, hv⟩
      · exact h r hr

theorem storeKvDel_sound (fault : SqlFault) (kv : KvTable) (key : CStr) (h : kv.Sound) :
    (storeKvDel fault kv key).2.Sound := by
  have herase : KvTable.Sound (kv.erase key) := fun r hr => h r ((Table.mem_erase _ _ _).mp hr).1
  unfold storeKvDel
  split_ifs
  · exact h
  · exact h
  · cases kv.get key <;> exact herase

theorem kvReached_sound (edits : List KvEdit) (hclean : ∀ e ∈ edits, e.Clean) :
    (kvReached edits).Sound := by
  apply visited_inv KvEdit.run (fun _ e => e.Clean) KvTable.Sound _ _ edits _ _ _ (visited_end _ _ _)
  · intro kv e he h
    cases e with
    | put fault now key value => exact storeKvPut_sound fault now kv key value he h
    | del fault key => exact storeKvDel_sound fault kv key h
  · intro r hr
    cases hr
  · exact throughout_of_forall _ _ _ _ fun e he _ => hclean e he

/-! ## what is listed -/

/-- the rows whose key the prefix matches, by ascending key -/
def kvMatches (kv : KvTable) (pfx : CStr) : List KvRow :=
  kv.select KvRow.rank fun r => like backslash (kvPattern pfx) r.key.bytes

/-- a prefix matches the keys that begin with it -/
theorem kvPattern_prefix (pfx key : CStr) (hkey : storeValidateKey key = .ok)
    (h : pfx.bytes <+: key.bytes) : like backslash (kvPattern pfx) key.bytes = true := by
  have hvalid : pfx.bytes = [] ∨ storeValidateKey pfx = .ok := by
    by_cases hempty : pfx.bytes = []
    · exact .inl hempty
    · obtain ⟨_, hlen, hchars⟩ := (storeValidateKey_ok key).mp hkey
      have hle : pfx.bytes.length ≤ key.bytes.length := h.length_le
      have hlen' : key.bytes.length ≤ STORE_MAX_KEY_LEN := hlen
      refine .inr ((storeValidateKey_ok pfx).mpr ⟨hempty, ?_, fun c hc => hchars c (h.subset hc)⟩)
      exact le_trans hle hlen'
  exact (like_kvPattern pfx key hvalid).mpr (likeBegins_of_isPrefix _ _ h)

/-- the texts with commas in between -/
def commaJoined (texts : List Bytes) : Bytes := List.intercalate [comma] texts

/-- The text is an array of objects, each with a key and a value, and one has this key and this
value. -/
def ListsPair (text : Bytes) (key value : CStr) : Prop :=
  ∃ (items : List Bytes) (pairs : List (CStr × CStr)),
    text = ascii "[" ++ commaJoined items ++ ascii "]" ∧
    List.Forall₂ (fun item p => Renders item p.1 p.2) items pairs ∧ (key, value) ∈ pairs

theorem kvRowsText_false (row : KvRow) (rows : List KvRow) :
    kvRowsText false (row :: rows) = comma :: kvRowsText true (row :: rows) := rfl

theorem kvRowsText_joined (rows : List KvRow) :
    kvRowsText true rows = commaJoined (rows.map kvRowText) := by
  unfold commaJoined
  induction rows with
  | nil => rfl
  | cons row rows ih =>
    cases rows with
    | nil =>
      rw [List.map_cons, List.map_nil, List.intercalate_singleton]
      exact List.append_nil _
    | cons next rows =>
      have hstep : kvRowsText true (row :: next :: rows) =
          kvRowText row ++ kvRowsText false (next :: rows) := rfl
      simp only [hstep, kvRowsText_false, ih, List.map_cons, List.intercalate_cons_cons,
        List.append_assoc]
      rfl

theorem listsPair_of_mem (rows : List KvRow) (row : KvRow) (hrow : row ∈ rows)
    (h : ∀ r ∈ rows, storeValidateKey r.key = .ok ∧ Clean r.value.bytes) :
    ListsPair (ascii "[" ++ kvRowsText true rows ++ ascii "]") row.key row.value := by
  refine ⟨rows.map kvRowText, rows.map fun r => (r.key, r.value), by rw [kvRowsText_joined], ?_,
    List.mem_map.mpr ⟨row, hrow, rfl⟩⟩
  rw [List.forall₂_map_left_iff, List.forall₂_map_right_iff, List.forall₂_same]
  intro r hr
  exact kvItem_renders r.key r.value (validKey_clean _ (h r hr).1) (h r hr).2

/-! ## agreement -/

theorem storeKvGet_ok (kv : KvTable) (key value : CStr) (valueCap : Nat)
    (h : storeKvGet .none kv key valueCap = .ok value) :
    ∃ row, kv.get key = some row ∧ row.value = value := by
  unfold storeKvGet at h
  split_ifs at h
  cases hrow : kv.get key with
  | none =>
    rw [hrow] at h
    cases h
  | some row =>
    rw [hrow] at h
    simp only at h
    split_ifs at h
    exact ⟨row, rfl, Except.ok.inj h⟩

theorem kvMatches_mem (kv : KvTable) (pfx : CStr) (r : KvRow) :
    r ∈ kvMatches kv pfx ↔ r ∈ kv.rows ∧ like backslash (kvPattern pfx) r.key.bytes = true :=
  Table.mem_select KvRow.rank _ _ _

theorem kvMatches_length (kv : KvTable) (pfx : CStr) :
    (kvMatches kv pfx).length ≤ kv.rows.length := by
  unfold kvMatches Table.select
  rw [List.length_insertionSort]
  exact List.length_filter_le _ _

/-- the values of a listing fit -/
theorem storeKvList_fits (kv : KvTable) (pfx : CStr) (limit outCap : Nat) (text : Bytes)
    (hlimit : 1 ≤ limit ∧ limit ≤ STORE_MAX_LIST) (hcap : 3 ≤ outCap)
    (h : storeKvList .none kv pfx limit outCap = .ok text) :
    ∀ r ∈ kvSelect kv pfx limit, (escapeText r.value.bytes).length < KV_LIST_VALUE_CAP := by
  rw [storeKvList_run kv pfx limit outCap hlimit hcap] at h
  cases hloop : kvListLoop .none outCap 0 (ascii "[") true (kvSelect kv pfx limit) with
  | error e =>
    rw [hloop] at h
    cases h
  | ok body => exact (kvListLoop_ok _ _ _ _ _ _ hloop).2

/-- **A value that `store_kv_get` returns is listed by `store_kv_list`, with a limit and a buffer for
all matching rows, exactly when the escaped value of each of these rows is shorter than `ev`.** -/
theorem kvPaths_agree (edits : List KvEdit) (hclean : ∀ e ∈ edits, e.Clean) (key value pfx : CStr)
    (limit outCap : Nat)
    (hget : storeKvGet .none (kvReached edits) key (STORE_MAX_VALUE_LEN + 1) = .ok value)
    (hpfx : like backslash (kvPattern pfx) key.bytes = true)
    (hmatches : (kvMatches (kvReached edits) pfx).length ≤ limit) (hlimit : limit ≤ STORE_MAX_LIST)
    (hroom : (ascii "[" ++ kvRowsText true (kvMatches (kvReached edits) pfx) ++ ascii "]").length
      < outCap) :
    (∃ text, storeKvList .none (kvReached edits) pfx limit outCap = .ok text ∧
      ListsPair text key value) ↔
    ∀ r ∈ kvMatches (kvReached edits) pfx,
      (escapeText r.value.bytes).length < KV_LIST_VALUE_CAP := by
  have hsound := kvReached_sound edits hclean
  generalize kvReached edits = kv at *
  obtain ⟨row, hrow, rfl⟩ := storeKvGet_ok _ _ _ _ hget
  obtain ⟨hmem, rfl⟩ := Table.get_eq_some hrow
  have hrowIn : row ∈ kvMatches kv pfx := (kvMatches_mem _ _ _).mpr ⟨hmem, hpfx⟩
  have hone : (ascii "[").length = 1 := by decide
  have hone' : (ascii "]").length = 1 := by decide
  rw [List.length_append, List.length_append, hone, hone'] at hroom
  have hpos := List.length_pos_of_mem hrowIn
  have hall : kvSelect kv pfx limit = kvMatches kv pfx := List.take_of_length_le hmatches
  constructor
  · rintro ⟨text, htext, _⟩
    have hfits := storeKvList_fits kv pfx limit outCap text ⟨by omega, hlimit⟩ (by omega) htext
    rwa [hall] at hfits
  · intro hfits
    have hlist : ∀ r ∈ kvMatches kv pfx, r.Listable := fun r hr => by
      obtain ⟨hk, hv⟩ := hsound r ((kvMatches_mem _ _ _).mp hr).1
      exact ⟨hk, hv, hfits r hr⟩
    have hbody : (ascii "[" ++ kvRowsText true (kvMatches kv pfx)).length + 1 < outCap := by
      rw [List.length_append, hone]
      omega
    rw [storeKvList_run kv pfx limit outCap ⟨by omega, hlimit⟩ (by omega), hall,
      kvListLoop_eq outCap 0 (ascii "[") true _ hlist (by omega)]
    refine ⟨_, if_neg (by omega), listsPair_of_mem _ row hrowIn fun r hr => ?_⟩
    exact hsound r ((kvMatches_mem _ _ _).mp hr).1

/-- one PUT of a short value -/
def shortEdits : List KvEdit :=
  [.put .none (Long.clamp 0) (CStr.ofBytes (ascii "k")) (CStr.ofBytes (ascii "v"))]

theorem kvPaths_agree_short :
    (∃ text, storeKvList .none (kvReached shortEdits) CStr.empty 1 100 = .ok text ∧
      ListsPair text (CStr.ofBytes (ascii "k")) (CStr.ofBytes (ascii "v"))) ↔
    ∀ r ∈ kvMatches (kvReached shortEdits) CStr.empty,
      (escapeText r.value.bytes).length < KV_LIST_VALUE_CAP := by
  refine kvPaths_agree shortEdits ?_ _ _ CStr.empty 1 100 (by decide +kernel) (by decide +kernel)
    (by decide +kernel) (by decide) (by decide +kernel)
  intro e he
  rw [List.mem_singleton.mp he]
  show Clean (ascii "v")
  decide +kernel

/-! ## a value of quotes -/

/-- 40000 times the quote -/
def quotes : CStr where
  bytes := List.replicate 40000 quote
  nulFree := fun h => absurd (List.eq_of_mem_replicate h) (by decide)

def quotesEdits : List KvEdit := [.put .none (Long.clamp 0) (CStr.ofBytes (ascii "k")) quotes]

def quotesRow : KvRow := ⟨CStr.ofBytes (ascii "k"), quotes, Long.clamp 0⟩

theorem quotes_bytes : quotes.bytes = List.replicate 40000 quote := CStr.mk_bytes _ _

theorem quotes_length : quotes.length = 40000 := by
  unfold CStr.length
  rw [quotes_bytes, List.length_replicate]

theorem quotes_clean : Clean quotes.bytes := by
  intro c hc
  rw [quotes_bytes] at hc
  rw [List.eq_of_mem_replicate hc]
  left
  decide

theorem quotes_reached : kvReached quotesEdits = (Table.empty KvRow.key).put quotesRow := by
  have hkey : ¬ storeValidateKey (CStr.ofBytes (ascii "k")) ≠ .ok := by decide
  have hvalue : ¬ validateValue quotes ≠ .ok := by
    unfold validateValue
    rw [if_neg (by rw [quotes_length]; decide)]
    exact fun h => h rfl
  unfold quotesEdits
  rw [kvReached_put]
  unfold storeKvPut
  rw [if_neg hkey, if_neg hvalue, if_neg (by decide)]
  rfl

/-- **The value is read back, and no buffer is large enough to list it.** -/
theorem kvPaths_quotes :
    (∀ e ∈ quotesEdits, e.Clean) ∧
    storeKvGet .none (kvReached quotesEdits) (CStr.ofBytes (ascii "k")) (STORE_MAX_VALUE_LEN + 1) =
      .ok quotes ∧
    like backslash (kvPattern (CStr.ofBytes (ascii "k"))) (ascii "k") = true ∧
    (kvMatches (kvReached quotesEdits) (CStr.ofBytes (ascii "k"))).length ≤ 100 ∧
    ∀ outCap text, storeKvList .none (kvReached quotesEdits) (CStr.ofBytes (ascii "k")) 100 outCap ≠
      .ok text := by
  rw [quotes_reached]
  have hget : ((Table.empty KvRow.key).put quotesRow).get (CStr.ofBytes (ascii "k")) =
      some quotesRow := by
    rw [Table.get_put]
    exact if_pos rfl
  have hlike : like backslash (kvPattern (CStr.ofBytes (ascii "k"))) (ascii "k") = true :=
    kvPattern_prefix _ (CStr.ofBytes (ascii "k")) (by decide) List.prefix_rfl
  have hone : (kvMatches ((Table.empty KvRow.key).put quotesRow) (CStr.ofBytes (ascii "k"))).length ≤
      1 := kvMatches_length _ _
  have hlength : quotesRow.value.length = 40000 := quotes_length
  have hroom : quotesRow.value.length < STORE_MAX_VALUE_LEN + 1 := by
    rw [hlength]
    decide
  refine ⟨fun e he => ?_, ?_, hlike, le_trans hone (by decide), fun outCap text h => ?_⟩
  · rw [List.mem_singleton.mp he]
    exact quotes_clean
  · exact storeKvGet_row _ _ quotesRow _ (by decide) hget hroom
  · have hmem : quotesRow ∈ kvSelect ((Table.empty KvRow.key).put quotesRow)
        (CStr.ofBytes (ascii "k")) 100 := by
      have hall : kvSelect ((Table.empty KvRow.key).put quotesRow) (CStr.ofBytes (ascii "k")) 100 =
          kvMatches ((Table.empty KvRow.key).put quotesRow) (CStr.ofBytes (ascii "k")) :=
        List.take_of_length_le (le_trans hone (by decide))
      rw [hall]
      exact (kvMatches_mem _ _ _).mpr ⟨(Table.get_eq_some hget).1, hlike⟩
    by_cases hcap : 3 ≤ outCap
    · have hfit := storeKvList_fits _ _ 100 outCap text (by decide) hcap h quotesRow hmem
      have hlen : (escapeText quotesRow.value.bytes).length = 40000 * 2 := by
        show (escapeText quotes.bytes).length = _
        rw [quotes_bytes, escapeText_replicate]
        rfl
      rw [hlen] at hfit
      exact absurd hfit (by decide)
    · unfold storeKvList at h
      rw [if_neg (by decide), if_neg (by decide), if_pos (by omega)] at h
      cases h

end CServer
