import CServer.Api.Writes
import CServer.Store.Listing

/-!
# The answer to a kv listing

`store_kv_list` renders the array into `items[HTTP_MAX_BODY_SIZE]`, and `handle_kv_list` prints it
with ten bytes more into an array of the same size.

* `AnswersListing`      the complete object, or 413;
* `handleKvList_exact`  what the handler answers, by the length of the array;
* `kvListing_iff`       an array of 65526 to 65535 bytes is neither.
-/

namespace CServer

/-- the object around the array of the rows -/
def kvListingText (rows : List KvRow) : Bytes :=
  ascii "\x7b\"items\":" ++ kvListText rows ++ ascii "\x7d"

theorem kvListingText_length (rows : List KvRow) :
    (kvListingText rows).length = (kvListText rows).length + 10 := by
  unfold kvListingText
  rw [List.length_append, List.length_append, show (ascii "\x7b\"items\":").length = 9 by decide,
    show (ascii "\x7d").length = 1 by decide]
  omega

/-- The answer is 200 with the complete object of the rows, or `API_ERR_PAYLOAD_TOO_LARGE`. -/
def AnswersListing (rows : List KvRow) (a : Answer) : Prop :=
  a = ⟨.ok, [jsonResponse 200 (kvListingText rows)]⟩ ∨ a.result = .payloadTooLarge

/-- a listing that its handler comes to: the parameters are valid, and the rows can be escaped -/
structure ListRequest (req : HttpRequest) (kv : KvTable) (pfx : CStr) (limit : Int) : Prop where
  pfx : listPrefix req.query.toCStr = .ok pfx
  limit : parseLimit req.query.toCStr = .ok limit
  keys : ∀ row ∈ kv.rows, storeValidateKey row.key = .ok
  escapes : ∀ row ∈ kv.rows, row.Escapes

theorem parseLimit_range (query : CStr) (limit : Int) (h : parseLimit query = .ok limit) :
    0 < limit ∧ limit ≤ STORE_MAX_LIST := by
  unfold parseLimit at h
  split at h
  · cases h
  · cases h
    decide
  · simp only at h
    split_ifs at h with hbad
    cases h
    rw [not_or, not_or, not_or] at hbad
    omega

section
variable (now : Long) (page : Bytes) {req : HttpRequest} (st : Store) {pfx : CStr} {limit : Int}

/-- **What the handler answers:** the object, or an internal error when only the array fits, or
413. -/
theorem handleKvList_exact (h : ListRequest req st.kv pfx limit) :
    ((handleKvList true req).serve (Env.quiet now page) st).1 =
      if (kvListText (kvSelect st.kv pfx limit.toNat)).length < 65526 then
        ⟨.ok, [jsonResponse 200 (kvListingText (kvSelect st.kv pfx limit.toNat))]⟩
      else if (kvListText (kvSelect st.kv pfx limit.toNat)).length < 65536 then
        answerError true .internal "encode overflow"
      else answerError true .payloadTooLarge "store list failed" := by
  have hsel : ∀ row ∈ kvSelect st.kv pfx limit.toNat, row.Escapes := fun row hr =>
    h.escapes row ((Table.mem_select KvRow.rank _ _ _).mp (List.mem_of_mem_take hr)).1
  have hlen := kvListingText_length (kvSelect st.kv pfx limit.toNat)
  unfold handleKvList
  rw [h.pfx]
  dsimp only
  rw [h.limit]
  show kvListReply true (storeKvList .none st.kv pfx limit 65536) = _
  rw [storeKvList_exact st.kv pfx limit 65536 (parseLimit_range _ _ h.limit) (by decide) hsel]
  by_cases hsmall : (kvListText (kvSelect st.kv pfx limit.toNat)).length < 65526
  · rw [if_pos hsmall, if_pos (by omega)]
    exact answerPrinted_fits _ _ (by decide) (show (kvListingText _).length < 65536 by omega)
  · rw [if_neg hsmall]
    by_cases hfit : (kvListText (kvSelect st.kv pfx limit.toNat)).length < 65536
    · rw [if_pos hfit, if_pos hfit]
      exact if_pos (show (kvListingText _).length ≥ 65536 by omega)
    · rw [if_neg hfit, if_neg hfit]
      rfl

/-- **A kv listing is answered completely or refused as too large, exactly when its array is shorter
than 65526 bytes or has at least 65536.** -/
theorem kvListing_iff (h : ListRequest req st.kv pfx limit) :
    AnswersListing (kvSelect st.kv pfx limit.toNat)
        ((handleKvList true req).serve (Env.quiet now page) st).1 ↔
      (kvListText (kvSelect st.kv pfx limit.toNat)).length < 65526 ∨
        65536 ≤ (kvListText (kvSelect st.kv pfx limit.toNat)).length := by
  rw [handleKvList_exact now page st h]
  unfold AnswersListing
  by_cases hsmall : (kvListText (kvSelect st.kv pfx limit.toNat)).length < 65526
  · rw [if_pos hsmall]
    exact ⟨fun _ => .inl hsmall, fun _ => .inl rfl⟩
  · rw [if_neg hsmall]
    by_cases hfit : (kvListText (kvSelect st.kv pfx limit.toNat)).length < 65536
    · rw [if_pos hfit]
      constructor
      · intro hanswer
        rcases hanswer with hanswer | hanswer
        · cases congrArg Answer.result hanswer
        · cases hanswer
      · intro hlen
        omega
    · rw [if_neg hfit]
      exact ⟨fun _ => .inr (by omega), fun _ => .inr rfl⟩

end

/-! ## eight values -/

/-- 8168 bytes, within what a PUT stores -/
def listedValue : CStr where
  bytes := List.replicate 8168 97
  nulFree := fun h => absurd (List.eq_of_mem_replicate h) (by decide)

theorem listedValue_bytes : listedValue.bytes = List.replicate 8168 97 := CStr.mk_bytes _ _

def letterRow (value : CStr) (c : String) : KvRow := ⟨.lit c, value, Long.clamp 0⟩

/-- the keys `a` to `h`, with one value -/
def letterRows (value : CStr) : List KvRow :=
  ["a", "b", "c", "d", "e", "f", "g", "h"].map (letterRow value)

theorem letterRows_keys (value : CStr) : (letterRows value).map KvRow.key =
    ["a", "b", "c", "d", "e", "f", "g", "h"].map CStr.lit := rfl

def letterTable (value : CStr) : KvTable where
  rows := letterRows value
  unique := by
    rw [letterRows_keys]
    decide

theorem letterTable_select (value : CStr) :
    kvSelect (letterTable value) CStr.empty 50 = letterRows value := rfl

theorem letterRows_length (value : CStr) :
    (kvListText (letterRows value)).length = 8 * (escapeText value.bytes).length + 185 := by
  have hkey : ∀ c ∈ ["a", "b", "c", "d", "e", "f", "g", "h"],
      (escapeText (CStr.lit c).bytes).length = 1 := by decide
  have hrow : ∀ c ∈ ["a", "b", "c", "d", "e", "f", "g", "h"],
      (kvRowText (letterRow value c)).length = (escapeText value.bytes).length + 22 := by
    intro c hc
    unfold kvRowText
    rw [kvItem_length, show (letterRow value c).key = .lit c from rfl, hkey c hc,
      show (letterRow value c).value = value from rfl]
    omega
  simp only [List.mem_cons, List.not_mem_nil, or_false, forall_eq_or_imp, forall_eq] at hrow
  rw [kvListText_length]
  unfold letterRows
  simp only [List.map_cons, List.map_nil, kvRowsText, List.length_append, hrow, if_true,
    Bool.false_eq_true, if_false, List.length_nil, List.length_singleton,
    show (ascii "[").length = 1 by decide]
  omega

theorem letterRows_escapes (value : CStr) (hv : Clean value.bytes)
    (hlen : (escapeText value.bytes).length < KV_LIST_VALUE_CAP) :
    ∀ row ∈ letterRows value, row.Escapes := by
  intro row hrow
  obtain ⟨c, hc, rfl⟩ := List.mem_map.mp hrow
  have hkeys : ∀ c ∈ ["a", "b", "c", "d", "e", "f", "g", "h"],
      (jsonEscape KV_LIST_KEY_CAP (.lit c)).isSome := by decide
  have hvalue := (jsonEscape_eq_some KV_LIST_VALUE_CAP value _).mpr ⟨hv, rfl, hlen⟩
  refine ⟨hkeys c hc, ?_⟩
  rw [show (letterRow value c).value = value from rfl, hvalue]
  rfl

/-- GET /api/kv -/
def getListing : HttpRequest := { HttpRequest.zero with path := CBuf.print _ pathLen_pos (.lit "/api/kv") }

theorem getListing_request (value : CStr) (hv : Clean value.bytes)
    (hlen : (escapeText value.bytes).length < KV_LIST_VALUE_CAP) :
    ListRequest getListing (letterTable value) CStr.empty 50 := by
  refine ⟨by decide +kernel, by decide +kernel, fun row hrow => ?_, letterRows_escapes value hv hlen⟩
  obtain ⟨c, hc, rfl⟩ := List.mem_map.mp hrow
  have hkeys : ∀ c ∈ ["a", "b", "c", "d", "e", "f", "g", "h"],
      storeValidateKey (.lit c) = .ok := by decide
  exact hkeys c hc

/-- eight short values -/
theorem kvListing_short :
    AnswersListing (letterRows (.lit "v"))
      ((handleKvList true getListing).serve (Env.quiet (Long.clamp 0) [])
        ⟨letterTable (.lit "v"), NoteTable.empty⟩).1 := by
  refine (kvListing_iff (Long.clamp 0) [] ⟨letterTable (.lit "v"), NoteTable.empty⟩
    (getListing_request (.lit "v") (by decide +kernel) (by decide))).mpr (.inl ?_)
  show (kvListText (letterRows (.lit "v"))).length < 65526
  rw [letterRows_length]
  decide

/-- eight values of 8168 bytes are answered as an internal error -/
theorem kvListing_internal :
    ListRequest getListing (letterTable listedValue) CStr.empty 50 ∧
      ((handleKvList true getListing).serve (Env.quiet (Long.clamp 0) [])
        ⟨letterTable listedValue, NoteTable.empty⟩).1.result = .internal ∧
      ¬ AnswersListing (kvSelect (letterTable listedValue) CStr.empty 50)
        ((handleKvList true getListing).serve (Env.quiet (Long.clamp 0) [])
          ⟨letterTable listedValue, NoteTable.empty⟩).1 := by
  have hclean : Clean listedValue.bytes := by
    intro c hc
    rw [listedValue_bytes] at hc
    rw [List.eq_of_mem_replicate hc]
    decide
  have hlen : (escapeText listedValue.bytes).length = 8168 := by
    rw [listedValue_bytes, escapeText_replicate]
    rfl
  have hrequest := getListing_request listedValue hclean (by rw [hlen]; decide)
  have hexact := handleKvList_exact (Long.clamp 0) [] ⟨letterTable listedValue, NoteTable.empty⟩
    hrequest
  have htext : (kvListText (kvSelect (letterTable listedValue) CStr.empty (50 : Int).toNat)).length =
      65529 := by
    show (kvListText (kvSelect (letterTable listedValue) CStr.empty 50)).length = _
    rw [letterTable_select, letterRows_length, hlen]
  rw [show (⟨letterTable listedValue, NoteTable.empty⟩ : Store).kv = letterTable listedValue from rfl,
    htext, if_neg (by decide), if_pos (by decide)] at hexact
  refine ⟨hrequest, by rw [hexact]; rfl, ?_⟩
  rw [hexact]
  intro h
  rcases h with h | h
  · cases congrArg Answer.result h
  · cases h

end CServer
