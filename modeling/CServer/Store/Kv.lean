import CServer.Http.Types
import CServer.Json.Escape
import CServer.Lib.Like
import CServer.Store.Tables

/-!
# The key/value half of `store_sqlite.c`

Each function takes the fault of its statement, if any, and the table, and returns the typed error
with the table as it is afterwards.
-/

namespace CServer

def STORE_MAX_KEY_LEN : Nat := 128
def STORE_MAX_VALUE_LEN : Nat := 60000
def STORE_MAX_LIST : Nat := 100

/-- the characters of `[A-Za-z0-9._-]` -/
def keyChar (c : Byte) : Bool :=
  (65 ≤ c && c ≤ 90) || (97 ≤ c && c ≤ 122) || (48 ≤ c && c ≤ 57) || c == 46 || c == 95 || c == 45

def storeValidateKey (key : CStr) : ApiError :=
  if key.bytes = [] then .invalidKey
  else if key.length > STORE_MAX_KEY_LEN then .invalidKey
  else if key.bytes.all keyChar then .ok
  else .invalidKey

theorem keyChar_clean (c : Byte) (h : keyChar c = true) : CleanByte c := by
  left
  unfold keyChar at h
  simp only [Bool.or_eq_true, Bool.and_eq_true, decide_eq_true_eq, beq_iff_eq] at h
  have hn : 32 ≤ c.toNat := by
    rcases h with ((((⟨h, _⟩ | ⟨h, _⟩) | ⟨h, _⟩) | rfl) | rfl) | rfl
    · exact le_trans (by decide) (UInt8.le_iff_toNat_le.mp h)
    · exact le_trans (by decide) (UInt8.le_iff_toNat_le.mp h)
    · exact le_trans (by decide) (UInt8.le_iff_toNat_le.mp h)
    all_goals decide
  exact UInt8.le_iff_toNat_le.mpr hn

/-- what `store_validate_key` accepts -/
theorem storeValidateKey_ok (key : CStr) :
    storeValidateKey key = .ok ↔
      key.bytes ≠ [] ∧ key.length ≤ STORE_MAX_KEY_LEN ∧ ∀ c ∈ key.bytes, keyChar c = true := by
  unfold storeValidateKey
  by_cases h0 : key.bytes = []
  · rw [if_pos h0]
    exact ⟨fun h => (by cases h), fun h => absurd h0 h.1⟩
  · rw [if_neg h0]
    by_cases h1 : key.length > STORE_MAX_KEY_LEN
    · rw [if_pos h1]
      exact ⟨fun h => (by cases h), fun h => absurd h.2.1 (by omega)⟩
    · rw [if_neg h1]
      by_cases h2 : key.bytes.all keyChar = true
      · rw [if_pos h2]
        exact ⟨fun _ => ⟨h0, by omega, List.all_eq_true.mp h2⟩, fun _ => rfl⟩
      · rw [if_neg h2]
        exact ⟨fun h => (by cases h), fun h => absurd (List.all_eq_true.mpr h.2.2) h2⟩

theorem validKey_clean (key : CStr) (h : storeValidateKey key = .ok) : Clean key.bytes := by
  intro c hc
  exact keyChar_clean c (((storeValidateKey_ok key).mp h).2.2 c hc)

def validateValue (value : CStr) : ApiError :=
  if value.length > STORE_MAX_VALUE_LEN then .payloadTooLarge else .ok

def storeKvPut (fault : SqlFault) (now : Long) (kv : KvTable) (key value : CStr) :
    ApiError × KvTable :=
  if storeValidateKey key ≠ .ok then (storeValidateKey key, kv)
  else if validateValue value ≠ .ok then (validateValue value, kv)
  else if fault = .prepare ∨ fault = .step 0 then (.internal, kv)
  else (.ok, kv.put ⟨key, value, now⟩)

def storeKvGet (fault : SqlFault) (kv : KvTable) (key : CStr) (valueCap : Nat) :
    Except ApiError CStr :=
  if valueCap = 0 then .error .internal
  else if storeValidateKey key ≠ .ok then .error .invalidKey
  else if fault = .prepare ∨ fault = .step 0 then .error .internal
  else
    match kv.get key with
    | none => .error .notFound
    | some row =>
      if row.value.length + 1 > valueCap then .error .payloadTooLarge else .ok row.value

theorem storeKvGet_row (kv : KvTable) (key : CStr) (row : KvRow) (valueCap : Nat)
    (hkey : storeValidateKey key = .ok) (hrow : kv.get key = some row)
    (hcap : row.value.length < valueCap) : storeKvGet .none kv key valueCap = .ok row.value := by
  unfold storeKvGet
  rw [if_neg (by omega), if_neg (not_not.mpr hkey), if_neg (by decide), hrow]
  exact if_neg (by omega)

def storeKvDel (fault : SqlFault) (kv : KvTable) (key : CStr) : ApiError × KvTable :=
  if storeValidateKey key ≠ .ok then (.invalidKey, kv)
  else if fault = .prepare ∨ fault = .step 0 then (.internal, kv)
  else
    match kv.get key with
    | none => (.notFound, kv.erase key)
    | some _ => (.ok, kv.erase key)

/-! ## the listing -/

/-- `sizeof(ek)` and `sizeof(ev)` of the row loop -/
def KV_LIST_KEY_CAP : Nat := STORE_MAX_KEY_LEN * 2 + 1
def KV_LIST_VALUE_CAP : Nat := STORE_MAX_VALUE_LEN + 1024

/-- the object of a row -/
def kvItem (ek ev : Bytes) : Bytes :=
  ascii "\x7b\"key\":\"" ++ ek ++ ascii "\",\"value\":\"" ++ ev ++ ascii "\"\x7d"

theorem kvItem_length (ek ev : Bytes) : (kvItem ek ev).length = ek.length + ev.length + 21 := by
  unfold kvItem
  simp only [List.length_append, show (ascii "\x7b\"key\":\"").length = 8 by decide,
    show (ascii "\",\"value\":\"").length = 11 by decide,
    show (ascii "\"\x7d").length = 2 by decide]
  omega

/-- the row loop, at the call number `call` of `sqlite3_step`, with `out_json[0..pos)` in `text` -/
def kvListLoop (fault : SqlFault) (outCap call : Nat) (text : Bytes) (first : Bool) :
    List KvRow → Except ApiError Bytes
  | [] => if fault = .step call then .error .internal else .ok text
  | row :: rows =>
    if fault = .step call then .error .internal
    else
      match jsonEscape KV_LIST_KEY_CAP row.key, jsonEscape KV_LIST_VALUE_CAP row.value with
      | some ek, some ev =>
        let written := (if first then [] else [comma]) ++ kvItem ek ev
        if written.length ≥ outCap - text.length then .error .payloadTooLarge
        else kvListLoop fault outCap (call + 1) (text ++ written) false rows
      | _, _ => .error .internal

/-- the bound pattern, printed to `pattern[STORE_MAX_KEY_LEN + 2]` -/
def kvPattern (pfx : CStr) : Bytes := (pfx.bytes ++ [percent]).take (STORE_MAX_KEY_LEN + 1)

/-- `SELECT key,value FROM kv WHERE key LIKE ? ESCAPE '\' ORDER BY key LIMIT ?` -/
def kvSelect (kv : KvTable) (pfx : CStr) (limit : Nat) : List KvRow :=
  (kv.select KvRow.rank fun r => like backslash (kvPattern pfx) r.key.bytes).take limit

def storeKvList (fault : SqlFault) (kv : KvTable) (pfx : CStr) (limit : Int) (outCap : Nat) :
    Except ApiError Bytes :=
  if limit ≤ 0 ∨ limit > STORE_MAX_LIST then .error .invalidQuery
  else if fault = .prepare then .error .internal
  else if outCap < 3 then .error .internal
  else
    match kvListLoop fault outCap 0 (ascii "[") true (kvSelect kv pfx limit.toNat) with
    | .error e => .error e
    | .ok text =>
      if text.length + 2 > outCap then .error .payloadTooLarge else .ok (text ++ ascii "]")

end CServer
