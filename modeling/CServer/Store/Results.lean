import CServer.Store.Kv
import CServer.Store.Notes

/-!
# What the store functions hand back

* `StoreError e`     the errors of the store functions;
* `Typed r`, `TypedText outCap r`   a result whose error is one of them, and one whose text leaves room
                     for its NUL in `outCap` bytes;
* `Failing r`, `Rendering outCap r`   the same for any error but `API_OK`;
* `storeKvPut_typed` … `storeCounts_typed`   one of the first two for each function.
-/

namespace CServer

def StoreError (e : ApiError) : Prop :=
  e ∈ [ApiError.badRequest, .invalidKey, .invalidId, .invalidQuery, .notFound, .payloadTooLarge,
    .internal]

instance (e : ApiError) : Decidable (StoreError e) := by
  unfold StoreError
  infer_instance

structure Failing {α : Type} (r : Except ApiError α) : Prop where
  error : ∀ e, r = .error e → e ≠ .ok

structure Rendering (outCap : Nat) (r : Except ApiError Bytes) : Prop extends Failing r where
  text : ∀ t, r = .ok t → t.length < outCap

structure Typed {α : Type} (r : Except ApiError α) : Prop where
  error : ∀ e, r = .error e → StoreError e

structure TypedText (outCap : Nat) (r : Except ApiError Bytes) : Prop extends Typed r where
  text : ∀ t, r = .ok t → t.length < outCap

theorem StoreError.ne_ok {e : ApiError} (h : StoreError e) : e ≠ .ok := by
  rintro rfl
  revert h
  decide

theorem Typed.failing {α : Type} {r : Except ApiError α} (h : Typed r) : Failing r :=
  ⟨fun e he => (h.error e he).ne_ok⟩

theorem TypedText.rendering {outCap : Nat} {r : Except ApiError Bytes} (h : TypedText outCap r) :
    Rendering outCap r := ⟨h.toTyped.failing, h.text⟩

theorem typed_ok {α : Type} (a : α) : Typed (.ok a) := by
  refine ⟨fun e h => ?_⟩
  cases h

theorem typed_error {α : Type} {e : ApiError} (h : StoreError e) :
    Typed (.error e : Except ApiError α) := by
  refine ⟨fun e' he => ?_⟩
  cases he
  exact h

theorem typedText_ok {outCap : Nat} {t : Bytes} (h : t.length < outCap) : TypedText outCap (.ok t) := by
  refine ⟨typed_ok t, fun t' ht => ?_⟩
  cases ht
  exact h

theorem typedText_error {outCap : Nat} {e : ApiError} (h : StoreError e) :
    TypedText outCap (.error e) := by
  refine ⟨typed_error h, fun t ht => ?_⟩
  cases ht

/-! ## checks -/

theorem storeValidateKey_typed (key : CStr) :
    storeValidateKey key = .ok ∨ StoreError (storeValidateKey key) := by
  unfold storeValidateKey
  split_ifs <;> decide

theorem validateValue_typed (value : CStr) :
    validateValue value = .ok ∨ StoreError (validateValue value) := by
  unfold validateValue
  split_ifs <;> decide

theorem validateNoteFields_typed (title body : CStr) :
    validateNoteFields title body = .ok ∨ StoreError (validateNoteFields title body) := by
  unfold validateNoteFields
  split_ifs <;> decide

/-! ## kv -/

theorem storeKvGet_typed (fault : SqlFault) (kv : KvTable) (key : CStr) (valueCap : Nat) :
    Typed (storeKvGet fault kv key valueCap) := by
  unfold storeKvGet
  split_ifs
  · exact typed_error (by decide)
  · exact typed_error (by decide)
  · exact typed_error (by decide)
  · cases kv.get key with
    | none => exact typed_error (by decide)
    | some row =>
      show Typed (if _ then _ else _)
      split_ifs
      · exact typed_error (by decide)
      · exact typed_ok _

theorem kvListLoop_typed (fault : SqlFault) (outCap call : Nat) (text : Bytes) (first : Bool)
    (rows : List KvRow) (h : text.length < outCap) :
    TypedText outCap (kvListLoop fault outCap call text first rows) := by
  induction rows generalizing call text first with
  | nil =>
    rw [kvListLoop]
    split_ifs
    · exact typedText_error (by decide)
    · exact typedText_ok h
  | cons row rows ih =>
    rw [kvListLoop]
    by_cases hf : fault = .step call
    · rw [if_pos hf]
      exact typedText_error (by decide)
    · rw [if_neg hf]
      split
      · next ek ev _ _ =>
        simp only
        by_cases hw : ((if first then [] else [comma]) ++ kvItem ek ev).length
            ≥ outCap - text.length
        · rw [if_pos hw]
          exact typedText_error (by decide)
        · rw [if_neg hw]
          apply ih
          rw [List.length_append]
          omega
      · exact typedText_error (by decide)

theorem storeKvList_typed (fault : SqlFault) (kv : KvTable) (pfx : CStr) (limit : Int)
    (outCap : Nat) : TypedText outCap (storeKvList fault kv pfx limit outCap) := by
  unfold storeKvList
  by_cases hl : limit ≤ 0 ∨ limit > STORE_MAX_LIST
  · rw [if_pos hl]
    exact typedText_error (by decide)
  · rw [if_neg hl]
    by_cases hf : fault = .prepare
    · rw [if_pos hf]
      exact typedText_error (by decide)
    · rw [if_neg hf]
      by_cases hc : outCap < 3
      · rw [if_pos hc]
        exact typedText_error (by decide)
      · rw [if_neg hc]
        have hstart : (ascii "[").length < outCap := by
          rw [show (ascii "[").length = 1 by decide]
          omega
        have hloop := kvListLoop_typed fault outCap 0 _ true (kvSelect kv pfx limit.toNat) hstart
        split
        · next e he => exact typedText_error (hloop.error e he)
        · next text _ =>
          split_ifs with hroom
          · exact typedText_error (by decide)
          · apply typedText_ok
            rw [List.length_append, show (ascii "]").length = 1 by decide]
            omega

theorem storeKvPut_typed (fault : SqlFault) (now : Long) (kv : KvTable) (key value : CStr) :
    (storeKvPut fault now kv key value).1 = .ok ∨ StoreError (storeKvPut fault now kv key value).1 := by
  unfold storeKvPut
  split_ifs
  · exact storeValidateKey_typed key
  · exact validateValue_typed value
  · exact .inr (show StoreError .internal by decide)
  · exact .inl rfl

theorem storeKvDel_typed (fault : SqlFault) (kv : KvTable) (key : CStr) :
    (storeKvDel fault kv key).1 = .ok ∨ StoreError (storeKvDel fault kv key).1 := by
  unfold storeKvDel
  split_ifs
  · exact .inr (show StoreError .invalidKey by decide)
  · exact .inr (show StoreError .internal by decide)
  · cases kv.get key with
    | none => exact .inr (show StoreError .notFound by decide)
    | some row => exact .inl rfl

/-! ## notes -/

theorem storeNoteCreate_typed (fault : SqlFault) (now : Long) (notes : NoteTable)
    (title body : CStr) : Typed (storeNoteCreate fault now notes title body).1 := by
  rcases storeNoteCreate_cases fault now notes title body with ⟨e, he, hr⟩ | ⟨_, h, hr⟩
  · rw [hr]
    apply typed_error
    rcases he with ⟨rfl, he⟩ | rfl
    · exact (validateNoteFields_typed title body).resolve_left he
    · decide
  · rw [hr]
    exact typed_ok _

theorem noteRowToJson_typed (row : NoteRow) (outCap pos : Nat) :
    TypedText (outCap - pos) (noteRowToJson row outCap pos) := by
  unfold noteRowToJson
  split
  · split_ifs with hfit
    · exact typedText_error (by decide)
    · exact typedText_ok (by omega)
  · exact typedText_error (by decide)

theorem storeNoteGet_typed (fault : SqlFault) (notes : NoteTable) (id : Long) (outCap : Nat) :
    TypedText outCap (storeNoteGet fault notes id outCap) := by
  unfold storeNoteGet
  split_ifs
  · exact typedText_error (by decide)
  · exact typedText_error (by decide)
  · cases notes.table.get id with
    | none => exact typedText_error (by decide)
    | some row => exact noteRowToJson_typed row outCap 0

theorem noteListLoop_typed (fault : SqlFault) (outCap call : Nat) (text : Bytes) (first : Bool)
    (rows : List NoteRow) : Typed (noteListLoop fault outCap call text first rows) := by
  induction rows generalizing call text first with
  | nil =>
    rw [noteListLoop]
    split_ifs
    · exact typed_error (by decide)
    · exact typed_ok _
  | cons row rows ih =>
    rw [noteListLoop]
    by_cases hf : fault = .step call
    · rw [if_pos hf]
      exact typed_error (by decide)
    · rw [if_neg hf]
      by_cases hc : first = false ∧ text.length + 1 ≥ outCap
      · rw [if_pos hc]
        exact typed_error (by decide)
      · rw [if_neg hc]
        simp only
        have hi := noteRowToJson_typed row outCap (if first then text else text ++ [comma]).length
        split
        · next e he => exact typed_error (hi.error e he)
        · apply ih

theorem storeNoteList_typed (countFault fault : SqlFault) (notes : NoteTable) (limit offset : Int)
    (outCap : Nat) :
    TypedText outCap ((storeNoteList countFault fault notes limit offset outCap).map Prod.fst) := by
  unfold storeNoteList
  by_cases hl : limit ≤ 0 ∨ limit > STORE_MAX_LIST ∨ offset < 0
  · rw [if_pos hl]
    exact typedText_error (by decide)
  · rw [if_neg hl]
    by_cases hcount : countFault = .prepare
    · rw [if_pos hcount]
      exact typedText_error (by decide)
    · rw [if_neg hcount]
      simp only
      by_cases hf : fault = .prepare
      · rw [if_pos hf]
        exact typedText_error (by decide)
      · rw [if_neg hf]
        by_cases hc : outCap < 16 ∨ (ascii "\x7b\"items\":[").length ≥ outCap
        · rcases hc with hc | hc
          · rw [if_pos hc]
            exact typedText_error (by decide)
          · rw [if_pos hc]
            split_ifs
            all_goals exact typedText_error (by decide)
        · obtain ⟨hc1, hc2⟩ := not_or.mp hc
          rw [if_neg hc1, if_neg hc2]
          have hloop := noteListLoop_typed fault outCap 0 (ascii "\x7b\"items\":[") true
            (noteSelect notes limit.toNat offset.toNat)
          split
          · next e he => exact typedText_error (hloop.error e he)
          · next text _ =>
            generalize ascii "],\"total\":" ++ _ ++ ascii "\x7d" = written
            by_cases hroom : written.length ≥ outCap - text.length
            · rw [if_pos hroom]
              exact typedText_error (by decide)
            · rw [if_neg hroom]
              apply typedText_ok
              rw [List.length_append]
              omega

theorem storeNoteUpdate_typed (fault : SqlFault) (now : Long) (notes : NoteTable) (id : Long)
    (title body : CStr) :
    (storeNoteUpdate fault now notes id title body).1 = .ok ∨
      StoreError (storeNoteUpdate fault now notes id title body).1 := by
  unfold storeNoteUpdate
  split_ifs
  · exact .inr (show StoreError .invalidId by decide)
  · exact validateNoteFields_typed title body
  · exact .inr (show StoreError .internal by decide)
  · cases notes.table.get id with
    | none => exact .inr (show StoreError .notFound by decide)
    | some row => exact .inl rfl

theorem storeNoteDel_typed (fault : SqlFault) (notes : NoteTable) (id : Long) :
    (storeNoteDel fault notes id).1 = .ok ∨ StoreError (storeNoteDel fault notes id).1 := by
  unfold storeNoteDel
  split_ifs
  · exact .inr (show StoreError .invalidId by decide)
  · exact .inr (show StoreError .internal by decide)
  · cases notes.table.get id with
    | none => exact .inr (show StoreError .notFound by decide)
    | some row => exact .inl rfl

theorem storeCounts_typed (kvFault noteFault : SqlFault) (st : Store) :
    Typed (storeCounts kvFault noteFault st) := by
  unfold storeCounts
  split_ifs
  · exact typed_error (by decide)
  · exact typed_error (by decide)
  all_goals exact typed_ok _

end CServer
