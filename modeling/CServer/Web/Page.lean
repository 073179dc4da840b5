import CServer.Web.Texts
import CServer.Web.Transport

/-!
# The key/value panel of the page

* `kvSave`, `kvFetch`, `kvDelete`   the three buttons, from the fields to what is shown;
* `PageKey`, `PageValue`            the keys and the values that the page can store;
* `keyPath_target`                  the path that is asked for;
* `keyRoute`                        the route of any key at all.
-/

namespace CServer
namespace Web
open Shell (Chars)
open UrlPath JsonObject

/-! ## the buttons -/

inductive Shown where
  | saved (key value : Chars)
  | badRequest
  /-- `undefined` is none -/
  | fetched (value : Option Chars)
  | notFound
  | deleted
  /-- any text that is no object of strings -/
  | unread
  deriving DecidableEq

/-- "/api/kv/" + encodeURIComponent(key) -/
def keyPath (key : Chars) : Chars := "/api/kv/".toList ++ encodeURIComponent key

theorem noNul_escapeChar (c : Char) : '\x00' ∉ escapeChar c := by
  by_cases hlow : c.toNat < 0x20
  · have hall : ∀ n < 0x20, '\x00' ∉ escapeChar (Char.ofNat n) := by decide
    have hc := hall c.toNat hlow
    rwa [Char.ofNat_toNat] at hc
  · unfold escapeChar
    intro h
    cases hs : shortEscape c with
    | some d =>
      rw [hs] at h
      obtain ⟨hvalue, -⟩ := letterValue_shortEscape c d hs
      rcases List.mem_cons.mp h with h | h
      · exact absurd h (by decide)
      · rw [← List.mem_singleton.mp h] at hvalue
        exact absurd hvalue (by unfold letterValue; simp)
    | none =>
      rw [hs] at h
      simp only at h
      rw [if_neg hlow] at h
      rw [← List.mem_singleton.mp h] at hlow
      exact hlow (by decide)

theorem noNul_escaped (s : Chars) : '\x00' ∉ escaped s := by
  intro h
  obtain ⟨c, -, hc⟩ := List.mem_flatMap.mp h
  exact noNul_escapeChar c hc

/-- `{ value }` -/
def putJson (value : Chars) : JsonText where
  text := putText value
  ne_nil := List.cons_ne_nil _ _
  noNul := by
    rw [putText_eq]
    intro h
    rcases List.mem_append.mp h with h | h
    · exact absurd h (by decide)
    · rcases List.mem_append.mp h with h | h
      · exact noNul_escaped value h
      · exact absurd h (by decide)

/-- `result.body`: an object of strings in the layout of `JSON.stringify(…, null, 2)` -/
def pretty (text : Chars) : Chars :=
  match parseObject text with
  | some ms => indented.text ms
  | none => text

/-- `JSON.parse(result.body).value` -/
def readValue (text : Chars) : Shown :=
  match parseObject (pretty text) with
  | some ms => .fetched (member valueName ms)
  | none => .unread

def labelled (label : String) : Options := ⟨.empty, false, true, some label.toList⟩

section
variable (fetch : Request → Option Reply) (token : Chars)

def kvSave (key value : Chars) : Option (Request × Shown) :=
  let call :=
    Call.callJson token "PUT".toList (keyPath key) (some (putJson value)) (labelled "PUT /api/kv/:key")
  (call.run fetch).map fun (request, result) =>
    (request, if 200 ≤ result.status ∧ result.status < 300 then .saved key value else .badRequest)

def kvFetch (key : Chars) : Option (Request × Shown) :=
  let call := Call.callJson token "GET".toList (keyPath key) none (labelled "GET /api/kv/:key")
  (call.run fetch).map fun (request, result) =>
    (request, if result.status = 200 then readValue result.respBody else .notFound)

/-- behind `window.confirm` -/
def kvDelete (key : Chars) : Option (Request × Shown) :=
  let call := Call.callJson token "DELETE".toList (keyPath key) none (labelled "DELETE /api/kv/:key")
  (call.run fetch).map fun (request, result) =>
    (request, if result.status = 204 then .deleted else .notFound)

/-- a button, with the fields as they are typed -/
inductive PageOp where
  | save (key value : Chars)
  | fetch (key : Chars)
  | delete (key : Chars)

def PageOp.run : PageOp → Option (Request × Shown)
  | .save key value => kvSave fetch token (trim key) value
  | .fetch key => kvFetch fetch token (trim key)
  | .delete key => kvDelete fetch token (trim key)

end

/-! ## keys and values -/

/-- the characters of a key -/
def keyLetter (c : Char) : Bool := c.isAlphanum || c ∈ ['.', '_', '-']

/-- a key that the page can ask for: a dot and two dots are no segments of a URL -/
structure PageKey (key : Chars) : Prop where
  ne : key ≠ []
  length : key.length ≤ STORE_MAX_KEY_LEN
  letters : ∀ c ∈ key, keyLetter c = true
  noDot : key ≠ ['.']
  noDots : key ≠ ['.', '.']

instance (key : Chars) : Decidable (PageKey key) :=
  decidable_of_iff (key ≠ [] ∧ key.length ≤ STORE_MAX_KEY_LEN ∧ (∀ c ∈ key, keyLetter c = true) ∧
      key ≠ ['.'] ∧ key ≠ ['.', '.'])
    ⟨fun ⟨h1, h2, h3, h4, h5⟩ => ⟨h1, h2, h3, h4, h5⟩, fun h => ⟨h.1, h.2, h.3, h.4, h.5⟩⟩

/-- a value that the server decodes -/
structure PageValue (value : Chars) : Prop where
  carried : ∀ c ∈ value, Carried c
  length : (utf8 value).length < JSON_VALUE_CAP

instance (value : Chars) : Decidable (PageValue value) :=
  decidable_of_iff ((∀ c ∈ value, Carried c) ∧ (utf8 value).length < JSON_VALUE_CAP)
    ⟨fun ⟨h1, h2⟩ => ⟨h1, h2⟩, fun h => ⟨h.1, h.2⟩⟩

/-- the request is one for the list -/
def Listed (key : Chars) : Prop := key = [] ∨ key = ['.']

instance (key : Chars) : Decidable (Listed key) := by unfold Listed; infer_instance

theorem keyLetter_unreserved {c : Char} (h : keyLetter c = true) : unreserved c = true := by
  unfold keyLetter at h
  unfold unreserved
  rw [Bool.or_eq_true, decide_eq_true_eq] at h ⊢
  rcases h with h | h
  · exact .inl h
  · right
    have hsub : (['.', '_', '-'] : List Char) ⊆ ['-', '_', '.', '!', '~', '*', '\'', '(', ')'] := by decide
    exact hsub h

theorem keyLetter_byte (c : Char) (h : c.toNat < 128) : keyChar (UInt8.ofNat c.toNat) = keyLetter c := by
  have hall : ∀ n < 128, keyChar (UInt8.ofNat n) = keyLetter (Char.ofNat n) := by decide
  have hc := hall c.toNat h
  rwa [Char.ofNat_toNat] at hc

theorem utf8_ascii (s : Chars) (h : ∀ c ∈ s, c.toNat < 128) :
    utf8 s = s.map fun c => UInt8.ofNat c.toNat := by
  induction s with
  | nil => rfl
  | cons c s ih =>
    rw [utf8_cons, utf8EncodeChar_ascii c (h c List.mem_cons_self),
      ih fun d hd => h d (List.mem_cons_of_mem _ hd)]
    rfl

theorem encode_ascii (key : Chars) : ∀ c ∈ encodeURIComponent key, c.toNat < 128 := fun c hc => by
  have := (encode_visible hc).2
  omega

theorem PageKey.encode {key : Chars} (h : PageKey key) : encodeURIComponent key = key :=
  encode_eq_self fun c hc => keyLetter_unreserved (h.letters c hc)

theorem PageKey.narrow {key : Chars} (h : PageKey key) : ∀ c ∈ key, c.toNat < 128 := by
  have henc := encode_ascii key
  rwa [h.encode] at henc

theorem PageKey.carried {key : Chars} (h : PageKey key) : ∀ c ∈ key, Carried c := fun c hc =>
  .inl (Nat.le_of_lt (unreserved_visible (keyLetter_unreserved (h.letters c hc))).1)

/-- the bytes of a component -/
theorem encode_byte {key : Chars} {b : Byte} (h : b ∈ utf8 (encodeURIComponent key)) :
    CServer.isSpace b = false ∧ b ≠ 0 ∧ b ≠ 63 ∧ b ≠ 47 := by
  rw [utf8_ascii _ (encode_ascii key)] at h
  obtain ⟨c, hc, rfl⟩ := List.mem_map.mp h
  have hall : ∀ n < 0x7F, (unreserved (Char.ofNat n) = true ∨ Char.ofNat n = '%') →
      CServer.isSpace (UInt8.ofNat n) = false ∧ UInt8.ofNat n ≠ 0 ∧ UInt8.ofNat n ≠ 63 ∧
        UInt8.ofNat n ≠ 47 := by
    decide
  have hn := hall c.toNat (encode_visible hc).2
  rw [Char.ofNat_toNat] at hn
  exact hn (mem_encode hc)

/-! ## the path -/

/-- the key in the store -/
def keyStr (key : Chars) : CStr := CStr.ofBytes (utf8 key)

theorem keyPath_cons (key : Chars) :
    keyPath key = '/' :: (['a', 'p', 'i'] ++ '/' :: (['k', 'v'] ++ '/' :: encodeURIComponent key)) := rfl

/-- what is behind the path of the API in the target -/
def segment (key : Chars) : Chars := if key = ['.'] then [] else encodeURIComponent key

theorem keyPath_target (key : Chars) :
    utf8 (urlPath (keyPath key)) =
      if key = ['.', '.'] then ascii "/api/"
      else ascii "/api/kv/" ++ utf8 (segment key) := by
  rw [keyPath_cons, urlPath_three _ _ _ (by decide) (by decide) (slash_notMem key) (by decide) (by decide)]
  by_cases hdots : key = ['.', '.']
  · rw [if_pos ((doubleDot_encode key).mpr hdots), if_pos hdots]
    rfl
  · rw [if_neg (fun h => hdots ((doubleDot_encode key).mp h)), if_neg hdots]
    have hsegment : (if isSingleDot (encodeURIComponent key) = true then [] else encodeURIComponent key) =
        segment key := by
      unfold segment
      by_cases hdot : key = ['.']
      · rw [if_pos ((singleDot_encode key).mpr hdot), if_pos hdot]
      · rw [if_neg (fun h => hdot ((singleDot_encode key).mp h)), if_neg hdot]
    rw [hsegment]
    show utf8 (['/', 'a', 'p', 'i', '/', 'k', 'v', '/'] ++ segment key) = _
    rw [utf8_append]
    rfl

theorem PageKey.target_length {key : Chars} (h : PageKey key) :
    (utf8 (urlPath (keyPath key))).length ≤ 2047 := by
  have hlen : key.length ≤ 128 := h.length
  rw [keyPath_target, if_neg h.noDots, segment, if_neg h.noDot, h.encode, utf8_ascii key h.narrow,
    List.length_append, List.length_map]
  show 8 + key.length ≤ 2047
  omega

theorem segment_byte {key : Chars} {b : Byte} (h : b ∈ utf8 (segment key)) :
    CServer.isSpace b = false ∧ b ≠ 0 ∧ b ≠ 63 ∧ b ≠ 47 := by
  unfold segment at h
  split_ifs at h
  · exact absurd h List.not_mem_nil
  · exact encode_byte h

theorem keyPath_byte {key : Chars} {b : Byte} (h : b ∈ utf8 (urlPath (keyPath key))) :
    CServer.isSpace b = false ∧ b ≠ 0 ∧ b ≠ 63 := by
  have hfixed : ∀ b ∈ ascii "/api/kv/", CServer.isSpace b = false ∧ b ≠ 0 ∧ b ≠ 63 := by decide +kernel
  have hshort : ascii "/api/" ⊆ ascii "/api/kv/" := by decide
  rw [keyPath_target] at h
  split_ifs at h
  · exact hfixed b (hshort h)
  · rcases List.mem_append.mp h with h | h
    · exact hfixed b h
    · obtain ⟨h1, h2, h3, -⟩ := segment_byte h
      exact ⟨h1, h2, h3⟩

theorem keyPath_plain (key : Chars) : PlainTarget (utf8 (urlPath (keyPath key))) where
  word := fun b hb => (keyPath_byte hb).1
  nul := fun h => (keyPath_byte h).2.1 rfl
  slash := by
    rw [keyPath_target]
    split_ifs <;> rfl

/-- a target that is cut has no slash behind the cut -/
theorem keyPath_uncut (key : Chars) :
    ¬ ascii "HTTP/1." <+: (utf8 (urlPath (keyPath key))).drop 2047 := by
  intro h
  have hslash : (47 : Byte) ∈ (utf8 (urlPath (keyPath key))).drop 2047 := h.subset (by decide)
  rw [keyPath_target] at hslash
  split_ifs at hslash
  · exact absurd hslash (by decide)
  · rw [List.drop_append] at hslash
    rcases List.mem_append.mp hslash with hm | hm
    · exact absurd hm (by decide)
    · exact (segment_byte (List.mem_of_mem_drop hm)).2.2.2 rfl

theorem keyPath_path (key : Chars) :
    (utf8 (urlPath (keyPath key))).takeWhile (fun c => c != 63) = utf8 (urlPath (keyPath key)) :=
  List.takeWhile_eq_self_iff.mpr fun _ hb => bne_iff_ne.mpr (keyPath_byte hb).2.2

end Web
end CServer
