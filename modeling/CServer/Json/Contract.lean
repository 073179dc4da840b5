import CServer.Json.Escape
import CServer.Json.Decode

/-!
# The contract of the request decoder

* strictness: `jsonGetString_strict_iff` says exactly when an accepted body is a well-formed
  object; the two ways out are a comma before the closing brace and a raw control byte;
* completeness of the delivered value: `jsonGetString_complete_iff` says exactly when the
  delivered string is the whole value of the one member with the whole name `field`; the way out
  is a raw NUL byte, at which `strcmp` and `strlen` stop;
* round trip: `jsonGetString_encode` decodes what `json_escape` encoded, for every list of
  members and every choice of whitespace.
-/

set_option linter.unusedVariables false

namespace CServer
open FlatJson

/-! ## strictness -/

/-- The body is an object within the limits of the scanner that has a comma before its closing
brace or a control byte standing for itself, and at most one of its members reads as `field`, with
a value shorter than `out_cap`. -/
def Slack (body : Bytes) (field : CStr) (outCap : Nat) : Prop :=
  0 < outCap ∧ ∃ d : Doc, d.text = body ∧ ¬ d.Strict ∧ (∀ m ∈ d.members, Fits m) ∧
    (matching field d.members = [] ∨
      ∃ v, matching field d.members = [v] ∧ (cstr v).length < outCap)

theorem answer_accepted (outCap : Nat) (vs : List Bytes) :
    Accepted (answer outCap vs) ↔ vs = [] ∨ ∃ v, vs = [v] ∧ (cstr v).length < outCap := by
  constructor
  · intro h
    cases ha : answer outCap vs with
    | ok out =>
      obtain ⟨v, hv, rfl, hlt⟩ := (answer_eq_ok _ _ _).mp ha
      exact .inr ⟨v, hv, hlt⟩
    | error e =>
      rw [ha] at h
      have he : e = .missingField := h
      subst he
      exact .inl ((answer_eq_missing _ _).mp ha)
  · rintro (rfl | ⟨v, rfl, hlt⟩)
    · rfl
    · rw [answer, if_pos hlt]
      trivial

/-- **Accepted bodies are well-formed, except for the slack ones.** -/
theorem jsonGetString_strict_iff (body : Bytes) (field : CStr) (outCap : Nat) :
    (Accepted (jsonGetString (some body) field outCap) → WellFormed body) ↔
      ¬ Slack body field outCap := by
  constructor
  · rintro h ⟨h0, d, rfl, hs, hf, hm⟩
    have ha : Accepted (jsonGetString (some d.text) field outCap) := by
      rw [jsonGetString_fits d field outCap h0 hf]
      exact (answer_accepted _ _).mpr hm
    obtain ⟨d', hs', ht⟩ := (wellFormed_iff _).mp (h ha)
    exact hs (Doc.text_injective _ _ ht ▸ hs')
  · intro h ha
    have h0 : 0 < outCap := by
      rcases Nat.eq_zero_or_pos outCap with rfl | h0
      · exact absurd ha (by simp [jsonGetString, Accepted])
      · exact h0
    obtain ⟨d, rfl, hf, he⟩ := jsonGetString_accepted _ _ _ ha
    rw [he] at ha
    by_contra hw
    refine h ⟨h0, d, rfl, fun hs => hw ((wellFormed_iff _).mpr ⟨d, hs, rfl⟩), hf, ?_⟩
    exact (answer_accepted _ _).mp ha

/-- the string of an ASCII literal, byte by byte -/
def litStr (s : String) : Str := escapePieces (ascii s)

/-- `{"a":"b",}` as a derivation -/
def trailingCommaDoc : Doc where
  lead := Ws.none
  items := .more ⟨Ws.none, litStr "a", Ws.none, Ws.none, litStr "b", Ws.none⟩ (.close Ws.none)
  trail := Ws.none

/-- `{"a":"` 0x01 `"}` as a derivation -/
def rawControlDoc : Doc where
  lead := Ws.none
  items := .last ⟨Ws.none, litStr "a", Ws.none, Ws.none, [.raw 1 (by decide) (by decide)], Ws.none⟩
  trail := Ws.none

theorem not_wellFormed_of (d : Doc) (h : ¬ d.Strict) : ¬ WellFormed d.text := by
  intro hw
  obtain ⟨d', hs, ht⟩ := (wellFormed_iff _).mp hw
  exact h (Doc.text_injective _ _ ht ▸ hs)

/-- Both ways out are taken: `{"a":"b",}` and `{"a":"` 0x01 `"}` are answered `API_OK`. -/
theorem jsonGetString_lenient :
    (trailingCommaDoc.text = ascii "\x7b\"a\":\"b\",\x7d" ∧
      jsonGetString (some trailingCommaDoc.text) ⟨ascii "a", by decide⟩ 64
        = .ok ⟨ascii "b", by decide⟩ ∧ ¬ WellFormed trailingCommaDoc.text) ∧
    (rawControlDoc.text = ascii "\x7b\"a\":\"\x01\"\x7d" ∧
      jsonGetString (some rawControlDoc.text) ⟨ascii "a", by decide⟩ 64
        = .ok ⟨[1], by decide⟩ ∧ ¬ WellFormed rawControlDoc.text) := by
  refine ⟨⟨by decide, ?_, not_wellFormed_of _ fun h => h.2⟩,
    ⟨by decide, ?_, not_wellFormed_of _ fun h => ?_⟩⟩
  · rw [jsonGetString_text _ _ _ (by decide)]
    rfl
  · rw [jsonGetString_text _ _ _ (by decide)]
    rfl
  · have hs := (h.1 _ (List.mem_singleton_self _)).2 _ (List.mem_singleton_self _)
    exact absurd hs (by decide)

/-! ## the delivered value -/

/-- the whole decoded name is the field -/
def namedWhole (field : CStr) (m : Member) : Bool := decide (Str.value m.name = field.bytes)

/-- On `API_OK` exactly one member has the whole decoded name `field`, and the delivered string is
its whole decoded value. -/
def DeliversWhole (body : Bytes) (field : CStr) (outCap : Nat) : Prop :=
  ∀ out, jsonGetString (some body) field outCap = .ok out →
    ∃ d : Doc, d.text = body ∧ ∃ m, d.members.filter (namedWhole field) = [m] ∧
      out.bytes = Str.value m.value

/-- The body is an object within the limits of the scanner, the one member that reads as `field`
up to its first NUL has a NUL byte in its name or in its value, and the value up to its first NUL
is shorter than `out_cap`. -/
def NulCut (body : Bytes) (field : CStr) (outCap : Nat) : Prop :=
  ∃ d : Doc, d.text = body ∧ (∀ m ∈ d.members, Fits m) ∧
    ∃ m, d.members.filter (named field) = [m] ∧ (cstr (Str.value m.value)).length < outCap ∧
      ((0 : Byte) ∈ Str.value m.name ∨ (0 : Byte) ∈ Str.value m.value)

theorem named_of_whole (field : CStr) (m : Member) (h : namedWhole field m = true) :
    named field m = true := by
  have hn : Str.value m.name = field.bytes := of_decide_eq_true h
  unfold named
  rw [hn, cstr_of_nulFree _ field.nulFree]
  simp

theorem filter_whole (field : CStr) (ms : List Member) :
    (ms.filter (named field)).filter (namedWhole field) = ms.filter (namedWhole field) := by
  rw [List.filter_filter]
  congr 1
  funext m
  cases hw : namedWhole field m with
  | true => rw [named_of_whole _ _ hw]; rfl
  | false => rfl

theorem matching_eq_singleton (field : CStr) (ms : List Member) (v : Bytes)
    (h : matching field ms = [v]) :
    ∃ m, ms.filter (named field) = [m] ∧ v = Str.value m.value := by
  obtain ⟨m, hm, hv⟩ := List.map_eq_singleton_iff.mp h
  exact ⟨m, hm, hv.symm⟩

/-- **The whole value of the member with the whole name is delivered, except for the bodies cut at
a NUL.** -/
theorem jsonGetString_complete_iff (body : Bytes) (field : CStr) (outCap : Nat) :
    DeliversWhole body field outCap ↔ ¬ NulCut body field outCap := by
  constructor
  · rintro h ⟨d, rfl, hf, m, hm, hlt, hnul⟩
    have hv : matching field d.members = [Str.value m.value] := by
      unfold matching
      rw [hm]
      rfl
    have hok : jsonGetString (some d.text) field outCap = .ok (CStr.ofBytes (Str.value m.value)) :=
      (jsonGetString_ok_iff _ _ _ _).mpr ⟨d, rfl, hf, _, hv, rfl, hlt⟩
    obtain ⟨d', hd, m', hm', hout⟩ := h _ hok
    have he : d' = d := Doc.text_injective _ _ hd
    subst he
    have hmem : m' ∈ d'.members.filter (namedWhole field) := by
      rw [hm']
      exact List.mem_cons_self
    rw [← filter_whole, hm, List.mem_filter, List.mem_singleton] at hmem
    obtain ⟨rfl, hw⟩ := hmem
    have hname : Str.value m'.name = field.bytes := of_decide_eq_true hw
    rcases hnul with hnul | hnul
    · rw [hname] at hnul
      exact field.nulFree hnul
    · exact (cstr_eq_self _).mp hout hnul
  · intro h out hok
    obtain ⟨d, hd, hf, v, hv, rfl, hlt⟩ := (jsonGetString_ok_iff _ _ _ _).mp hok
    obtain ⟨m, hm, rfl⟩ := matching_eq_singleton _ _ _ hv
    have hno : ¬ ((0 : Byte) ∈ Str.value m.name ∨ (0 : Byte) ∈ Str.value m.value) := fun hnul =>
      h ⟨d, hd, hf, m, hm, hlt, hnul⟩
    rw [not_or] at hno
    have hmem : m ∈ d.members.filter (named field) := by
      rw [hm]
      exact List.mem_cons_self
    have hn : cstr (Str.value m.name) = field.bytes :=
      of_decide_eq_true (List.mem_filter.mp hmem).2
    rw [cstr_of_nulFree _ hno.1] at hn
    refine ⟨d, hd, m, ?_, cstr_of_nulFree _ hno.2⟩
    rw [← filter_whole, hm]
    simp [namedWhole, hn]

/-- `{"a` 0x00 `b":"x` 0x00 `y"}` as a derivation -/
def nulDoc : Doc where
  lead := Ws.none
  items := .last ⟨Ws.none, litStr "a\x00b", Ws.none, Ws.none, litStr "x\x00y", Ws.none⟩
  trail := Ws.none

/-- The member `"a` 0x00 `b"` is delivered for the field `a`, with its value cut to `x`. -/
theorem jsonGetString_cuts_at_nul :
    jsonGetString (some nulDoc.text) ⟨ascii "a", by decide⟩ 64 = .ok ⟨ascii "x", by decide⟩ ∧
      ¬ DeliversWhole nulDoc.text ⟨ascii "a", by decide⟩ 64 := by
  have hok : jsonGetString (some nulDoc.text) ⟨ascii "a", by decide⟩ 64
      = .ok ⟨ascii "x", by decide⟩ := by
    rw [jsonGetString_text _ _ _ (by decide)]
    rfl
  refine ⟨hok, fun h => ?_⟩
  obtain ⟨d, hd, m, hm, hout⟩ := h _ hok
  have he : d = nulDoc := Doc.text_injective _ _ hd
  subst he
  exact absurd hm (by rw [show nulDoc.members.filter _ = [] from rfl]; simp)

/-! ## round trip -/

/-- A member before encoding: a name and a value that `json_escape` accepts and the scanner's
buffers hold, and the whitespace around its tokens. -/
structure Field where
  name : CStr
  value : CStr
  nameClean : Clean name.bytes
  valueClean : Clean value.bytes
  nameFits : name.length ≤ 127
  valueFits : value.length ≤ 8191
  before : Ws
  afterName : Ws
  beforeValue : Ws
  afterValue : Ws

/-- a quoted `json_escape(s)` -/
def quoted (s : CStr) : Bytes :=
  quote :: ((jsonEscape (2 * s.length + 1) s).getD [] ++ [quote])

def Field.encode (f : Field) : Bytes :=
  f.before.bytes ++ quoted f.name ++ f.afterName.bytes ++ [colon] ++ f.beforeValue.bytes
    ++ quoted f.value ++ f.afterValue.bytes

/-- the members joined by commas between braces -/
def encodeObject (lead inner trail : Ws) (fs : List Field) : Bytes :=
  lead.bytes ++ [lbrace] ++
    (if fs = [] then inner.bytes else List.intercalate [comma] (fs.map Field.encode)) ++
    [rbrace] ++ trail.bytes

/-- the values of the members with the name `field`, in order -/
def valuesOf (field : CStr) (fs : List Field) : List CStr :=
  (fs.filter fun f => decide (f.name = field)).map Field.value

def Field.member (f : Field) : Member :=
  ⟨f.before, escapePieces f.name.bytes, f.afterName, f.beforeValue, escapePieces f.value.bytes,
    f.afterValue⟩

theorem quoted_eq (s : CStr) (h : Clean s.bytes) : quoted s = (escapePieces s.bytes).text := by
  unfold quoted
  rw [jsonEscape_of_clean _ _ h (Nat.lt_succ_self _), Option.getD_some, Str.text,
    escapePieces_body]

theorem Field.member_text (f : Field) : f.member.text = f.encode := by
  unfold Field.encode
  rw [quoted_eq _ f.nameClean, quoted_eq _ f.valueClean]
  rfl

theorem Field.member_fits (f : Field) : Fits f.member := by
  have hn : f.name.bytes.length ≤ 127 := f.nameFits
  have hv : f.value.bytes.length ≤ 8191 := f.valueFits
  constructor
  · show (f.name.bytes.map pieceOf).length < 128
    rw [List.length_map]
    omega
  · show (f.value.bytes.map pieceOf).length < 8192
    rw [List.length_map]
    omega

theorem Field.member_named (field : CStr) (f : Field) :
    named field f.member = decide (f.name = field) := by
  unfold named
  have hv : Str.value f.member.name = f.name.bytes := escapePieces_value _
  rw [hv, cstr_of_nulFree _ f.name.nulFree]
  have hiff : f.name.bytes = field.bytes ↔ f.name = field :=
    ⟨fun h => CStr.ext' h, fun h => h ▸ rfl⟩
  simp only [hiff]

theorem matching_members (field : CStr) (fs : List Field) :
    matching field (fs.map Field.member) = (valuesOf field fs).map CStr.bytes := by
  induction fs with
  | nil => rfl
  | cons f fs ih =>
    have hnamed := Field.member_named field f
    unfold valuesOf
    rw [List.map_cons]
    by_cases h : f.name = field
    · rw [List.filter_cons_of_pos (by simpa using h), List.map_cons, List.map_cons,
        matching_cons_of_named _ _ _ (by rw [hnamed]; simpa using h), ih]
      congr 1
      exact escapePieces_value _
    · rw [List.filter_cons_of_neg (by simpa using h),
        matching_cons_of_not_named _ _ _ (by rw [hnamed]; simpa using h), ih]
      rfl

theorem joined_members (fs : List Field) :
    joined (fs.map Field.member) = List.intercalate [comma] (fs.map Field.encode) := by
  unfold joined
  rw [List.map_map]
  congr 2
  funext g
  exact Field.member_text g

/-- an encoded object has a derivation -/
theorem encodeObject_doc (lead inner trail : Ws) (fs : List Field) :
    ∃ d : Doc, d.text = encodeObject lead inner trail fs ∧ d.members = fs.map Field.member := by
  cases fs with
  | nil => exact ⟨⟨lead, .close inner, trail⟩, by simp [Doc.text, Items.text, encodeObject], rfl⟩
  | cons f fs =>
    refine ⟨⟨lead, Items.ofList f.member (fs.map Field.member), trail⟩, ?_,
      Items.ofList_members _ _⟩
    have hj := joined_members (f :: fs)
    rw [List.map_cons] at hj
    unfold Doc.text encodeObject
    rw [Items.ofList_text, hj, if_neg (by simp)]
    simp

/-- **An encoded object is well formed.** -/
theorem encodeObject_wellFormed (lead inner trail : Ws) (fs : List Field) :
    WellFormed (encodeObject lead inner trail fs) := by
  refine ⟨lead, inner, trail, fs.map Field.member, fun m hm => ?_, ?_⟩
  · obtain ⟨f, _, rfl⟩ := List.mem_map.mp hm
    exact ⟨escapePieces_strict _ f.nameClean, escapePieces_strict _ f.valueClean⟩
  · unfold encodeObject
    simp only [List.map_eq_nil_iff, joined_members]

/-- the answer, given the values of the members with the name `field` -/
def fieldAnswer (outCap : Nat) : List CStr → Except ApiError CStr
  | [] => .error .missingField
  | [v] => if v.length < outCap then .ok v else .error .payloadTooLarge
  | v :: _ :: _ => if v.length < outCap then .error .badRequest else .error .payloadTooLarge

theorem answer_bytes (outCap : Nat) (vs : List CStr) :
    answer outCap (vs.map CStr.bytes) = fieldAnswer outCap vs := by
  have hlen : ∀ v : CStr, (cstr v.bytes).length = v.length := fun v => by
    rw [cstr_of_nulFree _ v.nulFree]
    rfl
  cases vs with
  | nil => rfl
  | cons v vs =>
    cases vs with
    | nil =>
      show (if (cstr v.bytes).length < outCap then Except.ok (CStr.ofBytes v.bytes) else _) = _
      rw [hlen, CStr.ofBytes_eq]
      rfl
    | cons w vs =>
      show (if (cstr v.bytes).length < outCap then _ else _) = _
      rw [hlen]
      rfl

theorem jsonGetString_encodeObject (lead inner trail : Ws) (fs : List Field) (field : CStr)
    (outCap : Nat) (h0 : 1 ≤ outCap) :
    jsonGetString (some (encodeObject lead inner trail fs)) field outCap =
      fieldAnswer outCap (valuesOf field fs) := by
  obtain ⟨d, hd, hm⟩ := encodeObject_doc lead inner trail fs
  have hf : ∀ m ∈ d.members, Fits m := by
    intro m hmem
    rw [hm] at hmem
    obtain ⟨f, _, rfl⟩ := List.mem_map.mp hmem
    exact f.member_fits
  rw [← hd, jsonGetString_fits d field outCap h0 hf, hm, matching_members, answer_bytes]

theorem valuesOf_perm (field : CStr) (fs fs' : List Field) (h : fs.Perm fs') :
    (valuesOf field fs).Perm (valuesOf field fs') := (h.filter _).map _

/-- **Decoding undoes encoding.**  A field that occurs once is delivered, or refused as too large;
a field that does not occur is missing; a field that occurs more often is refused, in every order.
While it occurs at most once, neither the order nor the other members matter. -/
theorem jsonGetString_encode (lead inner trail : Ws) (fs : List Field) (field : CStr)
    (outCap : Nat) (h0 : 1 ≤ outCap) :
    (∀ v, valuesOf field fs = [v] →
      jsonGetString (some (encodeObject lead inner trail fs)) field outCap =
        if v.length < outCap then .ok v else .error .payloadTooLarge) ∧
    (valuesOf field fs = [] →
      jsonGetString (some (encodeObject lead inner trail fs)) field outCap
        = .error .missingField) ∧
    (∀ v w vs, valuesOf field fs = v :: w :: vs →
      jsonGetString (some (encodeObject lead inner trail fs)) field outCap =
        if v.length < outCap then .error .badRequest else .error .payloadTooLarge) ∧
    (∀ (lead' inner' trail' : Ws) (fs' : List Field), valuesOf field fs' = valuesOf field fs →
      jsonGetString (some (encodeObject lead' inner' trail' fs')) field outCap =
        jsonGetString (some (encodeObject lead inner trail fs)) field outCap) ∧
    (∀ (lead' inner' trail' : Ws) (fs' : List Field), fs'.Perm fs →
      (valuesOf field fs).length ≤ 1 →
      jsonGetString (some (encodeObject lead' inner' trail' fs')) field outCap =
        jsonGetString (some (encodeObject lead inner trail fs)) field outCap) := by
  have hall := fun (l i t : Ws) (gs : List Field) =>
    jsonGetString_encodeObject l i t gs field outCap h0
  refine ⟨fun v hv => ?_, fun hv => ?_, fun v w vs hv => ?_, fun l i t gs hv => ?_,
    fun l i t gs hp hle => ?_⟩
  · rw [hall, hv]
    rfl
  · rw [hall, hv]
    rfl
  · rw [hall, hv]
    rfl
  · rw [hall, hall, hv]
  · have hperm := valuesOf_perm field _ _ hp
    rw [hall, hall]
    cases hvs : valuesOf field fs with
    | nil => rw [hvs] at hperm; rw [List.perm_nil.mp hperm]
    | cons v vs =>
      rw [hvs, List.length_cons] at hle
      have hnil : vs = [] := List.length_eq_zero_iff.mp (by omega)
      subst hnil
      rw [hvs] at hperm
      rw [List.perm_singleton.mp hperm]

/-- a member with the given name and value and no whitespace -/
def plainField (name value : CStr) (h : Clean name.bytes ∧ Clean value.bytes ∧
    name.length ≤ 127 ∧ value.length ≤ 8191) : Field :=
  ⟨name, value, h.1, h.2.1, h.2.2.1, h.2.2.2, Ws.none, Ws.none, Ws.none, Ws.none⟩

/-- `"f":"a"` and `"f":"bb"` -/
def fieldA : Field := plainField ⟨ascii "f", by decide⟩ ⟨ascii "a", by decide⟩ (by decide +kernel)
def fieldB : Field := plainField ⟨ascii "f", by decide⟩ ⟨ascii "bb", by decide⟩ (by decide +kernel)

theorem jsonGetString_encode_single :
    jsonGetString (some (encodeObject Ws.none Ws.none Ws.none [fieldA])) ⟨ascii "f", by decide⟩ 2
      = .ok ⟨ascii "a", by decide⟩ :=
  (jsonGetString_encode Ws.none Ws.none Ws.none [fieldA] ⟨ascii "f", by decide⟩ 2 (by decide)).1
    ⟨ascii "a", by decide⟩ (by decide)

/-- When the field occurs twice, which error is answered does depend on the order. -/
theorem jsonGetString_order_matters :
    jsonGetString (some (encodeObject Ws.none Ws.none Ws.none [fieldA, fieldB]))
        ⟨ascii "f", by decide⟩ 2 = .error .badRequest ∧
      jsonGetString (some (encodeObject Ws.none Ws.none Ws.none [fieldB, fieldA]))
        ⟨ascii "f", by decide⟩ 2 = .error .payloadTooLarge := by
  constructor
  · rw [jsonGetString_encodeObject _ _ _ _ _ _ (by decide)]
    rfl
  · rw [jsonGetString_encodeObject _ _ _ _ _ _ (by decide)]
    rfl

end CServer
