import CServer.Lib.ShellLine

/-!
# `api.js`: requests from the page, and the command that sends one again

A text is the list of its characters. `fetch` is a parameter: what it answers to a request, or none when
it throws.

* `Headers`        an object whose own properties are texts;
* `doFetch`, `callJson`   a request, and the entry that is traced for it;
* `buildCurl`      the command line of an entry;
* `parseHeaders`   the lines `Name: value` of the raw form;
* `mem_set`, `mem_entries`   what an object holds.
-/

namespace CServer
namespace Web
open Shell (Chars)

/-- `__proto__` is no property of its own; a text that is assigned to it is dropped. -/
def protoName : Chars := "__proto__".toList

/-- An object whose own properties are texts, in the order in which they were added. -/
structure Headers where
  fields : List (Chars × Chars)
  distinct : (fields.map Prod.fst).Nodup
  own : protoName ∉ fields.map Prod.fst

namespace Headers

/-- `{}` -/
def empty : Headers := ⟨[], List.nodup_nil, by simp⟩

def names (h : Headers) : List Chars := h.fields.map Prod.fst

/-- `h[name]` -/
def get (h : Headers) (name : Chars) : Option Chars := (h.fields.find? fun p => p.1 = name).map Prod.snd

/-- the fields with a new value for a name that is there -/
def replace (h : Headers) (name value : Chars) : List (Chars × Chars) :=
  h.fields.map fun p => if p.1 = name then (name, value) else p

theorem map_fst_replace (h : Headers) (name value : Chars) :
    (h.replace name value).map Prod.fst = h.names := by
  rw [replace, List.map_map]
  refine List.map_congr_left fun p _ => ?_
  change (if p.1 = name then (name, value) else p).1 = p.1
  split
  · rename_i hp
    exact hp.symm
  · rfl

/-- `h[name] = value` -/
def set (h : Headers) (name value : Chars) : Headers :=
  if hproto : name = protoName then h
  else if hname : name ∈ h.names then
    ⟨h.replace name value, by rw [map_fst_replace]; exact h.distinct,
      by rw [map_fst_replace]; exact h.own⟩
  else
    ⟨h.fields ++ [(name, value)], by
      rw [List.map_append]
      refine List.nodup_append.mpr ⟨h.distinct, List.nodup_singleton _, ?_⟩
      rintro a ha b hb rfl
      obtain rfl : a = name := List.mem_singleton.mp hb
      exact hname ha, by
      rw [List.map_append, List.mem_append, List.map_singleton, List.mem_singleton]
      rintro (hmem | heq)
      · exact h.own hmem
      · exact hproto heq.symm⟩

/-- A name that is the decimal form of an array index; such names come first, in their order. -/
def index? (name : Chars) : Option Nat :=
  if name ≠ [] ∧ (∀ c ∈ name, c.isDigit) ∧ (name.head? = some '0' → name = ['0']) then
    some (name.foldl (fun n c => 10 * n + (c.toNat - '0'.toNat)) 0) |>.filter fun n => n < 2 ^ 32 - 1
  else none

/-- `Object.keys(h)`, each key with its value -/
def entries (h : Headers) : List (Chars × Chars) :=
  (h.fields.filter fun p => (index? p.1).isSome).insertionSort
      (fun p q => (index? p.1).getD 0 ≤ (index? q.1).getD 0) ++
    h.fields.filter fun p => (index? p.1).isNone

theorem mem_entries (h : Headers) (p : Chars × Chars) : p ∈ h.entries ↔ p ∈ h.fields := by
  rw [entries, List.mem_append, List.mem_insertionSort, List.mem_filter, List.mem_filter]
  cases index? p.1 <;> simp

theorem entries_eq_nil (h : Headers) : h.entries = [] ↔ h.fields = [] := by
  rw [List.eq_nil_iff_forall_not_mem, List.eq_nil_iff_forall_not_mem]
  exact forall_congr' fun p => not_congr (h.mem_entries p)

theorem mem_set (h : Headers) {name : Chars} (hname : name ≠ protoName) (value : Chars)
    (p : Chars × Chars) :
    p ∈ (h.set name value).fields ↔ (p ∈ h.fields ∧ p.1 ≠ name) ∨ p = (name, value) := by
  unfold set
  rw [dif_neg hname]
  by_cases hmem : name ∈ h.names
  · rw [dif_pos hmem]
    obtain ⟨q, hq, hqname⟩ := List.mem_map.mp hmem
    constructor
    · intro hp
      obtain ⟨e, he, rfl⟩ := List.mem_map.mp hp
      by_cases hn : e.1 = name
      · exact .inr (if_pos hn)
      · rw [if_neg hn]
        exact .inl ⟨he, hn⟩
    · rintro (⟨hp, hn⟩ | rfl)
      · exact List.mem_map.mpr ⟨p, hp, if_neg hn⟩
      · exact List.mem_map.mpr ⟨q, hq, if_pos hqname⟩
  · rw [dif_neg hmem]
    have hne : ∀ p ∈ h.fields, p.1 ≠ name := fun p hp hn => hmem (List.mem_map.mpr ⟨p, hp, hn⟩)
    change p ∈ h.fields ++ [(name, value)] ↔ _
    rw [List.mem_append, List.mem_singleton]
    exact or_congr_left ⟨fun hp => ⟨hp, hne p hp⟩, And.left⟩

end Headers

/-! ## requests -/

structure Request where
  method : Chars
  path : Chars
  headers : Headers
  body : Option Chars

structure Reply where
  status : Nat
  text : Chars

/-- what is kept of a traced call -/
structure Entry where
  method : Chars
  path : Chars
  reqBody : Chars
  /-- absent where the call traces none -/
  headers : Option Headers
  status : Nat
  respBody : Chars
  label : Option Chars

/-- what `JSON.stringify` makes of a value: no control character stands in it -/
structure JsonText where
  text : Chars
  ne_nil : text ≠ []
  noNul : '\x00' ∉ text

variable (fetch : Request → Option Reply)

/-- the request that is handed to `fetch`, and the answer -/
def doFetch (method path raw : Chars) (headers : Headers) : Option (Request × Reply) :=
  let body := if raw ≠ [] ∧ method ≠ "GET".toList ∧ method ≠ "DELETE".toList then some raw else none
  let options : Request := ⟨method, path, headers, body⟩
  (fetch options).map fun response => (options, response)

/-- the last argument of `callJson` -/
structure Options where
  headers : Headers
  noAuth : Bool
  /-- `trace !== false` -/
  trace : Bool
  label : Option Chars

/-- `options || {}` -/
def Options.none : Options := ⟨.empty, false, true, .none⟩

def contentType : Chars := "Content-Type".toList
def applicationJson : Chars := "application/json".toList
def apiKey : Chars := "X-API-Key".toList

/-- The token of the page goes along with this call. -/
def AttachesToken (token method : Chars) (opts : Options) : Prop :=
  opts.noAuth = false ∧ token ≠ [] ∧ method ≠ "GET".toList

instance (token method : Chars) (opts : Options) : Decidable (AttachesToken token method opts) := by
  unfold AttachesToken
  infer_instance

def callHeaders (token method : Chars) (body : Option JsonText) (opts : Options) : Headers :=
  let headers := opts.headers
  let headers := if body.isSome then headers.set contentType applicationJson else headers
  if AttachesToken token method opts then headers.set apiKey token else headers

/-- the text of a body that is `undefined` or a value -/
def rawOf (body : Option JsonText) : Chars := (body.map JsonText.text).getD []

/-- the request of a call, and the entry that is traced for it -/
def callJson (token method path : Chars) (body : Option JsonText) (opts : Options) :
    Option (Request × Option Entry) :=
  let headers := callHeaders token method body opts
  let raw := rawOf body
  (doFetch fetch method path raw headers).map fun (request, result) =>
    (request, if opts.trace then
      some ⟨method, path, raw, some headers, result.status, result.text, opts.label⟩ else none)

/-! ## the command line -/

/-- `raw.replace(/'/g, "'\\''")` -/
def replaceQuotes (raw : Chars) : Chars :=
  raw.flatMap fun c => if c = '\'' then ['\'', '\\', '\'', '\''] else [c]

def buildCurl (origin method path : Chars) (headers : Option Headers) (raw : Chars) : Chars :=
  let command := "curl -X ".toList ++ method ++ " ".toList ++ origin ++ path
  let command := (headers.getD .empty).entries.foldl
    (fun command p => command ++ (" -H '".toList ++ p.1 ++ ": ".toList ++ p.2 ++ "'".toList)) command
  if raw ≠ [] then command ++ (" -d '".toList ++ replaceQuotes raw ++ "'".toList) else command

/-! ## the headers of the raw form -/

/-- the white space that `trim` takes off -/
def isSpace (c : Char) : Bool :=
  (9 ≤ c.toNat && c.toNat ≤ 13) || (0x2000 ≤ c.toNat && c.toNat ≤ 0x200A) ||
    c.toNat ∈ [0x20, 0xA0, 0x1680, 0x2028, 0x2029, 0x202F, 0x205F, 0x3000, 0xFEFF]

def trim (s : Chars) : Chars := (s.dropWhile isSpace).rdropWhile isSpace

/-- the name and the value of a trimmed line -/
def headerLine (line : Chars) : Option (Chars × Chars) :=
  match line.findIdx? fun c => c = ':' with
  | none => none
  | some 0 => none
  | some (colon + 1) => some (trim (line.take (colon + 1)), trim (line.drop (colon + 2)))

def badLine (i : Nat) (line : Chars) : Chars :=
  "bad header line ".toList ++ (toString (i + 1)).toList ++ ": ".toList ++ line

def parseLines : Nat → List Chars → Headers → Except Chars Headers
  | _, [], out => .ok out
  | i, l :: lines, out =>
    let line := trim l
    if line = [] then parseLines (i + 1) lines out
    else
      match headerLine line with
      | none => .error (badLine i line)
      | some (name, value) => parseLines (i + 1) lines (out.set name value)

def parseHeaders (text : Chars) : Except Chars Headers := parseLines 0 (text.splitOn '\n') .empty

/-- The line adds nothing to an object. -/
def AddsNothing (l : Chars) : Prop :=
  trim l = [] ∨ (headerLine (trim l)).map Prod.fst = some protoName

instance (l : Chars) : Decidable (AddsNothing l) := by unfold AddsNothing; infer_instance

theorem Headers.set_fields_eq_nil (h : Headers) (name value : Chars) :
    (h.set name value).fields = [] ↔ h.fields = [] ∧ name = protoName := by
  by_cases hname : name = protoName
  · unfold Headers.set
    rw [dif_pos hname]
    exact (and_iff_left hname).symm
  · constructor
    · intro hnil
      have hmem := (h.mem_set hname value (name, value)).mpr (.inr rfl)
      rw [hnil] at hmem
      cases hmem
    · rintro ⟨-, hproto⟩
      exact absurd hproto hname

theorem parseLines_eq_nil {i : Nat} {lines : List Chars} {out h : Headers}
    (hparse : parseLines i lines out = .ok h) :
    h.fields = [] ↔ out.fields = [] ∧ ∀ l ∈ lines, AddsNothing l := by
  induction lines generalizing i out with
  | nil =>
    obtain rfl := Except.ok.inj hparse
    simp
  | cons l lines ih =>
    rw [List.forall_mem_cons]
    simp only [parseLines] at hparse
    split at hparse
    · rename_i hblank
      rw [ih hparse]
      have hl : AddsNothing l := .inl hblank
      exact and_congr_right fun _ => (and_iff_right hl).symm
    · rename_i hblank
      split at hparse
      · cases hparse
      · rename_i name value hline
        have hl : AddsNothing l ↔ name = protoName := by
          simp [AddsNothing, hblank, hline]
        rw [ih hparse, Headers.set_fields_eq_nil, hl, and_assoc]

/-- The form names no header. -/
theorem parseHeaders_eq_nil {text : Chars} {h : Headers} (hparse : parseHeaders text = .ok h) :
    h.fields = [] ↔ ∀ l ∈ text.splitOn '\n', AddsNothing l := by
  rw [parseLines_eq_nil hparse]
  exact and_iff_right rfl

end Web
end CServer
