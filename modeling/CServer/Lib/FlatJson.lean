import CServer.Lib.CString

/-!
# Flat JSON objects of strings, as a grammar

Texts of the form `{"name":"value", ...}`: whitespace between the tokens, the five escape pairs
`\"`, `\\`, `\n`, `\r`, `\t`, every other byte but the quote and the backslash standing for itself.
The grammar is lax in two places, so that strictness is a property of a derivation:

* a `Piece.raw` may be a control byte (`Piece.Strict` excludes it);
* `Items` may close right after a comma (`Items.Strict` excludes it).

`Doc` is a derivation and `Doc.text` the text it derives.  `Doc.text_injective`: a text has at most
one derivation.  `WellFormed` is the object grammar of RFC 8259 for string members over bytes, and
`wellFormed_iff` says that it is the strict part of `Doc`.
-/

set_option linter.unusedSectionVars false
set_option linter.unusedSimpArgs false

namespace CServer
namespace FlatJson

/-! ## strings -/

inductive Escape where
  | quote
  | backslash
  | newline
  | carriage
  | tab
  deriving DecidableEq

/-- the byte after the backslash -/
def Escape.selector : Escape → Byte
  | .quote => CServer.quote
  | .backslash => CServer.backslash
  | .newline => 110
  | .carriage => 114
  | .tab => 116

/-- the byte the pair stands for -/
def Escape.value : Escape → Byte
  | .quote => CServer.quote
  | .backslash => CServer.backslash
  | .newline => lf
  | .carriage => cr
  | .tab => CServer.tab

theorem Escape.selector_inj (e e' : Escape) (h : e.selector = e'.selector) : e = e' := by
  cases e <;> cases e' <;> first | rfl | exact absurd h (by decide)

/-- One character of a string: a byte that stands for itself, or an escape pair. -/
inductive Piece where
  | raw (c : Byte) (hq : c ≠ quote) (hb : c ≠ backslash)
  | esc (e : Escape)
  deriving DecidableEq

namespace Piece

def text : Piece → Bytes
  | .raw c _ _ => [c]
  | .esc e => [backslash, e.selector]

def value : Piece → Byte
  | .raw c _ _ => c
  | .esc e => e.value

/-- a raw byte is no control byte -/
def Strict : Piece → Prop
  | .raw c _ _ => 32 ≤ c
  | .esc _ => True

instance (p : Piece) : Decidable p.Strict := by
  cases p <;> unfold Strict <;> infer_instance

end Piece

abbrev Str := List Piece

namespace Str

/-- the text between the quotes -/
def body (s : Str) : Bytes := s.flatMap Piece.text

def text (s : Str) : Bytes := quote :: (body s ++ [quote])

def value (s : Str) : Bytes := s.map Piece.value

def Strict (s : Str) : Prop := ∀ p ∈ s, p.Strict

theorem body_nil : body [] = [] := rfl
theorem body_cons (p : Piece) (s : Str) : body (p :: s) = p.text ++ body s := rfl
theorem value_nil : value [] = [] := rfl
theorem value_cons (p : Piece) (s : Str) : value (p :: s) = p.value :: value s := rfl
theorem value_length (s : Str) : (value s).length = s.length := List.length_map _

theorem text_append (s : Str) (r : Bytes) : text s ++ r = quote :: (body s ++ quote :: r) := by
  simp [text]

/-- The closing quote is found in one way only. -/
theorem body_split (s s' : Str) (r r' : Bytes)
    (h : body s ++ quote :: r = body s' ++ quote :: r') : s = s' ∧ r = r' := by
  induction s generalizing s' with
  | nil =>
    cases s' with
    | nil =>
      rw [body_nil, List.nil_append, List.nil_append] at h
      exact ⟨rfl, (List.cons.inj h).2⟩
    | cons p' s' =>
      rw [body_nil, List.nil_append, body_cons] at h
      cases p' with
      | raw c hq hb => exact absurd (List.cons.inj h).1.symm hq
      | esc e => exact absurd (List.cons.inj h).1 (by decide)
  | cons p s ih =>
    cases s' with
    | nil =>
      rw [body_nil, List.nil_append, body_cons] at h
      cases p with
      | raw c hq hb => exact absurd (List.cons.inj h).1 hq
      | esc e => exact absurd (List.cons.inj h).1 (by decide)
    | cons p' s' =>
      rw [body_cons, body_cons, List.append_assoc, List.append_assoc] at h
      cases p with
      | raw c hq hb =>
        cases p' with
        | raw c' hq' hb' =>
          obtain ⟨hc, ht⟩ := List.cons.inj h
          obtain ⟨hs, hr⟩ := ih s' ht
          subst hc
          exact ⟨by rw [hs], hr⟩
        | esc e' => exact absurd (List.cons.inj h).1 hb
      | esc e =>
        cases p' with
        | raw c' hq' hb' => exact absurd (List.cons.inj h).1.symm hb'
        | esc e' =>
          obtain ⟨he, ht⟩ := List.cons.inj (List.cons.inj h).2
          obtain ⟨hs, hr⟩ := ih s' ht
          rw [Escape.selector_inj e e' he, hs]
          exact ⟨rfl, hr⟩

theorem text_split (s s' : Str) (r r' : Bytes) (h : text s ++ r = text s' ++ r') :
    s = s' ∧ r = r' := by
  rw [text_append s, text_append s'] at h
  exact body_split s s' r r' (List.cons.inj h).2

end Str

/-! ## whitespace -/

def isWs (c : Byte) : Bool := c == space || c == tab || c == lf || c == cr

structure Ws where
  bytes : Bytes
  ok : ∀ c ∈ bytes, isWs c = true
  deriving DecidableEq

namespace Ws

def none : Ws := ⟨[], by simp⟩

@[simp] theorem none_bytes : none.bytes = [] := rfl

theorem split (w w' : Ws) (c c' : Byte) (r r' : Bytes) (hc : isWs c = false)
    (hc' : isWs c' = false) (h : w.bytes ++ c :: r = w'.bytes ++ c' :: r') :
    w = w' ∧ c = c' ∧ r = r' := by
  obtain ⟨w, hw⟩ := w
  obtain ⟨w', hw'⟩ := w'
  induction w generalizing w' with
  | nil =>
    cases w' with
    | nil => exact ⟨rfl, List.cons.inj h⟩
    | cons d w' =>
      have hd := hw' d List.mem_cons_self
      rw [← (List.cons.inj h).1, hc] at hd
      exact absurd hd (by decide)
  | cons d w ih =>
    cases w' with
    | nil =>
      have hd := hw d List.mem_cons_self
      rw [(List.cons.inj h).1, hc'] at hd
      exact absurd hd (by decide)
    | cons d' w' =>
      obtain ⟨hd, ht⟩ := List.cons.inj h
      obtain ⟨hw1, hrest⟩ := ih (fun x hx => hw x (List.mem_cons_of_mem _ hx)) w'
        (fun x hx => hw' x (List.mem_cons_of_mem _ hx)) ht
      have he : w = w' := congrArg Ws.bytes hw1
      subst hd
      subst he
      exact ⟨rfl, hrest⟩

end Ws

/-! ## members and objects -/

structure Member where
  before : Ws
  name : Str
  afterName : Ws
  beforeValue : Ws
  value : Str
  afterValue : Ws
  deriving DecidableEq

namespace Member

def text (m : Member) : Bytes :=
  m.before.bytes ++ m.name.text ++ m.afterName.bytes ++ [colon] ++ m.beforeValue.bytes
    ++ m.value.text ++ m.afterValue.bytes

def Strict (m : Member) : Prop := m.name.Strict ∧ m.value.Strict

/-- the text of a member with the byte that ends it, one token at a time -/
theorem text_append (m : Member) (r : Bytes) :
    m.text ++ r = m.before.bytes ++ quote :: (m.name.body ++ quote :: (m.afterName.bytes ++
      colon :: (m.beforeValue.bytes ++ quote :: (m.value.body ++ quote ::
        (m.afterValue.bytes ++ r))))) := by
  simp [text, Str.text]

theorem split (m m' : Member) (c c' : Byte) (r r' : Bytes) (hc : isWs c = false)
    (hc' : isWs c' = false) (h : m.text ++ c :: r = m'.text ++ c' :: r') :
    m = m' ∧ c = c' ∧ r = r' := by
  rw [text_append, text_append] at h
  obtain ⟨h1, _, h⟩ := Ws.split _ _ _ _ _ _ rfl rfl h
  obtain ⟨h2, h⟩ := Str.body_split _ _ _ _ h
  obtain ⟨h3, _, h⟩ := Ws.split _ _ _ _ _ _ rfl rfl h
  obtain ⟨h4, _, h⟩ := Ws.split _ _ _ _ _ _ rfl rfl h
  obtain ⟨h5, h⟩ := Str.body_split _ _ _ _ h
  obtain ⟨h6, hcc, hr⟩ := Ws.split _ _ _ _ _ _ hc hc' h
  refine ⟨?_, hcc, hr⟩
  cases m
  cases m'
  simp only [Member.mk.injEq]
  exact ⟨h1, h2, h3, h4, h5, h6⟩

end Member

/-- What follows an opening brace or a comma, up to and with the closing brace. -/
inductive Items where
  | close (w : Ws)
  | last (m : Member)
  | more (m : Member) (rest : Items)
  deriving DecidableEq

namespace Items

def text : Items → Bytes
  | .close w => w.bytes ++ [rbrace]
  | .last m => m.text ++ [rbrace]
  | .more m rest => m.text ++ comma :: rest.text

def members : Items → List Member
  | .close _ => []
  | .last m => [m]
  | .more m rest => m :: rest.members

/-- no comma right before the closing brace -/
def NoTrailingComma : Items → Prop
  | .close _ => True
  | .last _ => True
  | .more _ (.close _) => False
  | .more _ rest => rest.NoTrailingComma

theorem close_ne_member (w : Ws) (m : Member) (r r' : Bytes) :
    w.bytes ++ rbrace :: r ≠ m.text ++ r' := by
  intro h
  rw [Member.text_append] at h
  obtain ⟨_, hc, _⟩ := Ws.split _ _ _ _ _ _ rfl rfl h
  exact absurd hc (by decide)

theorem split (i i' : Items) (r r' : Bytes) (h : i.text ++ r = i'.text ++ r') :
    i = i' ∧ r = r' := by
  induction i generalizing i' with
  | close w =>
    cases i' with
    | close w' =>
      simp only [text, List.append_assoc, List.singleton_append] at h
      obtain ⟨hw, _, hr⟩ := Ws.split _ _ _ _ _ _ rfl rfl h
      exact ⟨by rw [hw], hr⟩
    | last m' =>
      simp only [text, List.append_assoc, List.singleton_append] at h
      exact absurd h (close_ne_member w m' _ _)
    | more m' rest' =>
      simp only [text, List.append_assoc, List.singleton_append] at h
      exact absurd h (close_ne_member w m' _ _)
  | last m =>
    cases i' with
    | close w' =>
      simp only [text, List.append_assoc, List.singleton_append] at h
      exact absurd h.symm (close_ne_member w' m _ _)
    | last m' =>
      simp only [text, List.append_assoc, List.singleton_append] at h
      obtain ⟨hm, _, hr⟩ := Member.split m m' _ _ _ _ rfl rfl h
      exact ⟨by rw [hm], hr⟩
    | more m' rest' =>
      simp only [text, List.append_assoc, List.singleton_append, List.cons_append] at h
      obtain ⟨_, hc, _⟩ := Member.split m m' _ _ _ _ rfl rfl h
      exact absurd hc (by decide)
  | more m rest ih =>
    cases i' with
    | close w' =>
      simp only [text, List.append_assoc, List.singleton_append, List.cons_append] at h
      exact absurd h.symm (close_ne_member w' m _ _)
    | last m' =>
      simp only [text, List.append_assoc, List.singleton_append, List.cons_append] at h
      obtain ⟨_, hc, _⟩ := Member.split m m' _ _ _ _ rfl rfl h
      exact absurd hc (by decide)
    | more m' rest' =>
      simp only [text, List.append_assoc, List.cons_append] at h
      obtain ⟨hm, _, ht⟩ := Member.split m m' _ _ _ _ rfl rfl h
      obtain ⟨hrest, hr⟩ := ih rest' ht
      exact ⟨by rw [hm, hrest], hr⟩

end Items

/-- A derivation of a whole text. -/
structure Doc where
  lead : Ws
  items : Items
  trail : Ws
  deriving DecidableEq

namespace Doc

def text (d : Doc) : Bytes := d.lead.bytes ++ lbrace :: (d.items.text ++ d.trail.bytes)

def members (d : Doc) : List Member := d.items.members

/-- no control byte stands for itself and no comma precedes the closing brace -/
def Strict (d : Doc) : Prop := (∀ m ∈ d.members, m.Strict) ∧ d.items.NoTrailingComma

/-- **A text has at most one derivation.** -/
theorem text_injective (d d' : Doc) (h : d.text = d'.text) : d = d' := by
  obtain ⟨h1, _, h⟩ := Ws.split _ _ _ _ _ _ rfl rfl h
  obtain ⟨h2, h3⟩ := Items.split _ _ _ _ h
  obtain ⟨l, i, t⟩ := d
  obtain ⟨l', i', t'⟩ := d'
  have ht : t = t' := by
    cases t
    cases t'
    cases h3
    rfl
  subst ht
  rw [Doc.mk.injEq]
  exact ⟨h1, h2, rfl⟩

end Doc

/-! ## the object grammar -/

/-- members separated by single commas -/
def joined (ms : List Member) : Bytes := List.intercalate [comma] (ms.map Member.text)

/-- A JSON object of string members in the grammar of RFC 8259, over bytes: `ws { ws } ws`, or
members separated by single commas between the braces; a string holds no byte below 0x20 and no
escape but the five pairs. -/
def WellFormed (body : Bytes) : Prop :=
  ∃ lead inner trail : Ws, ∃ ms : List Member, (∀ m ∈ ms, m.Strict) ∧
    body = lead.bytes ++ [lbrace] ++ (if ms = [] then inner.bytes else joined ms) ++ [rbrace]
      ++ trail.bytes

/-- the items of a non-empty member list without a trailing comma -/
def Items.ofList (m : Member) : List Member → Items
  | [] => .last m
  | m' :: ms => .more m (Items.ofList m' ms)

theorem Items.ofList_members (m : Member) (ms : List Member) :
    (Items.ofList m ms).members = m :: ms := by
  induction ms generalizing m with
  | nil => rfl
  | cons m' ms ih =>
    show m :: (Items.ofList m' ms).members = _
    rw [ih]

theorem joined_cons (m m' : Member) (ms : List Member) :
    joined (m :: m' :: ms) = m.text ++ comma :: joined (m' :: ms) := by
  simp [joined, List.intercalate]

theorem Items.ofList_text (m : Member) (ms : List Member) :
    (Items.ofList m ms).text = joined (m :: ms) ++ [rbrace] := by
  induction ms generalizing m with
  | nil => simp [Items.ofList, Items.text, joined, List.intercalate]
  | cons m' ms ih =>
    show m.text ++ comma :: (Items.ofList m' ms).text = _
    rw [ih, joined_cons, List.append_assoc, List.cons_append]

theorem Items.ofList_noTrailingComma (m : Member) (ms : List Member) :
    (Items.ofList m ms).NoTrailingComma := by
  induction ms generalizing m with
  | nil => trivial
  | cons m' ms ih =>
    cases ms with
    | nil => trivial
    | cons m'' ms => exact ih m'

/-- items without a trailing comma are an empty object or a joined list -/
theorem Items.eq_ofList (i : Items) (h : i.NoTrailingComma) :
    (∃ w, i = .close w) ∨ ∃ m ms, i = Items.ofList m ms := by
  induction i with
  | close w => exact .inl ⟨w, rfl⟩
  | last m => exact .inr ⟨m, [], rfl⟩
  | more m rest ih =>
    cases rest with
    | close w => exact False.elim h
    | last m' => exact .inr ⟨m, [m'], rfl⟩
    | more m' rest' =>
      rcases ih h with ⟨w, hw⟩ | ⟨n, ms, hms⟩
      · exact absurd hw (by simp)
      · exact .inr ⟨m, n :: ms, by rw [hms]; rfl⟩

/-- **The well-formed objects are the texts of the strict derivations.** -/
theorem wellFormed_iff (body : Bytes) : WellFormed body ↔ ∃ d : Doc, d.Strict ∧ d.text = body := by
  constructor
  · rintro ⟨lead, inner, trail, ms, hms, hbody⟩
    cases ms with
    | nil =>
      refine ⟨⟨lead, .close inner, trail⟩, ⟨fun m hm => absurd hm (by simp [Doc.members, Items.members]), trivial⟩, ?_⟩
      rw [hbody]
      simp [Doc.text, Items.text]
    | cons m ms =>
      refine ⟨⟨lead, Items.ofList m ms, trail⟩, ⟨?_, Items.ofList_noTrailingComma m ms⟩, ?_⟩
      · show ∀ x ∈ (Items.ofList m ms).members, x.Strict
        rw [Items.ofList_members]
        exact hms
      · rw [hbody]
        simp [Doc.text, Items.ofList_text]
  · rintro ⟨⟨lead, i, trail⟩, ⟨hms, hc⟩, hbody⟩
    rcases Items.eq_ofList i hc with ⟨w, rfl⟩ | ⟨m, ms, rfl⟩
    · refine ⟨lead, w, trail, [], by simp, ?_⟩
      rw [← hbody]
      simp [Doc.text, Items.text]
    · refine ⟨lead, Ws.none, trail, m :: ms, ?_, ?_⟩
      · have hms' : ∀ x ∈ (Items.ofList m ms).members, x.Strict := hms
        rw [Items.ofList_members] at hms'
        exact hms'
      · rw [← hbody]
        simp [Doc.text, Items.ofList_text]

end FlatJson
end CServer
