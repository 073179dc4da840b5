import CServer.Api.KvMap
import CServer.Lib.JsonObject
import CServer.Lib.Utf8

/-!
# The same texts on the page and in the server

The page writes JSON with `JSON.stringify`, the server with `json_escape`; the page writes characters,
the server bytes.

* `Carried`              a character that both escape in one way;
* `utf8_escaped`         then the bytes of the page's text are the server's text of the bytes;
* `utf8_putText`, `utf8_kvText`   the body of a PUT, and the answer with a key and a value;
* `escapesOk`            the backslashes of a text are those of the server's escapes;
* `putText_rejected`     any other character leaves a text that the server does not read.
-/

namespace CServer
namespace Web
open JsonObject FlatJson

/-! ## characters that are carried -/

/-- the characters that `json_escape` takes -/
def Carried (c : Char) : Prop := 0x20 ≤ c.toNat ∨ c = '\n' ∨ c = '\r' ∨ c = '\t'

instance (c : Char) : Decidable (Carried c) := by unfold Carried; infer_instance

theorem escSeq_high (b : Byte) (h : 128 ≤ b) : escSeq b = [b] := by
  have hall : ∀ b : Byte, 128 ≤ b → escSeq b = [b] := by
    intro b
    obtain ⟨⟨b⟩⟩ := b
    revert b
    decide +kernel
  exact hall b h

theorem escapeText_high (s : Bytes) (h : ∀ b ∈ s, 128 ≤ b) : escapeText s = s := by
  induction s with
  | nil => rfl
  | cons b s ih =>
    rw [escapeText_cons, escSeq_high b (h b List.mem_cons_self),
      ih fun d hd => h d (List.mem_cons_of_mem _ hd)]
    rfl

theorem utf8_singleton (c : Char) : utf8 [c] = String.utf8EncodeChar c := List.append_nil _

/-- **One character: the page escapes it to the bytes that the server escapes its bytes to.** -/
theorem utf8_escapeChar (c : Char) (h : Carried c) :
    utf8 (escapeChar c) = escapeText (String.utf8EncodeChar c) := by
  by_cases hhigh : 128 ≤ c.toNat
  · have hplain : shortEscape c = none := by
      unfold shortEscape
      have hne : ∀ d : Char, d.toNat < 128 → c ≠ d := fun d hd he => by
        rw [he] at hhigh
        omega
      rw [if_neg (hne _ (by decide)), if_neg (hne _ (by decide)), if_neg (hne _ (by decide)),
        if_neg (hne _ (by decide)), if_neg (hne _ (by decide)), if_neg (hne _ (by decide)),
        if_neg (hne _ (by decide))]
    unfold escapeChar
    rw [hplain]
    simp only
    rw [if_neg (by omega), escapeText_high _ (utf8EncodeChar_high c hhigh), utf8_singleton]
  · have hall : ∀ n < 128, Carried (Char.ofNat n) →
        utf8 (escapeChar (Char.ofNat n)) = escapeText [UInt8.ofNat n] := by
      decide
    have hc := hall c.toNat (by omega)
    rw [Char.ofNat_toNat] at hc
    rw [utf8EncodeChar_ascii c (by omega)]
    exact hc h

theorem utf8_escaped (s : List Char) (h : ∀ c ∈ s, Carried c) :
    utf8 (escaped s) = escapeText (utf8 s) := by
  induction s with
  | nil => rfl
  | cons c s ih =>
    have happend : ∀ a b : Bytes, escapeText (a ++ b) = escapeText a ++ escapeText b := fun _ _ =>
      List.flatMap_append
    show utf8 (escapeChar c ++ escaped s) = _
    rw [utf8_append, utf8_cons, happend, utf8_escapeChar c (h c List.mem_cons_self),
      ih fun d hd => h d (List.mem_cons_of_mem _ hd)]

theorem cleanByte_carried (c : Char) (h : Carried c) : Clean (String.utf8EncodeChar c) := by
  by_cases hhigh : 128 ≤ c.toNat
  · intro b hb
    exact .inl (UInt8.le_trans (by decide) (utf8EncodeChar_high c hhigh b hb))
  · have hall : ∀ n < 128, Carried (Char.ofNat n) → CleanByte (UInt8.ofNat n) := by decide
    have hc := hall c.toNat (by omega)
    rw [Char.ofNat_toNat] at hc
    rw [utf8EncodeChar_ascii c (by omega)]
    exact List.forall_mem_singleton.mpr (hc h)

theorem clean_utf8 (s : List Char) (h : ∀ c ∈ s, Carried c) : Clean (utf8 s) := by
  intro b hb
  obtain ⟨c, hc, hmem⟩ := List.mem_flatMap.mp hb
  exact cleanByte_carried c (h c hc) b hmem

theorem carried_ne_nul {s : List Char} (h : ∀ c ∈ s, Carried c) : '\x00' ∉ s := fun h0 =>
  absurd (h _ h0) (by decide)

/-! ## texts that are carried -/

def keyName : List Char := ['k', 'e', 'y']
def valueName : List Char := ['v', 'a', 'l', 'u', 'e']

/-- `JSON.stringify({ value })` -/
def putText (value : List Char) : List Char := compact.text [(valueName, value)]

/-- an object with the key and the value -/
def kvText (key value : List Char) : List Char := compact.text [(keyName, key), (valueName, value)]

theorem putText_eq (value : List Char) :
    putText value =
      ['\x7b', '"', 'v', 'a', 'l', 'u', 'e', '"', ':', '"'] ++ (escaped value ++ ['"', '\x7d']) := by
  show '\x7b' :: (compact.member (valueName, value) ++ ['\x7d']) = _
  have hmember : compact.member (valueName, value) =
      ['"', 'v', 'a', 'l', 'u', 'e', '"', ':', '"'] ++ (escaped value ++ ['"']) := rfl
  rw [hmember, List.append_assoc, List.append_assoc]
  rfl

theorem kvText_eq (key value : List Char) :
    kvText key value = ['\x7b', '"', 'k', 'e', 'y', '"', ':', '"'] ++ (escaped key ++
      (['"', ',', '"', 'v', 'a', 'l', 'u', 'e', '"', ':', '"'] ++ (escaped value ++ ['"', '\x7d']))) := by
  show '\x7b' :: (compact.member (keyName, key) ++
    ',' :: (compact.member (valueName, value) ++ ['\x7d'])) = _
  have hkey : compact.member (keyName, key) =
      ['"', 'k', 'e', 'y', '"', ':', '"'] ++ (escaped key ++ ['"']) := rfl
  have hvalue : compact.member (valueName, value) =
      ['"', 'v', 'a', 'l', 'u', 'e', '"', ':', '"'] ++ (escaped value ++ ['"']) := rfl
  rw [hkey, hvalue]
  simp only [List.append_assoc, List.cons_append, List.nil_append]

/-- **The body that the page sends is the one that the server reads as the value.** -/
theorem utf8_putText (value : List Char) (h : ∀ c ∈ value, Carried c) (v : CStr)
    (hv : v.bytes = utf8 value) :
    utf8 (putText value) = putBody v := by
  rw [putText_eq, utf8_append, utf8_append, utf8_escaped value h]
  unfold putBody
  rw [hv, List.append_assoc]
  rfl

/-- **The answer with a key and a value is the page's text of them.** -/
theorem utf8_kvText (key value : List Char) (hk : ∀ c ∈ key, Carried c) (hv : ∀ c ∈ value, Carried c) :
    utf8 (kvText key value) = kvItem (escapeText (utf8 key)) (escapeText (utf8 value)) := by
  rw [kvText_eq, utf8_append, utf8_append, utf8_append, utf8_append, utf8_escaped key hk,
    utf8_escaped value hv]
  unfold kvItem
  rw [List.append_assoc, List.append_assoc, List.append_assoc]
  rfl

/-! ## texts that are not -/

/-- the bytes behind a backslash in the server's grammar -/
def isSelector (b : Byte) : Bool := b = quote || b = backslash || b = 110 || b = 114 || b = 116

/-- every backslash begins an escape pair of the server's grammar -/
def escapesOk : Bytes → Bool
  | [] => true
  | [c] => c != backslash
  | c :: d :: s => if c = backslash then isSelector d && escapesOk s else escapesOk (d :: s)

theorem escapesOk_cons (c : Byte) (s : Bytes) (h : c ≠ backslash) : escapesOk (c :: s) = escapesOk s := by
  cases s with
  | nil => exact bne_iff_ne.mpr h
  | cons d s => rw [escapesOk, if_neg h]

/-- the backslashes behind the text do not see it -/
def Closed (t : Bytes) : Prop := ∀ s, escapesOk (t ++ s) = escapesOk s

theorem Closed.append {t u : Bytes} (ht : Closed t) (hu : Closed u) : Closed (t ++ u) := fun s => by
  rw [List.append_assoc, ht, hu]

theorem Closed.plain {t : Bytes} (h : backslash ∉ t) : Closed t := by
  induction t with
  | nil => exact fun _ => rfl
  | cons c t ih =>
    intro s
    rw [List.mem_cons, not_or] at h
    rw [List.cons_append, escapesOk_cons c _ (Ne.symm h.1), ih h.2]

theorem Closed.pair (e : Escape) : Closed [backslash, e.selector] := by
  intro s
  have hselector : isSelector e.selector = true := by cases e <;> rfl
  show (if backslash = backslash then isSelector e.selector && escapesOk s else _) = _
  rw [if_pos rfl, hselector, Bool.true_and]

theorem Closed.piece (p : Piece) : Closed p.text := by
  cases p with
  | raw c hq hb => exact Closed.plain fun h => hb (List.mem_singleton.mp h).symm
  | esc e => exact Closed.pair e

theorem Closed.str (s : Str) : Closed (Str.text s) := by
  have hbody : Closed (Str.body s) := by
    induction s with
    | nil => exact fun _ => rfl
    | cons p s ih =>
      rw [Str.body_cons]
      exact (Closed.piece p).append ih
  exact (Closed.plain (t := [quote]) (by decide)).append (hbody.append (Closed.plain (by decide)))

theorem Closed.ws (w : Ws) : Closed w.bytes :=
  Closed.plain fun h => absurd (w.ok _ h) (by decide)

theorem Closed.member (m : Member) : Closed m.text := by
  unfold Member.text
  exact ((((((Closed.ws _).append (Closed.str _)).append (Closed.ws _)).append
    (Closed.plain (by decide))).append (Closed.ws _)).append (Closed.str _)).append (Closed.ws _)

theorem Closed.items (i : Items) : Closed i.text := by
  induction i with
  | close w => exact (Closed.ws w).append (Closed.plain (by decide))
  | last m => exact (Closed.member m).append (Closed.plain (by decide))
  | more m rest ih =>
    exact (Closed.member m).append ((Closed.plain (t := [comma]) (by decide)).append ih)

/-- **A text of the server's grammar has no other escapes.** -/
theorem escapesOk_doc (d : Doc) : escapesOk d.text = true := by
  have hclosed : Closed d.text :=
    (Closed.ws d.lead).append ((Closed.plain (t := [lbrace]) (by decide)).append
      ((Closed.items d.items).append (Closed.ws d.trail)))
  have h := hclosed []
  rw [List.append_nil] at h
  exact h.trans rfl

/-- the escape of a character that is not carried -/
theorem escapesOk_escapeChar (c : Char) (h : ¬ Carried c) (s : Bytes) :
    escapesOk (utf8 (escapeChar c) ++ s) = false := by
  have hlow : c.toNat < 0x20 := by
    by_contra hle
    exact h (.inl (by omega))
  have hall : ∀ n < 0x20, ¬ Carried (Char.ofNat n) →
      (utf8 (escapeChar (Char.ofNat n))).take 1 = [backslash] ∧
        ∃ b ∈ ([98, 102, 117] : Bytes), ((utf8 (escapeChar (Char.ofNat n))).drop 1).head? = some b := by
    decide
  have hc := hall c.toNat hlow
  rw [Char.ofNat_toNat] at hc
  obtain ⟨hfirst, b, hmem, hsecond⟩ := hc h
  have hselector : ∀ b ∈ ([98, 102, 117] : Bytes), isSelector b = false := by decide +kernel
  have hb := hselector b hmem
  obtain ⟨rest, hdrop⟩ := List.head?_eq_some_iff.mp hsecond
  have hsplit := List.take_append_drop 1 (utf8 (escapeChar c))
  rw [hfirst, hdrop] at hsplit
  rw [← hsplit]
  show (if backslash = backslash then isSelector b && escapesOk (rest ++ s) else _) = _
  rw [if_pos rfl, hb, Bool.false_and]

theorem closed_escapeText (t : Bytes) : Closed (escapeText t) := by
  induction t with
  | nil => exact fun _ => rfl
  | cons b t ih =>
    have hone : Closed (escSeq b) := by
      unfold escSeq
      split_ifs with h1 h2
      · exact Closed.pair .quote
      · exact Closed.pair .backslash
      · exact Closed.pair .newline
      · exact Closed.pair .carriage
      · exact Closed.pair .tab
      · exact Closed.plain fun h => h2 (List.mem_singleton.mp h).symm
    exact hone.append ih

theorem escapesOk_escaped (value : List Char) (h : ¬ ∀ c ∈ value, Carried c) (s : Bytes) :
    escapesOk (utf8 (escaped value) ++ s) = false := by
  induction value with
  | nil => exact absurd (fun c hc => absurd hc List.not_mem_nil) h
  | cons c value ih =>
    show escapesOk (utf8 (escapeChar c ++ escaped value) ++ s) = _
    rw [utf8_append, List.append_assoc]
    by_cases hc : Carried c
    · rw [utf8_escapeChar c hc, closed_escapeText]
      exact ih fun hall => h (List.forall_mem_cons.mpr ⟨hc, hall⟩)
    · exact escapesOk_escapeChar c hc _

/-- **A value with any other character leaves a body that the server does not read.** -/
theorem putText_rejected (value : List Char) (h : ¬ ∀ c ∈ value, Carried c) (req : HttpRequest)
    (hbody : req.body = some (utf8 (putText value))) (out : CStr) : ¬ PutInput req out := by
  intro hp
  obtain ⟨body, hb, d, hd, _⟩ := hp.reads
  rw [hbody] at hb
  cases hb
  have hok := escapesOk_doc d
  rw [hd, putText_eq, utf8_append, utf8_append] at hok
  have hfront : Closed (utf8 ['\x7b', '"', 'v', 'a', 'l', 'u', 'e', '"', ':', '"']) :=
    Closed.plain (by decide)
  rw [hfront, escapesOk_escaped value h] at hok
  cases hok

end Web
end CServer
