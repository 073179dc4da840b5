import CServer.Lib.CScan
import CServer.Lib.JsonText

/-!
# HTTP/1.1 messages

A message is a start line, field lines and a body, each line with CR LF at its end and an empty line
in front of the body.

* `Message.text`        the bytes of a message;
* `readMessage`         a reader of messages: the body has the length that the fields announce;
* `readMessage_text`    **the reader reads every well-formed message back**, and leaves what is behind it;
* `Message.text_inj`    so a stream begins with one well-formed message at most.
-/

set_option linter.unusedVariables false

namespace CServer
namespace Http11

/-- CR LF -/
def lineEnd : Bytes := [cr, lf]

/-- no byte of a line end inside -/
def Inline (line : Bytes) : Prop := cr ∉ line ∧ lf ∉ line

instance (line : Bytes) : Decidable (Inline line) := by unfold Inline; infer_instance

/-- a blank, a tab -/
def isOws (c : Byte) : Bool := c == space || c == tab

/-- without the blanks at both ends -/
def trimOws (s : Bytes) : Bytes := (s.dropWhile isOws).rdropWhile isOws

structure HeaderField where
  name : Bytes
  value : Bytes
  deriving DecidableEq

namespace HeaderField

def line (f : HeaderField) : Bytes := f.name ++ colon :: space :: f.value

/-- the name, whatever the case of its letters -/
def named (name : Bytes) (f : HeaderField) : Bool := f.name.map toLower == name

@[simp] theorem named_mk (name n v : Bytes) :
    named name ⟨n, v⟩ = (n.map toLower == name) := rfl

structure WF (f : HeaderField) : Prop where
  name_ne : f.name ≠ []
  noColon : colon ∉ f.name
  name : Inline f.name
  value : Inline f.value
  head : ∀ c, f.value.head? = some c → isOws c = false
  last : ∀ c, f.value.getLast? = some c → isOws c = false

end HeaderField

/-- the values of the fields of a name, in their order -/
def fieldValues (name : Bytes) (fields : List HeaderField) : List Bytes :=
  (fields.filter (HeaderField.named name)).map HeaderField.value

def CONTENT_LENGTH : Bytes := ascii "content-length"

/-- The announced length: Content-Length fields that do not agree announce none. -/
def announced (fields : List HeaderField) : Option Nat :=
  match fieldValues CONTENT_LENGTH fields with
  | [] => some 0
  | v :: vs =>
    if v ≠ [] ∧ (∀ c ∈ v, isDigit c = true) ∧ ∀ w ∈ vs, w = v then some (digitsValue v) else none

structure Message where
  start : Bytes
  fields : List HeaderField
  body : Bytes
  deriving DecidableEq

namespace Message

/-- what stands in front of the empty line -/
def block (m : Message) : Bytes := m.start ++ m.fields.flatMap fun f => lineEnd ++ f.line

def text (m : Message) : Bytes := m.block ++ (lineEnd ++ lineEnd ++ m.body)

/-- Every length field of it is the length of the body, and without one there is no body. -/
structure WF (m : Message) : Prop where
  start : Inline m.start
  fields : ∀ f ∈ m.fields, f.WF
  sized : ∀ v ∈ fieldValues CONTENT_LENGTH m.fields, v = digits m.body.length
  unsized : fieldValues CONTENT_LENGTH m.fields = [] → m.body = []

end Message

/-! ## the reader -/

/-- the bytes in front of the first line end, and those behind it -/
def splitLine : Bytes → Option (Bytes × Bytes)
  | [] => none
  | c :: s =>
    if c = cr ∧ s.head? = some lf then some ([], s.tail)
    else (splitLine s).map fun p => (c :: p.1, p.2)

def readField (line : Bytes) : Option HeaderField :=
  match line.dropWhile fun c => c != colon with
  | [] => none
  | _ :: value =>
    let name := line.takeWhile fun c => c != colon
    if name = [] then none else some ⟨name, trimOws value⟩

theorem splitLine_shorter (s line rest : Bytes) (h : splitLine s = some (line, rest)) :
    rest.length < s.length := by
  induction s generalizing line with
  | nil => cases h
  | cons c s ih =>
    rw [splitLine] at h
    by_cases hend : c = cr ∧ s.head? = some lf
    · rw [if_pos hend] at h
      cases h
      rw [List.length_tail, List.length_cons]
      omega
    · rw [if_neg hend] at h
      obtain ⟨⟨line', rest'⟩, hs, he⟩ := Option.map_eq_some_iff.mp h
      cases he
      exact Nat.lt_succ_of_lt (ih line' hs)

/-- the fields up to the empty line, and what is behind it -/
def readFields (s : Bytes) : Option (List HeaderField × Bytes) :=
  match h : splitLine s with
  | none => none
  | some (line, rest) =>
    if line = [] then some ([], rest)
    else
      match readField line, readFields rest with
      | some f, some (fields, rest) => some (f :: fields, rest)
      | _, _ => none
termination_by s.length
decreasing_by exact splitLine_shorter s line rest h

/-- a message at the front of a stream, and the rest -/
def readMessage (s : Bytes) : Option (Message × Bytes) :=
  match splitLine s with
  | none => none
  | some (start, s) =>
    match readFields s with
    | none => none
    | some (fields, s) =>
      match announced fields with
      | none => none
      | some n => if n ≤ s.length then some (⟨start, fields, s.take n⟩, s.drop n) else none

/-! ## lines -/

theorem splitLine_line (line rest : Bytes) (h : Inline line) :
    splitLine (line ++ (lineEnd ++ rest)) = some (line, rest) := by
  induction line with
  | nil => rfl
  | cons c line ih =>
    obtain ⟨hcr, hlf⟩ := h
    rw [List.mem_cons, not_or] at hcr hlf
    rw [List.cons_append, splitLine, if_neg fun he => hcr.1 he.1.symm, ih ⟨hcr.2, hlf.2⟩]
    rfl

theorem trimOws_value {value : Bytes} (hhead : ∀ c, value.head? = some c → isOws c = false)
    (hlast : ∀ c, value.getLast? = some c → isOws c = false) :
    trimOws (space :: value) = value := by
  have hdrop : (space :: value).dropWhile isOws = value := by
    rw [List.dropWhile_cons_of_pos (by decide)]
    cases value with
    | nil => rfl
    | cons c value =>
      rw [List.dropWhile_cons_of_neg]
      rw [hhead c rfl]
      decide
  unfold trimOws
  rw [hdrop]
  rcases List.eq_nil_or_concat value with rfl | ⟨init, c, rfl⟩
  · rfl
  · rw [List.concat_eq_append] at hlast ⊢
    rw [List.rdropWhile_concat_neg]
    rw [hlast c List.getLast?_concat]
    decide

theorem takeWhile_name (name rest : Bytes) (h : colon ∉ name) :
    (name ++ colon :: rest).takeWhile (fun c => c != colon) = name ∧
      (name ++ colon :: rest).dropWhile (fun c => c != colon) = colon :: rest := by
  have hname : ∀ c ∈ name, (c != colon) = true := fun c hc => bne_iff_ne.mpr fun he => h (he ▸ hc)
  have hstop : ∀ c, (colon :: rest).head? = some c → (c != colon) = false := by
    intro c hc
    cases hc
    rfl
  exact ⟨takeWhile_run _ _ _ hname hstop, dropWhile_run _ _ _ hname hstop⟩

theorem HeaderField.WF.inline {f : HeaderField} (h : f.WF) : Inline f.line := by
  have hmid : ∀ c : Byte, c ∉ f.name → c ∉ f.value → c ≠ colon → c ≠ space → c ∉ f.line := by
    intro c hn hv hc hs hmem
    rcases List.mem_append.mp hmem with hmem | hmem
    · exact hn hmem
    · rcases List.mem_cons.mp hmem with hmem | hmem
      · exact hc hmem
      · rcases List.mem_cons.mp hmem with hmem | hmem
        · exact hs hmem
        · exact hv hmem
  exact ⟨hmid cr h.name.1 h.value.1 (by decide) (by decide),
    hmid lf h.name.2 h.value.2 (by decide) (by decide)⟩

theorem HeaderField.line_ne_nil (f : HeaderField) : f.line ≠ [] :=
  List.append_ne_nil_of_right_ne_nil _ (List.cons_ne_nil _ _)

theorem readField_line {f : HeaderField} (h : f.WF) : readField f.line = some f := by
  obtain ⟨htake, hdrop⟩ := takeWhile_name f.name (space :: f.value) h.noColon
  unfold readField
  rw [show f.line = f.name ++ colon :: space :: f.value from rfl, hdrop]
  simp only
  rw [htake, if_neg h.name_ne, trimOws_value h.head h.last]

/-! ## messages -/

theorem readFields_stop (rest : Bytes) : readFields (lineEnd ++ rest) = some ([], rest) := by
  have hs : splitLine (lineEnd ++ rest) = some ([], rest) := rfl
  rw [readFields]
  split
  · rename_i h
    rw [hs] at h
    cases h
  · rename_i h
    rw [hs] at h
    cases h
    exact if_pos rfl

theorem readFields_next {f : HeaderField} (hf : f.WF) (s : Bytes) :
    readFields (f.line ++ (lineEnd ++ s)) =
      (readFields s).map fun p => (f :: p.1, p.2) := by
  have hs := splitLine_line f.line s hf.inline
  rw [readFields]
  split
  · rename_i h
    rw [hs] at h
    cases h
  · rename_i h
    rw [hs] at h
    cases h
    rw [if_neg f.line_ne_nil, readField_line hf]
    cases readFields s with
    | none => rfl
    | some p => rfl

/-- the fields, each with its line end in front, and the empty line -/
theorem readFields_fields (fields : List HeaderField) (h : ∀ f ∈ fields, f.WF) (rest : Bytes) :
    ∃ s, (fields.flatMap fun f => lineEnd ++ f.line) ++ (lineEnd ++ lineEnd ++ rest) = lineEnd ++ s ∧
      readFields s = some (fields, rest) := by
  induction fields with
  | nil => exact ⟨lineEnd ++ rest, by rw [List.flatMap_nil, List.nil_append, List.append_assoc],
      readFields_stop rest⟩
  | cons f fields ih =>
    obtain ⟨s, hs, hread⟩ := ih fun g hg => h g (List.mem_cons_of_mem _ hg)
    refine ⟨f.line ++ (lineEnd ++ s), ?_, ?_⟩
    · rw [List.flatMap_cons, List.append_assoc, hs, List.append_assoc]
    · rw [readFields_next (h f List.mem_cons_self), hread]
      rfl

theorem Message.WF.announced {m : Message} (h : m.WF) : announced m.fields = some m.body.length := by
  unfold Http11.announced
  cases hvalues : fieldValues CONTENT_LENGTH m.fields with
  | nil =>
    rw [h.unsized hvalues]
    rfl
  | cons v vs =>
    have hall := h.sized
    rw [hvalues] at hall
    have hv := hall v List.mem_cons_self
    obtain ⟨hdigits, hvalue, hne, _⟩ := digits_spec m.body.length
    subst hv
    simp only
    rw [if_pos ⟨hne, hdigits, fun w hw => hall w (List.mem_cons_of_mem _ hw)⟩, hvalue]

/-- **A message is read back**, and what follows it is left. -/
theorem readMessage_text (m : Message) (h : m.WF) (rest : Bytes) :
    readMessage (m.text ++ rest) = some (m, rest) := by
  obtain ⟨s, hs, hread⟩ := readFields_fields m.fields h.fields (m.body ++ rest)
  have htext : m.text ++ rest = m.start ++ (lineEnd ++ s) := by
    rw [← hs]
    simp only [Message.text, Message.block, List.append_assoc]
  unfold readMessage
  rw [htext, splitLine_line m.start s h.start]
  simp only
  rw [hread]
  simp only
  rw [h.announced]
  simp only
  rw [if_pos (by rw [List.length_append]; omega), List.take_left, List.drop_left]

/-- **A stream begins with one well-formed message at most.** -/
theorem Message.text_inj (m m' : Message) (h : m.WF) (h' : m'.WF) (rest rest' : Bytes)
    (htext : m.text ++ rest = m'.text ++ rest') : m = m' ∧ rest = rest' := by
  have hread := readMessage_text m h rest
  rw [htext, readMessage_text m' h' rest'] at hread
  cases hread
  exact ⟨rfl, rfl⟩

end Http11
end CServer
