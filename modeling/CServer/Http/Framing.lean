import CServer.Http.Wire
import CServer.Lib.HttpMessage

/-!
# A response as its client reads it

* `Response.message`      the message that a response is;
* `Response.wire_message` its bytes are the text of that message;
* `readMessage_wire`      **a client reads the status, the fields and the body back.**
-/

namespace CServer
open Http11

/-- a field value that a line carries as it is -/
structure FieldText (v : Bytes) : Prop where
  inline : Inline v
  head : ∀ c, v.head? = some c → isOws c = false
  last : ∀ c, v.getLast? = some c → isOws c = false

def allowFields : Option Bytes → List HeaderField
  | some allow => [⟨ascii "Allow", allow⟩]
  | none => []

def Response.message (r : Response) : Message where
  start := statusLine r
  fields := [⟨ascii "Content-Type", r.contentType⟩, ⟨ascii "Content-Length", digits r.body.length⟩] ++
    allowFields r.allow ++ [⟨ascii "Connection", ascii "close"⟩]
  body := r.body

/-- the status of a status line: the number behind the first blank -/
def readStatus (start : Bytes) : Nat :=
  digitsValue (((start.dropWhile fun c => c != space).drop 1).takeWhile isDigit)

/-- The content type and the Allow list are field values. -/
structure Response.Plain (r : Response) : Prop where
  contentType : FieldText r.contentType
  allow : ∀ a, r.allow = some a → FieldText a

theorem Response.wire_message (r : Response) : r.wire = r.message.text := by
  have h1 : ascii "\r\nContent-Type: " = lineEnd ++ (ascii "Content-Type" ++ [colon, space]) := by decide
  have h2 : ascii "\r\nContent-Length: " = lineEnd ++ (ascii "Content-Length" ++ [colon, space]) := by
    decide
  have h3 : ascii "\r\nAllow: " = lineEnd ++ (ascii "Allow" ++ [colon, space]) := by decide
  have h4 : ascii "\r\nConnection: close\r\n\r\n" =
      lineEnd ++ (ascii "Connection" ++ (colon :: space :: ascii "close")) ++ (lineEnd ++ lineEnd) := by
    decide
  unfold Response.wire responseHeader Response.message Message.text Message.block
  rw [h1, h2, h4]
  cases r.allow with
  | none => simp [allowFields, statusLine, HeaderField.line]
  | some allow => simp [allowFields, statusLine, HeaderField.line, h3]

/-! ## the fields -/

theorem inline_digits (n : Nat) : Inline (digits n) := digits_oneLine n

theorem isDigit_not_ows (c : Byte) (h : isDigit c = true) : isOws c = false := by
  rcases Bool.eq_false_or_eq_true (isOws c) with hows | hows
  · rcases Bool.or_eq_true_iff.mp hows with hc | hc
    · rw [beq_iff_eq.mp hc] at h
      exact absurd h (by decide)
    · rw [beq_iff_eq.mp hc] at h
      exact absurd h (by decide)
  · exact hows

theorem fieldText_digits (n : Nat) : FieldText (digits n) := by
  have hdigits := (digits_spec n).1
  exact ⟨inline_digits n, fun c hc => isDigit_not_ows c (hdigits c (List.mem_of_head? hc)),
    fun c hc => isDigit_not_ows c (hdigits c (List.mem_of_getLast? hc))⟩

theorem fieldText_close : FieldText (ascii "close") := by
  refine ⟨by decide, fun c hc => ?_, fun c hc => ?_⟩
  · cases hc
    decide
  · cases hc
    decide

theorem FieldText.field {v : Bytes} (h : FieldText v) (name : Bytes) (hne : name ≠ [])
    (hcolon : colon ∉ name) (hname : Inline name) : HeaderField.WF ⟨name, v⟩ :=
  ⟨hne, hcolon, hname, h.inline, h.head, h.last⟩

theorem Response.message_fields (r : Response) (h : r.Plain) : ∀ f ∈ r.message.fields, f.WF := by
  intro f hf
  rcases List.mem_append.mp hf with hf | hf
  · rcases List.mem_append.mp hf with hf | hf
    · rcases List.mem_cons.mp hf with rfl | hf
      · exact h.contentType.field _ (by decide) (by decide) (by decide)
      · rw [List.mem_singleton.mp hf]
        exact (fieldText_digits _).field _ (by decide) (by decide) (by decide)
    · cases hallow : r.allow with
      | none =>
        rw [hallow] at hf
        cases hf
      | some a =>
        rw [hallow] at hf
        rw [List.mem_singleton.mp hf]
        exact (h.allow a hallow).field _ (by decide) (by decide) (by decide)
  · rw [List.mem_singleton.mp hf]
    exact fieldText_close.field _ (by decide) (by decide) (by decide)

/-- one Content-Length field -/
theorem Response.message_length (r : Response) :
    fieldValues CONTENT_LENGTH r.message.fields = [digits r.body.length] := by
  have hallow : (allowFields r.allow).filter (HeaderField.named CONTENT_LENGTH) = [] := by
    cases r.allow with
    | none => rfl
    | some a => exact List.filter_cons_of_neg (by rw [HeaderField.named_mk]; decide)
  have htype : ¬ HeaderField.named CONTENT_LENGTH ⟨ascii "Content-Type", r.contentType⟩ = true := by
    rw [HeaderField.named_mk]
    decide
  have hlength :
      HeaderField.named CONTENT_LENGTH ⟨ascii "Content-Length", digits r.body.length⟩ = true := by
    rw [HeaderField.named_mk]
    decide
  have hclose : ¬ HeaderField.named CONTENT_LENGTH ⟨ascii "Connection", ascii "close"⟩ = true := by
    rw [HeaderField.named_mk]
    decide
  unfold fieldValues Response.message
  rw [List.filter_append, List.filter_append, hallow, List.filter_cons_of_neg htype,
    List.filter_cons_of_pos hlength, List.filter_cons_of_neg hclose]
  rfl

theorem Response.message_wf (r : Response) (h : r.Plain) : r.message.WF where
  start := by
    unfold Response.message statusLine
    apply oneLine_append (by unfold OneLine; decide)
    apply oneLine_append _ (reasonFor_oneLine r.status)
    exact oneLine_append (digits_oneLine r.status) (by unfold OneLine; decide)
  fields := r.message_fields h
  sized := by
    rw [r.message_length]
    exact fun v hv => List.mem_singleton.mp hv
  unsized := by
    rw [r.message_length]
    exact fun hnil => (by cases hnil)

/-- the status is read back -/
theorem readStatus_message (r : Response) : readStatus r.message.start = r.status := by
  obtain ⟨hdigits, hvalue, _⟩ := digits_spec r.status
  have hdrop : (statusLine r).dropWhile (fun c => c != space) =
      space :: (digits r.status ++ (space :: reasonFor r.status)) := by
    have hsplit : statusLine r =
        ascii "HTTP/1.1" ++ (space :: (digits r.status ++ (space :: reasonFor r.status))) := by
      have hversion : ascii "HTTP/1.1 " = ascii "HTTP/1.1" ++ [space] := by decide
      unfold statusLine
      rw [hversion]
      simp only [List.append_assoc, List.cons_append, List.nil_append]
    rw [hsplit]
    exact dropWhile_run _ _ _ (by decide +kernel) fun c hc => by
      cases hc
      rfl
  unfold readStatus
  rw [show r.message.start = statusLine r from rfl, hdrop, List.drop_one, List.tail_cons,
    takeWhile_run _ (digits r.status) _ hdigits fun c hc => by
      cases hc
      decide]
  exact hvalue

/-- **A client reads a response back**, and nothing of it is left. -/
theorem readMessage_wire (r : Response) (h : r.Plain) (rest : Bytes) :
    readMessage (r.wire ++ rest) = some (r.message, rest) := by
  rw [r.wire_message]
  exact readMessage_text r.message (r.message_wf h) rest

end CServer
