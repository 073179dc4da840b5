import CServer.Http.Respond

/-!
# The bytes of a response

* `Response.wire`            what `http_respond` sends: the header block and the body;
* `responseHeader_lines`     the header block as lines;
* `Response.DeclaresLength`  its one Content-Length line gives the length of the body;
* `declaresLength`           every response with a header of one-line values does.
-/

namespace CServer

def Response.wire (r : Response) : Bytes := responseHeader r ++ r.body

def crlf : Bytes := [cr, lf]

/-- no line break inside -/
def OneLine (l : Bytes) : Prop := cr ∉ l ∧ lf ∉ l

/-- The block in front of the body is a list of lines and an empty line, and the one Content-Length
line among them gives the number of bytes of the body. -/
def Response.DeclaresLength (r : Response) : Prop :=
  ∃ lines : List Bytes, r.wire = lines.flatMap (· ++ crlf) ++ crlf ++ r.body ∧
    (∀ l ∈ lines, l ≠ [] ∧ OneLine l) ∧
    lines.filter (fun l => (ascii "Content-Length: ").isPrefixOf l) =
      [ascii "Content-Length: " ++ digits r.body.length]

def statusLine (r : Response) : Bytes :=
  ascii "HTTP/1.1 " ++ (digits r.status ++ [space] ++ reasonFor r.status)

def allowLines : Option Bytes → List Bytes
  | some allow => [ascii "Allow: " ++ allow]
  | none => []

def responseLines (r : Response) : List Bytes :=
  [statusLine r, ascii "Content-Type: " ++ r.contentType,
    ascii "Content-Length: " ++ digits r.body.length] ++ allowLines r.allow
    ++ [ascii "Connection: close"]

theorem responseHeader_lines (r : Response) :
    responseHeader r = (responseLines r).flatMap (· ++ crlf) ++ crlf := by
  have h1 : ascii "\r\nContent-Type: " = crlf ++ ascii "Content-Type: " := by decide
  have h2 : ascii "\r\nContent-Length: " = crlf ++ ascii "Content-Length: " := by decide
  have h3 : ascii "\r\nAllow: " = crlf ++ ascii "Allow: " := by decide
  have h4 : ascii "\r\nConnection: close\r\n\r\n" = crlf ++ ascii "Connection: close" ++ crlf ++ crlf := by
    decide
  unfold responseHeader responseLines statusLine
  rw [h1, h2, h4]
  cases r.allow with
  | none => simp [allowLines]
  | some allow => simp [allowLines, h3]

/-! ## one-line values -/

theorem oneLine_append {a b : Bytes} (ha : OneLine a) (hb : OneLine b) : OneLine (a ++ b) := by
  refine ⟨fun h => ?_, fun h => ?_⟩
  · exact (List.mem_append.mp h).elim ha.1 hb.1
  · exact (List.mem_append.mp h).elim ha.2 hb.2

theorem digit_ne (d : Nat) (hd : d < 10) : UInt8.ofNat (48 + d) ≠ cr ∧ UInt8.ofNat (48 + d) ≠ lf := by
  interval_cases d <;> decide

theorem digits_oneLine (n : Nat) : OneLine (digits n) := by
  induction n using digits.induct with
  | case1 n h =>
    have hd := digit_ne n h
    rw [digits, if_pos h]
    exact ⟨fun hm => hd.1 (List.mem_singleton.mp hm).symm,
      fun hm => hd.2 (List.mem_singleton.mp hm).symm⟩
  | case2 n h ih =>
    have hd := digit_ne (n % 10) (Nat.mod_lt _ (by decide))
    rw [digits, if_neg h]
    exact oneLine_append ih ⟨fun hm => hd.1 (List.mem_singleton.mp hm).symm,
      fun hm => hd.2 (List.mem_singleton.mp hm).symm⟩

theorem reasonFor_oneLine (status : Nat) : OneLine (reasonFor status) := by
  unfold OneLine reasonFor
  split <;> decide

/-! ## the Content-Length line -/

theorem isPrefixOf_append_false (p a x : Bytes) (h : ¬ p.take a.length <+: a) :
    p.isPrefixOf (a ++ x) = false := by
  cases hb : p.isPrefixOf (a ++ x) with
  | false => rfl
  | true =>
    have hp : p.take a.length <+: a ++ x :=
      List.IsPrefix.trans (List.take_prefix _ _) (List.isPrefixOf_iff_prefix.mp hb)
    exact absurd (List.prefix_of_prefix_length_le hp (List.prefix_append a x) (by simp)) h

theorem isPrefixOf_append_self (p x : Bytes) : p.isPrefixOf (p ++ x) = true :=
  List.isPrefixOf_iff_prefix.mpr (List.prefix_append p x)

theorem responseLines_length (r : Response) :
    (responseLines r).filter (fun l => (ascii "Content-Length: ").isPrefixOf l) =
      [ascii "Content-Length: " ++ digits r.body.length] := by
  have h1 : (ascii "Content-Length: ").isPrefixOf (statusLine r) = false :=
    isPrefixOf_append_false _ _ _ (by decide)
  have h2 : (ascii "Content-Length: ").isPrefixOf (ascii "Content-Type: " ++ r.contentType) = false :=
    isPrefixOf_append_false _ _ _ (by decide)
  have h3 : (allowLines r.allow).filter (fun l => (ascii "Content-Length: ").isPrefixOf l) = [] := by
    cases r.allow with
    | none => rfl
    | some allow =>
      have h : (ascii "Content-Length: ").isPrefixOf (ascii "Allow: " ++ allow) = false :=
        isPrefixOf_append_false _ _ _ (by decide)
      exact List.filter_eq_nil_iff.mpr fun l hl => by
        rw [List.mem_singleton.mp hl, h]
        decide
  have h4 : [ascii "Connection: close"].filter
      (fun l => (ascii "Content-Length: ").isPrefixOf l) = [] := by decide
  unfold responseLines
  rw [List.filter_append, List.filter_append, h3, h4, List.filter_cons_of_neg (by rw [h1]; decide),
    List.filter_cons_of_neg (by rw [h2]; decide),
    List.filter_cons_of_pos (isPrefixOf_append_self _ _)]
  rfl

/-- **The one Content-Length line of a response gives the length of its body.** -/
theorem declaresLength (r : Response) (hc : OneLine r.contentType)
    (ha : ∀ allow, r.allow = some allow → OneLine allow) : r.DeclaresLength := by
  refine ⟨responseLines r, ?_, ?_, responseLines_length r⟩
  · unfold Response.wire
    rw [responseHeader_lines]
  · have hline : ∀ a x : Bytes, a ≠ [] → OneLine a → OneLine x → a ++ x ≠ [] ∧ OneLine (a ++ x) :=
      fun a x hne h hx => ⟨fun he => hne (List.append_eq_nil_iff.mp he).1, oneLine_append h hx⟩
    intro l hl
    rcases List.mem_append.mp hl with hl | hl
    · rcases List.mem_append.mp hl with hl | hl
      · simp only [List.mem_cons, List.not_mem_nil, or_false] at hl
        rcases hl with rfl | rfl | rfl
        · apply hline _ _ (by decide) (by unfold OneLine; decide)
          apply oneLine_append _ (reasonFor_oneLine r.status)
          exact oneLine_append (digits_oneLine r.status) (by unfold OneLine; decide)
        · exact hline _ _ (by decide) (by unfold OneLine; decide) hc
        · exact hline _ _ (by decide) (by unfold OneLine; decide) (digits_oneLine _)
      · cases hallow : r.allow with
        | none =>
          rw [hallow] at hl
          cases hl
        | some allow =>
          rw [hallow] at hl
          rw [List.mem_singleton.mp hl]
          exact hline _ _ (by decide) (by unfold OneLine; decide) (ha allow hallow)
    · rw [List.mem_singleton.mp hl]
      unfold OneLine
      decide

end CServer
