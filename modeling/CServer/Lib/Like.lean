import CServer.Lib.CString

/-!
# The SQL `LIKE` pattern language

`like esc pattern text` is the `LIKE` operator with an escape character and default settings over
ASCII text: `%` stands for any sequence, `_` for any one character, the escape character takes the
next one literally, and letters match in both cases.

`like_literal_percent`: a pattern without `%` and escape character, with `%` behind it, matches the
texts whose beginning it matches character by character.
-/

namespace CServer

abbrev percent : Byte := 37
abbrev underscore : Byte := 95

def like (esc : Byte) : Bytes → Bytes → Bool
  | [], text => text == []
  | p :: ps, text =>
    if p = percent then text.tails.any fun t => like esc ps t
    else if p = esc then
      match ps, text with
      | q :: qs, t :: ts => toLower q == toLower t && like esc qs ts
      | _, _ => false
    else
      match text with
      | t :: ts => (p == underscore || toLower p == toLower t) && like esc ps ts
      | [] => false

/-- one pattern character against one character of the text -/
def likeChar (p t : Byte) : Prop := p = underscore ∨ toLower p = toLower t

instance (p t : Byte) : Decidable (likeChar p t) := by unfold likeChar; infer_instance

/-- the beginning of `text` matches `pattern` character by character -/
def LikeBegins (pattern text : Bytes) : Prop :=
  ∃ head tail, text = head ++ tail ∧ List.Forall₂ likeChar pattern head

theorem like_percent (esc : Byte) (text : Bytes) : like esc [percent] text = true := by
  rw [like.eq_def]
  simp only [if_true, List.any_eq_true]
  refine ⟨[], ?_, rfl⟩
  rw [List.mem_tails]
  exact List.nil_suffix

theorem like_literal_percent (esc : Byte) (pattern text : Bytes)
    (h : ∀ p ∈ pattern, p ≠ percent ∧ p ≠ esc) :
    like esc (pattern ++ [percent]) text = true ↔ LikeBegins pattern text := by
  induction pattern generalizing text with
  | nil =>
    rw [List.nil_append]
    exact ⟨fun _ => ⟨[], text, rfl, .nil⟩, fun _ => like_percent esc text⟩
  | cons p ps ih =>
    obtain ⟨hp, he⟩ := h p List.mem_cons_self
    have hps : ∀ q ∈ ps, q ≠ percent ∧ q ≠ esc := fun q hq => h q (List.mem_cons_of_mem _ hq)
    rw [List.cons_append]
    cases text with
    | nil =>
      have hl : like esc (p :: (ps ++ [percent])) [] = false := by
        rw [like.eq_def]
        simp only [if_neg hp, if_neg he]
      rw [hl]
      constructor
      · intro hf
        cases hf
      · rintro ⟨head, tail, ht, hm⟩
        cases hm
        cases ht
    | cons t ts =>
      have hl : like esc (p :: (ps ++ [percent])) (t :: ts) =
          ((p == underscore || toLower p == toLower t) && like esc (ps ++ [percent]) ts) := by
        rw [like.eq_def]
        simp only [if_neg hp, if_neg he]
      rw [hl, Bool.and_eq_true, ih ts hps]
      constructor
      · rintro ⟨hc, head, tail, rfl, hm⟩
        exact ⟨t :: head, tail, rfl, .cons (by simpa [likeChar] using hc) hm⟩
      · rintro ⟨head, tail, ht, hm⟩
        cases hm with
        | cons hc hm' =>
          obtain ⟨rfl, rfl⟩ := List.cons.inj ht
          exact ⟨by simpa [likeChar] using hc, _, _, rfl, hm'⟩

/-- a text that begins with the pattern itself matches -/
theorem likeBegins_of_isPrefix (pattern text : Bytes) (h : pattern <+: text) :
    LikeBegins pattern text := by
  obtain ⟨tail, rfl⟩ := h
  refine ⟨pattern, tail, rfl, ?_⟩
  rw [List.forall₂_same]
  intro p _
  exact .inr rfl

end CServer
