import CServer.Store.Notes

/-!
# The JSON text of a note

* `NoteText`          an object with the id, the title, the body and the two times of a note;
* `noteItem_text`     the rendering of a row is one, when no byte of it needs a `\u` escape;
* `NoteText.unique`   which has one title and one body;
* `noteRowToJson_text`  what `note_row_to_json` prints is one.
-/

namespace CServer
open FlatJson

/-- The text is a strict JSON object of the note `id`, with this title and body. -/
def NoteText (text : Bytes) (id : Long) (title body : CStr) : Prop :=
  ∃ t b : Str, t.Strict ∧ b.Strict ∧ t.value = title.bytes ∧ b.value = body.bytes ∧
    ∃ created updated : Long,
      text = ascii "\x7b\"id\":" ++ id.print ++ ascii ",\"title\":" ++ (t.text ++
        (ascii ",\"body\":" ++ (b.text ++ (ascii ",\"created_at\":" ++ created.print ++
          ascii ",\"updated_at\":" ++ updated.print ++ ascii "\x7d"))))

theorem noteItem_text (row : NoteRow) (ht : Clean row.title.bytes) (hb : Clean row.body.bytes) :
    NoteText (noteItem row (escapeText row.title.bytes) (escapeText row.body.bytes)) row.id row.title
      row.body := by
  refine ⟨escapePieces row.title.bytes, escapePieces row.body.bytes, escapePieces_strict _ ht,
    escapePieces_strict _ hb, escapePieces_value _, escapePieces_value _, row.createdAt,
    row.updatedAt, ?_⟩
  have h1 : ascii ",\"title\":\"" = ascii ",\"title\":" ++ [quote] := by decide
  have h2 : ascii "\",\"body\":\"" = quote :: (ascii ",\"body\":" ++ [quote]) := by decide
  have h3 : ascii "\",\"created_at\":" = quote :: ascii ",\"created_at\":" := by decide
  unfold noteItem Str.text
  rw [escapePieces_body, escapePieces_body, h1, h2, h3]
  simp only [List.append_assoc, List.cons_append, List.nil_append]

/-- **A text is that of one title and one body.** -/
theorem NoteText.unique {text : Bytes} {id : Long} {title body title' body' : CStr}
    (h : NoteText text id title body) (h' : NoteText text id title' body') :
    title = title' ∧ body = body' := by
  obtain ⟨t, b, _, _, ht, hb, _, _, htext⟩ := h
  obtain ⟨t', b', _, _, ht', hb', _, _, htext'⟩ := h'
  rw [htext] at htext'
  obtain ⟨rfl, h1⟩ := Str.text_split _ _ _ _ (List.append_cancel_left htext')
  obtain ⟨rfl, _⟩ := Str.text_split _ _ _ _ (List.append_cancel_left h1)
  exact ⟨CStr.ext' (ht.symm.trans ht'), CStr.ext' (hb.symm.trans hb')⟩

theorem noteRowToJson_text (row : NoteRow) (outCap pos : Nat) (text : Bytes)
    (h : noteRowToJson row outCap pos = .ok text) :
    Clean row.title.bytes ∧ Clean row.body.bytes ∧ NoteText text row.id row.title row.body := by
  have hclean : Clean row.title.bytes ∧ Clean row.body.bytes := by
    by_contra hc
    rw [noteRowToJson_not_clean row hc] at h
    cases h
  refine ⟨hclean.1, hclean.2, ?_⟩
  unfold noteRowToJson at h
  split at h
  · rename_i et eb het heb
    split_ifs at h
    cases h
    rw [((jsonEscape_eq_some _ _ _).mp het).2.1, ((jsonEscape_eq_some _ _ _).mp heb).2.1]
    exact noteItem_text row hclean.1 hclean.2
  · cases h

end CServer
