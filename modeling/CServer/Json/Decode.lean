import CServer.Json.Scan

/-!
# What `json_get_string` accepts

The scanner against the lax grammar of `Lib/FlatJson.lean`, in both directions.

* `jsonGetString_text`    on the text of a derivation the function computes `lookupMembers` of the
                          decoded members, whatever the whitespace and the escapes;
* `jsonGetString_sound`   a body that is answered `API_OK` or `API_ERR_MISSING_FIELD` has a
                          derivation;
* `Reads`                 the relation "the object `body` has exactly one member that reads as
                          `field`, and its value reads as `out`", with the limits of the three
                          buffers; `jsonGetString_ok_iff`: the function decides it.
-/

set_option linter.unusedVariables false

namespace CServer
open FlatJson

/-! ## the scanners on the grammar -/

theorem isWs_iff (c : Byte) : isWs c = true ↔ c = space ∨ c = tab ∨ c = lf ∨ c = cr := by
  simp [isWs, or_assoc]

theorem skipSpaces_ws (w : Ws) (c : Byte) (r : Bytes) (hc : isWs c = false) :
    skipSpaces (w.bytes ++ c :: r) = c :: r := by
  obtain ⟨w, hw⟩ := w
  induction w with
  | nil =>
    have hn : ¬ (c = space ∨ c = tab ∨ c = lf ∨ c = cr) := fun h => by
      rw [(isWs_iff c).mpr h] at hc
      exact absurd hc (by decide)
    show skipSpaces (c :: r) = _
    rw [skipSpaces, if_neg hn]
  | cons d w ih =>
    have hd := (isWs_iff d).mp (hw d List.mem_cons_self)
    show skipSpaces (d :: (w ++ c :: r)) = _
    rw [skipSpaces, if_pos hd]
    exact ih fun x hx => hw x (List.mem_cons_of_mem _ hx)

theorem skipSpaces_all (w : Ws) : skipSpaces w.bytes = [] := by
  obtain ⟨w, hw⟩ := w
  induction w with
  | nil => rfl
  | cons d w ih =>
    have hd := (isWs_iff d).mp (hw d List.mem_cons_self)
    show skipSpaces (d :: w) = _
    rw [skipSpaces, if_pos hd]
    exact ih fun x hx => hw x (List.mem_cons_of_mem _ hx)

/-- what `skip_spaces` skips is whitespace -/
theorem skipSpaces_split (p : Bytes) : ∃ w : Ws, p = w.bytes ++ skipSpaces p := by
  induction p with
  | nil => exact ⟨Ws.none, rfl⟩
  | cons c p ih =>
    rw [skipSpaces]
    by_cases hc : c = space ∨ c = tab ∨ c = lf ∨ c = cr
    · obtain ⟨w, hw⟩ := ih
      rw [if_pos hc]
      refine ⟨⟨c :: w.bytes, fun x hx => ?_⟩, ?_⟩
      · rcases List.mem_cons.mp hx with rfl | hx
        · exact (isWs_iff x).mpr hc
        · exact w.ok x hx
      · show c :: p = c :: (w.bytes ++ skipSpaces p)
        rw [← hw]
    · rw [if_neg hc]
      exact ⟨Ws.none, rfl⟩

theorem unescape_selector (e : Escape) : unescape e.selector = some e.value := by
  cases e <;> rfl

theorem unescape_eq_some (c d : Byte) (h : unescape c = some d) :
    ∃ e : Escape, c = e.selector ∧ d = e.value := by
  unfold unescape at h
  split_ifs at h with h1 h2 h3 h4 h5
  · exact ⟨.quote, h1, (Option.some.inj h).symm⟩
  · exact ⟨.backslash, h2, (Option.some.inj h).symm⟩
  · exact ⟨.newline, h3, (Option.some.inj h).symm⟩
  · exact ⟨.carriage, h4, (Option.some.inj h).symm⟩
  · exact ⟨.tab, h5, (Option.some.inj h).symm⟩

theorem parseQuotedLoop_close (outCap : Nat) (out rest : Bytes) :
    parseQuotedLoop outCap out (quote :: rest) =
      if outCap = 0 then none else if out.length ≥ outCap then none else some (out, rest) := by
  rw [parseQuotedLoop.eq_def]
  exact if_pos rfl

theorem parseQuotedLoop_raw (outCap : Nat) (out : Bytes) (c : Byte) (rest : Bytes)
    (hq : c ≠ quote) (hb : c ≠ backslash) :
    parseQuotedLoop outCap out (c :: rest) =
      if out.length + 1 ≥ outCap then none else parseQuotedLoop outCap (out ++ [c]) rest := by
  rw [parseQuotedLoop.eq_def]
  simp only [if_neg hq, if_neg hb]

theorem parseQuotedLoop_esc (outCap : Nat) (out : Bytes) (e : Escape) (rest : Bytes) :
    parseQuotedLoop outCap out (backslash :: e.selector :: rest) =
      if out.length + 1 ≥ outCap then none else parseQuotedLoop outCap (out ++ [e.value]) rest := by
  have hq : backslash ≠ quote := by decide
  rw [parseQuotedLoop.eq_def]
  simp only [if_neg hq, if_true, unescape_selector]

/-- the loop stops at the closing quote, with the decoded string behind what it had -/
theorem parseQuotedLoop_body (outCap : Nat) (out : Bytes) (s : Str) (r : Bytes) (h0 : 0 < outCap) :
    parseQuotedLoop outCap out (Str.body s ++ quote :: r) =
      if out.length + s.length < outCap then some (out ++ Str.value s, r) else none := by
  induction s generalizing out with
  | nil =>
    rw [Str.body_nil, List.nil_append, parseQuotedLoop_close, if_neg (by omega), List.length_nil,
      Nat.add_zero, Str.value_nil, List.append_nil]
    by_cases hf : out.length < outCap
    · rw [if_neg (by omega), if_pos hf]
    · rw [if_pos (by omega), if_neg hf]
  | cons p s ih =>
    rw [Str.body_cons, Str.value_cons, List.length_cons]
    have hstep : ∀ d : Byte,
        (if out.length + 1 ≥ outCap then none
          else parseQuotedLoop outCap (out ++ [d]) (Str.body s ++ quote :: r)) =
        if out.length + (s.length + 1) < outCap then some (out ++ d :: Str.value s, r) else none := by
      intro d
      by_cases hf : out.length + 1 ≥ outCap
      · rw [if_pos hf, if_neg (by omega)]
      · rw [if_neg hf, ih, List.length_append, List.append_assoc, List.length_singleton,
          Nat.add_assoc, Nat.add_comm 1, List.singleton_append]
    cases p with
    | raw c hq hb =>
      show parseQuotedLoop outCap out (c :: (Str.body s ++ quote :: r)) = _
      rw [parseQuotedLoop_raw _ _ _ _ hq hb]
      exact hstep c
    | esc e =>
      show parseQuotedLoop outCap out (backslash :: e.selector :: (Str.body s ++ quote :: r)) = _
      rw [parseQuotedLoop_esc]
      exact hstep e.value

theorem parseQuotedLoop_sound (outCap : Nat) (out p v r : Bytes)
    (h : parseQuotedLoop outCap out p = some (v, r)) :
    ∃ s : Str, p = Str.body s ++ quote :: r ∧ v = out ++ Str.value s := by
  fun_induction parseQuotedLoop outCap out p with
  | case4 out rest =>
    cases h
    exact ⟨[], rfl, by rw [Str.value_nil, List.append_nil]⟩
  | case8 out c rest' decoded hd hfit hq ih =>
    obtain ⟨e, rfl, rfl⟩ := unescape_eq_some c decoded hd
    obtain ⟨s, hs, hv⟩ := ih h
    refine ⟨.esc e :: s, ?_, ?_⟩
    · rw [Str.body_cons, hs]
      rfl
    · rw [hv, Str.value_cons, List.append_assoc]
      rfl
  | case10 out c rest hq hb hfit ih =>
    obtain ⟨s, hs, hv⟩ := ih h
    refine ⟨.raw c hq hb :: s, ?_, ?_⟩
    · rw [Str.body_cons, hs]
      rfl
    · rw [hv, Str.value_cons, List.append_assoc]
      rfl
  | _ => simp at h

theorem parseQuoted_text (outCap : Nat) (s : Str) (r : Bytes) (h0 : 0 < outCap) :
    parseQuoted outCap (quote :: (Str.body s ++ quote :: r)) =
      if s.length < outCap then some (Str.value s, r) else none := by
  rw [parseQuoted, if_neg (by simp), parseQuotedLoop_body _ _ _ _ h0, List.length_nil,
    Nat.zero_add, List.nil_append]

theorem parseQuoted_sound (outCap : Nat) (p v r : Bytes) (h : parseQuoted outCap p = some (v, r)) :
    ∃ s : Str, p = quote :: (Str.body s ++ quote :: r) ∧ v = Str.value s := by
  obtain ⟨p', rfl, hloop⟩ := parseQuoted_some _ _ _ _ h
  obtain ⟨s, hs, hv⟩ := parseQuotedLoop_sound _ _ _ _ _ hloop
  exact ⟨s, by rw [hs], by rw [hv, List.nil_append]⟩

/-- from the name's opening quote to the end of the value -/
theorem scanMember_text (m : Member) (r : Bytes) :
    scanMember (quote :: (Str.body m.name ++ quote :: (m.afterName.bytes ++
      colon :: (m.beforeValue.bytes ++ quote :: (Str.body m.value ++ quote :: r))))) =
      if m.name.length < JSON_NAME_CAP ∧ m.value.length < JSON_VALUE_CAP then
        some (Str.value m.name, Str.value m.value, r)
      else none := by
  unfold scanMember
  rw [parseQuoted_text _ _ _ (by decide)]
  by_cases hn : m.name.length < JSON_NAME_CAP
  · rw [if_pos hn]
    simp only [skipSpaces_ws _ _ _ (show isWs colon = false from rfl),
      skipSpaces_ws _ _ _ (show isWs quote = false from rfl), ne_eq, not_true_eq_false, if_false,
      if_true]
    rw [parseQuoted_text _ _ _ (by decide)]
    by_cases hv : m.value.length < JSON_VALUE_CAP
    · rw [if_pos hv, if_pos ⟨hn, hv⟩]
    · rw [if_neg hv, if_neg fun h => hv h.2]
  · rw [if_neg hn, if_neg fun h => hn h.1]

theorem scanMember_sound (p name value r : Bytes) (h : scanMember p = some (name, value, r)) :
    ∃ sn sv : Str, ∃ w1 w2 : Ws, name = Str.value sn ∧ value = Str.value sv ∧
      p = quote :: (Str.body sn ++ quote :: (w1.bytes ++
        colon :: (w2.bytes ++ quote :: (Str.body sv ++ quote :: r)))) := by
  obtain ⟨r1, r2, r3, hn, hc, hq, hv⟩ := scanMember_some p name value r h
  obtain ⟨sn, hp, hsn⟩ := parseQuoted_sound _ _ _ _ hn
  obtain ⟨sv, hp', hsv⟩ := parseQuoted_sound _ _ _ _ hv
  obtain ⟨w1, hw1⟩ := skipSpaces_split r1
  obtain ⟨w2, hw2⟩ := skipSpaces_split r2
  refine ⟨sn, sv, w1, w2, hsn, hsv, ?_⟩
  rw [hp, hw1, hc, hw2, hq, hp']

/-! ## one turn of the loop -/

/-- the answer at the closing brace -/
def finish (found : Option CStr) : Except ApiError CStr :=
  match found with
  | some out => .ok out
  | none => .error .missingField

theorem jsonMembers_nil (field : CStr) (outCap : Nat) (found : Option CStr) (ptr : Bytes)
    (hp : skipSpaces ptr = []) : jsonMembers field outCap found ptr = .error .badRequest := by
  rw [jsonMembers.eq_def]
  split
  · rfl
  · next c rest hp' => rw [hp] at hp'; cases hp'

theorem jsonMembers_close (field : CStr) (outCap : Nat) (found : Option CStr) (ptr rest : Bytes)
    (hp : skipSpaces ptr = rbrace :: rest) :
    jsonMembers field outCap found ptr =
      if skipSpaces rest = [] then finish found else .error .badRequest := by
  rw [jsonMembers.eq_def]
  split
  · next hp' => rw [hp] at hp'; cases hp'
  · next c rest' hp' =>
    rw [hp] at hp'
    obtain ⟨rfl, rfl⟩ := List.cons.inj hp'
    rw [if_pos rfl]
    rfl

theorem jsonMembers_bad (field : CStr) (outCap : Nat) (found : Option CStr) (ptr rest : Bytes)
    (c : Byte) (hp : skipSpaces ptr = c :: rest) (hc : c ≠ rbrace)
    (hm : scanMember (c :: rest) = none) :
    jsonMembers field outCap found ptr = .error .badRequest := by
  rw [jsonMembers.eq_def]
  split
  · rfl
  · next c' rest' hp' =>
    rw [hp] at hp'
    obtain ⟨rfl, rfl⟩ := List.cons.inj hp'
    rw [if_neg hc]
    split
    · rfl
    · next name value r hm' => rw [hm] at hm'; cases hm'

theorem jsonMembers_member (field : CStr) (outCap : Nat) (found : Option CStr)
    (ptr rest name value r : Bytes) (c : Byte) (hp : skipSpaces ptr = c :: rest) (hc : c ≠ rbrace)
    (hm : scanMember (c :: rest) = some (name, value, r)) :
    jsonMembers field outCap found ptr =
      match keepField field outCap found name value with
      | .error e => .error e
      | .ok found' =>
        match skipSpaces r with
        | [] => .error .badRequest
        | d :: rest' =>
          if d = comma then jsonMembers field outCap found' rest'
          else if d = rbrace then jsonMembers field outCap found' (d :: rest')
          else .error .badRequest := by
  rw [jsonMembers.eq_def]
  split
  · next hp' => rw [hp] at hp'; cases hp'
  · next c' rest' hp' =>
    rw [hp] at hp'
    obtain ⟨rfl, rfl⟩ := List.cons.inj hp'
    rw [if_neg hc]
    split
    · next hm' => rw [hm] at hm'; cases hm'
    · next name' value' r' hm' =>
      rw [hm] at hm'
      cases hm'
      cases keepField field outCap found name value with
      | error e => rfl
      | ok found' =>
        simp only
        cases skipSpaces r with
        | nil => rfl
        | cons d rest' => rfl

theorem keepField_error (field : CStr) (outCap : Nat) (found : Option CStr) (name value : Bytes)
    (e : ApiError) (h : keepField field outCap found name value = .error e) :
    e = .badRequest ∨ e = .payloadTooLarge := by
  unfold keepField at h
  split_ifs at h
  · exact .inl (Except.error.inj h).symm
  · exact .inr (Except.error.inj h).symm

/-- What one turn of the loop comes to: an error, the end of the object, or one member and a turn
behind it. -/
inductive MembersTurn (field : CStr) (outCap : Nat) (found : Option CStr) (ptr : Bytes) : Prop where
  | bad (h : jsonMembers field outCap found ptr = .error .badRequest)
  | refused (e : ApiError) (he : e = .badRequest ∨ e = .payloadTooLarge)
      (h : jsonMembers field outCap found ptr = .error e)
  | close (rest : Bytes) (hp : skipSpaces ptr = rbrace :: rest) (hr : skipSpaces rest = [])
      (h : jsonMembers field outCap found ptr = finish found)
  | member (c d : Byte) (rest name value r rest' : Bytes) (found' : Option CStr)
      (hp : skipSpaces ptr = c :: rest) (hm : scanMember (c :: rest) = some (name, value, r))
      (hs : skipSpaces r = d :: rest') (hd : d = comma ∨ d = rbrace)
      (hlen : (d :: rest').length < ptr.length)
      (h : jsonMembers field outCap found ptr =
        jsonMembers field outCap found' (if d = comma then rest' else d :: rest'))

theorem jsonMembers_turn (field : CStr) (outCap : Nat) (found : Option CStr) (ptr : Bytes) :
    MembersTurn field outCap found ptr := by
  cases hp : skipSpaces ptr with
  | nil => exact .bad (jsonMembers_nil _ _ _ _ hp)
  | cons c rest =>
    by_cases hc : c = rbrace
    · subst hc
      have hclose := jsonMembers_close field outCap found ptr rest hp
      by_cases hr : skipSpaces rest = []
      · rw [if_pos hr] at hclose
        exact .close rest hp hr hclose
      · rw [if_neg hr] at hclose
        exact .bad hclose
    · cases hm : scanMember (c :: rest) with
      | none => exact .bad (jsonMembers_bad _ _ _ _ _ _ hp hc hm)
      | some nvr =>
        obtain ⟨name, value, r⟩ := nvr
        have hmember := jsonMembers_member field outCap found _ _ _ _ _ _ hp hc hm
        cases hk : keepField field outCap found name value with
        | error e =>
          rw [hk] at hmember
          exact .refused e (keepField_error _ _ _ _ _ _ hk) hmember
        | ok found' =>
          simp only [hk] at hmember
          cases hs : skipSpaces r with
          | nil =>
            simp only [hs] at hmember
            exact .bad hmember
          | cons d rest' =>
            simp only [hs] at hmember
            have hlen1 := skipSpaces_length ptr
            have hlen2 := scanMember_length _ _ _ _ hm
            have hlen3 := skipSpaces_length r
            rw [hp] at hlen1
            rw [hs] at hlen3
            by_cases hd : d = comma
            · rw [if_pos hd] at hmember
              exact .member c d rest name value r rest' found' hp hm hs (.inl hd) (by omega)
                (by rw [if_pos hd]; exact hmember)
            · by_cases hb : d = rbrace
              · rw [if_neg hd, if_pos hb] at hmember
                exact .member c d rest name value r rest' found' hp hm hs (.inr hb) (by omega)
                  (by rw [if_neg hd]; exact hmember)
              · rw [if_neg hd, if_neg hb] at hmember
                exact .bad hmember

/-! ## completeness -/

/-- What the loop computes from the decoded members. -/
def lookupMembers (field : CStr) (outCap : Nat) (found : Option CStr) :
    List Member → Except ApiError CStr
  | [] => finish found
  | m :: ms =>
    if m.name.length < JSON_NAME_CAP ∧ m.value.length < JSON_VALUE_CAP then
      match keepField field outCap found (Str.value m.name) (Str.value m.value) with
      | .error e => .error e
      | .ok found' => lookupMembers field outCap found' ms
    else .error .badRequest

/-- one member in front of a byte that ends it -/
theorem jsonMembers_text (field : CStr) (outCap : Nat) (found : Option CStr) (m : Member)
    (d : Byte) (r : Bytes) (hd : isWs d = false) :
    jsonMembers field outCap found (m.text ++ d :: r) =
      if m.name.length < JSON_NAME_CAP ∧ m.value.length < JSON_VALUE_CAP then
        match keepField field outCap found (Str.value m.name) (Str.value m.value) with
        | .error e => .error e
        | .ok found' =>
          if d = comma then jsonMembers field outCap found' r
          else if d = rbrace then jsonMembers field outCap found' (d :: r)
          else .error .badRequest
      else .error .badRequest := by
  have hp := skipSpaces_ws m.before quote (Str.body m.name ++ quote :: (m.afterName.bytes ++
    colon :: (m.beforeValue.bytes ++ quote :: (Str.body m.value ++ quote ::
      (m.afterValue.bytes ++ d :: r))))) rfl
  rw [← Member.text_append] at hp
  have hm := scanMember_text m (m.afterValue.bytes ++ d :: r)
  by_cases hfit : m.name.length < JSON_NAME_CAP ∧ m.value.length < JSON_VALUE_CAP
  · rw [if_pos hfit] at hm
    rw [if_pos hfit, jsonMembers_member field outCap found _ _ _ _ _ _ hp (by decide) hm]
    cases keepField field outCap found (Str.value m.name) (Str.value m.value) with
    | error e => rfl
    | ok found' => simp only [skipSpaces_ws _ _ _ hd]
  · rw [if_neg hfit] at hm
    rw [if_neg hfit, jsonMembers_bad field outCap found _ _ _ hp (by decide) hm]

theorem jsonMembers_items (field : CStr) (outCap : Nat) (found : Option CStr) (i : Items)
    (trail : Ws) :
    jsonMembers field outCap found (i.text ++ trail.bytes) =
      lookupMembers field outCap found i.members := by
  induction i generalizing found with
  | close w =>
    have hp := skipSpaces_ws w rbrace trail.bytes rfl
    simp only [Items.text, List.append_assoc, List.singleton_append]
    rw [jsonMembers_close _ _ _ _ _ hp, if_pos (skipSpaces_all trail)]
    rfl
  | last m =>
    have hp : skipSpaces (rbrace :: trail.bytes) = rbrace :: trail.bytes :=
      skipSpaces_ws Ws.none rbrace trail.bytes rfl
    simp only [Items.text, Items.members, List.append_assoc, List.singleton_append, lookupMembers]
    rw [jsonMembers_text _ _ _ _ _ _ rfl]
    simp only [jsonMembers_close _ _ _ _ _ hp, if_pos (skipSpaces_all trail), if_true,
      if_neg (show rbrace ≠ comma by decide)]
  | more m rest ih =>
    simp only [Items.text, Items.members, List.append_assoc, List.cons_append, lookupMembers]
    rw [jsonMembers_text _ _ _ _ _ _ rfl]
    simp only [if_true, ih]

/-- **On the text of a derivation the function looks its decoded members up.** -/
theorem jsonGetString_text (d : Doc) (field : CStr) (outCap : Nat) (h0 : 0 < outCap) :
    jsonGetString (some d.text) field outCap = lookupMembers field outCap none d.members := by
  show (if outCap = 0 then _ else _) = _
  rw [if_neg (by omega)]
  simp only [Doc.text, skipSpaces_ws _ _ _ (show isWs lbrace = false from rfl), ne_eq,
    not_true_eq_false, if_false]
  exact jsonMembers_items field outCap none d.items d.trail

/-! ## soundness -/

/-- answers that are given at the closing brace only -/
def Accepted : Except ApiError CStr → Prop
  | .ok _ => True
  | .error e => e = .missingField

theorem not_accepted_bad : ¬Accepted (.error .badRequest) := by
  intro h
  cases h

theorem jsonMembers_sound (field : CStr) (outCap : Nat) (n : Nat) (found : Option CStr)
    (ptr : Bytes) (hn : ptr.length < n) (h : Accepted (jsonMembers field outCap found ptr)) :
    ∃ i : Items, ∃ trail : Ws, ptr = i.text ++ trail.bytes := by
  induction n generalizing found ptr with
  | zero => omega
  | succ n ih =>
    obtain ⟨w, hw⟩ := skipSpaces_split ptr
    cases jsonMembers_turn field outCap found ptr with
    | bad hbad =>
      rw [hbad] at h
      exact absurd h not_accepted_bad
    | refused e he hbad =>
      rw [hbad] at h
      rcases he with rfl | rfl
      · cases h
      · cases h
    | close rest hp hr _ =>
      obtain ⟨t, ht⟩ := skipSpaces_split rest
      rw [hr, List.append_nil] at ht
      rw [hp] at hw
      exact ⟨.close w, t, by rw [hw, ht]; simp [Items.text]⟩
    | member c d rest name value r rest' found' hp hm hs hd hlen hnext =>
      obtain ⟨sn, sv, w1, w2, _, _, ht⟩ := scanMember_sound _ _ _ _ hm
      obtain ⟨w3, hw3⟩ := skipSpaces_split r
      rw [hs] at hw3
      rw [hp] at hw
      rw [hnext] at h
      have hmember : ptr = (Member.mk w sn w1 w2 sv w3).text ++ d :: rest' := by
        rw [Member.text_append, hw, ht, hw3]
      rw [List.length_cons] at hlen
      rcases hd with rfl | rfl
      · rw [if_pos rfl] at h
        obtain ⟨i, trail, hi⟩ := ih found' rest' (by omega) h
        refine ⟨.more ⟨w, sn, w1, w2, sv, w3⟩ i, trail, ?_⟩
        rw [hmember, hi, Items.text, List.append_assoc, List.cons_append]
      · have hp' : skipSpaces (rbrace :: rest') = rbrace :: rest' :=
          skipSpaces_ws Ws.none rbrace rest' rfl
        rw [if_neg (by decide), jsonMembers_close _ _ _ _ _ hp'] at h
        obtain ⟨t, htr⟩ := skipSpaces_split rest'
        by_cases hr : skipSpaces rest' = []
        · rw [hr, List.append_nil] at htr
          refine ⟨.last ⟨w, sn, w1, w2, sv, w3⟩, t, ?_⟩
          rw [hmember, htr, Items.text, List.append_assoc, List.singleton_append]
        · rw [if_neg hr] at h
          exact absurd h not_accepted_bad

/-- **A body that is accepted has a derivation.** -/
theorem jsonGetString_sound (body : Bytes) (field : CStr) (outCap : Nat)
    (h : Accepted (jsonGetString (some body) field outCap)) : ∃ d : Doc, d.text = body := by
  have h' : Accepted (if outCap = 0 then .error .badRequest
    else match skipSpaces body with
      | [] => .error .badRequest
      | c :: ptr =>
        if c ≠ lbrace then .error .badRequest else jsonMembers field outCap none ptr) := h
  by_cases h0 : outCap = 0
  · rw [if_pos h0] at h'
    exact absurd h' not_accepted_bad
  · rw [if_neg h0] at h'
    obtain ⟨w, hw⟩ := skipSpaces_split body
    cases hs : skipSpaces body with
    | nil =>
      simp only [hs] at h'
      exact absurd h' not_accepted_bad
    | cons c ptr =>
      simp only [hs] at h'
      by_cases hc : c ≠ lbrace
      · rw [if_pos hc] at h'
        exact absurd h' not_accepted_bad
      · rw [if_neg hc] at h'
        obtain ⟨i, trail, hi⟩ := jsonMembers_sound _ _ _ _ _ (Nat.lt_succ_self _) h'
        refine ⟨⟨w, i, trail⟩, ?_⟩
        rw [hw, hs, not_not.mp hc, hi]
        rfl

/-! ## the answer in terms of the matching members -/

/-- the member's name and value fit `name[128]` and `value[8192]` -/
def Fits (m : Member) : Prop :=
  m.name.length < JSON_NAME_CAP ∧ m.value.length < JSON_VALUE_CAP

instance (m : Member) : Decidable (Fits m) := by unfold Fits; infer_instance

/-- `strcmp(name, field) == 0`: the decoded name, cut at its first NUL, is the field -/
def named (field : CStr) (m : Member) : Bool := decide (cstr (Str.value m.name) = field.bytes)

/-- The answer, given the decoded values of the members whose name reads as the field. -/
def answer (outCap : Nat) : List Bytes → Except ApiError CStr
  | [] => .error .missingField
  | [v] => if (cstr v).length < outCap then .ok (CStr.ofBytes v) else .error .payloadTooLarge
  | v :: _ :: _ => if (cstr v).length < outCap then .error .badRequest else .error .payloadTooLarge

/-- the decoded values of the matching members, in order -/
def matching (field : CStr) (ms : List Member) : List Bytes :=
  (ms.filter (named field)).map fun m => Str.value m.value

theorem matching_cons_of_named (field : CStr) (m : Member) (ms : List Member)
    (h : named field m = true) :
    matching field (m :: ms) = Str.value m.value :: matching field ms := by
  unfold matching
  rw [List.filter_cons_of_pos h, List.map_cons]

theorem matching_cons_of_not_named (field : CStr) (m : Member) (ms : List Member)
    (h : named field m = false) : matching field (m :: ms) = matching field ms := by
  unfold matching
  rw [List.filter_cons_of_neg (by simp [h])]

theorem keepField_named (field : CStr) (outCap : Nat) (found : Option CStr) (m : Member)
    (h : named field m = true) :
    keepField field outCap found (Str.value m.name) (Str.value m.value) =
      if found.isSome then .error .badRequest
      else if (cstr (Str.value m.value)).length < outCap then
        .ok (some (CStr.ofBytes (Str.value m.value)))
      else .error .payloadTooLarge := by
  have hn : cstr (Str.value m.name) = field.bytes := of_decide_eq_true h
  unfold keepField
  rw [if_pos hn]
  by_cases hf : (cstr (Str.value m.value)).length < outCap
  · rw [if_pos hf, if_neg (show ¬ _ + 1 > outCap by omega)]
  · rw [if_neg hf, if_pos (show _ + 1 > outCap by omega)]

theorem keepField_not_named (field : CStr) (outCap : Nat) (found : Option CStr) (m : Member)
    (h : named field m = false) :
    keepField field outCap found (Str.value m.name) (Str.value m.value) = .ok found := by
  have hn : cstr (Str.value m.name) ≠ field.bytes := of_decide_eq_false h
  unfold keepField
  rw [if_neg hn]

theorem lookupMembers_cons (field : CStr) (outCap : Nat) (found : Option CStr) (m : Member)
    (ms : List Member) (h : Fits m) :
    lookupMembers field outCap found (m :: ms) =
      match keepField field outCap found (Str.value m.name) (Str.value m.value) with
      | .error e => .error e
      | .ok found' => lookupMembers field outCap found' ms := if_pos h

/-- once the field is found, a second match is an error -/
theorem lookupMembers_some (field : CStr) (outCap : Nat) (out : CStr) (ms : List Member)
    (h : ∀ m ∈ ms, Fits m) :
    lookupMembers field outCap (some out) ms =
      if matching field ms = [] then .ok out else .error .badRequest := by
  induction ms with
  | nil => rfl
  | cons m ms ih =>
    rw [lookupMembers_cons _ _ _ _ _ (h m List.mem_cons_self)]
    cases hn : named field m with
    | true =>
      rw [keepField_named _ _ _ _ hn, matching_cons_of_named _ _ _ hn]
      rfl
    | false =>
      rw [keepField_not_named _ _ _ _ hn, matching_cons_of_not_named _ _ _ hn]
      exact ih fun x hx => h x (List.mem_cons_of_mem _ hx)

theorem lookupMembers_none (field : CStr) (outCap : Nat) (ms : List Member)
    (h : ∀ m ∈ ms, Fits m) :
    lookupMembers field outCap none ms = answer outCap (matching field ms) := by
  induction ms with
  | nil => rfl
  | cons m ms ih =>
    have hms : ∀ x ∈ ms, Fits x := fun x hx => h x (List.mem_cons_of_mem _ hx)
    rw [lookupMembers_cons _ _ _ _ _ (h m List.mem_cons_self)]
    cases hn : named field m with
    | true =>
      rw [keepField_named _ _ _ _ hn, matching_cons_of_named _ _ _ hn]
      by_cases hf : (cstr (Str.value m.value)).length < outCap
      · simp only [Option.isSome_none, Bool.false_eq_true, if_false, if_pos hf]
        rw [lookupMembers_some _ _ _ _ hms]
        cases matching field ms with
        | nil => simp [answer, hf]
        | cons v vs => simp [answer, hf]
      · simp only [Option.isSome_none, Bool.false_eq_true, if_false, if_neg hf]
        cases matching field ms with
        | nil => simp [answer, hf]
        | cons v vs => simp [answer, hf]
    | false =>
      rw [keepField_not_named _ _ _ _ hn, matching_cons_of_not_named _ _ _ hn]
      exact ih hms

/-- every member of an accepted object fits the buffers -/
theorem lookupMembers_fits (field : CStr) (outCap : Nat) (found : Option CStr) (ms : List Member)
    (h : Accepted (lookupMembers field outCap found ms)) : ∀ m ∈ ms, Fits m := by
  induction ms generalizing found with
  | nil => simp
  | cons m ms ih =>
    by_cases hf : Fits m
    · rw [lookupMembers_cons _ _ _ _ _ hf] at h
      cases hk : keepField field outCap found (Str.value m.name) (Str.value m.value) with
      | error e =>
        rw [hk] at h
        rcases keepField_error _ _ _ _ _ _ hk with rfl | rfl
        · cases h
        · cases h
      | ok found' =>
        rw [hk] at h
        intro x hx
        rcases List.mem_cons.mp hx with rfl | hx
        · exact hf
        · exact ih found' h x hx
    · have hb : lookupMembers field outCap found (m :: ms) = .error .badRequest := if_neg hf
      rw [hb] at h
      exact absurd h not_accepted_bad

/-! ## the characterisation -/

/-- The object `body` fits the buffers, exactly one member reads as `field`, and its value reads
as `out`, which fits `out_cap`. -/
def Reads (body : Bytes) (field : CStr) (outCap : Nat) (out : CStr) : Prop :=
  ∃ d : Doc, d.text = body ∧ (∀ m ∈ d.members, Fits m) ∧
    ∃ v, matching field d.members = [v] ∧ out = CStr.ofBytes v ∧ out.length < outCap

theorem answer_eq_ok (outCap : Nat) (vs : List Bytes) (out : CStr) :
    answer outCap vs = .ok out ↔
      ∃ v, vs = [v] ∧ out = CStr.ofBytes v ∧ out.length < outCap := by
  constructor
  · intro h
    cases vs with
    | nil => cases h
    | cons v vs =>
      cases vs with
      | nil =>
        rw [answer] at h
        by_cases hf : (cstr v).length < outCap
        · rw [if_pos hf] at h
          cases h
          exact ⟨v, rfl, rfl, hf⟩
        · rw [if_neg hf] at h
          cases h
      | cons w vs =>
        rw [answer] at h
        by_cases hf : (cstr v).length < outCap
        · rw [if_pos hf] at h
          cases h
        · rw [if_neg hf] at h
          cases h
  · rintro ⟨v, rfl, rfl, hf⟩
    exact if_pos hf

theorem answer_eq_missing (outCap : Nat) (vs : List Bytes) :
    answer outCap vs = .error .missingField ↔ vs = [] := by
  constructor
  · intro h
    cases vs with
    | nil => rfl
    | cons v vs =>
      cases vs with
      | nil =>
        rw [answer] at h
        split_ifs at h
        cases h
      | cons w vs =>
        rw [answer] at h
        split_ifs at h <;> cases h
  · rintro rfl
    rfl

/-- an accepted body has one derivation, which fits, and is answered from its matching members -/
theorem jsonGetString_accepted (body : Bytes) (field : CStr) (outCap : Nat)
    (h : Accepted (jsonGetString (some body) field outCap)) :
    ∃ d : Doc, d.text = body ∧ (∀ m ∈ d.members, Fits m) ∧
      jsonGetString (some body) field outCap = answer outCap (matching field d.members) := by
  have h0 : 0 < outCap := by
    rcases Nat.eq_zero_or_pos outCap with rfl | h0
    · exact absurd h (by simp [jsonGetString, Accepted])
    · exact h0
  obtain ⟨d, rfl⟩ := jsonGetString_sound body field outCap h
  have ht := jsonGetString_text d field outCap h0
  have hf : ∀ m ∈ d.members, Fits m := by
    rw [ht] at h
    exact lookupMembers_fits _ _ _ _ h
  exact ⟨d, rfl, hf, by rw [ht, lookupMembers_none _ _ _ hf]⟩

theorem jsonGetString_fits (d : Doc) (field : CStr) (outCap : Nat) (h0 : 0 < outCap)
    (h : ∀ m ∈ d.members, Fits m) :
    jsonGetString (some d.text) field outCap = answer outCap (matching field d.members) := by
  rw [jsonGetString_text d field outCap h0, lookupMembers_none _ _ _ h]

/-- **`json_get_string` returns `API_OK` with `out` exactly when the body reads so.** -/
theorem jsonGetString_ok_iff (body : Bytes) (field : CStr) (outCap : Nat) (out : CStr) :
    jsonGetString (some body) field outCap = .ok out ↔ Reads body field outCap out := by
  constructor
  · intro h
    obtain ⟨d, hd, hf, ha⟩ := jsonGetString_accepted body field outCap (by rw [h]; trivial)
    rw [h] at ha
    exact ⟨d, hd, hf, (answer_eq_ok _ _ _).mp ha.symm⟩
  · rintro ⟨d, rfl, hf, hv⟩
    have h0 : 0 < outCap := by
      obtain ⟨_, _, _, hlt⟩ := hv
      omega
    rw [jsonGetString_fits d field outCap h0 hf]
    exact (answer_eq_ok _ _ _).mpr hv

theorem jsonGetString_missing_iff (body : Bytes) (field : CStr) (outCap : Nat) (h0 : 0 < outCap) :
    jsonGetString (some body) field outCap = .error .missingField ↔
      ∃ d : Doc, d.text = body ∧ (∀ m ∈ d.members, Fits m) ∧ matching field d.members = [] := by
  constructor
  · intro h
    obtain ⟨d, hd, hf, ha⟩ := jsonGetString_accepted body field outCap (by rw [h]; rfl)
    rw [h] at ha
    exact ⟨d, hd, hf, (answer_eq_missing _ _).mp ha.symm⟩
  · rintro ⟨d, rfl, hf, hv⟩
    rw [jsonGetString_fits d field outCap h0 hf]
    exact (answer_eq_missing _ _).mpr hv

/-- what a delivered value can be: shorter than `value[8192]` -/
theorem jsonGetString_ok_length (body : Option Bytes) (field : CStr) (outCap : Nat) (out : CStr)
    (h : jsonGetString body field outCap = .ok out) :
    out.length < JSON_VALUE_CAP ∧ out.length < outCap := by
  cases body with
  | none => cases h
  | some body =>
    obtain ⟨d, _, hf, v, hv, rfl, hlt⟩ := (jsonGetString_ok_iff _ _ _ _).mp h
    refine ⟨?_, hlt⟩
    have hmem : v ∈ matching field d.members := by
      rw [hv]
      exact List.mem_cons_self
    obtain ⟨m, hm, rfl⟩ := List.mem_map.mp hmem
    have hfit := (hf m (List.mem_filter.mp hm).1).2
    have hle := cstr_length_le (Str.value m.value)
    rw [Str.value_length] at hle
    show (cstr (Str.value m.value)).length < _
    omega

/-! ## the errors -/

/-- the errors of `json_get_string` -/
def DecodeError (e : ApiError) : Prop := e = .badRequest ∨ e = .missingField ∨ e = .payloadTooLarge

theorem DecodeError.ne_ok {e : ApiError} (h : DecodeError e) : e ≠ .ok := by
  rcases h with rfl | rfl | rfl <;> decide

theorem jsonMembers_error (field : CStr) (outCap : Nat) (n : Nat) (found : Option CStr)
    (ptr : Bytes) (hn : ptr.length < n) (e : ApiError)
    (h : jsonMembers field outCap found ptr = .error e) : DecodeError e := by
  induction n generalizing found ptr with
  | zero => omega
  | succ n ih =>
    cases jsonMembers_turn field outCap found ptr with
    | bad hbad =>
      rw [hbad] at h
      exact .inl (Except.error.inj h).symm
    | refused e' he hbad =>
      rw [hbad] at h
      cases h
      exact he.imp id .inr
    | close rest _ _ hclose =>
      rw [hclose] at h
      cases found with
      | some out => cases h
      | none => exact .inr (.inl (Except.error.inj h).symm)
    | member c d rest name value r rest' found' _ _ _ _ hlen hnext =>
      rw [hnext] at h
      refine ih found' _ ?_ h
      rw [List.length_cons] at hlen
      split
      · omega
      · rw [List.length_cons]
        omega

theorem jsonGetString_error (body : Option Bytes) (field : CStr) (outCap : Nat) (e : ApiError)
    (h : jsonGetString body field outCap = .error e) : DecodeError e := by
  cases body with
  | none => exact .inl (Except.error.inj h).symm
  | some body =>
    rw [jsonGetString] at h
    by_cases h0 : outCap = 0
    · rw [if_pos h0] at h
      exact .inl (Except.error.inj h).symm
    · rw [if_neg h0] at h
      cases hs : skipSpaces body with
      | nil =>
        simp only [hs] at h
        exact .inl (Except.error.inj h).symm
      | cons c ptr =>
        simp only [hs] at h
        by_cases hc : c ≠ lbrace
        · rw [if_pos hc] at h
          exact .inl (Except.error.inj h).symm
        · rw [if_neg hc] at h
          exact jsonMembers_error _ _ _ _ _ (Nat.lt_succ_self _) _ h

end CServer
