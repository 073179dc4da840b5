import CServer.Http.Types
import CServer.Lib.FlatJson

/-!
# `json_get_string`

The pointer `ptr` into the body is the list of the bytes from `ptr` to `end`, so `ptr >= end` is
the empty list.

* `skipSpaces`, `parseQuoted`   the two scanners; `parseQuoted` hands back what it wrote to `out`
                                (before the terminator) and the next pointer;
* `scanMember`                  the part of one turn of the loop from the member's name to the end
                                of its value;
* `keepField`                   the `strcmp` branch of the turn;
* `jsonMembers`                 the loop; a turn that meets `,` or `}` re-enters it;
* `jsonGetString`               the whole function.
-/

set_option linter.unusedVariables false

namespace CServer

def skipSpaces : Bytes → Bytes
  | [] => []
  | c :: rest => if c = space ∨ c = tab ∨ c = lf ∨ c = cr then skipSpaces rest else c :: rest

/-- the byte that a backslash and `c` stand for -/
def unescape (c : Byte) : Option Byte :=
  if c = quote then some quote
  else if c = backslash then some backslash
  else if c = 110 then some lf
  else if c = 114 then some cr
  else if c = 116 then some tab
  else none

/-- the loop of `parse_quoted`, with `out[0..pos)` in `out` -/
def parseQuotedLoop (outCap : Nat) (out : Bytes) : Bytes → Option (Bytes × Bytes)
  | [] => none
  | c :: rest =>
    if c = quote then
      if outCap = 0 then none
      else if out.length ≥ outCap then none
      else some (out, rest)
    else if c = backslash then
      match rest with
      | [] => none
      | s :: rest' =>
        match unescape s with
        | none => none
        | some decoded =>
          if out.length + 1 ≥ outCap then none
          else parseQuotedLoop outCap (out ++ [decoded]) rest'
    else if out.length + 1 ≥ outCap then none
    else parseQuotedLoop outCap (out ++ [c]) rest

def parseQuoted (outCap : Nat) : Bytes → Option (Bytes × Bytes)
  | [] => none
  | c :: ptr => if c ≠ quote then none else parseQuotedLoop outCap [] ptr

/-- `sizeof(name)` and `sizeof(value)` -/
def JSON_NAME_CAP : Nat := 128
def JSON_VALUE_CAP : Nat := 8192

/-- From a member's name to the end of its value: the contents of `name` and `value` and the next
pointer, or `none` where the loop returns `API_ERR_BAD_REQUEST`. -/
def scanMember (ptr : Bytes) : Option (Bytes × Bytes × Bytes) :=
  match parseQuoted JSON_NAME_CAP ptr with
  | none => none
  | some (name, afterName) =>
    match skipSpaces afterName with
    | [] => none
    | c :: rest =>
      if c ≠ colon then none
      else
        match skipSpaces rest with
        | [] => none
        | q :: rest' =>
          if q = quote then
            match parseQuoted JSON_VALUE_CAP (q :: rest') with
            | none => none
            | some (value, afterValue) => some (name, value, afterValue)
          else none

/-- `if (strcmp(name, field) == 0) { ... }`; `found` is the contents of `out` once it is set -/
def keepField (field : CStr) (outCap : Nat) (found : Option CStr) (name value : Bytes) :
    Except ApiError (Option CStr) :=
  if cstr name = field.bytes then
    if found.isSome then .error .badRequest
    else if (cstr value).length + 1 > outCap then .error .payloadTooLarge
    else .ok (some (CStr.ofBytes value))
  else .ok found

theorem skipSpaces_length (p : Bytes) : (skipSpaces p).length ≤ p.length := by
  induction p with
  | nil => exact le_refl _
  | cons c p ih =>
    rw [skipSpaces]
    split_ifs
    · rw [List.length_cons]
      omega
    · exact le_refl _

theorem parseQuotedLoop_length (outCap : Nat) (out p v r : Bytes)
    (h : parseQuotedLoop outCap out p = some (v, r)) : r.length < p.length := by
  fun_induction parseQuotedLoop outCap out p with
  | case4 => cases h; simp
  | case8 _ _ _ _ _ _ _ ih => have := ih h; simp only [List.length_cons]; omega
  | case10 _ _ _ _ _ _ ih => have := ih h; simp only [List.length_cons]; omega
  | _ => simp at h

/-- behind the opening quote -/
theorem parseQuoted_some (outCap : Nat) (p v r : Bytes) (h : parseQuoted outCap p = some (v, r)) :
    ∃ p', p = quote :: p' ∧ parseQuotedLoop outCap [] p' = some (v, r) := by
  cases p with
  | nil => cases h
  | cons c p =>
    rw [parseQuoted] at h
    by_cases hc : c ≠ quote
    · rw [if_pos hc] at h
      cases h
    · rw [if_neg hc] at h
      exact ⟨p, by rw [not_not.mp hc], h⟩

theorem parseQuoted_length (outCap : Nat) (p v r : Bytes)
    (h : parseQuoted outCap p = some (v, r)) : r.length < p.length := by
  obtain ⟨p', rfl, hloop⟩ := parseQuoted_some _ _ _ _ h
  have := parseQuotedLoop_length _ _ _ _ _ hloop
  rw [List.length_cons]
  omega

/-- a quoted name, a colon and a quoted value -/
theorem scanMember_some (p name value r : Bytes) (h : scanMember p = some (name, value, r)) :
    ∃ r1 r2 r3, parseQuoted JSON_NAME_CAP p = some (name, r1) ∧ skipSpaces r1 = colon :: r2 ∧
      skipSpaces r2 = quote :: r3 ∧ parseQuoted JSON_VALUE_CAP (quote :: r3) = some (value, r) := by
  unfold scanMember at h
  cases hn : parseQuoted JSON_NAME_CAP p with
  | none => rw [hn] at h; cases h
  | some nr =>
    obtain ⟨n, r1⟩ := nr
    simp only [hn] at h
    cases hs : skipSpaces r1 with
    | nil => simp only [hs] at h; cases h
    | cons c r2 =>
      simp only [hs] at h
      by_cases hc : c ≠ colon
      · rw [if_pos hc] at h; cases h
      · rw [if_neg hc] at h
        cases hs' : skipSpaces r2 with
        | nil => simp only [hs'] at h; cases h
        | cons q r3 =>
          simp only [hs'] at h
          by_cases hq : q = quote
          · rw [if_pos hq] at h
            subst hq
            cases hv : parseQuoted JSON_VALUE_CAP (quote :: r3) with
            | none => rw [hv] at h; cases h
            | some vr =>
              rw [hv] at h
              cases h
              exact ⟨r1, r2, r3, rfl, by rw [hs, not_not.mp hc], hs', hv⟩
          · rw [if_neg hq] at h; cases h

/-- the value starts behind the name -/
theorem scanMember_length (p name value r : Bytes) (h : scanMember p = some (name, value, r)) :
    r.length < p.length := by
  obtain ⟨r1, r2, r3, hn, hc, hq, hv⟩ := scanMember_some p name value r h
  have h1 := parseQuoted_length _ _ _ _ hn
  have h2 := skipSpaces_length r1
  have h3 := skipSpaces_length r2
  have h4 := parseQuoted_length _ _ _ _ hv
  rw [hc, List.length_cons] at h2
  rw [hq, List.length_cons] at h3
  rw [List.length_cons] at h4
  omega

/-- the `for (;;)` loop of `json_get_string` -/
def jsonMembers (field : CStr) (outCap : Nat) (found : Option CStr) (ptr : Bytes) :
    Except ApiError CStr :=
  match hp : skipSpaces ptr with
  | [] => .error .badRequest
  | c :: rest =>
    if c = rbrace then
      if skipSpaces rest = [] then
        match found with
        | some out => .ok out
        | none => .error .missingField
      else .error .badRequest
    else
      match hm : scanMember (c :: rest) with
      | none => .error .badRequest
      | some (name, value, afterValue) =>
        match keepField field outCap found name value with
        | .error e => .error e
        | .ok found' =>
          match hs : skipSpaces afterValue with
          | [] => .error .badRequest
          | d :: rest' =>
            if d = comma then jsonMembers field outCap found' rest'
            else if d = rbrace then jsonMembers field outCap found' (d :: rest')
            else .error .badRequest
termination_by ptr.length
decreasing_by
  all_goals
    have h1 := skipSpaces_length ptr
    have h2 := scanMember_length _ _ _ _ hm
    have h3 := skipSpaces_length afterValue
    rw [hp] at h1
    rw [hs, List.length_cons] at h3
    simp only [List.length_cons] at h1 h2 ⊢
    omega

def jsonGetString (body : Option Bytes) (field : CStr) (outCap : Nat) : Except ApiError CStr :=
  match body with
  | none => .error .badRequest
  | some body =>
    if outCap = 0 then .error .badRequest
    else
      match skipSpaces body with
      | [] => .error .badRequest
      | c :: ptr =>
        if c ≠ lbrace then .error .badRequest else jsonMembers field outCap none ptr

end CServer
