import CServer.Json.Scan
import CServer.Lib.Memory
import CServer.Lib.Reads

/-!
# `json_get_string` in its arrays

Here `ptr` is a position in the body, which no NUL ends, and `name`, `value` and `out` are arrays.
Every access is checked: `none` is one outside the body or an array.

* `skipSpacesAt`, `parseQuotedAt`, `scanMemberAt`, `keepFieldAt`, `jsonTurn`, `jsonMembersAt`,
  `jsonGetStringAt`   the functions of `Json/Scan.lean` with their memory;
* `jsonTurn_advances`  a turn of the loop that goes on has passed a member, which ends the loop;
* `..._eq`             each computes what its list form computes, without an access outside;
* `jsonGetString_safe` so does the whole function.
-/

set_option linter.unusedVariables false

namespace CServer

/-! ## the functions -/

section
variable (body : Bytes)

def skipSpacesAt (ptr : Nat) : Option Nat :=
  if ptr < body.length then
    match body[ptr]? with
    | none => none
    | some c => if c = space ∨ c = tab ∨ c = lf ∨ c = cr then skipSpacesAt (ptr + 1) else some ptr
  else some ptr
termination_by body.length - ptr

/-- The byte that stands at `ptr` and where `ptr` is left; a second `none` is the return of the null
pointer. -/
def decodedAt (ptr : Nat) (c : Byte) : Option (Option (Byte × Nat)) :=
  if c = backslash then
    if ptr + 1 ≥ body.length then some none
    else
      match body[ptr + 1]? with
      | none => none
      | some s => some ((unescape s).map fun decoded => (decoded, ptr + 1))
  else some (some (c, ptr))

theorem decodedAt_ge (ptr : Nat) (c d : Byte) (q : Nat) (h : decodedAt body ptr c = some (some (d, q))) :
    ptr ≤ q := by
  unfold decodedAt at h
  split_ifs at h
  · cases h
  · split at h
    · cases h
    · obtain ⟨decoded, -, he⟩ := Option.map_eq_some_iff.mp (Option.some.inj h)
      cases he
      exact Nat.le_succ ptr
  · cases h
    exact le_refl _

/-- the closing quote -/
def closeQuoted {cap : Nat} (ptr pos : Nat) (out : Block cap) : Option (Block cap × Option Nat) :=
  if cap = 0 then some (out, none)
  else if pos ≥ cap then some (out, none)
  else (out.store pos [0]).map fun out => (out, some (ptr + 1))

/-- the loop of `parse_quoted`; a second `none` is the null pointer -/
def parseQuotedLoopAt {cap : Nat} (ptr pos : Nat) (out : Block cap) :
    Option (Block cap × Option Nat) :=
  if ptr < body.length then
    match body[ptr]? with
    | none => none
    | some c =>
      if c = quote then closeQuoted ptr pos out
      else
        match hd : decodedAt body ptr c with
        | none => none
        | some none => some (out, none)
        | some (some (decoded, q)) =>
          if pos + 1 ≥ cap then some (out, none)
          else
            match out.store pos [decoded] with
            | none => none
            | some out => parseQuotedLoopAt (q + 1) (pos + 1) out
  else some (out, none)
termination_by body.length - ptr
decreasing_by
  have hge := decodedAt_ge body ptr c decoded q hd
  omega

def parseQuotedAt {cap : Nat} (ptr : Nat) (out : Block cap) : Option (Block cap × Option Nat) :=
  if ptr ≥ body.length then some (out, none)
  else
    match body[ptr]? with
    | none => none
    | some c => if c ≠ quote then some (out, none) else parseQuotedLoopAt body (ptr + 1) 0 out

/-- the local arrays of `json_get_string`, and `out` -/
structure JsonBuffers (outCap : Nat) where
  name : Block JSON_NAME_CAP
  value : Block JSON_VALUE_CAP
  out : Block outCap

variable {outCap : Nat}

/-- From a member's name to the end of its value; a second `none` is the return of
`API_ERR_BAD_REQUEST`. -/
def scanMemberAt (ptr : Nat) (bufs : JsonBuffers outCap) :
    Option (JsonBuffers outCap × Option Nat) :=
  match parseQuotedAt body ptr bufs.name with
  | none => none
  | some (name, none) => some ({ bufs with name := name }, none)
  | some (name, some afterName) =>
    match skipSpacesAt body afterName with
    | none => none
    | some ptr =>
      if ptr ≥ body.length then some ({ bufs with name := name }, none)
      else
        match body[ptr]? with
        | none => none
        | some c =>
          if c ≠ colon then some ({ bufs with name := name }, none)
          else
            match skipSpacesAt body (ptr + 1) with
            | none => none
            | some ptr =>
              if ptr ≥ body.length then some ({ bufs with name := name }, none)
              else
                match body[ptr]? with
                | none => none
                | some q =>
                  if q = quote then
                    (parseQuotedAt body ptr bufs.value).map fun parsed =>
                      ({ bufs with name := name, value := parsed.1 }, parsed.2)
                  else some ({ bufs with name := name }, none)

/-- the `strcmp` branch, with the flag `found` -/
def keepFieldAt (field : CStr) (found : Bool) (bufs : JsonBuffers outCap) :
    Option (Except ApiError (Bool × JsonBuffers outCap)) :=
  match strcmpAt bufs.name.bytes field.array 0 with
  | none => none
  | some false => some (.ok (found, bufs))
  | some true =>
    if found then some (.error .badRequest)
    else
      match strlenAt bufs.value.bytes 0 with
      | none => none
      | some valueLen =>
        if valueLen + 1 > outCap then some (.error .payloadTooLarge)
        else
          match bufs.value.load 0 (valueLen + 1) with
          | none => none
          | some text => (bufs.out.store 0 text).map fun out => .ok (true, { bufs with out := out })

/-- What a turn of the loop leaves: the function's return value, or the next pointer. -/
inductive JsonTurn (outCap : Nat) where
  | returns (e : ApiError) (bufs : JsonBuffers outCap)
  | next (ptr : Nat) (found : Bool) (bufs : JsonBuffers outCap)

/-- the end of a turn, behind a value -/
def jsonTurnEnd (found : Bool) (bufs : JsonBuffers outCap) (afterValue : Nat) :
    Option (JsonTurn outCap) :=
  match skipSpacesAt body afterValue with
  | none => none
  | some ptr =>
    if ptr ≥ body.length then some (.returns .badRequest bufs)
    else
      match body[ptr]? with
      | none => none
      | some d =>
        if d = comma then some (.next (ptr + 1) found bufs)
        else if d = rbrace then some (.next ptr found bufs)
        else some (.returns .badRequest bufs)

/-- the closing brace and what stands behind it -/
def jsonClose (found : Bool) (bufs : JsonBuffers outCap) (ptr : Nat) : Option (JsonTurn outCap) :=
  (skipSpacesAt body (ptr + 1)).map fun ptr =>
    if ptr ≠ body.length then .returns .badRequest bufs
    else .returns (if found then .ok else .missingField) bufs

/-- a turn of the `for (;;)` loop -/
def jsonTurn (field : CStr) (ptr : Nat) (found : Bool) (bufs : JsonBuffers outCap) :
    Option (JsonTurn outCap) :=
  match skipSpacesAt body ptr with
  | none => none
  | some ptr =>
    if ptr ≥ body.length then some (.returns .badRequest bufs)
    else
      match body[ptr]? with
      | none => none
      | some c =>
        if c = rbrace then jsonClose body found bufs ptr
        else
          match scanMemberAt body ptr bufs with
          | none => none
          | some (bufs, none) => some (.returns .badRequest bufs)
          | some (bufs, some afterValue) =>
            match keepFieldAt field found bufs with
            | none => none
            | some (.error e) => some (.returns e bufs)
            | some (.ok (found, bufs)) => jsonTurnEnd body found bufs afterValue

/-! ## a turn that goes on has passed a member -/

theorem skipSpacesAt_ge (ptr q : Nat) (h : skipSpacesAt body ptr = some q) : ptr ≤ q := by
  fun_induction skipSpacesAt body ptr with
  | case1 => cases h
  | case2 ptr hlt c hread hws ih => exact le_trans (Nat.le_succ ptr) (ih h)
  | case3 ptr hlt c hread hws =>
    cases h
    exact le_refl _
  | case4 ptr hge =>
    cases h
    exact le_refl _

theorem closeQuoted_gt {cap : Nat} (ptr pos : Nat) (out out' : Block cap) (q : Nat)
    (h : closeQuoted ptr pos out = some (out', some q)) : ptr < q := by
  unfold closeQuoted at h
  split_ifs at h
  · cases h
  · cases h
  · obtain ⟨out1, -, he⟩ := Option.map_eq_some_iff.mp h
    cases he
    exact Nat.lt_succ_self ptr

theorem parseQuotedLoopAt_gt {cap : Nat} (ptr pos : Nat) (out out' : Block cap) (q : Nat)
    (h : parseQuotedLoopAt body ptr pos out = some (out', some q)) : ptr < q := by
  fun_induction parseQuotedLoopAt body ptr pos out with
  | case2 => exact closeQuoted_gt _ _ _ _ _ h
  | case7 ptr pos out hlt c hread hq decoded r hd hroom out1 hstore ih =>
    have hge := decodedAt_ge body ptr c decoded r hd
    have hgt := ih h
    omega
  | _ => cases h

theorem parseQuotedAt_gt {cap : Nat} (ptr : Nat) (out out' : Block cap) (q : Nat)
    (h : parseQuotedAt body ptr out = some (out', some q)) : ptr < q := by
  unfold parseQuotedAt at h
  split_ifs at h
  · cases h
  · split at h
    · cases h
    · split_ifs at h
      · cases h
      · have hgt := parseQuotedLoopAt_gt body _ _ _ _ _ h
        omega

theorem scanMemberAt_gt (ptr : Nat) (bufs bufs' : JsonBuffers outCap) (q : Nat)
    (h : scanMemberAt body ptr bufs = some (bufs', some q)) : ptr < q := by
  unfold scanMemberAt at h
  split at h
  · cases h
  · cases h
  · rename_i name afterName hname
    have hgt := parseQuotedAt_gt body _ _ _ _ hname
    split at h
    · cases h
    · rename_i ptr1 hskip
      have hge := skipSpacesAt_ge body _ _ hskip
      split_ifs at h
      · cases h
      · split at h
        · cases h
        · split_ifs at h
          · cases h
          · split at h
            · cases h
            · rename_i ptr2 hskip2
              have hge2 := skipSpacesAt_ge body _ _ hskip2
              split_ifs at h
              · cases h
              · split at h
                · cases h
                · split_ifs at h
                  · obtain ⟨⟨value, after⟩, hvalue, he⟩ := Option.map_eq_some_iff.mp h
                    cases he
                    have hgt2 := parseQuotedAt_gt body _ _ _ _ hvalue
                    omega
                  · cases h

theorem jsonTurnEnd_ge (found found' : Bool) (bufs bufs' : JsonBuffers outCap) (after q : Nat)
    (h : jsonTurnEnd body found bufs after = some (.next q found' bufs')) : after ≤ q := by
  unfold jsonTurnEnd at h
  split at h
  · cases h
  · rename_i ptr hskip
    have hge := skipSpacesAt_ge body _ _ hskip
    split_ifs at h
    · cases h
    · split at h
      · cases h
      · split_ifs at h
        · cases h
          exact le_trans hge (Nat.le_succ ptr)
        · cases h
          exact hge
        · cases h

/-- **A turn that goes on has passed a member**, also when the `continue` in front of the closing brace
consumes nothing. -/
theorem jsonTurn_advances (field : CStr) (ptr q : Nat) (found found' : Bool)
    (bufs bufs' : JsonBuffers outCap)
    (h : jsonTurn body field ptr found bufs = some (.next q found' bufs')) :
    ptr < q ∧ ptr < body.length := by
  unfold jsonTurn at h
  split at h
  · cases h
  · rename_i ptr1 hskip
    have hge := skipSpacesAt_ge body _ _ hskip
    split_ifs at h with hend
    · cases h
    · split at h
      · cases h
      · split_ifs at h
        · obtain ⟨ptr2, -, he⟩ := Option.map_eq_some_iff.mp h
          split_ifs at he
        · split at h
          · cases h
          · cases h
          · rename_i bufs1 afterValue hmember
            have hgt := scanMemberAt_gt body _ _ _ _ hmember
            split at h
            · cases h
            · cases h
            · have hge2 := jsonTurnEnd_ge body _ _ _ _ _ _ h
              omega

def jsonMembersAt (field : CStr) (ptr : Nat) (found : Bool) (bufs : JsonBuffers outCap) :
    Option (ApiError × JsonBuffers outCap) :=
  match h : jsonTurn body field ptr found bufs with
  | none => none
  | some (.returns e bufs) => some (e, bufs)
  | some (.next q found bufs) => jsonMembersAt field q found bufs
termination_by body.length - ptr
decreasing_by
  have hadvance := jsonTurn_advances body field ptr q _ found _ bufs h
  omega

end

/-- `json_get_string`, with what its arrays held before -/
def jsonGetStringAt {outCap : Nat} (body : Option Bytes) (field : CStr) (bufs : JsonBuffers outCap) :
    Option (ApiError × JsonBuffers outCap) :=
  match body with
  | none => some (.badRequest, bufs)
  | some body =>
    if outCap = 0 then some (.badRequest, bufs)
    else
      match skipSpacesAt body 0 with
      | none => none
      | some ptr =>
        if ptr ≥ body.length then some (.badRequest, bufs)
        else
          match body[ptr]? with
          | none => none
          | some c =>
            if c ≠ lbrace then some (.badRequest, bufs)
            else jsonMembersAt body field (ptr + 1) false bufs

/-! ## the scanners -/

/-- `ptr` is in the body or at its end, with `p` behind it. -/
structure Behind (body : Bytes) (ptr : Nat) (p : Bytes) : Prop where
  le : ptr ≤ body.length
  rest : body.drop ptr = p

section
variable {body : Bytes}

theorem Behind.end {ptr : Nat} (h : Behind body ptr []) : ptr = body.length :=
  le_antisymm h.le (List.drop_eq_nil_iff.mp h.rest)

theorem Behind.next {ptr : Nat} {c : Byte} {p : Bytes} (h : Behind body ptr (c :: p)) :
    ptr < body.length ∧ body[ptr]? = some c ∧ Behind body (ptr + 1) p := by
  obtain ⟨hread, hdrop⟩ := read_of_drop h.rest
  have hlt := (List.getElem?_eq_some_iff.mp hread).1
  exact ⟨hlt, hread, hlt, hdrop⟩

theorem skipSpacesAt_eq (ptr : Nat) (p : Bytes) (h : Behind body ptr p) :
    ∃ q, skipSpacesAt body ptr = some q ∧ Behind body q (skipSpaces p) := by
  induction p generalizing ptr with
  | nil =>
    refine ⟨ptr, ?_, h⟩
    rw [skipSpacesAt, if_neg (by rw [h.end]; exact lt_irrefl _)]
  | cons c p ih =>
    obtain ⟨hlt, hread, hnext⟩ := h.next
    rw [skipSpacesAt, if_pos hlt, hread, skipSpaces]
    by_cases hws : c = space ∨ c = tab ∨ c = lf ∨ c = cr
    · obtain ⟨q, hskip, hq⟩ := ih (ptr + 1) hnext
      rw [if_pos hws]
      exact ⟨q, (if_pos hws).trans hskip, hq⟩
    · rw [if_neg hws]
      exact ⟨ptr, if_neg hws, h⟩

/-- What a scanned string leaves: nothing, or the string in its array and what stands behind it. -/
def Scanned {cap : Nat} (body : Bytes) (answer : Option (Bytes × Bytes)) (out : Block cap) :
    Option Nat → Prop
  | none => answer = none
  | some q => ∃ v r, answer = some (v, r) ∧ Behind body q r ∧
      out.bytes.take (v.length + 1) = v ++ [0]

theorem parseQuotedLoopAt_read {cap : Nat} (out : Block cap) (ptr pos : Nat) (c : Byte)
    (hlt : ptr < body.length) (hread : body[ptr]? = some c) :
    parseQuotedLoopAt body ptr pos out =
      if c = quote then closeQuoted ptr pos out
      else
        match decodedAt body ptr c with
        | none => none
        | some none => some (out, none)
        | some (some (decoded, q)) =>
          if pos + 1 ≥ cap then some (out, none)
          else
            match out.store pos [decoded] with
            | none => none
            | some out => parseQuotedLoopAt body (q + 1) (pos + 1) out := by
  rw [parseQuotedLoopAt, if_pos hlt, hread]
  by_cases hq : c = quote
  · simp only [if_pos hq]
  · simp only [if_neg hq]
    split <;> rename_i hd <;> rw [hd]

/-- the closing quote behind what the array has -/
theorem closeQuoted_eq {cap : Nat} (out : Block cap) (acc r : Bytes) (ptr : Nat)
    (h : Behind body (ptr + 1) r) (hbegins : out.Begins acc) :
    ∃ out' after, closeQuoted ptr acc.length out = some (out', after) ∧
      Scanned body (some (acc, r)) out' after := by
  have hlt := hbegins.1
  obtain ⟨out', hstore, htake⟩ := out.store_eq acc.length [0] hlt
  rw [hbegins.2] at htake
  refine ⟨out', some (ptr + 1), ?_, acc, r, rfl, h, htake⟩
  unfold closeQuoted
  rw [if_neg (by omega), if_neg (by omega), hstore]
  rfl

/-- A byte that the loop puts into its array: the room that it needs there is checked first. -/
theorem parseQuotedLoopAt_push {cap : Nat} (out : Block cap) (acc : Bytes) (ptr q : Nat) (c d : Byte)
    (hlt : ptr < body.length) (hread : body[ptr]? = some c) (hq : c ≠ quote)
    (hdecoded : decodedAt body ptr c = some (some (d, q))) (hbegins : out.Begins acc) :
    (cap ≤ acc.length + 1 ∧ parseQuotedLoopAt body ptr acc.length out = some (out, none)) ∨
      (¬ cap ≤ acc.length + 1 ∧ ∃ out', out'.Begins (acc ++ [d]) ∧
        parseQuotedLoopAt body ptr acc.length out =
          parseQuotedLoopAt body (q + 1) (acc ++ [d]).length out') := by
  rw [parseQuotedLoopAt_read out ptr acc.length c hlt hread, if_neg hq, hdecoded]
  simp only
  by_cases hfull : cap ≤ acc.length + 1
  · exact .inl ⟨hfull, if_pos hfull⟩
  · obtain ⟨out', hstore, hbegins'⟩ := hbegins.store d (not_le.mp hfull)
    refine .inr ⟨hfull, out', hbegins', ?_⟩
    rw [if_neg hfull, hstore, List.length_append]
    rfl

theorem decodedAt_escape (ptr : Nat) (s : Byte) (rest : Bytes)
    (h : Behind body ptr (backslash :: s :: rest)) :
    decodedAt body ptr backslash = some ((unescape s).map fun d => (d, ptr + 1)) ∧
      Behind body (ptr + 1 + 1) rest := by
  obtain ⟨-, -, hnext⟩ := h.next
  obtain ⟨hlt, hread, hrest⟩ := hnext.next
  refine ⟨?_, hrest⟩
  unfold decodedAt
  rw [if_pos rfl, if_neg (not_le.mpr hlt), hread]

/-- **The loop of `parse_quoted` in its array.** -/
theorem parseQuotedLoopAt_eq {cap : Nat} (out : Block cap) (acc p : Bytes) (ptr : Nat)
    (h : Behind body ptr p) (hbegins : out.Begins acc) :
    ∃ out' after, parseQuotedLoopAt body ptr acc.length out = some (out', after) ∧
      Scanned body (parseQuotedLoop cap acc p) out' after := by
  have hcap := hbegins.1
  fun_induction parseQuotedLoop cap acc p generalizing ptr out with
  | case1 acc =>
    refine ⟨out, none, ?_, rfl⟩
    rw [parseQuotedLoopAt, if_neg (by rw [h.end]; exact lt_irrefl _)]
  | case2 acc rest hzero => omega
  | case3 acc rest hcap0 hfull => omega
  | case4 acc rest hcap0 hroom =>
    obtain ⟨hlt, hread, hnext⟩ := h.next
    rw [parseQuotedLoopAt_read out ptr acc.length quote hlt hread, if_pos rfl]
    exact closeQuoted_eq out acc rest ptr hnext hbegins
  | case5 acc hq =>
    obtain ⟨hlt, hread, hnext⟩ := h.next
    have hdecoded : decodedAt body ptr backslash = some none := by
      unfold decodedAt
      rw [if_pos rfl, if_pos hnext.end.ge]
    rw [parseQuotedLoopAt_read out ptr acc.length backslash hlt hread, if_neg hq, hdecoded]
    exact ⟨out, none, rfl, rfl⟩
  | case6 acc s rest hs hq =>
    obtain ⟨hlt, hread, -⟩ := h.next
    have hdecoded := (decodedAt_escape ptr s rest h).1
    rw [hs] at hdecoded
    rw [parseQuotedLoopAt_read out ptr acc.length backslash hlt hread, if_neg hq, hdecoded]
    exact ⟨out, none, rfl, rfl⟩
  | case7 acc s rest decoded hs hfull hq =>
    obtain ⟨hlt, hread, -⟩ := h.next
    have hdecoded := (decodedAt_escape ptr s rest h).1
    rw [hs] at hdecoded
    rcases parseQuotedLoopAt_push out acc ptr _ _ _ hlt hread hq hdecoded hbegins with hnull | hpush
    · exact ⟨out, none, hnull.2, rfl⟩
    · exact absurd hfull hpush.1
  | case8 acc s rest decoded hs hroom hq ih =>
    obtain ⟨hlt, hread, -⟩ := h.next
    obtain ⟨hdecoded, hrest⟩ := decodedAt_escape ptr s rest h
    rw [hs] at hdecoded
    rcases parseQuotedLoopAt_push out acc ptr _ _ _ hlt hread hq hdecoded hbegins with hnull | hpush
    · exact absurd hnull.1 hroom
    · obtain ⟨-, out', hbegins', hloop⟩ := hpush
      rw [hloop]
      exact ih out' _ hrest hbegins' hbegins'.1
  | case9 acc c rest hq hb hfull =>
    obtain ⟨hlt, hread, -⟩ := h.next
    rcases parseQuotedLoopAt_push out acc ptr _ _ _ hlt hread hq (if_neg hb) hbegins with hnull | hpush
    · exact ⟨out, none, hnull.2, rfl⟩
    · exact absurd hfull hpush.1
  | case10 acc c rest hq hb hroom ih =>
    obtain ⟨hlt, hread, hrest⟩ := h.next
    rcases parseQuotedLoopAt_push out acc ptr _ _ _ hlt hread hq (if_neg hb) hbegins with hnull | hpush
    · exact absurd hnull.1 hroom
    · obtain ⟨-, out', hbegins', hloop⟩ := hpush
      rw [hloop]
      exact ih out' _ hrest hbegins' hbegins'.1

theorem parseQuotedAt_eq {cap : Nat} (out : Block cap) (hcap : 0 < cap) (p : Bytes) (ptr : Nat)
    (h : Behind body ptr p) :
    ∃ out' after, parseQuotedAt body ptr out = some (out', after) ∧
      Scanned body (parseQuoted cap p) out' after := by
  unfold parseQuotedAt
  cases p with
  | nil => exact ⟨out, none, if_pos h.end.ge, rfl⟩
  | cons c p =>
    obtain ⟨hlt, hread, hnext⟩ := h.next
    rw [if_neg (not_le.mpr hlt), hread, parseQuoted]
    by_cases hc : c ≠ quote
    · rw [if_pos hc]
      exact ⟨out, none, if_pos hc, rfl⟩
    · rw [if_neg hc]
      obtain ⟨out', after, hloop, hscanned⟩ := parseQuotedLoopAt_eq out [] p (ptr + 1) hnext ⟨hcap, rfl⟩
      exact ⟨out', after, (if_neg hc).trans hloop, hscanned⟩

/-! ## a turn of the loop -/

variable {outCap : Nat}

/-- What the scan of a member leaves: nothing, or its name and value in their arrays. -/
def MemberScanned (body : Bytes) (answer : Option (Bytes × Bytes × Bytes)) (bufs : JsonBuffers outCap) :
    Option Nat → Prop
  | none => answer = none
  | some q => ∃ name value r, answer = some (name, value, r) ∧ Behind body q r ∧
      bufs.name.bytes.take (name.length + 1) = name ++ [0] ∧
      bufs.value.bytes.take (value.length + 1) = value ++ [0]

theorem scanMemberAt_eq (bufs : JsonBuffers outCap) (p : Bytes) (ptr : Nat) (h : Behind body ptr p) :
    ∃ bufs' after, scanMemberAt body ptr bufs = some (bufs', after) ∧ bufs'.out = bufs.out ∧
      MemberScanned body (scanMember p) bufs' after := by
  obtain ⟨name', afterName, hname, hscanned⟩ := parseQuotedAt_eq bufs.name (by decide) p ptr h
  unfold scanMemberAt scanMember
  rw [hname]
  cases afterName with
  | none =>
    rw [show parseQuoted JSON_NAME_CAP p = none from hscanned]
    exact ⟨_, none, rfl, rfl, rfl⟩
  | some q1 =>
    obtain ⟨name, r1, hanswer, hq1, hnul⟩ := hscanned
    obtain ⟨q2, hskip, hq2⟩ := skipSpacesAt_eq q1 r1 hq1
    rw [hanswer]
    simp only
    rw [hskip]
    cases hr1 : skipSpaces r1 with
    | nil =>
      rw [hr1] at hq2
      exact ⟨_, none, if_pos hq2.end.ge, rfl, rfl⟩
    | cons c r2 =>
      rw [hr1] at hq2
      obtain ⟨hlt, hread, hnext⟩ := hq2.next
      simp only
      rw [if_neg (not_le.mpr hlt), hread]
      simp only
      by_cases hc : c ≠ colon
      · rw [if_pos hc, if_pos hc]
        exact ⟨_, none, rfl, rfl, rfl⟩
      · obtain ⟨q3, hskip3, hq3⟩ := skipSpacesAt_eq (q2 + 1) r2 hnext
        rw [if_neg hc, if_neg hc, hskip3]
        cases hr2 : skipSpaces r2 with
        | nil =>
          rw [hr2] at hq3
          exact ⟨_, none, if_pos hq3.end.ge, rfl, rfl⟩
        | cons q r3 =>
          rw [hr2] at hq3
          obtain ⟨hlt3, hread3, -⟩ := hq3.next
          simp only
          rw [if_neg (not_le.mpr hlt3), hread3]
          simp only
          by_cases hq : q = quote
          · obtain ⟨value', afterValue, hvalue, hscanned3⟩ :=
              parseQuotedAt_eq bufs.value (by decide) (q :: r3) q3 hq3
            rw [if_pos hq, if_pos hq, hvalue]
            refine ⟨_, afterValue, rfl, rfl, ?_⟩
            cases afterValue with
            | none =>
              rw [show parseQuoted JSON_VALUE_CAP (q :: r3) = none from hscanned3]
              rfl
            | some q4 =>
              obtain ⟨value, r4, hanswer4, hq4, hnul4⟩ := hscanned3
              rw [hanswer4]
              exact ⟨name, value, r4, rfl, hq4, hnul, hnul4⟩
          · rw [if_neg hq, if_neg hq]
            exact ⟨_, none, rfl, rfl, rfl⟩

/-- the flag `found`, and the string in `out` once it is set -/
structure Kept (bufs : JsonBuffers outCap) (found : Bool) (kept : Option CStr) : Prop where
  flag : found = kept.isSome
  text : ∀ s, kept = some s → bufs.out.bytes.take (s.bytes.length + 1) = s.bytes ++ [0]

/-- the string that an array holds ends at its first NUL -/
theorem array_split (mem text : Bytes) (h : mem.take (text.length + 1) = text ++ [0]) :
    ∃ more, mem = cstr text ++ 0 :: more := by
  obtain ⟨behind, hmem⟩ : ∃ behind, mem = text ++ 0 :: behind := by
    refine ⟨mem.drop (text.length + 1), ?_⟩
    conv_lhs => rw [← List.take_append_drop (text.length + 1) mem, h]
    exact List.append_assoc _ _ _
  have hsplit : cstr text ++ text.dropWhile (fun c => c != 0) = text :=
    List.takeWhile_append_dropWhile
  cases hrest : text.dropWhile fun c => c != 0 with
  | nil =>
    rw [hrest, List.append_nil] at hsplit
    exact ⟨behind, by rw [hsplit, hmem]⟩
  | cons c rest =>
    have hc : c = 0 := by
      have hhead := List.head_dropWhile_not (fun c : Byte => c != 0) (l := text)
        (by rw [hrest]; exact List.cons_ne_nil _ _)
      simp only [hrest, List.head_cons] at hhead
      simpa using hhead
    rw [hrest, hc] at hsplit
    refine ⟨rest ++ 0 :: behind, ?_⟩
    calc mem = (cstr text ++ 0 :: rest) ++ 0 :: behind := by rw [hsplit, hmem]
      _ = cstr text ++ 0 :: (rest ++ 0 :: behind) := List.append_assoc _ _ _

theorem keepFieldAt_eq (field : CStr) (bufs : JsonBuffers outCap) (found : Bool) (kept : Option CStr)
    (hkept : Kept bufs found kept) (name value : Bytes)
    (hname : bufs.name.bytes.take (name.length + 1) = name ++ [0])
    (hvalue : bufs.value.bytes.take (value.length + 1) = value ++ [0]) :
    (∃ e, keepFieldAt field found bufs = some (.error e) ∧
        keepField field outCap kept name value = .error e) ∨
      ∃ found' bufs' kept', keepFieldAt field found bufs = some (.ok (found', bufs')) ∧
        keepField field outCap kept name value = .ok kept' ∧ Kept bufs' found' kept' := by
  obtain ⟨moreName, hsplit⟩ := array_split _ _ hname
  obtain ⟨moreValue, hsplit'⟩ := array_split _ _ hvalue
  have hcmp : strcmpAt bufs.name.bytes field.array 0 = some (decide (cstr name = field.bytes)) :=
    strcmpAt_eq field.array 0 (cstr name) field.bytes moreName [] hsplit rfl (cstr_nulFree name)
      field.nulFree
  have hlen : strlenAt bufs.value.bytes 0 = some (cstr value).length :=
    strlenAt_run 0 (cstr value) moreValue hsplit' (cstr_nulFree value)
  unfold keepFieldAt keepField
  rw [hcmp]
  by_cases hfield : cstr name = field.bytes
  · rw [if_pos hfield, decide_eq_true hfield, hkept.flag]
    simp only
    by_cases hsome : kept.isSome = true
    · rw [if_pos hsome, if_pos hsome]
      exact .inl ⟨_, rfl, rfl⟩
    · rw [if_neg hsome, if_neg hsome, hlen]
      simp only
      by_cases hroom : (cstr value).length + 1 > outCap
      · rw [if_pos hroom, if_pos hroom]
        exact .inl ⟨_, rfl, rfl⟩
      · have hinside : 0 + ((cstr value).length + 1) ≤ JSON_VALUE_CAP := by
          have hsize := bufs.value.size
          rw [hsplit', List.length_append, List.length_cons] at hsize
          omega
        have hload : bufs.value.load 0 ((cstr value).length + 1) = some (cstr value ++ [0]) := by
          rw [Block.load_eq _ _ _ hinside, List.drop_zero, hsplit']
          have hcut : (cstr value ++ [0]).length = (cstr value).length + 1 := List.length_append
          rw [← hcut, show cstr value ++ 0 :: moreValue = (cstr value ++ [0]) ++ moreValue by simp]
          exact congrArg some List.take_left
        obtain ⟨out, hstore, htake⟩ := bufs.out.store_eq 0 (cstr value ++ [0]) (by
          rw [List.length_append, List.length_singleton]
          omega)
        rw [if_neg hroom, if_neg hroom, hload]
        simp only
        rw [hstore]
        refine .inr ⟨true, _, _, rfl, rfl, rfl, fun s hs => ?_⟩
        cases hs
        rw [List.take_zero, List.nil_append, List.length_append, Nat.zero_add] at htake
        exact htake
  · rw [if_neg hfield, decide_eq_false hfield]
    exact .inr ⟨found, bufs, kept, rfl, rfl, hkept⟩

section
variable (field : CStr) (found : Bool) (bufs : JsonBuffers outCap) {ptr : Nat} {p : Bytes}

theorem jsonTurn_end (h : Behind body ptr p) (hp : skipSpaces p = []) :
    jsonTurn body field ptr found bufs = some (.returns .badRequest bufs) := by
  obtain ⟨q, hskip, hq⟩ := skipSpacesAt_eq ptr p h
  rw [hp] at hq
  unfold jsonTurn
  rw [hskip]
  exact if_pos hq.end.ge

theorem jsonTurn_close (h : Behind body ptr p) (rest : Bytes) (hp : skipSpaces p = rbrace :: rest) :
    jsonTurn body field ptr found bufs =
      some (.returns (if skipSpaces rest = [] then (if found then .ok else .missingField)
        else .badRequest) bufs) := by
  obtain ⟨q, hskip, hq⟩ := skipSpacesAt_eq ptr p h
  rw [hp] at hq
  obtain ⟨hlt, hread, hnext⟩ := hq.next
  obtain ⟨q', hskip', hq'⟩ := skipSpacesAt_eq (q + 1) rest hnext
  unfold jsonTurn
  rw [hskip]
  simp only
  rw [if_neg (not_le.mpr hlt), hread]
  simp only [if_true]
  unfold jsonClose
  rw [hskip', Option.map_some]
  by_cases hend : skipSpaces rest = []
  · rw [hend] at hq'
    rw [if_neg (not_not_intro hq'.end), if_pos hend]
  · have hmore : q' ≠ body.length := by
      intro he
      apply hend
      rw [← hq'.rest, he, List.drop_length]
    rw [if_pos hmore, if_neg hend]

/-- a turn that scans a member -/
theorem jsonTurn_member (h : Behind body ptr p) (c : Byte) (rest : Bytes)
    (hp : skipSpaces p = c :: rest) (hc : c ≠ rbrace) (kept : Option CStr)
    (hkept : Kept bufs found kept) :
    match scanMember (c :: rest) with
    | none => ∃ bufs', jsonTurn body field ptr found bufs = some (.returns .badRequest bufs')
    | some (name, value, r) =>
      match keepField field outCap kept name value with
      | .error e => ∃ bufs', jsonTurn body field ptr found bufs = some (.returns e bufs')
      | .ok kept' => ∃ found' bufs' q, Kept bufs' found' kept' ∧ Behind body q r ∧
          jsonTurn body field ptr found bufs = jsonTurnEnd body found' bufs' q := by
  obtain ⟨q, hskip, hq⟩ := skipSpacesAt_eq ptr p h
  rw [hp] at hq
  obtain ⟨hlt, hread, -⟩ := hq.next
  obtain ⟨bufs1, after, hmember, hout, hscanned⟩ := scanMemberAt_eq bufs (c :: rest) q hq
  have hturn : jsonTurn body field ptr found bufs =
      match (some (bufs1, after) : Option (JsonBuffers outCap × Option Nat)) with
      | none => none
      | some (bufs, none) => some (.returns .badRequest bufs)
      | some (bufs, some afterValue) =>
        match keepFieldAt field found bufs with
        | none => none
        | some (.error e) => some (.returns e bufs)
        | some (.ok (found, bufs)) => jsonTurnEnd body found bufs afterValue := by
    unfold jsonTurn
    rw [hskip]
    simp only
    rw [if_neg (not_le.mpr hlt), hread]
    simp only
    rw [if_neg hc, hmember]
  rw [hturn]
  cases after with
  | none =>
    rw [show scanMember (c :: rest) = none from hscanned]
    exact ⟨bufs1, rfl⟩
  | some q1 =>
    obtain ⟨name, value, r, hanswer, hq1, hname, hvalue⟩ := hscanned
    have hkept1 : Kept bufs1 found kept := ⟨hkept.flag, fun s hs => by rw [hout]; exact hkept.text s hs⟩
    rw [hanswer]
    simp only
    rcases keepFieldAt_eq field bufs1 found kept hkept1 name value hname hvalue with
      ⟨e, hat, hlist⟩ | ⟨found', bufs', kept', hat, hlist, hkept'⟩
    · rw [hat, hlist]
      exact ⟨bufs1, rfl⟩
    · rw [hat, hlist]
      exact ⟨found', bufs', q1, hkept', hq1, rfl⟩

/-- the turn goes on behind the value -/
theorem jsonTurn_kept (h : Behind body ptr p) (c : Byte) (rest : Bytes)
    (hp : skipSpaces p = c :: rest) (hc : c ≠ rbrace) (kept : Option CStr)
    (hkept : Kept bufs found kept) {name value r : Bytes} {kept' : Option CStr}
    (hm : scanMember (c :: rest) = some (name, value, r))
    (hkeep : keepField field outCap kept name value = .ok kept') :
    ∃ found' bufs' q, Kept bufs' found' kept' ∧ Behind body q r ∧
      jsonTurn body field ptr found bufs = jsonTurnEnd body found' bufs' q := by
  have hmember := jsonTurn_member field found bufs h c rest hp hc kept hkept
  rw [hm] at hmember
  simp only [hkeep] at hmember
  exact hmember

theorem jsonTurnEnd_eq (h : Behind body ptr p) :
    match skipSpaces p with
    | [] => jsonTurnEnd body found bufs ptr = some (.returns .badRequest bufs)
    | d :: rest =>
      if d = comma then
        ∃ q, Behind body q rest ∧ jsonTurnEnd body found bufs ptr = some (.next q found bufs)
      else if d = rbrace then
        ∃ q, Behind body q (d :: rest) ∧ jsonTurnEnd body found bufs ptr = some (.next q found bufs)
      else jsonTurnEnd body found bufs ptr = some (.returns .badRequest bufs) := by
  obtain ⟨q, hskip, hq⟩ := skipSpacesAt_eq ptr p h
  unfold jsonTurnEnd
  rw [hskip]
  cases hp : skipSpaces p with
  | nil =>
    rw [hp] at hq
    exact if_pos hq.end.ge
  | cons d rest =>
    rw [hp] at hq
    obtain ⟨hlt, hread, hnext⟩ := hq.next
    simp only
    rw [if_neg (not_le.mpr hlt), hread]
    simp only
    split_ifs
    · exact ⟨q + 1, hnext, rfl⟩
    · exact ⟨q, hq, rfl⟩
    · rfl

end

/-! ## the whole function -/

/-- The answer of the list form: the same error, or `API_OK` and the string in `out`. -/
def JsonAnswered (answer : Except ApiError CStr) (r : ApiError × JsonBuffers outCap) : Prop :=
  match answer with
  | .error e => r.1 = e
  | .ok s => r.1 = .ok ∧ r.2.out.bytes.take (s.bytes.length + 1) = s.bytes ++ [0]

theorem jsonMembersAt_turn (field : CStr) (ptr : Nat) (found : Bool) (bufs : JsonBuffers outCap) :
    jsonMembersAt body field ptr found bufs =
      match jsonTurn body field ptr found bufs with
      | none => none
      | some (.returns e bufs) => some (e, bufs)
      | some (.next q found bufs) => jsonMembersAt body field q found bufs := by
  rw [jsonMembersAt]
  split <;> rename_i h <;> rw [h]

/-- a turn that returns -/
theorem jsonMembersAt_returns (field : CStr) (ptr : Nat) (found : Bool) (bufs bufs' : JsonBuffers outCap)
    (e : ApiError) (h : jsonTurn body field ptr found bufs = some (.returns e bufs')) :
    jsonMembersAt body field ptr found bufs = some (e, bufs') := by
  rw [jsonMembersAt_turn, h]

/-- **The loop in its arrays.** -/
theorem jsonMembersAt_eq (field : CStr) (p : Bytes) (ptr : Nat) (found : Bool) (kept : Option CStr)
    (bufs : JsonBuffers outCap) (h : Behind body ptr p) (hkept : Kept bufs found kept) :
    ∃ r, jsonMembersAt body field ptr found bufs = some r ∧
      JsonAnswered (jsonMembers field outCap kept p) r := by
  fun_induction jsonMembers field outCap kept p generalizing ptr found bufs with
  | case1 kept p hp =>
    exact ⟨_, jsonMembersAt_returns _ _ _ _ _ _ (jsonTurn_end field found bufs h hp), rfl⟩
  | case2 =>
    rename_i p rest hend out hp
    have hclose := jsonTurn_close field found bufs h rest hp
    obtain rfl : found = true := hkept.flag
    rw [if_pos hend, if_pos rfl] at hclose
    exact ⟨_, jsonMembersAt_returns _ _ _ _ _ _ hclose, rfl, hkept.text out rfl⟩
  | case3 =>
    rename_i p rest hend hp
    have hclose := jsonTurn_close field found bufs h rest hp
    obtain rfl : found = false := hkept.flag
    rw [if_pos hend, if_neg Bool.false_ne_true] at hclose
    exact ⟨_, jsonMembersAt_returns _ _ _ _ _ _ hclose, rfl⟩
  | case4 =>
    rename_i kept p rest hend hp
    have hclose := jsonTurn_close field found bufs h rest hp
    rw [if_neg hend] at hclose
    exact ⟨_, jsonMembersAt_returns _ _ _ _ _ _ hclose, rfl⟩
  | case5 =>
    rename_i kept p c rest hp hc hm
    have hmember := jsonTurn_member field found bufs h c rest hp hc kept hkept
    rw [hm] at hmember
    obtain ⟨bufs', hturn⟩ := hmember
    exact ⟨_, jsonMembersAt_returns _ _ _ _ _ _ hturn, rfl⟩
  | case6 =>
    rename_i kept p c rest hp hc name value after hm e hkeep
    have hmember := jsonTurn_member field found bufs h c rest hp hc kept hkept
    rw [hm] at hmember
    simp only [hkeep] at hmember
    obtain ⟨bufs', hturn⟩ := hmember
    exact ⟨_, jsonMembersAt_returns _ _ _ _ _ _ hturn, rfl⟩
  | case7 =>
    rename_i kept p c rest hp hc name value after hm kept' hkeep hs
    obtain ⟨found', bufs', q, hkept', hq, hturn⟩ :=
      jsonTurn_kept field found bufs h c rest hp hc kept hkept hm hkeep
    have hend := jsonTurnEnd_eq found' bufs' hq
    rw [hs] at hend
    exact ⟨_, jsonMembersAt_returns _ _ _ _ _ _ (hturn.trans hend), rfl⟩
  | case8 =>
    rename_i kept p c rest hp hc name value after hm kept' hkeep rest' hs ih
    obtain ⟨found', bufs', q, hkept', hq, hturn⟩ :=
      jsonTurn_kept field found bufs h c rest hp hc kept hkept hm hkeep
    have hend := jsonTurnEnd_eq found' bufs' hq
    rw [hs] at hend
    simp only [if_true] at hend
    obtain ⟨q', hq', hnext⟩ := hend
    rw [jsonMembersAt_turn, hturn, hnext]
    exact ih q' found' bufs' hq' hkept'
  | case9 =>
    rename_i kept p c rest hp hc name value after hm kept' hkeep rest' hs hcomma ih
    obtain ⟨found', bufs', q, hkept', hq, hturn⟩ :=
      jsonTurn_kept field found bufs h c rest hp hc kept hkept hm hkeep
    have hend := jsonTurnEnd_eq found' bufs' hq
    rw [hs] at hend
    simp only [if_neg hcomma, if_true] at hend
    obtain ⟨q', hq', hnext⟩ := hend
    rw [jsonMembersAt_turn, hturn, hnext]
    exact ih q' found' bufs' hq' hkept'
  | case10 =>
    rename_i kept p c rest hp hc name value after hm kept' hkeep d rest' hs hcomma hbrace
    obtain ⟨found', bufs', q, hkept', hq, hturn⟩ :=
      jsonTurn_kept field found bufs h c rest hp hc kept hkept hm hkeep
    have hend := jsonTurnEnd_eq found' bufs' hq
    rw [hs] at hend
    simp only [if_neg hcomma, if_neg hbrace] at hend
    exact ⟨_, jsonMembersAt_returns _ _ _ _ _ _ (hturn.trans hend), rfl⟩

end

/-- **`json_get_string` is safe on every input**: it returns without an access outside the body and its
arrays, with the answer of its list form. -/
theorem jsonGetString_safe {outCap : Nat} (body : Option Bytes) (field : CStr)
    (bufs : JsonBuffers outCap) :
    ∃ r, jsonGetStringAt body field bufs = some r ∧
      JsonAnswered (jsonGetString body field outCap) r := by
  cases body with
  | none => exact ⟨_, rfl, rfl⟩
  | some body =>
    unfold jsonGetStringAt jsonGetString
    simp only
    by_cases hcap : outCap = 0
    · rw [if_pos hcap, if_pos hcap]
      exact ⟨_, rfl, rfl⟩
    · obtain ⟨q, hskip, hq⟩ := skipSpacesAt_eq 0 body ⟨Nat.zero_le _, rfl⟩
      rw [if_neg hcap, if_neg hcap, hskip]
      cases hp : skipSpaces body with
      | nil =>
        rw [hp] at hq
        exact ⟨_, if_pos hq.end.ge, rfl⟩
      | cons c p =>
        rw [hp] at hq
        obtain ⟨hlt, hread, hnext⟩ := hq.next
        simp only
        rw [if_neg (not_le.mpr hlt), hread]
        simp only
        by_cases hc : c ≠ lbrace
        · rw [if_pos hc, if_pos hc]
          exact ⟨_, rfl, rfl⟩
        · rw [if_neg hc, if_neg hc]
          exact jsonMembersAt_eq field p (q + 1) false none bufs hnext ⟨rfl, fun s hs => nomatch hs⟩

end CServer
