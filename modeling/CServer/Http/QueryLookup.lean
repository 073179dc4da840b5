import CServer.Http.Query
import CServer.Lib.Memory
import CServer.Lib.Reads
import CServer.Lib.Strtol

/-!
# `http_query_get` against splitting the query

The function runs over the array of the query string with a cursor; a read outside that array, or a
write outside `out`, is `none`.

* `queryTurn`, `queryLoopAt`, `queryGetInto`   the function;
* `queryValue`             the value of the first piece with the name: the query split at `&`, a piece
                           split at its first `=`;
* `queryTurn_answer`, `queryTurn_skip`   one turn, by the piece in front of the cursor;
* `queryLookup_exact`      the function answers that value;
* `httpQueryGet_value`     and so does the model without arrays.
-/

set_option linter.unusedVariables false

namespace CServer

abbrev ampersand : Byte := 38
abbrev equals : Byte := 61

/-- a byte of the value as it is copied -/
def plusToSpace (c : Byte) : Byte := if c = 43 then space else c

section
variable {outCap : Nat} (query key : CStr)

/-! ## the function -/

/-- the copying loop, with `n` bytes of `value_len` to come -/
def copyValue (mem : Bytes) (value : Nat) (out : Block outCap) : Nat → Nat → Option (Block outCap)
  | _, 0 => some out
  | i, n + 1 =>
    match mem[value + i]? with
    | none => none
    | some c =>
      match out.store i [plusToSpace c] with
      | none => none
      | some out => copyValue mem value out (i + 1) n

/-- behind the comparison: `value_len` bytes at `value` -/
def queryAnswer (value valueLen : Nat) (out : Block outCap) : Option (Int × Block outCap) :=
  if valueLen + 1 > outCap then some (-2, out)
  else
    match copyValue query.array value out 0 valueLen with
    | none => none
    | some out => (out.store valueLen [0]).map fun out => (0, out)

/-- `name_len == key_len && memcmp(cursor, key, key_len) == 0` -/
def nameMatches (cursor nameLen : Nat) : Option Bool :=
  if nameLen = key.length then
    match rangeAt query.array cursor key.length, rangeAt key.array 0 key.length with
    | some a, some b => some (decide (a = b))
    | _, _ => none
  else some false

/-- `amp == NULL ? strlen(cursor) : amp - cursor` -/
def pairLenAt (cursor : Nat) (amp : Option Nat) : Option Nat :=
  match amp with
  | none => strlenAt query.array cursor
  | some a => some (a - cursor)

/-- what a turn of the loop ends with: the result, or the next cursor -/
inductive QueryTurn (outCap : Nat) where
  | answer (result : Int × Block outCap)
  | next (cursor : Nat)

/-- a turn behind `strchr` and the length of the pair -/
def pairTurn (out : Block outCap) (cursor : Nat) (amp : Option Nat) (pairLen : Nat) :
    Option (QueryTurn outCap) :=
  match memchrAt query.array equals cursor pairLen with
  | none => none
  | some eq =>
    let nameLen := match eq with
      | none => pairLen
      | some e => e - cursor
    match nameMatches query key cursor nameLen with
    | none => none
    | some true =>
      match eq with
      | none => (queryAnswer query 0 0 out).map .answer
      | some e => (queryAnswer query (e + 1) (pairLen - nameLen - 1) out).map .answer
    | some false =>
      match amp with
      | none => some (.answer (-1, out))
      | some a => some (.next (a + 1))

def queryTurn (out : Block outCap) (cursor : Nat) : Option (QueryTurn outCap) :=
  match query.array[cursor]? with
  | none => none
  | some c =>
    if c = 0 then some (.answer (-1, out))
    else
      match strchrAt query.array ampersand cursor with
      | none => none
      | some amp =>
        match pairLenAt query cursor amp with
        | none => none
        | some pairLen => pairTurn query key out cursor amp pairLen

theorem pairTurn_next (out : Block outCap) (cursor : Nat) (amp : Option Nat) (pairLen next : Nat)
    (h : pairTurn query key out cursor amp pairLen = some (.next next)) :
    ∃ a, amp = some a ∧ next = a + 1 := by
  unfold pairTurn at h
  split at h
  · cases h
  · dsimp only at h
    split at h
    · cases h
    · split at h <;>
      · obtain ⟨_, _, he⟩ := Option.map_eq_some_iff.mp h
        cases he
    · split at h
      · cases h
      · cases h
        exact ⟨_, rfl, rfl⟩

/-- the cursor only moves on, inside the array -/
theorem queryTurn_next (out : Block outCap) (cursor next : Nat)
    (h : queryTurn query key out cursor = some (.next next)) :
    cursor < next ∧ cursor < query.array.length := by
  unfold queryTurn at h
  split at h
  · cases h
  · rename_i c hread
    refine ⟨?_, (List.getElem?_eq_some_iff.mp hread).1⟩
    split_ifs at h
    · cases h
    · split at h
      · cases h
      · rename_i amp hamp
        split at h
        · cases h
        · obtain ⟨a, rfl, rfl⟩ := pairTurn_next query key _ _ _ _ _ h
          have hbound := strchrAt_bound _ _ _ hamp
          omega

def queryLoopAt (out : Block outCap) (cursor : Nat) : Option (Int × Block outCap) :=
  match h : queryTurn query key out cursor with
  | none => none
  | some (.answer result) => some result
  | some (.next next) => queryLoopAt out next
termination_by query.array.length - cursor
decreasing_by
  have hnext := queryTurn_next query key out cursor next h
  omega

/-- `http_query_get` with non-NULL arguments -/
def queryGetInto (out : Block outCap) : Option (Int × Block outCap) :=
  if outCap = 0 then some (-1, out) else queryLoopAt query key out 0

/-! ## the specification -/

/-- the name of a piece: what stands in front of its first `=` -/
def pieceName (piece : Bytes) : Bytes := piece.takeWhile fun c => c != equals

/-- the value of the first piece with the name -/
def queryValue (query key : Bytes) : Option Bytes :=
  ((query.splitOn ampersand).find? fun piece => decide (pieceName piece = key)).map pairValue

/-- `-1` without a value, `-2` for one that is too long, and otherwise `0` with the value in `out`,
its `+` replaced by spaces -/
def AnswersQuery (value : Option Bytes) (out : Block outCap) (r : Option (Int × Block outCap)) :
    Prop :=
  match value with
  | none => r = some (-1, out)
  | some v =>
    if v.length < outCap then
      ∃ out', r = some (0, out') ∧ out'.bytes.take (v.length + 1) = v.map plusToSpace ++ [0]
    else r = some (-2, out)

theorem queryValue_nil (key : Bytes) (h : key ≠ []) : queryValue [] key = none := by
  have hname : pieceName [] ≠ key := fun he => h he.symm
  show (List.find? (fun piece => decide (pieceName piece = key)) [[]]).map pairValue = none
  rw [List.find?_cons, decide_eq_false hname]
  rfl

theorem find_head (key piece : Bytes) (pieces : List Bytes) :
    ((piece :: pieces).find? fun p => decide (pieceName p = key)).map pairValue =
      if pieceName piece = key then some (pairValue piece)
      else (pieces.find? fun p => decide (pieceName p = key)).map pairValue := by
  by_cases h : pieceName piece = key
  · rw [List.find?_cons, if_pos h, decide_eq_true h]
    rfl
  · rw [List.find?_cons, if_neg h, decide_eq_false h]

theorem queryValue_last (key piece : Bytes) (h : ampersand ∉ piece) :
    queryValue piece key = if pieceName piece = key then some (pairValue piece) else none := by
  unfold queryValue
  rw [List.splitOn_eq_singleton h, find_head]
  rfl

theorem queryValue_more (key piece more : Bytes) (h : ampersand ∉ piece) :
    queryValue (piece ++ ampersand :: more) key =
      if pieceName piece = key then some (pairValue piece) else queryValue more key := by
  unfold queryValue
  rw [List.splitOn_append_cons_self_of_not_mem h, find_head]

/-! ## one turn -/

variable {query key}

theorem array_drop (query : CStr) (cursor : Nat) (h : cursor ≤ query.bytes.length) :
    query.array.drop cursor = query.bytes.drop cursor ++ [0] := List.drop_append_of_le_length h

theorem copyValue_eq (mem : Bytes) (value : Nat) (out : Block outCap) (text v : Bytes)
    (h : out.Begins text) (hread : ∀ i < v.length, mem[value + (text.length + i)]? = v[i]?)
    (hroom : text.length + v.length < outCap) :
    ∃ out', copyValue mem value out text.length v.length = some out' ∧
      out'.Begins (text ++ v.map plusToSpace) := by
  induction v generalizing out text with
  | nil => exact ⟨out, rfl, by rwa [List.map_nil, List.append_nil]⟩
  | cons c v ih =>
    have hc : mem[value + text.length]? = some c := hread 0 (Nat.succ_pos _)
    rw [List.length_cons] at hroom
    obtain ⟨out1, hstore, hbegins⟩ := h.store (plusToSpace c) (by omega)
    have hlen : (text ++ [plusToSpace c]).length = text.length + 1 := List.length_append
    have hnext : ∀ i < v.length, mem[value + ((text ++ [plusToSpace c]).length + i)]? = v[i]? := by
      intro i hi
      have hi' := hread (i + 1) (by rw [List.length_cons]; omega)
      rw [List.getElem?_cons_succ] at hi'
      rw [hlen, ← hi']
      congr 1
      omega
    obtain ⟨out2, hcopy, hdone⟩ := ih out1 _ hbegins hnext (by omega)
    refine ⟨out2, ?_, ?_⟩
    · rw [List.length_cons, copyValue, hc]
      simp only
      rw [hstore, ← hlen]
      exact hcopy
    · rw [List.map_cons, List.append_cons]
      exact hdone

/-- **The value is written whole, or it is too long.** -/
theorem queryAnswer_exact (value : Nat) (v : Bytes) (out : Block outCap)
    (hread : ∀ i < v.length, query.array[value + i]? = v[i]?) :
    AnswersQuery (some v) out (queryAnswer query value v.length out) := by
  unfold AnswersQuery queryAnswer
  by_cases hfit : v.length < outCap
  · obtain ⟨out1, hcopy, hbegins⟩ := copyValue_eq query.array value out [] v
      ⟨by rw [List.length_nil]; omega, rfl⟩ (fun i hi => by
        rw [List.length_nil, Nat.zero_add]
        exact hread i hi) (by rw [List.length_nil]; omega)
    rw [List.nil_append] at hbegins
    have hlen : (v.map plusToSpace).length = v.length := List.length_map _
    obtain ⟨out2, hstore, htake⟩ := out1.store_eq (v.map plusToSpace).length [0] (by
      rw [List.length_singleton]
      omega)
    simp only [if_pos hfit]
    refine ⟨out2, ?_, ?_⟩
    · rw [if_neg (by omega), show copyValue query.array value out 0 v.length = _ from hcopy]
      simp only
      rw [← hlen, hstore]
      rfl
    · rw [hbegins.2, hlen] at htake
      exact htake
  · simp only [if_neg hfit]
    exact if_pos (by omega)

theorem nameMatches_eq (cursor : Nat) (name rest : Bytes)
    (h : query.array.drop cursor = name ++ rest) (hcursor : cursor ≤ query.array.length) :
    nameMatches query key cursor name.length = some (decide (name = key.bytes)) := by
  unfold nameMatches
  by_cases hlen : name.length = key.length
  · have hkey : rangeAt key.array 0 key.length = some key.bytes :=
      rangeAt_eq 0 _ key.bytes [0] rfl rfl (Nat.zero_le _)
    rw [if_pos hlen, rangeAt_eq cursor _ name rest h hlen hcursor, hkey]
  · have hne : name ≠ key.bytes := fun he => hlen (congrArg List.length he)
    rw [if_neg hlen, decide_eq_false hne]

/-- what a turn with the name, or without it, comes to -/
def turnOf (amp : Option Nat) (out : Block outCap) (matched : Bool)
    (answer : Option (Int × Block outCap)) : Option (QueryTurn outCap) :=
  if matched then answer.map .answer
  else
    match amp with
    | none => some (.answer (-1, out))
    | some a => some (.next (a + 1))

theorem equals_notMem_pieceName (piece : Bytes) : equals ∉ pieceName piece := by
  intro hmem
  have himp := List.mem_takeWhile_imp hmem
  simp at himp

/-- a piece is its name, or its name and its value with `=` between them -/
theorem piece_cases (piece : Bytes) :
    (pieceName piece = piece ∧ pairValue piece = []) ∨
      piece = pieceName piece ++ equals :: pairValue piece := by
  have hsplit : pieceName piece ++ piece.dropWhile (fun c => c != equals) = piece :=
    List.takeWhile_append_dropWhile
  cases hd : piece.dropWhile fun c => c != equals with
  | nil =>
    left
    rw [hd, List.append_nil] at hsplit
    refine ⟨hsplit, ?_⟩
    unfold pairValue
    rw [hd]
    rfl
  | cons e value =>
    right
    have he : e = equals := by
      have hhead := dropWhile_head (fun c => c != equals) piece e (by rw [hd]; rfl)
      simpa using hhead
    have hvalue : pairValue piece = value := by
      unfold pairValue
      rw [hd]
      rfl
    rw [hvalue, ← he, ← hd]
    exact hsplit.symm

/-- **A turn by its piece:** the name decides, and the value is the one of the piece. -/
theorem pairTurn_eq (query key : CStr) (out : Block outCap) (cursor : Nat) (amp : Option Nat) (piece tail : Bytes)
    (h : query.array.drop cursor = piece ++ tail) (hcursor : cursor ≤ query.array.length) :
    ∃ answer, AnswersQuery (some (pairValue piece)) out answer ∧
      pairTurn query key out cursor amp piece.length =
        turnOf amp out (decide (pieceName piece = key.bytes)) answer := by
  have hread : ∀ i < piece.length, query.array[cursor + i]? = piece[i]? := by
    intro i hi
    rw [← List.getElem?_drop, h, List.getElem?_append_left hi]
  have hfree := equals_notMem_pieceName piece
  rcases piece_cases piece with ⟨hname, hvalue⟩ | hsplit
  · rw [hname] at hfree
    refine ⟨queryAnswer query 0 0 out, ?_, ?_⟩
    · rw [hvalue]
      exact queryAnswer_exact 0 [] out fun i hi => absurd hi (Nat.not_lt_zero i)
    · unfold pairTurn turnOf
      rw [memchrAt_missing equals cursor piece tail h hfree]
      simp only
      rw [nameMatches_eq cursor piece tail h hcursor, hname]
      cases decide (piece = key.bytes) <;> rfl
  · generalize pieceName piece = name at hsplit hfree ⊢
    generalize pairValue piece = value at hsplit ⊢
    subst hsplit
    have hlen : (name ++ equals :: value).length = name.length + (value.length + 1) := by
      rw [List.length_append, List.length_cons]
    have hdrop : query.array.drop cursor = name ++ equals :: (value ++ tail) := by
      rw [h, List.append_assoc, List.cons_append]
    have hat : cursor + name.length - cursor = name.length := Nat.add_sub_cancel_left _ _
    have hrest : (name ++ equals :: value).length - name.length - 1 = value.length := by omega
    refine ⟨queryAnswer query (cursor + name.length + 1) value.length out, ?_, ?_⟩
    · refine queryAnswer_exact _ value out fun i hi => ?_
      rw [show cursor + name.length + 1 + i = cursor + (name.length + (i + 1)) by omega,
        hread _ (by omega), List.getElem?_append_right (by omega), Nat.add_sub_cancel_left,
        List.getElem?_cons_succ]
    · unfold pairTurn turnOf
      rw [memchrAt_found equals cursor _ name (value ++ tail) hdrop hfree (by omega)]
      simp only
      rw [hat, nameMatches_eq cursor name _ hdrop hcursor, hrest]
      cases decide (name = key.bytes) <;> rfl

/-- the first byte of the rest of the query is no terminator -/
theorem queryTurn_start (out : Block outCap) (cursor : Nat)
    (hne : query.bytes.drop cursor ≠ []) :
    queryTurn query key out cursor =
      match strchrAt query.array ampersand cursor with
      | none => none
      | some amp =>
        match pairLenAt query cursor amp with
        | none => none
        | some pairLen => pairTurn query key out cursor amp pairLen := by
  have hlt : cursor < query.bytes.length := by
    by_contra hge
    exact hne (List.drop_eq_nil_of_le (by omega))
  have hread : query.array[cursor]? = some query.bytes[cursor] := by
    unfold CStr.array
    rw [List.getElem?_append_left hlt, List.getElem?_eq_getElem hlt]
  have h0 : query.bytes[cursor] ≠ 0 := fun h0 => query.nulFree (h0 ▸ List.getElem_mem hlt)
  unfold queryTurn
  rw [hread]
  exact if_neg h0

theorem queryTurn_last (out : Block outCap) (cursor : Nat) (hcursor : cursor ≤ query.bytes.length)
    (hne : query.bytes.drop cursor ≠ []) (hamp : ampersand ∉ query.bytes.drop cursor) :
    queryTurn query key out cursor =
      pairTurn query key out cursor none (query.bytes.drop cursor).length := by
  have hdrop := array_drop query cursor hcursor
  have hnul : (0 : Byte) ∉ query.bytes.drop cursor := fun h0 => query.nulFree (List.mem_of_mem_drop h0)
  rw [queryTurn_start out cursor hne, strchrAt_missing ampersand cursor _ [] (by decide) hdrop hamp hnul]
  unfold pairLenAt
  rw [strlenAt_run cursor _ [] hdrop hnul]

theorem queryTurn_more (out : Block outCap) (cursor : Nat) (hcursor : cursor ≤ query.bytes.length)
    (piece more : Bytes) (h : query.bytes.drop cursor = piece ++ ampersand :: more)
    (hamp : ampersand ∉ piece) :
    queryTurn query key out cursor =
      pairTurn query key out cursor (some (cursor + piece.length)) piece.length := by
  have hdrop := array_drop query cursor hcursor
  have hnul : (0 : Byte) ∉ piece := by
    intro h0
    apply query.nulFree
    apply List.mem_of_mem_drop (i := cursor)
    rw [h]
    exact List.mem_append_left _ h0
  rw [h, List.append_assoc] at hdrop
  rw [queryTurn_start out cursor (by rw [h]; simp),
    strchrAt_found ampersand cursor piece (more ++ [0]) hdrop hamp hnul]
  unfold pairLenAt
  simp only [Nat.add_sub_cancel_left]

theorem queryLoopAt_turn (out : Block outCap) (cursor : Nat) :
    queryLoopAt query key out cursor =
      match queryTurn query key out cursor with
      | none => none
      | some (.answer result) => some result
      | some (.next next) => queryLoopAt query key out next := by
  rw [queryLoopAt]
  split <;> rename_i h <;> rw [h]

/-- **The loop from a cursor answers the rest of the query.** -/
theorem queryLoopAt_exact (hkey : key.bytes ≠ []) (out : Block outCap) (n cursor : Nat)
    (hcursor : cursor ≤ query.bytes.length) (hn : query.bytes.length - cursor < n) :
    AnswersQuery (queryValue (query.bytes.drop cursor) key.bytes) out
      (queryLoopAt query key out cursor) := by
  induction n generalizing cursor with
  | zero => omega
  | succ n ih =>
    have hlen : query.array.length = query.bytes.length + 1 := List.length_append
    rw [queryLoopAt_turn]
    by_cases hne : query.bytes.drop cursor = []
    · have hend : query.array[cursor]? = some 0 := by
        have hdrop := array_drop query cursor hcursor
        rw [hne, List.nil_append] at hdrop
        exact (read_of_drop hdrop).1
      have hturn : queryTurn query key out cursor = some (.answer (-1, out)) := by
        unfold queryTurn
        rw [hend]
        exact if_pos rfl
      rw [hturn, hne, queryValue_nil _ hkey]
      rfl
    · by_cases hamp : ampersand ∈ query.bytes.drop cursor
      · obtain ⟨piece, more, hsplit, hfree⟩ := List.eq_append_cons_of_mem hamp
        have hdrop := array_drop query cursor hcursor
        rw [hsplit, List.append_assoc] at hdrop
        obtain ⟨answer, hanswer, hturn⟩ := pairTurn_eq query key out cursor
          (some (cursor + piece.length)) piece _ hdrop (by omega)
        have hmore : query.bytes.drop (cursor + piece.length + 1) = more := by
          rw [Nat.add_assoc, ← List.drop_drop, hsplit, ← List.drop_drop, List.drop_left]
          rfl
        have hlast : cursor + piece.length + 1 ≤ query.bytes.length := by
          have hle := congrArg List.length hsplit
          rw [List.length_drop, List.length_append, List.length_cons] at hle
          omega
        rw [queryTurn_more out cursor hcursor piece more hsplit hfree, hturn, hsplit,
          queryValue_more _ _ _ hfree]
        by_cases hname : pieceName piece = key.bytes
        · rw [if_pos hname, decide_eq_true hname]
          cases answer <;> exact hanswer
        · rw [if_neg hname, decide_eq_false hname, ← hmore]
          exact ih (cursor + piece.length + 1) hlast (by omega)
      · obtain ⟨answer, hanswer, hturn⟩ := pairTurn_eq query key out cursor none _ [0]
          (array_drop query cursor hcursor) (by omega)
        rw [queryTurn_last out cursor hcursor hne hamp, hturn, queryValue_last _ _ hamp]
        by_cases hname : pieceName (query.bytes.drop cursor) = key.bytes
        · rw [if_pos hname, decide_eq_true hname]
          cases answer <;> exact hanswer
        · rw [if_neg hname, decide_eq_false hname]
          rfl

/-- **`http_query_get` answers the value of the first piece with the name, and reads and writes
inside its arrays.** -/
theorem queryLookup_exact (query key : CStr) (hkey : key.bytes ≠ []) (out : Block outCap)
    (hcap : 1 ≤ outCap) :
    AnswersQuery (queryValue query.bytes key.bytes) out (queryGetInto query key out) := by
  unfold queryGetInto
  rw [if_neg (by omega)]
  exact queryLoopAt_exact hkey out _ 0 (Nat.zero_le _) (Nat.lt_succ_self _)

/-- empty pieces, a repeated key, a key that begins with another one, and a trailing `&` -/
theorem queryLookup_exact_pieces :
    queryValue (ascii "&ab=1&a=x+y&a=2&") (ascii "a") = some (ascii "x+y") ∧
      ∃ out : Block 8,
        queryGetInto ⟨ascii "&ab=1&a=x+y&a=2&", by decide⟩ ⟨ascii "a", by decide⟩ (Block.zero 8) =
            some (0, out) ∧
          out.bytes.take 4 = ascii "x y" ++ [0] := by
  have hvalue : queryValue (ascii "&ab=1&a=x+y&a=2&") (ascii "a") = some (ascii "x+y") := by
    decide +kernel
  have hexact := queryLookup_exact ⟨ascii "&ab=1&a=x+y&a=2&", by decide⟩ ⟨ascii "a", by decide⟩
    (by decide) (Block.zero 8) (by decide)
  rw [hvalue] at hexact
  exact ⟨hvalue, hexact⟩

end

/-! ## the model without arrays -/

/-- the pair of a turn is the first piece -/
theorem queryValue_pair (cursor key : Bytes) :
    queryValue cursor key =
      if pieceName (queryPair cursor).1 = key then some (pairValue (queryPair cursor).1)
      else
        match (queryPair cursor).2 with
        | none => none
        | some rest => queryValue rest key := by
  by_cases hamp : ampersand ∈ cursor
  · obtain ⟨piece, more, rfl, hfree⟩ := List.eq_append_cons_of_mem hamp
    have hpiece : ∀ c ∈ piece, (fun c => c != ampersand) c = true :=
      fun c hc => bne_iff_ne.mpr fun he => hfree (he ▸ hc)
    have hstop : ∀ c, (ampersand :: more).head? = some c → (fun c => c != ampersand) c = false := by
      intro c hc
      rw [← Option.some.inj hc]
      decide
    have hpair : queryPair (piece ++ ampersand :: more) = (piece, some more) := by
      unfold queryPair
      rw [dropWhile_run _ _ _ hpiece hstop, takeWhile_run _ _ _ hpiece hstop]
    rw [queryValue_more _ _ _ hfree, hpair]
  · have hpair : queryPair cursor = (cursor, none) := by
      unfold queryPair
      rw [List.dropWhile_eq_nil_iff.mpr fun c hc =>
        bne_iff_ne.mpr fun he : c = ampersand => hamp (he ▸ hc)]
    rw [queryValue_last _ _ hamp, hpair]

/-- **`httpQueryGet` answers the same value.** -/
theorem httpQueryGet_value (query key : CStr) (hkey : key.bytes ≠ []) (outCap : Nat)
    (hcap : 1 ≤ outCap) :
    httpQueryGet query key outCap =
      match queryValue query.bytes key.bytes with
      | none => .absent
      | some v => if v.length < outCap then .found (CStr.ofBytes (v.map plusToSpace)) else .truncated := by
  unfold httpQueryGet
  rw [if_neg (by omega)]
  generalize query.bytes = cursor
  fun_induction queryLoop key outCap cursor with
  | case1 => rw [queryValue_nil _ hkey]
  | case2 cursor _ pair hname hlong =>
    rw [queryValue_pair, if_pos (show pieceName (queryPair cursor).1 = _ from hname)]
    exact (if_neg (show ¬ (pairValue pair).length < outCap by omega)).symm
  | case3 cursor _ pair hname hlong =>
    rw [queryValue_pair, if_pos (show pieceName (queryPair cursor).1 = _ from hname)]
    exact (if_pos (show (pairValue pair).length < outCap by omega)).symm
  | case4 cursor _ pair hname hlast =>
    rw [queryValue_pair, if_neg (show ¬ pieceName (queryPair cursor).1 = _ from hname), hlast]
  | case5 cursor _ pair hname rest hrest ih =>
    rw [queryValue_pair, if_neg (show ¬ pieceName (queryPair cursor).1 = _ from hname), hrest]
    exact ih

end CServer
