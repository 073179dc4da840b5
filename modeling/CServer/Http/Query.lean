import CServer.Http.Types

/-!
# `http_query_get`

The cursor is the rest of the query string.  `-1`, `-2` and `0` are `absent`, `truncated` and
`found out`.
-/

set_option linter.unusedVariables false

namespace CServer

inductive QueryResult where
  | absent
  | truncated
  | found (out : CStr)
  deriving DecidableEq

/-- one turn of the loop: the pair before the next `&`, and the cursor behind that `&` if any -/
def queryPair (cursor : Bytes) : Bytes × Option Bytes :=
  match cursor.dropWhile fun c => c != 38 with
  | [] => (cursor, none)
  | _ :: rest => (cursor.takeWhile fun c => c != 38, some rest)

/-- the value of a pair: empty without a `=` -/
def pairValue (pair : Bytes) : Bytes := (pair.dropWhile fun c => c != 61).drop 1

theorem queryPair_length (cursor rest : Bytes) (h : (queryPair cursor).2 = some rest) :
    rest.length < cursor.length := by
  unfold queryPair at h
  have hle := (List.dropWhile_sublist (fun c : Byte => c != 38) (l := cursor)).length_le
  cases hd : cursor.dropWhile fun c => c != 38 with
  | nil => rw [hd] at h; cases h
  | cons c r =>
    rw [hd] at h hle
    cases h
    rw [List.length_cons] at hle
    omega

def queryLoop (key : CStr) (outCap : Nat) (cursor : Bytes) : QueryResult :=
  if cursor = [] then .absent
  else
    let pair := (queryPair cursor).1
    if (pair.takeWhile fun c => c != 61) = key.bytes then
      if (pairValue pair).length + 1 > outCap then .truncated
      else .found (CStr.ofBytes ((pairValue pair).map fun c => if c = 43 then space else c))
    else
      match h : (queryPair cursor).2 with
      | none => .absent
      | some rest => queryLoop key outCap rest
termination_by cursor.length
decreasing_by exact queryPair_length _ _ h

def httpQueryGet (query key : CStr) (outCap : Nat) : QueryResult :=
  if outCap = 0 then .absent else queryLoop key outCap query.bytes

end CServer
