import CServer.Api.Ends

/-!
# Requests that the authorisation check has not turned away

* `Plain e`         an error other than those of the check;
* `StoreCall.Good`  every store call gives such errors only;
* `PlainHandler`    a handler that answers with such errors only;
* `Reader`          such a handler that leaves the store alone.
-/

namespace CServer

/-! ## errors other than those of the authorisation check -/

def authError : ApiError → Bool
  | .unauthorized => true
  | .forbidden => true
  | _ => false

structure Plain (e : ApiError) : Prop where
  eq_false : authError e = false

structure PlainResult {α : Type} (r : Except ApiError α) : Prop where
  error : ∀ e, r = .error e → Plain e

def StoreCall.Good : (c : StoreCall) → c.Result → Prop
  | .kvPut _ _, r => Plain r
  | .kvGet _ _, r => PlainResult r
  | .kvDel _, r => Plain r
  | .noteCreate _ _, r => PlainResult r
  | .noteUpdate _ _ _, r => Plain r
  | .noteDel _, r => Plain r
  | .counts, r => PlainResult r
  | .render _ _, r => PlainResult r

theorem StoreError.plain {e : ApiError} (h : StoreError e) : Plain e := by
  refine ⟨?_⟩
  cases e
  all_goals first
    | rfl
    | exact absurd h (by decide)

theorem Gives.plain {α : Type} {T : α → Prop} {r : Except ApiError α} (h : Gives StoreError T r) :
    PlainResult r := ⟨fun e he => (h.error e he).plain⟩

theorem plain_of_ok_or {e : ApiError} (h : e = .ok ∨ StoreError e) : Plain e := by
  rcases h with rfl | h
  · exact ⟨rfl⟩
  · exact h.plain

theorem StoreCall.exec_good (fault : SqlFault × SqlFault) (now : Long) (c : StoreCall)
    (st : Store) : c.Good (c.exec fault now st).1 := by
  have h := c.exec_gives fault now st
  cases c with
  | kvPut key value => exact plain_of_ok_or h
  | kvGet key valueCap => exact Gives.plain h
  | kvDel key => exact plain_of_ok_or h
  | noteCreate title body => exact Gives.plain h
  | noteUpdate id title body => exact plain_of_ok_or h
  | noteDel id => exact plain_of_ok_or h
  | counts => exact Gives.plain h
  | render call out => exact Gives.plain h

/-! ## handlers -/

/-- a handler that answers with plain errors, when the store does -/
abbrev PlainHandler (h : Handler) : Prop :=
  h.Within (fun _ => True) StoreCall.Good fun a => Plain a.result

/-- such a handler that only reads -/
abbrev Reader (h : Handler) : Prop :=
  h.Within StoreCall.Reads StoreCall.Good fun a => Plain a.result

theorem Reader.plain {h : Handler} (hr : Reader h) : PlainHandler h :=
  Program.Within.mono (fun _ _ => True.intro) (fun _ _ hg => hg) (fun _ ha => ha) hr

theorem Reader.store {h : Handler} (hr : Reader h) (env : Env) (st : Store) :
    (h.serve env st).2 = st :=
  (Program.Within.run _ (fun s => s = st)
    (fun _ c s hc hs => ⟨StoreCall.exec_good _ _ c s,
      (StoreCall.exec_reads _ _ c s hc).trans hs⟩) hr 0 st rfl).2

theorem PlainHandler.result {h : Handler} (hp : PlainHandler h) (env : Env) (st : Store) :
    Plain (h.serve env st).1.result :=
  (Program.Within.run _ (fun _ => True)
    (fun _ c s _ _ => ⟨StoreCall.exec_good _ _ c s, True.intro⟩) hp 0 st True.intro).1

theorem answerWith_plain (sendOk : Bool) (r : Response) : Plain (answerWith sendOk r).result := by
  show Plain (if _ then _ else _)
  split_ifs <;> exact ⟨rfl⟩

theorem HandlerError.plain {e : ApiError} (h : HandlerError e) : Plain e := by
  refine ⟨?_⟩
  cases e
  all_goals first
    | rfl
    | exact absurd h (by decide)

theorem plainEnds (sendOk : Bool) :
    Ends Plain (fun _ => True) (fun a => Plain a.result) sendOk where
  handler := fun _ h => h.plain
  short := fun _ _ => True.intro
  error := fun _ _ h _ => h
  json := fun _ _ _ _ => answerWith_plain _ _

theorem StoreCall.Good.gives {c : StoreCall} {r : c.Result} (h : c.Good r) :
    c.Gives Plain (fun _ => True) r := by
  cases c with
  | kvPut key value => exact .inr h
  | kvGet key valueCap => exact ⟨PlainResult.error h, fun _ _ => True.intro⟩
  | kvDel key => exact .inr h
  | noteCreate title body => exact ⟨PlainResult.error h, fun _ _ => True.intro⟩
  | noteUpdate id title body => exact .inr h
  | noteDel id => exact .inr h
  | counts => exact ⟨PlainResult.error h, fun _ _ => True.intro⟩
  | render call out => exact ⟨PlainResult.error h, fun _ _ => True.intro⟩

theorem EndsIn.plain {Q : StoreCall → Prop} {h : Handler}
    (he : EndsIn Q Plain (fun _ => True) (fun a => Plain a.result) h) :
    h.Within Q StoreCall.Good fun a => Plain a.result :=
  Program.Within.mono (fun _ hq => hq) (fun _ _ hg => StoreCall.Good.gives hg) (fun _ ha => ha) he

end CServer
