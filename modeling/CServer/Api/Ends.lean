import CServer.Api.Bodies
import CServer.Api.Router
import CServer.Store.Results

/-!
# How the handlers end

* `StoreCall.Reads`       the calls that leave the store alone;
* `StoreCall.Gives E T`   the results of a call: success with a text of `T`, or an error of `E`;
* `Ends E T P sendOk`     `P` holds of an error of `E`, and of a JSON text of `T`;
* `handleHealth_ends` … `handleNoteDel_ends`   then `P` holds of every end of each handler, whatever
                          the calls give of `E` and `T`;
* `StoreCall.exec_gives`  the store gives its own errors.
-/

namespace CServer

/-! ## calls that read -/

def StoreCall.Reads : StoreCall → Prop
  | .kvGet _ _ => True
  | .counts => True
  | .render _ _ => True
  | _ => False

theorem StoreCall.exec_reads (fault : SqlFault × SqlFault) (now : Long) (c : StoreCall)
    (st : Store) (h : c.Reads) : (c.exec fault now st).2 = st := by
  cases c with
  | kvGet key valueCap => rfl
  | counts => rfl
  | render call out => rfl
  | _ => exact absurd h (by simp [StoreCall.Reads])

/-! ## results of the calls -/

structure Gives {α : Type} (E : ApiError → Prop) (T : α → Prop) (r : Except ApiError α) : Prop where
  error : ∀ e, r = .error e → E e
  ok : ∀ a, r = .ok a → T a

def StoreCall.Gives (E : ApiError → Prop) (T : Bytes → Prop) : (c : StoreCall) → c.Result → Prop
  | .kvPut _ _, (r : ApiError) => r = .ok ∨ E r
  | .kvGet _ _, r => CServer.Gives E (fun _ => True) r
  | .kvDel _, (r : ApiError) => r = .ok ∨ E r
  | .noteCreate _ _, r => CServer.Gives E (fun _ => True) r
  | .noteUpdate _ _ _, (r : ApiError) => r = .ok ∨ E r
  | .noteDel _, (r : ApiError) => r = .ok ∨ E r
  | .counts, r => CServer.Gives E (fun _ => True) r
  | .render _ _, r => CServer.Gives E T r

theorem Typed.gives {α : Type} {r : Except ApiError α} (h : Typed r) :
    Gives StoreError (fun _ => True) r := ⟨h.error, fun _ _ => True.intro⟩

theorem StoreCall.exec_gives (fault : SqlFault × SqlFault) (now : Long) (c : StoreCall)
    (st : Store) : c.Gives StoreError (fun _ => True) (c.exec fault now st).1 := by
  cases c with
  | kvPut key value => exact storeKvPut_typed _ _ _ _ _
  | kvGet key valueCap => exact (storeKvGet_typed _ _ _ _).gives
  | kvDel key => exact storeKvDel_typed _ _ _
  | noteCreate title body => exact (storeNoteCreate_typed _ _ _ _ _).gives
  | noteUpdate id title body => exact storeNoteUpdate_typed _ _ _ _ _ _
  | noteDel id => exact storeNoteDel_typed _ _ _
  | counts => exact (storeCounts_typed _ _ _).gives
  | render call out =>
    cases call with
    | kvList pfx limit => exact (storeKvList_typed _ _ _ _ _).toTyped.gives
    | noteList limit offset => exact (storeNoteList_typed _ _ _ _ _ _).toTyped.gives
    | noteGet id => exact (storeNoteGet_typed _ _ _ _).toTyped.gives

theorem Gives.mono {α : Type} {E E' : ApiError → Prop} {T : α → Prop} {r : Except ApiError α}
    (h : Gives E T r) (hE : ∀ e, E e → E' e) : Gives E' T r :=
  ⟨fun e he => hE e (h.error e he), h.ok⟩

theorem StoreCall.Gives.mono {E E' : ApiError → Prop} {T : Bytes → Prop} {c : StoreCall}
    {r : c.Result} (h : c.Gives E T r) (hE : ∀ e, E e → E' e) : c.Gives E' T r := by
  cases c with
  | kvPut key value => exact Or.imp_right (hE _) h
  | kvGet key valueCap => exact CServer.Gives.mono h hE
  | kvDel key => exact Or.imp_right (hE _) h
  | noteCreate title body => exact CServer.Gives.mono h hE
  | noteUpdate id title body => exact Or.imp_right (hE _) h
  | noteDel id => exact Or.imp_right (hE _) h
  | counts => exact CServer.Gives.mono h hE
  | render call out => exact CServer.Gives.mono h hE

/-! ## ends -/

/-- the texts beside an error of the store that may be `API_ERR_NOT_FOUND` -/
def storeDetails : List String :=
  ["store count failed", "store write failed", "store list failed", "created but re-read failed",
    "key not found", "note not found"]

theorem applicationJson_length : APPLICATION_JSON.length ≤ 64 := by decide

theorem sendMethodNotAllowed_eq (sendOk : Bool) (allow : Bytes)
    (h : allow.length ≤ 64) :
    ∃ body, sendMethodNotAllowed sendOk allow =
      ⟨[⟨405, APPLICATION_JSON, body, some allow⟩], sendOk⟩ := by
  refine ⟨ascii "\x7b\"error\":\"method_not_allowed\",\"message\":\"use " ++ allow
    ++ ascii "\"\x7d", ?_⟩
  have hbody : (ascii "\x7b\"error\":\"method_not_allowed\",\"message\":\"use " ++ allow
      ++ ascii "\"\x7d").length < 256 := by
    rw [List.length_append, List.length_append,
      show (ascii "\x7b\"error\":\"method_not_allowed\",\"message\":\"use ").length = 45 by decide,
      show (ascii "\"\x7d").length = 2 by decide]
    omega
  unfold sendMethodNotAllowed
  simp only
  rw [if_neg (by omega)]
  apply httpRespond_fits
  apply responseHeader_length _ (show 405 < 10 ^ 3 by decide) applicationJson_length
  · exact lt_trans hbody (by decide)
  · intro a ha
    cases ha
    exact h

structure Ends (E : ApiError → Prop) (T : Bytes → Prop) (P : Answer → Prop) (sendOk : Bool) :
    Prop where
  handler : ∀ e, HandlerError e → E e
  short : ∀ text, text.length < 10 ^ 20 → T text
  error : ∀ e detail, E e → (e = .notFound → detail ∈ storeDetails) → P (answerError sendOk e detail)
  json : ∀ status body, status = 200 ∨ status = 201 ∨ status = 204 → T body →
    P (answerWith sendOk (jsonResponse status body))

section
variable {E : ApiError → Prop} {T : Bytes → Prop} {P : Answer → Prop} {sendOk : Bool}

/-- The calls of the handler satisfy `Q`, and its ends `P`. -/
abbrev EndsIn (Q : StoreCall → Prop) (E : ApiError → Prop) (T : Bytes → Prop) (P : Answer → Prop)
    (h : Handler) : Prop := h.Within Q (StoreCall.Gives E T) P

theorem Ends.own (h : Ends E T P sendOk) {e : ApiError} (detail : String) (he : HandlerError e) :
    P (answerError sendOk e detail) := by
  refine h.error e detail (h.handler e he) fun hn => ?_
  rw [hn] at he
  exact absurd he (by decide)

theorem Ends.decode (h : Ends E T P sendOk) {body : Option Bytes} {field : CStr} {cap : Nat}
    {e : ApiError} (detail : String) (he : jsonGetString body field cap = .error e) :
    P (answerError sendOk e detail) := h.own detail (jsonGetString_error _ _ _ e he).handler

theorem Ends.requireJson (h : Ends E T P sendOk) {req : HttpRequest} (detail : String)
    (he : apiRequireJson req true ≠ .ok) :
    P (answerError sendOk (apiRequireJson req true) detail) :=
  h.own detail ((apiRequireJson_handler req true).resolve_left he)

theorem Ends.stops (h : Ends E T P sendOk) {handler : Handler} (hs : Stops sendOk handler)
    (Q : StoreCall → Prop) : EndsIn Q E T P handler := by
  obtain ⟨e, detail, he, rfl⟩ := hs
  exact h.own detail he

theorem Ends.printed (h : Ends E T P sendOk) (cap : Nat) (text : Bytes) (hcap : cap ≤ 10 ^ 20) :
    P (answerPrinted sendOk cap text) := by
  unfold answerPrinted
  split_ifs with hlen
  · exact h.own _ (by decide)
  · exact h.json 200 text (.inl rfl) (h.short text (by omega))

theorem Ends.noContent (h : Ends E T P sendOk) : P (answerNoContent sendOk) :=
  h.json 204 [] (.inr (.inr rfl)) (h.short [] (by decide))

theorem Ends.kvReply (h : Ends E T P sendOk) (key value : CStr) : P (kvReply sendOk key value) := by
  unfold CServer.kvReply
  split
  · exact h.printed _ _ (by decide)
  · exact h.own _ (by decide)

/-! ## handlers -/

theorem handleHealth_ends (h : Ends E T P sendOk) (now : Long) (server : Server) :
    EndsIn StoreCall.Reads E T P (handleHealth sendOk now server) := h.printed _ _ (by decide)

theorem handleMetrics_ends (h : Ends E T P sendOk) (server : Server) :
    EndsIn StoreCall.Reads E T P (handleMetrics sendOk server) := by
  refine ⟨True.intro, fun counted hc => ?_⟩
  cases counted with
  | error e => exact h.error e _ (hc.error e rfl) fun _ => by decide
  | ok counts => exact h.printed _ _ (by decide)

theorem handleEcho_ends (h : Ends E T P sendOk) (req : HttpRequest) :
    EndsIn StoreCall.Reads E T P (handleEcho sendOk req) := by
  unfold handleEcho
  dsimp only
  split
  · next hc => exact h.requireJson _ hc
  · split
    · next e he => exact h.decode _ he
    · split
      · exact h.own _ (by decide)
      · exact h.printed _ _ (by decide)

theorem handleKvList_ends (h : Ends E T P sendOk) (req : HttpRequest) :
    EndsIn StoreCall.Reads E T P (handleKvList sendOk req) := by
  unfold handleKvList
  split
  · exact h.own _ (by decide)
  · split
    · next e he => exact h.own _ (parseLimit_handler _ e he)
    · refine ⟨True.intro, fun listed hl => ?_⟩
      cases listed with
      | error e => exact h.error e _ (hl.error e rfl) fun _ => by decide
      | ok items => exact h.printed _ _ (by decide)

theorem handleKvGet_ends (h : Ends E T P sendOk) (key : CStr) :
    EndsIn StoreCall.Reads E T P (handleKvGet sendOk key) := by
  refine ⟨True.intro, fun got hg => ?_⟩
  cases got with
  | error e =>
    refine h.error e _ (hg.error e rfl) fun he => ?_
    rw [if_pos he]
    decide
  | ok value => exact h.kvReply key value

theorem handleKvPut_ends (h : Ends E T P sendOk) (req : HttpRequest) (key : CStr) :
    EndsIn (fun _ => True) E T P (handleKvPut sendOk req key) := by
  rcases handleKvPut_cases sendOk req key with hs | ⟨value, _, _, hcall⟩
  · exact h.stops hs _
  · rw [hcall]
    refine ⟨True.intro, fun (stored : ApiError) hs => ?_⟩
    show P (kvPutReply sendOk key value stored)
    unfold kvPutReply
    by_cases hstored : stored = .ok
    · rw [if_neg (not_not.mpr hstored)]
      exact h.kvReply key value
    · rw [if_pos hstored]
      refine h.error stored _ (hs.resolve_left hstored) fun he => ?_
      rw [he]
      decide

/-- behind a deletion -/
theorem Ends.deleted (h : Ends E T P sendOk) (deleted : ApiError) (absent failed : String)
    (hd : deleted = .ok ∨ E deleted) (habsent : absent ∈ storeDetails) :
    P (if deleted ≠ .ok then
        answerError sendOk deleted (if deleted = .notFound then absent else failed)
      else answerNoContent sendOk) := by
  by_cases hok : deleted = .ok
  · rw [if_neg (not_not.mpr hok)]
    exact h.noContent
  · rw [if_pos hok]
    refine h.error deleted _ (hd.resolve_left hok) fun he => ?_
    rw [if_pos he]
    exact habsent

theorem handleKvDel_ends (h : Ends E T P sendOk) (key : CStr) :
    EndsIn (fun _ => True) E T P (handleKvDel sendOk key) :=
  ⟨True.intro, fun deleted hd => h.deleted deleted _ _ hd (by decide)⟩

theorem handleNoteDel_ends (h : Ends E T P sendOk) (id : Long) :
    EndsIn (fun _ => True) E T P (handleNoteDel sendOk id) :=
  ⟨True.intro, fun deleted hd => h.deleted deleted _ _ hd (by decide)⟩

theorem handleNoteGet_ends (h : Ends E T P sendOk) (id : Long) :
    EndsIn StoreCall.Reads E T P (handleNoteGet sendOk id) := by
  refine ⟨True.intro, fun got hg => ?_⟩
  cases got with
  | error e =>
    refine h.error e _ (hg.error e rfl) fun he => ?_
    rw [if_pos he]
    decide
  | ok text => exact h.json 200 text (.inl rfl) (hg.ok text rfl)

theorem noteCreateNext_ends (h : Ends E T P sendOk) (created : Except ApiError Long)
    (hc : Gives E (fun _ => True) created) :
    EndsIn (fun _ => True) E T P (noteCreateNext sendOk created) := by
  cases created with
  | error e =>
    refine h.error e _ (hc.error e rfl) fun he => ?_
    rw [he]
    decide
  | ok id =>
    refine ⟨True.intro, fun got hg => ?_⟩
    cases got with
    | error e => exact h.error e _ (hg.error e rfl) fun _ => by decide
    | ok text => exact h.json 201 text (.inr (.inl rfl)) (hg.ok text rfl)

theorem handleNoteCreate_ends (h : Ends E T P sendOk) (req : HttpRequest) :
    EndsIn (fun _ => True) E T P (handleNoteCreate sendOk req) := by
  rcases handleNoteCreate_cases sendOk req with hs | ⟨title, body, _, _, hcall⟩
  · exact h.stops hs _
  · rw [hcall]
    exact ⟨True.intro, noteCreateNext_ends h⟩

theorem handleNoteUpdate_ends (h : Ends E T P sendOk) (req : HttpRequest) (id : Long) :
    EndsIn (fun _ => True) E T P (handleNoteUpdate sendOk req id) := by
  rcases handleNoteUpdate_cases sendOk req id with hs | ⟨title, body, _, _, hcall⟩
  · exact h.stops hs _
  · rw [hcall]
    refine ⟨True.intro, fun (updated : ApiError) hu => ?_⟩
    unfold noteUpdateNext
    by_cases hok : updated = .ok
    · rw [if_neg (not_not.mpr hok)]
      exact Program.Within.mono (fun _ _ => True.intro) (fun _ _ hg => hg) (fun _ hp => hp)
        (handleNoteGet_ends h id)
    · rw [if_pos hok]
      refine h.error updated _ (hu.resolve_left hok) fun he => ?_
      rw [if_pos he]
      decide

theorem handleNoteList_ends (h : Ends E T P sendOk) (req : HttpRequest) :
    EndsIn StoreCall.Reads E T P (handleNoteList sendOk req) := by
  unfold handleNoteList
  split
  · refine ⟨True.intro, fun listed hl => ?_⟩
    cases listed with
    | error e => exact h.error e _ (hl.error e rfl) fun _ => by decide
    | ok body => exact h.json 200 body (.inl rfl) (hl.ok body rfl)
  · exact h.own _ (by decide)

end

end CServer
