import CServer.Api.Atomic
import CServer.Lib.Runs
import CServer.Store.Listing

/-!
# Stores that can be read

* `Incoming`, `Store.after`   a request with what it meets, and the store behind it;
* `Store.after_cases`         what one request does to the store;
* `Sound`                     bounds that every reachable store keeps;
* `Readable`                  every text can be rendered, every entry fetched, every list given;
* `readable_iff`              a run from the empty store stays readable, exactly unless it meets a
                              poison.
-/

namespace CServer

structure Incoming where
  now : Long
  page : Bytes
  server : Server
  req : HttpRequest

def Store.after (st : Store) (i : Incoming) : Store :=
  (apiDispatch (Env.quiet i.now i.page) i.req st i.server).2

/-! ## one step -/

/-- what the target stores of an accepted request -/
def WriteTarget.Effect (now : Long) (req : HttpRequest) (st st' : Store) : WriteTarget → Prop
  | .kvPut key => ∃ value, PutInput req value ∧
      st' = { st with kv := st.kv.put ⟨key, value, now⟩ }
  | .kvDel key => st' = { st with kv := st.kv.erase key }
  | .noteCreate => ∃ title body, ∃ hn : st.notes.HasNext, NoteInput req title body ∧
      st' = { st with notes := st.notes.insert hn title body now }
  | .noteUpdate id => ∃ title body row, NoteInput req title body ∧
      st.notes.table.get id = some row ∧
      st' = { st with notes := st.notes.update id title body now }
  | .noteDel id => st' = { st with notes := st.notes.delete id }

theorem WriteTarget.effect (now : Long) (page : Bytes) (req : HttpRequest) (st : Store)
    (t : WriteTarget) (ht : t.Valid) :
    ((t.handler true req).serve (Env.quiet now page) st).2 = st ∨
    t.Effect now req st ((t.handler true req).serve (Env.quiet now page) st).2 := by
  cases t with
  | kvPut key =>
    by_cases h : ∃ value, PutInput req value
    · obtain ⟨value, hv⟩ := h
      exact .inr ⟨value, hv, congrArg Prod.snd (handleKvPut_stored now page req st key value ht hv)⟩
    · exact .inl (handleKvPut_rejected req st (Env.quiet now page) key fun value hv => h ⟨value, hv⟩).1
  | kvDel key =>
    by_cases hg : st.kv.get key = none
    · exact .inl (congrArg Prod.snd (handleKvDel_absent now page st key ht hg))
    · exact .inr (congrArg Prod.snd (handleKvDel_present now page st key ht hg))
  | noteCreate =>
    by_cases h : ∃ title body, NoteInput req title body ∧ st.notes.HasNext
    · obtain ⟨title, body, hi, hn⟩ := h
      exact .inr ⟨title, body, hn, hi,
        congrArg Prod.snd (handleNoteCreate_stored now page req st title body hi hn)⟩
    · exact .inl (handleNoteCreate_rejected now page req st
        fun title body hi => h ⟨title, body, hi⟩)
  | noteUpdate id =>
    by_cases h : ∃ title body row, NoteInput req title body ∧ st.notes.table.get id = some row
    · obtain ⟨title, body, row, hi, hrow⟩ := h
      exact .inr ⟨title, body, row, hi, hrow,
        congrArg Prod.snd (handleNoteUpdate_stored now page req st id row title body ht hrow hi)⟩
    · exact .inl (handleNoteUpdate_rejected now page req st id
        fun title body row hi => h ⟨title, body, row, hi⟩)
  | noteDel id =>
    by_cases hg : st.notes.table.get id = none
    · exact .inl (congrArg Prod.snd (handleNoteDel_absent now page st id ht hg))
    · exact .inr (congrArg Prod.snd (handleNoteDel_present now page st id ht hg))

/-- **What one request does to the store.** -/
theorem Store.after_cases (st : Store) (i : Incoming) :
    st.after i = st ∨
    ∃ t, writeTarget i.server i.req = some t ∧ t.Valid ∧ t.Effect i.now i.req st (st.after i) := by
  rcases apiRoute_cases (Env.quiet i.now i.page) i.req i.server with ⟨t, ht, _, _, _, he⟩ | ⟨hn, _⟩
  · have hv := writeTarget_valid i.server i.req t ht
    have hafter : st.after i = ((t.handler true i.req).serve (Env.quiet i.now i.page) st).2 := by
      unfold Store.after apiDispatch
      rw [he]
      rfl
    rw [hafter]
    rcases t.effect i.now i.page i.req st hv with h | h
    · exact .inl h
    · exact .inr ⟨t, ht, hv, h⟩
  · exact .inl (apiDispatch_noTarget _ _ _ _ hn)

/-- a row of `kv` was there before, or a PUT has just stored it -/
theorem mem_kv_after (st : Store) (i : Incoming) (r : KvRow) (hr : r ∈ (st.after i).kv.rows) :
    r ∈ st.kv.rows ∨ ∃ key value, writeTarget i.server i.req = some (.kvPut key) ∧
      storeValidateKey key = .ok ∧ PutInput i.req value ∧ r = ⟨key, value, i.now⟩ := by
  rcases st.after_cases i with h | ⟨t, ht, hv, h⟩
  · rw [h] at hr
    exact .inl hr
  · cases t with
    | kvPut key =>
      obtain ⟨value, hi, he⟩ := h
      rw [he] at hr
      rcases (Table.mem_put _ _ _).mp hr with rfl | ⟨hr, _⟩
      · exact .inr ⟨key, value, ht, hv, hi, rfl⟩
      · exact .inl hr
    | kvDel key =>
      have he : st.after i = _ := h
      rw [he] at hr
      exact .inl ((Table.mem_erase _ _ _).mp hr).1
    | noteCreate =>
      obtain ⟨_, _, _, _, he⟩ := h
      rw [he] at hr
      exact .inl hr
    | noteUpdate id =>
      obtain ⟨_, _, _, _, _, he⟩ := h
      rw [he] at hr
      exact .inl hr
    | noteDel id =>
      have he : st.after i = _ := h
      rw [he] at hr
      exact .inl hr

/-- a note was there before, or a POST or a PUT has just stored its texts -/
theorem mem_notes_after (st : Store) (i : Incoming) (r : NoteRow)
    (hr : r ∈ (st.after i).notes.table.rows) :
    r ∈ st.notes.table.rows ∨
    (∃ title body, ∃ hn : st.notes.HasNext, writeTarget i.server i.req = some .noteCreate ∧
      NoteInput i.req title body ∧ r = createdRow i.now st hn title body) ∨
    (∃ id title body row, writeTarget i.server i.req = some (.noteUpdate id) ∧
      NoteInput i.req title body ∧ st.notes.table.get id = some row ∧
      r = row.edit title body i.now) := by
  rcases st.after_cases i with h | ⟨t, ht, hv, h⟩
  · rw [h] at hr
    exact .inl hr
  · cases t with
    | kvPut key =>
      obtain ⟨_, _, he⟩ := h
      rw [he] at hr
      exact .inl hr
    | kvDel key =>
      have he : st.after i = _ := h
      rw [he] at hr
      exact .inl hr
    | noteCreate =>
      obtain ⟨title, body, hn, hi, he⟩ := h
      rw [he] at hr
      rcases (Table.mem_put _ _ _).mp hr with rfl | ⟨hr, _⟩
      · exact .inr (.inl ⟨title, body, hn, ht, hi, rfl⟩)
      · exact .inl hr
    | noteUpdate id =>
      obtain ⟨title, body, row, hi, hrow, he⟩ := h
      rw [he] at hr
      rcases st.notes.mem_update id title body i.now r hr with hr | ⟨s, hs, rfl⟩
      · exact .inl hr
      · exact .inr (.inr ⟨id, title, body, s, ht, hi, hs, rfl⟩)
    | noteDel id =>
      have he : st.after i = _ := h
      rw [he] at hr
      exact .inl ((Table.mem_erase _ _ _).mp hr).1

/-! ## what every reachable store keeps -/

structure Sound (st : Store) : Prop where
  key : ∀ r ∈ st.kv.rows, storeValidateKey r.key = .ok
  value : ∀ r ∈ st.kv.rows, r.value.length ≤ 8191
  id : ∀ r ∈ st.notes.table.rows, 0 < r.id.val
  texts : ∀ r ∈ st.notes.table.rows, r.Bounded

theorem sound_empty : Sound Store.empty :=
  ⟨fun _ h => (by cases h), fun _ h => (by cases h), fun _ h => (by cases h),
    fun _ h => (by cases h)⟩

theorem sound_after (st : Store) (i : Incoming) (h : Sound st) : Sound (st.after i) := by
  refine ⟨fun r hr => ?_, fun r hr => ?_, fun r hr => ?_, fun r hr => ?_⟩
  · rcases mem_kv_after st i r hr with hr | ⟨key, value, _, hk, _, rfl⟩
    · exact h.key r hr
    · exact hk
  · rcases mem_kv_after st i r hr with hr | ⟨key, value, _, _, hi, rfl⟩
    · exact h.value r hr
    · exact hi.length
  · rcases mem_notes_after st i r hr with hr | ⟨_, _, hn, _, _, rfl⟩ | ⟨id, _, _, row, _, _, hrow, rfl⟩
    · exact h.id r hr
    · show (0 : Int) < (st.notes.seq : Int) + 1
      omega
    · exact h.id row (Table.get_eq_some hrow).1
  · rcases mem_notes_after st i r hr with hr | ⟨_, _, _, _, hi, rfl⟩ | ⟨_, _, _, _, _, hi, _, rfl⟩
    · exact h.texts r hr
    · exact hi.valid
    · exact hi.valid

structure AllClean (st : Store) : Prop where
  values : ∀ r ∈ st.kv.rows, Clean r.value.bytes
  notes : ∀ r ∈ st.notes.table.rows, Clean r.title.bytes ∧ Clean r.body.bytes

theorem allClean_empty : AllClean Store.empty :=
  ⟨fun _ h => (by cases h), fun _ h => (by cases h)⟩

def Incoming.Poison (st : Store) (i : Incoming) : Prop := CServer.Poison i.now i.server i.req st

theorem allClean_after (st : Store) (i : Incoming) (hp : ¬ i.Poison st) (h : AllClean st) :
    AllClean (st.after i) := by
  refine ⟨fun r hr => ?_, fun r hr => ?_⟩
  · rcases mem_kv_after st i r hr with hr | ⟨key, value, ht, _, hi, rfl⟩
    · exact h.values r hr
    · by_contra hc
      refine hp ⟨_, ht, value, hi, hc, fun hg => ?_⟩
      exact hc (h.values _ (Table.get_eq_some hg).1)
  · rcases mem_notes_after st i r hr with hr | ⟨title, body, hn, ht, hi, rfl⟩ |
        ⟨id, title, body, row, ht, hi, hrow, rfl⟩
    · exact h.notes r hr
    · by_contra hc
      exact hp ⟨_, ht, title, body, hi, hc, hn⟩
    · by_contra hc
      refine hp ⟨_, ht, title, body, row, hi, hc, hrow, fun he => ?_⟩
      rw [he] at hc
      exact hc (h.notes row (Table.get_eq_some hrow).1)

/-- a poison leaves a text that is not clean -/
theorem not_allClean_after (st : Store) (i : Incoming) (hp : i.Poison st) :
    ¬ AllClean (st.after i) := by
  obtain ⟨t, ht, hp⟩ := hp
  have hv := writeTarget_valid i.server i.req t ht
  have hafter : st.after i = ((t.handler true i.req).serve (Env.quiet i.now i.page) st).2 := by
    rcases apiRoute_cases (Env.quiet i.now i.page) i.req i.server with ⟨t', ht', _, _, _, he⟩ | ⟨hn, _⟩
    · rw [ht] at ht'
      cases ht'
      unfold Store.after apiDispatch
      rw [he]
      rfl
    · rw [ht] at hn
      cases hn
  rw [hafter]
  intro hall
  cases t with
  | kvPut key =>
    obtain ⟨value, hi, hc, _⟩ := hp
    have hs := congrArg Prod.snd (handleKvPut_stored i.now i.page i.req st key value hv hi)
    have hmem : (⟨key, value, i.now⟩ : KvRow) ∈
        ((handleKvPut true i.req key).serve (Env.quiet i.now i.page) st).2.kv.rows := by
      rw [hs]
      exact (Table.mem_put _ _ _).mpr (.inl rfl)
    exact hc (hall.values _ hmem)
  | kvDel key => exact hp
  | noteCreate =>
    obtain ⟨title, body, hi, hc, hn⟩ := hp
    have hs := congrArg Prod.snd (handleNoteCreate_stored i.now i.page i.req st title body hi hn)
    have hmem : createdRow i.now st hn title body ∈
        ((handleNoteCreate true i.req).serve (Env.quiet i.now i.page) st).2.notes.table.rows := by
      rw [hs]
      exact (Table.mem_put _ _ _).mpr (.inl rfl)
    exact hc (hall.notes _ hmem)
  | noteUpdate id =>
    obtain ⟨title, body, row, hi, hc, hrow, _⟩ := hp
    have hs := congrArg Prod.snd
      (handleNoteUpdate_stored i.now i.page i.req st id row title body hv hrow hi)
    have hmem : row.edit title body i.now ∈
        ((handleNoteUpdate true i.req id).serve (Env.quiet i.now i.page) st).2.notes.table.rows := by
      rw [hs]
      exact (Table.get_eq_some (update_get i.now st.notes id row title body hrow)).1
    exact hc (hall.notes _ hmem)
  | noteDel id => exact hp

/-! ## readable stores -/

/-- The texts are in the domain of `json_escape` with twice their length and one byte more; the
GET of an entry is answered 200; a list is never an internal error. -/
structure Readable (st : Store) : Prop where
  values : ∀ r ∈ st.kv.rows, jsonEscape (2 * r.value.length + 1) r.value ≠ none
  titles : ∀ r ∈ st.notes.table.rows, jsonEscape (2 * r.title.length + 1) r.title ≠ none
  bodies : ∀ r ∈ st.notes.table.rows, jsonEscape (2 * r.body.length + 1) r.body ≠ none
  kvGet : ∀ (i : Incoming) (key : CStr) (row : KvRow), i.req.method = .get →
    i.req.path.bytes = ascii "/api/kv/" ++ key.bytes → st.kv.get key = some row →
    ∃ body, (apiDispatch (Env.quiet i.now i.page) i.req st i.server).1 =
      ⟨.ok, [jsonResponse 200 body]⟩
  noteGet : ∀ (i : Incoming) (id : Long) (row : NoteRow), i.req.method = .get →
    parseNoteId i.req.path.toCStr = .ok id → st.notes.table.get id = some row →
    ∃ body, (apiDispatch (Env.quiet i.now i.page) i.req st i.server).1 =
      ⟨.ok, [jsonResponse 200 body]⟩
  kvList : ∀ (pfx : CStr) (limit : Int),
    storeKvList .none st.kv pfx limit StaticBuffer.kvListItems.cap ≠ .error .internal
  noteList : ∀ limit offset : Int,
    storeNoteList .none .none st.notes limit offset StaticBuffer.noteListBody.cap ≠
      .error .internal

theorem jsonEscape_ne_none (src : CStr) :
    jsonEscape (2 * src.length + 1) src ≠ none ↔ Clean src.bytes := by
  constructor
  · intro h
    by_contra hc
    exact h (jsonEscape_of_not_clean _ _ hc)
  · intro h
    rw [jsonEscape_of_clean _ _ h (Nat.lt_succ_self _)]
    exact Option.some_ne_none _

theorem validKey_noSlash (key : CStr) (h : storeValidateKey key = .ok) : (47 : Byte) ∉ key.bytes := by
  intro hm
  have hc := ((storeValidateKey_ok key).mp h).2.2 47 hm
  revert hc
  decide

theorem get_auth (req : HttpRequest) (server : Server) (h : req.method = .get)
    (hw : isApiWrite req = true) : serverAuthCheck server req = .ok := by
  unfold isApiWrite at hw
  rw [h] at hw
  exact absurd hw (by simp)

theorem readable_of_clean (st : Store) (hs : Sound st) (hc : AllClean st) : Readable st := by
  refine ⟨fun r hr => ?_, fun r hr => ?_, fun r hr => ?_, fun i key row hm hp hrow => ?_,
    fun i id row hm hid hrow => ?_, fun pfx limit => ?_, fun limit offset => ?_⟩
  · exact (jsonEscape_ne_none _).mpr (hc.values r hr)
  · exact (jsonEscape_ne_none _).mpr (hc.notes r hr).1
  · exact (jsonEscape_ne_none _).mpr (hc.notes r hr).2
  · obtain ⟨hmem, hkey⟩ := Table.get_eq_some hrow
    have hvalid : storeValidateKey key = .ok := hkey ▸ hs.key row hmem
    have hlen : row.value.length ≤ STORE_MAX_VALUE_LEN := by
      have := hs.value row hmem
      unfold STORE_MAX_VALUE_LEN
      omega
    have hroute := apiRoute_key (Env.quiet i.now i.page) i.req i.server key hp hvalid
      (validKey_noSlash key hvalid) (get_auth i.req i.server hm)
    rw [hm] at hroute
    refine ⟨kvItem (escapeText key.bytes) (escapeText row.value.bytes), ?_⟩
    unfold apiDispatch
    rw [hroute]
    show ((handleKvGet true key).serve (Env.quiet i.now i.page) st).1 = _
    rw [handleKvGet_present i.now i.page st key row hvalid hrow hlen]
    exact kvReply_clean key row.value hvalid (hc.values row hmem) hlen
  · obtain ⟨hmem, _⟩ := Table.get_eq_some hrow
    have hclean := hc.notes row hmem
    have hpos := (parseNoteId_path _ _ hid).2.2
    have hroute := apiRoute_note (Env.quiet i.now i.page) i.req i.server id hid
      (get_auth i.req i.server hm)
    rw [hm] at hroute
    have htext := noteRowToJson_clean row (hs.texts row hmem) hclean.1 hclean.2
      StaticBuffer.noteGetBody.cap 0 (by decide)
    refine ⟨noteItem row (escapeText row.title.bytes) (escapeText row.body.bytes), ?_⟩
    unfold apiDispatch
    rw [hroute]
    show ((handleNoteGet true id).serve (Env.quiet i.now i.page) st).1 = _
    rw [handleNoteGet_present i.now i.page st id row hpos hrow, htext]
    exact noteGetReply_ok row _ htext
  · apply storeKvList_listable _ _ _ _ (by decide)
    intro row hmem
    have hlen : row.value.bytes.length ≤ 8191 := hs.value row hmem
    have hle := escapeText_length_le row.value.bytes
    refine ⟨hs.key row hmem, hc.values row hmem, ?_⟩
    unfold KV_LIST_VALUE_CAP STORE_MAX_VALUE_LEN
    omega
  · apply storeNoteList_clean _ _ _ _ (by decide)
    intro row hmem
    exact ⟨hs.texts row hmem, hc.notes row hmem⟩

theorem clean_of_readable (st : Store) (h : Readable st) : AllClean st :=
  ⟨fun r hr => (jsonEscape_ne_none _).mp (h.values r hr),
    fun r hr => ⟨(jsonEscape_ne_none _).mp (h.titles r hr), (jsonEscape_ne_none _).mp (h.bodies r hr)⟩⟩

/-- **A run from the empty store stays readable, exactly unless it meets a poison.** -/
theorem readable_iff (run : List Incoming) :
    (∀ st ∈ visited Store.after Store.empty run, Readable st) ↔
      Throughout Store.after (fun st i => ¬ i.Poison st) Store.empty run := by
  constructor
  · intro h
    apply throughout_of_visited Store.after _ Readable _ _ _ h
    intro st i _ hr hp
    exact not_allClean_after st i hp (clean_of_readable _ hr)
  · intro h st hst
    have hinv := visited_inv Store.after (fun st i => ¬ i.Poison st)
      (fun st => Sound st ∧ AllClean st)
      (fun s i hp hs => ⟨sound_after s i hs.1, allClean_after s i hp hs.2⟩)
      Store.empty run ⟨sound_empty, allClean_empty⟩ h st hst
    exact readable_of_clean st hinv.1 hinv.2

/-- one PUT of a raw control byte, and the store behind it cannot be read -/
theorem not_readable_after_put :
    ¬ ∀ st ∈ visited Store.after Store.empty
      [⟨Long.clamp 0, [], openServer, rawControlPut⟩], Readable st := by
  intro h
  have hstore : ((Store.empty.after ⟨Long.clamp 0, [], openServer, rawControlPut⟩).kv.rows.map
      fun r => (jsonEscape (2 * r.value.length + 1) r.value).isSome) = [false] := by
    decide +kernel
  have hread := h (Store.empty.after ⟨Long.clamp 0, [], openServer, rawControlPut⟩)
    (List.mem_cons_of_mem _ List.mem_cons_self)
  have hmem : false ∈ [false] := List.mem_cons_self
  rw [← hstore] at hmem
  obtain ⟨r, hr, he⟩ := List.mem_map.mp hmem
  exact hread.values r hr (by simpa using he)

end CServer
