import CServer.Api.Router
import CServer.Api.Writes
import CServer.Http.QueryLookup
import CServer.Lib.Strtol
import CServer.Store.Render

/-!
# The pages of the note listing

A client asks for `limit` notes from `offset = k * limit` on, for `k = 0, 1, ...`, of a table that
does not change meanwhile.

* `PageRequest`           such a request;
* `parseLimit_page`, `parseOffset_page`   what the handler reads off its query;
* `handleNoteList_page`   what it answers;
* `pages_list`            the rows of the pages;
* `paging_reaches`        the pages up to the largest offset list the notes, and the others are refused.
-/

namespace CServer

/-- `value > 1000000` in `parse_offset` -/
def MAX_OFFSET : Nat := 1000000

/-! ## the query of a page -/

def pageQuery (limit offset : Nat) : Bytes :=
  ascii "limit=" ++ digits limit ++ ampersand :: (ascii "offset=" ++ digits offset)

/-- GET /api/notes?limit=...&offset=... -/
structure PageRequest (req : HttpRequest) (limit offset : Nat) : Prop where
  method : req.method = .get
  path : req.path.bytes = ascii "/api/notes"
  query : req.query.bytes = pageQuery limit offset

theorem digits_free (n : Nat) (c : Byte) (hc : isDigit c = false) : c ∉ digits n := by
  intro h
  rw [(digits_spec n).1 c h] at hc
  cases hc

/-- a piece of a query whose value is a number -/
theorem numberPiece (name : Bytes) (n : Nat) (hname : equals ∉ name) (hamp : ampersand ∉ name) :
    pieceName (name ++ equals :: digits n) = name ∧
      pairValue (name ++ equals :: digits n) = digits n ∧
      ampersand ∉ name ++ equals :: digits n := by
  have hall : ∀ c ∈ name, (c != equals) = true := fun c hc => by
    have hne : c ≠ equals := fun he => hname (he ▸ hc)
    simpa using hne
  have hstop : ∀ c, (equals :: digits n).head? = some c → (c != equals) = false := by
    intro c hc
    rw [← Option.some.inj hc]
    decide
  refine ⟨takeWhile_run _ _ _ hall hstop, ?_, ?_⟩
  · unfold pairValue
    rw [dropWhile_run _ _ _ hall hstop]
    rfl
  · intro h
    rcases List.mem_append.mp h with h | h
    · exact hamp h
    · rcases List.mem_cons.mp h with h | h
      · exact absurd h (by decide)
      · exact digits_free n ampersand (by decide) h

theorem digits_short (n : Nat) (h : n < 2 ^ 63) : (digits n).length < 32 := by
  have hlen := digits_length 18 n (by omega)
  omega

/-- `strtol` reads a printed number back, cut to the largest `long` -/
theorem strtol_digits (n : Nat) :
    (strtol (digits n)).converted = true ∧ (strtol (digits n)).stop = [] ∧
      (strtol (digits n)).value = Long.clamp n := by
  obtain ⟨hdigits, hvalue, hne, -⟩ := digits_spec n
  have hnumber : IsNumber (digits n) [] [] (digits n) [] :=
    ⟨(List.append_nil _).symm, fun c hc => absurd hc List.not_mem_nil, .inl rfl, hne, hdigits,
      fun c hc => nomatch hc⟩
  have hsigned : signedValue [] (digits n) = n := by
    unfold signedValue
    rw [if_neg (by decide), hvalue]
  rw [hnumber.strtol, hsigned]
  exact ⟨rfl, rfl, rfl⟩

/-- the text of a number behind `http_query_get` -/
theorem found_digits (n : Nat) :
    CStr.ofBytes ((digits n).map plusToSpace) = CStr.ofBytes (digits n) ∧
      (CStr.ofBytes (digits n)).bytes = digits n := by
  have hplus : (digits n).map plusToSpace = digits n := by
    conv_rhs => rw [← List.map_id (digits n)]
    refine List.map_congr_left fun c hc => ?_
    unfold plusToSpace
    exact if_neg fun he => digits_free n c (by rw [he]; decide) hc
  rw [hplus]
  exact ⟨rfl, cstr_of_nulFree _ (digits_free n 0 (by decide))⟩

/-- the guards on a printed number -/
theorem clamp_bounds (n : Nat) :
    (Long.clamp n).val = n ∧ n < 2 ^ 63 ∨ (Long.clamp n).val = 2 ^ 63 - 1 ∧ 2 ^ 63 ≤ n := by
  rcases Nat.lt_or_ge n (2 ^ 63) with h | h
  · exact .inl ⟨clamp_val (n : Int) (by omega) (by omega), h⟩
  · exact .inr ⟨clamp_high (n : Int) (by omega), h⟩

section
variable {query : CStr} {limit offset : Nat}

theorem parseLimit_page (h : query.bytes = pageQuery limit offset) (hlimit : 1 ≤ limit ∧ limit ≤ 100) :
    parseLimit query = .ok limit := by
  obtain ⟨hname, hvalue, hamp⟩ := numberPiece (ascii "limit") limit (by decide) (by decide)
  have hfirst : queryValue query.bytes (ascii "limit") = some (digits limit) := by
    rw [h]
    show queryValue ((ascii "limit" ++ equals :: digits limit) ++ ampersand :: _) _ = _
    rw [queryValue_more _ _ _ hamp, if_pos hname, hvalue]
  have hget : httpQueryGet query (.lit "limit") 32 = .found (CStr.ofBytes (digits limit)) := by
    rw [httpQueryGet_value query (.lit "limit") (by decide) 32 (by decide),
      show (CStr.lit "limit").bytes = ascii "limit" by decide, hfirst]
    simp only
    rw [if_pos (digits_short limit (by omega)), (found_digits limit).1]
  obtain ⟨hconverted, hstop, hval⟩ := strtol_digits limit
  unfold parseLimit
  rw [hget]
  simp only
  rw [(found_digits limit).2, hconverted, hstop, hval, clamp_val (limit : Int) (by omega) (by omega),
    if_neg]
  unfold STORE_MAX_LIST
  simp only [Bool.true_eq_false, ne_eq, not_true, false_or]
  omega

/-- The guard of `parse_offset`; a number that is too long for `text[32]` does not pass either. -/
theorem parseOffset_page (h : query.bytes = pageQuery limit offset) :
    parseOffset query = if offset ≤ MAX_OFFSET then .ok (offset : Int) else .error .invalidQuery := by
  obtain ⟨hname, -, hamp⟩ := numberPiece (ascii "limit") limit (by decide) (by decide)
  obtain ⟨hname2, hvalue2, hamp2⟩ := numberPiece (ascii "offset") offset (by decide) (by decide)
  have hsecond : queryValue query.bytes (ascii "offset") = some (digits offset) := by
    rw [h]
    show queryValue ((ascii "limit" ++ equals :: digits limit) ++
      ampersand :: (ascii "offset" ++ equals :: digits offset)) _ = _
    rw [queryValue_more _ _ _ hamp, if_neg (by rw [hname]; decide), queryValue_last _ _ hamp2,
      if_pos hname2, hvalue2]
  have hget : httpQueryGet query (.lit "offset") 32 =
      if (digits offset).length < 32 then .found (CStr.ofBytes (digits offset)) else .truncated := by
    rw [httpQueryGet_value query (.lit "offset") (by decide) 32 (by decide),
      show (CStr.lit "offset").bytes = ascii "offset" by decide, hsecond]
    simp only
    rw [(found_digits offset).1]
  obtain ⟨hconverted, hstop, hval⟩ := strtol_digits offset
  have hbounds := clamp_bounds offset
  unfold parseOffset MAX_OFFSET
  rw [hget]
  by_cases hshort : (digits offset).length < 32
  · rw [if_pos hshort]
    simp only
    rw [(found_digits offset).2, hconverted, hstop, hval]
    simp only [Bool.true_eq_false, ne_eq, not_true, false_or]
    by_cases hmax : offset ≤ 1000000
    · rw [if_pos hmax, if_neg (by omega), clamp_val (offset : Int) (by omega) (by omega)]
    · rw [if_neg hmax, if_pos (by omega)]
  · have hlong : ¬ offset ≤ 1000000 := fun hle => hshort (digits_short offset (by omega))
    rw [if_neg hshort, if_neg hlong]

end

/-! ## one page -/

/-- the number that the listing reports -/
def NoteTable.total (notes : NoteTable) : Nat := notes.table.rows.length

/-- the rows of the page `k` -/
def pageRows (notes : NoteTable) (limit k : Nat) : List NoteRow := noteSelect notes limit (k * limit)

/-- The rows can be rendered, and their object fits the buffer of the handler. -/
structure PageFits (notes : NoteTable) (rows : List NoteRow) : Prop where
  escapes : ∀ row ∈ rows, row.Escapes
  fits : (noteListText rows notes.total).length < HTTP_MAX_BODY_SIZE

/-- The answer is 200 with an object that has the rows as `"items"` and the number of notes as
`"total"`. -/
def ShowsPage (notes : NoteTable) (rows : List NoteRow) (a : Answer) : Prop :=
  ∃ body, a = ⟨.ok, [jsonResponse 200 body]⟩ ∧
    Json.Text body
      (.obj [(ascii "items", .arr (rows.map NoteRow.json)), (ascii "total", .num notes.total)])

section
variable (now : Long) (page : Bytes) (server : Server) {req : HttpRequest} (st : Store)
  {limit offset : Nat}

theorem PageRequest.route (h : PageRequest req limit offset) :
    apiDispatch (Env.quiet now page) req st server =
      (handleNoteList true req).serve (Env.quiet now page) st := by
  have hauth : Authorised server req := by
    intro hwrite
    unfold isApiWrite at hwrite
    rw [h.method] at hwrite
    exact absurd hwrite (by simp)
  have hroute := apiRoute_notes (Env.quiet now page) req server (.inl h.path) hauth
  rw [h.method] at hroute
  unfold apiDispatch
  rw [hroute]
  rfl

/-- a page that the offset may be asked for -/
theorem handleNoteList_page (h : PageRequest req limit offset) (hlimit : 1 ≤ limit ∧ limit ≤ 100)
    (hoffset : offset ≤ MAX_OFFSET) (hfits : PageFits st.notes (noteSelect st.notes limit offset)) :
    ∃ a, (handleNoteList true req).serve (Env.quiet now page) st = (a, st) ∧
      ShowsPage st.notes (noteSelect st.notes limit offset) a := by
  have hlist : storeNoteList .none .none st.notes limit offset HTTP_MAX_BODY_SIZE =
      .ok (noteListText (noteSelect st.notes limit offset) st.notes.total, st.notes.total) := by
    rw [storeNoteList_answer st.notes limit offset HTTP_MAX_BODY_SIZE
        ⟨by omega, by unfold STORE_MAX_LIST; omega, by omega⟩ (by decide),
      Int.toNat_natCast, Int.toNat_natCast, noteListAnswer_exact HTTP_MAX_BODY_SIZE _ _ (by decide) hfits.escapes]
    exact congrArg (Except.map _) (if_pos hfits.fits)
  have hreply := answerWith_json 200 (noteListText (noteSelect st.notes limit offset) st.notes.total)
    (by decide) (lt_trans hfits.fits (by decide))
  refine ⟨⟨.ok, [jsonResponse 200 (noteListText (noteSelect st.notes limit offset) st.notes.total)]⟩,
    ?_, _, rfl, noteListText_json _ _ hfits.escapes⟩
  unfold handleNoteList
  rw [parseLimit_page h.query hlimit, parseOffset_page h.query, if_pos hoffset]
  show (noteListReply true
    ((storeNoteList .none .none st.notes limit offset HTTP_MAX_BODY_SIZE).map Prod.fst), st) = _
  rw [hlist]
  exact congrArg (fun a => (a, st)) hreply

/-- a page behind the largest offset -/
theorem handleNoteList_beyond (h : PageRequest req limit offset) (hlimit : 1 ≤ limit ∧ limit ≤ 100)
    (hoffset : MAX_OFFSET < offset) :
    (handleNoteList true req).serve (Env.quiet now page) st =
      (answerError true .invalidQuery "limit 1..100, offset >= 0", st) := by
  unfold handleNoteList
  rw [parseLimit_page h.query hlimit, parseOffset_page h.query, if_neg (not_le.mpr hoffset)]
  rfl

end

/-! ## all pages -/

/-- the number of pages of a table -/
def pageCount (total limit : Nat) : Nat := (total + limit - 1) / limit

theorem lt_pageCount (total limit k : Nat) (h : 1 ≤ limit) :
    k < pageCount total limit ↔ k * limit < total := by
  unfold pageCount
  rw [Nat.lt_div_iff_mul_lt h]
  omega

/-- the pages whose offset may be asked for -/
def openPages (total limit : Nat) : Nat := min (pageCount total limit) (MAX_OFFSET / limit + 1)

theorem lt_openPages (total limit k : Nat) (h : 1 ≤ limit) :
    k < openPages total limit ↔ k * limit < total ∧ k * limit ≤ MAX_OFFSET := by
  unfold openPages
  rw [lt_min_iff, lt_pageCount total limit k h, Nat.lt_succ_iff, Nat.le_div_iff_mul_le h]

/-- The items are the notes, each once, by ascending id. -/
structure ListsAll (notes : NoteTable) (items : List NoteRow) : Prop where
  once : items.Perm notes.table.rows
  ascending : items.Pairwise fun r s => r.id.val < s.id.val

def notesById (notes : NoteTable) : List NoteRow := notes.table.select (fun r => r.id.val) fun _ => true

theorem notesById_lists (notes : NoteTable) : ListsAll notes (notesById notes) := by
  constructor
  · have hperm := List.perm_insertionSort (fun r s : NoteRow => r.id.val ≤ s.id.val)
      (notes.table.rows.filter fun _ => true)
    rw [List.filter_true] at hperm
    unfold notesById Table.select
    rwa [List.filter_true]
  · exact Table.select_strict (fun r : NoteRow => r.id.val) notes.table _ fun r s h => Long.ext' h

theorem notesById_length (notes : NoteTable) : (notesById notes).length = notes.total :=
  (notesById_lists notes).once.length_eq

/-- the rows of the first `n` pages -/
theorem pages_list (notes : NoteTable) (limit n : Nat) :
    (List.range n).flatMap (pageRows notes limit) = (notesById notes).take (n * limit) :=
  Table.take_pages (notesById notes) limit n

/-- `n` pages that no note is behind are all notes -/
theorem pages_all (notes : NoteTable) (limit n : Nat) (h : notes.total ≤ n * limit) :
    (List.range n).flatMap (pageRows notes limit) = notesById notes := by
  rw [pages_list]
  exact List.take_of_length_le (by rw [notesById_length]; exact h)

/-- A client that asks for the pages in front of the total gets them all, and they list the notes. -/
def PagesReach (st : Store) (limit : Nat) : Prop :=
  (∀ now page server req k, k * limit < st.notes.total → PageRequest req limit (k * limit) →
    ShowsPage st.notes (pageRows st.notes limit k)
      (apiDispatch (Env.quiet now page) req st server).1) ∧
  ListsAll st.notes ((List.range (pageCount st.notes.total limit)).flatMap (pageRows st.notes limit))

/-- **Paging reaches the notes up to the largest offset.**  The pages in front of it are answered, with the
number of notes; the others are refused; and together the answered ones are the first notes by id, which
are all of them when no page is behind the largest offset. -/
theorem paging_reaches (st : Store) (limit : Nat) (hlimit : 1 ≤ limit ∧ limit ≤ 100)
    (hfits : ∀ k, k * limit < st.notes.total → PageFits st.notes (pageRows st.notes limit k)) :
    (∀ now page server req k, k * limit < st.notes.total → PageRequest req limit (k * limit) →
      if k * limit ≤ MAX_OFFSET then
        ShowsPage st.notes (pageRows st.notes limit k)
          (apiDispatch (Env.quiet now page) req st server).1
      else (apiDispatch (Env.quiet now page) req st server).1 =
        answerError true .invalidQuery "limit 1..100, offset >= 0") ∧
    (∀ k, k < openPages st.notes.total limit ↔ k * limit < st.notes.total ∧ k * limit ≤ MAX_OFFSET) ∧
    (List.range (openPages st.notes.total limit)).flatMap (pageRows st.notes limit) =
      (notesById st.notes).take ((MAX_OFFSET / limit + 1) * limit) ∧
    (st.notes.total ≤ (MAX_OFFSET / limit + 1) * limit →
      ListsAll st.notes
        ((List.range (openPages st.notes.total limit)).flatMap (pageRows st.notes limit))) := by
  have hopen : openPages st.notes.total limit * limit ≤ (MAX_OFFSET / limit + 1) * limit :=
    Nat.mul_le_mul_right limit (min_le_right _ _)
  have hcovers : st.notes.total ≤ pageCount st.notes.total limit * limit := by
    by_contra hmore
    exact absurd ((lt_pageCount st.notes.total limit _ hlimit.1).mpr (not_le.mp hmore)) (lt_irrefl _)
  refine ⟨fun now page server req k hk hreq => ?_,
    fun k => lt_openPages st.notes.total limit k hlimit.1, ?_, fun htotal => ?_⟩
  · rw [hreq.route now page server st]
    by_cases hoffset : k * limit ≤ MAX_OFFSET
    · obtain ⟨a, ha, hshows⟩ := handleNoteList_page now page st hreq hlimit hoffset (hfits k hk)
      rw [if_pos hoffset, ha]
      exact hshows
    · rw [if_neg hoffset, handleNoteList_beyond now page st hreq hlimit (not_le.mp hoffset)]
  · rw [pages_list]
    unfold openPages at hopen ⊢
    rcases le_total (pageCount st.notes.total limit) (MAX_OFFSET / limit + 1) with hle | hle
    · rw [min_eq_left hle] at hopen ⊢
      rw [List.take_of_length_le (by rw [notesById_length]; exact hcovers),
        List.take_of_length_le (by rw [notesById_length]; exact hcovers.trans hopen)]
    · rw [min_eq_right hle]
  · have hall : st.notes.total ≤ openPages st.notes.total limit * limit := by
      unfold openPages
      rcases le_total (pageCount st.notes.total limit) (MAX_OFFSET / limit + 1) with hle | hle
      · rw [min_eq_left hle]
        exact hcovers
      · rw [min_eq_right hle]
        exact htotal
    rw [pages_all st.notes limit _ hall]
    exact notesById_lists st.notes

/-! ## a table of many short notes -/

def shortNote (i : Nat) : NoteRow :=
  ⟨Long.clamp (i + 1 : Nat), .lit "a", CStr.empty, Long.clamp 0, Long.clamp 0⟩

theorem shortNote_id (i : Nat) (h : i + 1 < 2 ^ 63) : (shortNote i).id.val = (i + 1 : Nat) :=
  clamp_val _ (by omega) (by omega)

/-- the notes 1 to `n` -/
def shortNotes (n : Nat) (h : (n : Int) < 2 ^ 63) : NoteTable where
  table :=
    { rows := (List.range n).map shortNote
      unique := by
        rw [List.map_map]
        refine List.Nodup.map_on (fun i hi j hj he => ?_) List.nodup_range
        have hival := shortNote_id i (by have := List.mem_range.mp hi; omega)
        have hjval := shortNote_id j (by have := List.mem_range.mp hj; omega)
        have hval : (shortNote i).id.val = (shortNote j).id.val := congrArg Long.val he
        omega }
  seq := n
  seqHi := h
  bound := by
    intro r hr
    obtain ⟨i, hi, rfl⟩ := List.mem_map.mp hr
    have hi := List.mem_range.mp hi
    rw [shortNote_id i (by omega)]
    omega

theorem shortNotes_total (n : Nat) (h : (n : Int) < 2 ^ 63) : (shortNotes n h).total = n := by
  show ((List.range n).map shortNote).length = n
  rw [List.length_map, List.length_range]

/-- every page of them fits -/
theorem shortNotes_fits (n : Nat) (h : (n : Int) < 2 ^ 63) (limit k : Nat) (hlimit : limit ≤ 100) :
    PageFits (shortNotes n h) (pageRows (shortNotes n h) limit k) := by
  have hrow : ∀ row ∈ pageRows (shortNotes n h) limit k, ∃ i, row = shortNote i := by
    intro row hr
    have hmem := List.mem_of_mem_drop (List.mem_of_mem_take hr)
    obtain ⟨i, -, rfl⟩ := List.mem_map.mp ((Table.mem_select _ _ _ _).mp hmem).1
    exact ⟨i, rfl⟩
  have htext : ∀ row ∈ pageRows (shortNotes n h) limit k, (noteRowText row).length ≤ 117 := by
    intro row hr
    obtain ⟨i, rfl⟩ := hrow row hr
    have hitem := noteItem_length (shortNote i) (escapeText (CStr.lit "a").bytes) (escapeText [])
    rw [show (escapeText (CStr.lit "a").bytes).length = 1 by decide,
      show (escapeText []).length = 0 by decide] at hitem
    exact hitem
  have hpage : (pageRows (shortNotes n h) limit k).length ≤ 100 :=
    (List.length_take_le _ _).trans hlimit
  have hjoin := joinRows_length_le noteRowText true _ 117 htext
  have htotal := decimal_length (shortNotes n h).total (by omega) (by rw [shortNotes_total]; exact h)
  refine ⟨fun row hr => ?_, ?_⟩
  · obtain ⟨i, rfl⟩ := hrow row hr
    have hescapes : NoteRow.Escapes ⟨Long.clamp 1, .lit "a", CStr.empty, Long.clamp 0, Long.clamp 0⟩ :=
      ⟨by decide, by decide⟩
    exact ⟨hescapes.title, hescapes.body⟩
  · unfold noteListText
    rw [List.length_append, List.length_append, List.length_append, List.length_append,
      show (ascii "\x7b\"items\":[").length = 10 by decide,
      show (ascii "],\"total\":").length = 10 by decide, show (ascii "\x7d").length = 1 by decide]
    unfold HTTP_MAX_BODY_SIZE
    omega

/-- GET /api/notes?limit=...&offset=..., with room for the query -/
def pageGet (limit offset : Nat) : HttpRequest :=
  { HttpRequest.zero with
    path := CBuf.print _ pathLen_pos (.lit "/api/notes")
    query := CBuf.print _ pathLen_pos (CStr.ofBytes (pageQuery limit offset)) }

/-- three notes on two pages -/
theorem paging_reaches_three :
    ListsAll (shortNotes 3 (by decide))
      ((List.range (openPages (shortNotes 3 (by decide)).total 2)).flatMap
        (pageRows (shortNotes 3 (by decide)) 2)) :=
  (paging_reaches ⟨Table.empty KvRow.key, shortNotes 3 (by decide)⟩ 2 (by decide)
    fun k _ => shortNotes_fits 3 (by decide) 2 k (by decide)).2.2.2 (by decide)

/-- With 1000101 notes the page of a hundred from 1000100 on is refused. -/
theorem paging_refused :
    (∀ k, PageFits (shortNotes 1000101 (by decide)) (pageRows (shortNotes 1000101 (by decide)) 100 k)) ∧
      ¬ PagesReach ⟨Table.empty KvRow.key, shortNotes 1000101 (by decide)⟩ 100 := by
  refine ⟨fun k => shortNotes_fits 1000101 _ 100 k (le_refl 100), fun h => ?_⟩
  have hreq : PageRequest (pageGet 100 (10001 * 100)) 100 (10001 * 100) :=
    ⟨rfl, by decide +kernel, by decide +kernel⟩
  obtain ⟨body, hbody, -⟩ := h.1 (Long.clamp 0) [] openServer (pageGet 100 (10001 * 100)) 10001
    (by rw [shortNotes_total]; decide) hreq
  rw [hreq.route, handleNoteList_beyond (Long.clamp 0) [] _ hreq (by decide) (by decide)] at hbody
  cases congrArg Answer.result hbody

end CServer
