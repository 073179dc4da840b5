import CServer.Web.Lab

/-!
# What the copied command does

The copied command replays a request when a shell reads it as one simple command with the arguments
that send the request again.

* `Request.arguments`     those arguments, and `Replays`: the command has them;
* `buildCurl_eq`          `buildCurl` as a written command line;
* `buildCurl_gives_iff`   when that line gives the arguments of what it was built from;
* `replays_iff`           when the command that is copied after a call replays it.
-/

namespace CServer
namespace Web
open Shell

/-- `location.origin`: it begins with a scheme, or is `null` -/
structure Origin where
  text : Chars
  letter : ∃ c s, text = c :: s ∧ c.isAlpha = true

def headerArg (p : Chars × Chars) : Chars := p.1 ++ ": ".toList ++ p.2

def headerArgs (headers : List (Chars × Chars)) : List Chars :=
  headers.flatMap fun p => ["-H".toList, headerArg p]

def bodyArgs : Option Chars → List Chars
  | none => []
  | some body => ["-d".toList, body]

def targetArgs (origin : Origin) (method path : Chars) : List Chars :=
  ["curl".toList, "-X".toList, method, origin.text ++ path]

/-- the arguments that send a request again -/
def Request.arguments (origin : Origin) (r : Request) : List Chars :=
  targetArgs origin r.method r.path ++ headerArgs r.headers.entries ++ bodyArgs r.body

/-- The copied command is one simple command with the arguments of the request. -/
def Replays (files : Letters → List Chars) (origin : Origin) (request : Request) (lab : Lab) : Prop :=
  (lab.copyCurl origin.text).bind (simpleCommand files) = some (request.arguments origin)

/-! ## the command as a written line -/

def headerWords (headers : List (Chars × Chars)) : List Argument :=
  headers.flatMap fun p => [.raw "-H".toList, .quoted (headerArg p)]

def bodyWords (raw : Chars) : List Argument :=
  if raw = [] then [] else [.raw "-d".toList, .escaped raw]

def targetWords (origin : Origin) (method path : Chars) : List Argument :=
  [.raw "curl".toList, .raw "-X".toList, .raw method, .raw (origin.text ++ path)]

def curlWords (origin : Origin) (method path : Chars) (headers : List (Chars × Chars)) (raw : Chars) :
    List Argument :=
  targetWords origin method path ++ (headerWords headers ++ bodyWords raw)

/-- the text of a body, `none` for the empty one -/
def bodyOf (raw : Chars) : Option Chars := if raw = [] then none else some raw

theorem replaceQuotes_eq (raw : Chars) : replaceQuotes raw = raw.flatMap escapeQuote := rfl

theorem lineRest_append (l l' : List Argument) : lineRest (l ++ l') = lineRest l ++ lineRest l' :=
  List.flatMap_append

theorem lineRest_headerWords (headers : List (Chars × Chars)) :
    lineRest (headerWords headers) =
      headers.flatMap fun p => " -H '".toList ++ p.1 ++ ": ".toList ++ p.2 ++ "'".toList := by
  induction headers with
  | nil => rfl
  | cons p headers ih =>
    have hcons : headerWords (p :: headers) =
        [.raw "-H".toList, .quoted (headerArg p)] ++ headerWords headers := rfl
    rw [hcons, lineRest_append, ih, List.flatMap_cons]
    have hp : lineRest [.raw "-H".toList, .quoted (headerArg p)] =
        " -H '".toList ++ p.1 ++ ": ".toList ++ p.2 ++ "'".toList := by
      simp [lineRest, Argument.text, headerArg]
    rw [hp]

theorem lineRest_bodyWords (raw : Chars) :
    lineRest (bodyWords raw) =
      if raw ≠ [] then " -d '".toList ++ replaceQuotes raw ++ "'".toList else [] := by
  unfold bodyWords
  by_cases hraw : raw = []
  · rw [if_pos hraw, if_neg (not_not.mpr hraw)]
    rfl
  · rw [if_neg hraw, if_pos hraw]
    simp [lineRest, Argument.text, replaceQuotes_eq]

/-- **The command is a line of written arguments.** -/
theorem buildCurl_eq (origin : Origin) (method path : Chars) (headers : Option Headers) (raw : Chars) :
    buildCurl origin.text method path headers raw =
      line (curlWords origin method path (headers.getD .empty).entries raw) := by
  have hline : ∀ l, line (targetWords origin method path ++ l) =
      "curl -X ".toList ++ method ++ " ".toList ++ origin.text ++ path ++ lineRest l := by
    intro l
    simp [targetWords, line, lineRest, Argument.text]
  unfold buildCurl
  rw [curlWords, hline, lineRest_append, lineRest_headerWords, lineRest_bodyWords]
  simp only [List.foldl_append_eq_append, ← List.flatMap_def]
  split
  · rw [List.append_assoc]
  · rw [List.append_nil]

/-! ## the arguments that are always written well -/

/-- what is asked of an argument for the line to give it -/
def Sure (files : Letters → List Chars) (x : Argument) : Prop :=
  x.Good ∧ '\x00' ∉ x.arg ∧ Stays files x.word

/-- a text that stands between single quotes as it is; no command line holds a NUL -/
def Quotable (s : Chars) : Prop := '\'' ∉ s ∧ '\x00' ∉ s

theorem sure_quoted (files : Letters → List Chars) (arg : Chars) :
    Sure files (.quoted arg) ↔ Quotable arg :=
  ⟨fun h => ⟨h.1, h.2.1⟩, fun h => ⟨h.1, h.2, stays_quoted files arg⟩⟩

theorem sure_escaped (files : Letters → List Chars) (arg : Chars) :
    Sure files (.escaped arg) ↔ '\x00' ∉ arg :=
  ⟨fun h => h.2.1, fun h => ⟨trivial, h, stays_quoted files arg⟩⟩

theorem quotable_headerArg (p : Chars × Chars) :
    Quotable (headerArg p) ↔ Quotable p.1 ∧ Quotable p.2 := by
  simp only [Quotable, headerArg, List.mem_append, not_or]
  have hsep : '\'' ∉ ": ".toList ∧ '\x00' ∉ ": ".toList := by simp
  tauto

/-- the characters of a command name and of its options -/
def IsLetter (c : Char) : Prop := c.isAlpha = true ∨ c = '-'

theorem IsLetter.kind {c : Char} (h : IsLetter c) : kind c = .plain := by
  rcases h with h | rfl
  · unfold Shell.kind
    split <;> first | rfl | exact absurd h (by decide)
  · simp [Shell.kind]

theorem not_isLetter {c : Char} (h : c ∈ ['#', '~', '\x00', '*', '?', '[']) : ¬ IsLetter c := by
  simp only [List.mem_cons, List.not_mem_nil, or_false] at h
  rcases h with rfl | rfl | rfl | rfl | rfl | rfl <;> rintro (h | h) <;> exact absurd h (by decide)

theorem sure_letters (files : Letters → List Chars) {arg : Chars} (hne : arg ≠ [])
    (h : ∀ c ∈ arg, IsLetter c) : Sure files (.raw arg) := by
  have hfirst : ∀ e, ¬ IsLetter e → arg.head? ≠ some e := fun e he hhead =>
    he (h e (List.mem_of_head? hhead))
  refine ⟨⟨hne, fun c hc => (h c hc).kind, hfirst _ (not_isLetter (by simp)),
    hfirst _ (not_isLetter (by simp))⟩, fun hmem => not_isLetter (by simp) (h _ hmem), ?_⟩
  rintro ⟨p, hp, -, hchar⟩
  obtain ⟨c, hc, rfl⟩ := List.mem_map.mp hp
  refine absurd (h c hc) (not_isLetter ?_)
  exact List.mem_append_right ['#', '~', '\x00'] hchar

theorem sure_curl (files : Letters → List Chars) : Sure files (.raw "curl".toList) :=
  sure_letters files (by simp) (by simp [IsLetter])

theorem sure_option (files : Letters → List Chars) {c : Char} (hc : c.isAlpha = true) :
    Sure files (.raw ['-', c]) :=
  sure_letters files (by simp) (by simp [IsLetter, hc])

/-! ## when the line gives its arguments -/

theorem Origin.opens (origin : Origin) (path : Chars) : (Argument.raw (origin.text ++ path)).Opens := by
  obtain ⟨c, s, htext, hc⟩ := origin.letter
  exact ⟨c, s ++ path, by rw [Argument.text, htext, List.cons_append], IsLetter.kind (.inl hc)⟩

theorem opens_option (c : Char) : (Argument.raw ['-', c]).Opens :=
  ⟨'-', [c], rfl, IsLetter.kind (.inr rfl)⟩

theorem good_option {c : Char} (hc : c.isAlpha = true) : (Argument.raw ['-', c]).Good :=
  (sure_option (fun _ => []) hc).1

theorem spaced_words (headers : List (Chars × Chars)) (raw : Chars) :
    Spaced (headerWords headers ++ bodyWords raw) ∧
      ∀ y ∈ (headerWords headers ++ bodyWords raw).head?, y.Opens := by
  induction headers with
  | nil =>
    change Spaced (bodyWords raw) ∧ ∀ y ∈ (bodyWords raw).head?, y.Opens
    unfold bodyWords
    split
    · exact ⟨List.isChain_nil, by simp⟩
    · refine ⟨List.isChain_pair.mpr (.inl (good_option rfl)), fun y hy => ?_⟩
      obtain rfl := Option.some.inj hy
      exact opens_option 'd'
  | cons p headers ih =>
    have hcons : headerWords (p :: headers) ++ bodyWords raw =
        .raw "-H".toList :: .quoted (headerArg p) :: (headerWords headers ++ bodyWords raw) := rfl
    rw [hcons]
    constructor
    · refine List.isChain_cons_cons.mpr ⟨.inl (good_option rfl), ?_⟩
      exact List.isChain_cons.mpr ⟨fun y hy => .inr (ih.2 y hy), ih.1⟩
    · intro y hy
      obtain rfl := Option.some.inj hy
      exact opens_option 'H'

theorem spaced_curlWords (origin : Origin) (method path : Chars) (headers : List (Chars × Chars))
    (raw : Chars) : Spaced (curlWords origin method path headers raw) := by
  obtain ⟨hchain, hhead⟩ := spaced_words headers raw
  change Spaced (.raw "curl".toList :: .raw "-X".toList :: .raw method ::
    .raw (origin.text ++ path) :: (headerWords headers ++ bodyWords raw))
  refine List.isChain_cons_cons.mpr ⟨.inl (sure_curl fun _ => []).1, ?_⟩
  refine List.isChain_cons_cons.mpr ⟨.inl (good_option rfl), ?_⟩
  refine List.isChain_cons_cons.mpr ⟨.inr (origin.opens path), ?_⟩
  exact List.isChain_cons.mpr ⟨fun y hy => .inr (hhead y hy), hchain⟩

theorem map_arg_headerWords (headers : List (Chars × Chars)) :
    (headerWords headers).map Argument.arg = headerArgs headers := by
  rw [headerWords, headerArgs, List.map_flatMap]
  rfl

theorem map_arg_bodyWords (raw : Chars) : (bodyWords raw).map Argument.arg = bodyArgs (bodyOf raw) := by
  unfold bodyWords bodyOf
  split <;> rfl

theorem map_arg_curlWords (origin : Origin) (method path : Chars) (headers : List (Chars × Chars))
    (raw : Chars) : (curlWords origin method path headers raw).map Argument.arg =
      targetArgs origin method path ++ headerArgs headers ++ bodyArgs (bodyOf raw) := by
  rw [curlWords, List.map_append, List.map_append, map_arg_headerWords, map_arg_bodyWords,
    List.append_assoc]
  rfl

/-- The shell takes the method, and the origin with the path, as they stand. -/
structure Plain (files : Letters → List Chars) (origin : Origin) (method path : Chars) : Prop where
  methodBare : BareWord method
  targetBare : ∀ c ∈ origin.text ++ path, kind c = .plain
  noNul : '\x00' ∉ method ∧ '\x00' ∉ origin.text ++ path
  methodStays : Stays files (mark false method)
  targetStays : Stays files (mark false (origin.text ++ path))

theorem Origin.bareWord_iff (origin : Origin) (path : Chars) :
    BareWord (origin.text ++ path) ↔ ∀ c ∈ origin.text ++ path, kind c = .plain := by
  obtain ⟨c, s, htext, hc⟩ := origin.letter
  have hfirst : ∀ e, ¬ IsLetter e → (origin.text ++ path).head? ≠ some e := by
    intro e he hhead
    rw [htext, List.cons_append, List.head?_cons] at hhead
    obtain rfl := Option.some.inj hhead
    exact he (.inl hc)
  refine ⟨BareWord.plain, fun h => ⟨?_, h, hfirst _ (not_isLetter (by simp)),
    hfirst _ (not_isLetter (by simp))⟩⟩
  rw [htext]
  exact List.cons_ne_nil _ _

theorem sure_target (files : Letters → List Chars) (origin : Origin) (method path : Chars) :
    (∀ x ∈ targetWords origin method path, Sure files x) ↔ Plain files origin method path := by
  unfold targetWords
  rw [List.forall_mem_cons, List.forall_mem_cons, List.forall_mem_cons, List.forall_mem_singleton]
  constructor
  · rintro ⟨-, -, ⟨hm, hmnul, hmstays⟩, ⟨ht, htnul, htstays⟩⟩
    exact ⟨hm, ht.plain, ⟨hmnul, htnul⟩, hmstays, htstays⟩
  · rintro ⟨hm, ht, ⟨hmnul, htnul⟩, hmstays, htstays⟩
    exact ⟨sure_curl files, sure_option files rfl, ⟨hm, hmnul, hmstays⟩,
      ⟨(origin.bareWord_iff path).mpr ht, htnul, htstays⟩⟩

theorem sure_headerWords (files : Letters → List Chars) (headers : List (Chars × Chars)) :
    (∀ x ∈ headerWords headers, Sure files x) ↔ ∀ p ∈ headers, Quotable p.1 ∧ Quotable p.2 := by
  unfold headerWords
  rw [List.forall_mem_flatMap]
  refine forall₂_congr fun p hp => ?_
  rw [List.forall_mem_cons, List.forall_mem_singleton, sure_quoted, quotable_headerArg]
  exact and_iff_right (sure_option files rfl)

theorem sure_bodyWords (files : Letters → List Chars) (raw : Chars) :
    (∀ x ∈ bodyWords raw, Sure files x) ↔ '\x00' ∉ raw := by
  unfold bodyWords
  split
  · rename_i hraw
    simp [hraw]
  · rw [List.forall_mem_cons, List.forall_mem_singleton, sure_escaped]
    exact and_iff_right (sure_option files rfl)

theorem good_bodyWords (raw : Chars) : ∀ x ∈ bodyWords raw, x.Good := by
  unfold bodyWords
  split
  · simp
  · rw [List.forall_mem_cons, List.forall_mem_singleton]
    exact ⟨good_option rfl, trivial⟩

/-- **When the command of an entry is read as its arguments**, with `rest` where its body stands. -/
theorem buildCurl_gives_iff (files : Letters → List Chars) (origin : Origin) (method path : Chars)
    (headers : Option Headers) (raw : Chars) (rest : List Chars) :
    simpleCommand files (buildCurl origin.text method path headers raw) =
        some (targetArgs origin method path ++ headerArgs (headers.getD .empty).entries ++ rest) ↔
      rest = bodyArgs (bodyOf raw) ∧ Plain files origin method path ∧
        (∀ p ∈ (headers.getD .empty).entries, Quotable p.1 ∧ Quotable p.2) ∧ '\x00' ∉ raw := by
  rw [buildCurl_eq]
  generalize (headers.getD .empty).entries = hs
  let front := targetWords origin method path ++ headerWords hs
  have hline : curlWords origin method path hs raw = front ++ bodyWords raw :=
    (List.append_assoc _ _ _).symm
  have hfront : front.map Argument.arg = targetArgs origin method path ++ headerArgs hs := by
    rw [List.map_append, map_arg_headerWords]
    rfl
  have hgood : ∀ x ∈ (curlWords origin method path hs raw).drop front.length, x.Good := by
    rw [hline, List.drop_left]
    exact good_bodyWords raw
  have htake : (targetArgs origin method path ++ headerArgs hs ++ rest).take front.length =
      ((curlWords origin method path hs raw).map Argument.arg).take front.length := by
    rw [hline, List.map_append, hfront, ← List.length_map (f := Argument.arg), hfront,
      List.take_left, List.take_left]
  rw [simpleCommand_line files (spaced_curlWords origin method path hs raw) front.length _ htake hgood,
    map_arg_curlWords, List.append_cancel_left_eq]
  refine and_congr_right fun _ => ?_
  change (∀ x ∈ curlWords origin method path hs raw, Sure files x) ↔ _
  rw [curlWords, List.forall_mem_append, List.forall_mem_append, sure_target, sure_headerWords,
    sure_bodyWords]

/-! ## the three kinds of calls -/

theorem headerArgs_eq_bodyArgs (headers : List (Chars × Chars)) (args : List Chars) (body : Option Chars) :
    headerArgs headers ++ args = bodyArgs body ↔ headers = [] ∧ args = bodyArgs body := by
  cases headers with
  | nil => exact (and_iff_right rfl).symm
  | cons p headers =>
    constructor
    · intro h
      cases body with
      | none => cases h
      | some body =>
        have hhead : "-H".toList = "-d".toList := (List.cons.inj h).1
        exact absurd hhead (by simp)
    · rintro ⟨h, -⟩
      cases h

/-- The entry of a call without its headers gives the arguments of a request without any. -/
theorem replays_bare (files : Letters → List Chars) (origin : Origin) (lab : Lab) {request : Request}
    {entry : Entry} (hmethod : entry.method = request.method) (hpath : entry.path = request.path)
    (hheaders : entry.headers = none) :
    Replays files origin request (trace entry lab) ↔
      request.headers.fields = [] ∧ bodyArgs request.body = bodyArgs (bodyOf entry.reqBody) ∧
        Plain files origin request.method request.path ∧ '\x00' ∉ entry.reqBody := by
  have hargs : request.arguments origin =
      targetArgs origin request.method request.path ++
        headerArgs ((none : Option Headers).getD .empty).entries ++
          (headerArgs request.headers.entries ++ bodyArgs request.body) := by
    rw [Request.arguments, List.append_assoc]
    rfl
  unfold Replays
  rw [copyCurl_trace, Option.bind_some, hmethod, hpath, hheaders, hargs, buildCurl_gives_iff,
    headerArgs_eq_bodyArgs, Headers.entries_eq_nil, and_assoc]
  refine and_congr_right fun _ => and_congr_right fun _ => and_congr_right fun _ => ?_
  exact and_iff_right (fun p hp => absurd hp List.not_mem_nil)

theorem Headers.set_ne_nil (h : Headers) {name : Chars} (hname : name ≠ protoName) (value : Chars) :
    (h.set name value).fields ≠ [] := fun hnil =>
  hname ((h.set_fields_eq_nil name value).mp hnil).2

theorem contentType_ne : contentType ≠ protoName := by
  unfold contentType protoName
  simp

theorem apiKey_ne : apiKey ≠ protoName := by
  unfold apiKey protoName
  simp

theorem authWrong_loses (fetch : Request → Option Reply) (files : Letters → List Chars) (origin : Origin)
    (lab : Lab) {request : Request} {entry : Entry}
    (h : Call.authWrong.run fetch = some (request, entry)) :
    ¬ Replays files origin request (trace entry lab) := by
  obtain ⟨rfl, hmethod, hpath, -, hheaders⟩ := run_authWrong fetch h
  rw [replays_bare files origin lab hmethod hpath hheaders]
  rintro ⟨hnil, -⟩
  exact Headers.set_ne_nil _ apiKey_ne wrongKey hnil

theorem rawHeaders_eq_nil (raw : Chars) (h : Headers) :
    (rawHeaders raw h).fields = [] ↔ raw = [] ∧ h.fields = [] := by
  unfold rawHeaders
  split
  · rename_i hset
    refine iff_of_false (h.set_ne_nil contentType_ne applicationJson) fun hnil => hset.1 hnil.1
  · rename_i hset
    refine ⟨fun hnil => ⟨?_, hnil⟩, And.right⟩
    have hlacks : ∀ name, h.lacks name = true := by
      intro name
      simp [Headers.lacks, Headers.get, hnil]
    by_contra hraw
    exact hset ⟨hraw, hlacks _, hlacks _⟩

theorem rawRun_replays_iff (fetch : Request → Option Reply) (files : Letters → List Chars) (origin : Origin)
    (lab : Lab) (form : RawForm) {request : Request} {entry : Entry}
    (h : (Call.rawRun form).run fetch = some (request, entry)) :
    Replays files origin request (trace entry lab) ↔
      Plain files origin form.method form.target ∧ form.body = [] ∧
        ∀ l ∈ form.headers.splitOn '\n', AddsNothing l := by
  obtain ⟨⟨headers, hparse, rfl⟩, hmethod, hpath, hbody, hheaders⟩ := run_rawRun fetch h
  rw [replays_bare files origin lab hmethod hpath hheaders, hbody, rawHeaders_eq_nil,
    parseHeaders_eq_nil hparse]
  constructor
  · rintro ⟨⟨hraw, hlines⟩, -, hplain, -⟩
    exact ⟨hplain, hraw, hlines⟩
  · rintro ⟨hplain, hraw, hlines⟩
    refine ⟨⟨hraw, hlines⟩, ?_, hplain, ?_⟩
    · rw [hraw]
      rfl
    · rw [hraw]
      exact List.not_mem_nil

/-- The call gives the header a value of its own. -/
def Overwritten (token method : Chars) (body : Option JsonText) (opts : Options) (name : Chars) : Prop :=
  (body.isSome = true ∧ name = contentType) ∨ (AttachesToken token method opts ∧ name = apiKey)

/-- the headers of a call can all be written between quotes -/
def QuotableHeaders (token method : Chars) (body : Option JsonText) (opts : Options) : Prop :=
  (∀ p ∈ opts.headers.fields,
    Quotable p.1 ∧ (¬ Overwritten token method body opts p.1 → Quotable p.2)) ∧
  (AttachesToken token method opts → Quotable token)

theorem forall_set (h : Headers) {name : Chars} (hname : name ≠ protoName) (value : Chars)
    (q : Chars × Chars → Prop) :
    (∀ p ∈ (h.set name value).fields, q p) ↔
      (∀ p ∈ h.fields, p.1 ≠ name → q p) ∧ q (name, value) := by
  constructor
  · intro hall
    exact ⟨fun p hp hne => hall p ((h.mem_set hname value p).mpr (.inl ⟨hp, hne⟩)),
      hall _ ((h.mem_set hname value _).mpr (.inr rfl))⟩
  · rintro ⟨hold, hnew⟩ p hp
    rcases (h.mem_set hname value p).mp hp with ⟨hp, hne⟩ | rfl
    · exact hold p hp hne
    · exact hnew

theorem quotable_contentType : Quotable contentType := by
  unfold contentType
  exact ⟨by simp, by simp⟩

theorem quotable_applicationJson : Quotable applicationJson := by
  unfold applicationJson
  exact ⟨by simp, by simp⟩

theorem quotable_apiKey : Quotable apiKey := by
  unfold apiKey
  exact ⟨by simp, by simp⟩

/-- What holds of the headers of a call, in terms of what they are made of. -/
theorem forall_callHeaders (token method : Chars) (body : Option JsonText) (opts : Options)
    (q : Chars × Chars → Prop) (hjson : q (contentType, applicationJson)) :
    (∀ p ∈ (callHeaders token method body opts).fields, q p) ↔
      (∀ p ∈ opts.headers.fields, ¬ Overwritten token method body opts p.1 → q p) ∧
        (AttachesToken token method opts → q (apiKey, token)) := by
  have hbody : ∀ q' : Chars × Chars → Prop, q' (contentType, applicationJson) →
      ((∀ p ∈ (if body.isSome then opts.headers.set contentType applicationJson else
          opts.headers).fields, q' p) ↔
        ∀ p ∈ opts.headers.fields, ¬ (body.isSome = true ∧ p.1 = contentType) → q' p) := by
    intro q' hq'
    by_cases hb : body.isSome = true
    · rw [if_pos hb, forall_set _ contentType_ne]
      simp [hb, hq']
    · rw [if_neg hb]
      simp [hb]
  unfold callHeaders
  by_cases hkey : AttachesToken token method opts
  · simp only [if_pos hkey]
    rw [forall_set _ apiKey_ne]
    refine and_congr ?_ (imp_iff_right hkey).symm
    rw [hbody (fun p => p.1 ≠ apiKey → q p) fun _ => hjson]
    refine forall₂_congr fun p _ => ?_
    simp only [Overwritten, hkey, true_and, not_or, and_imp]
  · simp only [if_neg hkey]
    rw [hbody q hjson]
    simp [Overwritten, hkey]

theorem quotableHeaders_iff (token method : Chars) (body : Option JsonText) (opts : Options) :
    (∀ p ∈ (callHeaders token method body opts).entries, Quotable p.1 ∧ Quotable p.2) ↔
      QuotableHeaders token method body opts := by
  have hname : ∀ n, Overwritten token method body opts n → Quotable n := by
    rintro n (⟨-, rfl⟩ | ⟨-, rfl⟩)
    · exact quotable_contentType
    · exact quotable_apiKey
  simp only [Headers.mem_entries]
  rw [forall_callHeaders token method body opts (fun p => Quotable p.1 ∧ Quotable p.2)
    ⟨quotable_contentType, quotable_applicationJson⟩, QuotableHeaders]
  refine and_congr (forall₂_congr fun p _ => ⟨fun h => ?_, ?_⟩)
    (imp_congr_right fun _ => and_iff_right quotable_apiKey)
  · by_cases hover : Overwritten token method body opts p.1
    · exact ⟨hname _ hover, fun hnot => absurd hover hnot⟩
    · exact ⟨(h hover).1, fun _ => (h hover).2⟩
  · rintro ⟨h1, h2⟩ hnot
    exact ⟨h1, h2 hnot⟩

/-- A body that is given is left out of the request by two methods. -/
theorem sentBody_eq_iff (method : Chars) (body : Option JsonText) :
    bodyArgs (sentBody method (rawOf body)) = bodyArgs (bodyOf (rawOf body)) ↔
      ¬ (body.isSome = true ∧ (method = "GET".toList ∨ method = "DELETE".toList)) := by
  cases body with
  | none => simp [rawOf, sentBody, bodyOf]
  | some body =>
    have hraw : rawOf (some body) = body.text := rfl
    rw [hraw, sentBody, bodyOf, if_neg body.ne_nil]
    by_cases hcarries : method ≠ "GET".toList ∧ method ≠ "DELETE".toList
    · rw [if_pos ⟨body.ne_nil, hcarries⟩]
      refine iff_of_true rfl fun h => ?_
      rcases h.2 with hget | hdelete
      · exact hcarries.1 hget
      · exact hcarries.2 hdelete
    · rw [if_neg fun h => hcarries h.2]
      refine iff_of_false (fun h => by cases h) fun h => h ⟨rfl, ?_⟩
      by_contra hneither
      exact hcarries (not_or.mp hneither)

theorem callJson_replays_iff (fetch : Request → Option Reply) (files : Letters → List Chars)
    (origin : Origin) (lab : Lab) (token method path : Chars) (body : Option JsonText) (opts : Options)
    {request : Request} {entry : Entry}
    (h : (Call.callJson token method path body opts).run fetch = some (request, entry)) :
    Replays files origin request (trace entry lab) ↔
      Plain files origin method path ∧ QuotableHeaders token method body opts ∧
        ¬ (body.isSome = true ∧ (method = "GET".toList ∨ method = "DELETE".toList)) := by
  obtain ⟨rfl, hmethod, hpath, hbody, hheaders⟩ := run_callJson fetch h
  have hnul : '\x00' ∉ rawOf body := by
    cases body with
    | none => exact List.not_mem_nil
    | some body => exact body.noNul
  unfold Replays
  rw [copyCurl_trace, Option.bind_some, hmethod, hpath, hbody, hheaders]
  change simpleCommand files _ = some (targetArgs origin method path ++
    headerArgs ((some (callHeaders token method body opts)).getD .empty).entries ++
      bodyArgs (sentBody method (rawOf body))) ↔ _
  rw [buildCurl_gives_iff, sentBody_eq_iff, Option.getD_some, quotableHeaders_iff]
  constructor
  · rintro ⟨hsent, hplain, hquotable, -⟩
    exact ⟨hplain, hquotable, hsent⟩
  · rintro ⟨hplain, hquotable, hsent⟩
    exact ⟨hsent, hplain, hquotable, hnul⟩

/-- What the method, the path, the headers and the body of a call have to be like for its command. -/
def Call.Replayable (files : Letters → List Chars) (origin : Origin) : Call → Prop
  | .callJson token method path body opts =>
    Plain files origin method path ∧ QuotableHeaders token method body opts ∧
      ¬ (body.isSome = true ∧ (method = "GET".toList ∨ method = "DELETE".toList))
  | .rawRun form =>
    Plain files origin form.method form.target ∧ form.body = [] ∧
      ∀ l ∈ form.headers.splitOn '\n', AddsNothing l
  | .authWrong => False

/-- **When the copied command replays the last call.** -/
theorem replays_iff (fetch : Request → Option Reply) (files : Letters → List Chars) (origin : Origin)
    (lab : Lab) (call : Call) {request : Request} {entry : Entry}
    (h : call.run fetch = some (request, entry)) :
    Replays files origin request (trace entry lab) ↔ call.Replayable files origin := by
  cases call with
  | callJson token method path body opts =>
    exact callJson_replays_iff fetch files origin lab token method path body opts h
  | rawRun form => exact rawRun_replays_iff fetch files origin lab form h
  | authWrong => exact iff_of_false (authWrong_loses fetch files origin lab h) id

def localhost : Origin :=
  ⟨"http://localhost:8080".toList, 'h', "ttp://localhost:8080".toList, rfl, rfl⟩

/-- the body of the key `demo` with a quote in its value -/
def quoteBody : JsonText := ⟨"\x7b\"value\":\"it's\"\x7d".toList, by simp, by simp⟩

theorem replays_iff_quote :
    Replays (fun _ => []) localhost
      ⟨"PUT".toList, "/api/kv/demo".toList, callHeaders [] "PUT".toList (some quoteBody) .none,
        sentBody "PUT".toList quoteBody.text⟩
      (trace ⟨"PUT".toList, "/api/kv/demo".toList, quoteBody.text,
        some (callHeaders [] "PUT".toList (some quoteBody) .none), 200, [], none⟩ ⟨none, []⟩) := by
  refine (replays_iff (fun _ => some ⟨200, []⟩) (fun _ => []) localhost ⟨none, []⟩
    (.callJson [] "PUT".toList "/api/kv/demo".toList (some quoteBody) .none) rfl).mpr ⟨?_, ?_, ?_⟩
  · refine ⟨⟨by simp, by simp [kind_plain], by simp⟩, ?_, ⟨by simp, ?_⟩, fun _ => .inl rfl,
      fun _ => .inl rfl⟩
    · change ∀ c ∈ "http://localhost:8080".toList ++ "/api/kv/demo".toList, kind c = .plain
      exact List.forall_mem_append.mpr ⟨by simp [kind_plain], by simp [kind_plain]⟩
    · change '\x00' ∉ "http://localhost:8080".toList ++ "/api/kv/demo".toList
      exact List.not_mem_append (by simp) (by simp)
  · refine ⟨fun p hp => absurd hp List.not_mem_nil, fun hkey => absurd rfl hkey.2.1⟩
  · simp

/-- The two headers of the call with the wrong key are lost. -/
theorem authWrong_not_replayed : ∃ request entry,
    Call.authWrong.run (fun _ => some ⟨403, []⟩) = some (request, entry) ∧
      ¬ Replays (fun _ => []) localhost request (trace entry ⟨none, []⟩) :=
  ⟨_, _, rfl, authWrong_loses (fun _ => some ⟨403, []⟩) _ _ _ rfl⟩

end Web
end CServer
