import CServer.Http.Lines

/-!
# The request line

* `firstLine`            the bytes in front of the first line feed, less a carriage return at the end;
* `StrictLine`           METHOD SP TARGET SP HTTP/1.DIGIT, and the path and the query give the target;
* `RegularLine`          two blanks and no other white space, and two lengths: what the scan of the
                         line does not check;
* `requestLine_strict`   an accepted line is strict exactly when it is regular.
-/

namespace CServer

def firstLine (s : Bytes) : Bytes := stripCr (s.takeWhile fun c => c != lf)

/-- The path, followed by `?` and the query when the target has a `?`, is the target. -/
def Reproduces (out : HttpRequest) (target : Bytes) : Prop :=
  (if 63 ∈ target then out.path.bytes ++ 63 :: out.query.bytes else out.path.bytes) = target

def METHODS : List Bytes := [ascii "GET", ascii "POST", ascii "PUT", ascii "DELETE"]

/-- no white space inside -/
def Word (w : Bytes) : Prop := ∀ c ∈ w, isSpace c = false

def StrictLine (line : Bytes) (out : HttpRequest) : Prop :=
  ∃ method target digit, method ∈ METHODS ∧ Word target ∧ target.head? = some 47 ∧
    target.length ≤ 2047 ∧ isDigit digit = true ∧ Reproduces out target ∧
    line = method ++ space :: (target ++ space :: (ascii "HTTP/1." ++ [digit]))

def wordByte (c : Byte) : Bool := !isSpace c

structure RegularLine (line : Bytes) : Prop where
  nul : (0 : Byte) ∉ line
  start : ∀ c, line.head? = some c → isSpace c = false
  blanks : line.filter isSpace = [space, space]
  second : (((line.dropWhile wordByte).drop 1).takeWhile wordByte).length ≤ 2047
  last : (line.rtakeWhile wordByte).length = 8
  digit : ∀ c, line.getLast? = some c → isDigit c = true

/-! ## the scan -/

theorem methodFromString_known (text : Bytes) (h : methodFromString text ≠ .unknown) :
    text ∈ METHODS := by
  unfold methodFromString at h
  unfold METHODS
  split_ifs at h
  all_goals simp_all

theorem methods_length (m : Bytes) (h : m ∈ METHODS) : m.length ≤ 6 := by
  have hall : ∀ m ∈ METHODS, m.length ≤ 6 := by decide
  exact hall m h

theorem methods_word (m : Bytes) (h : m ∈ METHODS) : Word m ∧ m ≠ [] ∧ (0 : Byte) ∉ m := by
  have hall : ∀ m ∈ METHODS, (∀ c ∈ m, isSpace c = false) ∧ m ≠ [] ∧ (0 : Byte) ∉ m := by
    decide +kernel
  exact hall m h

/-- `snprintf` of bytes that fit -/
theorem print_fits (b : Bytes) (hnul : (0 : Byte) ∉ b) (hlen : b.length < HTTP_MAX_PATH_LEN) :
    (CBuf.print _ pathLen_pos (CStr.ofBytes b)).bytes = b := by
  rw [CBuf.print_bytes, CStr.ofBytes_bytes, cstr_of_nulFree b hnul]
  exact List.take_of_length_le (Nat.le_sub_one_of_lt hlen)

/-- What a request line that is accepted has been scanned to. -/
structure RequestScan (line method target version : Bytes) (out out' : HttpRequest) : Prop where
  scan : ∃ r1 r2 r3, scanWord 7 line = some (method, r1) ∧ scanWord 2047 r1 = some (target, r2) ∧
    scanWord 15 r2 = some (version, r3)
  version : ascii "HTTP/1." <+: version
  slash : target.head? = some 47
  method : out'.method = methodFromString method
  target : Reproduces out' target
  apiKey : out'.apiKey = out.apiKey
  contentType : out'.contentType = out.contentType
  chunked : out'.hasChunked = out.hasChunked

theorem parseRequestLine_ok (line : CStr) (out out' : HttpRequest)
    (h : parseRequestLine line out = .ok out') :
    ∃ method target version, RequestScan line.bytes method target version out out' := by
  unfold parseRequestLine at h
  cases h1 : scanWord 7 line.bytes with
  | none =>
    rw [h1] at h
    cases h
  | some scan1 =>
    obtain ⟨method, r1⟩ := scan1
    rw [h1] at h
    simp only at h
    cases h2 : scanWord 2047 r1 with
    | none =>
      rw [h2] at h
      cases h
    | some scan2 =>
      obtain ⟨target, r2⟩ := scan2
      rw [h2] at h
      simp only at h
      cases h3 : scanWord 15 r2 with
      | none =>
        rw [h3] at h
        cases h
      | some scan3 =>
        obtain ⟨version, r3⟩ := scan3
        rw [h3] at h
        simp only at h
        have hnul : (0 : Byte) ∉ target := fun h0 =>
          line.nulFree ((scanWord_subset _ _ _ _ h1).2 ((scanWord_subset _ _ _ _ h2).1 h0))
        by_cases hv : (ascii "HTTP/1.").isPrefixOf version = false
        · rw [if_pos hv] at h
          cases h
        · rw [if_neg hv] at h
          have hversion : ascii "HTTP/1." <+: version :=
            List.isPrefixOf_iff_prefix.mp (by simpa using hv)
          by_cases hs : target = [] ∨ target.head? ≠ some 47
          · rw [if_pos hs] at h
            cases h
          · rw [if_neg hs] at h
            have hslash : target.head? = some 47 := not_not.mp (not_or.mp hs).2
            by_cases hlen : target.length ≥ HTTP_MAX_PATH_LEN
            · rw [if_pos hlen] at h
              cases h
            · rw [if_neg hlen] at h
              refine ⟨method, target, version, ?_⟩
              cases hd : target.dropWhile fun c => c != 63 with
              | nil =>
                rw [hd] at h
                cases h
                refine ⟨⟨r1, r2, r3, h1, h2, h3⟩, hversion, hslash, rfl, ?_, rfl, rfl, rfl⟩
                have hno : (63 : Byte) ∉ target := fun hq => by
                  have hne := List.dropWhile_eq_nil_iff.mp hd 63 hq
                  simp at hne
                exact (if_neg hno).trans (print_fits target hnul (by omega))
              | cons q query =>
                have hsplit : target.takeWhile (fun c => c != 63) ++ q :: query = target := by
                  rw [← hd]
                  exact List.takeWhile_append_dropWhile
                have hq : q = 63 := by
                  have hnot := List.head?_dropWhile_not (fun c : Byte => c != 63) target
                  rw [hd] at hnot
                  simpa using hnot
                rw [hd] at h
                simp only at h
                split_ifs at h with hpath
                cases h
                refine ⟨⟨r1, r2, r3, h1, h2, h3⟩, hversion, hslash, rfl, ?_, rfl, rfl, rfl⟩
                have hyes : (63 : Byte) ∈ target := by
                  rw [← hsplit, hq]
                  exact List.mem_append_right _ List.mem_cons_self
                have hquery : query.length < target.length := by
                  rw [← hsplit, List.length_append, List.length_cons]
                  omega
                have hpathNul : (0 : Byte) ∉ target.takeWhile fun c => c != 63 := fun h0 =>
                  hnul ((List.takeWhile_prefix _).subset h0)
                have hqueryNul : (0 : Byte) ∉ query := fun h0 => hnul (by
                  rw [← hsplit]
                  exact List.mem_append_right _ (List.mem_cons_of_mem _ h0))
                refine (if_pos hyes).trans ?_
                show (CBuf.print _ pathLen_pos (CStr.ofBytes _)).bytes ++
                  63 :: (CBuf.print _ pathLen_pos (CStr.ofBytes query)).bytes = target
                rw [print_fits _ hpathNul (by omega), print_fits query hqueryNul (by omega)]
                rw [hq] at hsplit
                exact hsplit

/-! ## words between two blanks -/

theorem takeWhile_word (w rest : Bytes) (hw : Word w)
    (hrest : ∀ c, rest.head? = some c → isSpace c = true) :
    (w ++ rest).takeWhile wordByte = w ∧ (w ++ rest).dropWhile wordByte = rest := by
  have hall : ∀ c ∈ w, wordByte c = true := fun c hc => by
    unfold wordByte
    rw [hw c hc]
    rfl
  rw [List.takeWhile_append_of_pos hall, List.dropWhile_append_of_pos hall]
  cases rest with
  | nil => exact ⟨List.append_nil w, rfl⟩
  | cons c rest =>
    have hc : ¬ wordByte c = true := by
      unfold wordByte
      rw [hrest c rfl]
      decide
    rw [List.takeWhile_cons_of_neg hc, List.dropWhile_cons_of_neg hc]
    exact ⟨List.append_nil w, rfl⟩

theorem two_blanks (line : Bytes) (h : line.filter isSpace = [space, space]) :
    ∃ a b c, Word a ∧ Word b ∧ Word c ∧ line = a ++ space :: (b ++ space :: c) := by
  obtain ⟨a, rest, rfl, ha, _, hrest⟩ := List.filter_eq_cons_iff.mp h
  obtain ⟨b, c, rfl, hb, _, hc⟩ := List.filter_eq_cons_iff.mp hrest
  exact ⟨a, b, c, fun x hx => by simpa using ha x hx, fun x hx => by simpa using hb x hx,
    fun x hx => by simpa using List.filter_eq_nil_iff.mp hc x hx, rfl⟩

theorem filter_word (w : Bytes) (hw : Word w) : w.filter isSpace = [] :=
  List.filter_eq_nil_iff.mpr fun c hc => by rw [hw c hc]; decide

theorem space_isSpace (rest : Bytes) : ∀ c, (space :: rest).head? = some c → isSpace c = true := by
  intro c hc
  cases hc
  decide

/-- a line of three words -/
theorem regularLine_words (a b c : Bytes) (ha : Word a) (hb : Word b) (hc : Word c) :
    RegularLine (a ++ space :: (b ++ space :: c)) ↔
      ((0 : Byte) ∉ a ++ space :: (b ++ space :: c)) ∧ a ≠ [] ∧ b.length ≤ 2047 ∧ c.length = 8 ∧
        ∀ d, c.getLast? = some d → isDigit d = true := by
  have hsecond : ((((a ++ space :: (b ++ space :: c)).dropWhile wordByte).drop 1).takeWhile
      wordByte) = b := by
    rw [(takeWhile_word a _ ha (space_isSpace _)).2]
    exact (takeWhile_word b _ hb (space_isSpace _)).1
  have hlast : (a ++ space :: (b ++ space :: c)).rtakeWhile wordByte = c := by
    have hrev : Word c.reverse := fun x hx => hc x (List.mem_reverse.mp hx)
    have hline : (a ++ space :: (b ++ space :: c)).reverse =
        c.reverse ++ space :: (b.reverse ++ space :: a.reverse) := by simp
    unfold List.rtakeWhile
    rw [hline, (takeWhile_word c.reverse _ hrev (space_isSpace _)).1, List.reverse_reverse]
  have hblanks : (a ++ space :: (b ++ space :: c)).filter isSpace = [space, space] := by
    have hsp : isSpace space = true := by decide
    rw [List.filter_append, List.filter_cons_of_pos hsp, List.filter_append,
      List.filter_cons_of_pos hsp, filter_word a ha, filter_word b hb, filter_word c hc]
    rfl
  have hend : c ≠ [] → (a ++ space :: (b ++ space :: c)).getLast? = c.getLast? := by
    intro hne
    have hassoc : a ++ space :: (b ++ space :: c) = (a ++ space :: (b ++ [space])) ++ c := by simp
    rw [hassoc, List.getLast?_append_of_ne_nil _ hne]
  constructor
  · intro h
    have hlen := h.last
    rw [hlast] at hlen
    have hne : c ≠ [] := by
      rintro rfl
      simp at hlen
    refine ⟨h.nul, ?_, ?_, hlen, fun d hd => h.digit d ((hend hne).trans hd)⟩
    · rintro rfl
      have hno := h.start space rfl
      revert hno
      decide
    · have hb' := h.second
      rwa [hsecond] at hb'
  · rintro ⟨hnul, hne, hb', hlen, hd⟩
    have hc' : c ≠ [] := by
      rintro rfl
      simp at hlen
    refine ⟨hnul, fun x hx => ?_, hblanks, by rw [hsecond]; exact hb', by rw [hlast]; exact hlen,
      fun d h => hd d ((hend hc').symm.trans h)⟩
    cases a with
    | nil => exact absurd rfl hne
    | cons y a =>
      cases hx
      exact ha _ List.mem_cons_self

/-! ## strict lines are regular -/

theorem Reproduces.nulFree {out : HttpRequest} {target : Bytes} (h : Reproduces out target) :
    (0 : Byte) ∉ target := by
  unfold Reproduces at h
  split_ifs at h
  · rw [← h]
    intro h0
    rcases List.mem_append.mp h0 with h0 | h0
    · exact out.path.nulFree h0
    · rcases List.mem_cons.mp h0 with h0 | h0
      · revert h0
        decide
      · exact out.query.nulFree h0
  · rw [← h]
    exact out.path.nulFree

theorem version_facts (d : Byte) (hd : isDigit d = true) :
    Word (ascii "HTTP/1." ++ [d]) ∧ (0 : Byte) ∉ ascii "HTTP/1." ++ [d] := by
  have hbase : Word (ascii "HTTP/1.") ∧ (0 : Byte) ∉ ascii "HTTP/1." := by
    unfold Word
    decide +kernel
  have hdigit : isSpace d = false ∧ d ≠ 0 := by
    unfold isDigit at hd
    simp only [Bool.and_eq_true, decide_eq_true_eq, UInt8.le_iff_toNat_le] at hd
    have h1 : (48 : UInt8).toNat = 48 := rfl
    have h2 : (57 : UInt8).toNat = 57 := rfl
    constructor
    · unfold isSpace
      simp only [Bool.or_eq_false_iff, beq_eq_false_iff_ne, Bool.and_eq_false_iff,
        decide_eq_false_iff_not, UInt8.le_iff_toNat_le]
      refine ⟨fun he => ?_, .inr fun hle => ?_⟩
      · rw [he] at hd
        have : (space : UInt8).toNat = 32 := rfl
        omega
      · have : (13 : UInt8).toNat = 13 := rfl
        omega
    · rintro rfl
      have : (0 : UInt8).toNat = 0 := rfl
      omega
  refine ⟨fun c hc => ?_, fun h0 => ?_⟩
  · rcases List.mem_append.mp hc with hc | hc
    · exact hbase.1 c hc
    · rw [List.mem_singleton.mp hc]
      exact hdigit.1
  · rcases List.mem_append.mp h0 with h0 | h0
    · exact hbase.2 h0
    · exact hdigit.2 (List.mem_singleton.mp h0).symm

theorem strictLine_regular (line : Bytes) (out : HttpRequest) (h : StrictLine line out) :
    RegularLine line := by
  obtain ⟨method, target, digit, hm, ht, _, hlen, hd, hrep, rfl⟩ := h
  obtain ⟨hmw, hmne, hmnul⟩ := methods_word method hm
  obtain ⟨hvw, hvnul⟩ := version_facts digit hd
  refine (regularLine_words method target _ hmw ht hvw).mpr ⟨fun h0 => ?_, hmne, hlen, rfl, ?_⟩
  · rcases List.mem_append.mp h0 with h0 | h0
    · exact hmnul h0
    · rcases List.mem_cons.mp h0 with h0 | h0
      · revert h0
        decide
      · rcases List.mem_append.mp h0 with h0 | h0
        · exact hrep.nulFree h0
        · rcases List.mem_cons.mp h0 with h0 | h0
          · revert h0
            decide
          · exact hvnul h0
  · intro d hlast
    rw [List.getLast?_append_of_ne_nil _ (List.cons_ne_nil _ _)] at hlast
    cases hlast
    exact hd

/-! ## regular lines of accepted requests are strict -/

theorem RegularLine.ne_nil {line : Bytes} (h : RegularLine line) : line ≠ [] := by
  rintro rfl
  have hb := h.blanks
  rw [List.filter_nil] at hb
  cases hb

theorem RegularLine.noCr {line : Bytes} (h : RegularLine line) : cr ∉ line := by
  intro hcr
  have hmem : cr ∈ line.filter isSpace := List.mem_filter.mpr ⟨hcr, by decide⟩
  rw [h.blanks] at hmem
  revert hmem
  decide

theorem stripCr_cases (p : Bytes) : stripCr p = p ∨ p = stripCr p ++ [cr] := by
  unfold stripCr
  split_ifs with h
  · refine .inr ?_
    obtain ⟨q, rfl⟩ := List.getLast?_eq_some_iff.mp h
    rw [List.dropLast_concat]
  · exact .inl rfl

theorem stripCr_append (p : Bytes) : stripCr (p ++ [cr]) = p := by
  unfold stripCr
  rw [if_pos (by simp), List.dropLast_concat]

theorem stripCr_of_not_mem (p : Bytes) (h : cr ∉ p) : stripCr p = p := by
  unfold stripCr
  rw [if_neg fun hlast => h (List.mem_of_getLast? hlast)]

/-- When the first line is regular, it is the first token of the block. -/
theorem firstToken_regular (block after first : Bytes) (rest : List Bytes)
    (h : RegularLine (firstLine (block ++ crlf2 ++ after)))
    (htoks : strtokLines (cstr block) = first :: rest) :
    stripCr first = firstLine (block ++ crlf2 ++ after) := by
  have hall : ∀ p : Bytes, lf ∉ p → ∀ c ∈ p, (fun c => c != lf) c = true := fun p hp c hc =>
    bne_iff_ne.mpr fun he => hp (he ▸ hc)
  unfold firstLine at h ⊢
  by_cases hlf : lf ∈ block
  · obtain ⟨p, block', rfl, hp⟩ := List.eq_append_cons_of_mem hlf
    have hline : ((p ++ lf :: block') ++ crlf2 ++ after).takeWhile (fun c => c != lf) = p := by
      rw [List.append_assoc, List.append_assoc, List.takeWhile_append_of_pos (hall p hp),
        List.cons_append, List.takeWhile_cons_of_neg (by decide), List.append_nil]
    rw [hline] at h ⊢
    have hnul : (0 : Byte) ∉ p := by
      rcases stripCr_cases p with hsame | hcr
      · rw [← hsame]
        exact h.nul
      · rw [hcr]
        intro h0
        rcases List.mem_append.mp h0 with h0 | h0
        · exact h.nul h0
        · revert h0
          decide
    have hne : p ≠ [] := fun he => h.ne_nil (by rw [he]; rfl)
    have hcut : cstr (p ++ lf :: block') = p ++ lf :: cstr block' := by
      have hz : ∀ c ∈ p, (fun c => c != 0) c = true := fun c hc =>
        bne_iff_ne.mpr fun he => hnul (he ▸ hc)
      unfold cstr
      rw [List.takeWhile_append_of_pos hz, List.takeWhile_cons_of_pos (by decide)]
    rw [hcut, strtokLines_line p _ hp hne] at htoks
    cases htoks
    rfl
  · have hp : (block ++ crlf2 ++ after).takeWhile (fun c => c != lf) = block ++ [cr] := by
      have hassoc : block ++ crlf2 ++ after = (block ++ [cr]) ++ lf :: (cr :: lf :: after) := by
        simp [crlf2]
      have hno : lf ∉ block ++ [cr] := fun hm => by
        rcases List.mem_append.mp hm with hm | hm
        · exact hlf hm
        · revert hm
          decide
      rw [hassoc, List.takeWhile_append_of_pos (hall _ hno),
        List.takeWhile_cons_of_neg (by decide), List.append_nil]
    rw [hp, stripCr_append] at h ⊢
    rw [cstr_of_nulFree block h.nul, strtokLines_last block hlf h.ne_nil] at htoks
    cases htoks
    exact stripCr_of_not_mem _ h.noCr

/-- the digit at the end of an eight-byte version -/
theorem version_split (c : Bytes) (hlen : c.length = 8) (hpre : ascii "HTTP/1." <+: c)
    (hd : ∀ d, c.getLast? = some d → isDigit d = true) :
    ∃ d, isDigit d = true ∧ c = ascii "HTTP/1." ++ [d] := by
  obtain ⟨rest, rfl⟩ := hpre
  rw [List.length_append, show (ascii "HTTP/1.").length = 7 by decide] at hlen
  obtain ⟨d, rfl⟩ := List.length_eq_one_iff.mp (by omega : rest.length = 1)
  exact ⟨d, hd d List.getLast?_concat, rfl⟩

/-- a scan of a line of three words -/
theorem requestScan_words (a b c method target version : Bytes) (out out' : HttpRequest)
    (ha : Word a) (hb : Word b) (hc : Word c) (hane : a ≠ []) (hblen : b.length ≤ 2047)
    (hclen : c.length = 8) (hmethod : methodFromString method ≠ .unknown)
    (h : RequestScan (a ++ space :: (b ++ space :: c)) method target version out out') :
    method = a ∧ target = b ∧ version = c := by
  obtain ⟨r1, r2, r3, h1, h2, h3⟩ := h.scan
  rw [scanWord_word 7 a _ (by decide) hane ha (space_isSpace _)] at h1
  obtain ⟨hm, hr1⟩ := Prod.mk.inj (Option.some.inj h1)
  -- a method is shorter than its field, so the scan has not cut it
  have hshort : a.length ≤ 6 := by
    have hlen := methods_length method (methodFromString_known method hmethod)
    rw [← hm, List.length_take] at hlen
    omega
  rw [List.take_of_length_le (by omega)] at hm
  rw [List.drop_eq_nil_of_le (by omega), List.nil_append] at hr1
  rw [← hr1, scanWord_space] at h2
  have hcne : c ≠ [] := by
    rintro rfl
    cases hclen
  have hcend : ∀ x, ([] : Bytes).head? = some x → isSpace x = true := fun x hx => by cases hx
  cases hbe : b with
  | nil =>
    have hword := scanWord_word 2047 c [] (by decide) hcne hc hcend
    rw [List.append_nil, List.append_nil, List.drop_eq_nil_of_le (by omega)] at hword
    rw [hbe, List.nil_append, scanWord_space, hword] at h2
    obtain ⟨_, hr2⟩ := Prod.mk.inj (Option.some.inj h2)
    rw [← hr2, scanWord_nil] at h3
    cases h3
  | cons x b' =>
    have hbne : b ≠ [] := hbe ▸ List.cons_ne_nil x b'
    rw [scanWord_word 2047 b _ (by decide) hbne hb (space_isSpace _)] at h2
    obtain ⟨ht, hr2⟩ := Prod.mk.inj (Option.some.inj h2)
    rw [List.take_of_length_le hblen] at ht
    rw [List.drop_eq_nil_of_le hblen, List.nil_append] at hr2
    have hword := scanWord_word 15 c [] (by decide) hcne hc hcend
    rw [List.append_nil, List.take_of_length_le (by omega)] at hword
    rw [← hr2, scanWord_space, hword] at h3
    obtain ⟨hv, _⟩ := Prod.mk.inj (Option.some.inj h3)
    exact ⟨hm.symm, ht.symm.trans hbe, hv.symm⟩

theorem regularLine_strict (line : CStr) (out0 out : HttpRequest) (h : RegularLine line.bytes)
    (hparse : parseRequestLine line HttpRequest.zero = .ok out0) (hmethod : out0.method ≠ .unknown)
    (hpath : out.path = out0.path) (hquery : out.query = out0.query) :
    StrictLine line.bytes out := by
  obtain ⟨method, target, version, hscan⟩ := parseRequestLine_ok line _ _ hparse
  obtain ⟨a, b, c, ha, hb, hc, hline⟩ := two_blanks line.bytes h.blanks
  rw [hscan.method] at hmethod
  rw [hline] at h hscan ⊢
  obtain ⟨_, hane, hblen, hclen, hdigit⟩ := (regularLine_words a b c ha hb hc).mp h
  obtain ⟨rfl, rfl, rfl⟩ := requestScan_words a b c method target version _ _ ha hb hc hane hblen
    hclen hmethod hscan
  obtain ⟨d, hd, rfl⟩ := version_split version hclen hscan.version hdigit
  refine ⟨method, target, d, methodFromString_known method hmethod, hb, hscan.slash, hblen, hd, ?_,
    rfl⟩
  have hrep := hscan.target
  unfold Reproduces at hrep ⊢
  rw [hpath, hquery]
  exact hrep

/-- **The first line of an accepted request is METHOD SP TARGET SP HTTP/1.DIGIT, with the whole target
in path and query, exactly when it is regular: it does not begin with white space, its white space is
two blanks, its second word has at most 2047 bytes and its last one eight with a digit at the end, and
no byte is NUL.** -/
theorem requestLine_strict {cap : Nat} (mallocOk : Bool) (buf : Block cap) (len : Nat)
    (hlen : len ≤ cap) (out : HttpRequest) (h : httpParseRequest mallocOk buf len = some (.ok out)) :
    StrictLine (firstLine (buf.bytes.take len)) out ↔ RegularLine (firstLine (buf.bytes.take len)) := by
  refine ⟨strictLine_regular _ out, fun hreg => ?_⟩
  obtain ⟨⟨after, hsplit⟩, haccepted⟩ := httpParseRequest_accepted mallocOk buf len hlen out h
  obtain ⟨first, rest, out0, htoks, hparse, heffect⟩ := haccepted.lines
  have hfirst : stripCr first = firstLine (buf.bytes.take len) := by
    rw [hsplit] at hreg ⊢
    exact firstToken_regular _ after first rest hreg htoks
  have hline : (CStr.ofBytes (stripCr first)).bytes = firstLine (buf.bytes.take len) := by
    rw [CStr.ofBytes_bytes, hfirst, cstr_of_nulFree _ hreg.nul]
  rw [← hline] at hreg ⊢
  exact regularLine_strict _ out0 out hreg hparse (heffect.method ▸ haccepted.method) heffect.path
    heffect.query

/-- the block of a text -/
def textBlock (text : Bytes) : Block text.length := ⟨text, rfl⟩

/-- GET / -/
def plainGet : HttpRequest :=
  { HttpRequest.zero with
    methodText := CBuf.print _ methodLen_pos (.ofBytes (ascii "GET"))
    path := CBuf.print _ pathLen_pos (.ofBytes (ascii "/")) }

theorem requestLine_strict_plain :
    StrictLine (firstLine (ascii "GET / HTTP/1.1\r\n\r\n")) plainGet ↔
      RegularLine (firstLine (ascii "GET / HTTP/1.1\r\n\r\n")) :=
  requestLine_strict true (textBlock (ascii "GET / HTTP/1.1\r\n\r\n")) 18 (by decide) plainGet
    (by decide +kernel)

/-- **Bytes behind the version are accepted.** -/
theorem requestLine_trailing :
    httpParseRequest true (textBlock (ascii "GET / HTTP/1.1 x\r\n\r\n")) 20 = some (.ok plainGet) ∧
      ¬ StrictLine (firstLine (ascii "GET / HTTP/1.1 x\r\n\r\n")) plainGet := by
  refine ⟨by decide +kernel, fun h => ?_⟩
  have hblanks := (strictLine_regular _ _ h).blanks
  revert hblanks
  decide +kernel

end CServer
