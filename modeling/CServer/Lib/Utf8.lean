import CServer.Lib.Ansi

/-!
# UTF-8

A well-formed text is the encoding of a list of characters.

* `utf8`                  the encoding;
* `seqLength`             the number of bytes that the first byte of a character announces;
* `utf8EncodeChar_begins` a character is such a byte and its continuation bytes;
* `cells_utf8`            without escape sequences, every character takes one cell;
* `utf8_drop`, `utf8_take_ne`, ...   the positions in front of a character and inside one.
-/

namespace CServer
open Ansi

/-- the encoding of the characters -/
def utf8 (s : List Char) : Bytes := s.flatMap String.utf8EncodeChar

theorem utf8_append (s t : List Char) : utf8 (s ++ t) = utf8 s ++ utf8 t := List.flatMap_append

theorem utf8_cons (c : Char) (s : List Char) : utf8 (c :: s) = String.utf8EncodeChar c ++ utf8 s := rfl

/-- The number of bytes that a first byte announces; any other byte stands alone. -/
def seqLength (c : Byte) : Nat :=
  if c &&& 0xF8 = 0xF0 then 4 else if c &&& 0xF0 = 0xE0 then 3 else if c &&& 0xE0 = 0xC0 then 2 else 1

theorem seqLength_bounds (c : Byte) : 1 ≤ seqLength c ∧ seqLength c ≤ 4 := by
  unfold seqLength
  split_ifs <;> decide

/-! ## one character -/

theorem isContinuation_tail (x : Byte) : isContinuation (x &&& 0x3f ||| 0x80) = true := by
  obtain ⟨⟨x⟩⟩ := x
  revert x
  decide +kernel

theorem seqLength_two (x : Byte) :
    isContinuation (x &&& 0x1f ||| 0xc0) = false ∧ seqLength (x &&& 0x1f ||| 0xc0) = 2 := by
  obtain ⟨⟨x⟩⟩ := x
  revert x
  decide +kernel

theorem seqLength_three (x : Byte) :
    isContinuation (x &&& 0x0f ||| 0xe0) = false ∧ seqLength (x &&& 0x0f ||| 0xe0) = 3 := by
  obtain ⟨⟨x⟩⟩ := x
  revert x
  decide +kernel

theorem seqLength_four (x : Byte) :
    isContinuation (x &&& 0x07 ||| 0xf0) = false ∧ seqLength (x &&& 0x07 ||| 0xf0) = 4 := by
  obtain ⟨⟨x⟩⟩ := x
  revert x
  decide +kernel

theorem seqLength_one (x : Byte) (h : x < 128) : isContinuation x = false ∧ seqLength x = 1 := by
  obtain ⟨⟨x⟩⟩ := x
  revert x
  decide +kernel

/-- **A character is a first byte, which announces its length, and continuation bytes.** -/
theorem utf8EncodeChar_begins (c : Char) : ∃ lead tail, String.utf8EncodeChar c = lead :: tail ∧
    isContinuation lead = false ∧ seqLength lead = tail.length + 1 ∧
    (∀ b ∈ tail, isContinuation b = true) ∧ (c ≠ '\x00' → lead ≠ 0) := by
  have hfirst : ∀ x : Byte, seqLength x ≠ 1 → x ≠ 0 := fun x hx h0 => hx (h0 ▸ by decide)
  rcases c.utf8Size_eq with hsize | hsize | hsize | hsize
  · have hsmall : c.val < 128 := by
      have hle := Char.utf8Size_eq_one_iff.mp hsize
      have hle' := UInt32.le_iff_toNat_le.mp hle
      exact UInt32.lt_iff_toNat_lt.mpr (Nat.lt_succ_of_le hle')
    have hbyte : c.val.toUInt8.toNat = c.val.toNat := by
      have hlt := UInt32.lt_iff_toNat_lt.mp hsmall
      rw [UInt32.toNat_toUInt8]
      exact Nat.mod_eq_of_lt (lt_trans hlt (by decide))
    have hlt : c.val.toUInt8 < 128 := by
      rw [UInt8.lt_iff_toNat_lt, hbyte]
      exact UInt32.lt_iff_toNat_lt.mp hsmall
    obtain ⟨hlead, hlen⟩ := seqLength_one _ hlt
    refine ⟨c.val.toUInt8, [], String.utf8EncodeChar_eq_singleton hsize, hlead, hlen,
      fun b hb => absurd hb List.not_mem_nil, fun hne h0 => hne ?_⟩
    rw [h0] at hbyte
    exact Char.ext (UInt32.toNat_inj.mp hbyte.symm)
  · obtain ⟨hlead, hlen⟩ := seqLength_two (c.val >>> 6).toUInt8
    refine ⟨_, _, String.utf8EncodeChar_eq_cons_cons hsize, hlead, hlen, ?_,
      fun _ => hfirst _ (by rw [hlen]; decide)⟩
    intro b hb
    rw [List.mem_singleton.mp hb]
    exact isContinuation_tail _
  · obtain ⟨hlead, hlen⟩ := seqLength_three (c.val >>> 12).toUInt8
    refine ⟨_, _, String.utf8EncodeChar_eq_cons_cons_cons hsize, hlead, hlen, ?_,
      fun _ => hfirst _ (by rw [hlen]; decide)⟩
    rw [List.forall_mem_cons, List.forall_mem_singleton]
    exact ⟨isContinuation_tail _, isContinuation_tail _⟩
  · obtain ⟨hlead, hlen⟩ := seqLength_four (c.val >>> 18).toUInt8
    refine ⟨_, _, String.utf8EncodeChar_eq_cons_cons_cons_cons hsize, hlead, hlen, ?_,
      fun _ => hfirst _ (by rw [hlen]; decide)⟩
    rw [List.forall_mem_cons, List.forall_mem_cons, List.forall_mem_singleton]
    exact ⟨isContinuation_tail _, isContinuation_tail _, isContinuation_tail _⟩

/-- a character of one byte -/
theorem utf8EncodeChar_ascii (c : Char) (h : c.toNat < 128) :
    String.utf8EncodeChar c = [UInt8.ofNat c.toNat] := by
  have hsize : c.utf8Size = 1 :=
    Char.utf8Size_eq_one_iff.mpr (UInt32.le_iff_toNat_le.mpr (Nat.le_of_lt_succ h))
  rw [String.utf8EncodeChar_eq_singleton hsize]
  rfl

theorem high_byte (x : Byte) :
    128 ≤ x ||| 0x80 ∧ 128 ≤ x ||| 0xc0 ∧ 128 ≤ x ||| 0xe0 ∧ 128 ≤ x ||| 0xf0 := by
  obtain ⟨⟨x⟩⟩ := x
  revert x
  decide +kernel

/-- a character of several bytes -/
theorem utf8EncodeChar_high (c : Char) (h : 128 ≤ c.toNat) : ∀ b ∈ String.utf8EncodeChar c, 128 ≤ b := by
  rcases c.utf8Size_eq with hsize | hsize | hsize | hsize
  · have hle : c.toNat ≤ 127 := UInt32.le_iff_toNat_le.mp (Char.utf8Size_eq_one_iff.mp hsize)
    omega
  · rw [String.utf8EncodeChar_eq_cons_cons hsize, List.forall_mem_cons, List.forall_mem_singleton]
    exact ⟨(high_byte _).2.1, (high_byte _).1⟩
  · rw [String.utf8EncodeChar_eq_cons_cons_cons hsize, List.forall_mem_cons, List.forall_mem_cons,
      List.forall_mem_singleton]
    exact ⟨(high_byte _).2.2.1, (high_byte _).1, (high_byte _).1⟩
  · rw [String.utf8EncodeChar_eq_cons_cons_cons_cons hsize, List.forall_mem_cons, List.forall_mem_cons,
      List.forall_mem_cons, List.forall_mem_singleton]
    exact ⟨(high_byte _).2.2.2, (high_byte _).1, (high_byte _).1, (high_byte _).1⟩

/-! ## texts -/

theorem utf8_injective {s t : List Char} (h : utf8 s = utf8 t) : s = t := by
  have hbytes : ∀ u : List Char, (String.ofList u).toByteArray = (utf8 u).toByteArray := fun _ => rfl
  have hsame : String.ofList s = String.ofList t := by
    rw [← String.toByteArray_inj, hbytes, hbytes, h]
  have hlists := congrArg String.toList hsame
  rwa [String.toList_ofList, String.toList_ofList] at hlists

theorem utf8_nulFree (s : List Char) (h : '\x00' ∉ s) : (0 : Byte) ∉ utf8 s := by
  intro h0
  obtain ⟨c, hc, hmem⟩ := List.mem_flatMap.mp h0
  obtain ⟨lead, tail, henc, _, _, htail, hne⟩ := utf8EncodeChar_begins c
  rw [henc] at hmem
  rcases List.mem_cons.mp hmem with h0 | h0
  · exact hne (fun he => h (he ▸ hc)) h0.symm
  · exact absurd (htail 0 h0) (by decide)

theorem leads_tail {tail : Bytes} (h : ∀ b ∈ tail, isContinuation b = true) : leads tail = 0 :=
  List.countP_eq_zero.mpr fun b hb => by rw [h b hb]; decide

theorem leads_char {lead : Byte} {tail : Bytes} (hlead : isContinuation lead = false)
    (h : ∀ b ∈ tail, isContinuation b = true) : leads (lead :: tail) = 1 := by
  unfold leads
  rw [List.countP_cons_of_pos (by rw [hlead]; decide)]
  exact congrArg (· + 1) (leads_tail h)

/-- every character has one byte that is no continuation byte -/
theorem leads_utf8 (s : List Char) : leads (utf8 s) = s.length := by
  induction s with
  | nil => rfl
  | cons c s ih =>
    obtain ⟨lead, tail, henc, hlead, _, htail, _⟩ := utf8EncodeChar_begins c
    rw [utf8_cons, leads_append, ih, henc, leads_char hlead htail, List.length_cons, Nat.add_comm]

/-- **Without escape sequences, every character takes one cell.** -/
theorem cells_utf8 (s : List Char) (h : Plain (utf8 s)) : cells (utf8 s) = s.length :=
  (cells_plain h).trans (leads_utf8 s)

/-! ## positions in a text -/

theorem utf8_take_mono (s : List Char) {j k : Nat} (h : j ≤ k) :
    (utf8 (s.take j)).length ≤ (utf8 (s.take k)).length := by
  obtain ⟨more, hmore⟩ : s.take j <+: s.take k := List.take_prefix_take_left h
  rw [← hmore, utf8_append, List.length_append]
  exact Nat.le_add_right _ _

theorem utf8_take_begins (s : List Char) (k : Nat) : utf8 (s.take k) <+: utf8 s :=
  ⟨utf8 (s.drop k), by rw [← utf8_append, List.take_append_drop]⟩

theorem utf8_take (s : List Char) (k : Nat) :
    (utf8 s).take (utf8 (s.take k)).length = utf8 (s.take k) :=
  (List.prefix_iff_eq_take.mp (utf8_take_begins s k)).symm

/-- what stands at the position in front of a character -/
theorem utf8_drop (s : List Char) (k : Nat) (c : Char) (h : s[k]? = some c) :
    (utf8 s).drop (utf8 (s.take k)).length = String.utf8EncodeChar c ++ utf8 (s.drop (k + 1)) := by
  obtain ⟨hlt, hc⟩ := List.getElem?_eq_some_iff.mp h
  have hsplit : utf8 s = utf8 (s.take k) ++ utf8 (s.drop k) := by
    rw [← utf8_append, List.take_append_drop]
  rw [hsplit, List.drop_left, List.drop_eq_getElem_cons hlt, hc]
  rfl

theorem utf8_take_succ (s : List Char) (k : Nat) (c : Char) (h : s[k]? = some c) :
    utf8 (s.take (k + 1)) = utf8 (s.take k) ++ String.utf8EncodeChar c := by
  rw [List.take_add_one, h, utf8_append]
  exact congrArg _ (List.append_nil _)

/-- a position inside a character is between no two -/
theorem utf8_take_ne (s : List Char) (k m j : Nat) (c : Char) (h : s[k]? = some c) (hm : 0 < m)
    (hlt : m < (String.utf8EncodeChar c).length) :
    (utf8 (s.take k)).length + m ≠ (utf8 (s.take j)).length := by
  intro he
  have hsucc := congrArg List.length (utf8_take_succ s k c h)
  rw [List.length_append] at hsucc
  by_cases hj : j ≤ k
  · have hle := utf8_take_mono s hj
    omega
  · have hle := utf8_take_mono s (show k + 1 ≤ j by omega)
    omega

theorem seqLength_tail (x : Byte) (h : isContinuation x = true) : seqLength x = 1 := by
  obtain ⟨⟨x⟩⟩ := x
  revert x
  decide +kernel

/-- What a byte announces, from its position on, begins one character at most: the rest of a character
announces single bytes. -/
theorem leads_announced (s : List Char) (a : Nat) (c : Byte) (h : (utf8 s)[a]? = some c) :
    leads (((utf8 s).drop a).take (seqLength c)) ≤ 1 := by
  induction s generalizing a with
  | nil => cases h
  | cons ch s ih =>
    obtain ⟨lead, tail, henc, hlead, hlen, htail, _⟩ := utf8EncodeChar_begins ch
    rw [utf8_cons, henc] at h ⊢
    by_cases hbehind : (lead :: tail).length ≤ a
    · rw [List.getElem?_append_right hbehind] at h
      have hskip : ((lead :: tail) ++ utf8 s).drop a = (utf8 s).drop (a - (lead :: tail).length) := by
        rw [List.drop_append, List.drop_eq_nil_of_le hbehind, List.nil_append]
      rw [hskip]
      exact ih _ h
    · cases a with
      | zero =>
        cases h
        rw [List.drop_zero, hlen, ← List.length_cons, List.take_left' rfl, leads_char hlead htail]
      | succ a =>
        have hinside : a < tail.length := by
          rw [List.length_cons] at hbehind
          omega
        have hc : c ∈ tail := by
          rw [List.cons_append, List.getElem?_cons_succ, List.getElem?_append_left hinside] at h
          exact List.mem_of_getElem? h
        have hone := List.countP_le_length (p := fun c => !isContinuation c)
          (l := (((lead :: tail) ++ utf8 s).drop (a + 1)).take 1)
        rw [seqLength_tail c (htail c hc)]
        exact hone.trans (List.length_take_le _ _)

/-- the first bytes, up to what the next one announces -/
theorem leads_step (s : List Char) (a m : Nat) (c : Byte) (h : (utf8 s)[a]? = some c)
    (hm : m ≤ seqLength c) : leads ((utf8 s).take (a + m)) ≤ leads ((utf8 s).take a) + 1 := by
  have hmore : leads (((utf8 s).drop a).take m) ≤ 1 :=
    (List.take_sublist_take_left hm).countP_le.trans (leads_announced s a c h)
  rw [List.take_add, leads_append]
  exact Nat.add_le_add_left hmore _

end CServer
