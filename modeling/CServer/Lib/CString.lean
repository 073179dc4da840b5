import Mathlib

/-!
# Bytes and C strings

A `char *` that a C function reads up to its terminator is a `CStr`: the bytes before the NUL,
none of which is NUL.  A `char[cap]` that holds such a string is a `CBuf cap`: the terminator has
to fit as well, so the text is shorter than `cap`.

* `cstr b`         the C string that starts a block of bytes `b`;
* `CStr.ofBytes`   the same as a `CStr`;
* `CBuf.print`     `snprintf(buf, cap, "%s", s)`: the text cut to `cap - 1` bytes;
* `digits n`       `%lu`, `%zu`: the decimal digits of `n`; `decimal n` with a sign, for `%ld`;
* `Long`           a C `long`.
-/

set_option linter.unusedSectionVars false

namespace CServer

abbrev Byte := UInt8
abbrev Bytes := List UInt8

/-- the bytes of an ASCII literal -/
def ascii (s : String) : Bytes := s.toList.map fun c => UInt8.ofNat c.toNat

/-! ## names of the ASCII bytes the sources test for -/

abbrev tab : Byte := 9
abbrev lf : Byte := 10
abbrev cr : Byte := 13
abbrev space : Byte := 32
abbrev quote : Byte := 34
abbrev comma : Byte := 44
abbrev colon : Byte := 58
abbrev backslash : Byte := 92
abbrev lbrace : Byte := 123
abbrev rbrace : Byte := 125

/-! ## runs of bytes -/

theorem takeWhile_run (p : Byte → Bool) (a rest : Bytes) (ha : ∀ c ∈ a, p c = true)
    (hrest : ∀ c, rest.head? = some c → p c = false) : (a ++ rest).takeWhile p = a := by
  rw [List.takeWhile_append_of_pos ha]
  cases rest with
  | nil => rw [List.takeWhile_nil, List.append_nil]
  | cons c rest =>
    rw [List.takeWhile_cons_of_neg (by rw [hrest c rfl]; decide), List.append_nil]

theorem dropWhile_run (p : Byte → Bool) (a rest : Bytes) (ha : ∀ c ∈ a, p c = true)
    (hrest : ∀ c, rest.head? = some c → p c = false) : (a ++ rest).dropWhile p = rest := by
  rw [List.dropWhile_append_of_pos ha]
  cases rest with
  | nil => rfl
  | cons c rest => exact List.dropWhile_cons_of_neg (by rw [hrest c rfl]; decide)

/-! ## C strings -/

/-- the C string that starts the block `b` -/
def cstr (b : Bytes) : Bytes := b.takeWhile fun c => c != 0

theorem cstr_nulFree (b : Bytes) : (0 : Byte) ∉ cstr b := by
  intro h
  have h0 := List.mem_takeWhile_imp h
  simp at h0

theorem cstr_of_nulFree (b : Bytes) (h : (0 : Byte) ∉ b) : cstr b = b := by
  refine List.takeWhile_eq_self_iff.mpr fun c hc => ?_
  have hne : c ≠ 0 := fun h0 => h (h0 ▸ hc)
  simpa using hne

theorem cstr_eq_self (b : Bytes) : cstr b = b ↔ (0 : Byte) ∉ b := by
  constructor
  · intro h
    rw [← h]
    exact cstr_nulFree b
  · exact cstr_of_nulFree b

theorem cstr_sublist (b : Bytes) : (cstr b).Sublist b := List.takeWhile_sublist _

theorem cstr_length_le (b : Bytes) : (cstr b).length ≤ b.length := (cstr_sublist b).length_le

/-- A C string: the bytes before the terminating NUL. -/
structure CStr where
  bytes : Bytes
  nulFree : (0 : Byte) ∉ bytes
  deriving DecidableEq

namespace CStr

@[ext] theorem ext' {s t : CStr} (h : s.bytes = t.bytes) : s = t := by
  cases s
  cases t
  cases h
  rfl

def ofBytes (b : Bytes) : CStr := ⟨cstr b, cstr_nulFree b⟩

theorem mk_bytes (b : Bytes) (h : (0 : Byte) ∉ b) : (CStr.mk b h).bytes = b := rfl

@[simp] theorem ofBytes_bytes (b : Bytes) : (ofBytes b).bytes = cstr b := rfl

theorem ofBytes_eq (s : CStr) : ofBytes s.bytes = s := ext' (cstr_of_nulFree _ s.nulFree)

def empty : CStr := ⟨[], by simp⟩

@[simp] theorem empty_bytes : empty.bytes = [] := rfl

/-- `strlen` -/
def length (s : CStr) : Nat := s.bytes.length

/-- `s + n` as a string of its own -/
def drop (s : CStr) (n : Nat) : CStr :=
  ⟨s.bytes.drop n, fun h => s.nulFree (List.mem_of_mem_drop h)⟩

@[simp] theorem drop_bytes (s : CStr) (n : Nat) : (s.drop n).bytes = s.bytes.drop n := rfl

end CStr

/-- The C string held by a `char[cap]`. -/
structure CBuf (cap : Nat) extends CStr where
  fits : bytes.length < cap
  deriving DecidableEq

namespace CBuf
variable {cap : Nat}

@[ext] theorem ext' {s t : CBuf cap} (h : s.bytes = t.bytes) : s = t := by
  obtain ⟨s, hs⟩ := s
  obtain ⟨t, ht⟩ := t
  have e : s = t := CStr.ext' h
  subst e
  rfl

def empty (cap : Nat) (h : 0 < cap) : CBuf cap := ⟨CStr.empty, h⟩

/-- `snprintf(buf, cap, "%s", s)` -/
def print (cap : Nat) (h : 0 < cap) (s : CStr) : CBuf cap where
  bytes := s.bytes.take (cap - 1)
  nulFree := fun h0 => s.nulFree (List.mem_of_mem_take h0)
  fits := by
    rw [List.length_take]
    omega

@[simp] theorem print_bytes (h : 0 < cap) (s : CStr) :
    (print cap h s).bytes = s.bytes.take (cap - 1) := rfl

end CBuf

/-! ## character classes of the C locale -/

/-- `isspace` -/
def isSpace (c : Byte) : Bool := c == space || (9 ≤ c && c ≤ 13)

def isDigit (c : Byte) : Bool := 48 ≤ c && c ≤ 57

/-- `tolower` -/
def toLower (c : Byte) : Byte := if 65 ≤ c ∧ c ≤ 90 then c + 32 else c

/-! ## decimal output -/

/-- the digits of `n`, most significant first -/
def digits (n : Nat) : Bytes :=
  if n < 10 then [UInt8.ofNat (48 + n)]
  else digits (n / 10) ++ [UInt8.ofNat (48 + n % 10)]

/-- `%ld` -/
def decimal (n : Int) : Bytes :=
  match n with
  | .ofNat m => digits m
  | .negSucc m => 45 :: digits (m + 1)

theorem digits_length (k n : Nat) (h : n < 10 ^ (k + 1)) : (digits n).length ≤ k + 1 := by
  induction k generalizing n with
  | zero =>
    rw [digits, if_pos (by simpa using h)]
    simp
  | succ k ih =>
    rw [digits]
    by_cases hn : n < 10
    · rw [if_pos hn]
      simp
    · rw [if_neg hn, List.length_append]
      have hd : n / 10 < 10 ^ (k + 1) := by
        rw [pow_succ] at h
        omega
      have := ih (n / 10) hd
      simp only [List.length_cons, List.length_nil]
      omega

/-- a `long` prints in at most twenty characters -/
theorem decimal_length (n : Int) (h1 : -2 ^ 63 ≤ n) (h2 : n < 2 ^ 63) :
    (decimal n).length ≤ 20 := by
  cases n with
  | ofNat m =>
    have hm : m < 10 ^ (18 + 1) := by
      have : (m : Int) < 2 ^ 63 := h2
      omega
    have := digits_length 18 m hm
    show (digits m).length ≤ 20
    omega
  | negSucc m =>
    have hm : m + 1 < 10 ^ (18 + 1) := by
      have : -2 ^ 63 ≤ Int.negSucc m := h1
      omega
    have := digits_length 18 (m + 1) hm
    show (digits (m + 1)).length + 1 ≤ 20
    omega

/-! ## 64-bit integers -/

/-- a C `long`, `sqlite3_int64` or `time_t` -/
structure Long where
  val : Int
  lo : -2 ^ 63 ≤ val
  hi : val < 2 ^ 63
  deriving DecidableEq

namespace Long

theorem ext' {a b : Long} (h : a.val = b.val) : a = b := by
  cases a
  cases b
  cases h
  rfl

/-- `n` cut to the range of the type, as `strtol` cuts it -/
def clamp (n : Int) : Long :=
  if h1 : n < -2 ^ 63 then ⟨-2 ^ 63, by decide, by decide⟩
  else if h2 : 2 ^ 63 ≤ n then ⟨2 ^ 63 - 1, by decide, by decide⟩
  else ⟨n, by omega, by omega⟩

/-- `%ld` -/
def print (a : Long) : Bytes := decimal a.val

theorem print_length (a : Long) : a.print.length ≤ 20 := decimal_length a.val a.lo a.hi

end Long

end CServer
