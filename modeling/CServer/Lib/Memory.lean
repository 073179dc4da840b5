import CServer.Lib.CString

/-!
# Blocks of memory

A `Block cap` is an array `char[cap]`.  Every access is checked: `none` is an access outside the
array.

* `Block.store`, `Block.load`   writing and reading a range;
* `store_eq`, `load_eq`         inside the array they succeed;
* `store_below`                 a write keeps what lies below it;
* `Block.print`                 `snprintf(out + pos, cap - pos, ...)`;
* `print_fits`, `print_total`   a text with room for its terminator is written whole; any text is
                                written inside the array.
-/

namespace CServer

structure Block (cap : Nat) where
  bytes : Bytes
  size : bytes.length = cap

namespace Block
variable {cap : Nat}

/-- an array that has not been written to since it was zeroed -/
def zero (cap : Nat) : Block cap := ⟨List.replicate cap 0, List.length_replicate⟩

/-- write `data` at `off` -/
def store (b : Block cap) (off : Nat) (data : Bytes) : Option (Block cap) :=
  if h : off + data.length ≤ cap then
    some ⟨b.bytes.take off ++ (data ++ b.bytes.drop (off + data.length)), by
      have hs := b.size
      simp only [List.length_append, List.length_take, List.length_drop]
      omega⟩
  else none

/-- read `len` bytes at `off` -/
def load (b : Block cap) (off len : Nat) : Option Bytes :=
  if off + len ≤ cap then some ((b.bytes.drop off).take len) else none

theorem take_length (b : Block cap) (n : Nat) (h : n ≤ cap) : (b.bytes.take n).length = n := by
  rw [List.length_take, b.size, min_eq_left h]

theorem load_eq (b : Block cap) (off len : Nat) (h : off + len ≤ cap) :
    b.load off len = some ((b.bytes.drop off).take len) := if_pos h

/-- **A write inside the array succeeds; behind it the array begins with what it had up to `off`
and the data.** -/
theorem store_eq (b : Block cap) (off : Nat) (data : Bytes) (h : off + data.length ≤ cap) :
    ∃ b' : Block cap, b.store off data = some b' ∧
      b'.bytes.take (off + data.length) = b.bytes.take off ++ data := by
  refine ⟨_, dif_pos h, ?_⟩
  have hlen : (b.bytes.take off).length = off := b.take_length _ (by omega)
  show (b.bytes.take off ++ (data ++ b.bytes.drop (off + data.length))).take _ = _
  rw [← List.append_assoc]
  apply List.take_left'
  rw [List.length_append, hlen]

theorem store_below (b : Block cap) (off : Nat) (data : Bytes) (h : off + data.length ≤ cap) :
    ∃ b' : Block cap, b.store off data = some b' ∧ b'.bytes.take off = b.bytes.take off := by
  obtain ⟨b', hstore, htake⟩ := b.store_eq off data h
  have hlen : (b.bytes.take off).length = off := b.take_length _ (by omega)
  refine ⟨b', hstore, ?_⟩
  have hcut := congrArg (List.take off) htake
  rw [List.take_take, min_eq_left (by omega), List.take_left' hlen] at hcut
  exact hcut

/-! ## printing -/

/-- `snprintf(out + pos, cap - pos, ...)` of the text: what fits with a terminator behind it; with no
room at all nothing is written. -/
def print (b : Block cap) (pos : Nat) (text : Bytes) : Option (Block cap) :=
  if cap < pos then none
  else if pos = cap then some b
  else b.store pos (text.take (cap - pos - 1) ++ [0])

theorem print_total (b : Block cap) (pos : Nat) (text : Bytes) (h : pos ≤ cap) :
    ∃ b' : Block cap, b.print pos text = some b' := by
  unfold print
  rw [if_neg (by omega)]
  by_cases hfull : pos = cap
  · exact ⟨b, if_pos hfull⟩
  · have hroom : pos + (text.take (cap - pos - 1) ++ [0]).length ≤ cap := by
      rw [List.length_append, List.length_take, List.length_singleton]
      omega
    obtain ⟨b', hstore, _⟩ := b.store_eq pos _ hroom
    exact ⟨b', (if_neg hfull).trans hstore⟩

theorem print_fits (b : Block cap) (pos : Nat) (text : Bytes) (h : pos + text.length < cap) :
    ∃ b' : Block cap, b.print pos text = some b' ∧
      b'.bytes.take (pos + text.length + 1) = b.bytes.take pos ++ text ++ [0] := by
  have hall : text.take (cap - pos - 1) = text := List.take_of_length_le (by omega)
  have hlen : (text ++ [0]).length = text.length + 1 := List.length_append
  obtain ⟨b', hstore, htake⟩ := b.store_eq pos (text ++ [0]) (by omega)
  refine ⟨b', ?_, ?_⟩
  · unfold print
    rw [if_neg (by omega), if_neg (by omega), hall, hstore]
  · rw [hlen] at htake
    rw [List.append_assoc]
    exact htake

/-- The array begins with the text, and has room behind it. -/
def Begins (b : Block cap) (text : Bytes) : Prop :=
  text.length < cap ∧ b.bytes.take text.length = text

/-- a text printed behind another one -/
theorem Begins.print {b : Block cap} {text : Bytes} (h : b.Begins text) (more : Bytes)
    (hroom : more.length < cap - text.length) :
    ∃ b' : Block cap, b.print text.length more = some b' ∧ b'.Begins (text ++ more) ∧
      b'.bytes.take ((text ++ more).length + 1) = text ++ more ++ [0] := by
  have hlt := h.1
  have hlen : (text ++ more).length = text.length + more.length := List.length_append
  obtain ⟨b', hprint, htake⟩ := b.print_fits text.length more (by omega)
  rw [h.2, ← hlen] at htake
  refine ⟨b', hprint, ⟨by omega, ?_⟩, htake⟩
  have hcut := congrArg (List.take (text ++ more).length) htake
  rwa [List.take_take, min_eq_left (by omega), List.take_left] at hcut

/-- a byte stored behind a text -/
theorem Begins.store {b : Block cap} {text : Bytes} (h : b.Begins text) (c : Byte)
    (hroom : text.length + 1 < cap) :
    ∃ b' : Block cap, b.store text.length [c] = some b' ∧ b'.Begins (text ++ [c]) := by
  have hlen : (text ++ [c]).length = text.length + 1 := List.length_append
  obtain ⟨b', hstore, htake⟩ := b.store_eq text.length [c] (by
    rw [List.length_singleton]
    omega)
  refine ⟨b', hstore, by omega, ?_⟩
  rw [h.2] at htake
  rw [hlen]
  exact htake

end Block

end CServer
