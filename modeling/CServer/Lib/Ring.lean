import Mathlib.Data.List.Rotate
import Mathlib.Data.Nat.ModEq

/-!
# Ring buffers

A `Ring` is an array with the positions of its first and of its next free slot and the number of
slots in use.  Every access is checked: `none` is an access outside the array, or a number that
would fall below zero.

* `Ring.push`, `Ring.pop`       the two writers of a ring;
* `Ring.WF`                     the positions lie in the array and agree with the number;
* `Ring.contents`               the slots in use, from the first on;
* `push_eq`, `pop_eq`           a ring with room takes one more at the end, and a ring in use gives
                                the first away; both stay well-formed.
-/

namespace CServer

structure Ring (α : Type) where
  slots : List α
  capacity : Nat
  head : Nat
  tail : Nat
  count : Nat

namespace Ring
variable {α : Type}

def push (r : Ring α) (a : α) : Option (Ring α) :=
  if r.tail < r.slots.length then
    some { r with
      slots := r.slots.set r.tail a
      tail := (r.tail + 1) % r.capacity
      count := r.count + 1 }
  else none

def pop (r : Ring α) : Option (α × Ring α) :=
  if 0 < r.count then
    r.slots[r.head]?.map fun a =>
      (a, { r with head := (r.head + 1) % r.capacity, count := r.count - 1 })
  else none

/-- no slot in use -/
def ofSlots (slots : List α) : Ring α := ⟨slots, slots.length, 0, 0, 0⟩

structure WF (r : Ring α) : Prop where
  size : r.slots.length = r.capacity
  head_lt : r.head < r.capacity
  count_le : r.count ≤ r.capacity
  tail_eq : r.tail = (r.head + r.count) % r.capacity

def contents (r : Ring α) : List α := (r.slots.rotate r.head).take r.count

theorem ofSlots_wf (slots : List α) (h : 0 < slots.length) : (ofSlots slots).WF where
  size := rfl
  head_lt := h
  count_le := Nat.zero_le _
  tail_eq := (Nat.zero_mod _).symm

theorem ofSlots_contents (slots : List α) : (ofSlots slots).contents = [] := List.take_zero

namespace WF
variable {r : Ring α}

theorem capacity_pos (h : r.WF) : 0 < r.capacity := Nat.zero_lt_of_lt h.head_lt

theorem tail_lt (h : r.WF) : r.tail < r.capacity := by
  rw [h.tail_eq]
  exact Nat.mod_lt _ h.capacity_pos

theorem contents_length (h : r.WF) : r.contents.length = r.count := by
  have hle := h.count_le
  unfold contents
  rw [List.length_take, List.length_rotate, h.size]
  omega

end WF

/-! ## push -/

/-- seen from the first slot, a write at `(head + count) % capacity` is one at `count` -/
theorem rotate_set (slots : List α) (head count : Nat) (a : α) (hcount : count < slots.length) :
    (slots.set ((head + count) % slots.length) a).rotate head = (slots.rotate head).set count a := by
  apply List.ext_getElem
  · rw [List.length_rotate, List.length_set, List.length_set, List.length_rotate]
  · intro k h1 h2
    rw [List.length_set, List.length_rotate] at h2
    rw [List.getElem_rotate, List.getElem_set, List.getElem_set, List.getElem_rotate]
    simp only [List.length_set]
    have hiff : (head + count) % slots.length = (k + head) % slots.length ↔ count = k := by
      rw [Nat.add_comm k head]
      constructor
      · intro h
        have hmod := Nat.ModEq.add_left_cancel' head h
        unfold Nat.ModEq at hmod
        rwa [Nat.mod_eq_of_lt hcount, Nat.mod_eq_of_lt h2] at hmod
      · rintro rfl
        rfl
    simp only [hiff]

/-- **A ring with room takes one more at the end.** -/
theorem push_eq (r : Ring α) (a : α) (h : r.WF) (hroom : r.count < r.capacity) :
    ∃ r', r.push a = some r' ∧ r'.WF ∧ r'.contents = r.contents ++ [a] ∧
      r'.count = r.count + 1 ∧ r'.capacity = r.capacity := by
  have hsize := h.size
  have htail := h.tail_lt
  refine ⟨_, if_pos (by omega), ⟨?_, h.head_lt, hroom, ?_⟩, ?_, rfl, rfl⟩
  · show (r.slots.set r.tail a).length = r.capacity
    rw [List.length_set, hsize]
  · show (r.tail + 1) % r.capacity = (r.head + (r.count + 1)) % r.capacity
    rw [h.tail_eq, Nat.mod_add_mod, Nat.add_assoc]
  · show ((r.slots.set r.tail a).rotate r.head).take (r.count + 1) =
      (r.slots.rotate r.head).take r.count ++ [a]
    have hlen : r.count < ((r.slots.rotate r.head).set r.count a).length := by
      rw [List.length_set, List.length_rotate]
      omega
    rw [h.tail_eq, ← hsize, rotate_set _ _ _ _ (by omega), List.take_add_one,
      List.getElem?_eq_getElem hlen, List.getElem_set_self, List.take_set_of_le (le_refl _)]
    rfl

/-! ## pop -/

/-- **A ring in use gives its first slot away.** -/
theorem pop_eq (r : Ring α) (h : r.WF) (hused : 0 < r.count) :
    ∃ a r', r.pop = some (a, r') ∧ r'.WF ∧ r.contents = a :: r'.contents ∧
      r'.count = r.count - 1 ∧ r'.capacity = r.capacity := by
  have hsize := h.size
  have hhead := h.head_lt
  have hle := h.count_le
  have hin : r.head < r.slots.length := by omega
  refine ⟨r.slots[r.head], { r with head := (r.head + 1) % r.capacity, count := r.count - 1 }, ?_,
    ⟨hsize, ?_, ?_, ?_⟩, ?_, rfl, rfl⟩
  · unfold pop
    rw [if_pos hused, List.getElem?_eq_getElem hin]
    rfl
  · exact Nat.mod_lt _ h.capacity_pos
  · show r.count - 1 ≤ r.capacity
    omega
  · show r.tail = ((r.head + 1) % r.capacity + (r.count - 1)) % r.capacity
    rw [h.tail_eq, Nat.mod_add_mod]
    congr 1
    omega
  · have hdrop := List.drop_eq_getElem_cons hin
    have hrot : r.slots.rotate r.head =
        r.slots[r.head] :: (r.slots.drop (r.head + 1) ++ r.slots.take r.head) := by
      rw [List.rotate_eq_drop_append_take (by omega), hdrop]
      rfl
    have hnext : r.slots.rotate ((r.head + 1) % r.capacity) =
        r.slots.drop (r.head + 1) ++ r.slots.take r.head ++ [r.slots[r.head]] := by
      rw [← hsize, List.rotate_mod, List.rotate_eq_drop_append_take (by omega),
        List.take_add_one, List.getElem?_eq_getElem hin, List.append_assoc]
      rfl
    have hlen : (r.slots.drop (r.head + 1) ++ r.slots.take r.head).length = r.capacity - 1 := by
      rw [List.length_append, List.length_drop, List.length_take]
      omega
    show (r.slots.rotate r.head).take r.count =
      r.slots[r.head] :: (r.slots.rotate ((r.head + 1) % r.capacity)).take (r.count - 1)
    obtain ⟨c, hc⟩ : ∃ c, r.count = c + 1 := ⟨r.count - 1, by omega⟩
    rw [hrot, hnext, hc, List.take_succ_cons, Nat.add_sub_cancel,
      @List.take_append_of_le_length _ _ [r.slots[r.head]] _ (by omega)]

end Ring

end CServer
