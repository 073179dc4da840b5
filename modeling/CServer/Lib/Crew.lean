import Mathlib.Algebra.BigOperators.Fin

/-!
# Crews

The members of a crew are each at a place.

* `total`      the weights of the places, added up;
* `moveAll`    some members go to a new place;
* `total_moveAll`, `total_update`   what a move does to a total.
-/

set_option linter.unusedSectionVars false

namespace CServer

open Finset

section
variable {I P M : Type} [Fintype I] [DecidableEq I] [AddCommMonoid M]

def total (weight : P → M) (crew : I → P) : M := ∑ i, weight (crew i)

def moveAll (crew : I → P) (who : Finset I) (p : P) : I → P := fun i => if i ∈ who then p else crew i

theorem moveAll_mem (crew : I → P) (who : Finset I) (p : P) (i : I) (h : i ∈ who) :
    moveAll crew who p i = p := if_pos h

theorem moveAll_notMem (crew : I → P) (who : Finset I) (p : P) (i : I) (h : i ∉ who) :
    moveAll crew who p i = crew i := if_neg h

theorem update_eq_moveAll (crew : I → P) (i : I) (p : P) :
    Function.update crew i p = moveAll crew {i} p := by
  funext j
  by_cases hj : j = i
  · subst hj
    rw [Function.update_self, moveAll_mem _ _ _ _ (mem_singleton_self _)]
  · rw [Function.update_of_ne hj, moveAll_notMem _ _ _ _ (by rwa [mem_singleton])]

/-- **Members that leave one place for another change a total by the difference.** -/
theorem total_moveAll (weight : P → M) (crew : I → P) (who : Finset I) (p q : P)
    (h : ∀ i ∈ who, crew i = q) :
    total weight (moveAll crew who p) + (#who) • weight q =
      total weight crew + (#who) • weight p := by
  have hout : ∀ f : I → P, total weight f = ∑ i ∈ who, weight (f i) + ∑ i ∈ whoᶜ, weight (f i) :=
    fun f => (sum_add_sum_compl who _).symm
  have hnew : ∑ i ∈ who, weight (moveAll crew who p i) = (#who) • weight p :=
    sum_eq_card_nsmul fun i hi => by rw [moveAll_mem _ _ _ _ hi]
  have hold : ∑ i ∈ who, weight (crew i) = (#who) • weight q :=
    sum_eq_card_nsmul fun i hi => by rw [h i hi]
  have hrest : ∑ i ∈ whoᶜ, weight (moveAll crew who p i) = ∑ i ∈ whoᶜ, weight (crew i) :=
    sum_congr rfl fun i hi => by rw [moveAll_notMem _ _ _ _ (mem_compl.mp hi)]
  rw [hout, hout crew, hnew, hold, hrest, add_right_comm, add_comm ((#who) • weight p),
    add_right_comm]

theorem total_update (weight : P → M) (crew : I → P) (i : I) (p : P) :
    total weight (Function.update crew i p) + weight (crew i) =
      total weight crew + weight p := by
  rw [update_eq_moveAll]
  have h := total_moveAll weight crew {i} p (crew i) fun j hj => by rw [mem_singleton.mp hj]
  rwa [card_singleton, one_nsmul, one_nsmul] at h

theorem total_zero (weight : P → M) (crew : I → P) (h : ∀ i, weight (crew i) = 0) :
    total weight crew = 0 := sum_eq_zero fun i _ => h i

end

end CServer
