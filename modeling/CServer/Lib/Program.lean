import Mathlib.Logic.Basic

/-!
# Programs that call a service

A `Program` ends with a value or makes a call and goes on with its result.  The calls range over
`C`, and `R c` is the type of the results of `c`.

* `Program.run`      the program against a state, one call after the other;
* `Program.Within`   every call satisfies `Q` and every end `P`, as long as the results are `Good`;
* `Within.run`       the rule: what the calls keep, the program keeps.
-/

namespace CServer

inductive Program {C : Type} (R : C → Type) (α : Type) where
  | done (a : α)
  | call (c : C) (next : R c → Program R α)

namespace Program
variable {C : Type} {R : C → Type} {α σ : Type}

/-- Runs the program from the state `s`; `exec n` performs the `n`-th call. -/
def run (exec : Nat → (c : C) → σ → R c × σ) : Nat → Program R α → σ → α × σ
  | _, .done a, s => (a, s)
  | n, .call c next, s => run exec (n + 1) (next (exec n c s).1) (exec n c s).2

@[simp] theorem run_done (exec : Nat → (c : C) → σ → R c × σ) (n : Nat) (a : α) (s : σ) :
    run exec n (.done a : Program R α) s = (a, s) := rfl

@[simp] theorem run_call (exec : Nat → (c : C) → σ → R c × σ) (n : Nat) (c : C)
    (next : R c → Program R α) (s : σ) :
    run exec n (.call c next) s = run exec (n + 1) (next (exec n c s).1) (exec n c s).2 := rfl

/-- Every call satisfies `Q` and every end satisfies `P`, whatever `Good` results the calls have. -/
def Within (Q : C → Prop) (Good : (c : C) → R c → Prop) (P : α → Prop) : Program R α → Prop
  | .done a => P a
  | .call c next => Q c ∧ ∀ r, Good c r → Within Q Good P (next r)

theorem Within.mono {Q Q' : C → Prop} {Good Good' : (c : C) → R c → Prop} {P P' : α → Prop}
    (hQ : ∀ c, Q c → Q' c) (hGood : ∀ c r, Good' c r → Good c r) (hP : ∀ a, P a → P' a)
    {p : Program R α} (h : Within Q Good P p) : Within Q' Good' P' p := by
  induction p with
  | done a => exact hP a h
  | call c next ih => exact ⟨hQ c h.1, fun r hr => ih r (h.2 r (hGood c r hr))⟩

/-- **What every call keeps, the program keeps, and it ends in `P`.** -/
theorem Within.run {Q : C → Prop} {Good : (c : C) → R c → Prop} {P : α → Prop}
    (exec : Nat → (c : C) → σ → R c × σ) (I : σ → Prop)
    (hexec : ∀ n c s, Q c → I s → Good c (exec n c s).1 ∧ I (exec n c s).2)
    {p : Program R α} (h : Within Q Good P p) (n : Nat) (s : σ) (hs : I s) :
    P (p.run exec n s).1 ∧ I (p.run exec n s).2 := by
  induction p generalizing n s with
  | done a => exact ⟨h, hs⟩
  | call c next ih =>
    obtain ⟨hg, hi⟩ := hexec n c s h.1 hs
    exact ih _ (h.2 _ hg) (n + 1) _ hi

end Program

end CServer
