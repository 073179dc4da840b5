import CServer.Lib.Program

/-!
# Programs whose calls may fail

A `Script` makes calls that succeed or fail, and goes on with what it is told.

* `Script.attempt`, `Script.also`   a call with a branch for its failure, and one without;
* `Kernel`         what a call does to the state, for either outcome;
* `Script.calls`, `Script.settle`   the calls of one run, each with the state before it, and its end;
* `Script.Always`  what holds of every call and at the end, whatever the outcomes are;
* `always_bind`, `Always.mono`, `Always.calls`   its rules, and what it says about one run.
-/

namespace CServer

abbrev Script (C α : Type) := Program (fun _ : C => Bool) α

/-- The outcome of a call is `answer` of the outcome that fate has for it: a call that cannot fail,
or one that asks for something in the state, does not leave it to fate. -/
structure Kernel (C σ : Type) where
  answer : σ → C → Bool → Bool
  effect : C → Bool → σ → σ

namespace Script
variable {C σ α β : Type}

def attempt (c : C) (failed ok : Script C α) : Script C α :=
  .call c fun done => if done then ok else failed

/-- a call whose outcome is not looked at -/
def also (c : C) (rest : Script C α) : Script C α := .call c fun _ => rest

def bind (p : Script C α) (f : α → Script C β) : Script C β :=
  match p with
  | .done a => f a
  | .call c next => .call c fun r => bind (next r) f

variable (k : Kernel C σ)

/-- `fate n` is what the `n`-th call meets. -/
def calls (fate : Nat → Bool) : Nat → Script C α → σ → List (σ × C)
  | _, .done _, _ => []
  | n, .call c next, s =>
    let r := k.answer s c (fate n)
    (s, c) :: calls fate (n + 1) (next r) (k.effect c r s)

def settle (fate : Nat → Bool) : Nat → Script C α → σ → α × σ
  | _, .done a, s => (a, s)
  | n, .call c next, s =>
    let r := k.answer s c (fate n)
    settle fate (n + 1) (next r) (k.effect c r s)

variable (Q : σ → C → Prop)

def Always (P : α → σ → Prop) : Script C α → σ → Prop
  | .done a, s => P a s
  | .call c next, s =>
    Q s c ∧ ∀ b, Always P (next (k.answer s c b)) (k.effect c (k.answer s c b) s)

section
variable {k Q}

theorem Always.mono {P P' : α → σ → Prop} (hP : ∀ a s, P a s → P' a s) (p : Script C α) (s : σ)
    (h : Always k Q P p s) : Always k Q P' p s := by
  induction p generalizing s with
  | done a => exact hP a s h
  | call c next ih => exact ⟨h.1, fun b => ih _ _ (h.2 b)⟩

/-- **One script after the other.** -/
theorem always_bind {P : α → σ → Prop} {P' : β → σ → Prop} (f : α → Script C β) (p : Script C α)
    (s : σ) (h : Always k Q P p s) (hf : ∀ a s, P a s → Always k Q P' (f a) s) :
    Always k Q P' (p.bind f) s := by
  induction p generalizing s with
  | done a => exact hf a s h
  | call c next ih => exact ⟨h.1, fun b => ih _ _ (h.2 b)⟩

/-- **What always holds, holds in each run.** -/
theorem Always.calls {P : α → σ → Prop} (fate : Nat → Bool) (p : Script C α) (n : Nat) (s : σ)
    (h : Always k Q P p s) :
    (∀ e ∈ calls k fate n p s, Q e.1 e.2) ∧
      P (settle k fate n p s).1 (settle k fate n p s).2 := by
  induction p generalizing n s with
  | done a => exact ⟨fun e he => absurd he List.not_mem_nil, h⟩
  | call c next ih =>
    obtain ⟨hcalls, hend⟩ := ih _ (n + 1) _ (h.2 (fate n))
    refine ⟨fun e he => ?_, hend⟩
    rcases List.mem_cons.mp he with rfl | he
    · exact h.1
    · exact hcalls e he

theorem always_attempt {P : α → σ → Prop} (c : C) (failed ok : Script C α) (s : σ) (hc : Q s c)
    (hanswer : ∀ b, k.answer s c b = b) (hfailed : Always k Q P failed (k.effect c false s))
    (hok : Always k Q P ok (k.effect c true s)) : Always k Q P (attempt c failed ok) s := by
  refine ⟨hc, fun b => ?_⟩
  rw [hanswer b]
  cases b with
  | false => exact hfailed
  | true => exact hok

theorem always_also {P : α → σ → Prop} (c : C) (rest : Script C α) (s s' : σ) (hc : Q s c)
    (heffect : ∀ b, k.effect c (k.answer s c b) s = s') (hrest : Always k Q P rest s') :
    Always k Q P (also c rest) s := by
  refine ⟨hc, fun b => ?_⟩
  rw [heffect b]
  exact hrest

end

end Script

end CServer
