import CServer.Lib.Program
import CServer.Lib.Runs
import Mathlib.Logic.Function.Basic

/-!
# Workers that share cells

Each worker runs a `Program` against one common state, and the calls of all workers run one at a
time, in any order.  A call may leave its result in a cell that the workers share; its caller takes
it from there in a step of its own, and other steps may come in between.

* `CellUse`           which calls write a cell, and what is taken back from it;
* `Workers.step`      a worker starts, makes its next call, reads the cell it holds, or ends;
* `Workers.Unmixed`   each cell that a worker holds has what that worker's call left in it;
* `step_unmixed`, `unmixed_iff`   all states of a run are unmixed when no step of it overwrites a
                                  held cell with something else, and only then;
* `alone_run`         a worker whose steps nothing interrupts computes `Program.run`.
-/

set_option linter.unusedSectionVars false

namespace CServer

/-- `target c` is the cell that `c` writes.  `left c r` is what a call with the result `r` leaves
there for its caller, and how the caller gets its result back from what it reads; `none` is a call
whose caller does not look into the cell. -/
structure CellUse (K V : Type) {C : Type} (R : C → Type) where
  target : C → Option K
  left : (c : C) → R c → Option (V × (V → R c))
  left_back : ∀ c r v back, left c r = some (v, back) → back v = r

/-- Where a worker stands.  It has made `n` calls; `own` is what its last call left in the cell
`k`. -/
inductive Phase (K V σ : Type) {C : Type} (R : C → Type) (α : Type) where
  | free
  | running (exec : Nat → (c : C) → σ → R c × σ) (n : Nat) (p : Program R α)
  | holding (exec : Nat → (c : C) → σ → R c × σ) (n : Nat) (k : K) (own : V)
      (next : V → Program R α)

structure Workers (W K V σ : Type) {C : Type} (R : C → Type) (α : Type) where
  state : σ
  cells : K → V
  phase : W → Phase K V σ R α

/-- `junk` is what the cell has after a call that leaves nothing for its caller there. -/
inductive WorkerAct (W V σ : Type) {C : Type} (R : C → Type) (α : Type) where
  | start (w : W) (exec : Nat → (c : C) → σ → R c × σ) (p : Program R α)
  | step (w : W) (junk : V)

namespace Workers
variable {W K V σ α C : Type} {R : C → Type} [DecidableEq W] [DecidableEq K]

def setPhase (ws : Workers W K V σ R α) (w : W) (ph : Phase K V σ R α) : Workers W K V σ R α :=
  { ws with phase := Function.update ws.phase w ph }

@[simp] theorem setPhase_cells (ws : Workers W K V σ R α) (w : W) (ph : Phase K V σ R α) :
    (ws.setPhase w ph).cells = ws.cells := rfl

@[simp] theorem setPhase_state (ws : Workers W K V σ R α) (w : W) (ph : Phase K V σ R α) :
    (ws.setPhase w ph).state = ws.state := rfl

@[simp] theorem setPhase_same (ws : Workers W K V σ R α) (w : W) (ph : Phase K V σ R α) :
    (ws.setPhase w ph).phase w = ph := Function.update_self _ _ _

theorem setPhase_other (ws : Workers W K V σ R α) (w w' : W) (ph : Phase K V σ R α)
    (h : w' ≠ w) : (ws.setPhase w ph).phase w' = ws.phase w' := Function.update_of_ne h _ _

def write (ws : Workers W K V σ R α) (k : K) (v : V) : Workers W K V σ R α :=
  { ws with cells := Function.update ws.cells k v }

variable (use : CellUse K V R)

/-- the next call of the worker `w` -/
def call (ws : Workers W K V σ R α) (w : W) (junk : V)
    (exec : Nat → (c : C) → σ → R c × σ) (n : Nat) (c : C) (next : R c → Program R α) :
    Workers W K V σ R α :=
  let result := exec n c ws.state
  let ws := { ws with state := result.2 }
  match use.target c with
  | none => ws.setPhase w (.running exec (n + 1) (next result.1))
  | some k =>
    match use.left c result.1 with
    | none => (ws.write k junk).setPhase w (.running exec (n + 1) (next result.1))
    | some (v, back) =>
      (ws.write k v).setPhase w (.holding exec (n + 1) k v fun read => next (back read))

def step (ws : Workers W K V σ R α) : WorkerAct W V σ R α → Workers W K V σ R α
  | .start w exec p =>
    match ws.phase w with
    | .free => ws.setPhase w (.running exec 0 p)
    | _ => ws
  | .step w junk =>
    match ws.phase w with
    | .free => ws
    | .running _ _ (.done _) => ws.setPhase w .free
    | .running exec n (.call c next) => ws.call use w junk exec n c next
    | .holding exec n k _ next => ws.setPhase w (.running exec n (next (ws.cells k)))

/-- the cell that a step writes, and what it writes there -/
def written (ws : Workers W K V σ R α) : WorkerAct W V σ R α → Option (K × V)
  | .start _ _ _ => none
  | .step w junk =>
    match ws.phase w with
    | .running exec n (.call c _) =>
      (use.target c).map fun k => (k, ((use.left c (exec n c ws.state).1).map Prod.fst).getD junk)
    | _ => none

/-- the cell that a worker has still to read, and what its own call left there -/
def held (ws : Workers W K V σ R α) (w : W) : Option (K × V) :=
  match ws.phase w with
  | .holding _ _ k own _ => some (k, own)
  | _ => none

def Unmixed (ws : Workers W K V σ R α) : Prop :=
  ∀ w k own, ws.held w = some (k, own) → ws.cells k = own

/-- the step writes to no cell that a worker holds -/
def Spares (ws : Workers W K V σ R α) (a : WorkerAct W V σ R α) : Prop :=
  ∀ w k own v, ws.held w = some (k, own) → ws.written use a ≠ some (k, v)

/-- the step writes something else to a cell that a worker holds -/
def Clobbers (ws : Workers W K V σ R α) (a : WorkerAct W V σ R α) : Prop :=
  ∃ w k own v, ws.held w = some (k, own) ∧ ws.written use a = some (k, v) ∧ v ≠ own

theorem Spares.not_clobbers {ws : Workers W K V σ R α} {a : WorkerAct W V σ R α}
    (h : ws.Spares use a) : ¬ws.Clobbers use a := by
  rintro ⟨w, k, own, v, hheld, hwritten, _⟩
  exact h w k own v hheld hwritten

/-! ## one step -/

theorem held_setPhase (ws : Workers W K V σ R α) (w w' : W) (ph : Phase K V σ R α) (h : w' ≠ w) :
    (ws.setPhase w ph).held w' = ws.held w' := by
  unfold held
  rw [setPhase_other _ _ _ _ h]

/-- a worker that goes to a phase without a cell lets go at most -/
theorem held_setPhase_none (ws : Workers W K V σ R α) (w : W) (ph : Phase K V σ R α)
    (h : (ws.setPhase w ph).held w = none) (w' : W) :
    (ws.setPhase w ph).held w' = ws.held w' ∨ (ws.setPhase w ph).held w' = none := by
  by_cases hw : w' = w
  · subst hw
    exact .inr h
  · exact .inl (held_setPhase ws w w' ph hw)

section
variable (ws : Workers W K V σ R α) (w : W) (junk : V) (exec : Nat → (c : C) → σ → R c × σ) (n : Nat)
  (c : C) (next : R c → Program R α)

theorem call_plain (htarget : use.target c = none) :
    ws.call use w junk exec n c next =
      { ws with state := (exec n c ws.state).2 }.setPhase w
        (.running exec (n + 1) (next (exec n c ws.state).1)) := by
  unfold call
  simp only [htarget]

theorem call_failed (k : K) (htarget : use.target c = some k)
    (hleft : use.left c (exec n c ws.state).1 = none) :
    ws.call use w junk exec n c next =
      ({ ws with state := (exec n c ws.state).2 }.write k junk).setPhase w
        (.running exec (n + 1) (next (exec n c ws.state).1)) := by
  unfold call
  simp only [htarget, hleft]

theorem call_left (k : K) (v : V) (back : V → R c) (htarget : use.target c = some k)
    (hleft : use.left c (exec n c ws.state).1 = some (v, back)) :
    ws.call use w junk exec n c next =
      ({ ws with state := (exec n c ws.state).2 }.write k v).setPhase w
        (.holding exec (n + 1) k v fun read => next (back read)) := by
  unfold call
  simp only [htarget, hleft]

theorem step_start (p : Program R α) (h : ws.phase w = .free) :
    ws.step use (.start w exec p) = ws.setPhase w (.running exec 0 p) := by
  simp only [step, h]

theorem step_busy (p : Program R α) (h : ws.phase w ≠ .free) :
    ws.step use (.start w exec p) = ws := by
  unfold step
  dsimp only
  split
  · exact absurd ‹_› h
  · rfl

theorem step_idle (h : ws.phase w = .free) : ws.step use (.step w junk) = ws := by
  simp only [step, h]

theorem step_done (a : α) (h : ws.phase w = .running exec n (.done a)) :
    ws.step use (.step w junk) = ws.setPhase w .free := by
  simp only [step, h]

theorem step_call (h : ws.phase w = .running exec n (.call c next)) :
    ws.step use (.step w junk) = ws.call use w junk exec n c next := by
  simp only [step, h]

theorem step_read (k : K) (own : V) (next : V → Program R α)
    (h : ws.phase w = .holding exec n k own next) :
    ws.step use (.step w junk) = ws.setPhase w (.running exec n (next (ws.cells k))) := by
  simp only [step, h]

/-- What a call does: it writes a cell that its worker then may hold, or none. -/
theorem call_cases :
    (use.target c = none ∧ (ws.call use w junk exec n c next).cells = ws.cells ∧
      (ws.call use w junk exec n c next).held w = none ∧
      ∀ w', w' ≠ w → (ws.call use w junk exec n c next).held w' = ws.held w') ∨
    ∃ k, use.target c = some k ∧
      (ws.call use w junk exec n c next).cells = Function.update ws.cells k
        (((use.left c (exec n c ws.state).1).map Prod.fst).getD junk) ∧
      ((ws.call use w junk exec n c next).held w = none ∨
        (ws.call use w junk exec n c next).held w = some (k,
          ((use.left c (exec n c ws.state).1).map Prod.fst).getD junk)) ∧
      ∀ w', w' ≠ w → (ws.call use w junk exec n c next).held w' = ws.held w' := by
  cases htarget : use.target c with
  | none =>
    left
    rw [call_plain use ws w junk exec n c next htarget]
    refine ⟨rfl, rfl, ?_, fun w' hw => held_setPhase _ w w' _ hw⟩
    simp [held]
  | some k =>
    right
    refine ⟨k, rfl, ?_⟩
    cases hleft : use.left c (exec n c ws.state).1 with
    | none =>
      rw [call_failed use ws w junk exec n c next k htarget hleft]
      refine ⟨rfl, .inl ?_, fun w' hw => held_setPhase _ w w' _ hw⟩
      simp [held]
    | some left =>
      obtain ⟨v, back⟩ := left
      rw [call_left use ws w junk exec n c next k v back htarget hleft]
      refine ⟨rfl, .inr ?_, fun w' hw => held_setPhase _ w w' _ hw⟩
      simp [held]

end

/-- What a step does to the cells and to what is held: a step that writes nothing lets go at most;
the worker that writes has held nothing, and holds afterwards nothing or what it has written. -/
theorem step_cases (ws : Workers W K V σ R α) (a : WorkerAct W V σ R α) :
    (ws.written use a = none ∧ (ws.step use a).cells = ws.cells ∧
      ∀ w, (ws.step use a).held w = ws.held w ∨ (ws.step use a).held w = none) ∨
    ∃ w k v, ws.written use a = some (k, v) ∧ ws.held w = none ∧
      (ws.step use a).cells = Function.update ws.cells k v ∧
      ((ws.step use a).held w = none ∨ (ws.step use a).held w = some (k, v)) ∧
      ∀ w', w' ≠ w → (ws.step use a).held w' = ws.held w' := by
  cases a with
  | start w exec p =>
    left
    by_cases hphase : ws.phase w = .free
    · rw [ws.step_start use w exec p hphase]
      exact ⟨rfl, rfl, held_setPhase_none ws w (.running exec 0 p) (by simp [held])⟩
    · rw [ws.step_busy use w exec p hphase]
      exact ⟨rfl, rfl, fun _ => .inl rfl⟩
  | step w junk =>
    cases hphase : ws.phase w with
    | free =>
      left
      rw [ws.step_idle use w junk hphase]
      exact ⟨by simp only [written, hphase], rfl, fun _ => .inl rfl⟩
    | holding exec n k own next =>
      left
      rw [ws.step_read use w junk exec n k own next hphase]
      exact ⟨by simp only [written, hphase], rfl,
        held_setPhase_none ws w (.running exec n (next (ws.cells k))) (by simp [held])⟩
    | running exec n p =>
      cases p with
      | done a =>
        left
        rw [ws.step_done use w junk exec n a hphase]
        exact ⟨by simp only [written, hphase], rfl,
          held_setPhase_none ws w .free (by simp [held])⟩
      | call c next =>
        rw [ws.step_call use w junk exec n c next hphase]
        rcases ws.call_cases use w junk exec n c next with
          ⟨htarget, hcells, hsame, hother⟩ | ⟨k, htarget, hcells, hsame, hother⟩
        · left
          refine ⟨?_, hcells, fun w' => ?_⟩
          · simp only [written, hphase, htarget, Option.map_none]
          · by_cases hw : w' = w
            · subst hw
              exact .inr hsame
            · exact .inl (hother w' hw)
        · right
          refine ⟨w, k, _, ?_, ?_, hcells, hsame, hother⟩
          · simp only [written, hphase, htarget, Option.map_some]
          · simp only [held, hphase]

/-- **A step keeps the cells unmixed exactly when it does not overwrite a held one with something
else.** -/
theorem step_unmixed (ws : Workers W K V σ R α) (a : WorkerAct W V σ R α) (h : ws.Unmixed) :
    (ws.step use a).Unmixed ↔ ¬ws.Clobbers use a := by
  rcases ws.step_cases use a with ⟨hw, hcells, hheld⟩ | ⟨w, k, v, hw, hnone, hcells, hsame, hother⟩
  · have hspares : ws.Spares use a := by
      intro w k own v _ hwritten
      rw [hw] at hwritten
      cases hwritten
    refine ⟨fun _ => hspares.not_clobbers use, fun _ w k own hk => ?_⟩
    rw [hcells]
    rcases hheld w with hsame | hnone
    · rw [hsame] at hk
      exact h w k own hk
    · rw [hnone] at hk
      cases hk
  · refine ⟨?_, fun hfree w' k' own hk => ?_⟩
    · rintro hgood ⟨w', k', own, v', hheld, hwritten, hne⟩
      rw [hw] at hwritten
      cases hwritten
      have hww : w' ≠ w := by
        rintro rfl
        rw [hnone] at hheld
        cases hheld
      have hown := hgood w' k own ((hother w' hww).trans hheld)
      rw [hcells, Function.update_self] at hown
      exact hne hown
    · by_cases hww : w' = w
      · subst hww
        rcases hsame with hsame | hsame
        · rw [hsame] at hk
          cases hk
        · rw [hsame] at hk
          cases hk
          rw [hcells, Function.update_self]
      · rw [hother w' hww] at hk
        rw [hcells]
        by_cases hkk : k' = k
        · subst hkk
          rw [Function.update_self]
          by_contra hne
          exact hfree ⟨w', k', own, v, hk, hw, hne⟩
        · rw [Function.update_of_ne hkk]
          exact h w' k' own hk

/-! ## runs -/

/-- **The states of a run are all unmixed exactly when no step of it overwrites a held cell with
something else.** -/
theorem unmixed_iff (ws : Workers W K V σ R α) (run : List (WorkerAct W V σ R α))
    (h : ws.Unmixed) :
    (∀ t ∈ visited (step use) ws run, t.Unmixed) ↔
      Throughout (step use) (fun t a => ¬t.Clobbers use a) ws run := by
  refine ⟨fun hall => ?_, fun hfree => ?_⟩
  · exact throughout_of_visited (step use) _ Unmixed
      (fun t a ht hnext => (t.step_unmixed use a ht).mp hnext) ws run hall
  · exact visited_inv (step use) _ Unmixed
      (fun t a hc ht => (t.step_unmixed use a ht).mpr hc) ws run h hfree

/-- a run whose steps spare the held cells -/
theorem unmixed_of_spares (ws : Workers W K V σ R α) (run : List (WorkerAct W V σ R α))
    (h : ws.Unmixed) (hrun : Throughout (step use) (fun t a => t.Spares use a) ws run) :
    ∀ t ∈ visited (step use) ws run, t.Unmixed :=
  visited_inv (step use) _ Unmixed
    (fun t a hc ht => (t.step_unmixed use a ht).mpr (hc.not_clobbers use)) ws run h hrun

/-! ## one worker alone -/

/-- `steps` steps of the worker `w`, with nothing in between -/
def alone (ws : Workers W K V σ R α) (w : W) (junk : V) (steps : Nat) : Workers W K V σ R α :=
  (List.replicate steps (WorkerAct.step w junk)).foldl (step use) ws

theorem alone_add (ws : Workers W K V σ R α) (w : W) (junk : V) (m n : Nat) :
    ws.alone use w junk (m + n) = (ws.alone use w junk m).alone use w junk n := by
  unfold alone
  rw [List.replicate_add, List.foldl_append]

/-- The call, and the reading of the cell if there is something to read: the worker goes on with
the result of its call. -/
theorem alone_call (ws : Workers W K V σ R α) (w : W) (junk : V)
    (exec : Nat → (c : C) → σ → R c × σ) (n : Nat) (c : C) (next : R c → Program R α)
    (h : ws.phase w = .running exec n (.call c next)) :
    ∃ steps, (ws.alone use w junk steps).phase w =
        .running exec (n + 1) (next (exec n c ws.state).1) ∧
      (ws.alone use w junk steps).state = (exec n c ws.state).2 := by
  have hone : ws.alone use w junk 1 = ws.call use w junk exec n c next :=
    ws.step_call use w junk exec n c next h
  cases htarget : use.target c with
  | none =>
    refine ⟨1, ?_⟩
    rw [hone, call_plain use ws w junk exec n c next htarget]
    exact ⟨setPhase_same _ _ _, rfl⟩
  | some k =>
    cases hleft : use.left c (exec n c ws.state).1 with
    | none =>
      refine ⟨1, ?_⟩
      rw [hone, call_failed use ws w junk exec n c next k htarget hleft]
      exact ⟨setPhase_same _ _ _, rfl⟩
    | some left =>
      obtain ⟨v, back⟩ := left
      have hback := use.left_back c _ v back hleft
      rw [call_left use ws w junk exec n c next k v back htarget hleft] at hone
      have hcell : (ws.alone use w junk 1).cells k = v := by
        rw [hone]
        exact Function.update_self _ _ _
      have hphase : (ws.alone use w junk 1).phase w =
          .holding exec (n + 1) k v fun read => next (back read) := by
        rw [hone]
        exact setPhase_same _ _ _
      have hread := step_read use _ w junk exec (n + 1) k v _ hphase
      have htwo : ws.alone use w junk (1 + 1) = (ws.alone use w junk 1).step use (.step w junk) :=
        ws.alone_add use w junk 1 1
      refine ⟨1 + 1, ?_⟩
      rw [htwo, hread, hcell, hback, setPhase_same, setPhase_state, hone]
      exact ⟨rfl, rfl⟩

/-- **A worker whose steps nothing interrupts computes `Program.run`.** -/
theorem alone_run (w : W) (junk : V) (exec : Nat → (c : C) → σ → R c × σ) (p : Program R α)
    (n : Nat) (ws : Workers W K V σ R α) (h : ws.phase w = .running exec n p) :
    ∃ steps m, (ws.alone use w junk steps).phase w =
        .running exec m (.done (p.run exec n ws.state).1) ∧
      (ws.alone use w junk steps).state = (p.run exec n ws.state).2 := by
  induction p generalizing n ws with
  | done a => exact ⟨0, n, h, rfl⟩
  | call c next ih =>
    obtain ⟨steps, hphase, hstate⟩ := ws.alone_call use w junk exec n c next h
    obtain ⟨steps', m, hdone, hend⟩ := ih _ (n + 1) _ hphase
    refine ⟨steps + steps', m, ?_⟩
    rw [alone_add, Program.run_call, ← hstate]
    exact ⟨hdone, hend⟩

end Workers

end CServer
