import Mathlib.Algebra.Ring.Nat
import Mathlib.Data.List.Basic

/-!
# Runs of a state machine

A machine steps from a state under an input.

* `visited`      the states of a run, the first and the last included;
* `Throughout`   a condition holds at every step of a run;
* `visited_inv`, `throughout_of_visited`   from steps to runs, and back;
* `kept_to_end`, `visited_append`          runs that go on;
* `Refines`      every output of a run is one that an abstract machine allows;
* `refines_of_countdown`, `refines_of_sim`, `all_of_refines`   from steps to runs, and back;
* `Leads`, `Follows`, `follows_of_sim`     the same for a machine that may step in several ways;
* `foldlM_inv`   what the steps of a machine that may refuse an input keep, its runs keep;
* `foldlM_budget`   a run costs no more than what is there at its start and what it gains.
-/

namespace CServer

section
variable {σ ι : Type} (step : σ → ι → σ)

def visited : σ → List ι → List σ
  | s, [] => [s]
  | s, i :: is => s :: visited (step s i) is

def Throughout (cond : σ → ι → Prop) : σ → List ι → Prop
  | _, [] => True
  | s, i :: is => cond s i ∧ Throughout cond (step s i) is

theorem visited_start (s : σ) (is : List ι) : s ∈ visited step s is := by
  cases is with
  | nil => exact List.mem_singleton.mpr rfl
  | cons i is => exact List.mem_cons_self

theorem visited_end (s : σ) (is : List ι) : is.foldl step s ∈ visited step s is := by
  induction is generalizing s with
  | nil => exact List.mem_singleton.mpr rfl
  | cons i is ih => exact List.mem_cons_of_mem _ (ih (step s i))

theorem throughout_of_forall (cond : σ → ι → Prop) (s : σ) (is : List ι)
    (h : ∀ i ∈ is, ∀ t, cond t i) : Throughout step cond s is := by
  induction is generalizing s with
  | nil => exact True.intro
  | cons i is ih =>
    exact ⟨h i List.mem_cons_self s, ih _ fun j hj => h j (List.mem_cons_of_mem _ hj)⟩

theorem throughout_append (cond : σ → ι → Prop) (s : σ) (is js : List ι)
    (h : Throughout step cond s is) (hmore : ∀ i ∈ js, ∀ t, cond t i) :
    Throughout step cond s (is ++ js) := by
  induction is generalizing s with
  | nil => exact throughout_of_forall step cond s js hmore
  | cons i is ih => exact ⟨h.1, ih _ h.2⟩

/-- what every step keeps and some state of the run has, the last state has -/
theorem kept_to_end (P : σ → Prop) (hstep : ∀ s i, P s → P (step s i)) (s t : σ) (is : List ι)
    (ht : t ∈ visited step s is) (hP : P t) : P (is.foldl step s) := by
  induction is generalizing s t with
  | nil =>
    rw [List.mem_singleton.mp ht] at hP
    exact hP
  | cons i is ih =>
    rcases List.mem_cons.mp ht with rfl | ht
    · exact ih _ _ (visited_start step _ is) (hstep _ i hP)
    · exact ih _ _ ht hP

theorem visited_append (s t : σ) (is js : List ι) (ht : t ∈ visited step (is.foldl step s) js) :
    t ∈ visited step s (is ++ js) := by
  induction is generalizing s with
  | nil => exact ht
  | cons i is ih => exact List.mem_cons_of_mem _ (ih _ ht)

/-- **What the steps under a condition keep, holds all along a run under it.** -/
theorem visited_inv (cond : σ → ι → Prop) (Inv : σ → Prop)
    (hstep : ∀ s i, cond s i → Inv s → Inv (step s i)) (s : σ) (is : List ι) (hs : Inv s)
    (h : Throughout step cond s is) : ∀ t ∈ visited step s is, Inv t := by
  induction is generalizing s with
  | nil =>
    intro t ht
    rw [List.mem_singleton.mp ht]
    exact hs
  | cons i is ih =>
    intro t ht
    rcases List.mem_cons.mp ht with rfl | ht
    · exact hs
    · exact ih (step s i) (hstep s i h.1 hs) h.2 t ht

/-- A run whose states are all good has only steps of the kind that leads from good states to good
states. -/
theorem throughout_of_visited (cond : σ → ι → Prop) (Good : σ → Prop)
    (hstep : ∀ s i, Good s → Good (step s i) → cond s i) (s : σ) (is : List ι)
    (h : ∀ t ∈ visited step s is, Good t) : Throughout step cond s is := by
  induction is generalizing s with
  | nil => exact True.intro
  | cons i is ih =>
    have hrest : ∀ t ∈ visited step (step s i) is, Good t :=
      fun t ht => h t (List.mem_cons_of_mem _ ht)
    exact ⟨hstep s i (h s List.mem_cons_self) (hrest _ (visited_start step _ _)), ih _ hrest⟩

variable {ρ μ : Type} (out : σ → ι → ρ) (next : μ → ι → μ) (Allows : μ → ι → ρ → Prop)

/-- Step by step, the output is one that the abstract machine `next` allows in its state. -/
def Refines : σ → μ → List ι → Prop
  | _, _, [] => True
  | s, m, i :: is => Allows m i (out s i) ∧ Refines (step s i) (next m i) is

/-- A simulation that also knows how many steps are still to come. -/
theorem refines_of_countdown (cond : ι → Prop) (Sim : Nat → σ → μ → Prop)
    (hstep : ∀ n s m i, cond i → Sim (n + 1) s m →
      Allows m i (out s i) ∧ Sim n (step s i) (next m i))
    (s : σ) (m : μ) (is : List ι) (hs : Sim is.length s m) (h : ∀ i ∈ is, cond i) :
    Refines step out next Allows s m is := by
  induction is generalizing s m with
  | nil => exact True.intro
  | cons i is ih =>
    obtain ⟨ha, hn⟩ := hstep is.length s m i (h i List.mem_cons_self) hs
    exact ⟨ha, ih _ _ hn fun j hj => h j (List.mem_cons_of_mem _ hj)⟩

/-- **A simulation under a condition on the inputs gives refinement along the runs under it.** -/
theorem refines_of_sim (cond : ι → Prop) (Sim : σ → μ → Prop)
    (hstep : ∀ s m i, cond i → Sim s m → Allows m i (out s i) ∧ Sim (step s i) (next m i))
    (s : σ) (m : μ) (is : List ι) (hs : Sim s m) (h : ∀ i ∈ is, cond i) :
    Refines step out next Allows s m is :=
  refines_of_countdown step out next Allows cond (fun _ => Sim) (fun _ => hstep) s m is hs h

/-- a condition that every allowed output implies holds all along a refining run -/
theorem all_of_refines (cond : ι → Prop) (hstep : ∀ s m i, Allows m i (out s i) → cond i)
    (s : σ) (m : μ) (is : List ι) (h : Refines step out next Allows s m is) :
    ∀ i ∈ is, cond i := by
  induction is generalizing s m with
  | nil =>
    intro i hi
    cases hi
  | cons j is ih =>
    intro i hi
    rcases List.mem_cons.mp hi with rfl | hi
    · exact hstep s m i h.1
    · exact ih _ _ h.2 i hi

end

section
variable {σ α ι : Type} (step : σ → ι → σ → Prop) (next : α → ι → α) (allows : α → ι → Prop)

/-- a run from one state to another -/
def Leads : σ → List ι → σ → Prop
  | s, [], t => t = s
  | s, i :: is, t => ∃ u, step s i u ∧ Leads u is t

/-- Step by step, the abstract machine allows what happens. -/
def Follows : α → List ι → Prop
  | _, [] => True
  | a, i :: is => allows a i ∧ Follows (next a i) is

/-- **A simulation of the steps follows the runs.** -/
theorem follows_of_sim (Sim : σ → α → Prop)
    (hstep : ∀ s i t a, step s i t → Sim s a → allows a i ∧ Sim t (next a i)) (s t : σ) (a : α)
    (is : List ι) (hrun : Leads step s is t) (hs : Sim s a) :
    Follows next allows a is ∧ Sim t (is.foldl next a) := by
  induction is generalizing s a with
  | nil =>
    rw [show t = s from hrun]
    exact ⟨True.intro, hs⟩
  | cons i is ih =>
    obtain ⟨u, hu, hrest⟩ := hrun
    obtain ⟨hfirst, hsim⟩ := hstep s i u a hu hs
    obtain ⟨hlater, hend⟩ := ih u (next a i) hrest hsim
    exact ⟨⟨hfirst, hlater⟩, hend⟩

end

/-- **What the steps keep that are not refused, holds at the end of a run.** -/
theorem foldlM_inv {σ ι : Type} (step : σ → ι → Option σ) (Inv : σ → Prop)
    (hstep : ∀ s i t, step s i = some t → Inv s → Inv t) (s t : σ) (is : List ι)
    (hrun : is.foldlM step s = some t) (hs : Inv s) : Inv t := by
  induction is generalizing s with
  | nil =>
    cases hrun
    exact hs
  | cons i is ih =>
    rw [List.foldlM_cons] at hrun
    obtain ⟨u, hu, hrest⟩ := Option.bind_eq_some_iff.mp hrun
    exact ih u hrest (hstep s i u hu hs)

/-- **What the steps pay for out of a budget, a run pays for out of its first state's.** -/
theorem foldlM_budget {σ ι : Type} (step : σ → ι → Option σ) (Inv : σ → Prop) (budget : σ → Nat)
    (cost gain : ι → Nat)
    (hstep : ∀ s i t, step s i = some t → Inv s → Inv t ∧ budget t + cost i ≤ budget s + gain i)
    (s t : σ) (is : List ι) (hrun : is.foldlM step s = some t) (hs : Inv s) :
    budget t + (is.map cost).sum ≤ budget s + (is.map gain).sum := by
  induction is generalizing s with
  | nil =>
    cases hrun
    exact Nat.le_refl _
  | cons i is ih =>
    rw [List.foldlM_cons] at hrun
    obtain ⟨u, hu, hrest⟩ := Option.bind_eq_some_iff.mp hrun
    obtain ⟨hinv, hfirst⟩ := hstep s i u hu hs
    have hlater := ih u hrest hinv
    rw [List.map_cons, List.map_cons, List.sum_cons, List.sum_cons]
    omega

end CServer
