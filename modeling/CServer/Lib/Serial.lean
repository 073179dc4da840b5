import CServer.Lib.Shared

/-!
# Jobs in the order of their first calls

The workers of `Workers` run jobs.  Where the first call of a job is the only one that changes the
state, the state at any time is that of the jobs one after the other, in the order of these calls.

* `Program.Quiet`, `Program.WritesFirst`   calls that change nothing, and a first call that may;
* `Program.Direct`   one call at most, whose result goes past the shared cells;
* `Logged.step`      a step of the workers, and the log of the first calls;
* `Logged.Sound`, `step_sound`   the state is that of the log, and a direct job has the answer that
                     it has in the log;
* `logged_sound`     in every state of a run.
-/

set_option linter.unusedSectionVars false

namespace CServer

section
variable {C : Type} {R : C → Type} {α σ : Type}

/-- no call but of the kind `Still`, whatever the results are -/
def Program.Quiet (Still : C → Prop) (p : Program R α) : Prop :=
  p.Within Still (fun _ _ => True) fun _ => True

def Program.WritesFirst (Still : C → Prop) : Program R α → Prop
  | .done _ => True
  | .call _ next => ∀ r, (next r).Quiet Still

def Program.Direct {K V : Type} (use : CellUse K V R) : Program R α → Prop
  | .done _ => True
  | .call c next => use.target c = none ∧ ∀ r, ∃ a, next r = .done a

theorem Program.Quiet.run {Still : C → Prop} (exec : Nat → (c : C) → σ → R c × σ)
    (hstill : ∀ n c s, Still c → (exec n c s).2 = s) {p : Program R α} (h : p.Quiet Still) (n : Nat)
    (s : σ) : (p.run exec n s).2 = s := by
  have hkeep : ∀ n c t, Still c → t = s → True ∧ (exec n c t).2 = s := by
    intro n c t hc ht
    exact ⟨True.intro, (hstill n c t hc).trans ht⟩
  exact (Program.Within.run exec (fun t => t = s) hkeep h n s rfl).2

end

/-- jobs of the kind `J`: what each of them runs, and what its calls do -/
structure Jobs (J σ : Type) {C : Type} (R : C → Type) (α : Type) where
  program : J → Program R α
  exec : J → Nat → (c : C) → σ → R c × σ

inductive JobAct (W V J : Type) where
  | start (w : W) (j : J)
  | step (w : W) (junk : V)

section
variable {W K V σ α C J : Type} {R : C → Type} [DecidableEq W] [DecidableEq K]

namespace Jobs
variable (jobs : Jobs J σ R α)

def serve (j : J) (s : σ) : α × σ := (jobs.program j).run (jobs.exec j) 0 s

/-- the jobs one after the other -/
def serveAll (s : σ) (js : List J) : σ := js.foldl (fun s j => (jobs.serve j s).2) s

theorem serveAll_append (s : σ) (js : List J) (j : J) :
    jobs.serveAll s (js ++ [j]) = (jobs.serve j (jobs.serveAll s js)).2 := by
  unfold serveAll
  rw [List.foldl_append]
  rfl

def act : JobAct W V J → WorkerAct W V σ R α
  | .start w j => .start w (jobs.exec j) (jobs.program j)
  | .step w junk => .step w junk

end Jobs

/-- the workers, the job that each of them has taken last, and who has made a first call -/
structure Logged (W K V σ : Type) {C : Type} (R : C → Type) (α J : Type) where
  ws : Workers W K V σ R α
  job : W → Option J
  log : List (W × J)

namespace Logged

/-- the log entry of the next step of `w` -/
def entry (t : Logged W K V σ R α J) (w : W) : List (W × J) :=
  match t.ws.phase w, t.job w with
  | .running _ 0 (.call _ _), some j => [(w, j)]
  | _, _ => []

variable (use : CellUse K V R) (jobs : Jobs J σ R α)

def step (t : Logged W K V σ R α J) : JobAct W V J → Logged W K V σ R α J
  | .start w j =>
    match t.ws.phase w with
    | .free => { t with
        ws := t.ws.step use (.start w (jobs.exec j) (jobs.program j))
        job := Function.update t.job w (some j) }
    | _ => t
  | .step w junk => { t with
      ws := t.ws.step use (.step w junk)
      log := t.log ++ t.entry w }

/-- The job `j` of `w` stands in the log, `w` has made no first call since, and `p` answers as the
job does there. -/
def Answers (s₀ : σ) (t : Logged W K V σ R α J) (w : W) (j : J) (p : Program R α) : Prop :=
  ∃ before later, t.log = before ++ (w, j) :: later ∧ (∀ e ∈ later, e.1 ≠ w) ∧
    p = .done (jobs.serve j (jobs.serveAll s₀ (before.map Prod.snd))).1

/-- where the worker `w` stands in its job -/
def At (Still : C → Prop) (s₀ : σ) (t : Logged W K V σ R α J) (w : W) :
    Phase K V σ R α → Prop
  | .free => True
  | .running exec n p => ∃ j, t.job w = some j ∧ exec = jobs.exec j ∧
      ((n = 0 ∧ p = jobs.program j) ∨
        (0 < n ∧ p.Quiet Still ∧ ((jobs.program j).Direct use → t.Answers jobs s₀ w j p)))
  | .holding exec n _ _ next => ∃ j, t.job w = some j ∧ exec = jobs.exec j ∧ 0 < n ∧
      (∀ v, (next v).Quiet Still) ∧ ¬(jobs.program j).Direct use

structure Sound (Still : C → Prop) (s₀ : σ) (t : Logged W K V σ R α J) : Prop where
  state : t.ws.state = jobs.serveAll s₀ (t.log.map Prod.snd)
  place : ∀ w, At use jobs Still s₀ t w (t.ws.phase w)

theorem Answers.mono {s₀ : σ} {t t' : Logged W K V σ R α J} {w : W} {j : J} {p : Program R α}
    (more : List (W × J)) (hlog : t'.log = t.log ++ more) (hmore : ∀ e ∈ more, e.1 ≠ w)
    (h : t.Answers jobs s₀ w j p) : t'.Answers jobs s₀ w j p := by
  obtain ⟨before, later, hsplit, hlater, hp⟩ := h
  refine ⟨before, later ++ more, ?_, fun e he => ?_, hp⟩
  · rw [hlog, hsplit]
    exact List.append_assoc _ _ _
  · rcases List.mem_append.mp he with he | he
    · exact hlater e he
    · exact hmore e he

/-- what others do leaves a worker where it stands -/
theorem At.mono {Still : C → Prop} {s₀ : σ} {t t' : Logged W K V σ R α J} {w : W}
    {ph : Phase K V σ R α} (more : List (W × J)) (hjob : t'.job w = t.job w)
    (hlog : t'.log = t.log ++ more) (hmore : ∀ e ∈ more, e.1 ≠ w)
    (h : At use jobs Still s₀ t w ph) : At use jobs Still s₀ t' w ph := by
  cases ph with
  | free => exact True.intro
  | running exec n p =>
    obtain ⟨j, hj, hexec, hp⟩ := h
    refine ⟨j, hjob.trans hj, hexec, hp.imp_right fun hlate => ?_⟩
    obtain ⟨hn, hquiet, hanswers⟩ := hlate
    exact ⟨hn, hquiet, fun hdirect => (hanswers hdirect).mono jobs more hlog hmore⟩
  | holding exec n k own next =>
    obtain ⟨j, hj, hrest⟩ := h
    exact ⟨j, hjob.trans hj, hrest⟩

/-- a step of `w` that leaves the state alone -/
theorem Sound.setPhase {Still : C → Prop} {s₀ : σ} {t : Logged W K V σ R α J}
    (h : Sound use jobs Still s₀ t) (w : W) (ph : Phase K V σ R α) (ws : Workers W K V σ R α)
    (hstate : ws.state = t.ws.state) (hphase : ws.phase = t.ws.phase)
    (hat : At use jobs Still s₀ { t with ws := ws.setPhase w ph } w ph) :
    Sound use jobs Still s₀ { t with ws := ws.setPhase w ph } := by
  refine ⟨hstate.trans h.state, fun w' => ?_⟩
  by_cases hw : w' = w
  · rw [hw]
    show At use jobs Still s₀ _ w ((ws.setPhase w ph).phase w)
    rw [Workers.setPhase_same]
    exact hat
  · show At use jobs Still s₀ _ w' ((ws.setPhase w ph).phase w')
    rw [Workers.setPhase_other _ _ _ _ hw, hphase]
    exact (h.place w').mono use jobs [] rfl (List.append_nil _).symm
      fun e he => absurd he List.not_mem_nil

/-- where a call leads its worker -/
theorem call_phase (ws : Workers W K V σ R α) (w : W) (junk : V)
    (exec : Nat → (c : C) → σ → R c × σ) (n : Nat) (c : C) (next : R c → Program R α) :
    ∃ (ws' : Workers W K V σ R α) (ph : Phase K V σ R α), ws.call use w junk exec n c next = ws'.setPhase w ph ∧
      ws'.state = (exec n c ws.state).2 ∧ ws'.phase = ws.phase ∧
      (ph = .running exec (n + 1) (next (exec n c ws.state).1) ∨
        ∃ (k : K) (v : V) (back : V → R c), use.target c = some k ∧
          ph = .holding exec (n + 1) k v fun read => next (back read)) := by
  cases htarget : use.target c with
  | none =>
    exact ⟨_, _, Workers.call_plain use ws w junk exec n c next htarget, rfl, rfl, .inl rfl⟩
  | some k =>
    cases hleft : use.left c (exec n c ws.state).1 with
    | none =>
      exact ⟨_, _, Workers.call_failed use ws w junk exec n c next k htarget hleft, rfl, rfl,
        .inl rfl⟩
    | some left =>
      obtain ⟨v, back⟩ := left
      exact ⟨_, _, Workers.call_left use ws w junk exec n c next k v back htarget hleft, rfl, rfl,
        .inr ⟨k, v, back, rfl, rfl⟩⟩

/-- **The first call of a job brings the state to where the job leaves it.** -/
theorem Sound.firstCall {Still : C → Prop} {s₀ : σ} {t : Logged W K V σ R α J}
    (h : Sound use jobs Still s₀ t)
    (hstill : ∀ j n c s, Still c → (jobs.exec j n c s).2 = s) (w : W) (junk : V) (j : J) (c : C)
    (next : R c → Program R α) (hjob : t.job w = some j)
    (hprogram : jobs.program j = .call c next) (hquiet : ∀ r, (next r).Quiet Still) :
    Sound use jobs Still s₀ { t with
      ws := t.ws.call use w junk (jobs.exec j) 0 c next
      log := t.log ++ [(w, j)] } := by
  obtain ⟨ws', ph, hcall, hstate, hphase, hph⟩ :=
    call_phase use t.ws w junk (jobs.exec j) 0 c next
  have hserve : jobs.serve j t.ws.state =
      (next (jobs.exec j 0 c t.ws.state).1).run (jobs.exec j) 1 ws'.state := by
    unfold Jobs.serve
    rw [hprogram, hstate]
    rfl
  rw [hcall]
  constructor
  · show ws'.state = jobs.serveAll s₀ ((t.log ++ [(w, j)]).map Prod.snd)
    rw [List.map_append, List.map_singleton, jobs.serveAll_append, ← h.state, hserve]
    exact ((hquiet _).run (jobs.exec j) (hstill j) 1 ws'.state).symm
  · intro w'
    show At use jobs Still s₀ _ w' ((ws'.setPhase w ph).phase w')
    by_cases hw : w' = w
    · rw [hw, Workers.setPhase_same]
      rcases hph with rfl | ⟨k, v, back, htarget, rfl⟩
      · refine ⟨j, hjob, rfl, .inr ⟨Nat.one_pos, hquiet _, fun hdirect => ?_⟩⟩
        rw [hprogram] at hdirect
        obtain ⟨a, ha⟩ := hdirect.2 (jobs.exec j 0 c t.ws.state).1
        refine ⟨t.log, [], rfl, fun e he => absurd he List.not_mem_nil, ?_⟩
        rw [← h.state, hserve, ha]
        rfl
      · refine ⟨j, hjob, rfl, Nat.one_pos, fun read => hquiet _, fun hdirect => ?_⟩
        rw [hprogram] at hdirect
        rw [hdirect.1] at htarget
        cases htarget
    · rw [Workers.setPhase_other _ _ _ _ hw, hphase]
      refine At.mono use jobs (t := t) [(w, j)] rfl rfl (fun e he => ?_) (h.place w')
      rw [List.mem_singleton.mp he]
      exact fun heq => hw heq.symm

/-- a later call of a job -/
theorem Sound.laterCall {Still : C → Prop} {s₀ : σ} {t : Logged W K V σ R α J}
    (h : Sound use jobs Still s₀ t)
    (hstill : ∀ j n c s, Still c → (jobs.exec j n c s).2 = s) (w : W) (junk : V) (j : J) (n : Nat)
    (c : C) (next : R c → Program R α) (hjob : t.job w = some j)
    (hquiet : Program.Quiet Still (.call c next)) (hdirect : ¬(jobs.program j).Direct use) :
    Sound use jobs Still s₀ { t with ws := t.ws.call use w junk (jobs.exec j) (n + 1) c next } := by
  obtain ⟨ws', ph, hcall, hstate, hphase, hph⟩ :=
    call_phase use t.ws w junk (jobs.exec j) (n + 1) c next
  obtain ⟨hc, hnext⟩ := hquiet
  rw [hcall]
  refine h.setPhase use jobs w ph ws' (hstate.trans (hstill j _ c _ hc)) hphase ?_
  rcases hph with rfl | ⟨k, v, back, _, rfl⟩
  · exact ⟨j, hjob, rfl, .inr ⟨Nat.succ_pos _, hnext _ True.intro,
      fun hd => absurd hd hdirect⟩⟩
  · exact ⟨j, hjob, rfl, Nat.succ_pos _, fun read => hnext _ True.intro, hdirect⟩

/-- **Every step keeps the log sound.** -/
theorem step_sound {Still : C → Prop} {s₀ : σ} (t : Logged W K V σ R α J)
    (hstill : ∀ j n c s, Still c → (jobs.exec j n c s).2 = s)
    (hwrites : ∀ j, (jobs.program j).WritesFirst Still) (a : JobAct W V J)
    (h : Sound use jobs Still s₀ t) : Sound use jobs Still s₀ (t.step use jobs a) := by
  cases a with
  | start w j =>
    unfold step
    dsimp only
    split
    · next hfree =>
      rw [Workers.step_start use t.ws w (jobs.exec j) _ hfree]
      refine ⟨h.state, fun w' => ?_⟩
      show At use jobs Still s₀ _ w' ((t.ws.setPhase w _).phase w')
      by_cases hw : w' = w
      · rw [hw, Workers.setPhase_same]
        exact ⟨j, Function.update_self _ _ _, rfl, .inl ⟨rfl, rfl⟩⟩
      · rw [Workers.setPhase_other _ _ _ _ hw]
        exact (h.place w').mono use jobs [] (Function.update_of_ne hw _ _)
          (List.append_nil _).symm fun e he => absurd he List.not_mem_nil
    · exact h
  | step w junk =>
    have hplace := h.place w
    -- a step that is no first call writes nothing into the log
    have hsame : t.entry w = [] →
        Sound use jobs Still s₀ { t with ws := t.ws.step use (.step w junk) } →
        Sound use jobs Still s₀ (t.step use jobs (.step w junk)) := by
      intro hentry hnext
      show Sound use jobs Still s₀ { t with
        ws := t.ws.step use (.step w junk)
        log := t.log ++ t.entry w }
      rw [hentry, List.append_nil]
      exact hnext
    cases hphase : t.ws.phase w with
    | free =>
      refine hsame (by simp only [entry, hphase]) ?_
      rw [Workers.step_idle use t.ws w junk hphase]
      exact h
    | holding exec n k own next =>
      rw [hphase] at hplace
      obtain ⟨j, hj, rfl, hn, hquiet, hdirect⟩ := hplace
      refine hsame (by simp only [entry, hphase]) ?_
      rw [Workers.step_read use t.ws w junk _ n k own next hphase]
      exact h.setPhase use jobs w _ t.ws rfl rfl
        ⟨j, hj, rfl, .inr ⟨hn, hquiet _, fun hd => absurd hd hdirect⟩⟩
    | running exec n p =>
      rw [hphase] at hplace
      obtain ⟨j, hj, rfl, hp⟩ := hplace
      cases p with
      | done a =>
        refine hsame (by cases n <;> simp only [entry, hphase]) ?_
        rw [Workers.step_done use t.ws w junk _ n a hphase]
        exact h.setPhase use jobs w .free t.ws rfl rfl True.intro
      | call c next =>
        have hstep := Workers.step_call use t.ws w junk _ n c next hphase
        rcases hp with ⟨rfl, hprogram⟩ | ⟨hn, hquiet, hanswers⟩
        · show Sound use jobs Still s₀ { t with
            ws := t.ws.step use (.step w junk)
            log := t.log ++ t.entry w }
          have hentry : t.entry w = [(w, j)] := by simp only [entry, hphase, hj]
          have hfirst := hwrites j
          rw [← hprogram] at hfirst
          rw [hentry, hstep]
          exact h.firstCall use jobs hstill w junk j c next hj hprogram.symm hfirst
        · obtain ⟨m, rfl⟩ := Nat.exists_eq_succ_of_ne_zero (Nat.ne_of_gt hn)
          refine hsame (by simp only [entry, hphase]) ?_
          rw [hstep]
          refine h.laterCall use jobs hstill w junk j m c next hj hquiet fun hdirect => ?_
          obtain ⟨_, _, _, _, hdone⟩ := hanswers hdirect
          cases hdone

/-! ## runs -/

def start (s₀ : σ) (cells : K → V) : Logged W K V σ R α J :=
  ⟨⟨s₀, cells, fun _ => .free⟩, fun _ => none, []⟩

def runs (s₀ : σ) (cells : K → V) (run : List (JobAct W V J)) : Logged W K V σ R α J :=
  run.foldl (step use jobs) (start s₀ cells)

/-- **In every state of a run the log is sound.** -/
theorem runs_sound {Still : C → Prop} (hstill : ∀ j n c s, Still c → (jobs.exec j n c s).2 = s)
    (hwrites : ∀ j, (jobs.program j).WritesFirst Still) (s₀ : σ) (cells : K → V)
    (run : List (JobAct W V J)) : Sound use jobs Still s₀ (runs use jobs s₀ cells run) := by
  refine visited_inv (step use jobs) (fun _ _ => True) (Sound use jobs Still s₀)
    (fun t a _ h => step_sound use jobs t hstill hwrites a h) (start s₀ cells) run
    ⟨rfl, fun _ => True.intro⟩ ?_ _ (visited_end _ _ _)
  exact throughout_of_forall _ _ _ _ fun _ _ _ => True.intro

/-- the log beside the run of the workers -/
theorem runs_ws (s₀ : σ) (cells : K → V) (run : List (JobAct W V J)) :
    (runs use jobs s₀ cells run).ws =
      (run.map jobs.act).foldl (Workers.step use) ⟨s₀, cells, fun _ => .free⟩ := by
  have hstep : ∀ (t : Logged W K V σ R α J) a,
      (t.step use jobs a).ws = t.ws.step use (jobs.act a) := by
    intro t a
    cases a with
    | start w j =>
      show (step use jobs t (.start w j)).ws = t.ws.step use (.start w (jobs.exec j) _)
      unfold step
      dsimp only
      split
      · rfl
      · next hbusy => exact (Workers.step_busy use t.ws w (jobs.exec j) _ hbusy).symm
    | step w junk => rfl
  have hrun : ∀ t : Logged W K V σ R α J,
      (run.foldl (step use jobs) t).ws = (run.map jobs.act).foldl (Workers.step use) t.ws := by
    induction run with
    | nil => exact fun _ => rfl
    | cons a run ih =>
      intro t
      show (run.foldl (step use jobs) (t.step use jobs a)).ws = _
      rw [ih, hstep]
      rfl
  exact hrun _

/-- the log only grows, and at its end -/
theorem runs_log (s₀ : σ) (cells : K → V) (run more : List (JobAct W V J)) :
    (runs use jobs s₀ cells run).log <+: (runs use jobs s₀ cells (run ++ more)).log := by
  have hstep : ∀ (t : Logged W K V σ R α J) a, t.log <+: (t.step use jobs a).log := by
    intro t a
    cases a with
    | start w j =>
      unfold step
      dsimp only
      split
      · exact List.prefix_rfl
      · exact List.prefix_rfl
    | step w junk => exact List.prefix_append _ _
  have hrun : ∀ t : Logged W K V σ R α J, t.log <+: (more.foldl (step use jobs) t).log := by
    induction more with
    | nil => exact fun _ => List.prefix_rfl
    | cons a more ih => exact fun t => (hstep t a).trans (ih _)
  unfold runs
  rw [List.foldl_append]
  exact hrun _

end Logged

end

end CServer
