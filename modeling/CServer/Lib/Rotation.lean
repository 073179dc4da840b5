import Mathlib.Data.List.Basic

/-!
# Rotating buffers

A function that fills one of `n` static buffers, each in its turn, returns a pointer into it.  Where
such calls stand in the arguments of one call, the language leaves their order open: a call of one
argument may run between two of another.

* `Buffers`, `Ref`     the buffers, and a pointer to a text or into one of them;
* `Arg`, `Arg.value`   an argument, a text inside calls, and what it means;
* `Step`, `Every`      the next call of some argument; all orders end, and end in `Q`;
* `step_keeps`         a call leaves every argument what it means, while the buffers last;
* `every_settles`, `every_reaches`   so all orders end with the meanings, and with nothing else;
* `Prog.prints_iff`    **a program whose statements take no more buffers than there are prints, in every
                       order and from any buffers, what its texts mean.**
-/

namespace CServer
namespace Rotation

variable {n : Nat} {α : Type}

/-! ## buffers and pointers -/

/-- the buffers, and which of them is filled next -/
structure Buffers (n : Nat) (α : Type) where
  slots : Fin n → α
  index : Fin n

/-- a pointer: to a text that nothing overwrites, or into a buffer -/
inductive Ref (n : Nat) (α : Type) where
  | text (a : α)
  | slot (i : Fin n)

def Ref.read (b : Buffers n α) : Ref n α → α
  | .text a => a
  | .slot i => b.slots i

/-- `(index + 1) % n` -/
def turn (i : Fin n) : Fin n := ⟨(i.val + 1) % n, Nat.mod_lt _ (Nat.zero_lt_of_lt i.isLt)⟩

def Buffers.put (b : Buffers n α) (a : α) : Buffers n α :=
  ⟨fun i => if i = b.index then a else b.slots i, turn b.index⟩

theorem read_put_self (b : Buffers n α) (a : α) : (Ref.slot b.index).read (b.put a) = a := if_pos rfl

theorem read_put (b : Buffers n α) (a : α) {ref : Ref n α} (h : ref ≠ .slot b.index) :
    ref.read (b.put a) = ref.read b := by
  cases ref with
  | text => rfl
  | slot i => exact if_neg fun he => h (congrArg Ref.slot he)

/-- The pointer is to a text, or into one of the last `used` buffers that were filled. -/
def Ref.Live (b : Buffers n α) (used : Nat) : Ref n α → Prop
  | .text _ => True
  | .slot i => ∃ t, 0 < t ∧ t ≤ used ∧ (i.val + t) % n = b.index.val

/-- the buffer that is filled next is none of them -/
theorem Ref.Live.apart {b : Buffers n α} {used : Nat} {ref : Ref n α} (h : ref.Live b used)
    (hused : used < n) : ref ≠ .slot b.index := by
  intro he
  subst he
  obtain ⟨t, hpos, hle, ht⟩ := h
  have hi := b.index.isLt
  rcases Nat.lt_or_ge (b.index.val + t) n with hlt | hge
  · rw [Nat.mod_eq_of_lt hlt] at ht
    omega
  · rw [Nat.mod_eq_sub_mod hge, Nat.mod_eq_of_lt (by omega)] at ht
    omega

theorem Ref.Live.put {b : Buffers n α} {used : Nat} {ref : Ref n α} (h : ref.Live b used) (a : α) :
    ref.Live (b.put a) (used + 1) := by
  cases ref with
  | text => exact True.intro
  | slot i =>
    obtain ⟨t, hpos, hle, ht⟩ := h
    refine ⟨t + 1, Nat.succ_pos t, Nat.succ_le_succ hle, ?_⟩
    show (i.val + (t + 1)) % n = (b.index.val + 1) % n
    rw [← ht, Nat.mod_add_mod, Nat.add_assoc]

theorem live_filled (b : Buffers n α) (used : Nat) (a : α) :
    (Ref.slot b.index : Ref n α).Live (b.put a) (used + 1) :=
  ⟨1, Nat.one_pos, Nat.le_add_left 1 used, rfl⟩

/-! ## arguments -/

/-- what the calls make of a text, the innermost first; a call may fail -/
def through : List (α → Option α) → α → Option α
  | [], a => some a
  | f :: calls, a => (f a).bind (through calls)

theorem through_append (calls more : List (α → Option α)) (a : α) :
    through (calls ++ more) a = (through calls a).bind (through more) := by
  induction calls generalizing a with
  | nil => rfl
  | cons f calls ih =>
    show (f a).bind (through (calls ++ more)) = ((f a).bind (through calls)).bind (through more)
    rw [Option.bind_assoc]
    exact congrArg _ (funext ih)

/-- a text inside calls -/
structure Arg (α : Type) where
  text : α
  calls : List (α → Option α)

def Arg.value (x : Arg α) : Option α := through x.calls x.text

/-- a text without calls -/
def Arg.plain (a : α) : Arg α := ⟨a, []⟩

/-- one more call around an argument -/
def Arg.call (x : Arg α) (f : α → Option α) : Arg α := ⟨x.text, x.calls ++ [f]⟩

@[simp] theorem value_plain (a : α) : (Arg.plain a).value = some a := rfl

@[simp] theorem value_call (x : Arg α) (f : α → Option α) : (x.call f).value = x.value.bind f := by
  show through (x.calls ++ [f]) x.text = _
  rw [through_append]
  refine congrArg _ (funext fun a => ?_)
  show (f a).bind some = f a
  exact Option.bind_fun_some _

/-- an argument on the way: the pointer so far, and the calls that are still to come -/
structure Pending (n : Nat) (α : Type) where
  ref : Ref n α
  calls : List (α → Option α)

def Arg.start (x : Arg α) : Pending n α := ⟨.text x.text, x.calls⟩

namespace Pending

def read (b : Buffers n α) (p : Pending n α) : α := p.ref.read b

/-- what the argument comes to, as the buffers are -/
def value (b : Buffers n α) (p : Pending n α) : Option α := through p.calls (p.ref.read b)

end Pending

/-! ## all orders -/

/-- The next call of some argument.  It reads its text while it fills its buffer, so that these two must
not be one. -/
inductive Step : Buffers n α → List (Pending n α) → Buffers n α → List (Pending n α) → Prop where
  | call (b : Buffers n α) (front back : List (Pending n α)) (ref : Ref n α) (f : α → Option α)
      (calls : List (α → Option α)) (a : α) (apart : ref ≠ .slot b.index) (h : f (ref.read b) = some a) :
      Step b (front ++ ⟨ref, f :: calls⟩ :: back) (b.put a) (front ++ ⟨.slot b.index, calls⟩ :: back)

/-- **Every order of the calls ends, and `Q` holds where it ends.** -/
inductive Every (Q : Buffers n α → List (Pending n α) → Prop) :
    Buffers n α → List (Pending n α) → Prop where
  | settled (b : Buffers n α) (ps : List (Pending n α)) (h : ∀ p ∈ ps, p.calls = []) (hq : Q b ps) :
      Every Q b ps
  | step (b : Buffers n α) (ps : List (Pending n α)) (goes : ∃ b' ps', Step b ps b' ps')
      (all : ∀ b' ps', Step b ps b' ps' → Every Q b' ps') : Every Q b ps

/-- the calls that are still to come -/
def left : List (Pending n α) → Nat
  | [] => 0
  | p :: ps => p.calls.length + left ps

theorem left_append (ps qs : List (Pending n α)) : left (ps ++ qs) = left ps + left qs := by
  induction ps with
  | nil => exact (Nat.zero_add _).symm
  | cons p ps ih =>
    show p.calls.length + left (ps ++ qs) = p.calls.length + left ps + left qs
    rw [ih, Nat.add_assoc]

theorem calls_nil_of_left {ps : List (Pending n α)} (h : left ps = 0) : ∀ p ∈ ps, p.calls = [] := by
  induction ps with
  | nil => exact fun p hp => absurd hp List.not_mem_nil
  | cons q ps ih =>
    have hsum : q.calls.length + left ps = 0 := h
    intro p hp
    rcases List.mem_cons.mp hp with rfl | hp
    · exact List.length_eq_zero_iff.mp (by omega)
    · exact ih (by omega) p hp

/-- the pointers are live, and the buffers last for the calls to come -/
structure Held (b : Buffers n α) (used : Nat) (ps : List (Pending n α)) : Prop where
  live : ∀ p ∈ ps, p.ref.Live b used
  room : used + left ps ≤ n

theorem held_start (b : Buffers n α) (args : List (Arg α))
    (h : left (args.map (Arg.start (n := n))) ≤ n) : Held b 0 (args.map Arg.start) where
  live := by
    intro p hp
    obtain ⟨x, -, rfl⟩ := List.mem_map.mp hp
    exact True.intro
  room := by rwa [Nat.zero_add]

/-- **A call leaves every argument what it means.** -/
theorem step_keeps {b b' : Buffers n α} {used : Nat} {ps ps' : List (Pending n α)} (h : Held b used ps)
    (hstep : Step b ps b' ps') :
    Held b' (used + 1) ps' ∧ ps'.map (Pending.value b') = ps.map (Pending.value b) ∧
      left ps' + 1 = left ps := by
  cases hstep with
  | call front back ref f calls a apart hf =>
    have hroom := h.room
    rw [left_append] at hroom
    have hlen : left (⟨ref, f :: calls⟩ :: back : List (Pending n α)) = calls.length + 1 + left back := rfl
    have hlen' : left (⟨.slot b.index, calls⟩ :: back : List (Pending n α)) = calls.length + left back := rfl
    have hused : used < n := by omega
    have hfront : ∀ p ∈ front, p.ref.Live b used := fun p hp => h.live p (List.mem_append_left _ hp)
    have hback : ∀ p ∈ back, p.ref.Live b used := fun p hp =>
      h.live p (List.mem_append_right _ (List.mem_cons_of_mem _ hp))
    have hvalue : ∀ p : Pending n α, p.ref.Live b used → p.value (b.put a) = p.value b := fun p hp =>
      congrArg (through p.calls) (read_put b a (hp.apart hused))
    refine ⟨⟨?_, ?_⟩, ?_, ?_⟩
    · intro p hp
      rcases List.mem_append.mp hp with hp | hp
      · exact (hfront p hp).put a
      · rcases List.mem_cons.mp hp with rfl | hp
        · exact live_filled b used a
        · exact (hback p hp).put a
    · rw [left_append]
      omega
    · rw [List.map_append, List.map_append, List.map_cons, List.map_cons,
        List.map_congr_left fun p hp => hvalue p (hfront p hp),
        List.map_congr_left fun p hp => hvalue p (hback p hp)]
      have hnew : (⟨.slot b.index, calls⟩ : Pending n α).value (b.put a) =
          (⟨ref, f :: calls⟩ : Pending n α).value b := by
        show through calls ((Ref.slot b.index).read (b.put a)) = (f (ref.read b)).bind (through calls)
        rw [read_put_self, hf]
        rfl
      rw [hnew]
    · rw [left_append, left_append]
      omega

/-- an argument with a call to come can go on -/
theorem step_goes {b : Buffers n α} {used : Nat} {ps : List (Pending n α)} {values : List α}
    (h : Held b used ps) (hvalues : ps.map (Pending.value b) = values.map some) (hleft : 0 < left ps) :
    ∃ b' ps', Step b ps b' ps' := by
  obtain ⟨p, hp, hcalls⟩ : ∃ p ∈ ps, p.calls ≠ [] := by
    by_contra hno
    have hnil : ∀ p ∈ ps, p.calls = [] := fun p hp => by
      by_contra hne
      exact hno ⟨p, hp, hne⟩
    have hzero : left ps = 0 := by
      clear h hvalues hleft hno
      induction ps with
      | nil => rfl
      | cons q ps ih =>
        show q.calls.length + left ps = 0
        rw [hnil q List.mem_cons_self, ih fun p hp => hnil p (List.mem_cons_of_mem _ hp)]
        rfl
    omega
  obtain ⟨front, back, rfl⟩ := List.append_of_mem hp
  obtain ⟨ref, calls⟩ := p
  cases calls with
  | nil => exact absurd rfl hcalls
  | cons f calls =>
    have hused : used < n := by
      have := h.room
      omega
    -- the value of the argument is defined, so its next call does not fail
    have hsome : ∃ v, (⟨ref, f :: calls⟩ : Pending n α).value b = some v := by
      have hmem : (⟨ref, f :: calls⟩ : Pending n α).value b ∈ values.map some := by
        rw [← hvalues]
        exact List.mem_map_of_mem hp
      obtain ⟨v, -, hv⟩ := List.mem_map.mp hmem
      exact ⟨v, hv.symm⟩
    obtain ⟨v, hv⟩ := hsome
    obtain ⟨a, ha, -⟩ := Option.bind_eq_some_iff.mp hv
    exact ⟨_, _, .call b front back ref f calls a ((h.live _ hp).apart hused) ha⟩

/-- where all calls are made, the texts are the values -/
theorem texts_of_settled {b : Buffers n α} {ps : List (Pending n α)} (h : ∀ p ∈ ps, p.calls = []) :
    ps.map (Pending.value b) = (ps.map (Pending.read b)).map some := by
  rw [List.map_map]
  refine List.map_congr_left fun p hp => ?_
  show through p.calls (p.ref.read b) = some (p.ref.read b)
  rw [h p hp]
  rfl

/-- **All orders end with the values.** -/
theorem every_settles {Q : Buffers n α → List (Pending n α) → Prop} {values : List α}
    (hq : ∀ b ps, ps.map (Pending.read b) = values → Q b ps) (b : Buffers n α) (used : Nat)
    (ps : List (Pending n α)) (h : Held b used ps) (hvalues : ps.map (Pending.value b) = values.map some) :
    Every Q b ps := by
  induction hleft : left ps generalizing b used ps with
  | zero =>
    have hnil := calls_nil_of_left hleft
    refine .settled b ps hnil (hq b ps ?_)
    rw [texts_of_settled hnil] at hvalues
    exact (List.map_inj_right fun a a' h => Option.some.inj h).mp hvalues
  | succ m ih =>
    refine .step b ps (step_goes h hvalues (by omega)) fun b' ps' hstep => ?_
    obtain ⟨hheld, hsame, hfewer⟩ := step_keeps h hstep
    exact ih b' (used + 1) ps' hheld (hsame.trans hvalues) (by omega)

/-- and some order ends, with the values -/
theorem every_reaches {Q : Buffers n α → List (Pending n α) → Prop} {b : Buffers n α} {used : Nat}
    {ps : List (Pending n α)} (hevery : Every Q b ps) (h : Held b used ps) :
    ∃ b' ps', Q b' ps' ∧ (ps'.map (Pending.read b')).map some = ps.map (Pending.value b) := by
  induction hevery generalizing used with
  | settled b ps hnil hq => exact ⟨b, ps, hq, (texts_of_settled hnil).symm⟩
  | step b ps goes all ih =>
    obtain ⟨b', ps', hstep⟩ := goes
    obtain ⟨hheld, hsame, -⟩ := step_keeps h hstep
    obtain ⟨b'', ps'', hq, htexts⟩ := ih b' ps' hstep hheld
    exact ⟨b'', ps'', hq, htexts.trans hsame⟩

/-! ## programs -/

/-- A program: what it prints, and the texts that it copies before they are overwritten.  `fail` is an
access outside an array. -/
inductive Prog (α : Type) where
  | done
  | fail
  | print (args : List (Arg α)) (rest : Prog α)
  | copy (arg : Arg α) (rest : α → Prog α)

namespace Prog

/-- the texts that it prints -/
def texts : Prog α → Option (List α)
  | .done => some []
  | .fail => none
  | .print args rest => (args.mapM Arg.value).bind fun values => rest.texts.map (values ++ ·)
  | .copy arg rest => arg.value.bind fun a => (rest a).texts

/-- In every order of the calls in its statements the program goes on to its end, and prints `out`. -/
def Prints : Prog α → Buffers n α → List α → Prop
  | .done, _, out => out = []
  | .fail, _, _ => False
  | .print args rest, b, out =>
    Every (fun b' ps => ∃ more, out = ps.map (Pending.read b') ++ more ∧ rest.Prints b' more) b
      (args.map Arg.start)
  | .copy arg rest, b, out =>
    Every (fun b' ps => ∃ a, ps.map (Pending.read b') = [a] ∧ (rest a).Prints b' out) b [arg.start]

/-- the buffers that arguments take -/
def takes : List (Arg α) → Nat
  | [] => 0
  | x :: args => x.calls.length + takes args

/-- No statement takes more than `n` buffers. -/
def Within (n : Nat) : Prog α → Prop
  | .done => True
  | .fail => True
  | .print args rest => takes args ≤ n ∧ rest.Within n
  | .copy arg rest => arg.calls.length ≤ n ∧ ∀ a, (rest a).Within n

end Prog

theorem left_start (args : List (Arg α)) :
    left (args.map (Arg.start (n := n))) = Prog.takes args := by
  induction args with
  | nil => rfl
  | cons x args ih => exact congrArg (x.calls.length + ·) ih

theorem values_start (b : Buffers n α) (args : List (Arg α)) :
    (args.map Arg.start).map (Pending.value b) = args.map Arg.value := by
  rw [List.map_map]
  rfl

theorem mapM_value_iff (args : List (Arg α)) (values : List α) :
    args.mapM Arg.value = some values ↔ args.map Arg.value = values.map some := by
  induction args generalizing values with
  | nil =>
    rw [List.mapM_nil]
    constructor
    · intro h
      rw [← Option.some.inj h]
      rfl
    · intro h
      rw [List.map_eq_nil_iff.mp h.symm]
      rfl
  | cons x args ih =>
    rw [List.mapM_cons, List.map_cons]
    constructor
    · intro h
      obtain ⟨v, hv, hrest⟩ := Option.bind_eq_some_iff.mp h
      obtain ⟨vs, hvs, hpair⟩ := Option.bind_eq_some_iff.mp hrest
      rw [← Option.some.inj hpair, List.map_cons, hv, (ih vs).mp hvs]
    · intro h
      cases values with
      | nil => exact absurd h (List.cons_ne_nil _ _)
      | cons v vs =>
        obtain ⟨hv, hvs⟩ := List.cons.inj h
        rw [hv, (ih vs).mpr hvs]
        rfl

/-- **A program that stays within the buffers prints what its texts mean**, in every order of the calls
and from any buffers; where a text is none, it does not. -/
theorem Prog.prints_iff (P : Prog α) (h : P.Within n) (b : Buffers n α) (out : List α) :
    P.Prints b out ↔ P.texts = some out := by
  induction P generalizing b out with
  | done => exact ⟨fun ho => congrArg some (show [] = out from (show out = [] from ho).symm),
      fun ho => (Option.some.inj ho).symm⟩
  | fail => exact ⟨False.elim, fun ho => by cases ho⟩
  | print args rest ih =>
    obtain ⟨hroom, hrest⟩ := h
    have hheld := held_start b args (by rw [left_start]; exact hroom)
    constructor
    · intro hprints
      obtain ⟨b', ps, ⟨more, rfl, hmore⟩, hvalues⟩ := every_reaches hprints hheld
      rw [values_start] at hvalues
      show (args.mapM Arg.value).bind _ = _
      rw [(mapM_value_iff args _).mpr hvalues.symm, Option.bind_some, (ih hrest b' more).mp hmore]
      rfl
    · intro htexts
      obtain ⟨values, hvalues, hmap⟩ := Option.bind_eq_some_iff.mp htexts
      obtain ⟨more, hmore, rfl⟩ := Option.map_eq_some_iff.mp hmap
      have hstart : (args.map Arg.start).map (Pending.value b) = values.map some := by
        rw [values_start]
        exact (mapM_value_iff args values).mp hvalues
      exact every_settles (fun b' ps hps => ⟨more, by rw [hps], (ih hrest b' more).mpr hmore⟩) b 0 _
        hheld hstart
  | copy arg rest ih =>
    obtain ⟨hroom, hrest⟩ := h
    have hheld := held_start b [arg] hroom
    constructor
    · intro hprints
      obtain ⟨b', ps, ⟨a, ha, hmore⟩, hvalues⟩ := every_reaches hprints hheld
      rw [ha] at hvalues
      have hvalue : arg.value = some a := (List.cons.inj hvalues).1.symm
      show arg.value.bind _ = _
      rw [hvalue, Option.bind_some, (ih a (hrest a) b' out).mp hmore]
    · intro htexts
      obtain ⟨a, hvalue, hmore⟩ := Option.bind_eq_some_iff.mp htexts
      have hstart : [arg.start].map (Pending.value b) = [a].map some := congrArg (fun v => [v]) hvalue
      exact every_settles (fun b' ps hps => ⟨a, hps, (ih a (hrest a) b' out).mpr hmore⟩) b 0 _
        hheld hstart

end Rotation
end CServer
