import CServer.Lib.CString

/-!
# Sending over a stream socket

A call of `send` is interrupted, fails, hands back 0, or is accepted in part.  A `Schedule` is what
the calls to come will do, each for whatever number of bytes is left when it is made; where it is
over, the next call has not returned yet.

* `SendResult`   the result of a call with `remaining` bytes;
* `Sent`         what a function that sends has done when the schedule is over or it has returned;
* `Answered`     so many calls of the schedule are not interrupted.
-/

namespace CServer

inductive SendResult (remaining : Nat) where
  | interrupted
  | failed
  | zero
  | sent (n : Nat) (pos : 0 < n) (le : n ≤ remaining)

abbrev Schedule := List ((remaining : Nat) → SendResult remaining)

/-- `errno` behind a result of -1 -/
inductive Errno where
  | send
  | epipe
  | emsgsize
  deriving DecidableEq

/-- The bytes that the socket accepted, what the function returned if it has, and the calls that it
left. -/
structure Sent where
  accepted : Bytes
  returned : Option (Except Errno Unit)
  rest : Schedule

/-- at least `n` calls of the schedule are not interrupted -/
inductive Answered : Nat → Schedule → Prop
  | done (sched : Schedule) : Answered 0 sched
  | skip {n : Nat} {sched : Schedule} (reply : (remaining : Nat) → SendResult remaining)
      (h : Answered n sched) : Answered n (reply :: sched)
  | answer {n : Nat} {sched : Schedule} (reply : (remaining : Nat) → SendResult remaining)
      (hreply : ∀ remaining, reply remaining ≠ .interrupted) (h : Answered n sched) :
      Answered (n + 1) (reply :: sched)

theorem Answered.mono {m n : Nat} {sched : Schedule} (h : Answered n sched) (hm : m ≤ n) :
    Answered m sched := by
  induction h generalizing m with
  | done sched =>
    rw [Nat.le_zero.mp hm]
    exact .done sched
  | skip reply _ ih => exact .skip reply (ih hm)
  | answer reply hreply _ ih =>
    cases m with
    | zero => exact .done _
    | succ m => exact .answer reply hreply (ih (Nat.le_of_succ_le_succ hm))

/-- behind a call that was interrupted, or one that counted -/
theorem Answered.tail {n : Nat} {sched : Schedule}
    {reply : (remaining : Nat) → SendResult remaining} (h : Answered n (reply :: sched)) :
    Answered (n - 1) sched ∧
      ∀ remaining, reply remaining = .interrupted → Answered n sched := by
  cases h with
  | done => exact ⟨.done _, fun _ _ => .done _⟩
  | skip _ h => exact ⟨h.mono (Nat.sub_le _ _), fun _ _ => h⟩
  | answer _ hreply h => exact ⟨h, fun remaining hr => absurd hr (hreply remaining)⟩

end CServer
