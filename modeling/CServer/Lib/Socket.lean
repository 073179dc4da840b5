import CServer.Lib.Memory

/-!
# Receiving from a stream socket

What a peer sends arrives in pieces of the network's choice, and signals may interrupt the calls in
between.  A `Socket` is the rest of the arrivals and the end that follows them.

* `Socket.stream`      the bytes that arrive;
* `Socket.recv`        `recv`, retried on `EINTR`: it hands over at most `cap` bytes of one piece;
* `recv_cases`         a call with room takes the next bytes of the stream, at least one, until the
                       stream is over;
* `Socket.recvInto`    the same into an array, checked.
-/

namespace CServer

inductive Arrival where
  | data (bytes : Bytes) (ne : bytes ≠ [])
  | interrupt

inductive StreamEnd where
  | closed
  | failed
  deriving DecidableEq

structure Socket where
  arrivals : List Arrival
  ending : StreamEnd

def Arrival.bytes : Arrival → Bytes
  | .data bytes _ => bytes
  | .interrupt => []

namespace Socket

def stream (s : Socket) : Bytes := s.arrivals.flatMap Arrival.bytes

theorem stream_interrupt (as : List Arrival) (ending : StreamEnd) :
    stream ⟨.interrupt :: as, ending⟩ = stream ⟨as, ending⟩ := rfl

theorem stream_data (bytes : Bytes) (ne : bytes ≠ []) (as : List Arrival) (ending : StreamEnd) :
    stream ⟨.data bytes ne :: as, ending⟩ = bytes ++ stream ⟨as, ending⟩ := rfl

end Socket

/-- what a call of `recv` leaves: the bytes and the socket, or the end of the stream -/
inductive Recv where
  | got (bytes : Bytes) (rest : Socket)
  | ended (ending : StreamEnd)

namespace Socket

def recvFrom (ending : StreamEnd) (cap : Nat) : List Arrival → Recv
  | [] => .ended ending
  | .interrupt :: as => recvFrom ending cap as
  | .data bytes _ :: as =>
    if h : bytes.drop cap = [] then .got bytes ⟨as, ending⟩
    else .got (bytes.take cap) ⟨.data (bytes.drop cap) h :: as, ending⟩

def recv (s : Socket) (cap : Nat) : Recv := recvFrom s.ending cap s.arrivals

theorem recvFrom_cases (ending : StreamEnd) (cap : Nat) (hcap : 0 < cap) (as : List Arrival) :
    (stream ⟨as, ending⟩ = [] ∧ recvFrom ending cap as = .ended ending) ∨
    ∃ bytes rest, recvFrom ending cap as = .got bytes rest ∧ bytes ≠ [] ∧ bytes.length ≤ cap ∧
      stream ⟨as, ending⟩ = bytes ++ rest.stream := by
  induction as with
  | nil => exact .inl ⟨rfl, rfl⟩
  | cons a as ih =>
    cases a with
    | interrupt =>
      rw [stream_interrupt, recvFrom]
      exact ih
    | data bytes ne =>
      right
      rw [recvFrom, stream_data]
      by_cases h : bytes.drop cap = []
      · rw [dif_pos h]
        exact ⟨bytes, _, rfl, ne, List.drop_eq_nil_iff.mp h, rfl⟩
      · rw [dif_neg h]
        refine ⟨bytes.take cap, _, rfl, ?_, List.length_take_le _ _, ?_⟩
        · intro ht
          rw [List.take_eq_nil_iff] at ht
          rcases ht with ht | ht
          · omega
          · exact ne ht
        · rw [stream_data, ← List.append_assoc, List.take_append_drop]

/-- **A call with room for a byte takes the next bytes of the stream, or the stream is over.** -/
theorem recv_cases (s : Socket) (cap : Nat) (hcap : 0 < cap) :
    (s.stream = [] ∧ s.recv cap = .ended s.ending) ∨
    ∃ bytes rest, s.recv cap = .got bytes rest ∧ bytes ≠ [] ∧ bytes.length ≤ cap ∧
      s.stream = bytes ++ rest.stream := recvFrom_cases s.ending cap hcap s.arrivals

end Socket

/-- what a call of `recv` into an array leaves -/
inductive RecvInto (size : Nat) where
  | got (n : Nat) (block : Block size) (rest : Socket)
  | ended (ending : StreamEnd)

namespace Socket
variable {size : Nat}

/-- `recv` of at most `cap` bytes to `block + off`, a range that has to lie in the array -/
def recvInto (s : Socket) (block : Block size) (off cap : Nat) : Option (RecvInto size) :=
  if off + cap ≤ size then
    match s.recv cap with
    | .ended ending => some (.ended ending)
    | .got bytes rest => (block.store off bytes).map fun b => .got bytes.length b rest
  else none

/-- the checked call: at the end of the stream, or with more of it in the array -/
theorem recvInto_cases (s : Socket) (block : Block size) (off cap : Nat) (hcap : 0 < cap)
    (hsize : off + cap ≤ size) :
    (s.stream = [] ∧ s.recvInto block off cap = some (.ended s.ending)) ∨
    ∃ n block' rest, s.recvInto block off cap = some (.got n block' rest) ∧ 0 < n ∧ n ≤ cap ∧
      block'.bytes.take (off + n) ++ rest.stream = block.bytes.take off ++ s.stream := by
  unfold recvInto
  rw [if_pos hsize]
  rcases s.recv_cases cap hcap with ⟨hs, hr⟩ | ⟨bytes, rest, hr, hne, hlen, hs⟩
  · left
    rw [hr]
    exact ⟨hs, rfl⟩
  · right
    obtain ⟨block', hstore, htake⟩ := block.store_eq off bytes (by omega)
    rw [hr]
    refine ⟨bytes.length, block', rest, ?_, List.length_pos_of_ne_nil hne, hlen, ?_⟩
    · show (block.store off bytes).map _ = _
      rw [hstore]
      rfl
    · rw [htake, hs, List.append_assoc]

/-- a call that hands bytes over with room for them makes progress -/
theorem recvInto_pos (s : Socket) (block block' : Block size) (off cap n : Nat) (rest : Socket)
    (hcap : 0 < cap) (h : s.recvInto block off cap = some (.got n block' rest)) : 0 < n := by
  by_cases hsize : off + cap ≤ size
  · rcases s.recvInto_cases block off cap hcap hsize with ⟨_, hr⟩ | ⟨n', _, _, hr, hn, _⟩
    · rw [hr] at h
      cases h
    · rw [hr] at h
      cases h
      exact hn
  · unfold recvInto at h
    rw [if_neg hsize] at h
    cases h

end Socket

end CServer
