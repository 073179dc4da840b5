import CServer.Http.Types

/-!
# The server record and the API key check

* `Server`, `serverCreate`   what a request handler reads of `struct Server`, and how `server_create`
                             fills it;
* `keyMatches`               the comparison loop of `key_matches`;
* `keyMatches_iff`           the loop without early exit decides equality;
* `serverAuthCheck`          `server_auth_check`.
-/

namespace CServer

structure ServerStats where
  connectionsAccepted : UInt64
  connectionsHandled : UInt64
  connectionsDroppedQueueFull : UInt64
  httpRequests : UInt64
  httpErrors : UInt64
  deriving DecidableEq

structure Server where
  apiKey : CBuf HTTP_MAX_API_KEY_LEN
  startTime : Long
  stats : ServerStats
  deriving DecidableEq

/-- the check of `server_config_validate` on the API key; `none` is a NULL pointer -/
def configKeyValid (apiKey : Option CStr) : Bool :=
  match apiKey with
  | none => true
  | some key => !decide (key.length ≥ HTTP_MAX_API_KEY_LEN)

/-- the key, the counters and the start time as `server_create` sets them -/
def serverCreate (apiKey : Option CStr) (now : Long) : Option Server :=
  if configKeyValid apiKey then
    some {
      apiKey := match apiKey with
        | some key => CBuf.print _ apiKeyLen_pos key
        | none => CBuf.empty _ apiKeyLen_pos
      startTime := now
      stats := ⟨0, 0, 0, 0, 0⟩ }
  else none

/-- `char` to `int` to `unsigned int`, with a signed `char` -/
def charToUnsigned (c : Byte) : UInt32 :=
  if c < 128 then c.toUInt32 else c.toUInt32 ||| 0xFFFFFF00

/-- `i < len ? s[i] : 0` -/
def charAt (s : Bytes) (i : Nat) : Byte := s.getD i 0

/-- the loop of `key_matches` from the index `i` on, with `fuel = width - i` turns to go -/
def keyLoop (expected provided : Bytes) (diff : UInt32) (i : Nat) : Nat → UInt32
  | 0 => diff
  | fuel + 1 =>
    keyLoop expected provided
      (diff ||| (charToUnsigned (charAt expected i) ^^^ charToUnsigned (charAt provided i)))
      (i + 1) fuel

def keyMatches (expected provided : CStr) : Bool :=
  let width := max expected.length provided.length
  let diff := UInt32.ofNat (expected.length ^^^ provided.length)
  keyLoop expected.bytes provided.bytes diff 0 width == 0

def serverAuthEnabled (server : Server) : Bool := server.apiKey.bytes != []

def serverAuthCheck (server : Server) (req : HttpRequest) : ApiError :=
  if serverAuthEnabled server = false then .ok
  else if req.apiKey.bytes = [] then .unauthorized
  else if keyMatches server.apiKey.toCStr req.apiKey.toCStr then .ok
  else .forbidden

/-! ## the loop decides equality -/

theorem UInt32.or_eq_zero (a b : UInt32) : a ||| b = 0 ↔ a = 0 ∧ b = 0 := by
  rw [← UInt32.toNat_inj, ← UInt32.toNat_inj, ← UInt32.toNat_inj, UInt32.toNat_or]
  exact Nat.or_eq_zero_iff

theorem UInt32.xor_eq_zero (a b : UInt32) : a ^^^ b = 0 ↔ a = b := by
  rw [← UInt32.toNat_inj, ← UInt32.toNat_inj, UInt32.toNat_xor]
  exact Nat.xor_eq_zero_iff

theorem charToUnsigned_inj (a b : Byte) (h : charToUnsigned a = charToUnsigned b) : a = b := by
  have key : ∀ c : Byte, (charToUnsigned c).toUInt8 = c := by
    intro c
    unfold charToUnsigned
    split_ifs
    · exact UInt8.toUInt8_toUInt32 c
    · have hmask : (0xFFFFFF00 : UInt32).toUInt8 = 0 := rfl
      rw [UInt32.toUInt8_or, UInt8.toUInt8_toUInt32, hmask, UInt8.or_zero]
  rw [← key a, h, key b]

theorem keyLoop_eq_zero (expected provided : Bytes) (diff : UInt32) (i fuel : Nat) :
    keyLoop expected provided diff i fuel = 0 ↔
      diff = 0 ∧ ∀ j, i ≤ j → j < i + fuel → charAt expected j = charAt provided j := by
  induction fuel generalizing diff i with
  | zero =>
    constructor
    · intro h
      exact ⟨h, fun j h1 h2 => by omega⟩
    · exact fun h => h.1
  | succ fuel ih =>
    rw [keyLoop, ih, UInt32.or_eq_zero, UInt32.xor_eq_zero]
    constructor
    · rintro ⟨⟨hd, hc⟩, hr⟩
      refine ⟨hd, fun j h1 h2 => ?_⟩
      rcases Nat.eq_or_lt_of_le h1 with rfl | h1
      · exact charToUnsigned_inj _ _ hc
      · exact hr j h1 (by omega)
    · rintro ⟨hd, hr⟩
      exact ⟨⟨hd, by rw [hr i (le_refl _) (by omega)]⟩, fun j h1 h2 => hr j (by omega) (by omega)⟩

theorem charAt_ne_zero (s : CStr) (i : Nat) (h : i < s.bytes.length) : charAt s.bytes i ≠ 0 := by
  unfold charAt
  rw [List.getD_eq_getElem _ _ h]
  intro h0
  exact s.nulFree (h0 ▸ List.getElem_mem h)

theorem charAt_past (s : Bytes) (i : Nat) (h : s.length ≤ i) : charAt s i = 0 :=
  List.getD_eq_default _ _ h

/-- **The comparison without early exit decides equality.** -/
theorem keyMatches_iff (expected provided : CStr) :
    keyMatches expected provided = true ↔ expected = provided := by
  unfold keyMatches
  simp only [beq_iff_eq, keyLoop_eq_zero, Nat.zero_add]
  constructor
  · rintro ⟨_, hc⟩
    have hlen : expected.bytes.length = provided.bytes.length := by
      by_contra hne
      rcases Nat.lt_or_gt_of_ne hne with hlt | hlt
      · have he := hc expected.bytes.length (Nat.zero_le _) (lt_max_of_lt_right hlt)
        rw [charAt_past _ _ (le_refl _)] at he
        exact charAt_ne_zero provided _ hlt he.symm
      · have he := hc provided.bytes.length (Nat.zero_le _) (lt_max_of_lt_left hlt)
        rw [charAt_past provided.bytes _ (le_refl _)] at he
        exact charAt_ne_zero expected _ hlt he
    apply CStr.ext'
    apply List.ext_getElem hlen
    intro i h1 h2
    have he := hc i (Nat.zero_le _) (lt_max_of_lt_left h1)
    unfold charAt at he
    rw [List.getD_eq_getElem _ _ h1, List.getD_eq_getElem _ _ h2] at he
    exact he
  · rintro rfl
    refine ⟨?_, fun _ _ _ => rfl⟩
    rw [Nat.xor_self]
    rfl

/-- the three answers of the check in protected mode -/
theorem serverAuthCheck_protected (server : Server) (req : HttpRequest)
    (h : serverAuthEnabled server = true) :
    serverAuthCheck server req =
      if req.apiKey.bytes = [] then .unauthorized
      else if req.apiKey.bytes = server.apiKey.bytes then .ok
      else .forbidden := by
  unfold serverAuthCheck
  rw [if_neg (by simp [h])]
  by_cases he : req.apiKey.bytes = []
  · rw [if_pos he, if_pos he]
  · rw [if_neg he, if_neg he]
    by_cases hk : req.apiKey.bytes = server.apiKey.bytes
    · have hm : server.apiKey.toCStr = req.apiKey.toCStr := CStr.ext' hk.symm
      rw [if_pos hk, if_pos ((keyMatches_iff _ _).mpr hm)]
    · have hm : ¬ keyMatches server.apiKey.toCStr req.apiKey.toCStr = true := fun h' =>
        hk (congrArg CStr.bytes ((keyMatches_iff _ _).mp h')).symm
      rw [if_neg hk, if_neg hm]

theorem serverAuthCheck_open (server : Server) (req : HttpRequest)
    (h : serverAuthEnabled server = false) : serverAuthCheck server req = .ok := if_pos h

end CServer
