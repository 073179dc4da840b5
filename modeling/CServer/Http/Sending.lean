import CServer.Http.Respond
import CServer.Lib.Sending

/-!
# Responses over partial sends

`server_send_all` and `http_respond` against a schedule of what the calls of `send` do.

* `serverSendAll`          the loop, at `buf + cursor`;
* `serverSendAll_prefix`   the socket accepted a prefix, and all of it exactly when 0 is returned;
* `httpRespondOver`        the header and then the body;
* `responses_survive`      the same for a whole response;
* `httpRespondOver_reply`  what it returns is what `httpRespond` says for sends that succeed or fail.
-/

namespace CServer

/-! ## the loop -/

/-- the loop of `server_send_all`, with `cursor` and `remaining` -/
def sendAllLoop (buf : Bytes) : Nat → Nat → Schedule → Sent
  | _, 0, sched => ⟨[], some (.ok ()), sched⟩
  | _, _ + 1, [] => ⟨[], none, []⟩
  | cursor, remaining + 1, reply :: sched =>
    match reply (remaining + 1) with
    | .interrupted => sendAllLoop buf cursor (remaining + 1) sched
    | .failed => ⟨[], some (.error .send), sched⟩
    | .zero => ⟨[], some (.error .epipe), sched⟩
    | .sent n _ _ =>
      let more := sendAllLoop buf (cursor + n) (remaining + 1 - n) sched
      { more with accepted := (buf.drop cursor).take n ++ more.accepted }

/-- `server_send_all` of `buf` with its length -/
def serverSendAll (buf : Bytes) (sched : Schedule) : Sent := sendAllLoop buf 0 buf.length sched

/-- **The loop keeps `cursor` and `remaining` together:** what was accepted is a prefix of what was
left to send, and all of it exactly when the loop ends well. -/
theorem sendAllLoop_prefix (buf : Bytes) (cursor remaining : Nat) (sched : Schedule)
    (h : cursor + remaining = buf.length) :
    (sendAllLoop buf cursor remaining sched).accepted <+: buf.drop cursor ∧
      ((sendAllLoop buf cursor remaining sched).returned = some (.ok ()) ↔
        (sendAllLoop buf cursor remaining sched).accepted = buf.drop cursor) := by
  induction sched generalizing cursor remaining with
  | nil =>
    cases remaining with
    | zero =>
      have hnil : buf.drop cursor = [] := List.drop_eq_nil_of_le (by omega)
      rw [hnil]
      exact ⟨List.nil_prefix, fun _ => rfl, fun _ => rfl⟩
    | succ remaining =>
      refine ⟨List.nil_prefix, fun hr => (by cases hr), fun ha => ?_⟩
      have hlen := congrArg List.length ha
      rw [List.length_drop] at hlen
      exact absurd hlen (show ([] : Bytes).length ≠ _ by rw [List.length_nil]; omega)
  | cons reply sched ih =>
    cases remaining with
    | zero =>
      have hnil : buf.drop cursor = [] := List.drop_eq_nil_of_le (by omega)
      rw [hnil]
      exact ⟨List.nil_prefix, fun _ => rfl, fun _ => rfl⟩
    | succ remaining =>
      have hne : ([] : Bytes) ≠ buf.drop cursor := by
        intro hnil
        have hlen := congrArg List.length hnil
        rw [List.length_drop, List.length_nil] at hlen
        omega
      rw [sendAllLoop]
      cases reply (remaining + 1) with
      | interrupted => exact ih cursor (remaining + 1) h
      | failed => exact ⟨List.nil_prefix, fun hr => (by cases hr), fun ha => absurd ha hne⟩
      | zero => exact ⟨List.nil_prefix, fun hr => (by cases hr), fun ha => absurd ha hne⟩
      | sent n pos le =>
        obtain ⟨hpre, hdone⟩ := ih (cursor + n) (remaining + 1 - n) (by omega)
        have hsplit : buf.drop cursor = (buf.drop cursor).take n ++ buf.drop (cursor + n) := by
          rw [← List.drop_drop, List.take_append_drop]
        constructor
        · obtain ⟨left, hleft⟩ := hpre
          refine ⟨left, ?_⟩
          show ((buf.drop cursor).take n ++ _) ++ left = _
          rw [List.append_assoc, hleft, ← hsplit]
        · constructor
          · intro hr
            show (buf.drop cursor).take n ++ _ = _
            rw [hdone.mp hr, ← hsplit]
          · intro ha
            refine hdone.mpr (@List.append_cancel_left _ ((buf.drop cursor).take n) _ _ ?_)
            rw [← hsplit]
            exact ha

/-- the loop returns once as many calls were answered as there are bytes, and leaves the others -/
theorem sendAllLoop_returns (buf : Bytes) (cursor remaining more : Nat) (sched : Schedule)
    (h : Answered (remaining + more) sched) :
    (sendAllLoop buf cursor remaining sched).returned ≠ none ∧
      Answered more (sendAllLoop buf cursor remaining sched).rest := by
  induction sched generalizing cursor remaining with
  | nil =>
    cases remaining with
    | zero => exact ⟨fun hr => (by cases hr), h.mono (Nat.le_add_left _ _)⟩
    | succ remaining =>
      rw [Nat.succ_add] at h
      cases h
  | cons reply sched ih =>
    cases remaining with
    | zero => exact ⟨fun hr => (by cases hr), h.mono (Nat.le_add_left _ _)⟩
    | succ remaining =>
      obtain ⟨htail, hskip⟩ := h.tail
      have hmore : Answered more sched := htail.mono (by omega)
      rw [sendAllLoop]
      cases hreply : reply (remaining + 1) with
      | interrupted => exact ih cursor (remaining + 1) (hskip _ hreply)
      | failed => exact ⟨fun hr => (by cases hr), hmore⟩
      | zero => exact ⟨fun hr => (by cases hr), hmore⟩
      | sent n pos le => exact ih (cursor + n) (remaining + 1 - n) (htail.mono (by omega))

/-- **`server_send_all`: the socket accepted a prefix of the buffer, and the buffer exactly when the
function returns 0.** -/
theorem serverSendAll_prefix (buf : Bytes) (sched : Schedule) :
    (serverSendAll buf sched).accepted <+: buf ∧
      ((serverSendAll buf sched).returned = some (.ok ()) ↔
        (serverSendAll buf sched).accepted = buf) :=
  sendAllLoop_prefix buf 0 buf.length sched (Nat.zero_add _)

/-! ## a response -/

/-- What the socket accepted of the header and of the body, and what `http_respond` returned. -/
structure Responded where
  header : Bytes
  body : Bytes
  returned : Option (Except Errno Unit)

/-- `http_respond` with a non-NULL content type -/
def httpRespondOver (r : Response) (sched : Schedule) : Responded :=
  if (responseHeader r).length ≥ 1024 then ⟨[], [], some (.error .emsgsize)⟩
  else
    let header := serverSendAll (responseHeader r) sched
    if header.returned ≠ some (.ok ()) then ⟨header.accepted, [], header.returned⟩
    else if r.body.length > 0 then
      let body := serverSendAll r.body header.rest
      ⟨header.accepted, body.accepted, body.returned⟩
    else ⟨header.accepted, [], some (.ok ())⟩

/-- everything the socket accepted -/
def Responded.accepted (s : Responded) : Bytes := s.header ++ s.body

theorem responseHeader_ne_nil (r : Response) : responseHeader r ≠ [] := by
  intro hnil
  have hlen := congrArg List.length hnil
  unfold responseHeader at hlen
  simp only [List.length_append, show (ascii "HTTP/1.1 ").length = 9 by decide] at hlen
  rw [List.length_nil] at hlen
  omega

/-- the cases of `http_respond` -/
theorem httpRespondOver_cases (r : Response) (sched : Schedule) :
    (httpRespondOver r sched = ⟨[], [], some (.error .emsgsize)⟩ ∧
      1024 ≤ (responseHeader r).length) ∨
    (∃ sent returned, httpRespondOver r sched = ⟨sent, [], returned⟩ ∧
      returned ≠ some (.ok ()) ∧ sent <+: responseHeader r ∧ sent ≠ responseHeader r) ∨
    ∃ sent returned, httpRespondOver r sched = ⟨responseHeader r, sent, returned⟩ ∧
      sent <+: r.body ∧ (returned = some (.ok ()) ↔ sent = r.body) := by
  obtain ⟨hpre, hdone⟩ := serverSendAll_prefix (responseHeader r) sched
  unfold httpRespondOver
  by_cases hbig : (responseHeader r).length ≥ 1024
  · exact .inl ⟨if_pos hbig, hbig⟩
  · rw [if_neg hbig]
    by_cases hheader : (serverSendAll (responseHeader r) sched).returned ≠ some (.ok ())
    · exact .inr (.inl ⟨_, _, if_pos hheader, hheader, hpre, fun he => hheader (hdone.mpr he)⟩)
    · right
      right
      simp only [if_neg hheader, hdone.mp (not_not.mp hheader)]
      by_cases hbody : r.body.length > 0
      · obtain ⟨hb, hbdone⟩ := serverSendAll_prefix r.body
          (serverSendAll (responseHeader r) sched).rest
        exact ⟨_, _, if_pos hbody, hb, hbdone⟩
      · have hnil : r.body = [] := List.length_eq_zero_iff.mp (by omega)
        refine ⟨[], _, if_neg hbody, List.nil_prefix, fun _ => hnil.symm, fun _ => rfl⟩

theorem httpRespondOver_returns (r : Response) (sched : Schedule)
    (h : Answered ((responseHeader r).length + r.body.length) sched) :
    (httpRespondOver r sched).returned ≠ none := by
  obtain ⟨hheader, hrest⟩ := sendAllLoop_returns (responseHeader r) 0 _ _ sched h
  obtain ⟨hbody, _⟩ := sendAllLoop_returns r.body 0 r.body.length 0
    (serverSendAll (responseHeader r) sched).rest hrest
  unfold httpRespondOver
  by_cases hbig : (responseHeader r).length ≥ 1024
  · rw [if_pos hbig]
    exact fun hr => (by cases hr)
  · rw [if_neg hbig]
    dsimp only
    by_cases hsent : (serverSendAll (responseHeader r) sched).returned ≠ some (.ok ())
    · rw [if_pos hsent]
      exact hheader
    · rw [if_neg hsent]
      by_cases hlen : r.body.length > 0
      · rw [if_pos hlen]
        exact hbody
      · rw [if_neg hlen]
        exact fun hr => (by cases hr)

/-- **A response survives partial sends:** what the socket accepts is a prefix of the header and the
body, no byte of the body goes out behind an incomplete header, and 0 is returned exactly when
everything was accepted; it returns however often it is interrupted. -/
theorem responses_survive (r : Response) (sched : Schedule) :
    (httpRespondOver r sched).accepted <+: responseHeader r ++ r.body ∧
      ((httpRespondOver r sched).body ≠ [] → (httpRespondOver r sched).header = responseHeader r) ∧
      ((httpRespondOver r sched).returned = some (.ok ()) ↔
        (httpRespondOver r sched).accepted = responseHeader r ++ r.body) ∧
      (Answered ((responseHeader r).length + r.body.length) sched →
        (httpRespondOver r sched).returned ≠ none) := by
  have hne : responseHeader r ++ r.body ≠ [] := by
    intro hnil
    exact responseHeader_ne_nil r (List.append_eq_nil_iff.mp hnil).1
  refine ⟨?_, ?_, ?_, httpRespondOver_returns r sched⟩
  · rcases httpRespondOver_cases r sched with ⟨h, _⟩ | ⟨sent, _, h, _, hpre, _⟩ | ⟨sent, _, h, hpre, _⟩
    · rw [h]
      exact List.nil_prefix
    · rw [h]
      show sent ++ [] <+: _
      rw [List.append_nil]
      exact hpre.trans (List.prefix_append _ _)
    · rw [h]
      obtain ⟨left, hleft⟩ := hpre
      refine ⟨left, ?_⟩
      show (responseHeader r ++ sent) ++ left = _
      rw [List.append_assoc, hleft]
  · rcases httpRespondOver_cases r sched with ⟨h, _⟩ | ⟨_, _, h, _⟩ | ⟨_, _, h, _⟩
    · rw [h]
      exact fun hbody => absurd rfl hbody
    · rw [h]
      exact fun hbody => absurd rfl hbody
    · rw [h]
      exact fun _ => rfl
  · rcases httpRespondOver_cases r sched with ⟨h, _⟩ | ⟨sent, _, h, hret, hpre, hshort⟩ |
      ⟨sent, _, h, _, hdone⟩
    · rw [h]
      exact ⟨fun hr => (by cases hr), fun ha => absurd ha.symm hne⟩
    · rw [h]
      refine ⟨fun hr => absurd hr hret, fun ha => ?_⟩
      -- an incomplete header is shorter than the message
      have hlen : (sent ++ ([] : Bytes)).length = (responseHeader r ++ r.body).length :=
        congrArg List.length ha
      have hlt := lt_of_le_of_ne hpre.length_le fun he => hshort (hpre.eq_of_length he)
      rw [List.append_nil, List.length_append] at hlen
      omega
    · rw [h]
      constructor
      · intro hr
        show responseHeader r ++ sent = _
        rw [hdone.mp hr]
      · exact fun ha => hdone.mpr (List.append_cancel_left ha)

/-- **What it returns is what `httpRespond` says of sends that all succeed, or of a send that
fails.** -/
theorem httpRespondOver_reply (r : Response) (sched : Schedule) (result : Except Errno Unit)
    (h : (httpRespondOver r sched).returned = some result) :
    (httpRespond (decide (result = .ok ())) r).done = decide (result = .ok ()) ∧
      (result = .ok () → httpRespond true r = ⟨[r], true⟩) := by
  by_cases hbig : (responseHeader r).length ≥ 1024
  · have hover : httpRespondOver r sched = ⟨[], [], some (.error .emsgsize)⟩ := if_pos hbig
    rw [hover] at h
    cases h
    unfold httpRespond
    rw [if_pos hbig]
    exact ⟨rfl, fun he => (by cases he)⟩
  · unfold httpRespond
    rw [if_neg hbig]
    exact ⟨rfl, fun _ => if_neg hbig⟩

end CServer
