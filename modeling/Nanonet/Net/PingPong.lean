import Nanonet.Lib.Lts
import Nanonet.Net.Datagram
import Mathlib.Data.List.Nodup

/-!
# Ping and pong

`ping` and `pong` of `udp-test.cpp`, and the network between them, which loses, duplicates and
reorders datagrams. `ping` sends one message after the other and waits for a reply after each, for
five seconds. Others may send to `pong` as well. Each datagram is marked with the number of the
message of `ping` that it is about, which neither program sees.
-/

namespace Nanonet

open DatagramSocket

/-- A datagram between the two, in flight. -/
structure Datagram where
  toPong : Bool
  about : Nat
  payload : Text
  deriving DecidableEq

/-- Both programs and what is between them. What `ping` has printed for a message is nothing where
the reply timed out; `served` are the messages that `pong` answered, those of others among them. -/
structure PingPong where
  flight : List Datagram
  printed : List (Option (Nat × Text))
  waiting : Bool
  served : List (Option Nat)
  /-- An exception ended `ping`, and `pong`. -/
  pingOver : Bool
  pongOver : Bool
  deriving DecidableEq

/-- One program's turn, with the results of its system calls, or what the network does. A datagram
that `recvfrom()` returns comes from the place in flight that is its source, or from someone else.
-/
inductive PingPongMove where
  /-- `ping` sends. -/
  | send (kernel : List SysRet)
  /-- `ping` receives. -/
  | receive (selects : List SysRet) (recvs : List (RecvfromRet (Option Nat)))
  /-- `pong` receives and replies. -/
  | reply (recvs : List (RecvfromRet (Option Nat))) (kernel : List SysRet)
  | lose (k : Nat)
  | duplicate (k : Nat)

namespace PingPong

/-- `"Re: " + msg + " (#" + std::to_string(n) + ")"` -/
def replyText (msg : Text) (n : Nat) : Text :=
  "Re: ".toList ++ msg ++ " (#".toList ++ Nat.toDigits 10 n ++ ")".toList

def replyTimeout : ℚ := 5

def start : PingPong := ⟨[], [], false, [], false, false⟩

/-- The datagram with number `k`, if it is on its way to `pong`, or to `ping`. -/
def arriving (s : PingPong) (toPong : Bool) (k : Nat) : Option Datagram :=
  s.flight[k]?.filter fun d => d.toPong = toPong

/-- What `recvfrom()` may return to one of the programs: any error, what is in flight to it, and to
`pong` what others send. -/
def Offers (s : PingPong) (toPong : Bool) : RecvfromRet (Option Nat) → Prop
  | .fail _ => True
  | .datagram none _ => toPong = true
  | .datagram (some k) payload => (s.arriving toPong k).map Datagram.payload = some payload

instance (s : PingPong) (toPong : Bool) : DecidablePred (s.Offers toPong)
  | .fail _ => .isTrue trivial
  | .datagram none _ => inferInstanceAs (Decidable (toPong = true))
  | .datagram (some _) _ => inferInstanceAs (Decidable (_ = some _))

/-- The message that a received datagram is about, if someone of the two sent it. -/
def about (s : PingPong) (r : Receipt (Option Nat)) : Option Nat :=
  (r.source.join.bind fun k => s.flight[k]?).map Datagram.about

/-- What is in flight when a datagram is received. -/
def left (s : PingPong) (r : Receipt (Option Nat)) : List Datagram :=
  r.source.join.elim s.flight s.flight.eraseIdx

variable (strerror : Nat → String) (peer : String) (msgs : List Text)

/-- What `ping` does with its next message. -/
def ping (s : PingPong) (kernel : List SysRet) : Option PingPong :=
  if s.waiting ∨ s.pingOver then none
  else
    msgs[s.printed.length]?.bind fun msg =>
      (send strerror "send" msg.length kernel).map fun
        | .error _ => { s with pingOver := true }
        | .ok sent =>
          { s with
            waiting := true
            flight := s.flight ++ if sent then [⟨true, s.printed.length, msg⟩] else [] }

/-- How `ping` waits for the reply. -/
def await (s : PingPong) (selects : List SysRet) (recvs : List (RecvfromRet (Option Nat))) :
    Option PingPong :=
  if s.waiting ∧ ¬ s.pingOver ∧ ∀ ret ∈ recvs, s.Offers false ret then
    (receiveInternal strerror replyTimeout defaultSize selects recvs).map fun
      | .error _ => { s with pingOver := true }
      | .ok r =>
        { s with
          waiting := false
          flight := s.left r
          printed := s.printed ++
            [if r.size = timeout then none else (s.about r).map fun about => (about, r.bytes)] }
  else none

/-- A pass of the loop of `pong`. -/
def pong (s : PingPong) (recvs : List (RecvfromRet (Option Nat))) (kernel : List SysRet) :
    Option PingPong :=
  if ¬ s.pongOver ∧ ∀ ret ∈ recvs, s.Offers true ret then
    (receiveInternal strerror noTimeout defaultSize [] recvs).bind fun
      | .error _ => some { s with pongOver := true }
      | .ok r =>
        let reply := replyText r.bytes s.served.length
        (send strerror ("send to " ++ peer) reply.length kernel).map fun
          | .error _ => { s with pongOver := true, flight := s.left r }
          | .ok sent =>
            { s with
              flight := s.left r ++
                if sent then ((s.about r).map fun about => ⟨false, about, reply⟩).toList else []
              served := s.served ++ [s.about r] }
  else none

def step (s : PingPong) : PingPongMove → Option PingPong
  | .send kernel => s.ping strerror msgs kernel
  | .receive selects recvs => s.await strerror selects recvs
  | .reply recvs kernel => s.pong strerror peer recvs kernel
  | .lose k => some { s with flight := s.flight.eraseIdx k }
  | .duplicate k => some { s with flight := s.flight ++ s.flight[k]?.toList }

def lts : Lts PingPong PingPongMove where
  init s := s = start
  step s move s' := s.step strerror peer msgs move = some s'

/-! ### The effect of a step -/

/-- What a step does that duplicates nothing. -/
inductive Effect (msgs : List Text) (s : PingPong) : PingPong → Prop
  | sent {msg : Text} {b c : Bool} (hidle : s.waiting = false)
      (hmsg : msgs[s.printed.length]? = some msg) :
      Effect msgs s
        ⟨s.flight ++ [⟨true, s.printed.length, msg⟩], s.printed, true, s.served, b, c⟩
  | refused {b c : Bool} (hidle : s.waiting = false) :
      Effect msgs s ⟨s.flight, s.printed, true, s.served, b, c⟩
  | timedOut {b c : Bool} (hwaiting : s.waiting = true) :
      Effect msgs s ⟨s.flight, s.printed ++ [none], false, s.served, b, c⟩
  | received {k : Nat} {d : Datagram} {b c : Bool} (hwaiting : s.waiting = true)
      (hd : s.flight[k]? = some d) (hto : d.toPong = false) :
      Effect msgs s ⟨s.flight.eraseIdx k,
        s.printed ++ [some (d.about, d.payload.take defaultSize)], false, s.served, b, c⟩
  | replied {k : Nat} {d : Datagram} {b c : Bool} (hd : s.flight[k]? = some d)
      (hto : d.toPong = true) :
      Effect msgs s ⟨s.flight.eraseIdx k ++
          [⟨false, d.about, replyText (d.payload.take defaultSize) s.served.length⟩],
        s.printed, s.waiting, s.served ++ [some d.about], b, c⟩
  | served {flight : List Datagram} {b c : Bool} (hsub : flight.Sublist s.flight)
      (o : Option Nat) : Effect msgs s ⟨flight, s.printed, s.waiting, s.served ++ [o], b, c⟩
  | lost {flight : List Datagram} {b c : Bool} (hsub : flight.Sublist s.flight) :
      Effect msgs s ⟨flight, s.printed, s.waiting, s.served, b, c⟩

variable {strerror peer msgs} {s s' : PingPong} {move : PingPongMove}

theorem arriving_eq_some {toPong : Bool} {k : Nat} {d : Datagram} :
    s.arriving toPong k = some d ↔ s.flight[k]? = some d ∧ d.toPong = toPong := by
  rw [arriving, Option.filter_eq_some_iff, decide_eq_true_iff]

theorem effect_of_ping {kernel : List SysRet} (h : s.ping strerror msgs kernel = some s') :
    s.Effect msgs s' := by
  rw [ping] at h
  split_ifs at h with hbusy
  have hidle : s.waiting = false := by
    cases hw : s.waiting with
    | false => rfl
    | true => exact absurd (.inl hw) hbusy
  obtain ⟨msg, hmsg, h⟩ := Option.bind_eq_some_iff.1 h
  obtain ⟨r, -, hr⟩ := Option.map_eq_some_iff.1 h
  rcases r with e | _ | _
  · cases hr
    exact .lost (.refl _)
  · cases hr
    simp only [Bool.false_eq_true, if_false, List.append_nil]
    exact .refused hidle
  · cases hr
    exact .sent hidle hmsg

theorem offers_cases {toPong : Bool} {source : Option Nat} {payload : Text}
    (h : s.Offers toPong (.datagram source payload)) (n : Nat) (bytes : Text) :
    (toPong = true ∧ s.about ⟨n, some source, bytes⟩ = none ∧
        s.left ⟨n, some source, bytes⟩ = s.flight) ∨
      ∃ k d, s.flight[k]? = some d ∧ d.toPong = toPong ∧ d.payload = payload ∧
        s.about ⟨n, some source, bytes⟩ = some d.about ∧
        s.left ⟨n, some source, bytes⟩ = s.flight.eraseIdx k := by
  cases source with
  | none => exact .inl ⟨h, rfl, rfl⟩
  | some k =>
    obtain ⟨d, harrives, hpayload⟩ := Option.map_eq_some_iff.1 h
    obtain ⟨hd, hto⟩ := arriving_eq_some.1 harrives
    exact .inr ⟨k, d, hd, hto, hpayload, by simp [about, hd], rfl⟩

theorem effect_of_await {selects : List SysRet} {recvs : List (RecvfromRet (Option Nat))}
    (h : s.await strerror selects recvs = some s') : s.Effect msgs s' := by
  rw [await] at h
  split_ifs at h with hready
  obtain ⟨hwaiting, -, hoffers⟩ := hready
  obtain ⟨r, hreceive, hr⟩ := Option.map_eq_some_iff.1 h
  rcases r with e | ⟨n, source, bytes⟩
  · cases hr
    exact .lost (.refl _)
  · cases hr
    obtain ⟨hsize, rfl⟩ | ⟨hsize, source, payload, hmem, rfl, rfl⟩ :=
      receiveInternal_size (by decide) hreceive
    · obtain rfl : n = timeout := hsize
      dsimp only
      rw [if_pos rfl]
      exact .timedOut hwaiting
    · obtain ⟨hto, -⟩ | ⟨k, d, hd, hto, rfl, habout, hleft⟩ :=
        offers_cases (hoffers _ hmem) n (payload.take defaultSize)
      · cases hto
      · dsimp only at hsize ⊢
        rw [if_neg hsize, habout, hleft]
        exact .received hwaiting hd hto

theorem effect_of_pong {recvs : List (RecvfromRet (Option Nat))} {kernel : List SysRet}
    (h : s.pong strerror peer recvs kernel = some s') : s.Effect msgs s' := by
  rw [pong] at h
  split_ifs at h with hready
  obtain ⟨r, hreceive, hr⟩ := Option.bind_eq_some_iff.1 h
  rcases r with e | r
  · cases hr
    exact .lost (.refl _)
  · obtain ⟨source, payload, hmem, rfl⟩ := receiveInternal_blocking (by decide) hreceive
    obtain ⟨sent, -, hs'⟩ := Option.map_eq_some_iff.1 hr
    obtain ⟨-, habout, hleft⟩ | ⟨k, d, hd, hto, rfl, habout, hleft⟩ :=
      offers_cases (hready.2 _ hmem) (payload.take defaultSize).length (payload.take defaultSize)
    · -- someone else's
      rcases sent with e | sent
      · obtain rfl := hs'
        dsimp only
        rw [hleft]
        exact .lost (.refl _)
      · obtain rfl := hs'
        dsimp only
        rw [hleft, habout, Option.map_none, Option.toList_none, ite_self, List.append_nil]
        exact .served (.refl _) none
    · have hsub : (s.flight.eraseIdx k).Sublist s.flight := List.eraseIdx_sublist _ _
      rcases sent with e | _ | _
      · obtain rfl := hs'
        dsimp only
        rw [hleft]
        exact .lost hsub
      · obtain rfl := hs'
        dsimp only
        rw [hleft, habout, if_neg Bool.false_ne_true, List.append_nil]
        exact .served hsub (some d.about)
      · obtain rfl := hs'
        dsimp only
        rw [hleft, habout, if_pos rfl]
        exact .replied hd hto

theorem effect_of_step (h : s.step strerror peer msgs move = some s') :
    s.Effect msgs s' ∨ ∃ k, move = .duplicate k ∧
      s' = { s with flight := s.flight ++ s.flight[k]?.toList } := by
  cases move with
  | send kernel => exact .inl (effect_of_ping h)
  | receive selects recvs => exact .inl (effect_of_await h)
  | reply recvs kernel => exact .inl (effect_of_pong h)
  | lose k =>
    cases h
    exact .inl (.lost (List.eraseIdx_sublist _ _))
  | duplicate k =>
    cases h
    exact .inr ⟨k, rfl, rfl⟩

/-! ### What the replies are about -/

/-- The reply of `pong` to the message with number `about`. -/
def Answers (msgs : List Text) (served : List (Option Nat)) (about : Nat) (payload : Text) : Prop :=
  ∃ msg n, msgs[about]? = some msg ∧ served[n]? = some (some about) ∧
    payload = replyText (msg.take defaultSize) n

/-- The number of messages that `ping` has sent. -/
def sent (s : PingPong) : Nat := s.printed.length + s.waiting.toNat

/-- Every datagram in flight is what its mark says, and so is everything that was printed. -/
structure Sound (msgs : List Text) (s : PingPong) : Prop where
  sent : ∀ d ∈ s.flight, d.about < s.sent
  request : ∀ d ∈ s.flight, d.toPong = true → msgs[d.about]? = some d.payload
  reply : ∀ d ∈ s.flight, d.toPong = false → Answers msgs s.served d.about d.payload
  printed : ∀ i (e : Nat × Text), s.printed[i]? = some (some e) → e.1 ≤ i ∧
    ∃ payload, Answers msgs s.served e.1 payload ∧ e.2 = payload.take defaultSize

theorem Answers.append {served : List (Option Nat)} {about : Nat} {payload : Text}
    (h : Answers msgs served about payload) (more : List (Option Nat)) :
    Answers msgs (served ++ more) about payload := by
  obtain ⟨msg, n, hmsg, hn, hpayload⟩ := h
  obtain ⟨hlt, -⟩ := List.getElem?_eq_some_iff.1 hn
  exact ⟨msg, n, hmsg, by rwa [List.getElem?_append_left hlt], hpayload⟩

theorem sound_start : Sound msgs start :=
  ⟨nofun, nofun, nofun, nofun⟩

theorem Sound.mono (h : s.Sound msgs) {flight : List Datagram} (hflight : flight ⊆ s.flight)
    (more : List (Option Nat)) (b c : Bool) :
    Sound msgs ⟨flight, s.printed, s.waiting, s.served ++ more, b, c⟩ where
  sent d hd := h.sent d (hflight hd)
  request d hd := h.request d (hflight hd)
  reply d hd hto := (h.reply d (hflight hd) hto).append more
  printed i e he := by
    obtain ⟨hle, payload, hanswers, htext⟩ := h.printed i e he
    exact ⟨hle, payload, hanswers.append more, htext⟩

theorem Sound.push (h : s.Sound msgs) {d : Datagram} (hsent : d.about < s.sent)
    (hrequest : d.toPong = true → msgs[d.about]? = some d.payload)
    (hreply : d.toPong = false → Answers msgs s.served d.about d.payload) :
    Sound msgs { s with flight := s.flight ++ [d] } where
  sent e he := by
    obtain he | he := List.mem_append.1 he
    · exact h.sent e he
    · rwa [List.mem_singleton.1 he]
  request e he := by
    obtain he | he := List.mem_append.1 he
    · exact h.request e he
    · rwa [List.mem_singleton.1 he]
  reply e he := by
    obtain he | he := List.mem_append.1 he
    · exact h.reply e he
    · rwa [List.mem_singleton.1 he]
  printed := h.printed

theorem Sound.wait (h : s.Sound msgs) (hidle : s.waiting = false) (b c : Bool) :
    Sound msgs ⟨s.flight, s.printed, true, s.served, b, c⟩ where
  sent d hd := by
    have hlt := h.sent d hd
    rw [PingPong.sent, hidle] at hlt
    exact Nat.lt_succ_of_lt hlt
  request := h.request
  reply := h.reply
  printed := h.printed

theorem Sound.print (h : s.Sound msgs) (hwaiting : s.waiting = true)
    {entry : Option (Nat × Text)} (hentry : ∀ e ∈ entry, e.1 < s.sent ∧
      ∃ payload, Answers msgs s.served e.1 payload ∧ e.2 = payload.take defaultSize) (b c : Bool) :
    Sound msgs ⟨s.flight, s.printed ++ [entry], false, s.served, b, c⟩ where
  sent d hd := by
    have hlt := h.sent d hd
    rw [PingPong.sent, hwaiting] at hlt
    simpa [PingPong.sent] using hlt
  request := h.request
  reply := h.reply
  printed i e he := by
    obtain hlt | rfl | hgt := Nat.lt_trichotomy i s.printed.length
    · rw [List.getElem?_append_left hlt] at he
      exact h.printed i e he
    · rw [List.getElem?_concat_length] at he
      obtain ⟨hlt, hanswers⟩ := hentry e (Option.some.inj he)
      rw [PingPong.sent, hwaiting] at hlt
      exact ⟨Nat.le_of_lt_succ hlt, hanswers⟩
    · rw [List.getElem?_eq_none] at he
      · cases he
      · rw [List.length_append]
        exact hgt

theorem Sound.of_effect (h : s.Sound msgs) (heffect : s.Effect msgs s') : s'.Sound msgs := by
  cases heffect with
  | @sent msg b c hidle hmsg =>
    apply (h.wait hidle b c).push (d := ⟨true, s.printed.length, msg⟩)
    · exact Nat.lt_succ_self _
    · exact fun _ => hmsg
    · exact fun hto => absurd hto (by simp)
  | refused hidle => exact h.wait hidle _ _
  | timedOut hwaiting => exact h.print hwaiting (by simp) _ _
  | @received k d b c hwaiting hd hto =>
    have hmem := List.mem_of_getElem? hd
    have hentry : ∀ e ∈ some (d.about, d.payload.take defaultSize), e.1 < s.sent ∧
        ∃ payload, Answers msgs s.served e.1 payload ∧ e.2 = payload.take defaultSize := by
      intro e he
      obtain rfl := Option.some.inj he
      exact ⟨h.sent d hmem, d.payload, h.reply d hmem hto, rfl⟩
    simpa using (h.print hwaiting hentry b c).mono List.eraseIdx_subset [] b c
  | @replied k d b c hd hto =>
    have hmem := List.mem_of_getElem? hd
    have hsub : s.flight.eraseIdx k ⊆ s.flight := List.eraseIdx_subset
    have hserved := h.mono hsub [some d.about] b c
    apply hserved.push (d := ⟨false, d.about, _⟩)
    · exact h.sent d hmem
    · exact fun hto' => absurd hto' (by simp)
    · exact fun _ => ⟨d.payload, s.served.length, h.request d hmem hto, by simp, rfl⟩
  | served hsub o => exact h.mono hsub.subset [o] _ _
  | lost hsub => simpa using h.mono hsub.subset [] _ _

theorem sound_of_reachable (h : (lts strerror peer msgs).Reachable s) : s.Sound msgs := by
  refine h.invariant (fun s hs => hs ▸ sound_start) fun s move s' _ hs hstep => ?_
  obtain heffect | ⟨k, -, rfl⟩ := effect_of_step hstep
  · exact hs.of_effect heffect
  · cases hk : s.flight[k]? with
    | none => simpa using hs
    | some d =>
      have hmem := List.mem_of_getElem? hk
      exact hs.push (hs.sent d hmem) (hs.request d hmem) (hs.reply d hmem)

/-! ### Without duplicates -/

/-- The messages that the replies were about which `ping` has printed. -/
def answered (s : PingPong) : List Nat := s.printed.filterMap (Option.map Prod.fst)

/-- A message is in one place at most, as long as no datagram is duplicated; and until a reply times
out every reply is about the message before it. -/
structure Steady (s : PingPong) : Prop where
  nodup : (s.flight.map Datagram.about ++ s.answered).Nodup
  inStep : ∀ i (e : Nat × Text), none ∉ s.printed.take i → s.printed[i]? = some (some e) → e.1 = i

theorem mem_answered {j : Nat} : j ∈ s.answered ↔ ∃ text, some (j, text) ∈ s.printed := by
  simp [answered]

theorem Sound.answered_lt (h : s.Sound msgs) {j : Nat} (hj : j ∈ s.answered) :
    j < s.printed.length := by
  obtain ⟨text, hmem⟩ := mem_answered.1 hj
  obtain ⟨i, hi⟩ := List.mem_iff_getElem?.1 hmem
  obtain ⟨hlt, -⟩ := List.getElem?_eq_some_iff.1 hi
  exact Nat.lt_of_le_of_lt (h.printed i _ hi).1 hlt

theorem perm_eraseIdx {k : Nat} {d : Datagram} (hd : s.flight[k]? = some d) :
    s.flight.Perm (d :: s.flight.eraseIdx k) := by
  obtain ⟨hlt, rfl⟩ := List.getElem?_eq_some_iff.1 hd
  exact (List.getElem_cons_eraseIdx_perm hlt).symm

theorem Steady.inStep_append (h : s.Steady) {entry : Option (Nat × Text)}
    (hentry : none ∉ s.printed → ∀ e ∈ entry, e.1 = s.printed.length) (i : Nat) (e : Nat × Text)
    (hnone : none ∉ (s.printed ++ [entry]).take i)
    (he : (s.printed ++ [entry])[i]? = some (some e)) : e.1 = i := by
  obtain hlt | rfl | hgt := Nat.lt_trichotomy i s.printed.length
  · rw [List.getElem?_append_left hlt] at he
    rw [List.take_append_of_le_length (Nat.le_of_lt hlt)] at hnone
    exact h.inStep i e hnone he
  · rw [List.getElem?_concat_length] at he
    rw [List.take_left] at hnone
    exact hentry hnone e (Option.some.inj he)
  · rw [List.getElem?_eq_none] at he
    · cases he
    · rw [List.length_append]
      exact hgt

theorem Steady.about_eq (h : s.Steady) (hsound : s.Sound msgs) (hwaiting : s.waiting = true)
    {d : Datagram} (hd : d ∈ s.flight) (hnone : none ∉ s.printed) :
    d.about = s.printed.length := by
  have hlt := hsound.sent d hd
  rw [sent, hwaiting] at hlt
  obtain hlt | heq := Nat.lt_or_eq_of_le (Nat.le_of_lt_succ hlt)
  · -- that message was answered already
    have hentry : s.printed[d.about] ∈ s.printed := List.getElem_mem hlt
    cases hprinted : s.printed[d.about] with
    | none =>
      rw [hprinted] at hentry
      exact absurd hentry hnone
    | some e =>
      rw [hprinted] at hentry
      have habout : e.1 = d.about := by
        apply h.inStep d.about e
        · exact fun hmem => hnone (List.mem_of_mem_take hmem)
        · rw [List.getElem?_eq_getElem hlt, hprinted]
      have hdisjoint := (List.nodup_append.1 h.nodup).2.2
      refine absurd rfl (hdisjoint d.about (List.mem_map_of_mem hd) d.about ?_)
      exact mem_answered.2 ⟨e.2, habout ▸ hentry⟩
  · exact heq

theorem Steady.of_effect (h : s.Steady) (hsound : s.Sound msgs) (heffect : s.Effect msgs s') :
    s'.Steady := by
  cases heffect with
  | @sent msg b c hidle hmsg =>
    refine ⟨?_, h.inStep⟩
    have hnew : s.printed.length ∉ s.flight.map Datagram.about ++ s.answered := by
      intro hmem
      obtain hflight | hanswered := List.mem_append.1 hmem
      · obtain ⟨d, hd, habout⟩ := List.mem_map.1 hflight
        have hlt := hsound.sent d hd
        rw [sent, hidle, habout] at hlt
        exact absurd hlt (Nat.lt_irrefl _)
      · exact absurd (hsound.answered_lt hanswered) (Nat.lt_irrefl _)
    show ((s.flight ++ [_]).map Datagram.about ++ s.answered).Nodup
    rw [List.map_append, List.append_assoc]
    exact (List.perm_middle.nodup_iff).2 (List.nodup_cons.2 ⟨hnew, h.nodup⟩)
  | refused hidle => exact ⟨h.nodup, h.inStep⟩
  | timedOut hwaiting =>
    refine ⟨?_, h.inStep_append fun _ => by simp⟩
    have hsame : (s.printed ++ [none]).filterMap (Option.map Prod.fst) = s.answered := by
      simp [answered]
    rw [answered, hsame]
    exact h.nodup
  | @received k d b c hwaiting hd hto =>
    constructor
    · have hmore : (s.printed ++ [some (d.about, d.payload.take defaultSize)]).filterMap
          (Option.map Prod.fst) = s.answered ++ [d.about] := by
        simp [answered]
      have hperm : (s.flight.map Datagram.about ++ s.answered).Perm
          (d.about :: ((s.flight.eraseIdx k).map Datagram.about ++ s.answered)) :=
        ((perm_eraseIdx hd).map Datagram.about).append_right _
      rw [answered, hmore, ← List.append_assoc]
      exact (List.perm_append_singleton _ _).nodup_iff.2 (hperm.nodup_iff.1 h.nodup)
    · refine h.inStep_append fun hnone e he => ?_
      obtain rfl := Option.some.inj he
      exact h.about_eq hsound hwaiting (List.mem_of_getElem? hd) hnone
  | @replied k d b c hd hto =>
    refine ⟨?_, h.inStep⟩
    have hperm : (s.flight.map Datagram.about).Perm
        ((s.flight.eraseIdx k).map Datagram.about ++ [d.about]) :=
      ((perm_eraseIdx hd).map Datagram.about).trans (List.perm_append_singleton _ _).symm
    rw [List.map_append]
    exact (hperm.append_right s.answered).nodup_iff.1 h.nodup
  | served hsub o => exact ⟨h.nodup.sublist ((hsub.map _).append_right _), h.inStep⟩
  | lost hsub => exact ⟨h.nodup.sublist ((hsub.map _).append_right _), h.inStep⟩

def NoDuplicate (_ : PingPong) (move : PingPongMove) : Prop := ∀ k, move ≠ .duplicate k

theorem steady_of_reachable (h : ((lts strerror peer msgs).restrict NoDuplicate).Reachable s) :
    s.Steady := by
  refine h.invariant (fun s hs => hs ▸ ⟨List.nodup_nil, nofun⟩) fun s move s' hreach hs hstep => ?_
  obtain heffect | ⟨k, rfl, -⟩ := effect_of_step hstep.2
  · exact hs.of_effect (sound_of_reachable hreach.of_restrict) heffect
  · exact absurd rfl (hstep.1 k)

/-! ### What is printed -/

def oneReply : List PingPongMove :=
  [.send [.fail EINTR, .ok 1], .reply [.fail EINTR, .datagram (some 0) ['a']] [.ok 10],
    .receive [.ok 1] [.fail EINTR, .datagram (some 0) "Re: a (#0)".toList]]

theorem oneReply_run :
    oneReply.foldlM (step (fun _ => "") "" [['a']]) start =
      some ⟨[], [some (0, "Re: a (#0)".toList)], false, [some 0], false, false⟩ := by
  decide +kernel

/-- Whatever the network does: a reply that `ping` prints is the one that `pong` made for this or an
earlier message, under the number that it has among all that `pong` served. -/
theorem replies_answer (h : (lts strerror peer msgs).Reachable s) {i j : Nat} {text : Text}
    (hprinted : s.printed[i]? = some (some (j, text))) :
    j ≤ i ∧ ∃ msg n, msgs[j]? = some msg ∧ s.served[n]? = some (some j) ∧
      text = (replyText (msg.take defaultSize) n).take defaultSize := by
  obtain ⟨hle, payload, ⟨msg, n, hmsg, hn, rfl⟩, htext⟩ :=
    (sound_of_reachable h).printed i (j, text) hprinted
  exact ⟨hle, msg, n, hmsg, hn, htext⟩

theorem replies_answer_one :
    ∃ msg n, [['a']][0]? = some msg ∧ [some 0][n]? = some (some 0) ∧
      "Re: a (#0)".toList = (replyText (msg.take defaultSize) n).take defaultSize :=
  (replies_answer (.foldlM (fun _ _ _ h => h) (.init rfl) oneReply_run) (i := 0) rfl).2

/-- Where the network duplicates nothing, no two replies that `ping` prints are about the same
message, and as long as none has timed out, each is about the message that it is printed for. -/
theorem replies_in_step (h : ((lts strerror peer msgs).restrict NoDuplicate).Reachable s) :
    s.answered.Nodup ∧
      ∀ i j text, none ∉ s.printed.take i → s.printed[i]? = some (some (j, text)) → j = i := by
  have hsteady := steady_of_reachable h
  refine ⟨(List.nodup_append.1 hsteady.nodup).2.1, fun i j text hnone hprinted => ?_⟩
  exact hsteady.inStep i (j, text) hnone hprinted

theorem replies_in_step_one :
    ((lts (fun _ => "") "" [['a']]).restrict NoDuplicate).Reachable
        ⟨[], [some (0, "Re: a (#0)".toList)], false, [some 0], false, false⟩ ∧
      answered ⟨[], [some (0, "Re: a (#0)".toList)], false, [some 0], false, false⟩ = [0] ∧
      [0].Nodup := by
  have hreach : ((lts (fun _ => "") "" [['a']]).restrict NoDuplicate).Reachable
      ⟨[], [some (0, "Re: a (#0)".toList)], false, [some 0], false, false⟩ := by
    have hrun : (oneReply.take 3).foldlM (step (fun _ => "") "" [['a']]) start = some _ :=
      oneReply_run
    refine Lts.Reachable.restrict_foldlM (.init rfl) (fun _ _ _ h => h) ?_ 3 hrun
    intro n u move hmove _ k hk
    have hmem : move ∈ oneReply := List.mem_of_getElem? hmove
    simp [oneReply, hk] at hmem
  exact ⟨hreach, rfl, (replies_in_step hreach).1⟩

/-! ### Out of step -/

/-- The reply to a message that `pong` served as the one with the same number. -/
def lateReply (msgs : List Text) (j : Nat) : Text :=
  replyText ((msgs.getD j []).take defaultSize) j

/-- `ping` has given up its first message, and printed for each other one the reply to the one
before it. The last reply is still in flight. -/
def lagging (msgs : List Text) (i : Nat) : PingPong where
  flight := [⟨false, i, lateReply msgs i⟩]
  printed := none :: (List.range i).map fun j => some (j, (lateReply msgs j).take defaultSize)
  waiting := false
  served := (List.range (i + 1)).map some
  pingOver := false
  pongOver := false

/-- No datagram overtakes another one on its way to the program that receives. -/
def InTurn (s : PingPong) (toPong : Bool) (recvs : List (RecvfromRet (Option Nat))) : Prop :=
  ∀ k payload, .datagram (some k) payload ∈ recvs → ∀ i < k, s.arriving toPong i = none

/-- The network loses, duplicates and reorders nothing. -/
def Orderly (s : PingPong) : PingPongMove → Prop
  | .send _ => True
  | .receive _ recvs => s.InTurn false recvs
  | .reply recvs _ => s.InTurn true recvs
  | .lose _ | .duplicate _ => False

theorem send_accepted (strerror : Nat → String) (what : String) (n : Nat) :
    DatagramSocket.send strerror what n [.ok n] = some (.ok true) := by
  simp [DatagramSocket.send, sysRetRepeat]

theorem receive_arrived (strerror : Nat → String) (t : ℚ) (source : Option Nat) (payload : Text) :
    receiveInternal strerror t defaultSize [.ok 1] [.datagram source payload] =
      some (.ok ⟨(payload.take defaultSize).length, some source, payload.take defaultSize⟩) := by
  rw [receiveInternal]
  split_ifs <;> rfl

theorem receive_blocking (strerror : Nat → String) (source : Option Nat) (payload : Text) :
    receiveInternal strerror noTimeout defaultSize [] [.datagram source payload] =
      some (.ok ⟨(payload.take defaultSize).length, some source, payload.take defaultSize⟩) := by
  rw [receiveInternal, if_neg (by decide)]
  rfl

theorem length_take_ne_timeout (payload : Text) : (payload.take defaultSize).length ≠ timeout := by
  have hle : (payload.take defaultSize).length ≤ defaultSize := List.length_take_le _ _
  exact Nat.ne_of_lt (Nat.lt_of_le_of_lt hle (by decide))

theorem orderly_send {kernel : List SysRet} : s.Orderly (.send kernel) := trivial

theorem inTurn_datagram {toPong : Bool} {k : Nat} {payload : Text}
    (h : ∀ i < k, s.arriving toPong i = none) : s.InTurn toPong [.datagram (some k) payload] := by
  intro j p hmem
  cases List.mem_singleton.1 hmem
  exact h

theorem orderly_reply {k : Nat} {payload : Text} {kernel : List SysRet}
    (h : ∀ i < k, s.arriving true i = none) :
    s.Orderly (.reply [.datagram (some k) payload] kernel) :=
  inTurn_datagram h

theorem orderly_receive {selects : List SysRet} {payload : Text} :
    s.Orderly (.receive selects [.datagram (some 0) payload]) :=
  inTurn_datagram fun i hi => absurd hi (Nat.not_lt_zero i)

theorem send_step {f : List Datagram} {printed : List (Option (Nat × Text))}
    {served : List (Option Nat)} {msg : Text} (hmsg : msgs[printed.length]? = some msg) :
    step strerror peer msgs ⟨f, printed, false, served, false, false⟩ (.send [.ok msg.length]) =
      some ⟨f ++ [⟨true, printed.length, msg⟩], printed, true, served, false, false⟩ := by
  simp [step, ping, hmsg, send_accepted]

theorem reply_step {f : List Datagram} {printed : List (Option (Nat × Text))}
    {served : List (Option Nat)} {waiting : Bool} {j : Nat} {msg reply : Text}
    (hreply : reply = replyText (msg.take defaultSize) served.length) :
    step strerror peer msgs ⟨f ++ [⟨true, j, msg⟩], printed, waiting, served, false, false⟩
        (.reply [.datagram (some f.length) msg] [.ok reply.length]) =
      some ⟨f ++ [⟨false, j, reply⟩], printed, waiting, served ++ [some j], false, false⟩ := by
  have harrives : arriving ⟨f ++ [⟨true, j, msg⟩], printed, waiting, served, false, false⟩ true
      f.length = some ⟨true, j, msg⟩ := arriving_eq_some.2 ⟨by simp, rfl⟩
  simp [step, pong, Offers, harrives, receive_blocking, ← hreply, send_accepted, about, left,
    List.eraseIdx_append_of_length_le]

theorem receive_step {f : Datagram} (hf : f.toPong = false) {fs : List Datagram}
    {printed : List (Option (Nat × Text))} {served : List (Option Nat)} :
    step strerror peer msgs ⟨f :: fs, printed, true, served, false, false⟩
        (.receive [.ok 1] [.datagram (some 0) f.payload]) =
      some ⟨fs, printed ++ [some (f.about, f.payload.take defaultSize)], false, served, false,
        false⟩ := by
  have harrives : arriving ⟨f :: fs, printed, true, served, false, false⟩ false 0 = some f :=
    arriving_eq_some.2 ⟨rfl, hf⟩
  have hsize := length_take_ne_timeout f.payload
  simp only [step, await, List.forall_mem_singleton, Offers, harrives, Option.map_some,
    receive_arrived, if_neg hsize]
  rfl

theorem round_reachable {f : Datagram} (hf : f.toPong = false)
    {printed : List (Option (Nat × Text))} {served : List (Option Nat)} {msg reply : Text}
    (hmsg : msgs[printed.length]? = some msg)
    (hreply : reply = replyText (msg.take defaultSize) served.length)
    (h : ((lts strerror peer msgs).restrict Orderly).Reachable
      ⟨[f], printed, false, served, false, false⟩) :
    ((lts strerror peer msgs).restrict Orderly).Reachable
      ⟨[⟨false, printed.length, reply⟩],
        printed ++ [some (f.about, f.payload.take defaultSize)], false,
        served ++ [some printed.length], false, false⟩ := by
  have hasked := h.step ⟨orderly_send, send_step hmsg⟩
  refine (hasked.step ⟨orderly_reply fun i hi => ?_, reply_step (f := [f]) hreply⟩).step
    ⟨orderly_receive, receive_step hf⟩
  obtain rfl : i = 0 := Nat.lt_one_iff.1 hi
  simp [arriving, hf]

theorem firstLate_reachable (hmsgs : msgs ≠ []) :
    ((lts strerror peer msgs).restrict Orderly).Reachable (lagging msgs 0) := by
  obtain ⟨msg, rest, rfl⟩ := List.exists_cons_of_ne_nil hmsgs
  have hlate : step strerror peer (msg :: rest)
      ⟨[⟨false, 0, lateReply (msg :: rest) 0⟩], [], true, [some 0], false, false⟩
      (.receive [.ok 0] []) = some (lagging (msg :: rest) 0) := by
    have hreceive : receiveInternal strerror replyTimeout defaultSize [.ok 0]
        ([] : List (RecvfromRet (Option Nat))) = some (.ok ⟨timeout, none, []⟩) := by
      rw [receiveInternal, if_pos (by decide +kernel)]
      rfl
    simp [step, await, hreceive, lagging, left]
  have hstart : ((lts strerror peer (msg :: rest)).restrict Orderly).Reachable start := .init rfl
  have hsend : step strerror peer (msg :: rest) start (.send [.ok msg.length]) =
      some ⟨[⟨true, 0, msg⟩], [], true, [], false, false⟩ := send_step rfl
  have hreply : step strerror peer (msg :: rest) ⟨[⟨true, 0, msg⟩], [], true, [], false, false⟩
      (.reply [.datagram (some 0) msg] [.ok (lateReply (msg :: rest) 0).length]) =
      some ⟨[⟨false, 0, lateReply (msg :: rest) 0⟩], [], true, [some 0], false, false⟩ :=
    reply_step (f := []) rfl
  have hasked := hstart.step ⟨orderly_send, hsend⟩
  have hanswered :=
    hasked.step ⟨orderly_reply fun i hi => absurd hi (Nat.not_lt_zero i), hreply⟩
  refine hanswered.step ⟨?_, hlate⟩
  intro k payload hmem
  cases hmem

theorem lagging_reachable (hmsgs : msgs ≠ []) {m : Nat} (hm : m < msgs.length) :
    ((lts strerror peer msgs).restrict Orderly).Reachable (lagging msgs m) := by
  induction m with
  | zero => exact firstLate_reachable hmsgs
  | succ m ih =>
    have hlen : (lagging msgs m).printed.length = m + 1 := by simp [lagging]
    have hmsg : msgs[(lagging msgs m).printed.length]? = some (msgs.getD (m + 1) []) := by
      rw [hlen, List.getD_eq_getElem?_getD, List.getElem?_eq_getElem hm]
      rfl
    have hreply : lateReply msgs (m + 1) =
        replyText ((msgs.getD (m + 1) []).take defaultSize) (lagging msgs m).served.length := by
      simp [lateReply, lagging]
    have hround := round_reachable (f := ⟨false, m, lateReply msgs m⟩) rfl hmsg hreply
      (ih (Nat.lt_of_succ_lt hm))
    rw [hlen] at hround
    have hnext : lagging msgs (m + 1) = ⟨[⟨false, m + 1, lateReply msgs (m + 1)⟩],
        (lagging msgs m).printed ++ [some (m, (lateReply msgs m).take defaultSize)], false,
        (lagging msgs m).served ++ [some (m + 1)], false, false⟩ := by
      simp [lagging, List.range_succ]
    rw [hnext]
    exact hround

/-- One reply that comes too late, and `ping` prints every later reply for the wrong message,
although the network loses, duplicates and reorders nothing. -/
theorem out_of_step (strerror : Nat → String) (peer : String) (hmsgs : msgs ≠ []) :
    ∃ s, ((lts strerror peer msgs).restrict Orderly).Reachable s ∧
      s.printed = none :: (List.range (msgs.length - 1)).map fun j =>
        some (j, (lateReply msgs j).take defaultSize) := by
  have hlt : msgs.length - 1 < msgs.length := by
    have hpos := List.length_pos_iff.2 hmsgs
    omega
  exact ⟨_, lagging_reachable hmsgs hlt, rfl⟩

theorem out_of_step_two :
    ∃ s, ((lts (fun _ => "") "" [['a'], ['b']]).restrict Orderly).Reachable s ∧
      s.printed = [none, some (0, "Re: a (#0)".toList)] := by
  obtain ⟨s, hreach, hprinted⟩ := out_of_step (fun _ => "") "" (List.cons_ne_nil ['a'] [['b']])
  exact ⟨s, hreach, hprinted.trans (by decide +kernel)⟩

end PingPong

end Nanonet
