import Nanonet.Base.Stream

/-!
# Bounded `getline`

`getline` of `util.cpp`, which reads at most `maxsize` characters of a line, and the loops around it.
A call that succeeds takes a line and, if the line is shorter than `maxsize`, its newline; a call
that fails takes what is left (`getline_cases`). So the lines and what is left make up the whole
stream (`getline_splits`).
-/

namespace Nanonet

/-- The `while` loop of `getline`: `i` characters are in `s`, and `rest` is left in the stream. -/
def getlineLoop (maxsize i : Int) (s : Text) : Text → IStream × Text
  | [] => if i < maxsize then (⟨[], true, true⟩, s) else (⟨[], false, false⟩, s)
  | c :: cs =>
    if i < maxsize then
      if isnewline c then (⟨cs, false, false⟩, s) else getlineLoop maxsize (i + 1) (s ++ [c]) cs
    else (⟨c :: cs, false, false⟩, s)

/-- `util::getline( is, s, maxsize )`, with the stream converted to `bool`. -/
def getline (maxsize : Int) : Call (IStream × Text) Bool := fun (is, s) =>
  if 0 < maxsize then
    if is.good then
      let st := getlineLoop maxsize 0 [] is.rest
      .ok (!st.1.failbit) st
    else .ok false ({ is with failbit := true }, s)
  else .error (.assertionFailure "maxsize > 0") (is, s)

/-- `while( read( is, s ) ) { .. }`: the strings that the body gets. -/
def deliver (read : Call (IStream × Text) Bool) : Nat → Call (IStream × Text) (List Text)
  | 0 => fun st => .error .outOfFuel st
  | fuel + 1 => do
    if ← read then
      let (_, s) ← get
      let ss ← deliver read fuel
      pure (s :: ss)
    else pure []

/-! ### One call -/

/-- A line, with a newline if it is shorter than `maxsize`. -/
def terminated (maxsize : Int) (line : Text) : Text :=
  if (line.length : Int) < maxsize then line ++ ['\n'] else line

theorem getlineLoop_cases {maxsize i : Int} {s : Text} (hi : i = s.length) (hle : i ≤ maxsize)
    (text : Text) :
    (∃ line rest, '\n' ∉ line ∧ ((s ++ line).length : Int) ≤ maxsize ∧
      s ++ text = terminated maxsize (s ++ line) ++ rest ∧
      getlineLoop maxsize i s text = (.ofText rest, s ++ line)) ∨
    ('\n' ∉ text ∧ ((s ++ text).length : Int) < maxsize ∧
      getlineLoop maxsize i s text = (⟨[], true, true⟩, s ++ text)) := by
  induction text generalizing i s with
  | nil =>
    by_cases hlt : i < maxsize
    · exact .inr ⟨by simp, by simpa [← hi] using hlt, by simp [getlineLoop, hlt]⟩
    · refine .inl ⟨[], [], by simp, by simpa [← hi] using hle, ?_, ?_⟩
      · simp [terminated, ← hi, hlt]
      · simp [getlineLoop, hlt, IStream.ofText]
  | cons c cs ih =>
    by_cases hlt : i < maxsize
    · by_cases hc : '\n' = c
      · subst hc
        refine .inl ⟨[], cs, by simp, by simpa [← hi] using hle, ?_, ?_⟩
        · simp [terminated, ← hi, hlt]
        · simp [getlineLoop, hlt, isnewline, IStream.ofText]
      · have hloop : getlineLoop maxsize i s (c :: cs) =
            getlineLoop maxsize (i + 1) (s ++ [c]) cs := by
          simp [getlineLoop, hlt, isnewline, hc]
        have happend : ∀ line : Text, s ++ [c] ++ line = s ++ c :: line := by simp
        rw [hloop]
        obtain ⟨line, rest, hline, hlen, htext, hrun⟩ | ⟨hcs, hlen, hrun⟩ :=
          ih (i := i + 1) (s := s ++ [c]) (by simp [hi]) (by omega)
        · simp only [happend] at hlen htext hrun
          exact .inl ⟨c :: line, rest, by simp [hc, hline], hlen, htext, hrun⟩
        · simp only [happend] at hlen hrun
          exact .inr ⟨by simp [hc, hcs], hlen, hrun⟩
    · refine .inl ⟨[], c :: cs, by simp, by simpa [← hi] using hle, ?_, ?_⟩
      · simp [terminated, ← hi, hlt]
      · simp [getlineLoop, hlt, IStream.ofText]

theorem getline_cases {maxsize : Int} (h : 0 < maxsize) (text s : Text) :
    (∃ line rest, '\n' ∉ line ∧ (line.length : Int) ≤ maxsize ∧
      text = terminated maxsize line ++ rest ∧
      getline maxsize (.ofText text, s) = .ok true (.ofText rest, line)) ∨
    ('\n' ∉ text ∧ (text.length : Int) < maxsize ∧
      getline maxsize (.ofText text, s) = .ok false (⟨[], true, true⟩, text)) := by
  have hgetline : getline maxsize (.ofText text, s) =
      .ok (!(getlineLoop maxsize 0 [] text).1.failbit) (getlineLoop maxsize 0 [] text) := by
    simp [getline, h, IStream.ofText, IStream.good]
  obtain ⟨line, rest, hline, hlen, htext, hrun⟩ | ⟨hnot, hlen, hrun⟩ :=
    getlineLoop_cases (i := 0) (s := []) rfl (Int.le_of_lt h) text
  · exact .inl ⟨line, rest, hline, hlen, htext, by rw [hgetline, hrun]; rfl⟩
  · exact .inr ⟨hnot, hlen, by rw [hgetline, hrun]; rfl⟩

theorem terminated_length_pos {maxsize : Int} (h : 0 < maxsize) (line : Text) :
    0 < (terminated maxsize line).length := by
  unfold terminated
  split_ifs with hlt
  · simp
  · omega

/-! ### The loop -/

section deliver

variable {read : Call (IStream × Text) Bool} {st st' : IStream × Text} {fuel : Nat}

theorem deliver_stop (h : read st = .ok false st') : deliver read (fuel + 1) st = .ok [] st' := by
  rw [deliver, Call.bind_ok h]
  rfl

theorem deliver_step {is : IStream} {s : Text} {ss : List Text} (h : read st = .ok true (is, s))
    (hrest : deliver read fuel (is, s) = .ok ss st') :
    deliver read (fuel + 1) st = .ok (s :: ss) st' := by
  rw [deliver, Call.bind_ok h]
  show (deliver read fuel >>= fun ss => pure (s :: ss)) (is, s) = _
  rw [Call.bind_ok hrest]
  rfl

theorem deliver_cases {ss : List Text} (h : deliver read (fuel + 1) st = .ok ss st') :
    (read st = .ok false st' ∧ ss = []) ∨
      ∃ is s ss', read st = .ok true (is, s) ∧ deliver read fuel (is, s) = .ok ss' st' ∧
        ss = s :: ss' := by
  obtain ⟨b, ⟨is, s⟩, hread, hrest⟩ := Call.of_bind_ok h
  cases b with
  | false =>
    obtain ⟨rfl, rfl⟩ : [] = ss ∧ (is, s) = st' := by
      simpa [Call.pure_apply] using hrest
    exact .inl ⟨hread, rfl⟩
  | true =>
    obtain ⟨ss', st'', hrun, hpure⟩ := Call.of_bind_ok
      (show (deliver read fuel >>= fun ss => pure (s :: ss)) (is, s) = _ from hrest)
    obtain ⟨rfl, rfl⟩ : s :: ss' = ss ∧ st'' = st' := by
      simpa [Call.pure_apply] using hpure
    exact .inr ⟨is, s, ss', hread, hrun, rfl⟩

end deliver

/-- The strings that the calls delivered, with their newlines. -/
def terminatedAll (maxsize : Int) (ss : List Text) : Text := ss.flatMap (terminated maxsize)

/-- The loop ends with the first call that fails, and the lines and what that call left in `s` make
up the stream. -/
theorem deliver_getline {maxsize : Int} (h : 0 < maxsize) (fuel : Nat) (text s : Text)
    (hfuel : text.length < fuel) : ∃ ss r,
      deliver (getline maxsize) fuel (.ofText text, s) = .ok ss (⟨[], true, true⟩, r) ∧
      (∀ line ∈ ss, '\n' ∉ line ∧ (line.length : Int) ≤ maxsize) ∧
      '\n' ∉ r ∧ (r.length : Int) < maxsize ∧ text = terminatedAll maxsize ss ++ r := by
  induction fuel generalizing text s with
  | zero => exact absurd hfuel (Nat.not_lt_zero _)
  | succ fuel ih =>
    obtain ⟨line, rest, hline, hlen, rfl, hcall⟩ | ⟨hnot, hlen, hcall⟩ := getline_cases h text s
    · have hpos := terminated_length_pos h line
      rw [List.length_append] at hfuel
      obtain ⟨ss, r, hrun, hss, hr, hrlen, rfl⟩ := ih rest line (by omega)
      refine ⟨line :: ss, r, deliver_step hcall hrun, ?_, hr, hrlen, ?_⟩
      · exact List.forall_mem_cons.2 ⟨⟨hline, hlen⟩, hss⟩
      · simp [terminatedAll]
    · exact ⟨[], text, deliver_stop hcall, by simp, hnot, hlen, rfl⟩

theorem terminatedAll_full {maxsize : Int} {ss : List Text} {r rest : Text}
    (hr : '\n' ∉ r) (hss : ∀ line ∈ ss, '\n' ∉ line)
    (htext : terminatedAll maxsize ss ++ r = '\n' :: rest) : ∃ ss', ss = [] :: ss' := by
  cases ss with
  | nil =>
    obtain rfl : r = '\n' :: rest := htext
    simp at hr
  | cons line ss' =>
    cases line with
    | nil => exact ⟨ss', rfl⟩
    | cons c cs =>
      obtain ⟨tail, htail⟩ : ∃ tail, terminated maxsize (c :: cs) = c :: tail := by
        unfold terminated
        split_ifs
        · exact ⟨cs ++ ['\n'], rfl⟩
        · exact ⟨cs, rfl⟩
      have hc : c = '\n' := by
        rw [terminatedAll, List.flatMap_cons, htail] at htext
        exact (List.cons.inj htext).1
      have hline := hss (c :: cs) (by simp)
      simp [hc] at hline

/-- **Bounded `getline` splits the stream.** The loop over a stream ends. The strings it delivers
have at most `maxsize` characters, what is left has fewer, and none has a newline; the stream is the
strings, each with a newline iff it is shorter than `maxsize`, and then what is left. So a line of
exactly `maxsize` characters is followed by an empty one. -/
theorem getline_splits (maxsize : Int) (h : 0 < maxsize) (text s : Text) (fuel : Nat)
    (hfuel : text.length < fuel) : ∃ ss r,
      deliver (getline maxsize) fuel (.ofText text, s) = .ok ss (⟨[], true, true⟩, r) ∧
      (∀ line ∈ ss, '\n' ∉ line ∧ (line.length : Int) ≤ maxsize) ∧
      ('\n' ∉ r ∧ (r.length : Int) < maxsize) ∧
      text = (ss.flatMap fun line =>
        if (line.length : Int) < maxsize then line ++ ['\n'] else line) ++ r ∧
      ∀ before line after rest, ss = before ++ line :: after → (line.length : Int) = maxsize →
        text = terminatedAll maxsize before ++ line ++ '\n' :: rest → ∃ ss', after = [] :: ss' := by
  obtain ⟨ss, r, hrun, hss, hr, hrlen, htext⟩ := deliver_getline h fuel text s hfuel
  refine ⟨ss, r, hrun, hss, ⟨hr, hrlen⟩, htext, ?_⟩
  rintro before line after rest rfl hfull htext'
  have hline : terminated maxsize line = line := if_neg (by omega)
  have hafter : terminatedAll maxsize after ++ r = '\n' :: rest := by
    rw [htext'] at htext
    simpa [terminatedAll, hline] using htext.symm
  exact terminatedAll_full hr (fun l hl => (hss l (by simp [hl])).1) hafter

/-- A full line, an empty one, and the rest without a newline. -/
theorem getline_splits_full : ∃ ss r,
    deliver (getline 2) 5 (.ofText ['a', 'b', '\n', 'c'], []) = .ok ss (⟨[], true, true⟩, r) ∧
      ['a', 'b', '\n', 'c'] = (ss.flatMap fun line =>
        if (line.length : Int) < 2 then line ++ ['\n'] else line) ++ r :=
  have ⟨ss, r, hrun, _, _, htext, _⟩ :=
    getline_splits 2 (by decide) ['a', 'b', '\n', 'c'] [] 5 (by decide)
  ⟨ss, r, hrun, htext⟩

example : deliver (getline 2) 5 (.ofText ['a', 'b', '\n', 'c'], []) =
    .ok [['a', 'b'], []] (⟨[], true, true⟩, ['c']) := by rfl

end Nanonet
