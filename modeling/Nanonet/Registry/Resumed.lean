import Nanonet.Registry.LineNumbers

/-!
# Line numbers after errors

A lexer can be used after `get_token` has thrown. The newlines that were skipped before the error
are counted, but not the one that ends an unterminated string or follows a backslash in it: the
lines of all later tokens are too small by one then. A token that is put back after a call that
threw comes back with the line of the error. Apart from these two, every token that is returned has
the line its text starts on (`LexerCalls.placed`), and so has every pair that is read from such a
lexer.
-/

namespace Nanonet

open Lexer

variable {D : Type} [NumGet D]

/-! ### What a call leaves that throws -/

/-- A string that is not closed before a newline, or has one behind a backslash. -/
def breaksLine (quote : Char) : Text → Bool
  | [] => false
  | c :: cs =>
    if isnewline c then true
    else if c = quote then false
    else if c = '\\' then
      match cs with
      | [] => false
      | d :: ds => if quote ≠ d ∧ 'n' ≠ d ∧ '\\' ≠ d then isnewline d else breaksLine quote ds
    else breaksLine quote cs

omit [NumGet D] in
theorem stringBody_error {quote : Char} {text value : Text} {message : String} {is : IStream}
    (hne : quote ≠ '\n') (h : stringBody quote text = (value, some message, is))
    (hline : breaksLine quote text = false) :
    is.good = true → ∃ w, text = w ++ is.rest ∧ '\n' ∉ w := by
  induction text using stringBody.induct quote generalizing value with
  | case1 =>
    simp only [stringBody.eq_def, Prod.mk.injEq] at h
    obtain ⟨-, -, rfl⟩ := h
    intro hgood
    cases hgood
  | case2 c cs hc => simp [breaksLine.eq_def _ (c :: cs), hc] at hline
  | case3 cs hc => simp [stringBody.eq_def _ (quote :: cs), hc] at h
  | case4 hnewline hquote =>
    simp only [stringBody.eq_def _ ['\\'], hnewline, hquote, if_true, if_false] at h
    obtain ⟨-, -, rfl⟩ := h
    intro hgood
    cases hgood
  | case5 cc ds hcc hnewline hquote =>
    rw [breaksLine.eq_def] at hline
    simp only [hnewline, hquote, if_true, if_false, if_pos hcc] at hline
    simp only [stringBody.eq_def _ ('\\' :: cc :: ds), hnewline, hquote, if_true, if_false,
      if_pos hcc] at h
    obtain ⟨-, -, rfl⟩ := h
    refine fun _ => ⟨['\\', cc], rfl, ?_⟩
    have hcc' : '\n' ≠ cc := by simpa [isnewline] using hline
    simp [hcc']
  | case6 cc ds hcc hnewline hquote ih =>
    rw [breaksLine.eq_def] at hline
    simp only [hnewline, hquote, if_true, if_false, if_neg hcc] at hline
    have hescape : quote = cc ∨ 'n' = cc ∨ '\\' = cc := by tauto
    have hcc' : '\n' ≠ cc := by
      rintro rfl
      simp [hne] at hescape
    rw [stringBody_escape (Ne.symm hquote) hescape] at h
    obtain ⟨-, hrest⟩ := Prod.mk.inj h
    intro hgood
    obtain ⟨w, rfl, hw⟩ := ih (Prod.ext rfl hrest) hline hgood
    exact ⟨'\\' :: cc :: w, rfl, by simp [hw, hcc']⟩
  | case7 c cs hnewline hquote hbackslash ih =>
    rw [breaksLine.eq_def] at hline
    simp only [hnewline, hquote, hbackslash, if_false] at hline
    rw [stringBody_plain (by simpa using hnewline) hquote hbackslash] at h
    obtain ⟨-, hrest⟩ := Prod.mk.inj h
    intro hgood
    obtain ⟨w, rfl, hw⟩ := ih (Prod.ext rfl hrest) hline hgood
    have hc : '\n' ≠ c := by simpa [isnewline] using hnewline
    exact ⟨c :: w, rfl, by simp [hw, hc]⟩

/-- What a call that throws at `text`, where nothing can be skipped, leaves of the lexer. -/
structure Resumes (text : Text) (L L' : Lexer D) : Prop where
  hold : L'.hold = L.hold
  line : L'.lineNo_ = L.lineNo_
  current : L'.currentToken_ = L.currentToken_
  rest : L'.is.good = true → ∃ w, text = w ++ L'.is.rest ∧ '\n' ∉ w

section branches

variable {L L' : Lexer D} {c : Char} {cs : Text} {e : Exn}

omit [NumGet D] in
theorem resumes_one (hL : L.is = ⟨cs, false, false⟩) (hc : c ≠ '\n') : Resumes (c :: cs) L L :=
  ⟨rfl, rfl, rfl, fun _ => ⟨[c], by rw [hL]; rfl, by simp [Ne.symm hc]⟩⟩

omit [NumGet D] in
theorem resumes_returnChar (hL : L.is = ⟨cs, false, false⟩) (hc : c ≠ '\n')
    (h : returnChar c L = .error e L') : Resumes (c :: cs) L L' := by
  unfold returnChar at h
  split at h
  · cases h
  · obtain ⟨-, rfl⟩ := EStateM.Result.error.inj h
    exact resumes_one hL hc

omit [NumGet D] in
theorem resumes_lexSlash {restart : LexM D Token} (hL : L.is = ⟨cs, false, false⟩)
    (hstop : Stops L.style '/' cs) (h : lexSlash restart L = .error e L') :
    Resumes ('/' :: cs) L L' := by
  unfold lexSlash at h
  cases cs with
  | nil => simp [hL, IStream.peek, return_] at h
  | cons d ds =>
    simp only [hL, IStream.peek, IStream.good_mk, if_true] at h
    split_ifs at h with hd hhash hd' hc
    · cases h
    · subst hd
      refine absurd (by simp) (hstop.not_mark (s := ['/', '/']) ?_)
      cases hstyle : L.style.commentStyle <;>
        simp_all [LexerStyle.munched, LexerStyle.lineComment]
    · cases h
    · subst hd'
      exact absurd (by simp) (hstop.block (by simpa using hc))
    · obtain ⟨-, rfl⟩ := EStateM.Result.error.inj h
      exact ⟨rfl, rfl, rfl, fun _ => ⟨['/'], rfl, by decide⟩⟩

omit [NumGet D] in
theorem resumes_lexString (hL : L.is = ⟨cs, false, false⟩)
    (hline : breaksLine L.style.quoteChar cs = false) (h : lexString L = .error e L') :
    Resumes (L.style.quoteChar :: cs) L L' := by
  have hquote : L.style.quoteChar ≠ '\n' := by
    rcases quoteChar_cases L.style with h | h <;> rw [h] <;> decide
  unfold lexString at h
  rcases hbody : stringBody L.style.quoteChar L.is.rest with ⟨value, _ | message, is⟩
  · simp [hbody, return_] at h
  · simp only [hbody] at h
    obtain ⟨-, rfl⟩ := EStateM.Result.error.inj h
    refine ⟨rfl, rfl, rfl, fun hgood => ?_⟩
    rw [hL] at hbody
    obtain ⟨w, hw, hnewline⟩ := stringBody_error hquote hbody hline hgood
    exact ⟨L.style.quoteChar :: w, congrArg (L.style.quoteChar :: ·) hw,
      by simp [hnewline, Ne.symm hquote]⟩

theorem resumes_lexNumber (hL : L.is = ⟨cs, false, false⟩) (hspace : isspace c = false)
    (h : lexNumber c L = .error e L') : Resumes (c :: cs) L L' := by
  unfold lexNumber at h
  simp only [hL, IStream.putback, Bool.false_eq_true, if_false, IStream.readDouble,
    IStream.good_mk, if_true, List.dropWhile_cons, hspace] at h
  rcases hextract : NumGet.extract (D := D) (c :: cs) with ⟨_ | d, rest⟩
  · simp only [hextract] at h
    obtain ⟨-, rfl⟩ := EStateM.Result.error.inj h
    refine ⟨rfl, rfl, rfl, fun hgood => ?_⟩
    simp [IStream.good] at hgood
  · simp [hextract, return_] at h

theorem resumes_switch {restart : LexM D Token} (hL : L.is = ⟨cs, false, false⟩)
    (hstop : Stops L.style c cs)
    (hline : c = L.style.quoteChar → breaksLine c cs = false)
    (h : switch restart c L = .error e L') : Resumes (c :: cs) L L' := by
  have hc : c ≠ '\n' := by
    rintro rfl
    have hspace := hstop.space
    cases hspace
  unfold switch at h
  split_ifs at h with hhash hstyle hslash hpunct hquote hother hnum halpha
  · exact resumes_returnChar hL hc h
  · exact absurd hstyle (not_not.2 hstop.commentChar)
  · exact hslash ▸ resumes_lexSlash hL (hslash ▸ hstop) h
  · exact resumes_returnChar hL hc h
  · exact resumes_returnChar hL hc h
  · obtain rfl : L.style.quoteChar = c := by simpa using hother
    exact resumes_lexString hL (hline rfl) h
  · exact resumes_lexNumber hL hstop.space h
  · simp [lexIdent, return_] at h
  · obtain ⟨-, rfl⟩ := EStateM.Result.error.inj h
    exact resumes_one hL hc

end branches

namespace Lexer

/-- The next call throws at a newline in a string. -/
def losesLine (L : Lexer D) : Bool :=
  L.is.good && match L.style.munched.skip L.is.rest with
  | [] => false
  | c :: cs => c == L.style.quoteChar && breaksLine c cs

def keepsLine (L : Lexer D) : Bool :=
  !L.is.good || L.is.rest.countP isnewline == (L.style.munched.skip L.is.rest).countP isnewline

/-- The text in front of what is left when nothing more can be skipped. -/
def front (L : Lexer D) (input : Text) : Text :=
  input.take (input.length - (L.style.munched.skip L.is.rest).length)

end Lexer

theorem read_error {L L' : Lexer D} {e : Exn} (hL : L.is = ⟨L.is.rest, false, false⟩)
    (hline : L.losesLine = false) (h : read L = .error e L') :
    ∃ gap, L.is.rest = gap ++ L.style.munched.skip L.is.rest ∧
      Resumes (L.style.munched.skip L.is.rest)
        { L with lineNo_ := L.lineNo_ + gap.countP isnewline } L' := by
  obtain ⟨gap, hgap, hread⟩ := read_skip L.is.rest (munches_munched L.style) hL
  refine ⟨gap, hgap, ?_⟩
  rw [hread] at h
  rw [losesLine, hL, IStream.good_mk, Bool.true_and] at hline
  cases hskip : L.style.munched.skip L.is.rest with
  | nil =>
    rw [hskip, read_nil rfl] at h
    cases h
  | cons c cs =>
    rw [hskip] at h hline
    obtain ⟨hspace, hcomment⟩ := Gaps.skip_stops hskip
    by_cases hblock : L.style.commentStyle = .cComments ∧ ['/', '*'] <+: c :: cs
    · obtain ⟨hstyle, body, hbody⟩ := hblock
      obtain ⟨rfl, rfl⟩ : '/' = c ∧ '*' :: body = cs := by simpa using hbody
      obtain ⟨L'', hread', -, -⟩ := read_unclosed (L := { L with
        is := ⟨'/' :: '*' :: body, false, false⟩
        lineNo_ := L.lineNo_ + gap.countP isnewline }) hstyle rfl (after_of_skip hstyle hskip)
      rw [hread'] at h
      cases h
    · have hstop : Stops L.style c cs :=
        ⟨hspace, hcomment, fun hstyle hprefix => hblock ⟨hstyle, hprefix⟩⟩
      rw [read_stop (L := { L with
        is := ⟨c :: cs, false, false⟩
        lineNo_ := L.lineNo_ + gap.countP isnewline }) rfl hstop read] at h
      have hresumes := resumes_switch (L := { L with
        is := ⟨cs, false, false⟩
        lineNo_ := L.lineNo_ + gap.countP isnewline }) rfl hstop
        (fun hquote => by simpa [hquote] using hline) h
      exact ⟨hresumes.hold, hresumes.line, hresumes.current, hresumes.rest⟩

omit [NumGet D] in
theorem eq_of_good {L : Lexer D} (h : L.is.good = true) : L.is = ⟨L.is.rest, false, false⟩ := by
  rcases his : L.is with ⟨rest, eofbit, failbit⟩
  obtain ⟨rfl, rfl⟩ : eofbit = false ∧ failbit = false := by simpa [IStream.good, his] using h
  rfl

theorem read_failed {L : Lexer D} (h : L.is.good = false) :
    (∃ L', read L = .ok .END L' ∧ L'.is.good = false) ∨
      ∃ e L', read L = .error e L' ∧ L' = { L with is := { L.is with failbit := true } } := by
  cases heof : L.is.eofbit with
  | true =>
    obtain ⟨L', hread, heof', -⟩ := read_eof heof
    exact .inl ⟨L', hread, by simp [IStream.good, heof']⟩
  | false =>
    refine .inr ⟨.runtimeError (L.location ++ "read error"), _, ?_, rfl⟩
    have hscan : read L = scanWith read L := read_eq L
    rw [hscan]
    simp only [scanWith, IStream.getWhile, h, heof, Bool.false_eq_true, if_false]
    rfl

/-! ### Runs with errors -/

/-- In `input` a text that spells `x` stands after `before`. -/
def TextAt (input before : Text) (x : Lexeme D) : Prop :=
  ∃ style text rest, input = before ++ text ∧ TokenText style text x rest

/-- Calls on a lexer that was opened on `input`, some of which may have thrown, but not at a newline
in a string. The second index is where the current token stands and what was read there; it is lost
where a call threw that had skipped a newline, and the token is not put back any more then. -/
inductive LexerCalls (input : Text) : Lexer D → Option (Text × Lexeme D) → Prop where
  | opened (filename_ : String) (style : LexerStyle) :
      LexerCalls input (open_ (.ofText input) filename_ style) (some ([], .punct .END))
  | setStyle {L : Lexer D} {place : Option (Text × Lexeme D)} (style : LexerStyle) :
      LexerCalls input L place → LexerCalls input (L.setStyle style) place
  | putback {L : Lexer D} {place : Text × Lexeme D} :
      LexerCalls input L (some place) → LexerCalls input L.putback (some place)
  | held {L L' : Lexer D} {place : Option (Text × Lexeme D)} {t : Token} :
      LexerCalls input L place → L.hold = true → getToken L = .ok t L' → LexerCalls input L' place
  | returned {L L' : Lexer D} {place : Option (Text × Lexeme D)} {t : Token} :
      LexerCalls input L place → L.hold = false → getToken L = .ok t L' →
        LexerCalls input L' (some (L.front input, L'.lexeme))
  | threw {L L' : Lexer D} {place : Option (Text × Lexeme D)} {e : Exn} :
      LexerCalls input L place → getToken L = .error e L' → L.losesLine = false →
        LexerCalls input L' (place.filter fun _ => L.keepsLine)

/-- Where a lexer is that was opened on `input`. -/
structure Placed (input : Text) (L : Lexer D) (place : Option (Text × Lexeme D)) : Prop where
  rest : L.is.good = true →
    ∃ before, input = before ++ L.is.rest ∧ L.lineNo_ = 1 + before.countP isnewline
  current : ∀ before x, place = some (before, x) → x.token = L.currentToken_ ∧
    (x.token ≠ .END → TextAt input before x ∧ L.lineNo_ = 1 + before.countP isnewline)
  hold : L.hold = true → place.isSome

omit [NumGet D] in
theorem front_eq {L : Lexer D} {input before gap : Text} (hinput : input = before ++ L.is.rest)
    (hgap : L.is.rest = gap ++ L.style.munched.skip L.is.rest) : L.front input = before ++ gap := by
  have hinput' : input = (before ++ gap) ++ L.style.munched.skip L.is.rest := by
    rw [List.append_assoc, ← hgap, hinput]
  unfold front
  generalize L.style.munched.skip L.is.rest = left at hinput'
  rw [hinput', List.length_append, Nat.add_sub_cancel, List.take_left]

theorem getToken_read {L : Lexer D} (h : L.hold = false) : getToken L = read L := by
  unfold getToken
  rw [if_neg (by rw [h]; decide)]

theorem Placed.returned (hnum : ReadsOneLine D) {input : Text} {L L' : Lexer D}
    {place : Option (Text × Lexeme D)} {t : Token} (hplaced : Placed input L place)
    (h : read L = .ok t L') : Placed input L' (some (L.front input, L'.lexeme)) := by
  have hcurrent := (read_frame h).2.2
  have hended (ht : t = .END) (hgood : L'.is.good = false) :
      Placed input L' (some (L.front input, L'.lexeme)) := by
    refine ⟨fun hgood' => absurd (hgood.symm.trans hgood') (by decide), ?_, fun _ => rfl⟩
    rintro _ _ ⟨⟩
    exact ⟨token_lexeme L', fun hne => absurd (token_lexeme L') (by rwa [hcurrent, ht])⟩
  cases hgood : L.is.good with
  | false =>
    obtain ⟨L'', hread, hgood'⟩ | ⟨e, L'', hread, -⟩ := read_failed hgood
    · obtain ⟨rfl, rfl⟩ := EStateM.Result.ok.inj (hread.symm.trans h)
      exact hended rfl hgood'
    · cases hread.symm.trans h
  | true =>
    obtain ⟨before, hinput, hline⟩ := hplaced.rest hgood
    cases read_ok (.inl (eq_of_good hgood)) h with
    | finished _ _ heof => exact hended rfl (by simp [IStream.good, heof])
    | unclosed _ _ _ _ heof => exact hended rfl (by simp [IStream.good, heof])
    | @token _ _ gap cs c hskip hgap _ _ htoken =>
      have hfront : L.front input = before ++ gap := front_eq hinput (hskip ▸ hgap)
      have hline' : L'.lineNo_ = 1 + (L.front input).countP isnewline := by
        rw [hfront, htoken.line, List.countP_append, ← Nat.add_assoc, ← hline]
      obtain ⟨w, hw, hnewline⟩ := htoken.spells.oneLine hnum
      have hinput' : input = L.front input ++ c :: cs := by
        rw [hfront, hinput, hgap, List.append_assoc]
      refine ⟨fun _ => ⟨L.front input ++ w, ?_, ?_⟩, ?_, fun _ => rfl⟩
      · rw [List.append_assoc, ← hw, ← hinput']
      · rw [hline', ← countP_isnewline_append hnewline]
      · rintro _ _ ⟨⟩
        exact ⟨token_lexeme L', fun _ => ⟨⟨L.style, _, _, hinput', htoken.spells⟩, hline'⟩⟩

theorem Placed.threw {input : Text} {L L' : Lexer D} {place : Option (Text × Lexeme D)} {e : Exn}
    (hplaced : Placed input L place) (hold : L.hold = false) (h : read L = .error e L')
    (hline : L.losesLine = false) : Placed input L' (place.filter fun _ => L.keepsLine) := by
  cases hgood : L.is.good with
  | false =>
    obtain ⟨L'', hread, -⟩ | ⟨e', L'', hread, hL''⟩ := read_failed hgood
    · cases hread.symm.trans h
    · obtain ⟨rfl, rfl⟩ := EStateM.Result.error.inj (hread.symm.trans h)
      subst hL''
      refine ⟨fun hgood' => by simp [IStream.good] at hgood', fun before x hx => ?_,
        fun hhold => ?_⟩
      · exact hplaced.current before x (Option.eq_some_of_filter_eq_some hx)
      · exact absurd (hold.symm.trans hhold) (by decide)
  | true =>
    obtain ⟨before, hinput, hlineNo⟩ := hplaced.rest hgood
    obtain ⟨gap, hgap, hresumes⟩ := read_error (eq_of_good hgood) hline h
    have hL' : L'.lineNo_ = 1 + (before ++ gap).countP isnewline := by
      rw [hresumes.line, List.countP_append, ← Nat.add_assoc, ← hlineNo]
    refine ⟨fun hgood' => ?_, fun before' x hx => ?_, fun hhold => ?_⟩
    · obtain ⟨w, hw, hnewline⟩ := hresumes.rest hgood'
      refine ⟨before ++ gap ++ w, ?_, ?_⟩
      · rw [List.append_assoc, ← hw, List.append_assoc, ← hgap, hinput]
      · rw [hL', ← countP_isnewline_append hnewline]
    · obtain ⟨hplace, hkeeps⟩ := Option.filter_eq_some_iff.1 hx
      have hcount : gap.countP isnewline = 0 := by
        have hcount := congrArg (List.countP isnewline) hgap
        rw [List.countP_append] at hcount
        simp only [keepsLine, hgood, Bool.not_true, Bool.false_or, beq_iff_eq] at hkeeps
        omega
      obtain ⟨htoken, hat⟩ := hplaced.current before' x hplace
      refine ⟨htoken.trans hresumes.current.symm, fun hne => ⟨(hat hne).1, ?_⟩⟩
      rw [hresumes.line, hcount]
      exact (hat hne).2
    · exact absurd (hold.symm.trans (hresumes.hold.symm.trans hhold)) (by decide)

theorem LexerCalls.placed (hnum : ReadsOneLine D) {input : Text} {L : Lexer D}
    {place : Option (Text × Lexeme D)} (h : LexerCalls input L place) : Placed input L place := by
  induction h with
  | opened filename_ style =>
    refine ⟨fun _ => ⟨[], rfl, rfl⟩, ?_, nofun⟩
    rintro _ _ ⟨⟩
    exact ⟨rfl, fun hne => absurd rfl hne⟩
  | setStyle _ _ ih => exact ⟨ih.rest, ih.current, ih.hold⟩
  | putback _ ih => exact ⟨ih.rest, ih.current, fun _ => rfl⟩
  | held _ hold hget ih =>
    obtain ⟨-, -, rfl⟩ | ⟨hold', -⟩ := getToken_ok_cases hget
    · exact ⟨ih.rest, ih.current, nofun⟩
    · cases hold.symm.trans hold'
  | returned _ hold hget ih => exact ih.returned hnum (getToken_read hold ▸ hget)
  | @threw L _ _ _ _ herror hline ih =>
    cases hold : L.hold with
    | true => simp [getToken, hold] at herror
    | false => exact ih.threw hold (getToken_read hold ▸ herror) hline

/-! ### The keys of pairs -/

theorem LexerCalls.tokenCalls {input before : Text} {L₀ L : Lexer D}
    (h₀ : LexerCalls input L₀ (some (before, L₀.lexeme))) (h : TokenCalls L₀ L) :
    ∃ before', LexerCalls input L (some (before', L.lexeme)) := by
  induction h with
  | refl => exact ⟨before, h₀⟩
  | putback _ ih =>
    obtain ⟨before', ih⟩ := ih
    exact ⟨before', ih.putback⟩
  | @get L L' t _ hget ih =>
    obtain ⟨before', ih⟩ := ih
    cases hold : L.hold with
    | true =>
      obtain ⟨-, -, rfl⟩ | ⟨hold', -⟩ := getToken_ok_cases hget
      · exact ⟨before', ih.held hold hget⟩
      · cases hold.symm.trans hold'
    | false => exact ⟨_, ih.returned hold hget⟩

/-- The key of a pair was read from `x`, which stands in `input` where the pair's line is. -/
def KeyAt (input : Text) (x : Lexeme D) (b : Pair D) : Prop :=
  x.token = .IDENT ∧
    ∃ before, TextAt input before x ∧ b.lineNo = 1 + before.countP isnewline

/-- A held token still has the value that was read for it. -/
def Intact (L : Lexer D) (place : Option (Text × Lexeme D)) : Prop :=
  L.hold = true → ∀ before x, place = some (before, x) → x = L.lexeme

theorem LexerCalls.parsePair (hnum : ReadsOneLine D) {input : Text} {ps : ParserStyle}
    {L L' : Lexer D} {place : Option (Text × Lexeme D)} {b : Pair D} (hcalls : LexerCalls input L place)
    (h : parsePair ps L = .ok (some b) L') :
    b.filename = L.filename_ ∧ L'.filename_ = L.filename_ ∧
      (∃ x, KeyAt input x b ∧ (Intact L place → x = .ident b.key)) ∧
      ∃ before, LexerCalls input L' (some (before, L'.lexeme)) := by
  obtain ⟨L₁, L₂, hget, hlexeme, hline, hfile, hassign, hcalls'⟩ := parsePair_some h
  have hfilename : L₁.filename_ = L.filename_ := (getToken_ok hget).1
  have hcurrent : L₁.currentToken_ = .IDENT := (getToken_ok hget).2.1
  have hfilename' : L'.filename_ = L₁.filename_ :=
    hcalls'.filename.trans (getToken_ok hassign).1
  refine ⟨hfile.trans hfilename, hfilename'.trans hfilename, ?_⟩
  obtain ⟨before, x, hcalls₁, hx⟩ : ∃ before x, LexerCalls input L₁ (some (before, x)) ∧
      (Intact L place → x = .ident b.key) := by
    cases hold : L.hold with
    | true =>
      obtain ⟨⟨before, x⟩, rfl⟩ := Option.isSome_iff_exists.1 ((hcalls.placed hnum).hold hold)
      refine ⟨before, x, hcalls.held hold hget, fun hsame => ?_⟩
      obtain ⟨-, -, hL₁⟩ | ⟨hold', -⟩ := getToken_ok_cases hget
      · rw [hsame hold before x rfl, ← hlexeme, hL₁]
        rfl
      · cases hold.symm.trans hold'
    | false => exact ⟨_, _, hcalls.returned hold hget, fun _ => hlexeme⟩
  obtain ⟨htoken, hat⟩ := (hcalls₁.placed hnum).current before x rfl
  obtain ⟨htext, hlineNo⟩ := hat (by rw [htoken, hcurrent]; decide)
  refine ⟨⟨x, ⟨htoken.trans hcurrent, before, htext, hline.trans hlineNo⟩, hx⟩, ?_⟩
  have hL₂ : L₁.hold = false := by
    obtain ⟨-, -, rfl⟩ | ⟨hold, hread⟩ := getToken_ok_cases hget
    · rfl
    · exact (read_frame hread).2.1.trans hold
  exact (hcalls₁.returned hL₂ hassign).tokenCalls hcalls'

/-- What a call of `read_from` on a lexer stores. -/
structure Stored (input : Text) (L : Lexer D) (place : Option (Text × Lexeme D))
    (reg reg' : Registry D) (bs : List (Pair D)) : Prop where
  reg : reg' = reg.defineAll bs
  filename : ∀ b ∈ bs, b.filename = L.filename_
  keys : ∀ b ∈ bs, ∃ x, KeyAt input x b ∧ (Intact L place → x = .ident b.key)

theorem LexerCalls.readLoop (hnum : ReadsOneLine D) {input : Text} (ps : ParserStyle)
    (throwing : Bool) (fuel : ℕ) {L : Lexer D} {place : Option (Text × Lexeme D)} (reg : Registry D)
    (hcalls : LexerCalls input L place) :
    ∃ bs, Stored input L place reg (stateAfter (readLoop ps throwing fuel (L, reg))).2 bs := by
  have hnone : ∃ bs, Stored input L place reg reg bs := ⟨[], rfl, by simp, by simp⟩
  induction fuel generalizing L place reg with
  | zero => exact hnone
  | succ fuel ih =>
    rw [Nanonet.readLoop]
    cases hparse : Nanonet.parsePair ps L with
    | error e L' =>
      have honLexer : onLexer (Nanonet.parsePair ps) (L, reg) = .error e (L', reg) := by
        simp only [onLexer, hparse]
      rw [Call.bind_error honLexer]
      exact hnone
    | ok b L' =>
      have honLexer : onLexer (Nanonet.parsePair ps) (L, reg) = .ok b (L', reg) := by
        simp only [onLexer, hparse]
      rw [Call.bind_ok honLexer]
      cases b with
      | none => exact hnone
      | some b =>
        rcases addPair_cases throwing b L' reg with hadd | ⟨what, hadd⟩
        · obtain ⟨hfile, hfile', hkey, before, hcalls'⟩ := hcalls.parsePair hnum hparse
          obtain ⟨bs, hreg, hfiles, hkeys⟩ := ih (reg.define b.key b.mapped) hcalls'
            ⟨[], rfl, by simp, by simp⟩
          dsimp only
          rw [Call.bind_ok hadd]
          refine ⟨b :: bs, hreg, ?_, ?_⟩
          · rw [hfile'] at hfiles
            exact List.forall_mem_cons.2 ⟨hfile, hfiles⟩
          · refine List.forall_mem_cons.2 ⟨hkey, fun b' hb' => ?_⟩
            obtain ⟨x, hx, hsame⟩ := hkeys b' hb'
            refine ⟨x, hx, fun _ => hsame ?_⟩
            rintro - _ _ ⟨⟩
            rfl
        · dsimp only
          rw [Call.bind_error hadd]
          exact hnone

theorem LexerCalls.readFromLexer (hnum : ReadsOneLine D) {input : Text} (ls : LexerStyle)
    (ps : ParserStyle) (throwing : Bool) {L : Lexer D} {place : Option (Text × Lexeme D)}
    (reg : Registry D) (hcalls : LexerCalls input L place) :
    ∃ bs, Stored input L place reg (stateAfter (readFromLexer ls ps throwing (L, reg))).2 bs := by
  obtain ⟨bs, hreg, hfiles, hkeys⟩ := (hcalls.setStyle ls).readLoop hnum ps throwing
    (parseBound (L.setStyle ls)) reg
  refine ⟨bs, ?_, hfiles, hkeys⟩
  rw [← hreg]
  simp only [Nanonet.readFromLexer, bind, EStateM.bind, onLexer]
  cases Nanonet.readLoop ps throwing (parseBound (L.setStyle ls)) (L.setStyle ls, reg) <;> rfl

/-- Where a token is that `get_token` returns, and the line the lexer is on then. -/
theorem LexerCalls.getToken (hnum : ReadsOneLine D) {input : Text} {L L' : Lexer D}
    {place : Option (Text × Lexeme D)} {t : Token} (hcalls : LexerCalls input L place)
    (h : getToken L = .ok t L') (hne : t ≠ .END) :
    ∃ before x, TextAt input before x ∧ x.token = t ∧ L'.lineNo_ = 1 + before.countP isnewline ∧
      (L.hold = true ∧ place = some (before, x) ∨
        L.hold = false ∧ before = L.front input ∧ x = L'.lexeme) := by
  have hcurrent := (getToken_ok h).2.1
  cases hold : L.hold with
  | true =>
    obtain ⟨⟨before, x⟩, rfl⟩ := Option.isSome_iff_exists.1 ((hcalls.placed hnum).hold hold)
    obtain ⟨htoken, hat⟩ := ((hcalls.held hold h).placed hnum).current before x rfl
    rw [hcurrent] at htoken
    obtain ⟨htext, hline⟩ := hat (htoken ▸ hne)
    exact ⟨before, x, htext, htoken, hline, .inl ⟨rfl, rfl⟩⟩
  | false =>
    obtain ⟨htoken, hat⟩ := ((hcalls.returned hold h).placed hnum).current _ _ rfl
    rw [hcurrent] at htoken
    obtain ⟨htext, hline⟩ := hat (htoken ▸ hne)
    exact ⟨_, _, htext, htoken, hline, .inr ⟨rfl, rfl, rfl⟩⟩

/-- **Line numbers are exact.** After calls that return, a token that `get_token` returns has the
line its text starts on. So it has after calls some of which threw, but none at a newline in a
string, and none behind a newline after the token was returned that is put back. Whatever
`read_from` does, on a file or on such a lexer, the pairs it stores have the lines of their keys,
and `defined_at` reports that of the last one with the key. -/
theorem lineNumbers_exact (hnum : ReadsOneLine D) (input : Text) (filename_ : String)
    (ls : LexerStyle) :
    (∀ (L L' : Lexer D) (t : Token), TokenCalls (open_ (.ofText input) filename_ ls) L →
      getToken L = .ok t L' → t ≠ .END →
      ∃ before, StandsAt ls input before L'.lexeme L'.is.rest ∧
        L'.lineNo_ = 1 + before.countP isnewline) ∧
    (∀ (ps : ParserStyle) (throwing : Bool) (reg : Registry D),
      let reg' := stateAfter (readFrom (some input) filename_ ls ps throwing reg)
      ∃ bs : List (Pair D), KeysAt ls [] input bs ∧ ∀ key,
        reg'.definedAt key = match bs.reverse.find? fun b => key = b.key with
          | some b => .ok (definedAtMsg b.lineNo filename_)
          | none => reg.definedAt key) ∧
    ∀ (L : Lexer D) (place : Option (Text × Lexeme D)), LexerCalls input L place →
      (∀ (L' : Lexer D) (t : Token), getToken L = .ok t L' → t ≠ .END →
        ∃ before x, TextAt input before x ∧ x.token = t ∧
          L'.lineNo_ = 1 + before.countP isnewline ∧
          (L.hold = true ∧ place = some (before, x) ∨
            L.hold = false ∧ before = L.front input ∧ x = L'.lexeme)) ∧
      ∀ (ls : LexerStyle) (ps : ParserStyle) (throwing : Bool) (reg : Registry D),
        let reg' := (stateAfter (readFromLexer ls ps throwing (L, reg))).2
        ∃ bs : List (Pair D),
          (∀ b ∈ bs, ∃ x, KeyAt input x b ∧ (Intact L place → x = .ident b.key)) ∧ ∀ key,
          reg'.definedAt key = match bs.reverse.find? fun b => key = b.key with
            | some b => .ok (definedAtMsg b.lineNo L.filename_)
            | none => reg.definedAt key := by
  refine ⟨fun L L' t hcalls hget hne => ?_, fun ps throwing reg => ?_, fun L place hcalls =>
    ⟨fun L' t hget hne => hcalls.getToken hnum hget hne, fun ls ps throwing reg => ?_⟩⟩
  · have hcurrent := (getToken_ok hget).2.1
    obtain hsame | hEND | hfound := ((hcalls.get hget).tracked hnum (.inl rfl)).current
    · have htoken := congrArg Lexeme.token hsame
      rw [token_lexeme, hcurrent] at htoken
      exact absurd htoken hne
    · exact absurd (hcurrent.symm.trans hEND) hne
    · exact hfound
  · obtain ⟨bs, hkeys, hfiles, hkvMap⟩ := readFrom_keys hnum input filename_ ls ps throwing reg
    exact ⟨bs, hkeys, definedAt_of_pairs hkvMap hfiles⟩
  · obtain ⟨bs, hreg, hfiles, hkeys⟩ := hcalls.readFromLexer hnum ls ps throwing reg
    exact ⟨bs, hkeys, definedAt_of_pairs (congrArg Registry.kvMap hreg) hfiles⟩

/-- An identifier on the second line, behind a character that no token starts with. -/
theorem lineNumbers_exact_badCharacter :
    ∃ before x, TextAt ['\n', ':', 'a'] before (x : Lexeme ℕ) ∧ x.token = .IDENT ∧
      2 = 1 + before.countP isnewline ∧ before = ['\n', ':'] ∧ x = .ident ['a'] := by
  have hskip : ({} : LexerStyle).munched.skip ['\n', ':', 'a'] = [':', 'a'] :=
    (Gaps.skip_space rfl _).trans (Gaps.skip_stop rfl (by decide))
  have hleft : ({} : LexerStyle).munched.skip ['a'] = ['a'] := Gaps.skip_stop rfl (by decide)
  have hcalls : LexerCalls ['\n', ':', 'a']
      (⟨⟨['a'], false, false⟩, {}, .END, [], 0, 2, "f", false⟩ : Lexer ℕ) _ :=
    (LexerCalls.opened "f" {}).threw (e := .runtimeError "f:2: bad character in input (:)") rfl
      (by simp only [losesLine, open_, IStream.ofText, hskip]; rfl)
  obtain ⟨before, x, htext, htoken, hline, ⟨hold, -⟩ | ⟨-, hbefore, hx⟩⟩ :=
    ((lineNumbers_exact readsOneLine_digits ['\n', ':', 'a'] "f" {}).2.2 _ _ hcalls).1
      ⟨⟨[], true, true⟩, {}, .IDENT, ['a'], 0, 2, "f", false⟩ .IDENT rfl (by decide)
  · cases hold
  · exact ⟨before, x, htext, htoken, hline, by rw [hbefore, front, hleft]; rfl, hx⟩

/-- The newline of an unterminated string is lost. One in front of an error is counted for a token
that is put back. -/
theorem lineNumbers_not_exact :
    (∃ (e : Exn) (L₁ L₂ : Lexer ℕ),
      getToken (open_ (.ofText ['"', 'a', '\n', 'b']) "f" {}) = .error e L₁ ∧
        getToken L₁ = .ok .IDENT L₂ ∧ L₁.front ['"', 'a', '\n', 'b'] = ['"', 'a', '\n'] ∧
        L₂.lexeme = .ident ['b'] ∧
        L₂.lineNo_ ≠ 1 + ['"', 'a', '\n'].countP isnewline) ∧
      ∃ (e : Exn) (L₁ L₂ L₃ : Lexer ℕ),
        getToken (open_ (.ofText ['a', '\n', ':']) "f" {}) = .ok .IDENT L₁ ∧
          getToken L₁ = .error e L₂ ∧ getToken L₂.putback = .ok .IDENT L₃ ∧
          L₃.lexeme = .ident ['a'] ∧ L₃.lineNo_ ≠ 1 := by
  have hskip : ({} : LexerStyle).munched.skip ['b'] = ['b'] := Gaps.skip_stop rfl (by decide)
  refine ⟨⟨.runtimeError "f:1: unterminated string",
      ⟨⟨['b'], false, false⟩, {}, .END, ['a'], 0, 1, "f", false⟩,
      ⟨⟨[], true, true⟩, {}, .IDENT, ['b'], 0, 1, "f", false⟩, rfl, rfl,
      by rw [front, hskip]; rfl, rfl, by decide⟩,
    ⟨.runtimeError "f:2: bad character in input (:)",
      ⟨⟨['\n', ':'], false, false⟩, {}, .IDENT, ['a'], 0, 1, "f", false⟩,
      ⟨⟨[], false, false⟩, {}, .IDENT, ['a'], 0, 2, "f", false⟩,
      ⟨⟨[], false, false⟩, {}, .IDENT, ['a'], 0, 2, "f", false⟩, rfl, rfl, rfl, rfl, by decide⟩⟩

end Nanonet
