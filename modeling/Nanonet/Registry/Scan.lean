import Nanonet.Lib.Skipping
import Nanonet.Lib.Swaps
import Nanonet.Registry.Lexer

/-!
# What one scan does

Every scan that returns a token other than `END` takes at least a character off the text, `END`
leaves the stream at its end, and the style, the file name and the hold flag are not touched
(`read_spec`). The bound of `scan` does not matter once it exceeds the length of the text
(`scan_fuel`), so `read` satisfies the equation of the source, with itself at `restart`
(`read_eq`).
-/

namespace Nanonet.Lexer

variable {D : Type}

structure Frame (L L' : Lexer D) : Prop where
  style : L'.style = L.style
  filename : L'.filename_ = L.filename_
  hold : L'.hold = L.hold

theorem Frame.trans {L L' L'' : Lexer D} (h : Frame L L') (h' : Frame L' L'') : Frame L L'' :=
  ⟨h'.style.trans h.style, h'.filename.trans h.filename, h'.hold.trans h.hold⟩

/-- A token was returned as the current one and no character was given back; a token `END` means
that the stream is at its end. An exception is a `std::runtime_error`. -/
def Advances (L : Lexer D) : EStateM.Result Exn (Lexer D) Token → Prop
  | .ok t L' => Frame L L' ∧ L'.currentToken_ = t ∧ L'.is.rest.length ≤ L.is.rest.length ∧
      (t = .END → L'.is.eofbit = true)
  | .error e _ => e.IsRuntime

theorem Advances.of_frame {L L' : Lexer D} {r : EStateM.Result Exn (Lexer D) Token}
    (h : Advances L' r) (hframe : Frame L L') (hlen : L'.is.rest.length ≤ L.is.rest.length) :
    Advances L r := by
  cases r with
  | ok t L'' => exact ⟨hframe.trans h.1, h.2.1, h.2.2.1.trans hlen, h.2.2.2⟩
  | error e _ => exact h

theorem advances_return {L : Lexer D} {t : Token} (ht : t = .END → L.is.eofbit = true) :
    Advances L (return_ t L) :=
  ⟨⟨rfl, rfl, rfl⟩, rfl, le_refl _, ht⟩

theorem advances_throwHere {L L' : Lexer D} (message : String) :
    Advances L (throwHere message L') :=
  ⟨_, rfl⟩

theorem charToken_ne_END {c : Char} {t : Token} (h : charToken c = some t) : t ≠ .END := by
  unfold charToken at h
  split at h <;> simp_all <;> subst h <;> decide

theorem advances_returnChar (c : Char) (L : Lexer D) : Advances L (returnChar c L) := by
  unfold returnChar
  cases h : charToken c with
  | some t => exact advances_return fun hEND => absurd hEND (charToken_ne_END h)
  | none => exact ⟨_, rfl⟩

theorem advances_munchLine {restart : LexM D Token} {L : Lexer D}
    (hrestart : ∀ L' : Lexer D, L'.is.rest.length ≤ L.is.rest.length → Advances L' (restart L')) :
    Advances L (munchLine restart L) := by
  have hle := L.is.getWhile_le fun c => !isnewline c
  unfold munchLine
  dsimp only
  split
  · next heof => exact (advances_return fun _ => heof).of_frame ⟨rfl, rfl, rfl⟩ hle
  · exact (hrestart { L with is := _, lineNo_ := L.lineNo_ + 1 } hle).of_frame ⟨rfl, rfl, rfl⟩ hle

theorem munchText_length (text : Text) (line : Nat) :
    (munchText text line).1.rest.length ≤ text.length := by
  fun_induction munchText text line with
  | case1 line => simp
  | case2 line => simp
  | case3 line ds => simp only [List.length_cons]; omega
  | case4 line d ds hd ih => exact ih.trans (Nat.le_succ _)
  | case5 c cs line hc ih => exact ih.trans (Nat.le_succ _)

theorem munchText_after {text rest : Text} (h : after ['*', '/'] text = some rest) (line : Nat) :
    ∃ body, text = body ++ rest ∧
      munchText text line = (⟨rest, false, false⟩, line + body.countP isnewline) := by
  fun_induction munchText text line with
  | case1 line => simp [after] at h
  | case2 line => simp [after] at h
  | case3 line ds =>
    obtain rfl : ds = rest := by simpa [after] using h
    exact ⟨['*', '/'], rfl, rfl⟩
  | case4 line d ds hd ih =>
    obtain ⟨body, hbody, hmunch⟩ := ih (by simpa [after, Ne.symm hd] using h)
    exact ⟨'*' :: body, by rw [hbody]; rfl, by rw [hmunch, List.countP_cons_of_neg (by decide)]⟩
  | case5 c cs line hc ih =>
    obtain ⟨body, rfl, hmunch⟩ := ih (by simpa [after, Ne.symm hc] using h)
    refine ⟨c :: body, rfl, ?_⟩
    rw [hmunch, List.countP_cons, toNat_eq_ite, Nat.add_assoc, Nat.add_comm (body.countP isnewline)]

theorem munchText_unclosed {text : Text} (h : after ['*', '/'] text = none) (line : Nat) :
    ∃ failbit n, munchText text line = (⟨[], true, failbit⟩, n) := by
  fun_induction munchText text line with
  | case1 line => exact ⟨_, _, rfl⟩
  | case2 line => exact ⟨_, _, rfl⟩
  | case3 line ds => simp [after] at h
  | case4 line d ds hd ih => exact ih (by simpa [after, Ne.symm hd] using h)
  | case5 c cs line hc ih => exact ih (by simpa [after, Ne.symm hc] using h)

theorem munchTillAsterisksSlash_length (L : Lexer D) :
    (munchTillAsterisksSlash L).is.rest.length ≤ L.is.rest.length := by
  unfold munchTillAsterisksSlash
  split
  · exact munchText_length _ _
  · exact le_refl _

theorem frame_munchTillAsterisksSlash (L : Lexer D) : Frame L (munchTillAsterisksSlash L) := by
  unfold munchTillAsterisksSlash
  split <;> exact ⟨rfl, rfl, rfl⟩

theorem stringBody_length (quote : Char) (text : Text) :
    (stringBody quote text).2.2.rest.length ≤ text.length := by
  fun_induction stringBody quote text with
  | case1 => exact Nat.le_refl _
  | case2 c cs | case3 cs => exact Nat.le_succ _
  | case4 => exact Nat.zero_le _
  | case5 cc ds =>
    simp only [List.length_cons]
    omega
  | case6 cc ds _ _ ih =>
    simp only [List.length_cons]
    omega
  | case7 c cs _ _ _ ih => exact ih.trans (Nat.le_succ _)

theorem advances_lexString (L : Lexer D) : Advances L (lexString L) := by
  unfold lexString
  have hlen := stringBody_length L.style.quoteChar L.is.rest
  rcases hbody : stringBody L.style.quoteChar L.is.rest with ⟨value, _ | message, is⟩ <;>
    rw [hbody] at hlen
  · exact (advances_return (by simp)).of_frame ⟨rfl, rfl, rfl⟩ hlen
  · exact advances_throwHere message

theorem peek_length {is is' : IStream} {c : Option Char} (h : is.peek = (c, is')) :
    is'.rest.length ≤ is.rest.length := by
  unfold IStream.peek at h
  split at h
  · rcases hrest : is.rest with _ | ⟨d, ds⟩ <;> simp [hrest] at h <;> simp [← h.2]
  · simp only [Prod.mk.injEq] at h
    simp [← h.2]

theorem ignore_length (is : IStream) : is.ignore.rest.length ≤ is.rest.length := by
  unfold IStream.ignore
  split
  · rcases is.rest with _ | ⟨d, ds⟩ <;> simp
  · exact le_refl _

theorem advances_lexSlash {restart : LexM D Token} {L : Lexer D}
    (hrestart : ∀ L' : Lexer D, L'.is.rest.length ≤ L.is.rest.length → Advances L' (restart L')) :
    Advances L (lexSlash restart L) := by
  unfold lexSlash
  rcases hpeek : L.is.peek with ⟨_ | c, is⟩
  · exact (advances_return (by simp)).of_frame ⟨rfl, rfl, rfl⟩ (peek_length hpeek)
  · have hle : is.rest.length ≤ L.is.rest.length := peek_length hpeek
    have hframe : Frame L { L with is := is } := ⟨rfl, rfl, rfl⟩
    dsimp only
    split_ifs
    · exact (advances_return (by simp)).of_frame hframe hle
    · exact (advances_munchLine fun L' h => hrestart L' (h.trans hle)).of_frame hframe hle
    · exact (advances_return (by simp)).of_frame hframe hle
    · have hmunch := munchTillAsterisksSlash_length { L with is := is.ignore }
      have hlen := (hmunch.trans (ignore_length is)).trans hle
      have hsame := frame_munchTillAsterisksSlash { L with is := is.ignore }
      exact (hrestart _ hlen).of_frame ⟨hsame.style, hsame.filename, hsame.hold⟩ hlen
    · exact advances_throwHere _

theorem readDouble_length [NumGet D] {is is' : IStream} {d : D}
    (h : is.readDouble = (some d, is')) : is'.rest.length + 1 ≤ is.rest.length := by
  unfold IStream.readDouble at h
  split at h
  · split at h
    · simp at h
    · next c cs hrest =>
      split at h
      · next d' rest hextract =>
        obtain ⟨-, rfl⟩ : d' = d ∧ _ = is' := by simpa using h
        have hlt := (NumGet.extract_suffix hextract).2
        have hle := (List.dropWhile_suffix (p := isspace) (l := is.rest)).length_le
        rw [hrest] at hle
        exact Nat.succ_le_of_lt (lt_of_lt_of_le hlt hle)
      · simp at h
  · simp at h

theorem putback_length (is : IStream) (c : Char) :
    (is.putback c).rest.length ≤ is.rest.length + 1 := by
  unfold IStream.putback
  split <;> simp

theorem advances_lexNumber [NumGet D] (c : Char) (L : Lexer D) : Advances L (lexNumber c L) := by
  unfold lexNumber
  rcases hread : (L.is.putback c).readDouble with ⟨_ | d, is⟩
  · exact advances_throwHere _
  · have hlen := readDouble_length hread
    have hputback := putback_length L.is c
    have hreturn : Advances { L with is := is, numValue_ := d }
        (return_ .NUM { L with is := is, numValue_ := d }) := advances_return (by simp)
    exact hreturn.of_frame ⟨rfl, rfl, rfl⟩ (by simp only; omega)

theorem advances_lexIdent (c : Char) (L : Lexer D) : Advances L (lexIdent c L) := by
  unfold lexIdent
  rcases hloop : L.is.getWhile (fun c => isalnum c || c == '_') with ⟨xs, stop, is⟩
  have hlen := IStream.getWhile_length hloop
  dsimp only
  refine (advances_return (by simp)).of_frame ⟨rfl, rfl, rfl⟩ ?_
  cases stop with
  | none => simpa using hlen
  | some d => exact (putback_length is d).trans (by simpa using hlen)

theorem advances_switch [NumGet D] (restart : LexM D Token) {L : Lexer D} (c : Char)
    (hrestart : ∀ L' : Lexer D, L'.is.rest.length ≤ L.is.rest.length → Advances L' (restart L')) :
    Advances L (switch restart c L) := by
  unfold switch
  split_ifs
  · exact advances_returnChar c L
  · exact advances_munchLine hrestart
  · exact advances_lexSlash hrestart
  · exact advances_returnChar c L
  · exact advances_returnChar c L
  · exact advances_lexString L
  · exact advances_lexNumber c L
  · exact advances_lexIdent c L
  · exact advances_throwHere _

/-! ### The bound -/

theorem scanWith_spec [NumGet D] {restart : LexM D Token} {L : Lexer D}
    (hrestart : ∀ L' : Lexer D, L'.is.rest.length < L.is.rest.length → Advances L' (restart L')) :
    Advances L (scanWith restart L) ∧
      ∀ t L', scanWith restart L = .ok t L' → t ≠ .END → L'.is.rest.length < L.is.rest.length := by
  unfold scanWith
  rcases hloop : L.is.getWhile isspace with ⟨spaces, stop, is⟩
  have hlen := IStream.getWhile_length hloop
  dsimp only
  split
  · next heof =>
    refine ⟨(advances_return fun _ => heof).of_frame ⟨rfl, rfl, rfl⟩ (by simp only; omega), ?_⟩
    rintro t L' h hne
    simp only [return_, EStateM.Result.ok.injEq] at h
    exact absurd h.1.symm hne
  · cases stop with
    | none => exact ⟨advances_throwHere _, fun t L' h => by simp [throwHere] at h⟩
    | some c =>
      simp only [Option.isSome_some, if_true] at hlen
      have hswitch := advances_switch restart
        (L := { L with is := is, lineNo_ := L.lineNo_ + spaces.countP isnewline }) c
        fun L' h => hrestart L' (by simp only at h ⊢; omega)
      refine ⟨hswitch.of_frame ⟨rfl, rfl, rfl⟩ (by simp only; omega), fun t L' h _ => ?_⟩
      dsimp only at h
      rw [h] at hswitch
      have := hswitch.2.2.1
      simp only at this ⊢
      omega

theorem munchLine_congr {restart restart' : LexM D Token} {L : Lexer D}
    (h : ∀ L' : Lexer D, L'.is.rest.length ≤ L.is.rest.length → restart L' = restart' L') :
    munchLine restart L = munchLine restart' L := by
  have hle := L.is.getWhile_le fun c => !isnewline c
  unfold munchLine
  dsimp only
  split
  · rfl
  · exact h _ hle

theorem lexSlash_congr {restart restart' : LexM D Token} {L : Lexer D}
    (h : ∀ L' : Lexer D, L'.is.rest.length ≤ L.is.rest.length → restart L' = restart' L') :
    lexSlash restart L = lexSlash restart' L := by
  unfold lexSlash
  rcases hpeek : L.is.peek with ⟨_ | c, is⟩
  · rfl
  · have hle : is.rest.length ≤ L.is.rest.length := peek_length hpeek
    dsimp only
    split_ifs
    · rfl
    · exact munchLine_congr fun L' h' => h L' (h'.trans hle)
    · rfl
    · have hmunch := munchTillAsterisksSlash_length { L with is := is.ignore }
      exact h _ ((hmunch.trans (ignore_length is)).trans hle)
    · rfl

theorem scanWith_congr [NumGet D] {restart restart' : LexM D Token} {L : Lexer D}
    (h : ∀ L' : Lexer D, L'.is.rest.length < L.is.rest.length → restart L' = restart' L') :
    scanWith restart L = scanWith restart' L := by
  unfold scanWith
  rcases hloop : L.is.getWhile isspace with ⟨spaces, stop, is⟩
  have hlen := IStream.getWhile_length hloop
  dsimp only
  split
  · rfl
  · cases stop with
    | none => rfl
    | some c =>
      simp only [Option.isSome_some, if_true] at hlen
      have hle : ∀ L' : Lexer D, L'.is.rest.length ≤ is.rest.length → restart L' = restart' L' :=
        fun L' h' => h L' (by omega)
      dsimp only [switch]
      split_ifs
      · rfl
      · exact munchLine_congr hle
      · exact lexSlash_congr hle
      all_goals rfl

theorem scan_fuel [NumGet D] {n m : Nat} {L : Lexer D} (hn : L.is.rest.length < n)
    (hm : L.is.rest.length < m) : scan n L = scan m L := by
  induction n generalizing m L with
  | zero => omega
  | succ n ih =>
    obtain ⟨m, rfl⟩ : ∃ k, m = k + 1 := ⟨m - 1, by omega⟩
    rw [scan, scan]
    exact scanWith_congr fun L' h => ih (by omega) (by omega)

theorem read_eq [NumGet D] (L : Lexer D) : read L = scanWith read L := by
  rw [read, scan]
  exact scanWith_congr fun L' h => scan_fuel h (Nat.lt_succ_self _)

theorem read_spec [NumGet D] (L : Lexer D) :
    Advances L (read L) ∧
      ∀ t L', read L = .ok t L' → t ≠ .END → L'.is.rest.length < L.is.rest.length := by
  rw [read_eq]
  suffices h : ∀ n, ∀ L' : Lexer D, L'.is.rest.length < n → Advances L' (read L') from
    scanWith_spec (h L.is.rest.length)
  intro n
  induction n with
  | zero => intro L' h; omega
  | succ n ih =>
    intro L' h
    rw [read_eq]
    exact (scanWith_spec fun L'' h' => ih L'' (by omega)).1

theorem read_eof [NumGet D] {L : Lexer D} (h : L.is.eofbit = true) :
    ∃ L' : Lexer D, read L = .ok .END L' ∧ L'.is.eofbit = true ∧ L'.lineNo_ = L.lineNo_ := by
  refine ⟨{ L with is := { L.is with failbit := true }, currentToken_ := .END }, ?_, h, rfl⟩
  rw [read_eq]
  simp only [scanWith, IStream.getWhile, IStream.good, h]
  rfl

end Nanonet.Lexer
