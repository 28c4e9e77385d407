import Nanonet.Http.Response
import Nanonet.Server.HandleConnection

/-!
# A connection to the HTTP server

The HTTP server of `tcp-test.cpp` runs `http_service_handle_line` in the loop of
`handle_connection`, on what the client sends. Whatever that is, at most one request of a connection
is answered (`httpd_answers_once`), and a request whose lines end in `LF` is (`httpd_serves_iff`).
One that ends its lines in `CR LF` is refused at its empty line: that is what `wget` sends
(`own_client_refused_iff`).
-/

namespace Nanonet

section httpd

variable (lib : CalendarLibrary) (strerror : ℕ → String) (utc : ℕ → ℚ)
  (split : Text → Text → List Text) (files : Text → Option FileStream)

/-- What the server has written when it is done with a connection on which a text came in. -/
def httpd (running : ℕ → Bool) (maxLineLength : ℤ) (fuel connectionsTotal : ℕ) (sent : Text)
    (w : Service) : Service :=
  (stateAfter (handleConnection running maxLineLength none
    (httpServiceHandleLine lib strerror utc split files connectionsTotal) (fuel + 1)
    (.ofText sent, w))).2

end httpd

section answer

variable {lib : CalendarLibrary} {strerror : ℕ → String} {utc : ℕ → ℚ}
  (split : Text → Text → List Text) (files : Text → Option FileStream)
  {running : ℕ → Bool} {maxLineLength : ℤ} (fuel n : ℕ) (w : Service)

/-! ### The first line -/

theorem httpd_no_line {sent : Text}
    (h : running 0 = false ∨ (∀ st, getline maxLineLength (.ofText sent, []) ≠ .ok true st)) :
    httpd lib strerror utc split files running maxLineLength fuel n sent w = w := by
  unfold httpd handleConnection
  simp only [handlerLoop]
  cases hrunning : running 0 with
  | false => rfl
  | true =>
    obtain hfalse | hline := h
    · exact absurd (hrunning.symm.trans hfalse) (by decide)
    · cases hget : getline maxLineLength (.ofText sent, []) with
      | error e st => rfl
      | ok b st =>
        cases b with
        | false => rfl
        | true => exact absurd hget (hline st)

theorem httpd_line (hdates : DatesPrinted lib strerror utc) {sent line : Text} {is : IStream}
    (hrunning : running 0 = true)
    (h : getline maxLineLength (.ofText sent, []) = .ok true (is, line)) :
    (∃ e st, parseGetRequest split line ⟨is, some w.log⟩ = .error e st ∧
      (httpd lib strerror utc split files running maxLineLength fuel n sent w).os = w.os) ∨
    ∃ request st header body, parseGetRequest split line ⟨is, some w.log⟩ = .ok request st ∧
      Answered files request.absPath header body ∧
      (httpd lib strerror utc split files running maxLineLength fuel n sent w).os =
        w.os ++ (header.text ++ body) := by
  unfold httpd handleConnection
  simp only [handlerLoop, hrunning, if_true, h]
  cases hparse : parseGetRequest split line ⟨is, some w.log⟩ with
  | error e st =>
    refine .inl ⟨e, st, rfl, ?_⟩
    simp only [httpServiceHandleLine, hparse]
    rfl
  | ok request st =>
    obtain ⟨w', hrun, header, body, hanswer, hos⟩ := httpServiceHandleLine_ok hdates hparse n
    refine .inr ⟨request, st, header, body, rfl, hanswer, ?_⟩
    simp only [hrun]
    exact hos

theorem httpd_cases (hdates : DatesPrinted lib strerror utc) (running : ℕ → Bool)
    (maxLineLength : ℤ) (sent : Text) :
    ((httpd lib strerror utc split files running maxLineLength fuel n sent w).os = w.os ∧
      ∀ line is request st, running 0 = true →
        getline maxLineLength (.ofText sent, []) = .ok true (is, line) →
          parseGetRequest split line ⟨is, some w.log⟩ ≠ .ok request st) ∨
    ∃ line is request st header body,
      getline maxLineLength (.ofText sent, []) = .ok true (is, line) ∧
      parseGetRequest split line ⟨is, some w.log⟩ = .ok request st ∧
      Answered files request.absPath header body ∧
      (httpd lib strerror utc split files running maxLineLength fuel n sent w).os =
        w.os ++ (header.text ++ body) := by
  by_cases hline : running 0 = true ∧ ∃ st, getline maxLineLength (.ofText sent, []) = .ok true st
  · obtain ⟨hrunning, ⟨is, line⟩, hget⟩ := hline
    obtain ⟨e, st, hparse, hos⟩ | ⟨request, st, header, body, hparse, hanswer, hos⟩ :=
      httpd_line split files fuel n w hdates hrunning hget
    · refine .inl ⟨hos, fun line' is' request st' _ hget' hparse' => ?_⟩
      obtain ⟨rfl, rfl⟩ : is = is' ∧ line = line' := by simpa using hget.symm.trans hget'
      cases hparse.symm.trans hparse'
    · exact .inr ⟨line, is, request, st, header, body, hget, hparse, hanswer, hos⟩
  · refine .inl ⟨?_, fun line is request st hrunning hget => absurd ⟨hrunning, _, hget⟩ hline⟩
    rw [httpd_no_line]
    by_cases hrunning : running 0 = true
    · exact .inr fun st hst => hline ⟨hrunning, st, hst⟩
    · exact .inl (Bool.eq_false_iff.2 hrunning)

/-- **At most one answer.** Whatever a client sends, the server writes the answer for the path of the
request on the first line, a word, or nothing where this request does not parse; a `wget1` that gets
this answer has the header in its log and the body on its output. -/
theorem httpd_answers_once (hdates : DatesPrinted lib strerror utc) (sent : Text) :
    let w' := httpd lib strerror utc split files running maxLineLength fuel n sent w
    (w'.os = w.os ∧ ∀ line is request st, running 0 = true →
      getline maxLineLength (.ofText sent, []) = .ok true (is, line) →
        parseGetRequest split line ⟨is, some w.log⟩ ≠ .ok request st) ∨
    ∃ line is request st header body,
      getline maxLineLength (.ofText sent, []) = .ok true (is, line) ∧
      parseGetRequest split line ⟨is, some w.log⟩ = .ok request st ∧
      request.absPath ≠ [] ∧ (∀ c ∈ request.absPath, isspace c = false) ∧
      Answered files request.absPath header body ∧ w'.os = w.os ++ (header.text ++ body) ∧
      ∀ connection requested host port, connection host port = .ok (header.text ++ body) →
        ∀ sender userAgent st, ∃ st',
          wget1 connection requested host port sender userAgent st = .ok () st' ∧
            st'.os = st.os ++ body ∧
            st'.log = st.log ++
              ("Requesting ".toList ++ requested ++ " from ".toList ++ host) ::
                header.lines.map fun line =>
                  "Server HTTP header: ".toList ++ line ++ ['\r'] := by
  dsimp only
  obtain hos | ⟨line, is, request, st, header, body, hget, hparse, hanswer, hos⟩ :=
    httpd_cases split files fuel n w hdates running maxLineLength sent
  · exact .inl hos
  · obtain ⟨hne, hword⟩ := parseGetRequest_path hparse
    refine .inr ⟨line, is, request, st, header, body, hget, hparse, hne, hword, hanswer, hos, ?_⟩
    intro connection requested host port hopen sender userAgent st
    exact wget1_header connection _ _ _ header body hopen sender userAgent st

def twoCharacters : Text → Option FileStream := fun _ => some ⟨['h', 'i'], none⟩

theorem httpd_answers_once_get :
    ∃ path header body, Answered twoCharacters path header body ∧ path ≠ [] ∧
      (httpd gregorian (fun _ => "") (fun _ => 0) splitAtAnyOf twoCharacters (fun _ => true) 1000
        0 1 "GET /a.txt HTTP/1.0\n\n".toList ⟨[], [], 0⟩).os = [] ++ (header.text ++ body) := by
  have hdates : DatesPrinted gregorian (fun _ => "") fun _ => 0 :=
    datesPrinted_gregorian _ fun _ => by norm_num
  obtain ⟨-, hrefused⟩ | ⟨-, -, request, -, header, body, -, -, hne, -, hanswer, hos, -⟩ :=
    @httpd_answers_once _ _ _ splitAtAnyOf twoCharacters (fun _ => true) 1000 0 1 ⟨[], [], 0⟩ hdates
      "GET /a.txt HTTP/1.0\n\n".toList
  · exact (hrefused "GET /a.txt HTTP/1.0".toList (.ofText ['\n'])
      ⟨"1.0".toList, [], "/a.txt".toList, [], []⟩ _ rfl rfl rfl).elim
  · exact ⟨request.absPath, header, body, hanswer, hne, hos⟩

/-! ### Requests that end their lines in `LF` -/

theorem getlineLoop_line {line : Text} (h : '\n' ∉ line) {i : ℤ}
    (hi : i + line.length < maxLineLength) (s rest : Text) :
    getlineLoop maxLineLength i s (line ++ '\n' :: rest) = (.ofText rest, s ++ line) := by
  induction line generalizing i s with
  | nil =>
    have hlt : i < maxLineLength := by simpa using hi
    simp [getlineLoop, hlt, isnewline, IStream.ofText]
  | cons c cs ih =>
    obtain ⟨hc, hcs⟩ := of_notMem_cons h
    rw [List.length_cons] at hi
    have hlt : i < maxLineLength := by omega
    have hrest := ih hcs (i := i + 1) (by push_cast at hi; omega) (s ++ [c])
    simp [getlineLoop, hlt, hc, hrest]

theorem getline_short {line : Text} (h : '\n' ∉ line) (hshort : (line.length : ℤ) < maxLineLength)
    (rest s : Text) :
    getline maxLineLength (.ofText (line ++ '\n' :: rest), s) = .ok true (.ofText rest, line) := by
  have hloop : getlineLoop maxLineLength 0 [] (line ++ '\n' :: rest) = _ :=
    getlineLoop_line h (by omega) [] rest
  have hpos : 0 < maxLineLength := by omega
  simp only [getline, if_pos hpos, IStream.ofText, IStream.good_mk, if_true] at hloop ⊢
  rw [hloop]
  rfl

theorem WellFormedRequest.newline_notMem_firstLine (r : WellFormedRequest) :
    '\n' ∉ r.firstLine := by
  have hpath := (OneLine.of_not_space r.path_chars).notMem.2
  have hversion := (OneLine.of_not_space fun c hc => (r.version_chars c hc).1).notMem.2
  have hend : '\n' ∉ lineEnd r.firstCr := by cases r.firstCr <;> decide
  simp [firstLine, GET, HTTP, hpath, hversion, hend]

theorem headerText_ne_nil (lines : List Text) : headerText lines ≠ [] :=
  List.append_ne_nil_of_right_ne_nil _ (by decide)

theorem os_ne_of_answered {header : HttpHeader} {body : Text} {w' : Service}
    (h : w'.os = w.os ++ (header.text ++ body)) : w'.os ≠ w.os := by
  intro hnil
  have htext := List.self_eq_append_right.1 (hnil.symm.trans h)
  exact headerText_ne_nil _ (List.append_eq_nil_iff.1 htext).1

/-- **A well-formed request is answered** iff its empty line ends in `LF` alone, however its other
lines end; nothing is written where the empty line ends in `CR LF`. -/
theorem httpd_serves_iff (hdates : DatesPrinted lib strerror utc) (hsplit : SplitsAtAnyOf split)
    (hrunning : running 0 = true) (r : WellFormedRequest)
    (hshort : (r.firstLine.length : ℤ) < maxLineLength) :
    let w' := httpd lib strerror utc split files running maxLineLength fuel n
      (r.firstLine ++ '\n' :: r.text) w
    ((∃ header body, Answered files r.path header body ∧ w'.os = w.os ++ (header.text ++ body)) ↔
      r.emptyCr = false) ∧ (r.emptyCr = true → w'.os = w.os) := by
  have hget := getline_short r.newline_notMem_firstLine hshort r.text []
  obtain ⟨fuel', log', hrun⟩ := parseGetRequest_run hsplit r (some w.log)
  obtain ⟨hcr, hend⟩ | ⟨hcr, what, hend⟩ := headerLoop_empty r.emptyCr fuel'
    (r.headers.foldl storeHeader { absPath := r.path, version := r.version }) r.body log'
  · obtain ⟨e, st, hparse, -⟩ | ⟨request, st, header, body, hparse, hanswer, hos⟩ :=
      httpd_line split files fuel n w hdates hrunning hget
    · rw [hrun, hend] at hparse
      cases hparse
    · rw [hrun, hend] at hparse
      cases hparse
      rw [(foldl_firstLine r.headers _).2] at hanswer
      exact ⟨⟨fun _ => hcr, fun _ => ⟨header, body, hanswer, hos⟩⟩,
        fun htrue => absurd (hcr.symm.trans htrue) (by decide)⟩
  · obtain ⟨-, -, -, hos⟩ | ⟨request, st, header, body, hparse, -⟩ :=
      httpd_line split files fuel n w hdates hrunning hget
    · refine ⟨⟨?_, fun hfalse => absurd (hcr.symm.trans hfalse) (by decide)⟩, fun _ => hos⟩
      rintro ⟨header, body, -, hanswer⟩
      exact absurd hos (os_ne_of_answered w hanswer)
    · rw [hrun, hend] at hparse
      cases hparse

theorem httpd_serves_iff_lf : ∃ header body,
    Answered (fun _ => none) (requestOf false).path header body ∧
      (httpd gregorian (fun _ => "") (fun _ => 0) splitAtAnyOf (fun _ => none) (fun _ => true)
        1000 0 1 ((requestOf false).firstLine ++ '\n' :: (requestOf false).text) ⟨[], [], 0⟩).os =
        [] ++ (header.text ++ body) :=
  (httpd_serves_iff _ _ _ _ ⟨[], [], 0⟩ (datesPrinted_gregorian _ fun _ => by norm_num)
    splitsAtAnyOf_splitAtAnyOf rfl (requestOf false) (by decide)).1.2 rfl

/-! ### Requests that end their lines in `CR LF` -/

theorem setHeader_ok (ret : GetRequest) (line : Text) (hh : Text × Text) (is : IStream)
    (log : Option (List String)) :
    ∃ ret' log', setHeader ret line hh ⟨is, log⟩ = .ok ret' ⟨is, log'⟩ := by
  unfold setHeader
  split_ifs
  · exact ⟨_, _, rfl⟩
  · exact ⟨_, _, rfl⟩
  · exact ⟨_, _, rfl⟩
  · exact ⟨_, _, rfl⟩

theorem headerLoop_refused {ls : List Text} (hls : ∀ l ∈ ls, l ≠ [] ∧ '\n' ∉ l) {last : Text}
    (hne : last ≠ []) (hlast : '\n' ∉ last ∧ ':' ∉ last) (rest : Text) {fuel : ℕ}
    (hfuel : ls.length < fuel) (ret : GetRequest) (log : Option (List String)) :
    ∃ e st, headerLoop fuel ret
      ⟨⟨(ls.flatMap fun l => l ++ ['\n']) ++ (last ++ '\n' :: rest), false, false⟩, log⟩ =
      .error e st := by
  induction ls generalizing fuel ret log with
  | nil =>
    obtain ⟨fuel, rfl⟩ := Nat.exists_eq_add_one_of_ne_zero (Nat.ne_of_gt hfuel)
    obtain ⟨what, hsplit⟩ := splitColonBlank_noColon hlast.2
    refine ⟨.runtimeError what, ⟨⟨rest, false, false⟩, log⟩, ?_⟩
    rw [List.flatMap_nil, List.nil_append, headerLoop]
    simp only [IStream.getline_line hlast.1, trim, if_neg hne, hsplit]
  | cons l ls ih =>
    rw [List.length_cons] at hfuel
    obtain ⟨fuel, rfl⟩ := Nat.exists_eq_add_one_of_ne_zero (show fuel ≠ 0 by omega)
    obtain ⟨⟨hlne, hl⟩, hls⟩ : (l ≠ [] ∧ '\n' ∉ l) ∧ ∀ l ∈ ls, l ≠ [] ∧ '\n' ∉ l :=
      List.forall_mem_cons.1 hls
    have htext : ((l :: ls).flatMap fun l => l ++ ['\n']) ++ (last ++ '\n' :: rest) =
        l ++ '\n' :: ((ls.flatMap fun l => l ++ ['\n']) ++ (last ++ '\n' :: rest)) := by simp
    rw [htext, headerLoop]
    have htrim : trim l = l := rfl
    simp only [IStream.getline_line hl, htrim, hlne, if_false]
    cases hsplit : splitColonBlank l with
    | error e => exact ⟨e, _, rfl⟩
    | ok hh =>
      obtain ⟨ret', log', hset⟩ := setHeader_ok ret l hh
        ⟨(ls.flatMap fun l => l ++ ['\n']) ++ (last ++ '\n' :: rest), false, false⟩ log
      simp only [Call.bind_ok hset]
      exact ih hls (show ls.length < fuel by omega) ret' log'

theorem length_le_flatMap (ls : List Text) :
    ls.length ≤ (ls.flatMap fun l => l ++ ['\n']).length := by
  induction ls with
  | nil => exact Nat.zero_le _
  | cons l ls ih =>
    simp only [List.flatMap_cons, List.length_append, List.length_cons, List.length_nil]
    omega

theorem parseGetRequest_refused {ls : List Text} (hls : ∀ l ∈ ls, l ≠ [] ∧ '\n' ∉ l)
    {last : Text} (hne : last ≠ []) (hlast : '\n' ∉ last ∧ ':' ∉ last) (line rest : Text)
    (log : Option (List String)) : ∃ e st, parseGetRequest split line
      ⟨.ofText ((ls.flatMap fun l => l ++ ['\n']) ++ (last ++ '\n' :: rest)), log⟩ =
      .error e st := by
  have hlength := length_le_flatMap ls
  unfold parseGetRequest
  cases parseFirstLine split (trim line) with
  | error e => exact ⟨e, _, rfl⟩
  | ok first =>
    refine headerLoop_refused hls hne hlast rest ?_ _ log
    simp only [IStream.ofText, List.length_append]
    omega

theorem getline_cut {block : Text} (h : '\n' ∉ block) (hpos : 0 < maxLineLength)
    (hlength : (block.length : ℤ) = maxLineLength) (rest s : Text) :
    getline maxLineLength (.ofText (block ++ rest), s) = .ok true (.ofText rest, block) := by
  have hloop : ∀ (block : Text) (i : ℤ) (s : Text), '\n' ∉ block →
      i + block.length = maxLineLength →
      getlineLoop maxLineLength i s (block ++ rest) = (.ofText rest, s ++ block) := by
    intro block
    induction block with
    | nil =>
      intro i s _ hi
      have hnot : ¬ i < maxLineLength := by simp at hi; omega
      cases rest <;> simp [getlineLoop, hnot, IStream.ofText]
    | cons c cs ih =>
      intro i s hblock hi
      obtain ⟨hc, hcs⟩ := of_notMem_cons hblock
      rw [List.length_cons] at hi
      have hlt : i < maxLineLength := by omega
      have hrest := ih (i + 1) (s ++ [c]) hcs (by push_cast at hi; omega)
      simp [getlineLoop, hlt, hc, hrest]
  have hblock := hloop block 0 [] h (by omega)
  simp only [getline, if_pos hpos, IStream.ofText, IStream.good_mk, if_true] at hblock ⊢
  rw [hblock]
  rfl

/-- What `wget1` sends after the first line, and before the empty one. -/
def sentHeaders (host port : Text) : List Text :=
  ["From: ".toList ++ defaultFrom ++ ['\r'],
    "Host: ".toList ++ host ++ ":".toList ++ port ++ ['\r'],
    "User-Agent: ".toList ++ defaultUserAgent ++ ['\r']]

theorem cutLines_eq (a b c d : Text) :
    a ++ httpNewline ++ b ++ httpNewline ++ c ++ httpNewline ++ d ++ httpNewline ++ httpNewline =
      (a ++ ['\r']) ++ '\n' :: (([b ++ ['\r'], c ++ ['\r'], d ++ ['\r']].flatMap
        fun l => l ++ ['\n']) ++ (['\r'] ++ '\n' :: [])) := by
  simp [httpNewline]

theorem requestText_lines (path host port : Text) :
    requestText path host port defaultFrom defaultUserAgent =
      (requestLine path ++ ['\r']) ++ '\n' ::
        (((sentHeaders host port).flatMap fun l => l ++ ['\n']) ++ (['\r'] ++ '\n' :: [])) :=
  cutLines_eq _ _ _ _

theorem sentHeaders_lines {host port : Text} (hhost : '\n' ∉ host) (hport : '\n' ∉ port) :
    ∀ l ∈ sentHeaders host port, l ≠ [] ∧ '\n' ∉ l := by
  have hfrom : '\n' ∉ "From: ".toList ++ defaultFrom ++ ['\r'] := by decide
  have hagent : '\n' ∉ "User-Agent: ".toList ++ defaultUserAgent ++ ['\r'] := by decide
  have hname : '\n' ∉ "Host: ".toList := by decide
  have hcolon : '\n' ∉ ":".toList := by decide
  have hcr : '\n' ∉ ['\r'] := by decide
  have hline : '\n' ∉ "Host: ".toList ++ host ++ ":".toList ++ port ++ ['\r'] := by
    simp only [List.mem_append, not_or]
    exact ⟨⟨⟨⟨hname, hhost⟩, hcolon⟩, hport⟩, hcr⟩
  have hne : ∀ s : Text, s ++ ['\r'] ≠ [] := fun s => by simp
  simp only [sentHeaders, List.forall_mem_cons]
  exact ⟨⟨hne _, hfrom⟩, ⟨hne _, hline⟩, ⟨hne _, hagent⟩, by simp⟩

/-- The first line of the request is cut before its `LF`, which is then read as an empty line. -/
def CutAtLineEnd (split : Text → Text → List Text) (maxLineLength : ℤ) (path : Text) : Prop :=
  ((requestLine path ++ ['\r']).length : ℤ) = maxLineLength ∧
    ∃ first, parseFirstLine split (requestLine path ++ ['\r']) = .ok first

theorem parseGetRequest_empty_line (line rest : Text) (log : Option (List String)) :
    (∃ e st, parseFirstLine split line = .error e ∧
      parseGetRequest split line ⟨.ofText ('\n' :: rest), log⟩ = .error e st) ∨
    ∃ first request st, parseFirstLine split line = .ok first ∧
      parseGetRequest split line ⟨.ofText ('\n' :: rest), log⟩ = .ok request st := by
  have htrim : trim line = line := rfl
  unfold parseGetRequest
  rw [htrim]
  cases hfirst : parseFirstLine split line with
  | error e => exact .inl ⟨e, _, rfl, rfl⟩
  | ok first =>
    have hread := IStream.getline_line (List.not_mem_nil (a := '\n')) rest
    refine .inr ⟨first, { absPath := first.1, version := first.2 }, ⟨⟨rest, false, false⟩, log⟩,
      rfl, ?_⟩
    simp only [IStream.ofText, headerLoop]
    rw [List.nil_append] at hread
    simp only [hread, trim, if_true]

theorem httpd_refused (hdates : DatesPrinted lib strerror utc) (hrunning : running 0 = true)
    {sent line : Text} {ls : List Text} (hls : ∀ l ∈ ls, l ≠ [] ∧ '\n' ∉ l)
    (hget : getline maxLineLength (.ofText sent, []) = .ok true
      (.ofText ((ls.flatMap fun l => l ++ ['\n']) ++ (['\r'] ++ '\n' :: [])), line)) :
    (httpd lib strerror utc split files running maxLineLength fuel n sent w).os = w.os := by
  obtain ⟨-, -, -, hos⟩ | ⟨request, st, header, body, hparse, -⟩ :=
    httpd_line split files fuel n w hdates hrunning hget
  · exact hos
  · obtain ⟨e, st', herror⟩ := parseGetRequest_refused split hls (List.cons_ne_nil _ _)
      (show '\n' ∉ ['\r'] ∧ ':' ∉ ['\r'] by decide) line [] (some w.log)
    rw [hparse] at herror
    cases herror

theorem httpd_refuses_own_iff (hdates : DatesPrinted lib strerror utc) (hrunning : running 0 = true)
    {path host port : Text} (hpath : '\n' ∉ path) (hhost : '\n' ∉ host) (hport : '\n' ∉ port) :
    (httpd lib strerror utc split files running maxLineLength fuel n
      (requestText path host port defaultFrom defaultUserAgent) w).os = w.os ↔
      ¬ CutAtLineEnd split maxLineLength path := by
  have hline : '\n' ∉ requestLine path ++ ['\r'] := by
    have hget : '\n' ∉ "GET ".toList := by decide
    have hversion : '\n' ∉ " HTTP/1.0".toList := by decide
    have hcr : '\n' ∉ ['\r'] := by decide
    simp only [requestLine, List.mem_append, not_or]
    exact ⟨⟨⟨hget, hpath⟩, hversion⟩, hcr⟩
  have hpos : 0 < (requestLine path ++ ['\r']).length := by simp
  have hheaders := sentHeaders_lines hhost hport
  rw [requestText_lines, CutAtLineEnd]
  generalize requestLine path ++ ['\r'] = line at *
  obtain hlt | heq | hgt := lt_trichotomy (line.length : ℤ) maxLineLength
  · have hget := getline_short hline hlt
      (((sentHeaders host port).flatMap fun l => l ++ ['\n']) ++ (['\r'] ++ '\n' :: [])) []
    have hos := httpd_refused split files fuel n w hdates hrunning hheaders hget
    exact ⟨fun _ hcut => hlt.ne hcut.1, fun _ => hos⟩
  · have hget := getline_cut hline (by omega) heq ('\n' ::
      (((sentHeaders host port).flatMap fun l => l ++ ['\n']) ++ (['\r'] ++ '\n' :: []))) []
    obtain ⟨e, st, hparse, hos⟩ | ⟨request, st, header, body, hparse, -, hos⟩ :=
      httpd_line split files fuel n w hdates hrunning hget
    · obtain ⟨e', st', hfirst, -⟩ | ⟨first, request, st', -, hok⟩ :=
        parseGetRequest_empty_line split line _ (some w.log)
      · refine ⟨?_, fun _ => hos⟩
        rintro - ⟨-, first, hfirst'⟩
        rw [hfirst] at hfirst'
        cases hfirst'
      · rw [hparse] at hok
        cases hok
    · obtain ⟨e', st', -, herror⟩ | ⟨first, request', st', hfirst, -⟩ :=
        parseGetRequest_empty_line split line _ (some w.log)
      · rw [hparse] at herror
        cases herror
      · exact ⟨fun hnil => absurd hnil (os_ne_of_answered w hos),
          fun hnot => absurd ⟨heq, first, hfirst⟩ hnot⟩
  · have hos : (httpd lib strerror utc split files running maxLineLength fuel n (line ++ '\n' ::
        (((sentHeaders host port).flatMap fun l => l ++ ['\n']) ++ (['\r'] ++ '\n' :: []))) w).os =
        w.os := by
      by_cases hlimit : 0 < maxLineLength
      · -- the rest of the line is a header line
        obtain ⟨block, rest, rfl, hblock⟩ : ∃ block rest, line = block ++ rest ∧
            (block.length : ℤ) = maxLineLength :=
          ⟨line.take maxLineLength.toNat, line.drop maxLineLength.toNat,
            (List.take_append_drop _ _).symm, by rw [List.length_take]; omega⟩
        rw [List.mem_append, not_or] at hline
        have hrest : rest ≠ [] := by
          rintro rfl
          simp only [List.append_nil] at hgt
          omega
        have hget := getline_cut hline.1 hlimit hblock (rest ++ '\n' ::
          (((sentHeaders host port).flatMap fun l => l ++ ['\n']) ++ (['\r'] ++ '\n' :: []))) []
        have hls : ∀ l ∈ rest :: sentHeaders host port, l ≠ [] ∧ '\n' ∉ l :=
          List.forall_mem_cons.2 ⟨⟨hrest, hline.2⟩, hheaders⟩
        have htext : ((rest :: sentHeaders host port).flatMap fun l => l ++ ['\n']) ++
            (['\r'] ++ '\n' :: []) = rest ++ '\n' ::
              (((sentHeaders host port).flatMap fun l => l ++ ['\n']) ++
                (['\r'] ++ '\n' :: [])) := by
          simp
        rw [List.append_assoc]
        rw [← htext] at hget ⊢
        exact httpd_refused split files fuel n w hdates hrunning hls hget
      · rw [httpd_no_line]
        refine .inr fun st hst => ?_
        rw [getline, if_neg hlimit] at hst
        cases hst
    exact ⟨fun _ hcut => hgt.ne' hcut.1, fun _ => hos⟩

theorem Answered.lines_ne {path : Text} {header : HttpHeader} {body : Text}
    (h : Answered files path header body) : header.lines ≠ [] := by
  cases h with
  | found _ _ hlines => exact hlines ▸ List.cons_ne_nil _ _
  | notFound _ hlines => exact hlines ▸ List.cons_ne_nil _ _
  | brokenOff _ _ hlines => exact hlines ▸ List.cons_ne_nil _ _

theorem Url.newline_notMem (u : Url) (h : '\n' ∉ u.text) :
    '\n' ∉ u.path ∧ '\n' ∉ u.host ∧ '\n' ∉ u.usedPort := by
  simp only [text, hostport, List.mem_append, not_or] at h
  obtain ⟨-, hhostport, hpath⟩ := h
  unfold usedPort
  cases hport : u.port with
  | none =>
    rw [hport] at hhostport
    exact ⟨hpath, hhostport, by decide⟩
  | some p =>
    simp only [hport, List.mem_append, List.mem_cons, not_or] at hhostport
    exact ⟨hpath, hhostport.1, hhostport.2.2⟩

/-- **The client's own requests.** A `wget` of a URL without line ends gets nothing from this
server, neither a header nor a body, unless the limit for lines cuts its first line just before the
`LF`. -/
theorem own_client_refused_iff (hdates : DatesPrinted lib strerror utc)
    (hrunning : running 0 = true) (u : Url) (hline : '\n' ∉ u.text) (k : ℕ) (st : WgetState) :
    let answer := (httpd lib strerror utc split files running maxLineLength fuel n
      (requestText u.path u.host u.usedPort defaultFrom defaultUserAgent) ⟨[], [], k⟩).os
    ∃ st', wgetFrom (fun _ _ => .ok answer) u.text st = .ok () st' ∧
      (st'.os = st.os ∧
        st'.log = st.log ++ ["Requesting ".toList ++ u.path ++ " from ".toList ++ u.host] ↔
        ¬ CutAtLineEnd split maxLineLength u.path) := by
  dsimp only
  obtain ⟨hpath, hhost, hport⟩ := u.newline_notMem hline
  rw [wgetFrom, wget_text, ← httpd_refuses_own_iff split files fuel n ⟨[], [], k⟩ hdates hrunning
    hpath hhost hport]
  obtain ⟨hnil, -⟩ | ⟨-, -, request, -, header, body, -, -, hanswer, hos⟩ :=
    httpd_cases split files fuel n ⟨[], [], k⟩ hdates running maxLineLength
      (requestText u.path u.host u.usedPort defaultFrom defaultUserAgent)
  · rw [hnil, wget1]
    have hheaders : serverHeaders (.ofText []) = ([], ⟨[], true, true⟩) := by
      rw [serverHeaders]
      rfl
    refine ⟨_, rfl, fun _ => rfl, fun _ => ?_⟩
    simp [hheaders]
  · obtain ⟨st', hrun, -, hlog⟩ := wget1_header (fun _ _ => .ok (header.text ++ body))
      u.path u.host u.usedPort header body rfl defaultFrom defaultUserAgent st
    have hos' : (httpd lib strerror utc split files running maxLineLength fuel n
        (requestText u.path u.host u.usedPort defaultFrom defaultUserAgent) ⟨[], [], k⟩).os =
        header.text ++ body := hos
    rw [hos']
    refine ⟨st', hrun, fun h => ?_, fun hnil => ?_⟩
    · have hlines := List.append_cancel_left (hlog.symm.trans h.2)
      simp [hanswer.lines_ne] at hlines
    · have htext := List.append_eq_nil_iff.1 hnil
      exact absurd htext.1 (headerText_ne_nil _)

theorem own_client_refused_iff_plain :
    let answer := (httpd gregorian (fun _ => "") (fun _ => 0) splitAtAnyOf (fun _ => none)
      (fun _ => true) 1000 0 1
      (requestText plainUrl.path plainUrl.host plainUrl.usedPort defaultFrom defaultUserAgent)
      ⟨[], [], 0⟩).os
    ∃ st', wgetFrom (fun _ _ => .ok answer) plainUrl.text ⟨[], [], [], []⟩ = .ok () st' ∧
      (st'.os = [] ∧ st'.log =
        [] ++ ["Requesting ".toList ++ plainUrl.path ++ " from ".toList ++ plainUrl.host] ↔
        ¬ CutAtLineEnd splitAtAnyOf 1000 plainUrl.path) :=
  own_client_refused_iff _ _ _ _ (datesPrinted_gregorian _ fun _ => by norm_num) rfl plainUrl
    (by decide) 0 ⟨[], [], [], []⟩

end answer

end Nanonet
