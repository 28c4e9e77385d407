import Nanonet.Util.Split
import Nanonet.Util.Strings

/-!
# Requesting a URL

`wget` and `wget1` of `http.cpp`. `wget` cuts a URL at the first slash, and what is before it at the
first colon; a position is `none` where the source has `npos`. The URLs that get as far as the request
are those of the grammar `Url` (`wget_grammar`). `wget1` copies the parts as they are into the lines
of the request, whatever characters they contain (`wget_wellFramed_iff`).
-/

namespace Nanonet

/-! ### Strings -/

/-- `s.find_first_of( c )` -/
def findFirstOf (s : Text) (c : Char) : Option ℕ := s.findIdx? (· == c)

/-- `s.size() - 1`, which wraps around to `npos` for the empty string. -/
def lastPosition (s : Text) : Option ℕ :=
  match s.length with
  | 0 => none
  | n + 1 => some n

theorem findFirstOf_append {s : Text} {c : Char} (h : c ∉ s) (rest : Text) :
    findFirstOf (s ++ c :: rest) c = some s.length := by
  have hnone : s.findIdx? (· == c) = none :=
    List.findIdx?_eq_none_iff.2 fun x hx => by simpa using ne_of_mem_of_not_mem hx h
  simp [findFirstOf, List.findIdx?_append, hnone, List.findIdx?_cons]

theorem findFirstOf_eq_none {s : Text} {c : Char} (h : c ∉ s) : findFirstOf s c = none :=
  List.findIdx?_eq_none_iff.2 fun x hx => by simpa using ne_of_mem_of_not_mem hx h

theorem findFirstOf_cases (s : Text) (c : Char) :
    (c ∉ s ∧ findFirstOf s c = none) ∨
    (∃ t rest, s = t ++ c :: rest ∧ c ∉ t ∧ findFirstOf s c = some t.length) := by
  by_cases h : c ∈ s
  · obtain ⟨t, rest, rfl, ht⟩ := List.eq_append_cons_of_mem h
    exact .inr ⟨t, rest, rfl, ht, findFirstOf_append ht rest⟩
  · exact .inl ⟨h, findFirstOf_eq_none h⟩

theorem lastPosition_ne_none {s : Text} (h : s ≠ []) : lastPosition s ≠ none := by
  cases s with
  | nil => exact absurd rfl h
  | cons c s => simp [lastPosition]

theorem lastPosition_append (host : Text) (c : Char) (port : Text) :
    lastPosition (host ++ c :: port) = some host.length ↔ port = [] := by
  simp [lastPosition]

/-! ### `wget` -/

def httpScheme : Text := ['h', 't', 't', 'p', ':', '/', '/']

def defaultPort : Text := ['8', '0']

section model

variable {σ : Type} (wget1 : Text → Text → Text → Call σ Unit)

/-- The part of `wget` that looks for the colon. -/
def wgetHostport (path hostport : Text) : Call σ Unit :=
  let colon := findFirstOf hostport ':'
  if lastPosition hostport = colon then
    throw (.runtimeError "bad URL format: colon after hostname, but no port")
  else if colon = some 0 then throw (.runtimeError "bad URL format: no hostname before colon")
  else
    let port := match colon with
      | none => defaultPort
      | some colon => hostport.drop (colon + 1)
    let host := match colon with
      | none => hostport
      | some colon => hostport.take colon
    if host = [] then throw (.assertionFailure "host.size()")
    else if port = [] then throw (.assertionFailure "port.size()")
    else wget1 path host port

/-- `wget`; `wget1` gets the path, the host and the port. -/
def wget (url : Text) : Call σ Unit :=
  if httpScheme ≠ url.take 7 then throw (.runtimeError "URL must start with http://")
  else
    let url := url.drop 7
    let slash := findFirstOf url '/'
    if slash = some 0 then throw (.runtimeError "bad URL format: No host[:port] parsed")
    else
      match slash with
      | none => throw (.runtimeError "bad URL format: No slash after host[:port]")
      | some slash => wgetHostport wget1 (url.drop slash) (url.take slash)

end model

@[ext] structure Url where
  host : Text
  port : Option Text
  path : Text
  host_ne : host ≠ []
  host_chars : ':' ∉ host ∧ '/' ∉ host
  port_ok : ∀ p ∈ port, p ≠ [] ∧ '/' ∉ p
  path_slash : path.head? = some '/'

namespace Url

/-- What is between the scheme and the path. -/
def hostport (u : Url) : Text :=
  match u.port with
  | none => u.host
  | some p => u.host ++ ':' :: p

def text (u : Url) : Text := httpScheme ++ (u.hostport ++ u.path)

def usedPort (u : Url) : Text := u.port.getD defaultPort

theorem slash_notMem_hostport (u : Url) : '/' ∉ u.hostport := by
  have hhost := u.host_chars.2
  have hport := u.port_ok
  unfold hostport
  cases hp : u.port with
  | none => exact hhost
  | some p => simpa [hhost] using (hport p hp).2

theorem hostport_ne (u : Url) : u.hostport ≠ [] := by
  unfold hostport
  cases u.port with
  | none => exact u.host_ne
  | some p => simp

theorem exists_path (u : Url) : ∃ rest, u.path = '/' :: rest :=
  List.head?_eq_some_iff.1 u.path_slash

end Url

section grammar

variable {σ : Type} (wget1 : Text → Text → Text → Call σ Unit)

theorem wgetHostport_host (path : Text) {host : Text} (hne : host ≠ []) (hcolon : ':' ∉ host) :
    wgetHostport wget1 path host = wget1 path host defaultPort := by
  have hlast := lastPosition_ne_none hne
  simp [wgetHostport, findFirstOf_eq_none hcolon, hlast, hne, defaultPort]

theorem wgetHostport_port (path : Text) {host port : Text} (hne : host ≠ []) (hcolon : ':' ∉ host)
    (hport : port ≠ []) :
    wgetHostport wget1 path (host ++ ':' :: port) = wget1 path host port := by
  have hlast : ¬ lastPosition (host ++ ':' :: port) = some host.length := by
    rwa [lastPosition_append]
  simp [wgetHostport, findFirstOf_append hcolon, hlast, hne, hport]

theorem wgetHostport_colon_last (path : Text) {host : Text} (hcolon : ':' ∉ host) :
    wgetHostport wget1 path (host ++ [':']) =
      throw (.runtimeError "bad URL format: colon after hostname, but no port") := by
  rw [wgetHostport, findFirstOf_append hcolon, if_pos ((lastPosition_append host ':' []).2 rfl)]

theorem wgetHostport_colon_first (path : Text) {port : Text} (hport : port ≠ []) :
    wgetHostport wget1 path (':' :: port) =
      throw (.runtimeError "bad URL format: no hostname before colon") := by
  have hfind : findFirstOf (':' :: port) ':' = some 0 := findFirstOf_append List.not_mem_nil port
  have hlast : ¬ lastPosition (':' :: port) = some 0 := by
    rwa [← List.nil_append (':' :: port), ← List.length_nil, lastPosition_append]
  rw [wgetHostport, hfind, if_neg hlast, if_pos rfl]

theorem wget_slash {hostport : Text} (hne : hostport ≠ []) (hslash : '/' ∉ hostport)
    (rest : Text) :
    wget wget1 (httpScheme ++ (hostport ++ '/' :: rest)) =
      wgetHostport wget1 ('/' :: rest) hostport := by
  have htake : (httpScheme ++ (hostport ++ '/' :: rest)).take 7 = httpScheme := List.take_left' rfl
  have hdrop : (httpScheme ++ (hostport ++ '/' :: rest)).drop 7 = hostport ++ '/' :: rest :=
    List.drop_left' rfl
  have hzero : ¬ some hostport.length = some 0 := by simpa using hne
  rw [wget, htake, if_neg (not_not.2 rfl), hdrop]
  simp only [findFirstOf_append hslash, if_neg hzero, List.take_left', List.drop_left']

theorem wget_text (u : Url) : wget wget1 u.text = wget1 u.path u.host u.usedPort := by
  obtain ⟨rest, hpath⟩ := u.exists_path
  rw [Url.text, hpath, wget_slash wget1 u.hostport_ne u.slash_notMem_hostport]
  unfold Url.hostport Url.usedPort
  cases hport : u.port with
  | none => exact wgetHostport_host wget1 _ u.host_ne u.host_chars.1
  | some p => exact wgetHostport_port wget1 _ u.host_ne u.host_chars.1 (u.port_ok p hport).1

theorem wget_cases (url : Text) :
    (∃ u : Url, u.text = url) ∨ ∃ what, wget wget1 url = throw (.runtimeError what) := by
  by_cases hscheme : httpScheme = url.take 7
  swap
  · exact .inr ⟨_, if_pos hscheme⟩
  have hurl : url = httpScheme ++ url.drop 7 := by rw [hscheme, List.take_append_drop]
  obtain ⟨-, hnone⟩ | ⟨hostport, rest, hdrop, hslash, hsome⟩ := findFirstOf_cases (url.drop 7) '/'
  · refine .inr ⟨"bad URL format: No slash after host[:port]", ?_⟩
    rw [wget, if_neg (not_not.2 hscheme)]
    simp only [hnone]
    rfl
  by_cases hne : hostport = []
  · refine .inr ⟨"bad URL format: No host[:port] parsed", ?_⟩
    rw [wget, if_neg (not_not.2 hscheme)]
    simp only [hsome, hne]
    rfl
  rw [hdrop] at hurl
  obtain ⟨hcolon, -⟩ | ⟨host, port, rfl, hcolon, -⟩ := findFirstOf_cases hostport ':'
  · exact .inl ⟨⟨hostport, none, '/' :: rest, hne, ⟨hcolon, hslash⟩, by simp, rfl⟩, hurl.symm⟩
  -- the first colon may be at the end, at the start, or between a host and a port
  rw [hurl, wget_slash wget1 hne hslash]
  by_cases hport : port = []
  · subst hport
    exact .inr ⟨_, wgetHostport_colon_last wget1 _ hcolon⟩
  by_cases hhost : host = []
  · subst hhost
    exact .inr ⟨_, wgetHostport_colon_first wget1 _ hport⟩
  obtain ⟨hslash₁, hslash₂⟩ : '/' ∉ host ∧ '/' ∉ port := by simpa using hslash
  exact .inl ⟨⟨host, some port, '/' :: rest, hhost, ⟨hcolon, hslash₁⟩,
    by simpa using ⟨hport, hslash₂⟩, rfl⟩, rfl⟩

end grammar

/-- `wget` gets as far as the request, with these three parts. -/
def Requests (url path host port : Text) : Prop :=
  ∀ (σ : Type) (wget1 : Text → Text → Text → Call σ Unit), wget wget1 url = wget1 path host port

def recordRequest (path host port : Text) : Call (List (Text × Text × Text)) Unit :=
  modify (· ++ [(path, host, port)])

theorem requests_iff (url path host port : Text) :
    Requests url path host port ↔
      ∃ u : Url, u.text = url ∧ u.path = path ∧ u.host = host ∧ u.usedPort = port := by
  constructor
  · intro h
    have hrecord := congrFun (h _ recordRequest) []
    obtain ⟨u, rfl⟩ | ⟨what, hthrow⟩ := wget_cases recordRequest url
    · rw [wget_text] at hrecord
      obtain ⟨hpath, hhost, hport⟩ : u.path = path ∧ u.host = host ∧ u.usedPort = port := by
        injection hrecord with _ hstate
        simpa using hstate
      exact ⟨u, rfl, hpath, hhost, hport⟩
    · rw [hthrow] at hrecord
      cases hrecord
  · rintro ⟨u, rfl, rfl, rfl, rfl⟩ σ wget1
    exact wget_text wget1 u

theorem Url.hostport_injective {u v : Url} (h : u.hostport = v.hostport) :
    u.host = v.host ∧ u.port = v.port := by
  have hu := u.host_chars.1
  have hv := v.host_chars.1
  unfold hostport at h
  cases hup : u.port with
  | none =>
    cases hvp : v.port with
    | none => simpa [hup, hvp] using h
    | some q =>
      rw [hup, hvp] at h
      simp only at h
      simp [h] at hu
  | some p =>
    cases hvp : v.port with
    | none =>
      rw [hup, hvp] at h
      simp only at h
      simp [← h] at hv
    | some q =>
      rw [hup, hvp] at h
      obtain ⟨hhost, hport⟩ := cut_injective hu hv h
      exact ⟨hhost, congrArg some hport⟩

theorem Url.text_injective : Function.Injective Url.text := by
  intro u v h
  obtain ⟨r₁, hr₁⟩ := u.exists_path
  obtain ⟨r₂, hr₂⟩ := v.exists_path
  have hparts : u.hostport ++ u.path = v.hostport ++ v.path := List.append_cancel_left h
  rw [hr₁, hr₂] at hparts
  obtain ⟨hhostport, hpath⟩ :=
    cut_injective u.slash_notMem_hostport v.slash_notMem_hostport hparts
  obtain ⟨hhost, hport⟩ := Url.hostport_injective hhostport
  exact Url.ext hhost hport (by rw [hr₁, hr₂, hpath])

/-- The request is made for exactly the URLs of the grammar, with the parts that make them up, and
before any request every other string is refused. -/
theorem wget_grammar (url : Text) :
    (∀ path host port, Requests url path host port ↔
      ∃ u : Url, u.text = url ∧ u.path = path ∧ u.host = host ∧ u.usedPort = port) ∧
    (∀ u v : Url, u.text = url → v.text = url → u = v) ∧
    ((∀ u : Url, u.text ≠ url) → ∀ (σ : Type) (wget1 : Text → Text → Text → Call σ Unit),
      ∃ what, ∀ st, wget wget1 url st = .error (.runtimeError what) st) := by
  refine ⟨requests_iff url, fun u v hu hv => Url.text_injective (hu.trans hv.symm), ?_⟩
  intro hnot σ wget1
  obtain ⟨u, hu⟩ | ⟨what, hthrow⟩ := wget_cases wget1 url
  · exact absurd hu (hnot u)
  · exact ⟨what, fun st => by rw [hthrow]; rfl⟩

/-! ### `wget1` -/

/-- `newline` of `http.cpp` -/
def httpNewline : Text := ['\r', '\n']

/-- `blank( line )` -/
def blankLine (s : Text) : Bool :=
  s.all fun c => c == '\t' || c == '\n' || c == '\r' || c == ' '

def defaultFrom : Text := "ano@nymous.com".toList

def defaultUserAgent : Text := "KISS CPL/0.9.1 httpclient/0.9.1 (EXPERIMENTAL)".toList

/-- What a request changes: the connections that were opened, the text that was sent, the lines of
the log, and the output. -/
structure WgetState where
  opened : List (Text × Text)
  sent : Text
  log : List Text
  os : Text

def requestText (path host port sender userAgent : Text) : Text :=
  ("GET ".toList ++ path ++ " HTTP/1.0".toList) ++ httpNewline ++
    ("From: ".toList ++ sender) ++ httpNewline ++
    ("Host: ".toList ++ host ++ ":".toList ++ port) ++ httpNewline ++
    ("User-Agent: ".toList ++ userAgent) ++ httpNewline ++
    httpNewline

theorem IStream.getline_length {is is' : IStream} {line : Text}
    (h : is.getline = (some line, is')) : is'.rest.length < is.rest.length := by
  unfold IStream.getline at h
  rcases hwhile : is.getWhile (fun c => !isnewline c) with ⟨_ | ⟨x, xs⟩, _ | c, is₁⟩
  · simp [hwhile] at h
  · obtain ⟨-, rfl⟩ : [] = line ∧ is₁ = is' := by simpa [hwhile] using h
    exact IStream.getWhile_length hwhile
  · obtain ⟨-, rfl⟩ : x :: xs = line ∧ _ = is' := by simpa [hwhile] using h
    have hne : is.rest ≠ [] := by
      intro hnil
      cases hgood : is.good <;> simp [IStream.getWhile, hnil, IStream.span, hgood] at hwhile
    unfold IStream.getWhile at hwhile
    split at hwhile
    · split at hwhile
      · simp only [Prod.mk.injEq] at hwhile
        simpa [← hwhile.2.2] using List.length_pos_iff.2 hne
      · simp at hwhile
    · simp at hwhile
  · obtain ⟨-, rfl⟩ : x :: xs = line ∧ is₁ = is' := by simpa [hwhile] using h
    exact IStream.getWhile_length hwhile

/-- `while( std::getline( ins , line ) ) { .. }`: the lines up to the first blank one. -/
def serverHeaders (ins : IStream) : List Text × IStream :=
  match _h : ins.getline with
  | (none, ins) => ([], ins)
  | (some line, ins) =>
    if blankLine line then ([], ins)
    else
      let (lines, ins) := serverHeaders ins
      (line :: lines, ins)
termination_by ins.rest.length
decreasing_by exact IStream.getline_length _h

/-- `wget1`; `connection` is what opening a connection to a host and a port leads to, which is an
exception or the text that the server answers. -/
def wget1 (connection : Text → Text → Except Exn Text) (path host port sender userAgent : Text) :
    Call WgetState Unit := fun st =>
  match connection host port with
  | .error e => .error e st
  | .ok answer =>
    let requesting := "Requesting ".toList ++ path ++ " from ".toList ++ host
    let (lines, ins) := serverHeaders (.ofText answer)
    .ok () {
      opened := st.opened ++ [(host, port)]
      sent := st.sent ++ requestText path host port sender userAgent
      log := st.log ++ requesting :: lines.map ("Server HTTP header: ".toList ++ ·)
      os := st.os ++ ins.rest }

/-- `wget` with the defaults of `wget1`. -/
def wgetFrom (connection : Text → Text → Except Exn Text) (url : Text) : Call WgetState Unit :=
  wget (fun path host port => wget1 connection path host port defaultFrom defaultUserAgent) url

/-! ### The lines of the request -/

def requestLine (path : Text) : Text := "GET ".toList ++ path ++ " HTTP/1.0".toList

/-- The lines that a request is meant to have; the last one is empty. -/
def requestLines (path host port : Text) : List Text :=
  [requestLine path, "From: ".toList ++ defaultFrom, "Host: ".toList ++ host ++ ":".toList ++ port,
    "User-Agent: ".toList ++ defaultUserAgent, []]

/-- The text consists of these lines, which end in `CR LF` and have no `CR` or `LF` elsewhere, and
the fields of the first one are those between its spaces. -/
structure WellFramed (path host port sent : Text) : Prop where
  lines : split sent '\n' = (requestLines path host port).map (· ++ ['\r']) ++ [[]]
  no_cr : ∀ line ∈ requestLines path host port, '\r' ∉ line
  fields : split (requestLine path) ' ' = ["GET".toList, path, "HTTP/1.0".toList]

theorem joinedLines_eq (a b c d : Text) :
    a ++ httpNewline ++ b ++ httpNewline ++ c ++ httpNewline ++ d ++ httpNewline ++ httpNewline =
      ['\n'].intercalate ([a, b, c, d, []].map (· ++ ['\r']) ++ [[]]) := by
  simp [httpNewline, List.intercalate_cons_cons, List.intercalate_singleton]

theorem requestText_eq (path host port : Text) :
    requestText path host port defaultFrom defaultUserAgent =
      ['\n'].intercalate ((requestLines path host port).map (· ++ ['\r']) ++ [[]]) :=
  joinedLines_eq _ _ _ _

theorem requestLine_eq (path : Text) :
    requestLine path = [' '].intercalate ["GET".toList, path, "HTTP/1.0".toList] := by
  have hget : "GET ".toList = "GET".toList ++ [' '] := by decide
  have hversion : " HTTP/1.0".toList = [' '] ++ "HTTP/1.0".toList := by decide
  show "GET ".toList ++ path ++ " HTTP/1.0".toList = _
  rw [hget, hversion, List.intercalate_cons_cons, List.intercalate_cons_cons,
    List.intercalate_singleton]
  simp only [List.append_assoc]

theorem notMem_lines_iff {c : Char} {a b d e f g : Text} (ha : c ∉ a) (hb : c ∉ b) (hd : c ∉ d)
    (he : c ∉ e) (hf : c ∉ f) (hg : c ∉ g) (path host port : Text) :
    (∀ line ∈ [a ++ path ++ b, d, e ++ host ++ f ++ port, g, []], c ∉ line) ↔
      c ∉ path ++ host ++ port := by
  simp [ha, hb, hd, he, hf, hg]

theorem forall_requestLines_iff {c : Char} (hc : c = '\r' ∨ c = '\n') (path host port : Text) :
    (∀ line ∈ requestLines path host port, c ∉ line) ↔ c ∉ path ++ host ++ port := by
  have hconstant : ∀ s ∈ ["GET ".toList, " HTTP/1.0".toList, "From: ".toList ++ defaultFrom,
      "Host: ".toList, ":".toList, "User-Agent: ".toList ++ defaultUserAgent], c ∉ s := by
    rcases hc with rfl | rfl <;> decide
  simp only [List.forall_mem_cons] at hconstant
  obtain ⟨hget, hversion, hfrom, hhost, hcolon, hagent, -⟩ := hconstant
  exact notMem_lines_iff hget hversion hfrom hhost hcolon hagent path host port

theorem wellFramed_requestText_iff (path host port : Text) :
    WellFramed path host port (requestText path host port defaultFrom defaultUserAgent) ↔
      '\r' ∉ path ++ host ++ port ∧ '\n' ∉ path ++ host ++ port ∧ ' ' ∉ path := by
  have hlines : split (requestText path host port defaultFrom defaultUserAgent) '\n' =
      (requestLines path host port).map (· ++ ['\r']) ++ [[]] ↔ '\n' ∉ path ++ host ++ port := by
    have hne : (requestLines path host port).map (· ++ ['\r']) ++ [[]] ≠ [] :=
      List.append_ne_nil_of_right_ne_nil _ (List.cons_ne_nil _ _)
    rw [requestText_eq, split_intercalate_iff hne, ← forall_requestLines_iff (.inr rfl),
      List.forall_mem_append, List.forall_mem_map]
    simp
  have hfields : split (requestLine path) ' ' = ["GET".toList, path, "HTTP/1.0".toList] ↔
      ' ' ∉ path := by
    rw [requestLine_eq, split_intercalate_iff (by simp)]
    simp
  have hcr := forall_requestLines_iff (.inl rfl) path host port
  constructor
  · intro h
    exact ⟨hcr.1 h.no_cr, hlines.1 h.lines, hfields.1 h.fields⟩
  · rintro ⟨h₁, h₂, h₃⟩
    exact ⟨hlines.2 h₂, hcr.2 h₁, hfields.2 h₃⟩

/-- What is sent for a URL is well framed if and only if its parts have no `CR` and no `LF` and its
path has no space. -/
theorem wget_wellFramed_iff {connection : Text → Text → Except Exn Text} (u : Url) {answer : Text}
    (hopen : connection u.host u.usedPort = .ok answer) (st : WgetState) :
    ∃ sent st', wgetFrom connection u.text st = .ok () st' ∧ st'.sent = st.sent ++ sent ∧
      (WellFramed u.path u.host u.usedPort sent ↔
        '\r' ∉ u.path ++ u.host ++ u.usedPort ∧ '\n' ∉ u.path ++ u.host ++ u.usedPort ∧
          ' ' ∉ u.path) := by
  have hrun : ∃ st', wgetFrom connection u.text st = .ok () st' ∧ st'.sent =
      st.sent ++ requestText u.path u.host u.usedPort defaultFrom defaultUserAgent := by
    rw [wgetFrom, wget_text, wget1, hopen]
    exact ⟨_, rfl, rfl⟩
  obtain ⟨st', hst', hsent⟩ := hrun
  exact ⟨_, st', hst', hsent, wellFramed_requestText_iff _ _ _⟩

def plainUrl : Url := ⟨['h'], none, ['/'], by decide, by decide, by simp, rfl⟩

theorem wget_wellFramed_iff_plain :
    ∃ sent st', wgetFrom (fun _ _ => .ok []) plainUrl.text ⟨[], [], [], []⟩ = .ok () st' ∧
      st'.sent = [] ++ sent ∧
      (WellFramed plainUrl.path plainUrl.host plainUrl.usedPort sent ↔
        '\r' ∉ plainUrl.path ++ plainUrl.host ++ plainUrl.usedPort ∧
          '\n' ∉ plainUrl.path ++ plainUrl.host ++ plainUrl.usedPort ∧ ' ' ∉ plainUrl.path) :=
  wget_wellFramed_iff plainUrl rfl ⟨[], [], [], []⟩

/-- A URL whose path brings a header line of its own. -/
def smugglingUrl : Url :=
  ⟨['h'], none, "/ HTTP/1.0\r\nX-Y: z".toList, by decide, by decide, by simp, rfl⟩

theorem smugglingUrl_not_wellFramed :
    ¬ ∀ (connection : Text → Text → Except Exn Text) (u : Url) (answer : Text) (st : WgetState),
      connection u.host u.usedPort = .ok answer →
        ∃ sent st', wgetFrom connection u.text st = .ok () st' ∧ st'.sent = st.sent ++ sent ∧
          WellFramed u.path u.host u.usedPort sent := by
  intro h
  obtain ⟨sent, st', hrun, hsent, hframed⟩ :=
    h (fun _ _ => .ok []) smugglingUrl [] ⟨[], [], [], []⟩ rfl
  rw [wgetFrom, wget_text, wget1] at hrun
  injection hrun with _ hst'
  rw [← hst'] at hsent
  have htext : requestText smugglingUrl.path smugglingUrl.host smugglingUrl.usedPort defaultFrom
      defaultUserAgent = sent := List.append_cancel_left hsent
  rw [← htext, wellFramed_requestText_iff] at hframed
  exact absurd hframed.1 (by decide)

end Nanonet
