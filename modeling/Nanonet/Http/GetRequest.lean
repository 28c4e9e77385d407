import Nanonet.Util.Split
import Nanonet.Util.Strings

/-!
# Parsing a GET request

`parse_get_request` of `http.cpp` on a well-formed request, whose lines may end in `LF` or `CR LF`
each on its own. `trim` leaves the `CR` where it is, so a header's value keeps it, and an empty line
that ends in `CR LF` is not empty but a header without a colon. `parseGetRequest_iff` is the exact
condition under which the request is parsed all the same.
-/

namespace Nanonet

@[ext] structure GetRequest where
  version : Text := []
  host : Text := []
  absPath : Text := []
  userAgent : Text := []
  accept : Text := []
  deriving DecidableEq, Repr

/-- What the parser reads from and writes to: the stream, and the lines of the log if there is
one. -/
structure HttpInput where
  is : IStream
  log : Option (List String)
  deriving DecidableEq, Repr

def GET : Text := ['G', 'E', 'T']
def HTTP : Text := ['H', 'T', 'T', 'P']
def UserAgent : Text := ['U', 's', 'e', 'r', '-', 'A', 'g', 'e', 'n', 't']
def Host : Text := ['H', 'o', 's', 't']
def Accept : Text := ['A', 'c', 'c', 'e', 'p', 't']

def throwGetParseError {α : Type} (what : String) (detail : Text) : Except Exn α :=
  .error (.runtimeError ("CPL HTTP GET request parser: " ++ what ++ String.ofList detail))

/-- The warning about a header that is not stored. -/
def ignoringHeader (line : Text) : String := "Ignoring HTTP header: " ++ String.ofList line

section parser

variable (split : Text → Text → List Text)

/-- The block on the first line; `split` is `boost::algorithm::split` with `is_any_of`. -/
def parseFirstLine (line : Text) : Except Exn (Text × Text) :=
  let (get, iss) := (IStream.ofText line).readWord
  let (absPath, iss) := iss.readWord
  let (ver, _) := iss.readWord
  match get, absPath, ver with
  | some get, some absPath, some ver =>
    if get ≠ GET then throwGetParseError "Not a GET request: " line
    else
      match split ver ['/'] with
      | [http, version] =>
        if http ≠ HTTP then throwGetParseError "Bad version: " ver
        else .ok (absPath, version)
      | _ => throwGetParseError "Bad version: " ver
  | _, _, _ => throwGetParseError "Malformed request: " line

/-- The chain of tests on a header's name. -/
def setHeader (ret : GetRequest) (line : Text) (hh : Text × Text) : Call HttpInput GetRequest :=
  fun st =>
    if hh.1 = UserAgent then .ok { ret with userAgent := hh.2 } st
    else if hh.1 = Host then .ok { ret with host := hh.2 } st
    else if hh.1 = Accept then .ok { ret with accept := hh.2 } st
    else .ok ret { st with log := st.log.map (· ++ [ignoringHeader line]) }

/-- `while (std::getline(is, l)) { .. }`. -/
def headerLoop : Nat → GetRequest → Call HttpInput GetRequest
  | 0, _ => fun st => .error .outOfFuel st
  | fuel + 1, ret => fun st =>
    match st.is.getline with
    | (none, is) => .ok ret { st with is := is }
    | (some l, is) =>
      let line := trim l
      if line = [] then .ok ret { st with is := is }
      else
        match splitColonBlank line with
        | .error e => .error e { st with is := is }
        | .ok hh => (setHeader ret line hh >>= headerLoop fuel) { st with is := is }

def parseGetRequest (firstLine : Text) : Call HttpInput GetRequest := fun st =>
  match parseFirstLine split (trim firstLine) with
  | .error e => .error e st
  | .ok (absPath, version) =>
    headerLoop (st.is.rest.length + 1) { absPath := absPath, version := version } st

end parser

/-! ### Well-formed requests -/

/-- The end of a line before its `LF`. -/
def lineEnd (cr : Bool) : Text := if cr then ['\r'] else []

/-- A header line, with its own line ending. -/
structure HeaderLine where
  name : Text
  value : Text
  cr : Bool
  name_ne : name ≠ []
  name_chars : ∀ c ∈ name, c ≠ ':' ∧ isspace c = false
  value_chars : ∀ c ∈ value, c ≠ '\r' ∧ c ≠ '\n'
  value_head : ∀ c ∈ value.head?, isblank c = false
  value_last : ∀ c ∈ value.getLast?, isblank c = false

structure WellFormedRequest where
  path : Text
  version : Text
  firstCr : Bool
  headers : List HeaderLine
  emptyCr : Bool
  body : Text
  path_ne : path ≠ []
  path_chars : ∀ c ∈ path, isspace c = false
  version_ne : version ≠ []
  version_chars : ∀ c ∈ version, isspace c = false ∧ c ≠ '/'

namespace HeaderLine

def line (h : HeaderLine) : Text := h.name ++ ':' :: ' ' :: (h.value ++ lineEnd h.cr)

def stored (h : HeaderLine) : Text := h.value ++ lineEnd h.cr

end HeaderLine

namespace WellFormedRequest

def firstLine (r : WellFormedRequest) : Text :=
  GET ++ ' ' :: (r.path ++ ' ' :: ((HTTP ++ ['/']) ++ r.version ++ lineEnd r.firstCr))

def text (r : WellFormedRequest) : Text :=
  (r.headers.flatMap fun h => h.line ++ ['\n']) ++ (lineEnd r.emptyCr ++ '\n' :: r.body)

def lastHeader (r : WellFormedRequest) (name : Text) : Option HeaderLine :=
  r.headers.reverse.find? fun h => h.name = name

/-- The value of the last header of a name, empty if absent. -/
def headerValue (r : WellFormedRequest) (name : Text) : Text :=
  ((r.lastHeader name).map HeaderLine.value).getD []

/-- The call returned the request, and the stream is at the first byte of the body. -/
def Parsed (r : WellFormedRequest) : EStateM.Result Exn HttpInput GetRequest → Prop
  | .ok ret st => ret = ⟨r.version, r.headerValue Host, r.path, r.headerValue UserAgent,
      r.headerValue Accept⟩ ∧ st.is = ⟨r.body, false, false⟩
  | .error _ _ => False

/-- The empty line ends in `LF` alone, and so does the last header of each name that is stored. -/
def NoCrWhereItMatters (r : WellFormedRequest) : Prop :=
  r.emptyCr = false ∧
    ∀ name ∈ [Host, UserAgent, Accept], ∀ h ∈ r.lastHeader name, h.cr = false

end WellFormedRequest

/-! ### The first line -/

theorem lineEnd_spaces (cr : Bool) : ∀ c ∈ lineEnd cr, isspace c = true := by
  cases cr <;> simp [lineEnd, isspace]

theorem parseFirstLine_wellFormed {split : Text → Text → List Text} (hsplit : SplitsAtAnyOf split)
    (r : WellFormedRequest) :
    parseFirstLine split (trim r.firstLine) = .ok (r.path, r.version) := by
  have hspace : ∀ c ∈ [' '], isspace c = true := by simp [isspace]
  have hhttp : ∀ c ∈ (HTTP ++ ['/']), isspace c = false := by simp [HTTP, isspace]
  have hget := IStream.readWord_word [] GET
    (' ' :: (r.path ++ ' ' :: ((HTTP ++ ['/']) ++ r.version ++ lineEnd r.firstCr)))
    (by simp) (by decide) (by simp [GET, isspace]) (by simp [isspace])
  have hpath := IStream.readWord_word [' '] r.path
    (' ' :: ((HTTP ++ ['/']) ++ r.version ++ lineEnd r.firstCr))
    hspace r.path_ne r.path_chars (by simp [isspace])
  have hver := IStream.readWord_word [' '] ((HTTP ++ ['/']) ++ r.version)
    (lineEnd r.firstCr) hspace (by simp)
    (fun c hc => (List.mem_append.1 hc).elim (hhttp c) fun hc => (r.version_chars c hc).1)
    (fun c hc => lineEnd_spaces _ c (List.mem_of_mem_head? hc))
  have hsplits : split ((HTTP ++ ['/']) ++ r.version) ['/'] = [HTTP, r.version] := by
    rw [hsplit, splitAtAnyOf, List.append_assoc,
      List.singleton_append,
      List.splitOnP_append_cons_of_forall_mem (by simp [HTTP]) '/' (by decide),
      List.splitOnP_eq_singleton]
    intro c hc
    simpa using (r.version_chars c hc).2
  simp only [List.nil_append, List.cons_append] at hget hpath hver
  simp only [parseFirstLine, trim, WellFormedRequest.firstLine, IStream.ofText, hget, hpath, hver,
    List.isEmpty_cons, hsplits, ne_eq, not_true_eq_false, if_false]

/-! ### The headers -/

/-- What the loop makes of a header line. -/
def storeHeader (ret : GetRequest) (h : HeaderLine) : GetRequest :=
  if h.name = UserAgent then { ret with userAgent := h.stored }
  else if h.name = Host then { ret with host := h.stored }
  else if h.name = Accept then { ret with accept := h.stored }
  else ret

theorem HeaderLine.newline_notMem (h : HeaderLine) : '\n' ∉ h.line := by
  have hend : '\n' ∉ lineEnd h.cr := by cases h.cr <;> simp [lineEnd]
  simp only [line, List.mem_append, List.mem_cons, not_or]
  refine ⟨fun hc => ?_, by decide, by decide, fun hc => (h.value_chars _ hc).2 rfl, hend⟩
  have := (h.name_chars _ hc).2
  revert this
  decide

theorem HeaderLine.split_line (h : HeaderLine) :
    splitColonBlank h.line = .ok (h.name, h.stored) := by
  refine splitColonBlank_header (fun hc => (h.name_chars _ hc).1 rfl) ?_
  cases hvalue : h.value with
  | nil => cases h.cr <;> simp [lineEnd, isblank]
  | cons c cs => exact fun d hd => h.value_head d (by simpa [hvalue] using hd)

theorem headerLoop_header (h : HeaderLine) (fuel : Nat) (ret : GetRequest) (rest : Text)
    (log : Option (List String)) :
    ∃ log', headerLoop (fuel + 1) ret ⟨⟨h.line ++ '\n' :: rest, false, false⟩, log⟩ =
      headerLoop fuel (storeHeader ret h) ⟨⟨rest, false, false⟩, log'⟩ := by
  have hne : h.line ≠ [] := by simp [HeaderLine.line]
  rw [headerLoop]
  simp only [IStream.getline_line h.newline_notMem, trim, if_neg hne, h.split_line, setHeader, bind,
    EStateM.bind, storeHeader]
  split_ifs
  · exact ⟨log, rfl⟩
  · exact ⟨log, rfl⟩
  · exact ⟨log, rfl⟩
  · exact ⟨_, rfl⟩

theorem headerLoop_headers (hs : List HeaderLine) (fuel : Nat) (ret : GetRequest) (rest : Text)
    (log : Option (List String)) :
    ∃ log', headerLoop (hs.length + fuel) ret
        ⟨⟨(hs.flatMap fun h => h.line ++ ['\n']) ++ rest, false, false⟩, log⟩ =
      headerLoop fuel (hs.foldl storeHeader ret) ⟨⟨rest, false, false⟩, log'⟩ := by
  induction hs generalizing ret log with
  | nil => exact ⟨log, by simp⟩
  | cons h hs ih =>
    obtain ⟨log₁, hone⟩ := headerLoop_header h (hs.length + fuel) ret
      ((hs.flatMap fun h => h.line ++ ['\n']) ++ rest) log
    obtain ⟨log₂, hrest⟩ := ih (storeHeader ret h) log₁
    refine ⟨log₂, ?_⟩
    rw [List.foldl_cons, ← hrest, ← hone, List.length_cons, Nat.add_right_comm]
    simp

/-- The empty line ends the loop where it ends in `LF` alone, and is a header without a colon
where it does not. -/
theorem headerLoop_empty (cr : Bool) (fuel : Nat) (ret : GetRequest) (body : Text)
    (log : Option (List String)) :
    (cr = false ∧ headerLoop (fuel + 1) ret ⟨⟨lineEnd cr ++ '\n' :: body, false, false⟩, log⟩ =
        .ok ret ⟨⟨body, false, false⟩, log⟩) ∨
      (cr = true ∧ ∃ what, headerLoop (fuel + 1) ret
          ⟨⟨lineEnd cr ++ '\n' :: body, false, false⟩, log⟩ =
        .error (.runtimeError what) ⟨⟨body, false, false⟩, log⟩) := by
  have hline : '\n' ∉ lineEnd cr := by cases cr <;> simp [lineEnd]
  rw [headerLoop]
  simp only [IStream.getline_line hline, trim]
  cases cr with
  | false => exact .inl ⟨rfl, rfl⟩
  | true =>
    obtain ⟨what, hsplit⟩ := splitColonBlank_noColon (s := lineEnd true) (by simp [lineEnd])
    exact .inr ⟨rfl, what, by simp only [hsplit]; rfl⟩

/-! ### The fields -/

/-- A field that the headers of a name are stored in. -/
def Stores (field : GetRequest → Text) (name : Text) : Prop :=
  ∀ ret h, field (storeHeader ret h) = if h.name = name then h.stored else field ret

theorem stores_host : Stores GetRequest.host Host := by
  intro ret h
  have hne : Host ≠ UserAgent := by decide
  unfold storeHeader
  split_ifs <;> simp_all

theorem stores_userAgent : Stores GetRequest.userAgent UserAgent := by
  intro ret h
  unfold storeHeader
  split_ifs <;> rfl

theorem stores_accept : Stores GetRequest.accept Accept := by
  intro ret h
  have hne : Accept ≠ UserAgent ∧ Accept ≠ Host := by decide
  unfold storeHeader
  split_ifs <;> simp_all

theorem Stores.foldl {field : GetRequest → Text} {name : Text} (hfield : Stores field name)
    (hs : List HeaderLine) (ret : GetRequest) :
    field (hs.foldl storeHeader ret) =
      ((hs.reverse.find? fun h => h.name = name).map HeaderLine.stored).getD (field ret) := by
  induction hs generalizing ret with
  | nil => rfl
  | cons h hs ih =>
    rw [List.foldl_cons, ih, hfield, List.reverse_cons, List.find?_append]
    cases hs.reverse.find? fun h => h.name = name with
    | some h' => rfl
    | none => by_cases hname : h.name = name <;> simp [hname]

theorem foldl_firstLine (hs : List HeaderLine) (ret : GetRequest) :
    (hs.foldl storeHeader ret).version = ret.version ∧
      (hs.foldl storeHeader ret).absPath = ret.absPath := by
  induction hs generalizing ret with
  | nil => exact ⟨rfl, rfl⟩
  | cons h hs ih =>
    rw [List.foldl_cons, (ih _).1, (ih _).2]
    unfold storeHeader
    split_ifs <;> exact ⟨rfl, rfl⟩

theorem stored_eq_value_iff (last : Option HeaderLine) :
    (last.map HeaderLine.stored).getD [] = (last.map HeaderLine.value).getD [] ↔
      ∀ h ∈ last, h.cr = false := by
  cases last with
  | none => simp
  | some h => cases hcr : h.cr <;> simp [HeaderLine.stored, lineEnd, hcr]

/-! ### The parser -/

theorem parseGetRequest_run {split : Text → Text → List Text} (hsplit : SplitsAtAnyOf split)
    (r : WellFormedRequest) (log : Option (List String)) :
    ∃ fuel log', parseGetRequest split r.firstLine ⟨.ofText r.text, log⟩ =
      headerLoop (fuel + 1)
        (r.headers.foldl storeHeader { absPath := r.path, version := r.version })
        ⟨⟨lineEnd r.emptyCr ++ '\n' :: r.body, false, false⟩, log'⟩ := by
  have hlen : r.headers.length ≤ (r.headers.flatMap fun h => h.line ++ ['\n']).length := by
    induction r.headers with
    | nil => exact Nat.zero_le _
    | cons h hs ih =>
      rw [List.flatMap_cons, List.length_append, List.length_append, List.length_cons]
      simp only [List.length_cons, List.length_nil]
      omega
  obtain ⟨fuel, hfuel⟩ : ∃ fuel, r.text.length + 1 = r.headers.length + (fuel + 1) := by
    refine ⟨r.text.length - r.headers.length, ?_⟩
    rw [WellFormedRequest.text, List.length_append] at *
    omega
  obtain ⟨log', hloop⟩ := headerLoop_headers r.headers (fuel + 1)
    { absPath := r.path, version := r.version } (lineEnd r.emptyCr ++ '\n' :: r.body) log
  refine ⟨fuel, log', ?_⟩
  rw [← hloop, ← hfuel]
  simp only [parseGetRequest, parseFirstLine_wellFormed hsplit, IStream.ofText,
    WellFormedRequest.text]

/-- **When `parse_get_request` parses a well-formed request.** Exactly where the empty line ends in
`LF` alone, and for each of the three names the last header of that name does. -/
theorem parseGetRequest_iff {split : Text → Text → List Text} (hsplit : SplitsAtAnyOf split)
    (r : WellFormedRequest) (log : Option (List String)) :
    r.Parsed (parseGetRequest split r.firstLine ⟨.ofText r.text, log⟩) ↔ r.NoCrWhereItMatters := by
  obtain ⟨fuel, log', hrun⟩ := parseGetRequest_run hsplit r log
  rw [hrun]
  obtain ⟨hcr, hend⟩ | ⟨hcr, what, hend⟩ := headerLoop_empty r.emptyCr fuel
      (r.headers.foldl storeHeader { absPath := r.path, version := r.version }) r.body log'
  · obtain ⟨hversion, hpath⟩ :=
      foldl_firstLine r.headers { absPath := r.path, version := r.version }
    rw [hend]
    simp only [WellFormedRequest.Parsed, WellFormedRequest.NoCrWhereItMatters, hcr, true_and,
      and_true, List.forall_mem_cons, List.not_mem_nil, false_implies, implies_true,
      WellFormedRequest.headerValue, ← stored_eq_value_iff]
    have hhost := stores_host.foldl r.headers { absPath := r.path, version := r.version }
    have hagent := stores_userAgent.foldl r.headers { absPath := r.path, version := r.version }
    have haccept := stores_accept.foldl r.headers { absPath := r.path, version := r.version }
    rw [GetRequest.ext_iff, hversion, hpath, hhost, hagent, haccept]
    simp only [true_and, WellFormedRequest.lastHeader]
  · rw [hend]
    simp [WellFormedRequest.Parsed, WellFormedRequest.NoCrWhereItMatters, hcr]

/-- `GET / HTTP/1.1` with a single header `Host: x`, every line ended the same way. -/
def requestOf (cr : Bool) : WellFormedRequest where
  path := ['/']
  version := ['1', '.', '1']
  firstCr := cr
  headers := [{
    name := Host, value := ['x'], cr := cr, name_ne := by decide,
    name_chars := by simp [Host, isspace], value_chars := by simp,
    value_head := by simp [isblank], value_last := by simp [isblank] }]
  emptyCr := cr
  body := ['b']
  path_ne := by decide
  path_chars := by simp [isspace]
  version_ne := by decide
  version_chars := by simp [isspace]

theorem parseGetRequest_iff_lf :
    (requestOf false).Parsed (parseGetRequest splitAtAnyOf (requestOf false).firstLine
      ⟨.ofText (requestOf false).text, none⟩) := by
  refine (parseGetRequest_iff splitsAtAnyOf_splitAtAnyOf (requestOf false) none).2 ⟨rfl, ?_⟩
  intro name _ h hlast
  have hmem := List.mem_of_find?_eq_some hlast
  obtain rfl : h = _ := by simpa [requestOf] using hmem
  rfl

/-- With `CR LF` everywhere the request is rejected: the empty line has no colon. -/
theorem parseGetRequest_crlf :
    (∃ what st, parseGetRequest splitAtAnyOf (requestOf true).firstLine
        ⟨.ofText (requestOf true).text, none⟩ = .error (.runtimeError what) st) ∧
      ¬ (requestOf true).Parsed (parseGetRequest splitAtAnyOf (requestOf true).firstLine
        ⟨.ofText (requestOf true).text, none⟩) := by
  obtain ⟨fuel, log', hrun⟩ := parseGetRequest_run splitsAtAnyOf_splitAtAnyOf (requestOf true) none
  obtain ⟨hcr, -⟩ | ⟨-, what, hend⟩ := headerLoop_empty (requestOf true).emptyCr fuel
    ((requestOf true).headers.foldl storeHeader
      { absPath := (requestOf true).path, version := (requestOf true).version })
    (requestOf true).body log'
  · cases hcr
  · rw [hrun, hend]
    exact ⟨⟨what, _, rfl⟩, id⟩

end Nanonet
