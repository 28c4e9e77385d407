import Nanonet.Http.GetRequest
import Nanonet.Http.Wget
import Nanonet.Util.Datetime

/-!
# Answering a GET request

The functions of `http.cpp` that write the header of a response, and `http_service_handle_line` of
`tcp-test.cpp`, which answers a GET request with the file that the path names. The path is a word of
the request's first line, so it brings no line end into the header (`HttpHeader`), and a client such
as `wget1` finds the end of the header and with it the body (`HttpHeader.serverHeaders_text`).
-/

namespace Nanonet

/-! ### Headers -/

/-- `nanonet::http::endl` -/
def httpEndl : Text := ['\r', '\n']

def OneLine (s : Text) : Prop := ∀ c ∈ s, c ≠ '\r' ∧ c ≠ '\n'

instance (s : Text) : Decidable (OneLine s) := List.decidableBAll _ s

@[simp] theorem oneLine_append {s t : Text} : OneLine (s ++ t) ↔ OneLine s ∧ OneLine t :=
  List.forall_mem_append

@[simp] theorem oneLine_cons {c : Char} {s : Text} :
    OneLine (c :: s) ↔ (c ≠ '\r' ∧ c ≠ '\n') ∧ OneLine s := List.forall_mem_cons

@[simp] theorem oneLine_nil : OneLine [] := List.forall_mem_nil _

theorem OneLine.notMem {s : Text} (h : OneLine s) : '\r' ∉ s ∧ '\n' ∉ s :=
  ⟨fun hmem => (h _ hmem).1 rfl, fun hmem => (h _ hmem).2 rfl⟩

theorem OneLine.of_not_space {s : Text} (h : ∀ c ∈ s, isspace c = false) : OneLine s := by
  intro c hc
  have hspace := h c hc
  constructor
  · rintro rfl
    cases hspace
  · rintro rfl
    cases hspace

theorem OneLine.cString {s : Text} (h : OneLine s) : OneLine (cString s) :=
  fun c hc => h c (List.takeWhile_subset _ hc)

theorem blankLine_append (s t : Text) : blankLine (s ++ t) = (blankLine s && blankLine t) :=
  List.all_append

/-- Lines, and the blank one that ends a header. -/
def headerText (lines : List Text) : Text :=
  (lines.flatMap fun line => line ++ httpEndl) ++ httpEndl

/-- The lines of a header: none has a line end of its own, and none is blank. -/
structure HttpHeader where
  lines : List Text
  one_line : ∀ line ∈ lines, OneLine line
  not_blank : ∀ line ∈ lines, blankLine line = false

def HttpHeader.text (h : HttpHeader) : Text := headerText h.lines

/-! ### Reading a header -/

theorem serverHeaders_blank {ins ins' : IStream} {line : Text}
    (h : ins.getline = (some line, ins')) (hblank : blankLine line = true) :
    serverHeaders ins = ([], ins') := by
  rw [serverHeaders]
  split
  · next heq =>
    rw [h] at heq
    cases heq
  · next heq =>
    rw [h] at heq
    cases heq
    rw [if_pos hblank]

theorem serverHeaders_line {ins ins' : IStream} {line : Text}
    (h : ins.getline = (some line, ins')) (hblank : blankLine line = false) :
    serverHeaders ins = (line :: (serverHeaders ins').1, (serverHeaders ins').2) := by
  rw [serverHeaders]
  split
  · next heq =>
    rw [h] at heq
    cases heq
  · next heq =>
    rw [h] at heq
    cases heq
    rw [hblank]
    rfl

theorem HttpHeader.serverHeaders_text (h : HttpHeader) (body : Text) :
    serverHeaders (.ofText (h.text ++ body)) =
      (h.lines.map (· ++ ['\r']), ⟨body, false, false⟩) := by
  obtain ⟨lines, hline, hblank⟩ := h
  show serverHeaders ⟨(lines.flatMap fun line => line ++ httpEndl) ++ httpEndl ++ body, _, _⟩ = _
  induction lines with
  | nil =>
    have hread := IStream.getline_line (show '\n' ∉ ['\r'] by decide) body
    exact serverHeaders_blank hread rfl
  | cons line lines ih =>
    obtain ⟨hone, hline⟩ := List.forall_mem_cons.1 hline
    obtain ⟨hsome, hblank⟩ := List.forall_mem_cons.1 hblank
    have hnewline : '\n' ∉ line ++ ['\r'] := by
      rw [List.mem_append, not_or]
      exact ⟨hone.notMem.2, by decide⟩
    have hread := IStream.getline_line hnewline
      ((lines.flatMap fun line => line ++ httpEndl) ++ httpEndl ++ body)
    have htext : ((line :: lines).flatMap fun line => line ++ httpEndl) ++ httpEndl ++ body =
        (line ++ ['\r']) ++ '\n' ::
          ((lines.flatMap fun line => line ++ httpEndl) ++ httpEndl ++ body) := by
      simp [httpEndl]
    have hnot : blankLine (line ++ ['\r']) = false := by
      rw [blankLine_append, hsome, Bool.false_and]
    rw [htext, serverHeaders_line hread hnot, ih hline hblank]
    rfl

/-! ### Writing a header -/

/-- What a handler writes to; `reads` counts the calls of `utc()`. -/
structure Service where
  os : Text
  log : List String
  reads : ℕ

def write (text : Text) : Call Service Unit := fun w => .ok () { w with os := w.os ++ text }

@[simp] theorem write_apply (text : Text) (w : Service) :
    write text w = .ok () { w with os := w.os ++ text } := rfl

def defaultServerIdentification : Text := "KISS/CPL httpd/0.9.1 (Linux)".toList

def writeContentType (ct cs : Text) : Call Service Unit :=
  write ("Content-Type: ".toList ++ ct ++ "; charset=".toList ++ cs ++ httpEndl)

def contentTypeFromFileName (name : Text) : Text :=
  if ".html".toList <:+ name then "text/html".toList
  else if ".txt".toList <:+ name then "text/plain".toList
  else "application/octet-stream".toList

def writeConnection (what : Text) : Call Service Unit :=
  write ("Connection: ".toList ++ what ++ httpEndl)

def writeServer (server : Text) : Call Service Unit :=
  write ("Server: ".toList ++ server ++ httpEndl)

section model

variable (lib : CalendarLibrary) (strerror : ℕ → String) (utc : ℕ → ℚ)

def formatNow (now : ℚ) : Except Exn Text :=
  formatDatetime lib strerror now defaultDatetimeFormat defaultPastLimit ['-']

/-- `utc()`, each call of which reads the clock again. -/
def readUtc : Call Service ℚ := fun w => .ok (utc w.reads) { w with reads := w.reads + 1 }

/-- `write_date( os, now )`; what stands before the date is written before it is formatted. -/
def writeDate (now : ℚ) : Call Service Unit := do
  let now ← if now < 0 then readUtc utc else pure now
  write "Date: ".toList
  match formatNow lib strerror now with
  | .error e => throw e
  | .ok date => write (date ++ httpEndl)

def writeHttpHeader200 (ct : Text) (now : ℚ) (serverId : Text) : Call Service Unit := do
  write ("HTTP/1.1 200 OK".toList ++ httpEndl)
  writeDate lib strerror utc now
  writeServer serverId
  writeConnection "close".toList
  writeContentType ct "utf-8".toList
  write httpEndl

def writeHttpHeader404 (reason : Text) (now : ℚ) (serverId : Text) : Call Service Unit := do
  write ("HTTP/1.1 404 Not Found (".toList ++ reason ++ ")".toList ++ httpEndl)
  writeDate lib strerror utc now
  writeServer serverId
  writeConnection "close".toList
  write httpEndl

end model

/-! ### Answering a request -/

/-- A file that was opened: the characters that can be read, and the `what()` of the exception that
reading on from there throws, if it does. -/
structure FileStream where
  content : Text
  failure : Option Text
  deriving DecidableEq

/-- The file if `file.peek()` leaves the stream neither bad nor failed. An empty file does. -/
def readable (file : Option FileStream) : Option FileStream :=
  file.filter fun file => file.content ≠ [] ∨ file.failure = none

/-- `e.what()`, as a C string. -/
def Exn.cWhat : Exn → Text
  | .runtimeError what => cString what.toList
  | .assertionFailure what => cString what.toList
  | .outOfFuel => []

def streamCopy (file : FileStream) : Call Service Unit := do
  write file.content
  match file.failure with
  | none => pure ()
  | some what => throw (.runtimeError (String.ofList what))

/-- `"." + request.abs_path` -/
def requestFile (absPath : Text) : Text := '.' :: absPath

def failedToOpen (filename : Text) : Text := "Failed to open: ".toList ++ filename

def handlingRequest (request : GetRequest) (connectionsTotal : ℕ) : String :=
  "Handling GET request; Path: " ++ String.ofList request.absPath ++ "; User agent: " ++
    String.ofList request.userAgent ++ "; Total number of connections: " ++
    toString connectionsTotal

section handler

variable (lib : CalendarLibrary) (strerror : ℕ → String) (utc : ℕ → ℚ)
  (split : Text → Text → List Text) (files : Text → Option FileStream)

/-- The `try` block of `http_service_handle_line`; `files` gives the file that a C string names. -/
def sendFile (absPath : Text) : Call Service Unit :=
  match readable (files (cString (requestFile absPath))) with
  | none => throw (.runtimeError (String.ofList (failedToOpen (requestFile absPath))))
  | some file => do
    writeHttpHeader200 lib strerror utc (contentTypeFromFileName absPath) (-1)
      defaultServerIdentification
    streamCopy file

def httpServiceHandleLine (connectionsTotal : ℕ) (line : Text) : Call (IStream × Service) Bool :=
  fun (is, w) =>
    match parseGetRequest split line ⟨is, some w.log⟩ with
    | .error e st => .error e (st.is, { w with log := st.log.getD [] })
    | .ok request st =>
      let log := st.log.getD [] ++ [handlingRequest request connectionsTotal]
      match sendFile lib strerror utc files request.absPath { w with log := log } with
      | .ok _ w => .ok false (st.is, w)
      | .error e w =>
        let failed := "GET request failed: " ++ String.ofList e.cWhat
        let w := { w with log := w.log ++ [failed] }
        match writeHttpHeader404 lib strerror utc e.cWhat (-1) defaultServerIdentification w with
        | .ok _ w => .ok false (st.is, w)
        | .error e w => .error e (st.is, w)

end handler

/-! ### What is written -/

/-- The lines of `write_http_header_200`. -/
def okLines (ct date : Text) : List Text :=
  ["HTTP/1.1 200 OK".toList, "Date: ".toList ++ date,
    "Server: ".toList ++ defaultServerIdentification, "Connection: ".toList ++ "close".toList,
    "Content-Type: ".toList ++ ct ++ "; charset=".toList ++ "utf-8".toList]

/-- The lines of `write_http_header_404`. -/
def notFoundLines (reason date : Text) : List Text :=
  ["HTTP/1.1 404 Not Found (".toList ++ reason ++ ")".toList, "Date: ".toList ++ date,
    "Server: ".toList ++ defaultServerIdentification, "Connection: ".toList ++ "close".toList]

def okHeader {ct date : Text} (hct : OneLine ct) (hdate : OneLine date) : HttpHeader where
  lines := okLines ct date
  one_line := by
    simp only [okLines, List.forall_mem_cons, oneLine_append]
    exact ⟨by decide, ⟨by decide, hdate⟩, by decide, by decide, ⟨⟨⟨by decide, hct⟩, by decide⟩,
      by decide⟩, by simp⟩
  not_blank := by
    simp only [okLines, List.forall_mem_cons, blankLine_append]
    exact ⟨by decide, rfl, by decide, by decide, rfl, by simp⟩

def notFoundHeader {reason date : Text} (hreason : OneLine reason) (hdate : OneLine date) :
    HttpHeader where
  lines := notFoundLines reason date
  one_line := by
    simp only [notFoundLines, List.forall_mem_cons, oneLine_append]
    exact ⟨⟨⟨by decide, hreason⟩, by decide⟩, ⟨by decide, hdate⟩, by decide, by decide, by simp⟩
  not_blank := by
    simp only [notFoundLines, List.forall_mem_cons, blankLine_append]
    exact ⟨rfl, rfl, by decide, by decide, by simp⟩

theorem oneLine_contentTypeFromFileName (name : Text) :
    OneLine (contentTypeFromFileName name) := by
  unfold contentTypeFromFileName
  split_ifs <;> decide

section written

variable {lib : CalendarLibrary} {strerror : ℕ → String} {utc : ℕ → ℚ}

/-- Whenever the clock is read, its time can be formatted, on one line. -/
def DatesPrinted (lib : CalendarLibrary) (strerror : ℕ → String) (utc : ℕ → ℚ) : Prop :=
  ∀ k, ∃ date, formatNow lib strerror (utc k) = .ok date ∧ OneLine date

theorem writeDate_eq {k : ℕ} {date : Text} (h : formatNow lib strerror (utc k) = .ok date)
    (os : Text) (log : List String) :
    writeDate lib strerror utc (-1) ⟨os, log, k⟩ =
      .ok () ⟨os ++ ("Date: ".toList ++ date ++ httpEndl), log, k + 1⟩ := by
  have hnow : (-1 : ℚ) < 0 := by norm_num
  simp only [writeDate, if_pos hnow, bind, EStateM.bind, readUtc, write, h, List.append_assoc]

theorem writeHttpHeader200_eq (hdates : DatesPrinted lib strerror utc) (ct : Text) (w : Service) :
    ∃ date, OneLine date ∧
      writeHttpHeader200 lib strerror utc ct (-1) defaultServerIdentification w =
        .ok () { w with os := w.os ++ headerText (okLines ct date), reads := w.reads + 1 } := by
  obtain ⟨date, hformat, hdate⟩ := hdates w.reads
  refine ⟨date, hdate, ?_⟩
  rw [writeHttpHeader200, Call.bind_ok (write_apply _ w), Call.bind_ok (writeDate_eq hformat _ _)]
  simp only [bind, EStateM.bind, write, writeServer, writeConnection, writeContentType,
    headerText, okLines, List.flatMap_cons, List.flatMap_nil, List.append_assoc, List.append_nil]

theorem writeHttpHeader404_eq (hdates : DatesPrinted lib strerror utc) (reason : Text)
    (w : Service) : ∃ date, OneLine date ∧
      writeHttpHeader404 lib strerror utc reason (-1) defaultServerIdentification w =
        .ok () { w with os := w.os ++ headerText (notFoundLines reason date),
                        reads := w.reads + 1 } := by
  obtain ⟨date, hformat, hdate⟩ := hdates w.reads
  refine ⟨date, hdate, ?_⟩
  rw [writeHttpHeader404, Call.bind_ok (write_apply _ w), Call.bind_ok (writeDate_eq hformat _ _)]
  simp only [bind, EStateM.bind, write, writeServer, writeConnection, headerText, notFoundLines,
    List.flatMap_cons, List.flatMap_nil, List.append_assoc, List.append_nil]

end written

/-! ### The dates of the Gregorian calendar -/

theorem Civil.oneLine_text (c : Civil) : OneLine c.text := by
  have hpadded (width n : ℕ) : OneLine (padded width n) := by
    intro x hx
    have hdigit := isDigit_of_mem_padded hx
    constructor
    · rintro rfl
      cases hdigit
    · rintro rfl
      cases hdigit
  simp [text, date, time, hpadded]

theorem datesPrinted_gregorian (strerror : ℕ → String) {utc : ℕ → ℚ}
    (h : ∀ k, 0 ≤ utc k ∧ utc k < 253402300799) : DatesPrinted gregorian strerror utc := by
  intro k
  obtain ⟨hlow, hhigh⟩ := h k
  have hpast : ¬ utc k < defaultPastLimit := by
    have hlimit : defaultPastLimit ≤ 0 := by norm_num [defaultPastLimit, Units.year, Units.day]
    exact not_lt.2 (hlimit.trans hlow)
  have hnonneg : 0 ≤ truncate (utc k + 1 / 2) := by
    apply le_truncate le_rfl
    push_cast
    linarith
  have hyear : FourDigitYear (truncate (utc k + 1 / 2)) := by
    refine ⟨by omega, truncate_lt (by norm_num) ?_⟩
    push_cast
    linarith
  have hgmtime : gregorian.gmtimeR (truncate (utc k + 1 / 2)) =
      .ok (Civil.ofSeconds (truncate (utc k + 1 / 2))).toTm := if_pos (by omega)
  have hlength := (Civil.printable_ofSeconds hyear).length_text
  have hprinted : gregorian.strftime 99 defaultDatetimeFormat
      (Civil.ofSeconds (truncate (utc k + 1 / 2))).toTm =
      (Civil.ofSeconds (truncate (utc k + 1 / 2))).text := by
    simp only [gregorian, Civil.ofTm_toTm, Civil.expandFormat_default, hlength]
    rfl
  refine ⟨_, ?_, Civil.oneLine_text (Civil.ofSeconds (truncate (utc k + 1 / 2)))⟩
  simp only [formatNow, formatDatetime, if_neg hpast, utcTm, hgmtime, hprinted,
    if_neg (List.ne_nil_of_length_eq_add_one hlength)]

/-! ### The path of a request -/

theorem IStream.readWord_some {is is' : IStream} {word : Text}
    (h : is.readWord = (some word, is')) : word ≠ [] ∧ ∀ c ∈ word, isspace c = false := by
  unfold IStream.readWord at h
  split at h
  · split at h
    · cases h
    · next c cs hdrop =>
      obtain ⟨hword, -⟩ := Prod.mk.inj h
      obtain rfl := Option.some.inj hword
      have hc : isspace c = false := by
        have hhead := List.head?_dropWhile_not isspace is.rest
        rw [hdrop] at hhead
        simpa using hhead
      rw [List.takeWhile_cons, hc]
      refine ⟨List.cons_ne_nil _ _, fun d hd => ?_⟩
      rcases List.mem_cons.1 hd with rfl | hd
      · exact hc
      · simpa using List.mem_takeWhile_imp hd
  · cases h

theorem parseFirstLine_path {split : Text → Text → List Text} {line absPath version : Text}
    (h : parseFirstLine split line = .ok (absPath, version)) :
    absPath ≠ [] ∧ ∀ c ∈ absPath, isspace c = false := by
  simp only [parseFirstLine, throwGetParseError] at h
  split at h
  · next get path ver _ hpath _ =>
    split at h
    · cases h
    · split at h
      · split at h
        · cases h
        · cases h
          exact IStream.readWord_some (Prod.ext hpath rfl)
      · cases h
  · cases h

theorem headerLoop_absPath {fuel : ℕ} {ret ret' : GetRequest} {st st' : HttpInput}
    (h : headerLoop fuel ret st = .ok ret' st') : ret'.absPath = ret.absPath := by
  induction fuel generalizing ret st with
  | zero => cases h
  | succ fuel ih =>
    simp only [headerLoop] at h
    split at h
    · cases h
      rfl
    · split at h
      · cases h
        rfl
      · split at h
        · cases h
        · obtain ⟨ret₁, st₁, hset, hloop⟩ := Call.of_bind_ok h
          rw [ih hloop]
          unfold setHeader at hset
          split_ifs at hset <;> cases hset <;> rfl

theorem parseGetRequest_path {split : Text → Text → List Text} {line : Text} {st st' : HttpInput}
    {request : GetRequest} (h : parseGetRequest split line st = .ok request st') :
    request.absPath ≠ [] ∧ ∀ c ∈ request.absPath, isspace c = false := by
  unfold parseGetRequest at h
  split at h
  · cases h
  · next hfirst =>
    rw [headerLoop_absPath h]
    exact parseFirstLine_path hfirst

/-! ### The answer -/

/-- How a path is answered: with the file that it names, with the reason why this cannot be read, or
with what could be read of it and a second header, which comes too late. -/
inductive Answered (files : Text → Option FileStream) (path : Text) : HttpHeader → Text → Prop
  | found {file : FileStream} {header : HttpHeader} {date : Text}
      (hfile : readable (files (cString (requestFile path))) = some file)
      (hwhole : file.failure = none)
      (hlines : header.lines = okLines (contentTypeFromFileName path) date) :
      Answered files path header file.content
  | notFound {header : HttpHeader} {date : Text}
      (hfile : readable (files (cString (requestFile path))) = none)
      (hlines : header.lines = notFoundLines (cString (failedToOpen (requestFile path))) date) :
      Answered files path header []
  | brokenOff {file : FileStream} {what : Text} {header : HttpHeader} {date date' : Text}
      (hfile : readable (files (cString (requestFile path))) = some file)
      (hfailure : file.failure = some what)
      (hlines : header.lines = okLines (contentTypeFromFileName path) date) :
      Answered files path header (file.content ++ headerText (notFoundLines (cString what) date'))

/-- A client that is sent this gets the header into its log and the body onto its output. -/
theorem wget1_header (connection : Text → Text → Except Exn Text) (path host port : Text)
    (header : HttpHeader) (body : Text)
    (hanswer : connection host port = .ok (header.text ++ body)) (sender userAgent : Text)
    (st : WgetState) :
    ∃ st', wget1 connection path host port sender userAgent st = .ok () st' ∧
      st'.os = st.os ++ body ∧
      st'.log = st.log ++ ("Requesting ".toList ++ path ++ " from ".toList ++ host) ::
        header.lines.map fun line => "Server HTTP header: ".toList ++ line ++ ['\r'] := by
  simp only [wget1, hanswer, header.serverHeaders_text, List.map_map]
  exact ⟨_, rfl, rfl, by simp [Function.comp_def]⟩

section answer

variable {lib : CalendarLibrary} {strerror : ℕ → String} {utc : ℕ → ℚ}
  {split : Text → Text → List Text} {files : Text → Option FileStream}

theorem Exn.cWhat_runtimeError (what : Text) :
    (Exn.runtimeError (String.ofList what)).cWhat = cString what := by
  rw [Exn.cWhat, String.toList_ofList]

variable (files) in
theorem sendFile_cases (hdates : DatesPrinted lib strerror utc) (absPath : Text) (w : Service) :
    (readable (files (cString (requestFile absPath))) = none ∧
      sendFile lib strerror utc files absPath w =
        .error (.runtimeError (String.ofList (failedToOpen (requestFile absPath)))) w) ∨
    ∃ file date w', readable (files (cString (requestFile absPath))) = some file ∧
      OneLine date ∧
      w'.os = w.os ++ (headerText (okLines (contentTypeFromFileName absPath) date) ++
        file.content) ∧
      sendFile lib strerror utc files absPath w =
        match file.failure with
        | none => .ok () w'
        | some what => .error (.runtimeError (String.ofList what)) w' := by
  cases hfile : readable (files (cString (requestFile absPath))) with
  | none =>
    refine .inl ⟨rfl, ?_⟩
    rw [sendFile, hfile]
    rfl
  | some file =>
    obtain ⟨date, hdate, hwrite⟩ :=
      writeHttpHeader200_eq hdates (contentTypeFromFileName absPath) w
    refine .inr ⟨file, date, ⟨w.os ++ headerText (okLines (contentTypeFromFileName absPath) date) ++
      file.content, w.log, w.reads + 1⟩, rfl, hdate, List.append_assoc _ _ _, ?_⟩
    rw [sendFile, hfile]
    show (writeHttpHeader200 lib strerror utc _ _ _ >>= fun _ => streamCopy file) w = _
    rw [Call.bind_ok hwrite, streamCopy, Call.bind_ok (write_apply _ _)]
    cases file.failure <;> rfl

theorem httpServiceHandleLine_ok (hdates : DatesPrinted lib strerror utc) {line : Text}
    {is : IStream} {w : Service} {request : GetRequest} {st : HttpInput}
    (hparse : parseGetRequest split line ⟨is, some w.log⟩ = .ok request st) (n : ℕ) :
    ∃ w', httpServiceHandleLine lib strerror utc split files n line (is, w) =
        .ok false (st.is, w') ∧
      ∃ header body, Answered files request.absPath header body ∧
        w'.os = w.os ++ (header.text ++ body) := by
  obtain ⟨-, hpath⟩ := parseGetRequest_path hparse
  have hname : OneLine (failedToOpen (requestFile request.absPath)) := by
    have hfile : OneLine (['.'] ++ request.absPath) :=
      oneLine_append.2 ⟨by decide, .of_not_space hpath⟩
    exact oneLine_append.2 ⟨by decide, hfile⟩
  have hct := oneLine_contentTypeFromFileName request.absPath
  simp only [httpServiceHandleLine, hparse]
  obtain ⟨hfile, hsend⟩ | ⟨file, date, w₁, hfile, hdate, hos, hsend⟩ :=
    sendFile_cases files hdates request.absPath
      ⟨w.os, st.log.getD [] ++ [handlingRequest request n], w.reads⟩
  · rw [hsend]
    simp only [Exn.cWhat_runtimeError]
    obtain ⟨date, hdate, hwrite⟩ := writeHttpHeader404_eq hdates _ _
    rw [hwrite]
    exact ⟨_, rfl, notFoundHeader hname.cString hdate, [], .notFound hfile rfl, by
      simp [HttpHeader.text, notFoundHeader]⟩
  · rw [hsend]
    cases hfailure : file.failure with
    | none => exact ⟨_, rfl, okHeader hct hdate, file.content, .found hfile hfailure rfl, hos⟩
    | some what =>
      simp only [Exn.cWhat_runtimeError]
      obtain ⟨date', hdate', hwrite⟩ := writeHttpHeader404_eq hdates _ _
      rw [hwrite]
      have hanswered : Answered files request.absPath (okHeader hct hdate)
          (file.content ++ headerText (notFoundLines (cString what) date')) :=
        .brokenOff hfile hfailure rfl
      refine ⟨_, rfl, _, _, hanswered, ?_⟩
      simp only [hos, List.append_assoc]
      rfl

end answer

end Nanonet
