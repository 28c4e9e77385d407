import Nanonet.Log.Syslogger

/-!
# Whether a message is judged as a whole

A message of more than 1023 characters is written in several blocks, and those after the first go
under the default level. So a message is judged by its own priority iff it is short or of the default
priority, or none of its sinks shows anything of the default level and what would be lost is
whitespace; and syslog reads no NUL (`messageJudged_iff`).
-/

namespace Nanonet

open PutBuffer (writeAll)

/-! ### What the sinks show -/

/-- The level and the text of a record. -/
def Record.seen (r : Record) : Prio × Text := (r.level, r.text)

/-- What a sink with a minimum level shows of a block, with the text that it keeps. -/
def shown (min : Prio) (kept : Text → Text) (p : Prio) (block : Text) : List (Prio × Text) :=
  if p ≤ min then [(p, kept block)] else []

/-- What a sink shows of the blocks of a message. -/
def shownAll (min : Prio) (kept : Text → Text) (p : Prio) : List Text → List (Prio × Text)
  | [] => []
  | block :: blocks => shown min kept p block ++ shownAll min kept defaultPrio blocks

def syslogText (block : Text) : Text := cString (SyslogWriter.trimmed block)

theorem syslog_writeAll (w : SyslogWriter) (blocks : List Text) : ∃ new,
    (writeAll w blocks).syslog = w.syslog ++ new ∧
      new.map Record.seen = shownAll w.minlevelSyslog syslogText w.currlevel blocks := by
  induction blocks generalizing w with
  | nil => exact ⟨[], by simp [writeAll], rfl⟩
  | cons block blocks ih =>
    obtain ⟨new, hsyslog, hseen⟩ := ih (w.write block).2
    have hwrite : (w.write block).2.syslog =
        w.syslog ++ if w.currlevel ≤ w.minlevelSyslog then [w.syslogRecord block] else [] := by
      simp only [SyslogWriter.write]
      split_ifs <;> simp
    refine ⟨(if w.currlevel ≤ w.minlevelSyslog then [w.syslogRecord block] else []) ++ new, ?_, ?_⟩
    · rw [← List.append_assoc, ← hwrite]
      exact hsyslog
    · rw [List.map_append, hseen, shownAll, shown]
      split_ifs <;> rfl

theorem echo_writeAll (w : SyslogWriter) (blocks : List Text) {lines : List Record}
    (h : w.echo = some lines) : ∃ new, (writeAll w blocks).echo = some (lines ++ new) ∧
      new.map Record.seen = shownAll w.minlevelEcho SyslogWriter.trimmed w.currlevel blocks := by
  induction blocks generalizing w lines with
  | nil => exact ⟨[], by simp [writeAll, h], rfl⟩
  | cons block blocks ih =>
    have hwrite : (w.write block).2.echo = some (lines ++
        if w.currlevel ≤ w.minlevelEcho then [w.echoRecord lines block] else []) := by
      simp only [SyslogWriter.write, h, Option.map_some]
      split_ifs <;> simp
    obtain ⟨new, hecho, hseen⟩ := ih (w.write block).2 hwrite
    refine ⟨(if w.currlevel ≤ w.minlevelEcho then [w.echoRecord lines block] else []) ++ new,
      ?_, ?_⟩
    · rw [← List.append_assoc]
      exact hecho
    · rw [List.map_append, hseen, shownAll, shown]
      split_ifs <;> rfl

/-! ### Characters that are not whitespace -/

/-- The characters of a text that are not whitespace. -/
def nonspace (s : Text) : Text := s.filter fun c => !isspace c

theorem nonspace_append (s t : Text) : nonspace (s ++ t) = nonspace s ++ nonspace t :=
  List.filter_append s t

theorem nonspace_trimmed (s : Text) : nonspace (SyslogWriter.trimmed s) = nonspace s := by
  induction s using List.reverseRecOn with
  | nil => rfl
  | append_singleton s c ih =>
    rw [SyslogWriter.trimmed, List.rdropWhile_concat]
    split_ifs with hc
    · have hnone : nonspace [c] = [] := by simp [nonspace, hc]
      rw [nonspace_append, hnone, List.append_nil]
      exact ih
    · rfl

theorem nonspace_flatten (blocks : List Text) :
    nonspace blocks.flatten = blocks.flatMap nonspace := by
  rw [nonspace, List.filter_flatten, List.flatMap_def]
  rfl

/-! ### One sink -/

/-- What a sink shows of a message: only records of its priority, none if it is not important enough,
and otherwise its characters but for whitespace, in order. -/
structure Judged (p min : Prio) (bytes : Text) (seen : List (Prio × Text)) : Prop where
  level : ∀ r ∈ seen, r.1 = p
  silent : min < p → seen = []
  covers : p ≤ min → seen ≠ [] ∧ nonspace (seen.flatMap Prod.snd) = nonspace bytes

/-- The message is short or of the default priority, or the sink shows nothing of that priority and
loses only whitespace. -/
def Whole (p min : Prio) (bytes : Text) : Prop :=
  bytes.length ≤ 1023 ∨ p = defaultPrio ∨
    (min < defaultPrio ∧ (p ≤ min → nonspace (bytes.drop 1024) = []))

theorem shownAll_default (min : Prio) (kept : Text → Text) (blocks : List Text) :
    shownAll min kept defaultPrio blocks =
      if defaultPrio ≤ min then blocks.map fun block => (defaultPrio, kept block) else [] := by
  induction blocks with
  | nil => simp [shownAll]
  | cons block blocks ih =>
    rw [shownAll, ih, shown]
    split_ifs <;> rfl

section sink

variable {p min : Prio} {bytes : Text} {first : Text} {rest : List Text}

theorem nonspace_blocks (hfirst : first = (bytes ++ ['\n']).take 1024)
    (hrest : rest.flatten = (bytes ++ ['\n']).drop 1024) :
    nonspace bytes = nonspace first ++ nonspace rest.flatten ∧
      nonspace rest.flatten = nonspace (bytes.drop 1024) := by
  have hline : ∀ s : Text, nonspace (s ++ ['\n']) = nonspace s := fun s => by
    rw [nonspace_append]
    exact List.append_nil _
  constructor
  · rw [hfirst, hrest, ← nonspace_append, List.take_append_drop, hline]
  · have hnone : ∀ k, nonspace (['\n'].drop k) = [] := fun k => by
      cases k <;> simp [nonspace, isspace]
    rw [hrest, List.drop_append, nonspace_append, hnone, List.append_nil]

theorem rest_eq_nil_iff (hrest : rest.flatten = (bytes ++ ['\n']).drop 1024)
    (hblocks : ∀ block ∈ rest, block ≠ []) : rest = [] ↔ bytes.length ≤ 1023 := by
  have hnil : rest = [] ↔ rest.flatten = [] := by
    rw [List.flatten_eq_nil_iff]
    refine ⟨fun h => by simp [h], fun h => List.eq_nil_iff_forall_not_mem.2 fun block hblock => ?_⟩
    exact hblocks block hblock (h block hblock)
  rw [hnil, hrest, List.drop_eq_nil_iff, List.length_append, List.length_singleton]
  omega

theorem judged_all_iff {kept : Text → Text} (hp : p ≤ min)
    (hbytes : nonspace bytes = nonspace first ++ nonspace rest.flatten)
    (hkept : ∀ block ∈ first :: rest, nonspace (kept block) = nonspace block) :
    Judged p min bytes ((p, kept first) :: rest.map fun block => (defaultPrio, kept block)) ↔
      rest = [] ∨ p = defaultPrio := by
  have hcovers : nonspace (((p, kept first) ::
      rest.map fun block => (defaultPrio, kept block)).flatMap Prod.snd) = nonspace bytes := by
    obtain ⟨hfirst, hrest⟩ := List.forall_mem_cons.1 hkept
    rw [List.flatMap_cons, nonspace_append, List.flatMap_map, hbytes, hfirst]
    congr 1
    rw [List.flatMap_def, nonspace_flatten, nonspace_flatten, List.flatMap_map]
    exact List.flatMap_congr hrest
  constructor
  · intro h
    cases rest with
    | nil => exact .inl rfl
    | cons block rest => exact .inr (h.level (defaultPrio, kept block) (by simp)).symm
  · intro h
    refine ⟨fun r hr => ?_, fun hlt => absurd hp (not_le.2 hlt), fun _ => ⟨by simp, hcovers⟩⟩
    obtain rfl | hr := List.mem_cons.1 hr
    · rfl
    · obtain ⟨block, hblock, rfl⟩ := List.mem_map.1 hr
      obtain rfl | rfl := h
      · simp at hblock
      · rfl

theorem judged_first_iff {kept : Text → Text} (hp : p ≤ min)
    (hbytes : nonspace bytes = nonspace first ++ nonspace rest.flatten)
    (hkept : nonspace (kept first) = nonspace first) :
    Judged p min bytes [(p, kept first)] ↔ nonspace rest.flatten = [] := by
  have hshown : nonspace (([(p, kept first)] : List (Prio × Text)).flatMap Prod.snd) =
      nonspace first := by
    rw [List.flatMap_singleton, hkept]
  constructor
  · intro h
    have hcovers := (h.covers hp).2
    rw [hshown, hbytes] at hcovers
    exact List.append_right_eq_self.1 hcovers.symm
  · intro h
    refine ⟨by simp, fun hlt => absurd hp (not_le.2 hlt), fun _ => ⟨by simp, ?_⟩⟩
    rw [hshown, hbytes, h, List.append_nil]

theorem judged_silent_iff (hp : min < p) (seen : List (Prio × Text)) :
    Judged p min bytes seen ↔ seen = [] := by
  refine ⟨fun h => h.silent hp, ?_⟩
  rintro rfl
  exact ⟨by simp, fun _ => rfl, fun hle => absurd hle (not_le.2 hp)⟩

theorem judged_shownAll_iff {kept : Text → Text} (hfirst : first = (bytes ++ ['\n']).take 1024)
    (hrest : rest.flatten = (bytes ++ ['\n']).drop 1024) (hblocks : ∀ block ∈ rest, block ≠ [])
    (hkept : p ≤ min → ∀ block ∈ first :: rest, nonspace (kept block) = nonspace block) :
    Judged p min bytes (shownAll min kept p (first :: rest)) ↔ Whole p min bytes := by
  have hnil := rest_eq_nil_iff hrest hblocks
  obtain ⟨hbytes, hdrop⟩ := nonspace_blocks hfirst hrest
  rw [shownAll, shownAll_default, shown, Whole, ← hnil, ← hdrop]
  by_cases hp : p ≤ min
  · rw [if_pos hp]
    by_cases hd : defaultPrio ≤ min
    · rw [if_pos hd, List.singleton_append, judged_all_iff hp hbytes (hkept hp)]
      exact or_congr_right (or_iff_left fun h => not_le.2 h.1 hd).symm
    · have hne : p ≠ defaultPrio := fun heq => hd (heq ▸ hp)
      rw [if_neg hd, List.append_nil]
      refine (judged_first_iff hp hbytes (hkept hp first (by simp))).trans ?_
      constructor
      · exact fun hlost => .inr (.inr ⟨not_le.1 hd, fun _ => hlost⟩)
      · rintro (rfl | heq | ⟨-, hlost⟩)
        · rfl
        · exact absurd heq hne
        · exact hlost hp
  · rw [if_neg hp, List.nil_append, judged_silent_iff (not_le.1 hp)]
    split_ifs with hd
    · have hne : p ≠ defaultPrio := fun heq => hp (heq ▸ hd)
      simp [hne, not_lt.2 hd]
    · simp [not_le.1 hd, hp]

/-! ### NUL characters -/

theorem nul_notMem_shownAll (p min : Prio) (blocks : List Text) :
    '\x00' ∉ (shownAll min syslogText p blocks).flatMap Prod.snd := by
  induction blocks generalizing p with
  | nil => simp [shownAll]
  | cons block blocks ih =>
    rw [shownAll, List.flatMap_append, List.mem_append, not_or]
    refine ⟨?_, ih defaultPrio⟩
    rw [shown]
    split_ifs
    · simpa [syslogText] using nul_notMem_cString (SyslogWriter.trimmed block)
    · simp

theorem judged_syslog_iff (hfirst : first = (bytes ++ ['\n']).take 1024)
    (hrest : rest.flatten = (bytes ++ ['\n']).drop 1024) (hblocks : ∀ block ∈ rest, block ≠ []) :
    Judged p min bytes (shownAll min syslogText p (first :: rest)) ↔
      (p ≤ min → '\x00' ∉ bytes) ∧ Whole p min bytes := by
  by_cases hnul : p ≤ min → '\x00' ∉ bytes
  · rw [judged_shownAll_iff hfirst hrest hblocks, and_iff_right hnul]
    intro hp block hblock
    have hmem : '\x00' ∉ block := fun hmem => by
      have hline : '\x00' ∈ (first :: rest).flatten := List.mem_flatten.2 ⟨block, hblock, hmem⟩
      rw [List.flatten_cons, hrest, hfirst, List.take_append_drop] at hline
      exact hnul hp (by simpa using hline)
    have htrimmed : '\x00' ∉ SyslogWriter.trimmed block := fun h =>
      hmem ((List.rdropWhile_prefix isspace block).subset h)
    rw [syslogText, cString_eq_self htrimmed, nonspace_trimmed]
  · refine iff_of_false (fun h => ?_) fun h => hnul h.1
    obtain ⟨hp, hmem⟩ := not_forall.1 hnul
    have hcovers := (h.covers hp).2
    have hline : '\x00' ∈ nonspace bytes := List.mem_filter.2 ⟨not_not.1 hmem, rfl⟩
    rw [← hcovers] at hline
    exact nul_notMem_shownAll p min _ (List.mem_filter.1 hline).1

end sink

/-! ### Messages -/

/-- What a message adds to syslog and to the echo stream, if there is one, is right. -/
structure MessageJudged (s : Syslogger) (prio : Option Prio) (bytes : Text) : Prop where
  syslog : ∃ new, (LogStep.exec s (.message prio bytes)).readerWriter.syslog =
      s.readerWriter.syslog ++ new ∧
    Judged (levelOf prio) s.readerWriter.minlevelSyslog bytes (new.map Record.seen)
  echo : ∀ lines, s.readerWriter.echo = some lines →
    ∃ new, (LogStep.exec s (.message prio bytes)).readerWriter.echo = some (lines ++ new) ∧
      Judged (levelOf prio) s.readerWriter.minlevelEcho bytes (new.map Record.seen)

/-- The message is judged as a whole by each sink, and has no NUL if syslog shows it. -/
structure MessageFits (s : Syslogger) (prio : Option Prio) (bytes : Text) : Prop where
  noNul : levelOf prio ≤ s.readerWriter.minlevelSyslog → '\x00' ∉ bytes
  syslog : Whole (levelOf prio) s.readerWriter.minlevelSyslog bytes
  echo : s.readerWriter.echo ≠ none → Whole (levelOf prio) s.readerWriter.minlevelEcho bytes

theorem exists_appended_iff {old all new : List Record} {P : List Record → Prop}
    (h : all = old ++ new) : (∃ new, all = old ++ new ∧ P new) ↔ P new := by
  constructor
  · rintro ⟨new', hall, hP⟩
    rwa [List.append_cancel_left (h.symm.trans hall)]
  · exact fun hP => ⟨new, h, hP⟩

theorem message_syslog_iff {s : Syslogger} (h : s.Idle) (prio : Option Prio) (bytes : Text) :
    (∃ new, (LogStep.exec s (.message prio bytes)).readerWriter.syslog =
        s.readerWriter.syslog ++ new ∧
      Judged (levelOf prio) s.readerWriter.minlevelSyslog bytes (new.map Record.seen)) ↔
    (levelOf prio ≤ s.readerWriter.minlevelSyslog → '\x00' ∉ bytes) ∧
      Whole (levelOf prio) s.readerWriter.minlevelSyslog bytes := by
  obtain ⟨-, rest, hwriter, hrest, hblocks⟩ := h.message prio bytes
  obtain ⟨new, hsyslog, hseen⟩ :=
    syslog_writeAll { s.readerWriter with currlevel := levelOf prio } (_ :: rest)
  rw [← hwriter] at hsyslog
  refine (exists_appended_iff hsyslog).trans ?_
  rw [hseen]
  exact judged_syslog_iff rfl hrest hblocks

theorem message_echo_iff {s : Syslogger} (h : s.Idle) (prio : Option Prio) (bytes : Text)
    {lines : List Record} (hlines : s.readerWriter.echo = some lines) :
    (∃ new, (LogStep.exec s (.message prio bytes)).readerWriter.echo = some (lines ++ new) ∧
      Judged (levelOf prio) s.readerWriter.minlevelEcho bytes (new.map Record.seen)) ↔
    Whole (levelOf prio) s.readerWriter.minlevelEcho bytes := by
  obtain ⟨-, rest, hwriter, hrest, hblocks⟩ := h.message prio bytes
  obtain ⟨new, hecho, hseen⟩ :=
    echo_writeAll { s.readerWriter with currlevel := levelOf prio } (_ :: rest) hlines
  rw [← hwriter] at hecho
  simp only [hecho, Option.some.injEq]
  refine (exists_appended_iff rfl).trans ?_
  rw [hseen]
  exact judged_shownAll_iff rfl hrest hblocks fun _ block _ => nonspace_trimmed block

theorem messageJudged_iff {s : Syslogger} (h : s.Idle) (prio : Option Prio) (bytes : Text) :
    MessageJudged s prio bytes ↔ MessageFits s prio bytes := by
  have hsyslog := message_syslog_iff h prio bytes
  constructor
  · intro hjudged
    obtain ⟨hnul, hwhole⟩ := hsyslog.1 hjudged.syslog
    refine ⟨hnul, hwhole, fun hecho => ?_⟩
    obtain ⟨lines, hlines⟩ := Option.ne_none_iff_exists'.1 hecho
    exact (message_echo_iff h prio bytes hlines).1 (hjudged.echo lines hlines)
  · intro hfits
    refine ⟨hsyslog.2 ⟨hfits.noNul, hfits.syslog⟩, fun lines hlines => ?_⟩
    exact (message_echo_iff h prio bytes hlines).2 (hfits.echo (by simp [hlines]))

/-- **Messages of a syslogger.** In every run of messages and minimum levels, every message is judged
by its own priority iff every message fits: it has at most 1023 characters, or the default priority,
or at each sink nothing of the default priority is shown and what the sink would lose is whitespace;
and it has no NUL where syslog shows it. -/
theorem logRun_judged_iff (tag : Text) (echo : Bool) (echoClock : Nat → Option Text) (data : Nat)
    (mem : Memory Char) (steps : List LogStep) :
    let s := Syslogger.construct tag echo echoClock data mem
    (∀ before prio bytes after, steps = before ++ .message prio bytes :: after →
        MessageJudged (logRun s before) prio bytes) ↔
      ∀ before prio bytes after, steps = before ++ .message prio bytes :: after →
        MessageFits (logRun s before) prio bytes := by
  intro s
  have hidle : ∀ before, (logRun s before).Idle :=
    idle_logRun (Syslogger.idle_construct tag echo echoClock data mem)
  constructor
  · intro h before prio bytes after hsteps
    exact (messageJudged_iff (hidle before) prio bytes).1 (h before prio bytes after hsteps)
  · intro h before prio bytes after hsteps
    exact (messageJudged_iff (hidle before) prio bytes).2 (h before prio bytes after hsteps)

/-- With the default minimum levels the rest of a long `DEBUG` message is shown. -/
theorem debug_shown : ¬ MessageJudged
    (.construct [] false (fun _ => none) 1 fun _ => 'x') (some .DEBUG) (List.replicate 1100 'x') := by
  intro h
  have hidle := Syslogger.idle_construct [] false (fun _ => none) 1 fun _ => 'x'
  obtain hshort | heq | ⟨hlt, -⟩ := ((messageJudged_iff hidle _ _).1 h).syslog
  · rw [List.length_replicate] at hshort
    omega
  · cases heq
  · exact lt_irrefl _ hlt

end Nanonet
