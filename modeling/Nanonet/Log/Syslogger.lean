import Nanonet.Base.Stream
import Nanonet.Net.Blocks
import Mathlib.Data.List.DropRight
import Mathlib.Order.Lattice

/-!
# The syslogger

`syslog_writer` and `syslogger` of `syslogger.h` and `syslogger.cpp`: an output stream whose buffer
hands its blocks to a writer, which sends each block to syslog and to the echo stream, if the current
level is important enough for it, and then resets the level. A message with its `std::endl` is
written as a first block of at most the size of the buffer under its own level, and what does not fit
there under the default one (`exec_message`).
-/

namespace Nanonet

/-- `prio`, the most important one first. -/
inductive Prio where
  | EMERG | ALERT | CRIT | ERR | WARNING | NOTICE | INFO | DEBUG
  deriving DecidableEq

namespace Prio

def toNat (p : Prio) : Nat := p.ctorIdx

def toText : Prio → Text
  | EMERG => "EMERGENCY".toList
  | ALERT => "ALERT".toList
  | CRIT => "CRITICAL".toList
  | ERR => "ERROR".toList
  | WARNING => "WARNING".toList
  | NOTICE => "NOTICE".toList
  | INFO => "INFO".toList
  | DEBUG => "DEBUG".toList

theorem toNat_injective : Function.Injective toNat := by
  intro p q h
  cases p <;> cases q <;> first | rfl | cases h

instance : LinearOrder Prio := LinearOrder.lift' toNat toNat_injective

end Prio

def defaultPrio : Prio := .INFO

/-- What reaches a sink: the time on the echo stream, if its clock gives one, then the tag, the level
and the text. -/
structure Record where
  stamp : Option Text
  tag : Text
  level : Prio
  text : Text
  deriving DecidableEq

def Record.line (r : Record) : Text :=
  (r.stamp.elim [] fun t => t ++ [' ']) ++ r.tag ++ '(' :: r.level.toText ++ ')' :: ' ' :: r.text

/-- `syslog_writer`, with what it has sent to syslog and, if it has an echo stream, there. `echoClock`
is what the clock says for the given line of the echo stream. -/
structure SyslogWriter where
  minlevelSyslog : Prio
  minlevelEcho : Prio
  currlevel : Prio
  tag_ : Text
  echo : Option (List Record)
  echoClock : Nat → Option Text
  syslog : List Record

namespace SyslogWriter

/-- `syslog_writer( tag , echo )`, with the clock of the syslogger. -/
def construct (tag : Text) (echo : Bool) (echoClock : Nat → Option Text) : SyslogWriter where
  minlevelSyslog := defaultPrio
  minlevelEcho := defaultPrio
  currlevel := defaultPrio
  tag_ := if tag = [] then [] else tag ++ [' ']
  echo := if echo then some [] else none
  echoClock := echoClock
  syslog := []

/-- `tag()`, which is read up to its end or the first NUL in it. -/
def tag (w : SyslogWriter) : Text := cString w.tag_

/-- The trimmed block: what is left before the whitespace at its end. -/
def trimmed (buf : Text) : Text := buf.rdropWhile isspace

/-- The record for syslog, whose `%.*s` reads the text as a C string of limited length. -/
def syslogRecord (w : SyslogWriter) (buf : Text) : Record :=
  ⟨none, w.tag, w.currlevel, cString (trimmed buf)⟩

/-- The record for the echo stream after the given lines. -/
def echoRecord (w : SyslogWriter) (lines : List Record) (buf : Text) : Record :=
  ⟨w.echoClock lines.length, w.tag, w.currlevel, trimmed buf⟩

def write (w : SyslogWriter) (buf : Text) : Int × SyslogWriter :=
  (buf.length,
    { w with
      syslog :=
        if w.currlevel ≤ w.minlevelSyslog then w.syslog ++ [w.syslogRecord buf] else w.syslog
      echo := w.echo.map fun lines =>
        if w.currlevel ≤ w.minlevelEcho then lines ++ [w.echoRecord lines buf] else lines
      currlevel := defaultPrio })

end SyslogWriter

instance : Writer SyslogWriter Char where
  write := SyslogWriter.write
  shutdownWrite w := w

structure PrioSetter where
  p : Prio
  which : UInt16

/-- `SYSLOG`, `ECHO` -/
def SYSLOG : UInt16 := 1
def ECHO : UInt16 := 2

/-- `syslogger`: the buffer, the memory with the writer, and `badbit`. -/
structure Syslogger where
  buffer : PutBuffer
  heap : Heap SyslogWriter Char
  bad : Bool

namespace Syslogger

/-- `syslogger( tag , echo , echo_clock )`, with the data of the buffer at `data`. The stream buffer
is moved into the stream. -/
def construct (tag : Text) (echo : Bool) (echoClock : Nat → Option Text) (data : Nat)
    (mem : Memory Char) : Syslogger where
  buffer := (PutBuffer.construct true data 1024).moveConstruct.1
  heap := ⟨mem, .construct tag echo echoClock⟩
  bad := false

/-- The writer of the stream. -/
def readerWriter (s : Syslogger) : SyslogWriter := s.heap.rw

def updateWriter (f : SyslogWriter → SyslogWriter) (s : Syslogger) : Syslogger :=
  { s with heap := { s.heap with rw := f s.heap.rw } }

def setPrio (p : Prio) : Syslogger → Syslogger := updateWriter fun w => { w with currlevel := p }

def setMinlevel (ps : PrioSetter) : Syslogger → Syslogger := updateWriter fun w =>
  let w := if ps.which &&& SYSLOG ≠ 0 then { w with minlevelSyslog := ps.p } else w
  if ps.which &&& ECHO ≠ 0 then { w with minlevelEcho := ps.p } else w

def put (s : Syslogger) (c : Char) : Syslogger :=
  if s.bad then s
  else
    let r := s.buffer.sputc c s.heap
    ⟨r.2.1, r.2.2, r.1.isNone⟩

/-- `operator<<` of characters. -/
def insert (s : Syslogger) (text : Text) : Syslogger := text.foldl put s

def flush (s : Syslogger) : Syslogger :=
  if s.bad then s
  else
    let r := s.buffer.sync s.heap
    ⟨r.2.1, r.2.2, r.1 == -1⟩

def endl (s : Syslogger) : Syslogger := (s.put '\n').flush

end Syslogger

/-- What is done with a syslogger: a message, with its priority if it has one, or a minimum level. -/
inductive LogStep where
  | message (prio : Option Prio) (bytes : Text)
  | setMinlevel (ps : PrioSetter)

/-- `sl << prio << bytes << std::endl` and `sl << setminprio( .. )`. -/
def LogStep.exec (s : Syslogger) : LogStep → Syslogger
  | .message prio bytes => ((prio.elim s fun p => s.setPrio p).insert bytes).endl
  | .setMinlevel ps => s.setMinlevel ps

def logRun (s : Syslogger) (steps : List LogStep) : Syslogger := steps.foldl LogStep.exec s

/-! ### One message -/

open PutBuffer (Fed Reliable writeAll)

instance : Reliable SyslogWriter := ⟨fun _ c => Int.natCast_nonneg c.length⟩

namespace Syslogger

/-- Between messages the buffer is empty and the level is the default one. -/
structure Idle (s : Syslogger) : Prop where
  ordered : s.buffer.Ordered
  attached : s.buffer.rw = true
  size : s.buffer.size = 1024
  empty : s.buffer.pptr = s.buffer.pbase
  good : s.bad = false
  level : s.readerWriter.currlevel = defaultPrio

theorem idle_construct (tag : Text) (echo : Bool) (echoClock : Nat → Option Text) (data : Nat)
    (mem : Memory Char) : (construct tag echo echoClock data mem).Idle :=
  ⟨PutBuffer.ordered_construct true data (by decide), rfl, rfl, rfl, rfl, rfl⟩

/-- The characters that have gone into the stream since its writer was `w`. -/
structure Inserted (w : SyslogWriter) (fed : Text) (s : Syslogger) : Prop where
  fed : ∃ blocks, Fed w fed blocks s.buffer s.heap
  size : s.buffer.size = 1024
  good : s.bad = false

theorem Inserted.put {w : SyslogWriter} {fed : Text} {s : Syslogger} (h : Inserted w fed s)
    (c : Char) : Inserted w (fed ++ [c]) (s.put c) := by
  obtain ⟨⟨blocks, hfed⟩, hsize, hgood⟩ := h
  obtain ⟨hput, hsize', hfed'⟩ := hfed.sputc c
  simp only [Syslogger.put, hgood, Bool.false_eq_true, if_false]
  exact ⟨hfed', hsize'.trans hsize, by simp [hput]⟩

theorem Inserted.insert {w : SyslogWriter} {fed : Text} {s : Syslogger} (h : Inserted w fed s)
    (text : Text) : Inserted w (fed ++ text) (s.insert text) := by
  induction text generalizing fed s with
  | nil => simpa [Syslogger.insert] using h
  | cons c cs ih => simpa [Syslogger.insert] using ih (h.put c)

end Syslogger

theorem currlevel_writeAll (w : SyslogWriter) (blocks : List Text) (c : Text) :
    (writeAll w (c :: blocks)).currlevel = defaultPrio := by
  obtain ⟨init, last, hlast⟩ := (List.eq_nil_or_concat (c :: blocks)).resolve_left (by simp)
  rw [hlast, List.concat_eq_append, PutBuffer.writeAll_concat]
  rfl

def levelOf (prio : Option Prio) : Prio := prio.getD defaultPrio

theorem Syslogger.Idle.start {s : Syslogger} (h : s.Idle) (prio : Option Prio) :
    Inserted { s.readerWriter with currlevel := levelOf prio } []
      (prio.elim s fun p => s.setPrio p) := by
  cases prio with
  | none =>
    have hwriter : { s.readerWriter with currlevel := levelOf none } = s.heap.rw := by
      show { s.heap.rw with currlevel := defaultPrio } = s.heap.rw
      rw [← h.level]
      rfl
    rw [hwriter]
    exact ⟨⟨[], .start h.ordered h.attached h.empty⟩, h.size, h.good⟩
  | some p =>
    have hfed : Fed (s.setPrio p).heap.rw [] [] (s.setPrio p).buffer (s.setPrio p).heap :=
      .start h.ordered h.attached h.empty
    exact ⟨⟨[], hfed⟩, h.size, h.good⟩

theorem Syslogger.Inserted.flush {w : SyslogWriter} {fed : Text} {s : Syslogger}
    (h : Inserted w fed s) (hne : fed ≠ []) : s.flush.Idle ∧
      ∃ rest : List Text, s.flush.readerWriter = writeAll w (fed.take 1024 :: rest) ∧
        rest.flatten = fed.drop 1024 ∧ ∀ block ∈ rest, block ≠ [] := by
  obtain ⟨⟨blocks, hfed⟩, hsize, hgood⟩ := h
  obtain ⟨hok, hbuffer, rest, hwriter, hrest, hblocks⟩ := hfed.sync hne
  rw [hsize] at hwriter hrest
  have hflush : s.flush = ⟨(s.buffer.sync s.heap).2.1, (s.buffer.sync s.heap).2.2, false⟩ := by
    simp [Syslogger.flush, hgood, hok]
  rw [hflush]
  refine ⟨?_, rest, hwriter, hrest, hblocks⟩
  refine ⟨?_, ?_, ?_, ?_, rfl, ?_⟩
  · rw [hbuffer]
    exact hfed.ordered.withPptr (Nat.le_refl _)
  · rw [hbuffer]
    exact hfed.attached
  · rw [hbuffer]
    exact hsize
  · rw [hbuffer]
  · show (s.buffer.sync s.heap).2.2.rw.currlevel = defaultPrio
    rw [hwriter]
    exact currlevel_writeAll w rest _

/-- A message is written as its first block, under its level, and the rest of it, if any. -/
theorem Syslogger.Idle.message {s : Syslogger} (h : s.Idle) (prio : Option Prio) (bytes : Text) :
    let s' := LogStep.exec s (.message prio bytes)
    s'.Idle ∧ ∃ rest : List Text, s'.readerWriter =
        writeAll { s.readerWriter with currlevel := levelOf prio }
          ((bytes ++ ['\n']).take 1024 :: rest) ∧
      rest.flatten = (bytes ++ ['\n']).drop 1024 ∧ ∀ block ∈ rest, block ≠ [] := by
  have hinserted := ((h.start prio).insert bytes).put '\n'
  rw [List.nil_append] at hinserted
  exact hinserted.flush (by simp)

theorem Syslogger.Idle.exec {s : Syslogger} (h : s.Idle) (step : LogStep) :
    (LogStep.exec s step).Idle := by
  cases step with
  | message prio bytes => exact (h.message prio bytes).1
  | setMinlevel ps =>
    have hlevel : (s.setMinlevel ps).readerWriter.currlevel = s.readerWriter.currlevel := by
      show SyslogWriter.currlevel (ite _ _ _) = s.heap.rw.currlevel
      split_ifs <;> rfl
    exact ⟨h.ordered, h.attached, h.size, h.empty, h.good, hlevel.trans h.level⟩

theorem idle_logRun {s : Syslogger} (h : s.Idle) (steps : List LogStep) : (logRun s steps).Idle := by
  induction steps generalizing s with
  | nil => exact h
  | cons step steps ih => exact ih (h.exec step)

end Nanonet
