import Nanonet.Net.FailedWrites

/-!
# Output stream buffers that are moved

A chain of moves leaves one buffer that carries the stream, and any number of buffers that were moved
from and are destroyed some time. These have no reader_writer, so their destructor does nothing. The
buffer in use carries everything that was put: it was written in blocks no longer than the buffer, or
it is pending. The one destructor that does something writes what is pending and shuts down.
-/

namespace Nanonet

variable {α : Type*}

open PutBuffer

/-- The blocks that were passed to `write`. -/
def Scripted.blocks (s : Scripted α) : List (List α) := s.calls.filterMap fun
  | .write block _ => some block
  | .shutdownWrite => none

/-- The buffer in use, the ones that were moved from, `none` once destroyed, and what was put. -/
structure Chain (α : Type*) where
  current : Option PutBuffer
  old : List (Option PutBuffer)
  m : Heap (Scripted α) α
  put : List α

/-- What a program does with the buffers. -/
inductive ChainOp (α : Type*)
  | sputc (c : α)
  | sync
  | move
  | destroyOld (i : Nat)
  | destroyCurrent
deriving DecidableEq, Repr

namespace Chain

/-- A fresh buffer at `buffer` on a reader_writer whose writes succeed. -/
def start (buffer size : Nat) (mem : Memory α) : Chain α :=
  ⟨some (construct true buffer size), [], ⟨mem, ⟨fun _ => true, []⟩⟩, []⟩

/-- One operation; there is none on an object that was destroyed. -/
def step (s : Chain α) : ChainOp α → Option (Chain α)
  | .sputc c => s.current.map fun b =>
    let r := b.sputc c s.m
    { s with current := some r.2.1, m := r.2.2, put := s.put ++ [c] }
  | .sync => s.current.map fun b =>
    let r := b.sync s.m
    { s with current := some r.2.1, m := r.2.2 }
  | .move => s.current.map fun b =>
    let made := b.moveConstruct
    { s with current := some made.1, old := s.old ++ [some made.2] }
  | .destroyOld i => s.old[i]?.join.map fun b =>
    { s with old := s.old.set i none, m := b.destruct s.m }
  | .destroyCurrent => s.current.map fun b =>
    { s with current := none, m := b.destruct s.m }

def run (s : Chain α) (ops : List (ChainOp α)) : Option (Chain α) := ops.foldlM step s

end Chain

/-! ### The buffer in use -/

/-- The buffer `b` carries `put`: some was written, the rest is pending. -/
structure Carries (buffer size : Nat) (put : List α) (b : PutBuffer) (m : Heap (Scripted α) α) :
    Prop where
  rw : b.rw = true
  base : b.pbase = buffer
  epptr : b.epptr = buffer + size - 1
  le : b.pbase ≤ b.pptr
  room : b.pptr ≤ buffer + size
  script : m.rw.script = fun _ => true
  total : m.rw.blocks.flatten ++ b.pending m = put
  blocks : ∀ block ∈ m.rw.blocks, block ≠ [] ∧ block.length ≤ size
  notShut : .shutdownWrite ∉ m.rw.calls

/-- All of `put` was written, and then the connection was shut down, once. -/
structure Finished (size : Nat) (put : List α) (rw : Scripted α) : Prop where
  total : rw.blocks.flatten = put
  blocks : ∀ block ∈ rw.blocks, block ≠ [] ∧ block.length ≤ size
  once : ∃ writes, rw.calls = writes ++ [.shutdownWrite] ∧ .shutdownWrite ∉ writes

variable {buffer size : Nat} {put : List α} {b : PutBuffer} {m : Heap (Scripted α) α}

theorem blocks_write (rw : Scripted α) (script : Nat → Bool) (block : List α) (taken : Bool) :
    (⟨script, rw.calls ++ [.write block taken]⟩ : Scripted α).blocks = rw.blocks ++ [block] := by
  simp [Scripted.blocks]

theorem Carries.append (h : Carries buffer size put b m) (hlt : b.pptr < buffer + size) (c : α) :
    Carries buffer size (put ++ [c]) (b.append c m).1 (b.append c m).2 where
  rw := h.rw
  base := h.base
  epptr := h.epptr
  le := by
    rw [pptr_append]
    exact Nat.le_succ_of_le h.le
  room := by
    rw [pptr_append]
    omega
  script := h.script
  total := by
    rw [pending_append h.le, ← List.append_assoc]
    exact congrArg (· ++ [c]) h.total
  blocks := h.blocks
  notShut := h.notShut

theorem Carries.flush (h : Carries buffer size put b m) :
    (b.flush m).1 = true ∧ (b.flush m).2.1.pptr = buffer ∧
      Carries buffer size put (b.flush m).2.1 (b.flush m).2.2 := by
  have hle := h.le
  have hbase := h.base
  have hroom := h.room
  rcases Nat.eq_or_lt_of_le hle with heq | hlt
  · rw [flush_of_empty heq.symm]
    exact ⟨rfl, heq.symm.trans h.base, h⟩
  · have hscript : m.rw.script 0 = true := congrFun h.script 0
    have hlen : (b.pending m).length = b.pptr - b.pbase := Memory.length_block _ _ _
    have hwrite : (Writer.write m.rw (b.pending m)).2 =
        ⟨fun k => m.rw.script (k + 1), m.rw.calls ++ [.write (b.pending m) true]⟩ := by
      simp only [Writer.write, hscript]
    rw [flush_of_pending h.rw hlt, if_neg (by rw [PutState.write_neg_iff, hscript]; simp), hwrite]
    refine ⟨rfl, h.base, h.rw, h.base, h.epptr, Nat.le_refl _, ?_, ?_, ?_, ?_, ?_⟩
    · dsimp only
      omega
    · simp only [h.script]
    · rw [blocks_write, List.flatten_concat]
      simp only [pending, Nat.sub_self, Memory.block_zero, List.append_nil]
      exact h.total
    · rw [blocks_write]
      intro block hmem
      rcases List.mem_append.1 hmem with hold | hnew
      · exact h.blocks block hold
      · rw [List.mem_singleton.1 hnew, ← List.length_pos_iff]
        omega
    · simp [h.notShut]

theorem Carries.sputc (h : Carries buffer size put b m) (hlt : b.pptr < buffer + size) (c : α) :
    (b.sputc c m).2.1.pptr < buffer + size ∧
      Carries buffer size (put ++ [c]) (b.sputc c m).2.1 (b.sputc c m).2.2 := by
  have happend := h.append hlt c
  rw [PutBuffer.sputc]
  split
  · next hroom =>
    refine ⟨?_, happend⟩
    have hepptr := h.epptr
    rw [pptr_append]
    omega
  · obtain ⟨-, hpptr, hflush⟩ := happend.flush
    refine ⟨?_, hflush⟩
    have hle := h.le
    have hbase := h.base
    change ((b.append c m).1.flush (b.append c m).2).2.1.pptr < _
    omega

theorem Carries.destruct (h : Carries buffer size put b m) (hbuffer : 0 < buffer) :
    Finished size put (b.destruct m).rw := by
  obtain ⟨-, hpptr, hflush⟩ := h.flush
  have hne : b.pbase ≠ 0 := by
    have hbase := h.base
    omega
  have htotal := hflush.total
  have hempty : (b.flush m).2.1.pending (b.flush m).2.2 = [] := by
    rw [pending, hpptr, hflush.base, Nat.sub_self, Memory.block_zero]
  rw [hempty, List.append_nil] at htotal
  have hshut : (b.destruct m).rw =
      { (b.flush m).2.2.rw with calls := (b.flush m).2.2.rw.calls ++ [.shutdownWrite] } := by
    rw [PutBuffer.destruct, if_pos ⟨h.rw, hne⟩]
    rfl
  have hblocks : (b.destruct m).rw.blocks = (b.flush m).2.2.rw.blocks := by
    rw [hshut]
    simp [Scripted.blocks]
  refine ⟨by rw [hblocks]; exact htotal, by rw [hblocks]; exact hflush.blocks, ?_⟩
  exact ⟨(b.flush m).2.2.rw.calls, by rw [hshut], hflush.notShut⟩

theorem destruct_of_detached (h : b.rw = false) : b.destruct m = m := by
  rw [destruct, if_neg (by simp [h])]

/-! ### Chains -/

namespace Chain

/-- A buffer in use carries what was put, or all of it was written; the buffers that were moved from
have no reader_writer. -/
structure Inv (buffer size : Nat) (s : Chain α) : Prop where
  current : ∀ b, s.current = some b →
    Carries buffer size s.put b s.m ∧ b.pptr < buffer + size
  finished : s.current = none → Finished size s.put s.m.rw
  old : ∀ b, some b ∈ s.old → b.rw = false

variable {s s' : Chain α} {op : ChainOp α} {ops : List (ChainOp α)} {mem : Memory α}

theorem inv_start (mem : Memory α) (hsize : 1 ≤ size) : (start buffer size mem).Inv buffer size where
  current := by
    rintro b hb
    cases hb
    refine ⟨⟨rfl, rfl, rfl, Nat.le_refl _, Nat.le_add_right _ _, rfl, ?_, ?_, ?_⟩, ?_⟩
    · simp [start, Scripted.blocks, pending, construct, setp]
    · simp [start, Scripted.blocks]
    · simp [start]
    · simp only [construct, setp]
      omega
  finished h := by cases h
  old := by simp [start]

theorem Inv.step (hbuffer : 0 < buffer) (h : s.Inv buffer size) (hstep : s.step op = some s') :
    s'.Inv buffer size := by
  cases op with
  | sputc c =>
    simp only [Chain.step, Option.map_eq_some_iff] at hstep
    obtain ⟨b, hb, rfl⟩ := hstep
    obtain ⟨hcarries, hlt⟩ := h.current b hb
    obtain ⟨hlt', hcarries'⟩ := hcarries.sputc hlt c
    refine ⟨?_, by simp, h.old⟩
    rintro b' hb'
    cases hb'
    exact ⟨hcarries', hlt'⟩
  | sync =>
    simp only [Chain.step, Option.map_eq_some_iff] at hstep
    obtain ⟨b, hb, rfl⟩ := hstep
    obtain ⟨hcarries, hlt⟩ := h.current b hb
    obtain ⟨-, hpptr, hcarries'⟩ := hcarries.flush
    refine ⟨?_, by simp, h.old⟩
    rintro b' hb'
    cases hb'
    refine ⟨hcarries', ?_⟩
    change (b.flush s.m).2.1.pptr < _
    have hle := hcarries.le
    have hbase := hcarries.base
    omega
  | move =>
    simp only [Chain.step, Option.map_eq_some_iff] at hstep
    obtain ⟨b, hb, rfl⟩ := hstep
    refine ⟨?_, by simp, ?_⟩
    · rintro b' hb'
      cases hb'
      exact h.current b hb
    · intro b' hmem
      rcases List.mem_append.1 hmem with hold | hnew
      · exact h.old b' hold
      · cases List.mem_singleton.1 hnew
        rfl
  | destroyOld i =>
    simp only [Chain.step, Option.map_eq_some_iff] at hstep
    obtain ⟨b, hb, rfl⟩ := hstep
    have hmem : some b ∈ s.old := List.mem_of_getElem? (Option.join_eq_some_iff.1 hb)
    rw [destruct_of_detached (h.old b hmem)]
    refine ⟨h.current, h.finished, ?_⟩
    intro b' hmem'
    rcases List.mem_or_eq_of_mem_set hmem' with hold | hnone
    · exact h.old b' hold
    · cases hnone
  | destroyCurrent =>
    simp only [Chain.step, Option.map_eq_some_iff] at hstep
    obtain ⟨b, hb, rfl⟩ := hstep
    exact ⟨by simp, fun _ => (h.current b hb).1.destruct hbuffer, h.old⟩

theorem Inv.run (hbuffer : 0 < buffer) (h : s.Inv buffer size) (hrun : s.run ops = some s') :
    s'.Inv buffer size := by
  induction ops generalizing s with
  | nil =>
    cases hrun
    exact h
  | cons op ops ih =>
    rw [Chain.run, List.foldlM_cons, Option.bind_eq_bind, Option.bind_eq_some_iff] at hrun
    obtain ⟨t, hstep, hrest⟩ := hrun
    exact ih (h.step hbuffer hstep) hrest

/-- Everything that was put is written once and in order, in blocks that are not empty and fit the
buffer: up to a `sync` all that was put before it, and all of it by the time the last buffer in use
is gone. Shutting down is the last call and happens once, no matter which of the buffers that were
moved from are destroyed and when. -/
theorem chain_delivers (hsize : 1 ≤ size) (hbuffer : 0 < buffer)
    (hrun : (start buffer size mem).run ops = some s) :
    (∀ block ∈ s.m.rw.blocks, block ≠ [] ∧ block.length ≤ size) ∧
    (∀ s', s.step .sync = some s' → s'.m.rw.blocks.flatten = s'.put ∧ s'.put = s.put) ∧
    (s.current ≠ none → .shutdownWrite ∉ s.m.rw.calls) ∧
    (s.current = none → s.m.rw.blocks.flatten = s.put ∧
      ∃ writes, s.m.rw.calls = writes ++ [.shutdownWrite] ∧ .shutdownWrite ∉ writes) := by
  have hinv := (inv_start mem hsize).run hbuffer hrun
  refine ⟨?_, ?_, ?_, ?_⟩
  · cases hcurrent : s.current with
    | none => exact (hinv.finished hcurrent).blocks
    | some b => exact (hinv.current b hcurrent).1.blocks
  · intro s' hstep
    simp only [Chain.step, Option.map_eq_some_iff] at hstep
    obtain ⟨b, hb, rfl⟩ := hstep
    obtain ⟨-, hpptr, hcarries⟩ := (hinv.current b hb).1.flush
    have htotal := hcarries.total
    rw [pending, hpptr, hcarries.base, Nat.sub_self, Memory.block_zero, List.append_nil] at htotal
    exact ⟨htotal, rfl⟩
  · intro hcurrent
    obtain ⟨b, hb⟩ := Option.ne_none_iff_exists'.1 hcurrent
    exact (hinv.current b hb).1.notShut
  · intro hcurrent
    exact ⟨(hinv.finished hcurrent).total, (hinv.finished hcurrent).once⟩

/-- Three characters through two buffers of two characters. -/
theorem chain_delivers_abc :
    ∃ s, (start 16 2 fun _ => 'x').run [.sputc 'a', .sputc 'b', .move, .destroyOld 0, .sputc 'c',
        .destroyCurrent] = some s ∧
      s.m.rw.blocks.flatten = ['a', 'b', 'c'] := by
  have hsome : ((start 16 2 fun _ => 'x').run [.sputc 'a', .sputc 'b', .move, .destroyOld 0,
      .sputc 'c', .destroyCurrent]).isSome = true := rfl
  have hrun := (Option.some_get hsome).symm
  have hend := (chain_delivers (by decide) (by decide) hrun).2.2.2 rfl
  exact ⟨_, hrun, hend.1⟩

end Chain

end Nanonet
