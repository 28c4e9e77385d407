import Mathlib.Data.List.DropRight
import Mathlib.Data.List.TakeWhile
import Nanonet.Base.Stream

/-!
# String helpers

`trim` and `split_colon_blank` of `util.cpp`, and what `std::getline` and `std::istream >>` read
from texts of a known shape. `trim` erases from a copy and returns the original.
-/

namespace Nanonet

def isTrimmed (c : Char) : Bool := c == ' ' || c == '\n' || c == '\r' || c == '\t'

/-- The characters `split_colon_blank` skips. -/
def isblank (c : Char) : Bool := c == ' ' || c == '\t'

/-- The copy `trim` works on, after both erasures. -/
def trimmed (s : Text) : Text := (s.dropWhile isTrimmed).rdropWhile isTrimmed

/-- `trim`: the copy is dropped. -/
def trim (s : Text) : Text :=
  let _ret := trimmed s
  s

def splitColonBlank (s : Text) : Except Exn (Text × Text) :=
  match s.dropWhile (· != ':') with
  | [] => .error (.runtimeError ("split_colon_blank(): No colon found: " ++ String.ofList s))
  | _ :: rest => .ok (s.takeWhile (· != ':'), rest.dropWhile isblank)

/-- `trim` does what it is documented to do only where there is nothing to remove. -/
theorem trim_eq_trimmed_iff (s : Text) :
    trim s = trimmed s ↔
      (∀ c ∈ s.head?, isTrimmed c = false) ∧ (∀ c ∈ s.getLast?, isTrimmed c = false) := by
  have hhead : s.dropWhile isTrimmed = s ↔ ∀ c ∈ s.head?, isTrimmed c = false := by
    cases s <;> simp [List.dropWhile_eq_self_iff]
  have hlast : s.rdropWhile isTrimmed = s ↔ ∀ c ∈ s.getLast?, isTrimmed c = false := by
    rcases s.eq_nil_or_concat with rfl | ⟨s, c, rfl⟩ <;> simp
  rw [← hhead, ← hlast]
  constructor
  · intro h
    have hsuffix : s.dropWhile isTrimmed <:+ s := List.dropWhile_suffix _
    have hprefix : trimmed s <+: s.dropWhile isTrimmed := List.rdropWhile_prefix _ _
    have hdrop : s.dropWhile isTrimmed = s := by
      apply hsuffix.eq_of_length_le
      have hlen := hprefix.length_le
      rwa [← h] at hlen
    refine ⟨hdrop, ?_⟩
    rw [trimmed, hdrop] at h
    exact h.symm
  · rintro ⟨hdrop, hrdrop⟩
    rw [trimmed, hdrop, hrdrop]
    rfl

theorem splitColonBlank_header {name value : Text} (hname : ':' ∉ name)
    (hvalue : ∀ c ∈ value.head?, isblank c = false) :
    splitColonBlank (name ++ ':' :: ' ' :: value) = .ok (name, value) := by
  have hall : ∀ c ∈ name, (c != ':') = true := fun c hc => by
    simpa using ne_of_mem_of_not_mem hc hname
  have hdrop : value.dropWhile isblank = value := by
    cases value with
    | nil => rfl
    | cons c cs => rw [List.dropWhile_cons, hvalue c rfl]; rfl
  unfold splitColonBlank
  rw [List.dropWhile_append_of_pos hall, List.takeWhile_append_of_pos hall]
  simp [isblank, hdrop]

theorem splitColonBlank_noColon {s : Text} (h : ':' ∉ s) :
    ∃ what, splitColonBlank s = .error (.runtimeError what) := by
  have hdrop : s.dropWhile (· != ':') = [] :=
    List.dropWhile_eq_nil_iff.2 fun c hc => by simpa using ne_of_mem_of_not_mem hc h
  exact ⟨_, by rw [splitColonBlank, hdrop]⟩

namespace IStream

theorem getline_line {line : Text} (h : '\n' ∉ line) (rest : Text) :
    getline ⟨line ++ '\n' :: rest, false, false⟩ = (some line, ⟨rest, false, false⟩) := by
  rw [getline, getWhile_append (all_not_newline h) rfl]

theorem readWord_word (spaces word rest : Text) (hspaces : ∀ c ∈ spaces, isspace c = true)
    (hne : word ≠ []) (hword : ∀ c ∈ word, isspace c = false)
    (hrest : ∀ c ∈ rest.head?, isspace c = true) :
    readWord ⟨spaces ++ (word ++ rest), false, false⟩ =
      (some word, ⟨rest, rest.isEmpty, false⟩) := by
  obtain ⟨c, cs, rfl⟩ := List.exists_cons_of_ne_nil hne
  have hskip : (spaces ++ (c :: cs ++ rest)).dropWhile isspace = c :: (cs ++ rest) := by
    rw [List.dropWhile_append_of_pos hspaces, List.cons_append, List.dropWhile_cons,
      hword c (by simp)]
    rfl
  have hall : ∀ d ∈ c :: cs, (!isspace d) = true := fun d hd => by simp [hword d hd]
  have hstop : rest.takeWhile (fun d => !isspace d) = [] ∧
      rest.dropWhile (fun d => !isspace d) = rest := by
    cases rest with
    | nil => exact ⟨rfl, rfl⟩
    | cons d ds => simp [hrest d rfl]
  have htake : (c :: (cs ++ rest)).takeWhile (fun d => !isspace d) = c :: cs := by
    rw [← List.cons_append, List.takeWhile_append_of_pos hall, hstop.1, List.append_nil]
  have hdrop : (c :: (cs ++ rest)).dropWhile (fun d => !isspace d) = rest := by
    rw [← List.cons_append, List.dropWhile_append_of_pos hall, hstop.2]
  simp only [readWord, good_mk, if_true, hskip, htake, hdrop]

end IStream

end Nanonet
