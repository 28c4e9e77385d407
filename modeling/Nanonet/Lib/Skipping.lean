import Mathlib.Data.List.Infix
import Mathlib.Data.List.TakeWhile

/-!
# Skipping spaces and comments

What may stand between two tokens of a text: spaces, comments till the end of the line, and comments
between two brackets, which do not nest. `skip` drops as many of them as stand at the head of a text,
and stops where neither a space nor a comment stands (`skip_stops`). A bracket that is never closed
starts no comment.
-/

namespace Nanonet

variable {α : Type*} [DecidableEq α]

/-- What follows the first occurrence of `closing`. -/
def after (closing : List α) : List α → Option (List α)
  | [] => if closing = [] then some [] else none
  | c :: cs => if closing <+: c :: cs then some ((c :: cs).drop closing.length) else after closing cs

theorem after_suffix {closing text rest : List α} (h : after closing text = some rest) :
    rest <:+ text := by
  induction text with
  | nil =>
    obtain ⟨-, rfl⟩ : closing = [] ∧ [] = rest := by simpa [after] using h
    exact List.suffix_rfl
  | cons c cs ih =>
    rw [after] at h
    split_ifs at h
    · obtain rfl : (c :: cs).drop closing.length = rest := by simpa using h
      exact List.drop_suffix _ _
    · exact (ih h).trans (List.suffix_cons c cs)

theorem after_eq_none {closing text : List α} :
    after closing text = none ↔ ¬ closing <:+: text := by
  induction text with
  | nil => simp [after]
  | cons c cs ih =>
    rw [after, List.infix_cons_iff]
    split_ifs with hclosing
    · simp [hclosing]
    · simp [hclosing, ih]

/-- The first occurrence is the one that is written, where none ends before it does. -/
theorem after_append {body closing : List α} (h : ¬ closing <:+: body ++ closing.dropLast)
    (rest : List α) : after closing (body ++ (closing ++ rest)) = some rest := by
  have hne : closing ≠ [] := by
    rintro rfl
    exact h List.nil_infix
  induction body with
  | nil =>
    obtain ⟨c, cs, rfl⟩ := List.exists_cons_of_ne_nil hne
    simp [after]
  | cons c body ih =>
    rw [List.cons_append, after, if_neg ?_]
    · exact ih fun hmem => h (hmem.trans (List.suffix_cons c _).isInfix)
    · intro hprefix
      have hlength : closing.length ≤ (c :: body ++ closing.dropLast).length := by
        simp only [List.length_append, List.length_cons, List.length_dropLast]
        omega
      have hkept : c :: body ++ closing.dropLast <+: c :: body ++ (closing ++ rest) :=
        (List.prefix_append_right_inj _).2
          ((List.dropLast_prefix closing).trans (List.prefix_append closing rest))
      exact h (List.prefix_of_prefix_length_le hprefix hkept hlength).isInfix

structure Brackets (α : Type*) where
  opening : List α
  closing : List α
  opening_ne : opening ≠ []

/-- What may stand between two tokens. -/
structure Gaps (α : Type*) where
  space : α → Bool
  newline : α
  /-- What starts a comment till the end of the line. -/
  line : List (List α)
  block : Option (Brackets α)

namespace Gaps

variable (g : Gaps α)

/-- What follows the comment at the head of a text; `none` where no comment stands there. -/
def afterComment (text : List α) : Option (List α) :=
  if ∃ s ∈ g.line, s <+: text then some (text.dropWhile (· ≠ g.newline)).tail
  else g.block.bind fun b =>
    if b.opening <+: text then after b.closing (text.drop b.opening.length) else none

variable {g}

theorem afterComment_line {s text : List α} (hs : s ∈ g.line) (h : s <+: text) :
    g.afterComment text = some (text.dropWhile (· ≠ g.newline)).tail :=
  if_pos ⟨s, hs, h⟩

theorem afterComment_suffix {c : α} {cs rest : List α} (h : g.afterComment (c :: cs) = some rest) :
    rest <:+ cs := by
  unfold afterComment at h
  split_ifs at h with hline
  · obtain rfl : ((c :: cs).dropWhile (· ≠ g.newline)).tail = rest := by simpa using h
    rw [List.dropWhile_cons]
    split
    · exact (List.tail_suffix _).trans (List.dropWhile_suffix _)
    · exact List.suffix_rfl
  · obtain ⟨b, -, hb⟩ := Option.bind_eq_some_iff.1 h
    split_ifs at hb
    obtain ⟨o, os, hopening⟩ := List.exists_cons_of_ne_nil b.opening_ne
    rw [hopening, List.length_cons, List.drop_succ_cons] at hb
    exact (after_suffix hb).trans (List.drop_suffix _ _)

variable (g)

/-- What is left when the spaces and the comments at the head of a text are dropped. -/
def skip : List α → List α
  | [] => []
  | c :: cs =>
    if g.space c then skip cs
    else
      match _h : g.afterComment (c :: cs) with
      | some rest => skip rest
      | none => c :: cs
termination_by text => text.length
decreasing_by
  · exact Nat.lt_succ_self _
  · exact Nat.lt_succ_of_le (afterComment_suffix _h).length_le

variable {g}

@[simp] theorem skip_nil : g.skip [] = [] := by rw [skip]

theorem skip_space {c : α} (h : g.space c = true) (cs : List α) : g.skip (c :: cs) = g.skip cs := by
  rw [skip, if_pos h]

theorem skip_comment {c : α} {cs rest : List α} (hc : g.space c = false)
    (h : g.afterComment (c :: cs) = some rest) : g.skip (c :: cs) = g.skip rest := by
  rw [skip, if_neg (by simp [hc])]
  split
  · next rest' h' =>
    obtain rfl : rest = rest' := by simpa [h] using h'
    rfl
  · next h' => simp [h] at h'

theorem skip_stop {c : α} {cs : List α} (hc : g.space c = false)
    (h : g.afterComment (c :: cs) = none) : g.skip (c :: cs) = c :: cs := by
  rw [skip, if_neg (by simp [hc])]
  split
  · next rest' h' => simp [h] at h'
  · rfl

/-- The cases of `skip`, the text dropped so far in front. -/
theorem skip_induct {P : List α → Prop} (nil : P [])
    (space : ∀ c cs, g.space c = true → P cs → P (c :: cs))
    (comment : ∀ c cs rest, g.space c = false → g.afterComment (c :: cs) = some rest → P rest →
      P (c :: cs))
    (stop : ∀ c cs, g.space c = false → g.afterComment (c :: cs) = none → P (c :: cs)) :
    ∀ text, P text := by
  intro text
  induction hn : text.length using Nat.strong_induction_on generalizing text with
  | _ n ih =>
    subst hn
    cases text with
    | nil => exact nil
    | cons c cs =>
      cases hc : g.space c with
      | true => exact space c cs hc (ih _ (Nat.lt_succ_self _) cs rfl)
      | false =>
        cases hcomment : g.afterComment (c :: cs) with
        | none => exact stop c cs hc hcomment
        | some rest =>
          have hlen := Nat.lt_succ_of_le (afterComment_suffix hcomment).length_le
          exact comment c cs rest hc hcomment (ih _ hlen rest rfl)

/-- Where `skip` stops stands neither a space nor a comment. -/
theorem skip_stops {text cs : List α} {c : α} (h : g.skip text = c :: cs) :
    g.space c = false ∧ g.afterComment (c :: cs) = none := by
  induction text using g.skip_induct with
  | nil => simp at h
  | space d ds hd ih => exact ih (by rwa [skip_space hd] at h)
  | comment d ds rest hd hcomment ih => exact ih (by rwa [skip_comment hd hcomment] at h)
  | stop d ds hd hcomment =>
    rw [skip_stop hd hcomment] at h
    obtain ⟨rfl, rfl⟩ := List.cons.inj h
    exact ⟨hd, hcomment⟩

end Gaps

end Nanonet
