import Mathlib.Data.List.Count

/-!
# Collections in which one member changes at a time

`Swaps blank xs ys a b` says that `ys` is `xs` with `a` replaced by `b`, as far as counting can
tell, where the value `blank` stands for nothing and may come and go. What is counted over the
collection then changes by what the predicate says of `a` and `b`.
-/

namespace Nanonet

variable {α : Type*} {blank : α} {xs ys : List α} {a b : α}

theorem toNat_eq_ite (b : Bool) : b.toNat = if b = true then 1 else 0 := by cases b <;> rfl

theorem toNat_le_countP {p : α → Bool} (ha : a ∈ xs) : (p a).toNat ≤ xs.countP p := by
  cases hp : p a with
  | true => exact List.countP_pos_iff.2 ⟨a, ha, hp⟩
  | false => exact Nat.zero_le _

/-- Setting one place takes its old member out of the count and puts the new one in. -/
theorem countP_set_add (p : α → Bool) {i : Nat} (ha : xs[i]? = some a) (b : α) :
    (xs.set i b).countP p + (p a).toNat = xs.countP p + (p b).toNat := by
  have hle : (p a).toNat ≤ xs.countP p := toNat_le_countP (List.mem_of_getElem? ha)
  obtain ⟨hi, rfl⟩ := List.getElem?_eq_some_iff.1 ha
  rw [List.countP_set hi]
  simp only [toNat_eq_ite] at hle ⊢
  omega

theorem countP_modify_add (p : α → Bool) {i : Nat} (ha : xs[i]? = some a) (f : α → α) :
    (xs.modify i f).countP p + (p a).toNat = xs.countP p + (p (f a)).toNat := by
  rw [List.modify_eq_set_getElem?, ha]
  exact countP_set_add p ha (f a)

theorem countP_modify_of_eq {p : α → Bool} {f : α → α} (hf : ∀ a, p (f a) = p a) (i : Nat) :
    (xs.modify i f).countP p = xs.countP p := by
  cases ha : xs[i]? with
  | none => rw [List.modify_eq_set_getElem?, ha]; rfl
  | some a =>
    have hcount := countP_modify_add p ha f
    rw [hf a] at hcount
    exact Nat.add_right_cancel hcount

/-- In a collection `a` is replaced by `b`; members that are `blank` come and go. -/
def Swaps (blank : α) (xs ys : List α) (a b : α) : Prop :=
  ∀ p : α → Bool, p blank = false → ys.countP p + (p a).toNat = xs.countP p + (p b).toNat

namespace Swaps

theorem refl (xs : List α) (a : α) : Swaps blank xs xs a a := fun _ _ => rfl

theorem countP_eq (h : Swaps blank xs ys a b) {p : α → Bool} (hblank : p blank = false)
    (hab : p a = p b) : ys.countP p = xs.countP p := by
  have hcount := h p hblank
  rw [hab] at hcount
  exact Nat.add_right_cancel hcount

theorem append (h : Swaps blank xs ys a b) (zs : List α) :
    Swaps blank (xs ++ zs) (ys ++ zs) a b := by
  intro p hp
  have hcount := h p hp
  rw [List.countP_append, List.countP_append]
  omega

theorem prepend (h : Swaps blank xs ys a b) (zs : List α) :
    Swaps blank (zs ++ xs) (zs ++ ys) a b := by
  intro p hp
  have hcount := h p hp
  rw [List.countP_append, List.countP_append]
  omega

theorem single (a b : α) : Swaps blank [a] [b] a b := by
  intro p _
  simp only [List.countP_singleton, toNat_eq_ite]
  omega

theorem last (a : α) : Swaps blank [a] [] a blank := by
  intro p hp
  rw [hp, List.countP_singleton, List.countP_nil, Bool.toNat_false, toNat_eq_ite]
  omega

theorem first (b : α) : Swaps blank [] [b] blank b := by
  intro p hp
  rw [hp, List.countP_singleton, List.countP_nil, Bool.toNat_false, toNat_eq_ite]
  omega

theorem set {i : Nat} (ha : xs[i]? = some a) (b : α) : Swaps blank xs (xs.set i b) a b :=
  fun p _ => countP_set_add p ha b

theorem move (xs : List α) (a : α) : Swaps blank (a :: xs) (blank :: (xs ++ [a])) blank blank := by
  intro p hp
  simp only [List.countP_cons, List.countP_append, List.countP_nil, hp, Bool.false_eq_true, if_false]
  omega

end Swaps

/-! ### Members with a key of their own -/

/-- Where no two members share a key, the members that satisfy `p` are as many as their keys. -/
theorem countP_eq_countP_range {key : α → Option Nat} {p : α → Bool} {n : Nat}
    (hkey : ∀ a ∈ xs, p a = true → ∃ k < n, key a = some k)
    (hone : ∀ k, xs.countP (fun a => key a == some k) ≤ 1) :
    xs.countP p = (List.range n).countP fun k => xs.any fun a => key a == some k && p a := by
  -- the keys of these members, each once
  let keys := (xs.filter p).filterMap key
  have hlength : keys.length = xs.countP p := by
    rw [List.length_filterMap_eq_countP, List.countP_filter]
    refine List.countP_congr fun a ha => ?_
    rw [Bool.and_eq_true, and_iff_right_iff_imp]
    intro hp
    obtain ⟨k, -, hk⟩ := hkey a ha hp
    rw [hk]
    rfl
  have hnodup : keys.Nodup := by
    rw [List.nodup_iff_count]
    intro k
    refine Nat.le_trans ?_ (hone k)
    rw [List.count, List.countP_filterMap, List.countP_filter]
    refine List.countP_mono_left fun a _ h => ?_
    cases hk : key a <;> simp_all
  have hperm : ((List.range n).filter fun k => xs.any fun a => key a == some k && p a).Perm
      keys := by
    rw [List.perm_ext_iff_of_nodup (List.nodup_range.filter _) hnodup]
    intro k
    simp only [keys, List.mem_filter, List.mem_range, List.any_eq_true, Bool.and_eq_true,
      beq_iff_eq, List.mem_filterMap]
    constructor
    · rintro ⟨-, a, ha, hk, hp⟩
      exact ⟨a, ⟨ha, hp⟩, hk⟩
    · rintro ⟨a, ⟨ha, hp⟩, hk⟩
      obtain ⟨j, hj, hkj⟩ := hkey a ha hp
      cases hk.symm.trans hkj
      exact ⟨hj, a, ha, hk, hp⟩
  rw [← hlength, ← hperm.length_eq, List.countP_eq_length_filter]

end Nanonet
