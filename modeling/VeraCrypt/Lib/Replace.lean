import Mathlib.Data.List.Infix

/-!
# Replacing a word in a text

All occurrences of a word are replaced, from the front and without overlap. The text that comes out
is read off in two steps, where the word stands and where it does not (`replaceAll_append`,
`replaceAll_cons_of_not`), and facts about it are proved along them (`replace_induction`).
-/

set_option autoImplicit false

namespace VeraCrypt
namespace Lib

section
variable {α : Type*} [DecidableEq α] (old new : List α)

/-- The number counts the elements of a word that is already replaced. -/
def replaceFrom : Nat → List α → List α
  | _, [] => []
  | 0, c :: s =>
      if old.isPrefixOf (c :: s) then new ++ replaceFrom (old.length - 1) s
      else c :: replaceFrom 0 s
  | k + 1, _ :: s => replaceFrom k s

def replaceAll (s : List α) : List α := replaceFrom old new 0 s

example : replaceAll [0, 0] [1] [0, 0, 0, 2] = [1, 0, 2] := by simp [replaceAll, replaceFrom]

theorem replaceFrom_eq (k : Nat) (s : List α) :
    replaceFrom old new k s = replaceAll old new (s.drop k) := by
  induction k generalizing s with
  | zero => rfl
  | succ k ih =>
    cases s with
    | nil => simp [replaceFrom, replaceAll]
    | cons c s => rw [replaceFrom, ih, List.drop_succ_cons]

@[simp] theorem replaceAll_nil : replaceAll old new [] = [] := rfl

variable {old}

theorem replaceAll_cons_of_not {c : α} {s : List α} (h : ¬ old <+: c :: s) :
    replaceAll old new (c :: s) = c :: replaceAll old new s := by
  rw [replaceAll, replaceFrom, if_neg (by rwa [List.isPrefixOf_iff_prefix])]
  rfl

theorem replaceAll_append (hold : old ≠ []) (s : List α) :
    replaceAll old new (old ++ s) = new ++ replaceAll old new s := by
  cases old with
  | nil => exact absurd rfl hold
  | cons c body =>
    have hpre : (c :: body).isPrefixOf (c :: (body ++ s)) = true := by
      rw [List.isPrefixOf_iff_prefix]
      exact List.prefix_append (c :: body) s
    rw [replaceAll, List.cons_append, replaceFrom, if_pos hpre, replaceFrom_eq]
    simp

/-- At the front of a text the word is replaced, or an element stays. -/
theorem replace_induction {P : List α → Prop} (hold : old ≠ []) (nil : P [])
    (found : ∀ s, P s → P (old ++ s)) (step : ∀ c s, ¬ old <+: c :: s → P s → P (c :: s)) :
    ∀ s, P s := by
  intro s
  induction hn : s.length using Nat.strong_induction_on generalizing s with
  | _ n ih =>
    cases s with
    | nil => exact nil
    | cons c s =>
      by_cases hpre : old <+: c :: s
      · obtain ⟨rest, hrest⟩ := hpre
        have hshort : rest.length < n := by
          have hpos := List.length_pos_iff.mpr hold
          rw [← hn, ← hrest, List.length_append]
          omega
        rw [← hrest]
        exact found rest (ih _ hshort rest rfl)
      · exact step c s hpre (ih s.length (by rw [← hn]; simp) s rfl)

/-- A word of one element is replaced element by element. -/
theorem replaceAll_singleton (c : α) (s : List α) :
    replaceAll [c] new s = s.flatMap (fun x => if x = c then new else [x]) := by
  induction s with
  | nil => rfl
  | cons x s ih =>
    rw [List.flatMap_cons, ← ih]
    by_cases hx : x = c
    · rw [if_pos hx, hx]
      exact replaceAll_append new (by simp) s
    · rw [if_neg hx, List.singleton_append]
      apply replaceAll_cons_of_not
      rw [List.cons_prefix_cons]
      exact fun h => hx h.1.symm

theorem replaceAll_cons_ne {m c : α} {body : List α} (h : m ≠ c) (s : List α) :
    replaceAll (m :: body) new (c :: s) = c :: replaceAll (m :: body) new s := by
  apply replaceAll_cons_of_not
  rw [List.cons_prefix_cons]
  exact fun hpre => h hpre.1

/-- A text without the first element of the word stays. -/
theorem replaceAll_append_of_not_mem {m : α} {body x : List α} (h : m ∉ x) (s : List α) :
    replaceAll (m :: body) new (x ++ s) = x ++ replaceAll (m :: body) new s := by
  induction x with
  | nil => rfl
  | cons c x ih =>
    rw [List.mem_cons, not_or] at h
    rw [List.cons_append, replaceAll_cons_ne new h.1, ih h.2, List.cons_append]

variable {new}

theorem mem_replaceAll (hold : old ≠ []) {s : List α} {x : α} (h : x ∈ replaceAll old new s) :
    x ∈ s ∨ x ∈ new := by
  induction s using replace_induction hold with
  | nil => simp at h
  | found s ih =>
    rw [replaceAll_append new hold, List.mem_append] at h
    cases h with
    | inl hnew => exact .inr hnew
    | inr hs => exact (ih hs).imp_left (List.mem_append_right _)
  | step c s hpre ih =>
    rw [replaceAll_cons_of_not new hpre, List.mem_cons] at h
    cases h with
    | inl hc => exact .inl (hc ▸ List.mem_cons_self)
    | inr hs => exact (ih hs).imp_left (List.mem_cons_of_mem _)

/-- An element that the word does not have keeps what is behind it apart. -/
theorem replaceAll_concat (hold : old ≠ []) {c : α} (hc : c ∉ old) (s : List α) :
    replaceAll old new (s ++ [c]) = replaceAll old new s ++ [c] := by
  induction s using replace_induction hold with
  | nil =>
    apply replaceAll_cons_of_not
    intro hpre
    cases old with
    | nil => exact hold rfl
    | cons m body =>
      rw [List.cons_prefix_cons] at hpre
      exact hc (hpre.1 ▸ List.mem_cons_self)
  | found s ih =>
    rw [List.append_assoc, replaceAll_append new hold, replaceAll_append new hold, ih,
      List.append_assoc]
  | step x s hpre ih =>
    rw [List.cons_append, replaceAll_cons_of_not, ih,
      replaceAll_cons_of_not new hpre, List.cons_append]
    intro hlong
    -- the word would end with the new element, or stand in the text
    rw [← List.cons_append, List.prefix_concat_iff] at hlong
    cases hlong with
    | inl heq => exact hc (heq ▸ List.mem_append_right _ (List.mem_singleton.mpr rfl))
    | inr hin => exact hpre hin

/-- What stands at the front of the new text, without the new element, stood there before. -/
theorem prefix_of_prefix_replaceAll (hold : old ≠ []) {x : α} {u s : List α} (hx : x ∉ u)
    (h : u <+: replaceAll old [x] s) : u <+: s := by
  induction s using replace_induction hold generalizing u with
  | nil => exact h
  | found s ih =>
    rw [replaceAll_append [x] hold, List.singleton_append] at h
    cases u with
    | nil => exact List.nil_prefix
    | cons y u =>
      rw [List.cons_prefix_cons] at h
      exact absurd (h.1 ▸ List.mem_cons_self) hx
  | step c s hpre ih =>
    rw [replaceAll_cons_of_not [x] hpre] at h
    cases u with
    | nil => exact List.nil_prefix
    | cons y u =>
      rw [List.cons_prefix_cons] at h ⊢
      exact ⟨h.1, ih (fun hmem => hx (List.mem_cons_of_mem _ hmem)) h.2⟩

/-- A word that is replaced by an element it does not have is gone. -/
theorem not_infix_replaceAll (hold : old ≠ []) {x : α} (hx : x ∉ old) (s : List α) :
    ¬ old <:+: replaceAll old [x] s := by
  induction s using replace_induction hold with
  | nil =>
    rw [replaceAll_nil, List.infix_nil]
    exact hold
  | found s ih =>
    rw [replaceAll_append [x] hold, List.singleton_append, List.infix_cons_iff]
    rintro (hpre | hin)
    · cases old with
      | nil => exact hold rfl
      | cons m body =>
        rw [List.cons_prefix_cons] at hpre
        exact hx (hpre.1 ▸ List.mem_cons_self)
    · exact ih hin
  | step c s hpre ih =>
    rw [replaceAll_cons_of_not [x] hpre, List.infix_cons_iff]
    rintro (hfront | hin)
    · rw [← replaceAll_cons_of_not [x] hpre] at hfront
      exact hpre (prefix_of_prefix_replaceAll hold hx hfront)
    · exact ih hin

end

end Lib
end VeraCrypt
