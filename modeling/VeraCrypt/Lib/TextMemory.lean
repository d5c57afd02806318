import Mathlib.Logic.Function.Basic
import Mathlib.Tactic.Common

/-!
# Texts in a memory

A memory is a function on addresses. `Reads` says that a word stands from an address on, `store`
puts one there. A terminated text is a word without the terminator, and the terminator behind it.
-/

set_option autoImplicit false

namespace VeraCrypt
namespace Lib
namespace TextMemory

variable {α : Type*}

/-- `s` stands from `p` on. -/
def Reads (mem : Int → α) : Int → List α → Prop
  | _, [] => True
  | p, c :: s => mem p = c ∧ Reads mem (p + 1) s

/-- `s` put from `p` on. -/
def store (mem : Int → α) : Int → List α → Int → α
  | _, [] => mem
  | p, c :: s => store (Function.update mem p c) (p + 1) s

@[simp] theorem reads_nil (mem : Int → α) (p : Int) : Reads mem p [] := trivial

@[simp] theorem reads_cons (mem : Int → α) (p : Int) (c : α) (s : List α) :
    Reads mem p (c :: s) ↔ mem p = c ∧ Reads mem (p + 1) s := Iff.rfl

theorem reads_append (mem : Int → α) (p : Int) (s t : List α) :
    Reads mem p (s ++ t) ↔ Reads mem p s ∧ Reads mem (p + s.length) t := by
  induction s generalizing p with
  | nil => simp
  | cons c s ih =>
    have hp : p + 1 + s.length = p + (s.length + 1 : Nat) := by omega
    rw [List.cons_append, reads_cons, reads_cons, ih, hp, List.length_cons, and_assoc]

/-- Only the addresses of the word are read. -/
theorem reads_congr {mem mem' : Int → α} {p : Int} {s : List α}
    (h : ∀ x, p ≤ x → x < p + s.length → mem' x = mem x) (hr : Reads mem p s) :
    Reads mem' p s := by
  induction s generalizing p with
  | nil => trivial
  | cons c s ih =>
    rw [List.length_cons] at h
    refine ⟨(h p (Int.le_refl p) (by omega)).trans hr.1, ih ?_ hr.2⟩
    intro x hlow hhigh
    exact h x (by omega) (by omega)

/-- `store` keeps to the addresses of the word. -/
theorem store_outside (mem : Int → α) {p x : Int} (s : List α) (h : x < p ∨ p + s.length ≤ x) :
    store mem p s x = mem x := by
  induction s generalizing mem p with
  | nil => rfl
  | cons c s ih =>
    rw [List.length_cons] at h
    have hne : x ≠ p := by omega
    rw [store, ih _ (by omega), Function.update_of_ne hne]

theorem reads_store (mem : Int → α) (p : Int) (s : List α) : Reads (store mem p s) p s := by
  induction s generalizing mem p with
  | nil => trivial
  | cons c s ih =>
    refine ⟨?_, ih _ (p + 1)⟩
    rw [store, store_outside _ s (.inl (by omega)), Function.update_self]

/-- The first of `n` addresses from `p` on that holds `c`. -/
def find [DecidableEq α] (mem : Int → α) (c : α) : Int → Nat → Option Int
  | _, 0 => none
  | p, n + 1 => if mem p = c then some p else find mem c (p + 1) n

/-- The character behind a word that does not hold it. -/
theorem find_reads [DecidableEq α] {mem : Int → α} {c : α} {p : Int} {s : List α} {n : Nat}
    (h : Reads mem p (s ++ [c])) (hs : c ∉ s) (hn : s.length < n) :
    find mem c p n = some (p + s.length) := by
  induction s generalizing p n with
  | nil =>
    cases n with
    | zero => simp at hn
    | succ n => simp [find, h.1]
  | cons d s ih =>
    cases n with
    | zero => simp at hn
    | succ n =>
      have hne : mem p ≠ c := by
        rw [h.1]
        exact fun hd => hs (hd ▸ List.mem_cons_self)
      have hp : p + 1 + s.length = p + (s.length + 1 : Nat) := by omega
      rw [find, if_neg hne, ih h.2 (fun hc => hs (List.mem_cons_of_mem d hc)) (by simpa using hn),
        hp, List.length_cons]

end TextMemory
end Lib
end VeraCrypt
