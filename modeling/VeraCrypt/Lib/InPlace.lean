import VeraCrypt.Lib.Region
import Mathlib.Data.List.Perm.Basic

/-!
# Jobs that rewrite their own region of a buffer

A parallel loop hands each worker a region of one buffer, which the worker reads and overwrites.
Where no two regions meet, every region ends up as its own job makes it of what stood there
before, so the order in which the jobs ran cannot be seen (`foldl_inPlace_perm`).
-/

set_option autoImplicit false

namespace VeraCrypt
namespace Lib

variable {α ι : Type _} {off len : ι → Nat} {f : ι → List α → List α}

/-- Job `i` rewrites the `len i` elements from `off i` on. -/
def inPlace (off len : ι → Nat) (f : ι → List α → List α) (xs : List α) (i : ι) : List α :=
  patch xs (off i) (f i (slice xs (off i) (len i)))

/-- The regions of the jobs lie in a buffer of `n` elements and do not meet, and a job leaves as
    many elements as it found. -/
structure InPlaceOk (off len : ι → Nat) (f : ι → List α → List α) (n : Nat) (jobs : List ι) :
    Prop where
  inside : ∀ i ∈ jobs, off i + len i ≤ n
  keeps : ∀ i ∈ jobs, ∀ ys, ys.length = len i → (f i ys).length = len i
  apart : jobs.Pairwise (fun i j => off i + len i ≤ off j ∨ off j + len j ≤ off i)

section
variable {n : Nat} {jobs : List ι} {i : ι}

theorem InPlaceOk.tail (h : InPlaceOk off len f n (i :: jobs)) : InPlaceOk off len f n jobs where
  inside j hj := h.inside j (List.mem_cons_of_mem i hj)
  keeps j hj := h.keeps j (List.mem_cons_of_mem i hj)
  apart := (List.pairwise_cons.mp h.apart).2

theorem InPlaceOk.perm {jobs' : List ι} (h : InPlaceOk off len f n jobs)
    (hperm : jobs.Perm jobs') : InPlaceOk off len f n jobs' where
  inside j hj := h.inside j (hperm.mem_iff.mpr hj)
  keeps j hj := h.keeps j (hperm.mem_iff.mpr hj)
  apart := (hperm.pairwise_iff Or.symm).mp h.apart

/-- What a job writes has the length of its region. -/
theorem InPlaceOk.length_job (h : InPlaceOk off len f n jobs) (hi : i ∈ jobs) {xs : List α}
    (hxs : xs.length = n) : (f i (slice xs (off i) (len i))).length = len i :=
  h.keeps i hi _ (length_slice (hxs ▸ h.inside i hi))

theorem InPlaceOk.length_inPlace (h : InPlaceOk off len f n jobs) (hi : i ∈ jobs) {xs : List α}
    (hxs : xs.length = n) : (inPlace off len f xs i).length = n := by
  have hin := h.inside i hi
  have hjob := h.length_job hi hxs
  rw [inPlace, length_patch (by omega), hxs]

end

/-- **After a list of jobs** each region holds what its own job makes of what stood there, and
    the rest of the buffer is as it was. -/
theorem foldl_inPlace {jobs : List ι} : ∀ {xs : List α}, InPlaceOk off len f xs.length jobs →
    (jobs.foldl (inPlace off len f) xs).length = xs.length ∧
    (∀ i ∈ jobs, slice (jobs.foldl (inPlace off len f) xs) (off i) (len i) =
      f i (slice xs (off i) (len i))) ∧
    ∀ p, (∀ i ∈ jobs, p < off i ∨ off i + len i ≤ p) →
      (jobs.foldl (inPlace off len f) xs)[p]? = xs[p]? := by
  induction jobs with
  | nil =>
    intro xs _
    exact ⟨rfl, fun i hi => absurd hi List.not_mem_nil, fun _ _ => rfl⟩
  | cons j jobs ih =>
    intro xs h
    have hj : j ∈ j :: jobs := List.mem_cons_self
    have hin := h.inside j hj
    have hjob := h.length_job hj rfl
    have hlen := h.length_inPlace hj rfl
    obtain ⟨hapart, -⟩ := List.pairwise_cons.mp h.apart
    have hrest : InPlaceOk off len f (inPlace off len f xs j).length jobs := by
      rw [hlen]
      exact h.tail
    obtain ⟨hlength, hregions, hrest⟩ := ih hrest
    rw [List.foldl_cons]
    refine ⟨hlength.trans hlen, ?_, ?_⟩
    · intro i hi
      rcases List.mem_cons.mp hi with rfl | hi
      · -- no later job touches the region of this one
        have hsame : ∀ p, off i ≤ p → p < off i + len i →
            (jobs.foldl (inPlace off len f) (inPlace off len f xs i))[p]? =
              (inPlace off len f xs i)[p]? := by
          intro p hlo hhi
          apply hrest
          intro k hk
          rcases hapart k hk with h | h <;> omega
        have hown : slice (jobs.foldl (inPlace off len f) (inPlace off len f xs i)) (off i)
            (len i) = slice (inPlace off len f xs i) (off i) (len i) := by
          apply List.ext_getElem?
          intro p
          rw [getElem?_slice, getElem?_slice]
          by_cases hp : p < len i
          · rw [if_pos hp, if_pos hp, hsame _ (by omega) (by omega)]
          · rw [if_neg hp, if_neg hp]
        rw [hown]
        exact slice_patch_self (by omega) hjob.symm
      · have hother : slice (inPlace off len f xs j) (off i) (len i) =
            slice xs (off i) (len i) := by
          refine slice_patch_disjoint (by omega) ?_
          rw [hjob]
          exact (hapart i hi).symm
        rw [hregions i hi, hother]
    · intro p hp
      rw [hrest p (fun i hi => hp i (List.mem_cons_of_mem j hi)), inPlace,
        getElem?_patch (by omega), hjob, if_neg]
      have hout := hp j hj
      omega

/-- **The order of the jobs cannot be seen.** -/
theorem foldl_inPlace_perm {jobs jobs' : List ι} {xs : List α}
    (h : InPlaceOk off len f xs.length jobs) (hperm : jobs.Perm jobs') :
    jobs'.foldl (inPlace off len f) xs = jobs.foldl (inPlace off len f) xs := by
  obtain ⟨-, hregions, hrest⟩ := foldl_inPlace h
  obtain ⟨-, hregions', hrest'⟩ := foldl_inPlace (h.perm hperm)
  apply List.ext_getElem?
  intro p
  by_cases hp : ∃ i ∈ jobs, off i ≤ p ∧ p < off i + len i
  · obtain ⟨i, hi, hlo, hhi⟩ := hp
    have hboth := (hregions' i (hperm.mem_iff.mp hi)).trans (hregions i hi).symm
    have hat := congrArg (fun ys => ys[p - off i]?) hboth
    simp only [getElem?_slice, if_pos (show p - off i < len i by omega)] at hat
    rwa [Nat.add_sub_cancel' hlo] at hat
  · have hout : ∀ i ∈ jobs, p < off i ∨ off i + len i ≤ p := by
      intro i hi
      by_contra hin
      exact hp ⟨i, hi, by omega, by omega⟩
    rw [hrest p hout, hrest' p (fun i hi => hout i (hperm.mem_iff.mpr hi))]

/-- Jobs that may fail, where none does. -/
theorem foldlM_inPlace {jobs : List ι} {job : List α → ι → Option (List α)} :
    ∀ {xs : List α}, InPlaceOk off len f xs.length jobs →
    (∀ ys, ys.length = xs.length → ∀ i ∈ jobs, job ys i = some (inPlace off len f ys i)) →
    jobs.foldlM job xs = some (jobs.foldl (inPlace off len f) xs) := by
  induction jobs with
  | nil =>
    intro xs _ _
    rfl
  | cons j jobs ih =>
    intro xs h hjob
    have hlen := h.length_inPlace List.mem_cons_self rfl
    rw [List.foldlM_cons, List.foldl_cons, hjob xs rfl j List.mem_cons_self, Option.bind_eq_bind,
      Option.bind_some]
    refine ih (by rw [hlen]; exact h.tail) ?_
    intro ys hys i hi
    exact hjob ys (hys.trans hlen) i (List.mem_cons_of_mem j hi)

end Lib
end VeraCrypt
