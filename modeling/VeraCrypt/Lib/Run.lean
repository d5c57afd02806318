import Mathlib.Data.List.Basic

/-!
# Runs of a machine

A machine is a function that takes a state and an input and gives the next state and an
answer. A run feeds it a list of inputs. Four rules carry a fact about one step to every
run:

* `run_invariant`: what each step keeps, the run keeps;
* `run_simulates`: a machine that matches another one step by step gives the same answers
  along every run, and ends in a related state;
* `along_append`, with `run_append`: a run may be cut anywhere;
* `along_mono`: a condition that follows at each step, from another one and an invariant, follows
  along the run.

`Along` says that a side condition holds at every step of a run. The condition may read the
state the step starts from, so it can speak about what the run has done so far.
-/

set_option autoImplicit false

namespace VeraCrypt
namespace Lib

section

variable {σ τ ι ο : Type _}

def run (step : σ → ι → σ × ο) : σ → List ι → σ × List ο
  | s, [] => (s, [])
  | s, i :: is =>
    let r := run step (step s i).1 is
    (r.1, (step s i).2 :: r.2)

def Along (step : σ → ι → σ × ο) (Q : σ → ι → Prop) : σ → List ι → Prop
  | _, [] => True
  | s, i :: is => Q s i ∧ Along step Q (step s i).1 is

variable {step : σ → ι → σ × ο} {Q : σ → ι → Prop}

instance decidableAlong [∀ s i, Decidable (Q s i)] :
    ∀ (s : σ) (is : List ι), Decidable (Along step Q s is)
  | _, [] => .isTrue trivial
  | s, i :: is =>
    have := decidableAlong (step s i).1 is
    inferInstanceAs (Decidable (_ ∧ _))

theorem run_cons (s : σ) (i : ι) (is : List ι) :
    (run step s (i :: is)).1 = (run step (step s i).1 is).1 := rfl

theorem run_append (s : σ) (is js : List ι) :
    (run step s (is ++ js)).1 = (run step (run step s is).1 js).1 ∧
      (run step s (is ++ js)).2 = (run step s is).2 ++ (run step (run step s is).1 js).2 := by
  induction is generalizing s with
  | nil => exact ⟨rfl, rfl⟩
  | cons i is ih =>
    obtain ⟨h1, h2⟩ := ih (step s i).1
    exact ⟨h1, congrArg (List.cons _) h2⟩

theorem along_append (s : σ) (is js : List ι) :
    Along step Q s (is ++ js) ↔ Along step Q s is ∧ Along step Q (run step s is).1 js := by
  induction is generalizing s with
  | nil => exact ⟨fun h => ⟨trivial, h⟩, fun h => h.2⟩
  | cons i is ih =>
    constructor
    · rintro ⟨hq, hrest⟩
      obtain ⟨his, hjs⟩ := (ih _).mp hrest
      exact ⟨⟨hq, his⟩, hjs⟩
    · rintro ⟨⟨hq, his⟩, hjs⟩
      exact ⟨hq, (ih _).mpr ⟨his, hjs⟩⟩

/-- **A step invariant is a run invariant.** -/
theorem run_invariant {Inv : σ → Prop}
    (hstep : ∀ s i, Inv s → Q s i → Inv (step s i).1) {s : σ} {is : List ι} (hs : Inv s)
    (hq : Along step Q s is) : Inv (run step s is).1 := by
  induction is generalizing s with
  | nil => exact hs
  | cons i is ih => exact ih (hstep s i hs hq.1) hq.2

theorem along_and {Q' : σ → ι → Prop} {s : σ} {is : List ι} (h : Along step Q s is)
    (h' : Along step Q' s is) : Along step (fun s i => Q s i ∧ Q' s i) s is := by
  induction is generalizing s with
  | nil => trivial
  | cons i is ih => exact ⟨⟨h.1, h'.1⟩, ih h.2 h'.2⟩

/-- A condition on the inputs alone. -/
theorem along_of_forall {s : σ} {is : List ι} (h : ∀ i ∈ is, ∀ s, Q s i) : Along step Q s is := by
  induction is generalizing s with
  | nil => trivial
  | cons i is ih =>
    exact ⟨h i List.mem_cons_self s, ih (fun j hj => h j (List.mem_cons_of_mem i hj))⟩

/-- A condition that follows at every step of a run follows along it. -/
theorem along_mono {Q' : σ → ι → Prop} {Inv : σ → Prop}
    (hstep : ∀ s i, Inv s → Q s i → Inv (step s i).1)
    (hfollows : ∀ s i, Inv s → Q s i → Q' s i) {s : σ} {is : List ι} (hs : Inv s)
    (hq : Along step Q s is) : Along step Q' s is := by
  induction is generalizing s with
  | nil => trivial
  | cons i is ih => exact ⟨hfollows s i hs hq.1, ih (hstep s i hs hq.1) hq.2⟩

/-- **Step simulation is run simulation**: related machines answer alike along every run. -/
theorem run_simulates {astep : τ → ι → τ × ο} {R : σ → τ → Prop}
    (hstep : ∀ s t i, R s t → Q s i →
      R (step s i).1 (astep t i).1 ∧ (step s i).2 = (astep t i).2)
    {s : σ} {t : τ} {is : List ι} (hr : R s t) (hq : Along step Q s is) :
    R (run step s is).1 (run astep t is).1 ∧ (run step s is).2 = (run astep t is).2 := by
  induction is generalizing s t with
  | nil => exact ⟨hr, rfl⟩
  | cons i is ih =>
    obtain ⟨hr', ho⟩ := hstep s t i hr hq.1
    obtain ⟨hend, hos⟩ := ih hr' hq.2
    exact ⟨hend, by simp only [run, ho, hos]⟩

end

end Lib
end VeraCrypt
