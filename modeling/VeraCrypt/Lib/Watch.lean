import VeraCrypt.Lib.Run

/-!
# Watching a machine

A watcher sees the inputs of a machine and its answers, and keeps a record of what follows from
them. Where each answer agrees with the record so far, and the record goes on to describe the
state, every transcript of the machine agrees with the record it builds up (`run_accepted`).
-/

set_option autoImplicit false

namespace VeraCrypt
namespace Lib

section

variable {σ κ ι ο : Type _}

/-- Every answer of a transcript agrees with what was known when it was given. -/
def Accepted (observe : κ → ι → ο → κ) (agrees : κ → ι → ο → Prop) : κ → List (ι × ο) → Prop
  | _, [] => True
  | k, (i, o) :: rest => agrees k i o ∧ Accepted observe agrees (observe k i o) rest

/-- What is known behind a transcript. -/
def observed (observe : κ → ι → ο → κ) (k : κ) (transcript : List (ι × ο)) : κ :=
  transcript.foldl (fun k io => observe k io.1 io.2) k

/-- The transcript of a run. -/
def transcript (step : σ → ι → σ × ο) (s : σ) (is : List ι) : List (ι × ο) :=
  is.zip (run step s is).2

variable {step : σ → ι → σ × ο} {observe : κ → ι → ο → κ} {agrees : κ → ι → ο → Prop}

theorem transcript_cons (s : σ) (i : ι) (is : List ι) :
    transcript step s (i :: is) = (i, (step s i).2) :: transcript step (step s i).1 is := rfl

/-- **What one step keeps, a transcript keeps**: the record describes the state. -/
theorem run_accepted {Describes : σ → κ → Prop} {Q : ι → Prop}
    (hstep : ∀ s k i, Describes s k → Q i →
      Describes (step s i).1 (observe k i (step s i).2) ∧ agrees k i (step s i).2)
    {s : σ} {k : κ} {is : List ι} (hs : Describes s k) (hq : ∀ i ∈ is, Q i) :
    Accepted observe agrees k (transcript step s is) ∧
      Describes (run step s is).1 (observed observe k (transcript step s is)) := by
  induction is generalizing s k with
  | nil => exact ⟨trivial, hs⟩
  | cons i is ih =>
    obtain ⟨hnext, hagrees⟩ := hstep s k i hs (hq i List.mem_cons_self)
    obtain ⟨hrest, hend⟩ := ih hnext (fun j hj => hq j (List.mem_cons_of_mem i hj))
    rw [transcript_cons]
    exact ⟨⟨hagrees, hrest⟩, hend⟩

end

end Lib
end VeraCrypt
