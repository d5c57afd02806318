import Mathlib.Data.List.Basic
import Mathlib.Data.UInt

/-!
# Branch-free comparison and selection

Code that must not leak a secret through its timing compares and selects without branching:
it folds the differences of two buffers into one accumulator, and it picks one of two
candidates by a mask of all zeros or all ones. This file says what those idioms compute:

* `ctEqual` is equality of buffers of one length (`ctEqual_iff`);
* `ctBlend` is an `if` on the mask (`ctBlend_zero`, `ctBlend_ones`);
* a scan that never stops but blends in only the *first* candidate that matches selects what
  `List.findSome?` finds (`foldl_scan`).
-/

set_option autoImplicit false

namespace VeraCrypt
namespace Lib

/-! ## Equality by accumulated difference -/

/-- The accumulated difference of two buffers: the bitwise or of all `aᵢ xor bᵢ`. -/
def diffAcc (a b : List UInt8) (d : UInt8) : UInt8 :=
  (a.zip b).foldl (fun d p => d ||| (p.1 ^^^ p.2)) d

def ctEqual (a b : List UInt8) : Bool := diffAcc a b 0 == 0

theorem or_eq_zero_iff (a b : UInt8) : a ||| b = 0 ↔ a = 0 ∧ b = 0 := by
  constructor
  · intro h
    have hb : a.toBitVec ||| b.toBitVec = 0#8 := congrArg UInt8.toBitVec h
    obtain ⟨h1, h2⟩ := BitVec.or_eq_zero_iff.mp hb
    exact ⟨UInt8.toBitVec_inj.mp h1, UInt8.toBitVec_inj.mp h2⟩
  · rintro ⟨rfl, rfl⟩
    rfl

/-- Once a difference is in the accumulator it stays there. -/
theorem diffAcc_eq_zero_iff {a b : List UInt8} (h : a.length = b.length) (d : UInt8) :
    diffAcc a b d = 0 ↔ d = 0 ∧ a = b := by
  induction a generalizing b d with
  | nil =>
    cases b with
    | nil => simp [diffAcc]
    | cons y ys => simp at h
  | cons x xs ih =>
    cases b with
    | nil => simp at h
    | cons y ys =>
      have hlen : xs.length = ys.length := by simpa using h
      have hstep : diffAcc (x :: xs) (y :: ys) d = diffAcc xs ys (d ||| (x ^^^ y)) := rfl
      rw [hstep, ih hlen, or_eq_zero_iff, UInt8.xor_eq_zero_iff, List.cons.injEq, and_assoc]

theorem ctEqual_iff {a b : List UInt8} (h : a.length = b.length) :
    ctEqual a b = true ↔ a = b := by
  simp [ctEqual, diffAcc_eq_zero_iff h]

@[simp] theorem ctEqual_self (a : List UInt8) : ctEqual a a = true :=
  (ctEqual_iff rfl).mpr rfl

/-! ## Selection by mask -/

/-- `old` where the mask is clear, `new` where it is set. -/
def ctBlend (mask : UInt8) (old new : List UInt8) : List UInt8 :=
  List.zipWith (fun o n => (o &&& ~~~mask) ||| (n &&& mask)) old new

theorem ctBlend_zero {old new : List UInt8} (h : old.length = new.length) :
    ctBlend 0 old new = old := by
  induction old generalizing new with
  | nil => rfl
  | cons o os ih =>
    cases new with
    | nil => simp at h
    | cons n ns =>
      have hlen : os.length = ns.length := by simpa using h
      have htl : ctBlend 0 os ns = os := ih hlen
      have hhd : (o &&& ~~~(0 : UInt8)) ||| (n &&& 0) = o := by simp
      simp only [ctBlend, List.zipWith_cons_cons, hhd]
      exact congrArg _ htl

theorem ctBlend_ones {old new : List UInt8} (h : old.length = new.length) :
    ctBlend 255 old new = new := by
  induction old generalizing new with
  | nil =>
    cases new with
    | nil => rfl
    | cons n ns => simp at h
  | cons o os ih =>
    cases new with
    | nil => simp at h
    | cons n ns =>
      have hlen : os.length = ns.length := by simpa using h
      have htl : ctBlend 255 os ns = ns := ih hlen
      have hhd : (o &&& ~~~(255 : UInt8)) ||| (n &&& 255) = n := by
        have h0 : ~~~(255 : UInt8) = 0 := by decide
        have h1 : (255 : UInt8) = -1 := by decide
        rw [h0, h1]
        simp
      simp only [ctBlend, List.zipWith_cons_cons, hhd]
      exact congrArg _ htl

/-! ## The first match of a scan that never stops

`f i` is what candidate `i` offers (`none` where it does not match), `step` one turn of the
loop on `(found, selected)`. The loop looks at every candidate; a match is taken only while
`found` is clear. `Ok` is what `step` needs of the selected value to blend at all, a length in
practice. -/

section Scan

variable {ι β : Type _} {f : ι → Option β} {step : Bool × β → ι → Bool × β} {Ok : β → Prop}

/-- After a match nothing that follows is selected. -/
theorem foldl_scan_found
    (hmiss : ∀ st i, Ok st.2 → f i = none → step st i = st)
    (hhit : ∀ st i v, Ok st.2 → f i = some v → step st i = (true, if st.1 then st.2 else v))
    (l : List ι) {b : β} (hb : Ok b) : l.foldl step (true, b) = (true, b) := by
  induction l with
  | nil => rfl
  | cons i l ih =>
    have hi : step (true, b) i = (true, b) := by
      cases hf : f i with
      | none => exact hmiss _ i hb hf
      | some v => exact hhit _ i v hb hf
    rw [List.foldl_cons, hi, ih]

/-- **The scan selects the first match**, and reports whether there was one. -/
theorem foldl_scan (hok : ∀ i v, f i = some v → Ok v)
    (hmiss : ∀ st i, Ok st.2 → f i = none → step st i = st)
    (hhit : ∀ st i v, Ok st.2 → f i = some v → step st i = (true, if st.1 then st.2 else v))
    (l : List ι) {b : β} (hb : Ok b) :
    l.foldl step (false, b) = ((l.findSome? f).isSome, (l.findSome? f).getD b) := by
  induction l with
  | nil => rfl
  | cons i l ih =>
    rw [List.foldl_cons]
    cases hf : f i with
    | none => rw [hmiss _ i hb hf, ih, List.findSome?_cons_of_isNone (by simp [hf])]
    | some v =>
      have hi : step (false, b) i = (true, v) := hhit _ i v hb hf
      rw [hi, foldl_scan_found hmiss hhit l (hok i v hf), List.findSome?_cons, hf]
      rfl

end Scan

end Lib
end VeraCrypt
