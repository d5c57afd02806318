import Mathlib.Data.List.Basic

/-!
# Adding values into an array

A loop that adds values to the entries of an array, at places that do not depend on what stands in
the array, has for its result the array and a list of additions (`addAll`). Where addition is
commutative and associative the additions may come in any order (`addAll_perm`), a pointwise
summand of the array stays one of the result (`addAll_zipWith`), and additions at places one after
another leave the value at each (`getElem?_addAll_zipIdx`).
-/

set_option autoImplicit false

namespace VeraCrypt
namespace Lib

variable {α : Type}

/-- Values added at places one after another, from `k` on. -/
def consecutive (k : Nat) (vs : List α) : List (Nat × α) := vs.mapIdx (fun i v => (k + i, v))

theorem consecutive_cons (k : Nat) (v : α) (vs : List α) :
    consecutive k (v :: vs) = (k, v) :: consecutive (k + 1) vs := by
  unfold consecutive
  rw [List.mapIdx_cons]
  congr 1
  apply List.mapIdx_eq_mapIdx_iff.mpr
  intro i hi
  rw [Nat.add_right_comm, Nat.add_assoc]

theorem consecutive_ge {k : Nat} {vs : List α} {w : Nat × α} (h : w ∈ consecutive k vs) :
    k ≤ w.1 := by
  unfold consecutive at h
  obtain ⟨i, hi, rfl⟩ := List.mem_mapIdx.mp h
  exact Nat.le_add_right k i

variable [Add α]

/-- One addition: the place and the value. -/
def addAt (xs : List α) (w : Nat × α) : List α := xs.modify w.1 (· + w.2)

def addAll (xs : List α) (ws : List (Nat × α)) : List α := ws.foldl addAt xs

@[simp] theorem addAll_nil (xs : List α) : addAll xs [] = xs := rfl

theorem addAll_cons (xs : List α) (w : Nat × α) (ws : List (Nat × α)) :
    addAll xs (w :: ws) = addAll (addAt xs w) ws := rfl

theorem addAll_append (xs : List α) (ws ws' : List (Nat × α)) :
    addAll xs (ws ++ ws') = addAll (addAll xs ws) ws' := List.foldl_append

@[simp] theorem length_addAt (xs : List α) (w : Nat × α) : (addAt xs w).length = xs.length :=
  List.length_modify _ _ _

@[simp] theorem length_addAll (xs : List α) (ws : List (Nat × α)) :
    (addAll xs ws).length = xs.length := by
  induction ws generalizing xs with
  | nil => rfl
  | cons w ws ih => rw [addAll_cons, ih, length_addAt]

theorem getElem?_addAt (xs : List α) (w : Nat × α) (i : Nat) :
    (addAt xs w)[i]? = xs[i]?.map (fun x => if w.1 = i then x + w.2 else x) := by
  unfold addAt
  rw [List.getElem?_modify]
  split <;> rfl

theorem addAt_zipWith [Std.Associative (α := α) (· + ·)] (xs ys : List α) (w : Nat × α) :
    addAt (List.zipWith (· + ·) xs ys) w = List.zipWith (· + ·) xs (addAt ys w) := by
  apply List.ext_getElem?
  intro i
  rw [getElem?_addAt, List.getElem?_zipWith, List.getElem?_zipWith, getElem?_addAt]
  cases xs[i]? with
  | none => rfl
  | some x =>
    cases ys[i]? with
    | none => rfl
    | some y =>
      by_cases hw : w.1 = i
      · have hassoc : x + y + w.2 = x + (y + w.2) := by ac_rfl
        simp only [Option.map_some, if_pos hw, hassoc]
      · simp only [Option.map_some, if_neg hw]

/-- What stands in the array is a summand of what comes out. -/
theorem addAll_zipWith [Std.Associative (α := α) (· + ·)] (xs ys : List α) (ws : List (Nat × α)) :
    addAll (List.zipWith (· + ·) xs ys) ws = List.zipWith (· + ·) xs (addAll ys ws) := by
  induction ws generalizing ys with
  | nil => rfl
  | cons w ws ih => rw [addAll_cons, addAll_cons, addAt_zipWith, ih]

section
variable [Std.Commutative (α := α) (· + ·)] [Std.Associative (α := α) (· + ·)]

theorem addAt_comm (xs : List α) (w w' : Nat × α) :
    addAt (addAt xs w) w' = addAt (addAt xs w') w := by
  apply List.ext_getElem?
  intro i
  rw [getElem?_addAt, getElem?_addAt, getElem?_addAt, getElem?_addAt]
  cases xs[i]? with
  | none => rfl
  | some x =>
    have hright : x + w.2 + w'.2 = x + w'.2 + w.2 := by ac_rfl
    simp only [Option.map_some]
    by_cases hw : w.1 = i
    · by_cases hw' : w'.1 = i
      · simp only [if_pos hw, if_pos hw', hright]
      · simp only [if_pos hw, if_neg hw']
    · simp only [if_neg hw]

/-- **The order does not matter.** -/
theorem addAll_perm {ws ws' : List (Nat × α)} (h : ws.Perm ws') (xs : List α) :
    addAll xs ws = addAll xs ws' :=
  h.foldl_eq' (fun w _ w' _ xs => addAt_comm xs w w') xs

end

/-- Additions at other places leave an entry as it is. -/
theorem getElem?_addAll_of_ne {ws : List (Nat × α)} {i : Nat} (h : ∀ w ∈ ws, w.1 ≠ i)
    (xs : List α) : (addAll xs ws)[i]? = xs[i]? := by
  induction ws generalizing xs with
  | nil => rfl
  | cons w ws ih =>
    rw [addAll_cons, ih (fun w' hw' => h w' (List.mem_cons_of_mem _ hw')), getElem?_addAt]
    have hw := h w List.mem_cons_self
    simp only [if_neg hw, Option.map_id']

/-- **Each value is added to its entry**, and to no other. -/
theorem getElem?_addAll_consecutive (xs vs : List α) (k i : Nat) :
    (addAll xs (consecutive k vs))[k + i]? =
      xs[k + i]?.map (fun x => match vs[i]? with | some v => x + v | none => x) := by
  induction vs generalizing xs k i with
  | nil => simp [consecutive]
  | cons v vs ih =>
    rw [consecutive_cons, addAll_cons]
    cases i with
    | zero =>
      rw [Nat.add_zero, getElem?_addAll_of_ne, getElem?_addAt]
      · simp
      · intro w hw
        have hge := consecutive_ge hw
        omega
    | succ i =>
      have hnext := ih (addAt xs (k, v)) (k + 1) i
      have hplace : k + 1 + i = k + (i + 1) := by omega
      rw [hplace] at hnext
      rw [hnext, getElem?_addAt, Option.map_map]
      have hne : ¬ k = k + (i + 1) := by omega
      simp only [if_neg hne]
      rfl

end Lib
end VeraCrypt
