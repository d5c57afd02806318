import Mathlib.Data.List.GetD
import Mathlib.Data.List.Nodup

/-!
# Loops that rewrite an array in place

What a loop over an array does to each of its elements, where the loop reads what it writes. A loop
that touches every place once maps the elements (`getD_foldl_modify`). A loop over groups, of which
each step rewrites one group from that group alone, rewrites all of them from what stood there at
the start (`foldl_groups`). A loop that follows a path, putting into every place what it took from
the one before, moves every element along one step (`getD_foldl_walk`).
-/

set_option autoImplicit false

namespace VeraCrypt
namespace Lib

variable {α : Type _}

theorem getD_modify (l : List α) (i k : Nat) (f : α → α) (d : α) :
    (l.modify i f).getD k d = if i = k ∧ k < l.length then f (l.getD k d) else l.getD k d := by
  rw [List.getD_eq_getElem?_getD, List.getD_eq_getElem?_getD, List.getElem?_modify]
  by_cases hk : k < l.length
  · rw [List.getElem?_eq_getElem hk]
    by_cases hi : i = k
    · simp [hi, hk]
    · simp [hi]
  · simp [hk]

theorem getD_set (l : List α) (i k : Nat) (a d : α) :
    (l.set i a).getD k d = if i = k ∧ k < l.length then a else l.getD k d := by
  rw [List.getD_eq_getElem?_getD, List.getD_eq_getElem?_getD, List.getElem?_set]
  by_cases hi : i = k
  · subst hi
    by_cases hlt : i < l.length
    · simp [hlt]
    · simp [hlt]
  · simp [hi]

/-- A loop that may fail and does not, with what holds after `i` steps. -/
theorem foldlM_range_some {σ : Type _} {f : σ → Nat → Option σ} {P : Nat → σ → Prop} {n : Nat}
    {s : σ} (hstart : P 0 s)
    (hstep : ∀ i < n, ∀ s, P i s → ∃ s', f s i = some s' ∧ P (i + 1) s') :
    ∃ s', (List.range n).foldlM f s = some s' ∧ P n s' := by
  induction n with
  | zero => exact ⟨s, rfl, hstart⟩
  | succ n ih =>
    obtain ⟨mid, hmid, hPmid⟩ := ih (fun i hi => hstep i (by omega))
    obtain ⟨s', hs', hPs'⟩ := hstep n (Nat.lt_succ_self n) mid hPmid
    refine ⟨s', ?_, hPs'⟩
    rw [List.range_succ, List.foldlM_append, hmid]
    simp [hs']

/-! ## Every place once -/

@[simp] theorem length_foldl_modify {ι : Type _} (pos : ι → Nat) (f : ι → α → α) (is : List ι)
    (l : List α) : (is.foldl (fun l i => l.modify (pos i) (f i)) l).length = l.length := by
  induction is generalizing l with
  | nil => rfl
  | cons i is ih => rw [List.foldl_cons, ih, List.length_modify]

/-- A place that the loop does not come to. -/
theorem getD_foldl_modify_of_forall_ne {ι : Type _} (pos : ι → Nat) (f : ι → α → α) {is : List ι}
    (l : List α) {k : Nat} (d : α) (h : ∀ i ∈ is, pos i ≠ k) :
    (is.foldl (fun l i => l.modify (pos i) (f i)) l).getD k d = l.getD k d := by
  induction is generalizing l with
  | nil => rfl
  | cons i is ih =>
    rw [List.foldl_cons, ih _ (fun j hj => h j (List.mem_cons_of_mem i hj)), getD_modify,
      if_neg (fun hik => h i (List.mem_cons_self ..) hik.1)]

/-- A place that it comes to once. -/
theorem getD_foldl_modify {ι : Type _} (pos : ι → Nat) (f : ι → α → α) {is : List ι}
    (l : List α) (d : α) (hnodup : (is.map pos).Nodup) {i : ι} (hi : i ∈ is) (hlt : pos i < l.length) :
    (is.foldl (fun l i => l.modify (pos i) (f i)) l).getD (pos i) d = f i (l.getD (pos i) d) := by
  induction is generalizing l with
  | nil => exact absurd hi List.not_mem_nil
  | cons j is ih =>
    rw [List.map_cons, List.nodup_cons] at hnodup
    rw [List.foldl_cons]
    rcases List.mem_cons.mp hi with rfl | htail
    · have hne : ∀ j ∈ is, pos j ≠ pos i := by
        intro j hj heq
        exact hnodup.1 (List.mem_map.mpr ⟨j, hj, heq⟩)
      rw [getD_foldl_modify_of_forall_ne pos f _ d hne, getD_modify, if_pos ⟨rfl, hlt⟩]
    · have hne : pos j ≠ pos i := by
        intro heq
        exact hnodup.1 (List.mem_map.mpr ⟨i, htail, heq.symm⟩)
      rw [ih _ hnodup.2 htail (by rwa [List.length_modify]), getD_modify,
        if_neg (fun h => hne h.1)]

/-! ## Group by group -/

section
variable {σ ι γ β : Type _} [DecidableEq γ] {Inv : σ → Prop} {get : σ → ι → β} {grp : ι → γ}
  {step : σ → γ → σ} {out : σ → ι → β}

variable (Inv get grp step out) in
/-- `out` may read the group it writes and nothing else. -/
theorem foldl_groups {gs : List γ} (hinv : ∀ s g, Inv s → Inv (step s g))
    (hstep : ∀ s, ∀ g ∈ gs, ∀ k, Inv s →
      get (step s g) k = if grp k = g then out s k else get s k)
    (hout : ∀ s s' k, (∀ k', grp k' = grp k → get s k' = get s' k') → out s k = out s' k)
    (hnodup : gs.Nodup) {s : σ} (hs : Inv s) (k : ι) :
    get (gs.foldl step s) k = if grp k ∈ gs then out s k else get s k := by
  induction gs generalizing s with
  | nil => simp
  | cons g gs ih =>
    rw [List.nodup_cons] at hnodup
    have hnow := hstep s g (List.mem_cons_self ..)
    rw [List.foldl_cons,
      ih (fun s g' hg => hstep s g' (List.mem_cons_of_mem g hg)) hnodup.2 (hinv s g hs)]
    by_cases hk : grp k = g
    · have hnot : grp k ∉ gs := by
        rw [hk]
        exact hnodup.1
      rw [if_neg hnot, hnow k hs, if_pos hk, if_pos (by rw [hk]; exact List.mem_cons_self ..)]
    · -- the group of `k` still stands as it did
      have hsame : ∀ k', grp k' = grp k → get (step s g) k' = get s k' := by
        intro k' hk'
        rw [hnow k' hs, if_neg (by rw [hk']; exact hk)]
      rw [hout _ _ k hsame, hsame k rfl]
      simp [hk]

end

/-! ## Along a path -/

section
variable {β : Type _} (g : β → α → α) (d : α) (p : Nat → Nat) (r : Nat → β)

/-- One step along a path: the carried element goes into the place, what stood there is carried
    on. -/
def walkStep (s : List α × α) (i : Nat) : List α × α :=
  (s.1.set (p i) (g (r i) s.2), s.1.getD (p i) d)

/-- What is carried to step `i`. -/
def carried (l : List α) (t : α) : Nat → α
  | 0 => t
  | i + 1 => l.getD (p i) d

@[simp] theorem length_walk (n : Nat) (l : List α) (t : α) :
    ((List.range n).foldl (walkStep g d p r) (l, t)).1.length = l.length := by
  induction n with
  | zero => rfl
  | succ n ih =>
    rw [List.range_succ, List.foldl_append, List.foldl_cons, List.foldl_nil, walkStep,
      List.length_set, ih]

/-- **A path without a repetition**: every place gets what the place before it held. -/
theorem getD_foldl_walk {n : Nat} {l : List α} (t : α) (hlt : ∀ i < n, p i < l.length)
    (hinj : ∀ i < n, ∀ j < n, p i = p j → i = j) :
    ((List.range n).foldl (walkStep g d p r) (l, t)).2 = carried d p l t n ∧
    (∀ k, (∀ i < n, p i ≠ k) →
      ((List.range n).foldl (walkStep g d p r) (l, t)).1.getD k d = l.getD k d) ∧
    ∀ i < n, ((List.range n).foldl (walkStep g d p r) (l, t)).1.getD (p i) d =
      g (r i) (carried d p l t i) := by
  induction n with
  | zero => exact ⟨rfl, fun _ _ => rfl, fun i hi => absurd hi (Nat.not_lt_zero i)⟩
  | succ n ih =>
    obtain ⟨hcarried, hrest, hdone⟩ := ih (fun i hi => hlt i (by omega))
      (fun i hi j hj => hinj i (by omega) j (by omega))
    have hfresh : ∀ i < n, p i ≠ p n := by
      intro i hi heq
      exact absurd (hinj i (by omega) n (by omega) heq) (by omega)
    have hlen := length_walk g d p r n l t
    rw [List.range_succ, List.foldl_append, List.foldl_cons, List.foldl_nil]
    generalize (List.range n).foldl (walkStep g d p r) (l, t) = s at hcarried hrest hdone hlen
    refine ⟨hrest (p n) hfresh, ?_, ?_⟩
    · intro k hk
      rw [walkStep, getD_set, if_neg (fun h => hk n (by omega) h.1)]
      exact hrest k (fun i hi => hk i (by omega))
    · intro i hi
      rw [walkStep, getD_set]
      by_cases hin : i = n
      · subst hin
        rw [if_pos ⟨rfl, by rw [hlen]; exact hlt i (by omega)⟩, hcarried]
      · have hltn : i < n := by omega
        rw [if_neg (fun h => hfresh i hltn h.1.symm), hdone i hltn]

end

end Lib
end VeraCrypt
