import VeraCrypt.Crypto.Primitives
import VeraCrypt.Lib.Endian
import VeraCrypt.Lib.Region

/-!
# Anti-forensic splitting (`Common/AfSplit.c`)

`afSplit` spreads `n` bytes of key material over `s` stripes of `n` bytes: `s - 1` random ones
and a last one that is the material xored with a digest chained through all of them. `afMerge`
walks the same chain and takes the digest off again. The two agree on the chain because both
compute it from the stripes alone (`afChain`), so the merge inverts the split whatever the
digest is (`afMerge_afSplit`).
-/

set_option autoImplicit false

namespace VeraCrypt

open Lib

def afDigest : Nat := 32

/-- `af_diffuse`: each 32-byte section is replaced by the digest of its big-endian index and
    its bytes; a trailing section of `rem` bytes takes the first `rem` bytes of its digest. -/
def afDiffuse (P : Primitives) (src : Bytes) : Bytes :=
  let full := src.length / afDigest
  let rem := src.length % afDigest
  (List.range (full + if rem ≠ 0 then 1 else 0)).flatMap fun i =>
    let take := if i < full then afDigest else rem
    (P.sha256 (beBytes 4 i ++ slice src (i * afDigest) take)).take take

/-- The digest chained through a list of stripes, from the all-zero buffer. -/
def afChain (P : Primitives) (n : Nat) (stripes : List Bytes) : Bytes :=
  stripes.foldl (fun buf stripe => afDiffuse P (xorBytes buf stripe)) (List.replicate n 0)

/-- The `s - 1` random stripes: stripe `i` is the `i`-th draw of `n` bytes. -/
def afRandomStripes (rng : RandStream) (n s : Nat) : List Bytes :=
  (List.range (s - 1)).map fun i => RandStream.bytes rng (i * n) n

/-- The size of the two scratch buffers of `AfSplit` and `AfMerge`. -/
def afBufSize : Int := 1024

/-- `AfSplit`: `none` is the -1 of bad parameters. -/
def afSplit (P : Primitives) (material : Bytes) (n s : Int) (rng : RandStream) :
    Option Bytes :=
  if n ≤ 0 ∨ n > afBufSize ∨ s < 1 then none
  else
    let stripes := afRandomStripes rng n.toNat s.toNat
    some (stripes.flatten ++ xorBytes material (afChain P n.toNat stripes))

/-- `AfMerge`. With the parameters `AfSplit` refuses it writes nothing. -/
def afMerge (P : Primitives) (stripes : Bytes) (n s : Int) : Bytes :=
  if n ≤ 0 ∨ n > afBufSize ∨ s < 1 then []
  else
    let n := n.toNat
    let s := s.toNat
    let chain := afChain P n ((List.range (s - 1)).map fun i => slice stripes (i * n) n)
    xorBytes (slice stripes ((s - 1) * n) n) chain

/-! ## The diffusion keeps the length -/

theorem length_afDiffuse (P : Primitives) (src : Bytes) :
    (afDiffuse P src).length = src.length := by
  have hsplit := Nat.div_add_mod src.length afDigest
  have hrem : src.length % afDigest < 32 := Nat.mod_lt _ (by decide)
  have hsec : ∀ (m : Bytes) (take : Nat), take ≤ 32 → ((P.sha256 m).take take).length = take := by
    intro m take htake
    rw [List.length_take, P.length_sha256]
    omega
  have hfull : ((List.range (src.length / afDigest)).flatMap fun i =>
      (P.sha256 (beBytes 4 i ++ slice src (i * afDigest)
        (if i < src.length / afDigest then afDigest else src.length % afDigest))).take
        (if i < src.length / afDigest then afDigest else src.length % afDigest)).length
      = src.length / afDigest * afDigest := by
    rw [length_flatMap_const (k := afDigest)]
    · simp
    · intro i hi
      rw [if_pos (List.mem_range.mp hi)]
      exact hsec _ _ (by decide)
  unfold afDiffuse
  by_cases hz : src.length % afDigest = 0
  · simp only [hz, ne_eq, not_true_eq_false, if_false, Nat.add_zero]
    rw [hz] at hfull hsplit
    rw [hfull, Nat.mul_comm]
    exact hsplit
  · simp only [ne_eq, hz, not_false_eq_true, if_true, List.range_succ, List.flatMap_append,
      List.flatMap_singleton, List.length_append, hfull, Nat.lt_irrefl, if_false]
    rw [hsec _ _ (by omega), Nat.mul_comm]
    exact hsplit

theorem length_afChain (P : Primitives) {n : Nat} {stripes : List Bytes}
    (h : ∀ st ∈ stripes, st.length = n) : (afChain P n stripes).length = n := by
  have hgen : ∀ (l : List Bytes) (buf : Bytes), buf.length = n → (∀ st ∈ l, st.length = n) →
      (l.foldl (fun buf stripe => afDiffuse P (xorBytes buf stripe)) buf).length = n := by
    intro l
    induction l with
    | nil => intro buf hb _; exact hb
    | cons st l ih =>
      intro buf hb hl
      have hst := hl st (by simp)
      refine ih _ ?_ (fun s hs => hl s (by simp [hs]))
      rw [length_afDiffuse, length_xorBytes (by omega), hb]
  exact hgen stripes _ (by simp) h

/-! ## Merge inverts split -/

theorem length_of_mem_afRandomStripes {rng : RandStream} {n s : Nat} :
    ∀ st ∈ afRandomStripes rng n s, st.length = n := by
  intro st hst
  obtain ⟨i, _, rfl⟩ := List.mem_map.mp hst
  simp

theorem length_afSplit {P : Primitives} {material blob : Bytes} {n s : Int} {rng : RandStream}
    (hm : material.length = n.toNat) (h : afSplit P material n s rng = some blob) :
    blob.length = s.toNat * n.toNat := by
  unfold afSplit at h
  split at h
  · simp at h
  · next hok =>
    have hst := @length_of_mem_afRandomStripes rng n.toNat s.toNat
    have hch := length_afChain P hst
    have hs : 1 ≤ s.toNat := by omega
    obtain rfl := Option.some.inj h
    rw [List.length_append, length_flatten_const hst, length_xorBytes (by rw [hm]; exact hch.symm),
      hm, afRandomStripes, List.length_map, List.length_range, ← Nat.succ_mul]
    congr 1
    omega

/-- **The merge gives back the material that was split.** -/
theorem afMerge_afSplit {P : Primitives} {material blob : Bytes} {n s : Int} {rng : RandStream}
    (hm : material.length = n.toNat) (h : afSplit P material n s rng = some blob) :
    afMerge P blob n s = material := by
  unfold afSplit at h
  split at h
  · simp at h
  · next hok =>
    have hst := @length_of_mem_afRandomStripes rng n.toNat s.toNat
    have hlen : (afRandomStripes rng n.toNat s.toNat).length = s.toNat - 1 := by
      simp [afRandomStripes]
    have hch := length_afChain P hst
    obtain rfl := Option.some.inj h
    have hx : (xorBytes material (afChain P n.toNat
        (afRandomStripes rng n.toNat s.toNat))).length = n.toNat := by
      rw [length_xorBytes (by rw [hm]; exact hch.symm), hm]
    have hcancel := xorBytes_cancel (a := material) (b := afChain P n.toNat
      (afRandomStripes rng n.toNat s.toNat)) (by rw [hm]; exact hch.symm)
    generalize xorBytes material _ = last at hx hcancel ⊢
    -- the merge reads the same random stripes the split wrote, hence the same chain
    have hread : (List.range (s.toNat - 1)).map (fun i =>
        slice ((afRandomStripes rng n.toNat s.toNat).flatten ++ last) (i * n.toNat) n.toNat) =
        afRandomStripes rng n.toNat s.toNat := by
      apply List.ext_getElem
      · simp [hlen]
      · intro i h1 h2
        rw [List.getElem_map, List.getElem_range]
        exact slice_flatten hst _ h2
    have hlast : slice ((afRandomStripes rng n.toNat s.toNat).flatten ++ last)
        ((s.toNat - 1) * n.toNat) n.toNat = last := by
      have hfl := length_flatten_const hst
      rw [hlen] at hfl
      rw [slice_append_right (by omega), hfl, Nat.sub_self, slice_all (by omega)]
    unfold afMerge
    rw [if_neg hok]
    simp only [hread, hlast]
    exact hcancel

/-- One stripe is the material itself. -/
theorem afMerge_one (P : Primitives) {material : Bytes} {n : Int} (hn : 0 < n ∧ n ≤ afBufSize)
    (hm : material.length = n.toNat) : afMerge P material n 1 = material := by
  have hzero : xorBytes material (List.replicate n.toNat 0) = material := by
    rw [← hm]
    exact xorBytes_replicate_zero material
  have hsplit : afSplit P material n 1 (fun _ => 0) = some material := by
    unfold afSplit
    rw [if_neg (by omega)]
    exact congrArg some hzero
  exact afMerge_afSplit hm hsplit

/-! ## A changed stripe

The merge reads stripe by stripe. A change of the last stripe is a change of the material; a change
of an earlier one goes through the rest of the chain, which forgets it only where `af_diffuse` maps
two buffers to one. -/

/-- Stripe `k` of a split. -/
def afStripe (stripes : Bytes) (n k : Nat) : Bytes := slice stripes (k * n) n

/-- Two `n`-byte buffers that `af_diffuse` does not tell apart. -/
def AfCollision (P : Primitives) (n : Nat) : Prop :=
  ∃ x y : Bytes, x.length = n ∧ y.length = n ∧ x ≠ y ∧ afDiffuse P x = afDiffuse P y

/-- The chain over the first `m` stripes of `f`. -/
def afChainTo (P : Primitives) (n : Nat) (f : Nat → Bytes) (m : Nat) : Bytes :=
  afChain P n ((List.range m).map f)

section

variable {P : Primitives} {n : Nat} {f g : Nat → Bytes} {m j : Nat}

theorem xorBytes_right_cancel {a b c : Bytes} (ha : a.length = c.length)
    (hb : b.length = c.length) (h : xorBytes a c = xorBytes b c) : a = b := by
  rw [← xorBytes_cancel ha, h, xorBytes_cancel hb]

theorem afChainTo_succ (P : Primitives) (n : Nat) (f : Nat → Bytes) (m : Nat) :
    afChainTo P n f (m + 1) = afDiffuse P (xorBytes (afChainTo P n f m) (f m)) := by
  simp only [afChainTo, afChain, List.range_succ, List.map_append, List.map_cons, List.map_nil,
    List.foldl_append, List.foldl_cons, List.foldl_nil]

theorem length_afChainTo (hf : ∀ k < m, (f k).length = n) : (afChainTo P n f m).length = n := by
  apply length_afChain
  intro st hst
  rcases List.mem_map.mp hst with ⟨k, hk, rfl⟩
  exact hf k (List.mem_range.mp hk)

theorem afChainTo_congr (h : ∀ k < m, f k = g k) : afChainTo P n f m = afChainTo P n g m := by
  have hlist : (List.range m).map f = (List.range m).map g := by
    apply List.map_congr_left
    intro k hk
    exact h k (List.mem_range.mp hk)
  rw [afChainTo, afChainTo, hlist]

/-- **A chain that forgets a change has met a collision.** By induction on the stripes behind the
changed one. -/
theorem afChainTo_collides (hf : ∀ k < m, (f k).length = n) (hg : ∀ k < m, (g k).length = n)
    (hj : j < m) (hne : f j ≠ g j) (hrest : ∀ k < m, k ≠ j → f k = g k)
    (h : afChainTo P n f m = afChainTo P n g m) : AfCollision P n := by
  induction m with
  | zero => exact absurd hj (Nat.not_lt_zero j)
  | succ m ih =>
    have hf' : ∀ k < m, (f k).length = n := fun k hk => hf k (Nat.lt_succ_of_lt hk)
    have hg' : ∀ k < m, (g k).length = n := fun k hk => hg k (Nat.lt_succ_of_lt hk)
    have hfm := hf m (Nat.lt_succ_self m)
    have hgm := hg m (Nat.lt_succ_self m)
    have hcf : (afChainTo P n f m).length = n := length_afChainTo hf'
    have hcg : (afChainTo P n g m).length = n := length_afChainTo hg'
    rw [afChainTo_succ, afChainTo_succ] at h
    refine Classical.byContradiction fun hnone => ?_
    have hsame : xorBytes (afChainTo P n f m) (f m) = xorBytes (afChainTo P n g m) (g m) := by
      refine Classical.byContradiction fun hdiff => hnone ⟨_, _, ?_, ?_, hdiff, h⟩
      · rw [length_xorBytes (hcf.trans hfm.symm), hcf]
      · rw [length_xorBytes (hcg.trans hgm.symm), hcg]
    by_cases hlast : j = m
    · -- the chains in front of the changed stripe are one
      have hfront : afChainTo P n f m = afChainTo P n g m :=
        afChainTo_congr (fun k hk => hrest k (Nat.lt_succ_of_lt hk) (by omega))
      rw [hfront, xorBytes_comm _ (f m), xorBytes_comm _ (g m)] at hsame
      rw [hlast] at hne
      exact hne (xorBytes_right_cancel (hfm.trans hcg.symm) (hgm.trans hcg.symm) hsame)
    · have hfg : f m = g m := hrest m (Nat.lt_succ_self m) (Ne.symm hlast)
      rw [hfg] at hsame
      have hchain := xorBytes_right_cancel (hcf.trans hgm.symm) (hcg.trans hgm.symm) hsame
      exact hnone (ih hf' hg' (by omega) (fun k hk => hrest k (Nat.lt_succ_of_lt hk)) hchain)

end

/-- What both calls refuse. -/
def AfRefused (n s : Int) : Prop := n ≤ 0 ∨ n > afBufSize ∨ s < 1

instance (n s : Int) : Decidable (AfRefused n s) :=
  inferInstanceAs (Decidable (_ ∨ _ ∨ _))

theorem afSplit_refused (P : Primitives) (material : Bytes) {n s : Int} (rng : RandStream)
    (h : AfRefused n s) : afSplit P material n s rng = none :=
  if_pos h

theorem afSplit_isSome (P : Primitives) (material : Bytes) {n s : Int} (rng : RandStream)
    (h : ¬AfRefused n s) : ∃ blob, afSplit P material n s rng = some blob :=
  ⟨_, if_neg h⟩

theorem afMerge_refused (P : Primitives) (stripes : Bytes) {n s : Int} (h : AfRefused n s) :
    afMerge P stripes n s = [] :=
  if_pos h

/-- The merge, stripe by stripe. -/
theorem afMerge_eq (P : Primitives) (stripes : Bytes) {n s : Int} (h : ¬AfRefused n s) :
    afMerge P stripes n s =
      xorBytes (afStripe stripes n.toNat (s.toNat - 1))
        (afChainTo P n.toNat (afStripe stripes n.toNat) (s.toNat - 1)) :=
  if_neg h

theorem length_afStripe {stripes : Bytes} {n s k : Nat} (h : s * n ≤ stripes.length) (hk : k < s) :
    (afStripe stripes n k).length = n := by
  apply length_slice
  have hmul := Nat.mul_le_mul_right n (Nat.succ_le_of_lt hk)
  rw [Nat.succ_mul] at hmul
  omega

/-- What is merged depends on the `s` stripes alone. -/
theorem afMerge_congr (P : Primitives) {stripes stripes' : Bytes} {n s : Int}
    (h : ∀ k < s.toNat, afStripe stripes n.toNat k = afStripe stripes' n.toNat k) :
    afMerge P stripes n s = afMerge P stripes' n s := by
  by_cases href : AfRefused n s
  · rw [afMerge_refused P _ href, afMerge_refused P _ href]
  · have hs : 1 ≤ s.toNat := by
      unfold AfRefused at href
      omega
    rw [afMerge_eq P _ href, afMerge_eq P _ href, h _ (by omega)]
    congr 1
    exact afChainTo_congr (fun k hk => h k (by omega))

/-- **A change confined to one stripe shows**, in the last stripe always, and in another unless
the diffusion collides. -/
theorem afMerge_changed {P : Primitives} {stripes changed : Bytes} {n s : Int} {j : Nat}
    (href : ¬AfRefused n s) (hlen : s.toNat * n.toNat ≤ stripes.length)
    (hlen' : s.toNat * n.toNat ≤ changed.length) (hj : j < s.toNat)
    (hne : afStripe changed n.toNat j ≠ afStripe stripes n.toNat j)
    (hrest : ∀ k < s.toNat, k ≠ j → afStripe changed n.toNat k = afStripe stripes n.toNat k)
    (h : afMerge P changed n s = afMerge P stripes n s) :
    j + 1 < s.toNat ∧ AfCollision P n.toNat := by
  have hf : ∀ k < s.toNat, (afStripe changed n.toNat k).length = n.toNat :=
    fun k hk => length_afStripe hlen' hk
  have hg : ∀ k < s.toNat, (afStripe stripes n.toNat k).length = n.toNat :=
    fun k hk => length_afStripe hlen hk
  have hcf : (afChainTo P n.toNat (afStripe changed n.toNat) (s.toNat - 1)).length = n.toNat :=
    length_afChainTo (fun k hk => hf k (by omega))
  have hcg : (afChainTo P n.toNat (afStripe stripes n.toNat) (s.toNat - 1)).length = n.toNat :=
    length_afChainTo (fun k hk => hg k (by omega))
  rw [afMerge_eq P _ href, afMerge_eq P _ href] at h
  by_cases hlast : j + 1 = s.toNat
  · have hchain : afChainTo P n.toNat (afStripe changed n.toNat) (s.toNat - 1) =
        afChainTo P n.toNat (afStripe stripes n.toNat) (s.toNat - 1) :=
      afChainTo_congr (fun k hk => hrest k (by omega) (by omega))
    have hplace : s.toNat - 1 = j := by omega
    have hfj := hf j hj
    have hgj := hg j hj
    rw [hchain] at h
    rw [hplace] at h hcg
    exact absurd (xorBytes_right_cancel (hfj.trans hcg.symm) (hgj.trans hcg.symm) h) hne
  · have hend : afStripe changed n.toNat (s.toNat - 1) = afStripe stripes n.toNat (s.toNat - 1) :=
      hrest _ (by omega) (by omega)
    have hgl := hg (s.toNat - 1) (by omega)
    rw [hend, xorBytes_comm, xorBytes_comm (afStripe stripes _ _)] at h
    have hchain := xorBytes_right_cancel (hcf.trans hgl.symm) (hcg.trans hgl.symm) h
    exact ⟨by omega, afChainTo_collides (fun k hk => hf k (by omega)) (fun k hk => hg k (by omega))
      (by omega) hne (fun k hk => hrest k (by omega)) hchain⟩

/-! ## The calls, with their pointers -/

/-- `AfSplit`, `none` being a null pointer: the return value, and the bytes at `stripes`
afterwards. -/
def afSplitCall (P : Primitives) (material : Option Bytes) (n s : Int) (rng : Option RandStream)
    (stripes : Option Bytes) : Int × Option Bytes :=
  match material, stripes with
  | some material, some out =>
    if s > 1 ∧ rng.isNone then (-1, some out)
    else
      match afSplit P material n s (rng.getD fun _ => 0) with
      | none => (-1, some out)
      | some blob => (0, some (patch out 0 blob))
  | _, _ => (-1, stripes)

/-- `AfMerge`: the bytes at `materialOut` afterwards. -/
def afMergeCall (P : Primitives) (stripes : Bytes) (n s : Int) (materialOut : Bytes) : Bytes :=
  if AfRefused n s then materialOut else patch materialOut 0 (afMerge P stripes n s)

/-- Parameters out of range, or a null pointer, write nothing. -/
theorem afSplitCall_refused (P : Primitives) {material : Option Bytes} {n s : Int}
    {rng : Option RandStream} {stripes : Option Bytes}
    (h : AfRefused n s ∨ material = none ∨ stripes = none ∨ s > 1 ∧ rng = none) :
    afSplitCall P material n s rng stripes = (-1, stripes) := by
  cases material with
  | none => rfl
  | some material =>
    cases stripes with
    | none => rfl
    | some out =>
      simp only [afSplitCall]
      split
      · rfl
      · next hrng =>
        rcases h with href | hnull | hnull | ⟨hs, hnull⟩
        · rw [afSplit_refused P _ _ href]
        · cases hnull
        · cases hnull
        · exact absurd ⟨hs, by rw [hnull]; rfl⟩ hrng

/-- The stripes that a call has written. -/
theorem afSplitCall_written (P : Primitives) {material out : Bytes} {n s : Int}
    {rng : Option RandStream} (href : ¬AfRefused n s) (hrng : s > 1 → rng ≠ none)
    (hm : material.length = n.toNat) (hout : s.toNat * n.toNat ≤ out.length) :
    ∃ blob, afSplit P material n s (rng.getD fun _ => 0) = some blob ∧
      afSplitCall P (some material) n s rng (some out) = (0, some (patch out 0 blob)) ∧
      (patch out 0 blob).length = out.length ∧
      ∀ k < s.toNat, afStripe (patch out 0 blob) n.toNat k = afStripe blob n.toNat k := by
  rcases afSplit_isSome P material (rng.getD fun _ => 0) href with ⟨blob, hsplit⟩
  have hlen := length_afSplit hm hsplit
  have hnot : ¬(s > 1 ∧ rng.isNone = true) := by
    rintro ⟨hs, hnone⟩
    exact hrng hs (Option.isNone_iff_eq_none.mp hnone)
  refine ⟨blob, hsplit, ?_, length_patch (by omega), ?_⟩
  · simp only [afSplitCall]
    rw [if_neg hnot, hsplit]
  · intro k hk
    have hin : k * n.toNat + n.toNat ≤ blob.length := by
      have hmul := Nat.mul_le_mul_right n.toNat (Nat.succ_le_of_lt hk)
      rw [Nat.succ_mul] at hmul
      omega
    have hwithin : slice (patch out 0 blob) (0 + k * n.toNat) n.toNat =
        slice blob (k * n.toNat) n.toNat := slice_patch_within (Nat.zero_le _) hin
    rwa [Nat.zero_add] at hwithin

/-- A change confined to stripe `j` of `s` stripes. -/
structure ChangedIn (n s : Nat) (stripes changed : Bytes) (j : Nat) : Prop where
  length_eq : changed.length = stripes.length
  lt : j < s
  ne : afStripe changed n j ≠ afStripe stripes n j
  rest : ∀ k < s, k ≠ j → afStripe changed n k = afStripe stripes n k

/-- **Splitting and merging**: what is refused writes nothing, a merge gives back what was split,
one stripe is the material, and a changed stripe shows. -/
theorem afSplit_sound (P : Primitives) (n s : Int) :
    (∀ material rng stripes,
      AfRefused n s ∨ material = none ∨ stripes = none ∨ s > 1 ∧ rng = none →
        afSplitCall P material n s rng stripes = (-1, stripes)) ∧
    (AfRefused n s → ∀ stripes out, afMergeCall P stripes n s out = out) ∧
    (¬AfRefused n s → ∀ (material : Bytes) (rng : Option RandStream) (out : Bytes),
      (s > 1 → rng ≠ none) → material.length = n.toNat → s.toNat * n.toNat ≤ out.length →
      ∃ stripes, afSplitCall P (some material) n s rng (some out) = (0, some stripes) ∧
        stripes.length = out.length ∧
        (∀ dst, afMergeCall P stripes n s dst = patch dst 0 material) ∧
        (s = 1 → afStripe stripes n.toNat 0 = material) ∧
        ∀ changed j, ChangedIn n.toNat s.toNat stripes changed j →
          afMerge P changed n s ≠ material ∨ j + 1 < s.toNat ∧ AfCollision P n.toNat) := by
  refine ⟨fun material rng stripes h => afSplitCall_refused P h, ?_, ?_⟩
  · intro href stripes out
    rw [afMergeCall, if_pos href]
  · intro href material rng out hrng hm hout
    rcases afSplitCall_written P href hrng hm hout with ⟨blob, hsplit, hcall, hlen, hsame⟩
    have hmerge : afMerge P (patch out 0 blob) n s = material := by
      rw [afMerge_congr P hsame]
      exact afMerge_afSplit hm hsplit
    refine ⟨patch out 0 blob, hcall, hlen, ?_, ?_, ?_⟩
    · intro dst
      rw [afMergeCall, if_neg href, hmerge]
    · intro hs
      have hzero := hmerge
      rw [afMerge_eq P _ href, hs] at hzero
      have hstripe : (afStripe (patch out 0 blob) n.toNat 0).length = n.toNat := by
        apply length_afStripe (s := s.toNat) (by omega)
        omega
      have hchain : afChainTo P n.toNat (afStripe (patch out 0 blob) n.toNat) 0 =
          List.replicate n.toNat 0 := rfl
      rw [show (1 : Int).toNat - 1 = 0 from rfl, hchain] at hzero
      have hpad := xorBytes_replicate_zero (afStripe (patch out 0 blob) n.toNat 0)
      rw [hstripe] at hpad
      exact hpad.symm.trans hzero
    · intro changed j hch
      by_cases hback : afMerge P changed n s = material
      · right
        exact afMerge_changed href (by omega) (by rw [hch.length_eq]; omega) hch.lt hch.ne hch.rest
          (hback.trans hmerge.symm)
      · exact Or.inl hback

end VeraCrypt
