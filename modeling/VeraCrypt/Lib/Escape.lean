import Mathlib.Data.List.Basic

/-!
# Escaping by entities

Some characters are replaced by a word that begins with a mark, and the mark is one of them. The
words are prefix free behind the mark, so a reader that looks for the first word that fits gets the
text back (`decode_encode`). As the words hold none of the characters behind the mark, the escaped
text holds none of them either, apart from the marks of its words.
-/

set_option autoImplicit false

namespace VeraCrypt
namespace Lib

/-- The characters with what follows the mark in their words. -/
structure Escape (α : Type*) where
  mark : α
  table : List (α × List α)
  marked : mark ∈ table.map Prod.fst
  plain : ∀ e ∈ table, ∀ x ∈ e.2, x ∉ table.map Prod.fst
  prefixFree : ∀ e ∈ table, ∀ e' ∈ table, e.2 <+: e'.2 → e = e'

namespace Escape

variable {α : Type*} [DecidableEq α] (esc : Escape α)

def encodeChar (c : α) : List α :=
  match esc.table.find? (fun e => e.1 = c) with
  | some e => esc.mark :: e.2
  | none => [c]

def encode (s : List α) : List α := s.flatMap esc.encodeChar

/-- The word at the front of a text. -/
def word (text : List α) : Option (α × List α) :=
  esc.table.find? fun e => (esc.mark :: e.2).isPrefixOf text

/-- The first character of an escaped text, and the text behind it. -/
def read : List α → Option (α × List α)
  | [] => none
  | c :: text =>
    match esc.word (c :: text) with
    | some e => some (e.1, text.drop e.2.length)
    | none => some (c, text)

theorem read_length {text rest : List α} {c : α} (h : esc.read text = some (c, rest)) :
    rest.length < text.length := by
  cases text with
  | nil => cases h
  | cons a text =>
    rw [read] at h
    cases hw : esc.word (a :: text) with
    | some e =>
      rw [hw] at h
      cases h
      rw [List.length_drop, List.length_cons]
      omega
    | none =>
      rw [hw] at h
      cases h
      simp

def decode (text : List α) : List α :=
  match _h : esc.read text with
  | some (c, rest) => c :: decode rest
  | none => []
termination_by text.length
decreasing_by exact esc.read_length _h

theorem decode_nil : esc.decode [] = [] := by
  unfold decode
  rfl

theorem decode_of_read {text rest : List α} {c : α} (h : esc.read text = some (c, rest)) :
    esc.decode text = c :: esc.decode rest := by
  rw [decode]
  split
  · next heq =>
    rw [h] at heq
    cases heq
    rfl
  · next heq =>
    rw [h] at heq
    cases heq

@[simp] theorem encode_nil : esc.encode [] = [] := rfl

@[simp] theorem encode_cons (c : α) (s : List α) :
    esc.encode (c :: s) = esc.encodeChar c ++ esc.encode s := by
  simp [encode]

variable {esc}

/-- The word of a character is the only one at the front of a text that begins with it. -/
theorem word_eq {e : α × List α} (he : e ∈ esc.table) (rest : List α) :
    esc.word (esc.mark :: (e.2 ++ rest)) = some e := by
  have hfits : (esc.mark :: e.2).isPrefixOf (esc.mark :: (e.2 ++ rest)) = true := by
    rw [List.isPrefixOf_iff_prefix, List.cons_prefix_cons]
    exact ⟨rfl, List.prefix_append _ _⟩
  unfold word
  cases hf : esc.table.find? fun e' => (esc.mark :: e'.2).isPrefixOf (esc.mark :: (e.2 ++ rest)) with
  | none => exact absurd hfits (List.find?_eq_none.mp hf e he)
  | some e' =>
    have hmem := List.mem_of_find?_eq_some hf
    have hp := List.find?_some hf
    rw [List.isPrefixOf_iff_prefix, List.cons_prefix_cons] at hp
    rcases List.prefix_or_prefix_of_prefix hp.2 (List.prefix_append e.2 rest) with h | h
    · rw [esc.prefixFree e' hmem e he h]
    · rw [← esc.prefixFree e he e' hmem h]

/-- No word begins with another character than the mark. -/
theorem word_eq_none {c : α} (hc : c ≠ esc.mark) (rest : List α) :
    esc.word (c :: rest) = none := by
  refine List.find?_eq_none.mpr ?_
  intro e _ hp
  rw [List.isPrefixOf_iff_prefix, List.cons_prefix_cons] at hp
  exact hc hp.1.symm

theorem find_char {c : α} {e : α × List α} (h : esc.table.find? (fun e => e.1 = c) = some e) :
    e ∈ esc.table ∧ e.1 = c :=
  ⟨List.mem_of_find?_eq_some h, by simpa using List.find?_some h⟩

/-- A character without a word is none of those that have one. -/
theorem find_char_none {c : α} (h : esc.table.find? (fun e => e.1 = c) = none) :
    c ∉ esc.table.map Prod.fst := by
  intro hc
  obtain ⟨e, he, rfl⟩ := List.mem_map.mp hc
  simpa using List.find?_eq_none.mp h e he

variable (esc) in
theorem read_encodeChar (c : α) (rest : List α) :
    esc.read (esc.encodeChar c ++ rest) = some (c, rest) := by
  unfold encodeChar
  cases h : esc.table.find? (fun e => e.1 = c) with
  | some e =>
    obtain ⟨he, rfl⟩ := find_char h
    have hw := word_eq he rest
    simp [read, hw]
  | none =>
    have hc : c ≠ esc.mark := fun hc => find_char_none h (hc ▸ esc.marked)
    have hw := word_eq_none hc rest
    simp [read, hw]

variable (esc) in
theorem decode_encode (s : List α) : esc.decode (esc.encode s) = s := by
  induction s with
  | nil => exact esc.decode_nil
  | cons c s ih => rw [encode_cons, esc.decode_of_read (esc.read_encodeChar c _), ih]

/-- A character that has a word stands in an escaped text only as the mark. -/
theorem eq_mark_of_mem_encode {s : List α} {x : α} (hx : x ∈ esc.encode s)
    (ht : x ∈ esc.table.map Prod.fst) : x = esc.mark := by
  obtain ⟨c, _, hc⟩ := List.mem_flatMap.mp hx
  unfold encodeChar at hc
  split at hc
  · next e h =>
    rcases List.mem_cons.mp hc with hmark | hbody
    · exact hmark
    · exact absurd ht (esc.plain e (find_char h).1 x hbody)
  · next h =>
    rw [List.mem_singleton.mp hc] at ht
    exact absurd ht (find_char_none h)

/-- Other characters stand in it only if they stand in the text or in a word. -/
theorem not_mem_encode {s : List α} {x : α} (hs : x ∉ s) (hmark : x ≠ esc.mark)
    (hwords : ∀ e ∈ esc.table, x ∉ e.2) : x ∉ esc.encode s := by
  intro hx
  obtain ⟨c, hcs, hc⟩ := List.mem_flatMap.mp hx
  unfold encodeChar at hc
  split at hc
  · next e h =>
    rcases List.mem_cons.mp hc with h' | h'
    · exact hmark h'
    · exact hwords e (find_char h).1 h'
  · exact hs (List.mem_singleton.mp hc ▸ hcs)

/-- Every mark begins a word. -/
theorem word_of_mark {s a b : List α} (h : esc.encode s = a ++ esc.mark :: b) :
    ∃ e ∈ esc.table, e.2 <+: b := by
  induction s generalizing a with
  | nil => simp at h
  | cons c s ih =>
    rw [encode_cons] at h
    rcases List.append_eq_append_iff.mp h with ⟨a', -, hrest⟩ | ⟨m, hm, hrest⟩
    · exact ih hrest
    · cases m with
      | nil => exact ih (a := []) hrest.symm
      | cons x m =>
        obtain ⟨rfl, rfl⟩ := List.cons.inj hrest
        unfold encodeChar at hm
        split at hm
        · next e hf =>
          obtain ⟨he, -⟩ := find_char hf
          cases a with
          | nil =>
            refine ⟨e, he, ?_⟩
            rw [(List.cons.inj hm).2]
            exact List.prefix_append _ _
          | cons y a =>
            -- behind the mark there is no other
            have hmem : esc.mark ∈ e.2 := by
              rw [(List.cons.inj hm).2]
              simp
            exact absurd esc.marked (esc.plain e he _ hmem)
        · next hf =>
          have hc : c = esc.mark := by
            cases a with
            | nil => exact (List.cons.inj hm).1
            | cons y a => simp at hm
          exact absurd (hc ▸ esc.marked) (find_char_none hf)

end Escape
end Lib
end VeraCrypt
