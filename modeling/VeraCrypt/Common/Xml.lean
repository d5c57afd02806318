import VeraCrypt.Common.VcJson
import VeraCrypt.Lib.Escape
import VeraCrypt.Lib.TextMemory

/-!
# Texts in XML (`Common/Xml.c`)

`XmlQuoteText` writes a text with three characters replaced by entities into a buffer of the
caller's, and `XmlGetNodeText` reads the text of an element back into another. Both are given the
size of their buffer as an `int`. The buffers are memories on both sides of their first byte, so
that a write outside has a place too.

The entities are an `Escape`, what is quoted is its `encode` (`quoteText_quoted`), and what is read
of an element is its `decode`, as long as there is room (`getNodeText_eq`).
-/

set_option autoImplicit false

namespace VeraCrypt
namespace Xml

open Lib Lib.TextMemory
open VcJson (CString)

abbrev Memory := Int → UInt8

/-- The largest `int`. -/
def INT_MAX : Int := 2 ^ 31 - 1

def amp : UInt8 := 0x26
def lt : UInt8 := 0x3c
def gt : UInt8 := 0x3e

/-- `amp;` -/
def ampName : Bytes := [0x61, 0x6d, 0x70, 0x3b]

/-- `lt;` -/
def ltName : Bytes := [0x6c, 0x74, 0x3b]

/-- `gt;` -/
def gtName : Bytes := [0x67, 0x74, 0x3b]

/-! ## The functions -/

/-- `BeginsWith`. No caller passes an empty `subString`. -/
def BeginsWith (mem : Memory) : Int → Bytes → Bool
  | _, [] => false
  | string, c :: subString =>
    if mem string = c then
      if subString = [] then true
      else if mem (string + 1) = 0 then false
      else BeginsWith mem (string + 1) subString
    else false

/-- A `char *` to a terminated string, in the memory around it. -/
structure Str where
  mem : Memory
  len : Nat
  terminator : mem len = 0
  inside : ∀ i : Int, 0 ≤ i → i < len → mem i ≠ 0

/-- `strchr` from a place in the string, for another character than the terminator. -/
def strchr (s : Str) (p : Int) (c : UInt8) : Option Int := find s.mem c p (s.len - p).toNat

/-- A number as an `int`. -/
def asInt (x : Int) : Int := x.bmod (2 ^ 32)

/-- The character for the text at `&t[i]`, and by how much `i` grows. -/
def nextChar (mem : Memory) (p : Int) : UInt8 × Int :=
  if BeginsWith mem p (amp :: ltName) then (lt, 4)
  else if BeginsWith mem p (amp :: gtName) then (gt, 4)
  else if BeginsWith mem p (amp :: ampName) then (amp, 5)
  else (mem p, 1)

/-- The loop of `XmlGetNodeText`. -/
def copyNodeText (mem : Memory) (t l xmlTextSize i j : Int) (xmlText : Memory) :
    Option Int × Memory :=
  if i < l then
    if j ≥ xmlTextSize - 1 then (none, Function.update xmlText 0 0)
    else
      copyNodeText mem t l xmlTextSize (asInt (i + (nextChar mem (t + i)).2)) (j + 1)
        (Function.update xmlText j (nextChar mem (t + i)).1)
  else (some t, Function.update xmlText j 0)
termination_by (xmlTextSize - 1 - j).toNat
decreasing_by omega

/-- `XmlGetNodeText` -/
def XmlGetNodeText (xmlNode : Str) (xmlText : Memory) (xmlTextSize : Int) :
    Option Int × Memory :=
  if xmlTextSize ≤ 0 then (none, xmlText)
  else
    let xmlText := Function.update xmlText 0 0
    if xmlNode.mem 0 ≠ lt then (none, xmlText)
    else
      match strchr xmlNode 0 gt with
      | none => (none, xmlText)
      | some t =>
        match strchr xmlNode 1 lt with
        | none => (none, xmlText)
        | some e =>
          let t := t + 1
          let l := asInt (e - t)
          if l < 0 then (none, xmlText)
          else copyNodeText xmlNode.mem t l xmlTextSize 0 0 xmlText

/-- `StringCchCopyA`: what there is room for, and the terminator. -/
def StringCchCopyA (mem : Memory) (dst cchDest : Int) (src : Bytes) : Memory :=
  if cchDest ≤ 0 then mem else store mem dst (src.take (cchDest - 1).toNat ++ [0])

/-- The end of `XmlQuoteText`. -/
def quoteEnd (textDstLast textDst : Int) (mem : Memory) : Option Int × Memory :=
  if textDst > textDstLast then (none, mem)
  else (some textDst, Function.update mem textDst 0)

/-- The loop of `XmlQuoteText`, and what follows it. -/
def quoteLoop (textDstLast : Int) : Bytes → Int → Int → Memory → Option Int × Memory
  | [], textDst, _, mem => quoteEnd textDstLast textDst mem
  | c :: textSrc, textDst, textDstMaxSize, mem =>
    if textDst ≤ textDstLast then
      if c = amp then
        if textDst + 6 > textDstLast then (none, mem)
        else
          quoteLoop textDstLast textSrc (textDst + 5) (textDstMaxSize - 5)
            (StringCchCopyA mem textDst textDstMaxSize (amp :: ampName))
      else if c = gt then
        if textDst + 5 > textDstLast then (none, mem)
        else
          quoteLoop textDstLast textSrc (textDst + 4) (textDstMaxSize - 4)
            (StringCchCopyA mem textDst textDstMaxSize (amp :: gtName))
      else if c = lt then
        if textDst + 5 > textDstLast then (none, mem)
        else
          quoteLoop textDstLast textSrc (textDst + 4) (textDstMaxSize - 4)
            (StringCchCopyA mem textDst textDstMaxSize (amp :: ltName))
      else
        quoteLoop textDstLast textSrc (textDst + 1) (textDstMaxSize - 1)
          (Function.update mem textDst c)
    else quoteEnd textDstLast textDst mem

/-- `XmlQuoteText`, with the place of `textDst` in its memory at zero. -/
def XmlQuoteText (textSrc : CString) (textDst : Memory) (textDstMaxSize : Int) :
    Option Int × Memory :=
  if textDstMaxSize = 0 then (none, textDst)
  else quoteLoop (textDstMaxSize - 1) textSrc.bytes 0 textDstMaxSize textDst

/-! ## What is asked of them -/

/-- The three entities. -/
def entities : Escape UInt8 where
  mark := amp
  table := [(lt, ltName), (gt, gtName), (amp, ampName)]
  marked := by decide
  plain := by simp [lt, gt, amp, ltName, gtName, ampName]
  prefixFree := by simp [lt, gt, amp, ltName, gtName, ampName]

/-- A terminated text at the start of a buffer. -/
def Holds (mem : Memory) (s : Bytes) : Prop := 0 ∉ s ∧ Reads mem 0 (s ++ [0])

/-- Nothing is written outside of a buffer of `n` bytes. -/
def KeptOutside (n : Int) (old new : Memory) : Prop := ∀ x, x < 0 ∨ n ≤ x → new x = old x

/-- A text with no markup in it, and with every `&` at the start of an entity. -/
structure Clean (q : Bytes) : Prop where
  noLt : lt ∉ q
  noGt : gt ∉ q
  amps : ∀ a b, q = a ++ amp :: b → ltName <+: b ∨ gtName <+: b ∨ ampName <+: b

/-- An element with a text in it: a tag, the text, and what begins with the end tag. -/
structure IsElement (xml : Str) (tag q rest : Bytes) : Prop where
  reads : Reads xml.mem 0 (lt :: (tag ++ gt :: (q ++ lt :: rest)))
  length : xml.len = (lt :: (tag ++ gt :: (q ++ lt :: rest))).length
  noLt : lt ∉ tag
  noGt : gt ∉ tag

/-- `XmlQuoteText` fails, or leaves a clean text that stays in the buffer and is read back. -/
def QuoteMeets (textSrc : CString) (textDst : Memory) (n : Int) : Prop :=
  let result := XmlQuoteText textSrc textDst n
  KeptOutside n textDst result.2 ∧
    ∀ last, result.1 = some last → ∃ q : Bytes, last = q.length ∧ last < n ∧
      Holds result.2 q ∧ Clean q ∧
      ∀ (xml : Str) (tag rest : Bytes), IsElement xml tag q rest →
        ∀ (xmlText : Memory) (size : Int), textSrc.bytes.length < size → size ≤ INT_MAX →
          (XmlGetNodeText xml xmlText size).1 = some ((tag.length : Int) + 2) ∧
            Holds (XmlGetNodeText xml xmlText size).2 textSrc.bytes

/-- `XmlGetNodeText` keeps to its buffer, and leaves an empty text there when it fails. -/
def GetMeets (xml : Str) (xmlText : Memory) (size : Int) : Prop :=
  let result := XmlGetNodeText xml xmlText size
  KeptOutside size xmlText result.2 ∧ (result.1 = none → 0 < size → Holds result.2 [])

/-! ## Quoting -/

/-- What `quoteLoop` leaves: the rest of the text quoted from `dst` on, if it does not fail. -/
structure Quoted (last dst : Int) (src : Bytes) (mem : Memory) (result : Option Int × Memory) :
    Prop where
  outside : ∀ x, x < dst ∨ last < x → result.2 x = mem x
  text : ∀ e, result.1 = some e → e = dst + (entities.encode src).length ∧ e ≤ last ∧
    Reads result.2 dst (entities.encode src ++ [0])

section

variable {last dst : Int} {src : Bytes} {mem mem' : Memory} {result : Option Int × Memory}

theorem Quoted.none (src : Bytes) (mem : Memory) : Quoted last dst src mem (none, mem) :=
  ⟨fun _ _ => rfl, fun _ h => by cases h⟩

theorem quoteEnd_quoted (last dst : Int) (mem : Memory) :
    Quoted last dst [] mem (quoteEnd last dst mem) := by
  unfold quoteEnd
  split_ifs with h
  · exact Quoted.none [] mem
  · constructor
    · intro x hx
      exact Function.update_of_ne (by omega) _ _
    · intro e he
      cases he
      exact ⟨by simp, by omega, by simp⟩

/-- A character whose word stands at `dst`, and the rest behind it. -/
theorem Quoted.step {c : UInt8} {w : Bytes} (hw : entities.encodeChar c = w)
    (hout : ∀ x, x < dst ∨ last < x → mem' x = mem x) (hr : Reads mem' dst w)
    (h : Quoted last (dst + w.length) src mem' result) : Quoted last dst (c :: src) mem result := by
  constructor
  · intro x hx
    rw [h.outside x (by omega), hout x hx]
  · intro e he
    obtain ⟨hend, hlast, hrest⟩ := h.text e he
    rw [Escape.encode_cons, hw, List.length_append]
    refine ⟨by omega, hlast, ?_⟩
    rw [List.append_assoc, reads_append]
    refine ⟨reads_congr ?_ hr, hrest⟩
    intro x _ hx
    exact h.outside x (.inl hx)

/-- An entity that has room is copied with its terminator. -/
theorem copy_entity {room : Int} {w : Bytes} (h : w.length + 1 ≤ room) (mem : Memory) (dst : Int) :
    StringCchCopyA mem dst room w = store mem dst (w ++ [0]) := by
  have htake : w.take (room - 1).toNat = w := List.take_of_length_le (by omega)
  rw [StringCchCopyA, if_neg (by omega), htake]

theorem reads_entity (mem : Memory) (dst : Int) (w : Bytes) :
    Reads (store mem dst (w ++ [0])) dst w :=
  ((reads_append _ _ _ _).mp (reads_store mem dst (w ++ [0]))).1

theorem encodeChar_plain {c : UInt8} (hamp : c ≠ amp) (hgt : c ≠ gt) (hlt : c ≠ lt) :
    entities.encodeChar c = [c] := by
  simp [Escape.encodeChar, entities, hamp.symm, hgt.symm, hlt.symm]

theorem quoteLoop_quoted (last : Int) (src : Bytes) {dst room : Int} (hroom : room = last + 1 - dst)
    (mem : Memory) : Quoted last dst src mem (quoteLoop last src dst room mem) := by
  induction src generalizing dst room mem with
  | nil => exact quoteEnd_quoted last dst mem
  | cons c src ih =>
    rw [quoteLoop]
    by_cases hin : dst ≤ last
    · rw [if_pos hin]
      -- the word has `n` bytes, and one more was asked for than it takes with its terminator
      have entity : ∀ w : Bytes, entities.encodeChar c = w → ¬dst + (w.length + 1) > last →
          Quoted last dst (c :: src) mem
            (quoteLoop last src (dst + w.length) (room - w.length)
              (StringCchCopyA mem dst room w)) := by
        intro w hw hfits
        rw [copy_entity (by omega)]
        refine Quoted.step hw ?_ (reads_entity mem dst w) (ih (by omega) _)
        intro x hx
        refine store_outside mem _ ?_
        rw [List.length_append, List.length_singleton]
        omega
      by_cases hamp : c = amp
      · rw [if_pos hamp]
        by_cases hfull : dst + 6 > last
        · rw [if_pos hfull]
          exact Quoted.none _ mem
        · rw [if_neg hfull]
          exact entity (amp :: ampName) (by rw [hamp]; rfl) hfull
      · rw [if_neg hamp]
        by_cases hgt : c = gt
        · rw [if_pos hgt]
          by_cases hfull : dst + 5 > last
          · rw [if_pos hfull]
            exact Quoted.none _ mem
          · rw [if_neg hfull]
            exact entity (amp :: gtName) (by rw [hgt]; rfl) hfull
        · rw [if_neg hgt]
          by_cases hlt : c = lt
          · rw [if_pos hlt]
            by_cases hfull : dst + 5 > last
            · rw [if_pos hfull]
              exact Quoted.none _ mem
            · rw [if_neg hfull]
              exact entity (amp :: ltName) (by rw [hlt]; rfl) hfull
          · rw [if_neg hlt]
            have hrest : Quoted last (dst + 1) src (Function.update mem dst c)
                (quoteLoop last src (dst + 1) (room - 1) (Function.update mem dst c)) :=
              ih (by omega) _
            refine Quoted.step (encodeChar_plain hamp hgt hlt) ?_ ?_ hrest
            · intro x hx
              exact Function.update_of_ne (by omega) _ _
            · exact ⟨Function.update_self _ _ _, trivial⟩
    · rw [if_neg hin]
      have hend : quoteEnd last dst mem = (none, mem) := by rw [quoteEnd, if_pos (by omega)]
      rw [hend]
      exact Quoted.none _ mem

end

theorem quoteText_quoted (textSrc : CString) (mem : Memory) {n : Int} (hn : n ≠ 0) :
    Quoted (n - 1) 0 textSrc.bytes mem (XmlQuoteText textSrc mem n) := by
  rw [XmlQuoteText, if_neg hn]
  exact quoteLoop_quoted (n - 1) textSrc.bytes (by omega) mem

/-- A text is quoted when one byte is left behind its terminator. -/
theorem quoteLoop_some {last : Int} {src : Bytes} {dst : Int} (room : Int) (mem : Memory)
    (h : dst + (entities.encode src).length < last) :
    (quoteLoop last src dst room mem).1 = some (dst + (entities.encode src).length) := by
  induction src generalizing dst room mem with
  | nil =>
    have hdst : ¬dst > last := by
      simp at h
      omega
    rw [quoteLoop, quoteEnd, if_neg hdst]
    simp
  | cons c src ih =>
    rw [Escape.encode_cons, List.length_append, Nat.cast_add, ← Int.add_assoc] at h ⊢
    have next : ∀ (w : Bytes) (room : Int) (mem : Memory), entities.encodeChar c = w →
        (quoteLoop last src (dst + w.length) room mem).1 =
          some (dst + (entities.encodeChar c).length + (entities.encode src).length) := by
      intro w room mem hw
      rw [hw] at h ⊢
      exact ih room mem h
    rw [quoteLoop, if_pos (by omega)]
    by_cases hamp : c = amp
    · have hw : entities.encodeChar c = amp :: ampName := by rw [hamp]; rfl
      rw [hw] at h
      simp only [ampName, List.length_cons, List.length_nil] at h
      rw [if_pos hamp, if_neg (by omega)]
      exact next (amp :: ampName) _ _ hw
    · rw [if_neg hamp]
      by_cases hgt : c = gt
      · have hw : entities.encodeChar c = amp :: gtName := by rw [hgt]; rfl
        rw [hw] at h
        simp only [gtName, List.length_cons, List.length_nil] at h
        rw [if_pos hgt, if_neg (by omega)]
        exact next (amp :: gtName) _ _ hw
      · rw [if_neg hgt]
        by_cases hlt : c = lt
        · have hw : entities.encodeChar c = amp :: ltName := by rw [hlt]; rfl
          rw [hw] at h
          simp only [ltName, List.length_cons, List.length_nil] at h
          rw [if_pos hlt, if_neg (by omega)]
          exact next (amp :: ltName) _ _ hw
        · rw [if_neg hlt]
          exact next [c] _ _ (encodeChar_plain hamp hgt hlt)

theorem quoteText_some (textSrc : CString) (mem : Memory) {n : Int}
    (h : (entities.encode textSrc.bytes).length + 1 < n) :
    (XmlQuoteText textSrc mem n).1 = some ((entities.encode textSrc.bytes).length : Int) := by
  rw [XmlQuoteText, if_neg (by omega), quoteLoop_some _ _ (by omega), Int.zero_add]

theorem encode_clean (s : Bytes) : Clean (entities.encode s) := by
  constructor
  · intro h
    exact absurd (Escape.eq_mark_of_mem_encode h (by decide)) (by decide)
  · intro h
    exact absurd (Escape.eq_mark_of_mem_encode h (by decide)) (by decide)
  · intro a b h
    obtain ⟨e, he, hb⟩ := Escape.word_of_mark h
    simp only [entities, List.mem_cons, List.not_mem_nil, or_false] at he
    rcases he with rfl | rfl | rfl
    · exact .inl hb
    · exact .inr (.inl hb)
    · exact .inr (.inr hb)

theorem encode_noNul {s : Bytes} (h : 0 ∉ s) : 0 ∉ entities.encode s :=
  Escape.not_mem_encode h (by decide) (by decide)

/-! ## Reading back -/

/-- `BeginsWith` in a text, up to a character that is not in `subString`. -/
theorem beginsWith_eq {mem : Memory} {p : Int} {text sub : Bytes} {stop : UInt8}
    (hr : Reads mem p (text ++ [stop])) (hsub : sub ≠ []) (hzero : 0 ∉ sub) (hstop : stop ∉ sub) :
    BeginsWith mem p sub = sub.isPrefixOf text := by
  induction sub generalizing p text with
  | nil => exact absurd rfl hsub
  | cons c sub ih =>
    rw [BeginsWith]
    cases text with
    | nil =>
      have hne : mem p ≠ c := by
        rw [hr.1]
        exact fun h => hstop (h ▸ List.mem_cons_self)
      simp [hne]
    | cons d text =>
      rw [hr.1]
      by_cases hd : d = c
      · subst hd
        rw [if_pos rfl]
        cases sub with
        | nil => simp
        | cons c' sub =>
          have hih := ih (p := p + 1) hr.2 (by simp) (fun h => hzero (List.mem_cons_of_mem _ h))
            (fun h => hstop (List.mem_cons_of_mem _ h))
          have hc' : c' ≠ 0 := by
            rintro rfl
            simp at hzero
          rw [if_neg (by simp), hih]
          split_ifs with hnul
          · -- the text ends behind its first character
            cases text with
            | nil => simp
            | cons d' text =>
              have hd' : d' = 0 := hr.2.1.symm.trans hnul
              subst hd'
              simp [List.isPrefixOf, hc']
          · simp [List.isPrefixOf]
      · simp [List.isPrefixOf, hd, Ne.symm hd]

/-- The entities in the order in which the loop looks for them. -/
theorem word_eq (text : Bytes) :
    entities.word text =
      if (amp :: ltName).isPrefixOf text then some (lt, ltName)
      else if (amp :: gtName).isPrefixOf text then some (gt, gtName)
      else if (amp :: ampName).isPrefixOf text then some (amp, ampName)
      else none := by
  simp only [Escape.word, entities, List.find?_cons, List.find?_nil]
  cases (amp :: ltName).isPrefixOf text with
  | true => rfl
  | false =>
    cases (amp :: gtName).isPrefixOf text with
    | true => rfl
    | false => cases (amp :: ampName).isPrefixOf text <;> rfl

/-- What is read behind a word. -/
theorem reads_behind {mem : Memory} {p : Int} {text w : Bytes}
    (hr : Reads mem p (text ++ [lt])) (h : w.isPrefixOf text = true) :
    Reads mem (p + w.length) (text.drop w.length ++ [lt]) := by
  obtain ⟨rest, rfl⟩ := List.isPrefixOf_iff_prefix.mp h
  rw [List.append_assoc, reads_append] at hr
  rw [List.drop_left]
  exact hr.2

/-- A step of the loop reads one character of the text. -/
theorem nextChar_eq {mem : Memory} {p : Int} {text rest : Bytes} {c : UInt8}
    (hr : Reads mem p (text ++ [lt])) (h : entities.read text = some (c, rest)) :
    (nextChar mem p).1 = c ∧ (nextChar mem p).2 = text.length - rest.length ∧
      Reads mem (p + (nextChar mem p).2) (rest ++ [lt]) := by
  cases text with
  | nil => cases h
  | cons d text =>
    have hlt : BeginsWith mem p (amp :: ltName) = (amp :: ltName).isPrefixOf (d :: text) :=
      beginsWith_eq hr (by decide) (by decide) (by decide)
    have hgt : BeginsWith mem p (amp :: gtName) = (amp :: gtName).isPrefixOf (d :: text) :=
      beginsWith_eq hr (by decide) (by decide) (by decide)
    have hamp : BeginsWith mem p (amp :: ampName) = (amp :: ampName).isPrefixOf (d :: text) :=
      beginsWith_eq hr (by decide) (by decide) (by decide)
    have found : ∀ name : Bytes, (amp :: name).isPrefixOf (d :: text) = true →
        ((name.length + 1 : Nat) : Int) = (d :: text).length - (text.drop name.length).length ∧
          Reads mem (p + (name.length + 1 : Nat)) (text.drop name.length ++ [lt]) := by
      intro name hname
      have hlen := (List.isPrefixOf_iff_prefix.mp hname).length_le
      simp only [List.length_cons] at hlen
      refine ⟨?_, reads_behind hr hname⟩
      rw [List.length_cons, List.length_drop]
      omega
    rw [Escape.read, word_eq] at h
    rw [nextChar, hlt, hgt, hamp]
    by_cases h1 : (amp :: ltName).isPrefixOf (d :: text) = true
    · rw [if_pos h1] at h ⊢
      cases h
      exact ⟨rfl, found ltName h1⟩
    · rw [if_neg h1] at h ⊢
      by_cases h2 : (amp :: gtName).isPrefixOf (d :: text) = true
      · rw [if_pos h2] at h ⊢
        cases h
        exact ⟨rfl, found gtName h2⟩
      · rw [if_neg h2] at h ⊢
        by_cases h3 : (amp :: ampName).isPrefixOf (d :: text) = true
        · rw [if_pos h3] at h ⊢
          cases h
          exact ⟨rfl, found ampName h3⟩
        · rw [if_neg h3] at h ⊢
          cases h
          refine ⟨hr.1, ?_, hr.2⟩
          simp

theorem asInt_eq {x : Int} (h0 : 0 ≤ x) (h : x ≤ INT_MAX) : asInt x = x := by
  have hmax : INT_MAX = 2147483647 := rfl
  rw [asInt, Int.bmod_eq_of_le] <;> omega

/-- The loop from `&t[i]` on, where a text of `l - i` bytes stands before the end of the element. -/
theorem copyNodeText_eq {mem : Memory} {t l i : Int} (size j : Int) {text : Bytes}
    (hr : Reads mem (t + i) (text ++ [lt])) (hl : l = i + text.length) (hi : 0 ≤ i)
    (hmax : l ≤ INT_MAX) (xmlText : Memory) :
    (j + (entities.decode text).length < size →
        copyNodeText mem t l size i j xmlText =
          (some t, store xmlText j (entities.decode text ++ [0]))) ∧
      (size ≤ j + (entities.decode text).length → j < size →
        (copyNodeText mem t l size i j xmlText).1 = none) := by
  cases h : entities.read text with
  | none =>
    have htext : text = [] := by
      cases text with
      | nil => rfl
      | cons d text =>
        rw [Escape.read] at h
        split at h <;> cases h
    subst htext
    rw [copyNodeText, if_neg (by simpa using Int.le_of_eq hl), Escape.decode_nil]
    refine ⟨fun _ => rfl, fun hfull hj => ?_⟩
    simp at hfull
    omega
  | some found =>
    obtain ⟨c, rest⟩ := found
    have hshort := entities.read_length h
    obtain ⟨hc, hadv, hrest⟩ := nextChar_eq hr h
    rw [entities.decode_of_read h, List.length_cons, copyNodeText, if_pos (by omega)]
    have hnext : asInt (i + (nextChar mem (t + i)).2) = i + (nextChar mem (t + i)).2 :=
      asInt_eq (by omega) (by omega)
    rw [hnext, hc]
    obtain ⟨hfits, hfull⟩ := copyNodeText_eq size (j + 1)
      (by rw [Int.add_assoc] at hrest; exact hrest) (by rw [hl]; omega) (by omega) hmax
      (Function.update xmlText j c)
    constructor
    · intro hroom
      rw [if_neg (by omega), hfits (by omega)]
      rfl
    · intro hno hj
      by_cases hlast : j ≥ size - 1
      · rw [if_pos hlast]
      · rw [if_neg hlast]
        exact hfull (by omega) (by omega)
termination_by text.length

/-- The loop keeps to its buffer whatever it reads, and empties the text when it has no room. -/
theorem copyNodeText_outside (mem : Memory) (t l size i : Int) {j : Int} (h0 : 0 ≤ j)
    (hj : j < size) (xmlText : Memory) :
    KeptOutside size xmlText (copyNodeText mem t l size i j xmlText).2 ∧
      ((copyNodeText mem t l size i j xmlText).1 = none →
        (copyNodeText mem t l size i j xmlText).2 0 = 0) := by
  rw [copyNodeText]
  by_cases hil : i < l
  · rw [if_pos hil]
    by_cases hfull : j ≥ size - 1
    · rw [if_pos hfull]
      refine ⟨?_, fun _ => Function.update_self 0 0 xmlText⟩
      intro x hx
      exact Function.update_of_ne (by omega) _ _
    · rw [if_neg hfull]
      obtain ⟨hout, hnul⟩ := copyNodeText_outside mem t l size
        (asInt (i + (nextChar mem (t + i)).2)) (show 0 ≤ j + 1 by omega) (by omega)
        (Function.update xmlText j (nextChar mem (t + i)).1)
      refine ⟨?_, hnul⟩
      intro x hx
      rw [hout x hx]
      exact Function.update_of_ne (by omega) _ _
  · rw [if_neg hil]
    refine ⟨?_, fun h => by cases h⟩
    intro x hx
    exact Function.update_of_ne (by omega) _ _
termination_by (size - 1 - j).toNat

theorem holds_nil {mem : Memory} (h : mem 0 = 0) : Holds mem [] := ⟨by simp, h, trivial⟩

theorem getNodeText_meets (xml : Str) (xmlText : Memory) (size : Int) :
    GetMeets xml xmlText size := by
  unfold GetMeets XmlGetNodeText
  by_cases hsize : size ≤ 0
  · rw [if_pos hsize]
    exact ⟨fun _ _ => rfl, fun _ h => absurd h (by omega)⟩
  · rw [if_neg hsize]
    have hempty : Holds (Function.update xmlText 0 0) [] :=
      holds_nil (Function.update_self _ _ _)
    have hfirst : KeptOutside size xmlText (Function.update xmlText 0 0) := by
      intro x hx
      exact Function.update_of_ne (by omega) _ _
    -- every failure before the loop
    have early : KeptOutside size xmlText (Function.update xmlText 0 0) ∧
        ((none : Option Int) = none → 0 < size → Holds (Function.update xmlText 0 0) []) :=
      ⟨hfirst, fun _ _ => hempty⟩
    dsimp only
    split
    · exact early
    · split
      · exact early
      · split
        · exact early
        · split
          · exact early
          · next t _ _ e _ _ =>
            obtain ⟨hout, hnul⟩ := copyNodeText_outside xml.mem (t + 1) (asInt (e - (t + 1)))
              size 0 (Int.le_refl 0) (by omega) (Function.update xmlText 0 0)
            refine ⟨?_, fun h _ => holds_nil (hnul h)⟩
            intro x hx
            rw [hout x hx, hfirst x hx]

section

variable {xml : Str} {tag q rest : Bytes}

theorem IsElement.tagEnd (h : IsElement xml tag q rest) :
    strchr xml 0 gt = some ((tag.length : Int) + 1) := by
  have hr : Reads xml.mem 0 ((lt :: tag) ++ [gt]) := by
    have hsplit : lt :: (tag ++ gt :: (q ++ lt :: rest)) =
        ((lt :: tag) ++ [gt]) ++ (q ++ lt :: rest) := by simp
    exact ((reads_append _ _ _ _).mp (hsplit ▸ h.reads)).1
  have hlen := h.length
  simp only [List.length_cons, List.length_append] at hlen
  rw [strchr, find_reads hr]
  · simp
  · intro hg
    rcases List.mem_cons.mp hg with hg | hg
    · exact absurd hg (by decide)
    · exact h.noGt hg
  · rw [List.length_cons]
    omega

theorem IsElement.textEnd (h : IsElement xml tag q rest) (hq : lt ∉ q) :
    strchr xml 1 lt = some ((tag.length : Int) + 2 + q.length) := by
  have hr : Reads xml.mem 1 ((tag ++ gt :: q) ++ [lt]) := by
    have hsplit : tag ++ gt :: (q ++ lt :: rest) = ((tag ++ gt :: q) ++ [lt]) ++ rest := by simp
    exact ((reads_append _ _ _ _).mp (hsplit ▸ h.reads.2)).1
  have hlen := h.length
  simp only [List.length_cons, List.length_append] at hlen
  rw [strchr, find_reads hr]
  · simp only [List.length_append, List.length_cons]
    congr 1
    omega
  · intro hl
    rcases List.mem_append.mp hl with hl | hl
    · exact h.noLt hl
    · rcases List.mem_cons.mp hl with hl | hl
      · exact absurd hl (by decide)
      · exact hq hl
  · simp only [List.length_append, List.length_cons]
    omega

theorem IsElement.text (h : IsElement xml tag q rest) :
    Reads xml.mem (tag.length + 2) (q ++ [lt]) := by
  have hsplit : lt :: (tag ++ gt :: (q ++ lt :: rest)) =
      (lt :: tag ++ [gt]) ++ ((q ++ [lt]) ++ rest) := by simp
  have hr := ((reads_append _ _ _ _).mp (hsplit ▸ h.reads)).2
  have hp : (0 : Int) + (lt :: tag ++ [gt]).length = tag.length + 2 := by
    simp only [List.length_append, List.length_cons, List.length_nil]
    omega
  rw [hp] at hr
  exact ((reads_append _ _ _ _).mp hr).1

/-- The text of an element is handed to the loop. -/
theorem getNodeText_loop (h : IsElement xml tag q rest) (hq : lt ∉ q) (hmax : q.length ≤ INT_MAX)
    (xmlText : Memory) {size : Int} (hsize : 0 < size) :
    XmlGetNodeText xml xmlText size =
      copyNodeText xml.mem (tag.length + 2) q.length size 0 0 (Function.update xmlText 0 0) := by
  have hlen : asInt (tag.length + 2 + q.length - (tag.length + 1 + 1)) = q.length := by
    have hsub : (tag.length + 2 + q.length - (tag.length + 1 + 1) : Int) = q.length := by omega
    rw [hsub]
    exact asInt_eq (by omega) hmax
  have hp : (tag.length + 1 + 1 : Int) = tag.length + 2 := by omega
  have hfirst : xml.mem 0 = lt := h.reads.1
  rw [XmlGetNodeText, if_neg (by omega)]
  dsimp only
  rw [if_neg (not_not.mpr hfirst), h.tagEnd]
  dsimp only
  rw [h.textEnd hq]
  dsimp only
  rw [hlen, if_neg (by omega), hp]

/-- What is read of an element without markup in its text. -/
theorem getNodeText_eq (h : IsElement xml tag q rest) (hq : lt ∉ q) (hmax : q.length ≤ INT_MAX)
    (xmlText : Memory) {size : Int} (hsize : (entities.decode q).length < size) :
    XmlGetNodeText xml xmlText size =
      (some ((tag.length : Int) + 2),
        store (Function.update xmlText 0 0) 0 (entities.decode q ++ [0])) := by
  rw [getNodeText_loop h hq hmax xmlText (by omega)]
  have hr : Reads xml.mem (tag.length + 2 + 0) (q ++ [lt]) := by
    rw [Int.add_zero]
    exact h.text
  exact (copyNodeText_eq size 0 hr (by omega) (Int.le_refl 0) hmax _).1 (by omega)

/-- It is refused where it has no room. -/
theorem getNodeText_full (h : IsElement xml tag q rest) (hq : lt ∉ q) (hmax : q.length ≤ INT_MAX)
    (xmlText : Memory) {size : Int} (hsize : size ≤ (entities.decode q).length) :
    (XmlGetNodeText xml xmlText size).1 = none := by
  by_cases hpos : size ≤ 0
  · rw [XmlGetNodeText, if_pos hpos]
  · rw [getNodeText_loop h hq hmax xmlText (by omega)]
    have hr : Reads xml.mem (tag.length + 2 + 0) (q ++ [lt]) := by
      rw [Int.add_zero]
      exact h.text
    exact (copyNodeText_eq size 0 hr (by omega) (Int.le_refl 0) hmax _).2 (by omega) (by omega)

end

/-! ## There and back -/

theorem quoteText_meets (textSrc : CString) (textDst : Memory) {n : Int} (hn : 0 < n)
    (hmax : n ≤ INT_MAX) : QuoteMeets textSrc textDst n := by
  obtain ⟨hout, htext⟩ := quoteText_quoted textSrc textDst (n := n) (by omega)
  refine ⟨fun x hx => hout x (by omega), ?_⟩
  intro last hlast
  obtain ⟨hend, hle, hreads⟩ := htext last hlast
  have hclean := encode_clean textSrc.bytes
  refine ⟨entities.encode textSrc.bytes, by omega, by omega,
    ⟨encode_noNul textSrc.noNul, hreads⟩, hclean, ?_⟩
  intro xml tag rest helem xmlText size hsize _
  have hback := entities.decode_encode textSrc.bytes
  have hread := getNodeText_eq helem hclean.noLt (by omega) xmlText
    (by rw [hback]; exact hsize)
  rw [hread, hback]
  exact ⟨rfl, textSrc.noNul, reads_store _ _ _⟩

/-- What is quoted into a buffer of an `int` of bytes stays in it and is read back, and whatever is
read stays in its buffer. -/
theorem xml_text_meets :
    (∀ (textSrc : CString) (textDst : Memory) (n : Int), 0 < n → n ≤ INT_MAX →
        QuoteMeets textSrc textDst n) ∧
      ∀ (xml : Str) (xmlText : Memory) (size : Int), GetMeets xml xmlText size :=
  ⟨fun textSrc textDst _ hn hmax => quoteText_meets textSrc textDst hn hmax, getNodeText_meets⟩

/-- A one byte text that has to be quoted, into seven bytes. -/
theorem xml_text_meets_lt :
    QuoteMeets ⟨[lt], by decide⟩ (fun _ => 0) 7 ∧
      ∀ (xml : Str) (xmlText : Memory) (size : Int), GetMeets xml xmlText size :=
  ⟨xml_text_meets.1 _ _ 7 (by decide) (by decide), xml_text_meets.2⟩

end Xml
end VeraCrypt
