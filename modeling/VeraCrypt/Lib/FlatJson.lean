import Mathlib.Data.List.Basic
import Mathlib.Tactic.Ring

/-!
# Flat JSON objects

An object whose members are strings, integers and truth values, as bytes. `parse` reads the grammar
of JSON without white space, fractions, exponents, nested values and escapes beyond ASCII: all that
it takes is JSON, with bytes from 0x80 on as they are. `render` writes an object, and `parse` gives
back what was written (`parse_render`).
-/

set_option autoImplicit false

namespace VeraCrypt
namespace Lib
namespace FlatJson

inductive Value where
  | str (s : List UInt8)
  | int (i : Int)
  | bool (b : Bool)
  deriving DecidableEq

abbrev Member := List UInt8 × Value

def quote : UInt8 := 0x22
def backslash : UInt8 := 0x5c
def comma : UInt8 := 0x2c
def colon : UInt8 := 0x3a
def minus : UInt8 := 0x2d
def openBrace : UInt8 := 0x7b
def closeBrace : UInt8 := 0x7d
def letterU : UInt8 := 0x75

/-- `true` -/
def trueText : List UInt8 := [0x74, 0x72, 0x75, 0x65]

/-- `false` -/
def falseText : List UInt8 := [0x66, 0x61, 0x6c, 0x73, 0x65]

/-! ## Writing -/

/-- A hexadecimal digit in lower case. -/
def hexDigit (d : Nat) : UInt8 := UInt8.ofNat (if d < 10 then 0x30 + d else 0x61 + (d - 10))

def escapeByte (c : UInt8) : List UInt8 :=
  if c = quote then [backslash, quote]
  else if c = backslash then [backslash, backslash]
  else if c = 0x08 then [backslash, 0x62]
  else if c = 0x0c then [backslash, 0x66]
  else if c = 0x0a then [backslash, 0x6e]
  else if c = 0x0d then [backslash, 0x72]
  else if c = 0x09 then [backslash, 0x74]
  else if c < 0x20 then
    [backslash, letterU, 0x30, 0x30, hexDigit (c.toNat / 16), hexDigit (c.toNat % 16)]
  else [c]

def escape (s : List UInt8) : List UInt8 := s.flatMap escapeByte

def renderString (s : List UInt8) : List UInt8 := quote :: escape s ++ [quote]

def decimalDigit (d : Nat) : UInt8 := UInt8.ofNat (0x30 + d)

/-- The decimal digits of a number, the highest first. -/
def decimal (n : Nat) : List UInt8 :=
  if n < 10 then [decimalDigit n] else decimal (n / 10) ++ [decimalDigit (n % 10)]
  termination_by n

def renderInt (i : Int) : List UInt8 :=
  if i < 0 then minus :: decimal i.natAbs else decimal i.natAbs

def renderValue : Value → List UInt8
  | .str s => renderString s
  | .int i => renderInt i
  | .bool b => if b then trueText else falseText

def renderMember (m : Member) : List UInt8 := renderString m.1 ++ colon :: renderValue m.2

def renderMembers : List Member → List UInt8
  | [] => []
  | m :: ms => renderMember m ++ ms.flatMap (fun m => comma :: renderMember m)

def render (ms : List Member) : List UInt8 := openBrace :: renderMembers ms ++ [closeBrace]

theorem renderMembers_append (ms : List Member) (m : Member) :
    renderMembers (ms ++ [m]) =
      renderMembers ms ++ (if ms = [] then [] else [comma]) ++ renderMember m := by
  cases ms with
  | nil => simp [renderMembers]
  | cons m' ms => simp [renderMembers]

/-! ## Reading -/

def hexValue (c : UInt8) : Option Nat :=
  if 0x30 ≤ c ∧ c ≤ 0x39 then some (c.toNat - 0x30)
  else if 0x61 ≤ c ∧ c ≤ 0x66 then some (c.toNat - 0x61 + 10)
  else if 0x41 ≤ c ∧ c ≤ 0x46 then some (c.toNat - 0x41 + 10)
  else none

/-- What a letter after a backslash stands for. -/
def unescape (c : UInt8) : Option UInt8 :=
  if c = quote then some quote
  else if c = backslash then some backslash
  else if c = 0x2f then some 0x2f
  else if c = 0x62 then some 0x08
  else if c = 0x66 then some 0x0c
  else if c = 0x6e then some 0x0a
  else if c = 0x72 then some 0x0d
  else if c = 0x74 then some 0x09
  else none

/-- The byte of four hexadecimal digits, of ASCII alone. -/
def hexByte (a b c d : UInt8) : Option UInt8 := do
  let a ← hexValue a
  let b ← hexValue b
  let c ← hexValue c
  let d ← hexValue d
  let code := ((a * 16 + b) * 16 + c) * 16 + d
  if code < 0x80 then some (UInt8.ofNat code) else none

/-- The characters of a string up to its closing quote. -/
def readChars : List UInt8 → Option (List UInt8 × List UInt8)
  | [] => none
  | c :: rest =>
    if c = quote then some ([], rest)
    else if c = backslash then
      match rest with
      | [] => none
      | e :: rest =>
        if e = letterU then
          match rest with
          | h1 :: h2 :: h3 :: h4 :: rest => do
            let b ← hexByte h1 h2 h3 h4
            let (s, left) ← readChars rest
            some (b :: s, left)
          | _ => none
        else do
          let b ← unescape e
          let (s, left) ← readChars rest
          some (b :: s, left)
    else if c < 0x20 then none
    else do
      let (s, left) ← readChars rest
      some (c :: s, left)

def isDigit (c : UInt8) : Bool := 0x30 ≤ c && c ≤ 0x39

def digitsValue (ds : List UInt8) : Nat := ds.foldl (fun v c => 10 * v + (c.toNat - 0x30)) 0

/-- A number without a sign, and without a zero before it. -/
def readNat (s : List UInt8) : Option (Nat × List UInt8) :=
  let ds := s.takeWhile isDigit
  if ds = [] ∨ (ds.head? = some 0x30 ∧ ds.length ≠ 1) then none
  else some (digitsValue ds, s.dropWhile isDigit)

def readInt : List UInt8 → Option (Int × List UInt8)
  | [] => none
  | c :: rest =>
    if c = minus then (readNat rest).map (fun p => (-(p.1 : Int), p.2))
    else (readNat (c :: rest)).map (fun p => ((p.1 : Int), p.2))

/-- A fixed text at the front. -/
def readText (text s : List UInt8) : Option (List UInt8) :=
  if text <+: s then some (s.drop text.length) else none

def readValue : List UInt8 → Option (Value × List UInt8)
  | [] => none
  | c :: rest =>
    if c = quote then (readChars rest).map (fun p => (.str p.1, p.2))
    else if c = 0x74 then (readText trueText (c :: rest)).map (fun s => (.bool true, s))
    else if c = 0x66 then (readText falseText (c :: rest)).map (fun s => (.bool false, s))
    else (readInt (c :: rest)).map (fun p => (.int p.1, p.2))

def readMember (s : List UInt8) : Option (Member × List UInt8) := do
  let s ← readText [quote] s
  let (key, s) ← readChars s
  let s ← readText [colon] s
  let (value, s) ← readValue s
  some ((key, value), s)

/-- Members up to the closing brace, no more than `fuel`. -/
def readMembers : Nat → List UInt8 → Option (List Member × List UInt8)
  | 0, _ => none
  | fuel + 1, s => do
    let (m, s) ← readMember s
    match s with
    | [] => none
    | c :: s =>
      if c = closeBrace then some ([m], s)
      else if c = comma then do
        let (ms, s) ← readMembers fuel s
        some (m :: ms, s)
      else none

/-- The members of an object that the bytes are the text of, and of nothing else. -/
def parse (s : List UInt8) : Option (List Member) := do
  let body ← readText [openBrace] s
  if body = [closeBrace] then some []
  else
    match readMembers s.length body with
    | some (ms, []) => some ms
    | _ => none

/-! ## What was written is read -/

theorem hexValue_hexDigit : ∀ d < 16, hexValue (hexDigit d) = some d := by decide

theorem hexByte_control {c : UInt8} (h : c < 0x20) :
    hexByte 0x30 0x30 (hexDigit (c.toNat / 16)) (hexDigit (c.toNat % 16)) = some c := by
  have hc : c.toNat < 32 := h
  have hzero : hexValue 0x30 = some 0 := by decide
  have hcode : ((0 * 16 + 0) * 16 + c.toNat / 16) * 16 + c.toNat % 16 = c.toNat := by omega
  unfold hexByte
  rw [hzero, hexValue_hexDigit _ (by omega), hexValue_hexDigit _ (by omega)]
  simp only [Option.bind_eq_bind, Option.bind_some, hcode]
  rw [if_pos (by omega)]
  simp

/-- A backslash and a letter. -/
theorem readChars_letter {e b : UInt8} (he : e ≠ letterU) (hb : unescape e = some b)
    (rest : List UInt8) :
    readChars (backslash :: e :: rest) = (readChars rest).map (fun p => (b :: p.1, p.2)) := by
  rw [readChars.eq_def]
  dsimp only
  rw [if_neg (by decide), if_pos rfl]
  rw [if_neg he, hb]
  cases readChars rest <;> rfl

example : readChars [backslash, 0x6e, quote] = some ([0x0a], []) := by
  simp [readChars, quote, backslash, letterU, unescape]

/-- A backslash, the letter `u` and four digits. -/
theorem readChars_digits {a b c d e : UInt8} (he : hexByte a b c d = some e) (rest : List UInt8) :
    readChars (backslash :: letterU :: a :: b :: c :: d :: rest) =
      (readChars rest).map (fun p => (e :: p.1, p.2)) := by
  rw [readChars.eq_def]
  dsimp only
  rw [if_neg (by decide), if_pos rfl]
  rw [if_pos rfl, he]
  cases readChars rest <;> rfl

/-- An escaped byte is read as the byte. -/
theorem readChars_escapeByte (c : UInt8) (rest : List UInt8) :
    readChars (escapeByte c ++ rest) = (readChars rest).map (fun p => (c :: p.1, p.2)) := by
  unfold escapeByte
  split_ifs with hquote hback hb hf hn hr ht hcontrol
  · subst hquote
    exact readChars_letter (by decide) rfl rest
  · subst hback
    exact readChars_letter (by decide) rfl rest
  · subst hb
    exact readChars_letter (by decide) rfl rest
  · subst hf
    exact readChars_letter (by decide) rfl rest
  · subst hn
    exact readChars_letter (by decide) rfl rest
  · subst hr
    exact readChars_letter (by decide) rfl rest
  · subst ht
    exact readChars_letter (by decide) rfl rest
  · exact readChars_digits (hexByte_control hcontrol) rest
  · rw [List.singleton_append, readChars.eq_def]
    dsimp only
    rw [if_neg hquote, if_neg hback, if_neg hcontrol]
    cases readChars rest <;> rfl

theorem readChars_escape (s rest : List UInt8) :
    readChars (escape s ++ quote :: rest) = some (s, rest) := by
  induction s with
  | nil =>
    rw [readChars.eq_def]
    simp [escape]
  | cons c s ih =>
    rw [escape, List.flatMap_cons, List.append_assoc, readChars_escapeByte]
    rw [escape] at ih
    simp [ih]

theorem toNat_decimalDigit {d : Nat} (h : d < 10) : (decimalDigit d).toNat = 0x30 + d := by
  rw [decimalDigit, UInt8.toNat_ofNat']
  omega

theorem isDigit_decimalDigit : ∀ d < 10, isDigit (decimalDigit d) = true := by decide

theorem isDigit_of_mem_decimal (n : Nat) : ∀ c ∈ decimal n, isDigit c = true := by
  induction n using decimal.induct with
  | case1 n h =>
    intro c hc
    rw [decimal, if_pos h, List.mem_singleton] at hc
    rw [hc]
    exact isDigit_decimalDigit n h
  | case2 n h ih =>
    intro c hc
    rw [decimal, if_neg h, List.mem_append, List.mem_singleton] at hc
    rcases hc with hc | hc
    · exact ih c hc
    · rw [hc]
      exact isDigit_decimalDigit _ (Nat.mod_lt _ (by decide))

theorem decimal_ne_nil (n : Nat) : decimal n ≠ [] := by
  rw [decimal]
  split <;> simp

example : decimal 10 = [0x31, 0x30] := by simp [decimal, decimalDigit]

theorem digitsValue_append (ds : List UInt8) (c : UInt8) :
    digitsValue (ds ++ [c]) = 10 * digitsValue ds + (c.toNat - 0x30) := by
  simp [digitsValue]

theorem digitsValue_decimal (n : Nat) : digitsValue (decimal n) = n := by
  induction n using decimal.induct with
  | case1 n h =>
    rw [decimal, if_pos h]
    simp [digitsValue, toNat_decimalDigit h]
  | case2 n h ih =>
    rw [decimal, if_neg h, digitsValue_append, ih, toNat_decimalDigit (Nat.mod_lt _ (by decide))]
    omega

/-- Only zero has a zero in front. -/
theorem head_decimal (n : Nat) : (decimal n).head? = some 0x30 → n = 0 := by
  induction n using decimal.induct with
  | case1 n h =>
    rw [decimal, if_pos h]
    intro hd
    have hc : decimalDigit n = 0x30 := by simpa using hd
    have hv := toNat_decimalDigit h
    rw [hc] at hv
    have h48 : (0x30 : UInt8).toNat = 0x30 := rfl
    omega
  | case2 n h ih =>
    rw [decimal, if_neg h, List.head?_append_of_ne_nil _ (decimal_ne_nil _)]
    intro hd
    have hz := ih hd
    omega

/-- What ends a number. -/
def Ends (rest : List UInt8) : Prop := ∀ c s, rest = c :: s → isDigit c = false

theorem readNat_decimal (n : Nat) {rest : List UInt8} (h : Ends rest) :
    readNat (decimal n ++ rest) = some (n, rest) := by
  have hall := isDigit_of_mem_decimal n
  have htake : (decimal n ++ rest).takeWhile isDigit = decimal n := by
    rw [List.takeWhile_append_of_pos hall]
    cases rest with
    | nil => simp
    | cons c s => simp [h c s rfl]
  have hdrop : (decimal n ++ rest).dropWhile isDigit = rest := by
    rw [List.dropWhile_append_of_pos hall]
    cases rest with
    | nil => simp
    | cons c s => simp [h c s rfl]
  have hzero : ¬((decimal n).head? = some 0x30 ∧ (decimal n).length ≠ 1) := by
    rintro ⟨hhead, hlen⟩
    have hz := head_decimal n hhead
    subst hz
    exact hlen (by simp [decimal])
  unfold readNat
  dsimp only
  rw [htake, hdrop, if_neg (not_or.mpr ⟨decimal_ne_nil n, hzero⟩), digitsValue_decimal]

/-- The first byte of a number. -/
theorem decimal_cons (n : Nat) : ∃ c s, decimal n = c :: s ∧ isDigit c = true := by
  cases h : decimal n with
  | nil => exact absurd h (decimal_ne_nil n)
  | cons c s => exact ⟨c, s, rfl, isDigit_of_mem_decimal n c (by simp [h])⟩

theorem readInt_renderInt (i : Int) {rest : List UInt8} (h : Ends rest) :
    readInt (renderInt i ++ rest) = some (i, rest) := by
  unfold renderInt
  split_ifs with hneg
  · have habs : -(i.natAbs : Int) = i := by omega
    rw [List.cons_append, readInt, if_pos rfl, readNat_decimal _ h]
    exact congrArg (fun z => some (z, rest)) habs
  · have hread := readNat_decimal i.natAbs h
    obtain ⟨c, s, hs, hc⟩ := decimal_cons i.natAbs
    have hminus : c ≠ minus := by
      rintro rfl
      exact absurd hc (by decide)
    rw [hs, List.cons_append] at hread ⊢
    rw [readInt, if_neg hminus, hread]
    simp
    omega

theorem readText_append (text rest : List UInt8) : readText text (text ++ rest) = some rest := by
  simp [readText]

theorem readValue_renderValue (v : Value) {rest : List UInt8} (h : Ends rest) :
    readValue (renderValue v ++ rest) = some (v, rest) := by
  cases v with
  | str s =>
    have hread := readChars_escape s rest
    simp [renderValue, renderString, readValue, hread]
  | bool b =>
    cases b with
    | true => exact congrArg (Option.map _) (readText_append trueText rest)
    | false => exact congrArg (Option.map _) (readText_append falseText rest)
  | int i =>
    have hread := readInt_renderInt i h
    have hfirst : ∃ c s, renderInt i = c :: s ∧ (isDigit c = true ∨ c = minus) := by
      unfold renderInt
      split_ifs
      · exact ⟨minus, _, rfl, .inr rfl⟩
      · obtain ⟨c, s, hs, hc⟩ := decimal_cons i.natAbs
        exact ⟨c, s, hs, .inl hc⟩
    obtain ⟨c, s, hs, hc⟩ := hfirst
    have hne : c ≠ quote ∧ c ≠ 0x74 ∧ c ≠ 0x66 := by
      refine ⟨?_, ?_, ?_⟩ <;>
      · rintro rfl
        revert hc
        decide
    rw [hs, List.cons_append] at hread
    rw [renderValue, hs, List.cons_append, readValue, if_neg hne.1, if_neg hne.2.1, if_neg hne.2.2,
      hread]
    rfl

theorem readMember_renderMember (m : Member) {rest : List UInt8} (h : Ends rest) :
    readMember (renderMember m ++ rest) = some (m, rest) := by
  obtain ⟨key, v⟩ := m
  have hopen : readText [quote] (renderMember (key, v) ++ rest) =
      some (escape key ++ quote :: colon :: (renderValue v ++ rest)) := by
    simp [readText, renderMember, renderString]
  have hcolon : readText [colon] (colon :: (renderValue v ++ rest)) =
      some (renderValue v ++ rest) :=
    readText_append [colon] _
  unfold readMember
  rw [hopen]
  simp [readChars_escape, hcolon, readValue_renderValue v h]

/-- What follows a member: another one, or the end of the object. -/
theorem ends_members (ms : List Member) (rest : List UInt8) :
    Ends (ms.flatMap (fun m => comma :: renderMember m) ++ closeBrace :: rest) := by
  intro c s h
  cases ms with
  | nil =>
    have hc : closeBrace = c := by simpa using congrArg List.head? h
    rw [← hc]
    decide
  | cons m ms =>
    have hc : comma = c := by simpa using congrArg List.head? h
    rw [← hc]
    decide

theorem readMembers_renderMembers (m : Member) (ms : List Member) (rest : List UInt8) {fuel : Nat}
    (hfuel : ms.length < fuel) :
    readMembers fuel (renderMembers (m :: ms) ++ closeBrace :: rest) = some (m :: ms, rest) := by
  induction ms generalizing m fuel with
  | nil =>
    obtain ⟨fuel, rfl⟩ : ∃ f, fuel = f + 1 := ⟨fuel - 1, by simp at hfuel; omega⟩
    have hread := readMember_renderMember m (ends_members [] rest)
    simp at hread
    simp [readMembers, renderMembers, hread]
  | cons m' ms ih =>
    obtain ⟨fuel, rfl⟩ : ∃ f, fuel = f + 1 := ⟨fuel - 1, by simp at hfuel; omega⟩
    have hread := readMember_renderMember m (ends_members (m' :: ms) rest)
    have hnext := @ih m' fuel (by simp at hfuel; omega)
    have hcomma : comma ≠ closeBrace := by decide
    simp [renderMembers] at hread hnext
    simp [readMembers, renderMembers, hread, hcomma, hnext]

theorem length_renderMember_pos (m : Member) : 0 < (renderMember m).length := by
  simp [renderMember, renderString]

/-- There are no more members than bytes. -/
theorem length_le_renderMembers (ms : List Member) : ms.length ≤ (renderMembers ms).length := by
  have htail : ∀ ms : List Member,
      ms.length ≤ (ms.flatMap (fun m => comma :: renderMember m)).length := by
    intro ms
    induction ms with
    | nil => simp
    | cons m ms ih =>
      rw [List.flatMap_cons, List.length_append, List.length_cons, List.length_cons]
      omega
  cases ms with
  | nil => simp
  | cons m ms =>
    have hpos := length_renderMember_pos m
    have hlen := htail ms
    rw [renderMembers, List.length_append, List.length_cons]
    omega

/-- An object is read as it was written. -/
theorem parse_render (ms : List Member) : parse (render ms) = some ms := by
  have hopen : readText [openBrace] (render ms) = some (renderMembers ms ++ [closeBrace]) :=
    readText_append [openBrace] _
  unfold parse
  rw [hopen]
  cases ms with
  | nil => simp [renderMembers]
  | cons m ms =>
    have hne : renderMembers (m :: ms) ++ [closeBrace] ≠ [closeBrace] := by
      have hpos := length_renderMember_pos m
      intro h
      have hlen := congrArg List.length h
      simp [renderMembers] at hlen
      omega
    have hfuel : ms.length < (render (m :: ms)).length := by
      have hle := length_le_renderMembers (m :: ms)
      simp [render] at hle ⊢
      omega
    have hread := readMembers_renderMembers m ms [] hfuel
    simp [hne, hread]

end FlatJson
end Lib
end VeraCrypt
