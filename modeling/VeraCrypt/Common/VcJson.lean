import Mathlib.Data.List.GetD
import VeraCrypt.Crypto.Primitives
import VeraCrypt.Lib.FlatJson

/-!
# The JSON writer (`Common/VcJson.c`)

An object is written into a buffer of the caller's, one byte after another, with a terminator
behind the last. `err` is set by the first byte that finds no room, and nothing is written from
then on. The memory from the buffer on is a function, so that bytes beyond the capacity have a
place too. `n` is an `int` that counts the fields: at the largest `int` the next field has no
behaviour in C, and the writer no next state.

What all calls write is the text of `FlatJson.render` cut at the capacity (`Holds`), so the object
in the buffer is the one of the calls, as long as there are fewer than `2^31` of them
(`writes_iff`).
-/

set_option autoImplicit false

namespace VeraCrypt
namespace VcJson

open Lib
open Lib.FlatJson

/-- The largest `int`. -/
def INT_MAX : Nat := 2 ^ 31 - 1

/-- What a `const char *` points to, up to its terminator. -/
structure CString where
  bytes : Bytes
  noNul : 0 ∉ bytes

/-- A `long` of 64 bits. A shorter one has fewer values. -/
structure Long where
  val : Int
  lower : -2 ^ 63 ≤ val
  upper : val < 2 ^ 63

structure VcJson where
  /-- The memory from `buf` on. -/
  buf : Nat → UInt8
  cap : Nat
  len : Nat
  err : Bool
  n : Nat
  opened : Bool

/-! ## The writer -/

/-- `put` -/
def put (j : VcJson) (c : UInt8) : VcJson :=
  if j.err then j
  else if j.len + 1 ≥ j.cap then { j with err := true }
  else
    { j with
      buf := Function.update (Function.update j.buf j.len c) (j.len + 1) 0
      len := j.len + 1 }

/-- `put_raw` -/
def putRaw (j : VcJson) (s : Bytes) : VcJson := s.foldl put j

/-- The table `hex` of `put_escaped`. -/
def hex : Bytes :=
  [0x30, 0x31, 0x32, 0x33, 0x34, 0x35, 0x36, 0x37, 0x38, 0x39, 0x61, 0x62, 0x63, 0x64, 0x65, 0x66]

/-- A byte in the loop of `put_escaped`. -/
def putEscapedByte (j : VcJson) (c : UInt8) : VcJson :=
  if c = quote then put (put j backslash) quote
  else if c = backslash then put (put j backslash) backslash
  else if c = 0x08 then put (put j backslash) 0x62
  else if c = 0x0c then put (put j backslash) 0x66
  else if c = 0x0a then put (put j backslash) 0x6e
  else if c = 0x0d then put (put j backslash) 0x72
  else if c = 0x09 then put (put j backslash) 0x74
  else if c < 0x20 then
    let j := put (put (put (put j backslash) letterU) 0x30) 0x30
    put (put j (hex.getD ((c >>> 4) &&& 0xf).toNat 0)) (hex.getD (c &&& 0xf).toNat 0)
  else put j c

/-- `put_escaped` -/
def putEscaped (j : VcJson) (s : CString) : VcJson := s.bytes.foldl putEscapedByte j

/-- `comma`: none where `n` leaves the `int`. -/
def comma (j : VcJson) : Option VcJson :=
  if j.n = INT_MAX then none
  else
    let old := j.n
    let j := { j with n := j.n + 1 }
    some (if old ≠ 0 then put j FlatJson.comma else j)

/-- `VcJsonInit` -/
def VcJsonInit (buf : Nat → UInt8) (cap : Nat) : VcJson :=
  put
    { buf := if cap ≠ 0 then Function.update buf 0 0 else buf
      cap := cap
      len := 0
      err := cap = 0
      n := 0
      opened := true } openBrace

/-- The key of a field, with its colon. -/
def putKey (j : VcJson) (key : CString) : VcJson :=
  put (put (putEscaped (put j quote) key) quote) colon

/-- `VcJsonStr` -/
def VcJsonStr (j : VcJson) (key : CString) (value : Option CString) : Option VcJson :=
  if j.opened then do
    let j ← comma j
    let j := putKey j key
    let value := value.getD ⟨[], by simp⟩
    some (put (putEscaped (put j quote) value) quote)
  else some j

/-- The loop of `VcJsonInt` over `num`, with `room` places left. -/
def numDigits : Nat → UInt64 → Bytes
  | 0, _ => []
  | room + 1, v =>
    let num : UInt8 := 0x30 + (v % 10).toUInt8
    if v / 10 ≠ 0 then num :: numDigits room (v / 10) else [num]

/-- `VcJsonInt` -/
def VcJsonInt (j : VcJson) (key : CString) (value : Long) : Option VcJson :=
  if j.opened then do
    let j ← comma j
    let j := putKey j key
    let neg := value.val < 0
    let v : UInt64 :=
      if neg then UInt64.ofInt (-(value.val + 1)) + 1 else UInt64.ofInt value.val
    let num := numDigits 32 v
    let j := if neg then put j minus else j
    some (num.reverse.foldl put j)
  else some j

/-- `VcJsonBool` -/
def VcJsonBool (j : VcJson) (key : CString) (value : Int) : Option VcJson :=
  if j.opened then do
    let j ← comma j
    let j := putKey j key
    some (putRaw j (if value ≠ 0 then trueText else falseText))
  else some j

/-- `VcJsonFinish` -/
def VcJsonFinish (j : VcJson) : VcJson × Int :=
  if j.opened then
    let j := { put j closeBrace with opened := false }
    (j, if j.err then -1 else 0)
  else (j, -1)

/-! ## A session -/

/-- A call between `VcJsonInit` and `VcJsonFinish`. -/
inductive Call where
  | str (key : CString) (value : Option CString)
  | int (key : CString) (value : Long)
  | bool (key : CString) (value : Int)

def write (j : VcJson) : Call → Option VcJson
  | .str key value => VcJsonStr j key value
  | .int key value => VcJsonInt j key value
  | .bool key value => VcJsonBool j key value

/-- The key and the value of a call. No string is written as an empty one. -/
def Call.member : Call → Member
  | .str key value => (key.bytes, .str ((value.map CString.bytes).getD []))
  | .int key value => (key.bytes, .int value.val)
  | .bool key value => (key.bytes, .bool (value ≠ 0))

def session (buf : Nat → UInt8) (cap : Nat) (calls : List Call) : Option VcJson :=
  calls.foldlM write (VcJsonInit buf cap)

/-- The string in a buffer. -/
def text (cap : Nat) (buf : Nat → UInt8) : Bytes := ((List.range cap).map buf).takeWhile (· ≠ 0)

/-- Nothing is written from `cap` on, and a string ends below it. -/
structure Contained (mem buf : Nat → UInt8) (cap : Nat) : Prop where
  above : ∀ i ≥ cap, buf i = mem i
  nul : ∃ i < cap, buf i = 0

/-- What is asked of a session: before and after `VcJsonFinish` the buffer is kept to, a late call
changes nothing, the object is finished exactly when it fits with its terminator, and then it is the
object of the calls. -/
def Faithful (mem : Nat → UInt8) (cap : Nat) (calls : List Call) : Prop :=
  ∃ j, session mem cap calls = some j ∧ Contained mem j.buf cap ∧
    Contained mem (VcJsonFinish j).1.buf cap ∧
    (∀ c, write (VcJsonFinish j).1 c = some (VcJsonFinish j).1) ∧
    ((VcJsonFinish j).2 = 0 ↔ (render (calls.map Call.member)).length + 1 ≤ cap) ∧
    ((VcJsonFinish j).2 = 0 →
      text cap (VcJsonFinish j).1.buf = render (calls.map Call.member) ∧
        parse (text cap (VcJsonFinish j).1.buf) = some (calls.map Call.member))

/-! ## What the calls put -/

/-- Bytes one after another. -/
def puts (j : VcJson) (s : Bytes) : VcJson := s.foldl put j

@[simp] theorem puts_nil (j : VcJson) : puts j [] = j := rfl

theorem puts_append (j : VcJson) (s t : Bytes) : puts j (s ++ t) = puts (puts j s) t := by
  simp [puts]

theorem puts_snoc (j : VcJson) (s : Bytes) (c : UInt8) : puts j (s ++ [c]) = put (puts j s) c := by
  simp [puts]

theorem hex_eq : ∀ d < 16, hex.getD d 0 = hexDigit d := by decide

theorem putEscapedByte_eq (j : VcJson) (c : UInt8) :
    putEscapedByte j c = puts j (escapeByte c) := by
  have hc := c.toNat_lt
  have hhigh : hex.getD ((c >>> 4) &&& 0xf).toNat 0 = hexDigit (c.toNat / 16) := by
    have hv : ((c >>> 4) &&& 0xf).toNat = c.toNat / 16 % 16 := by
      rw [UInt8.toNat_and, UInt8.toNat_shiftRight]
      exact (Nat.and_two_pow_sub_one_eq_mod _ 4).trans (by rw [Nat.shiftRight_eq_div_pow]; rfl)
    rw [hv, Nat.mod_eq_of_lt (by omega), hex_eq _ (by omega)]
  have hlow : hex.getD (c &&& 0xf).toNat 0 = hexDigit (c.toNat % 16) := by
    have hv : (c &&& 0xf).toNat = c.toNat % 16 := by
      rw [UInt8.toNat_and]
      exact Nat.and_two_pow_sub_one_eq_mod _ 4
    rw [hv, hex_eq _ (Nat.mod_lt _ (by decide))]
  unfold putEscapedByte escapeByte
  rw [hhigh, hlow]
  split_ifs <;> rfl

theorem putEscaped_eq (j : VcJson) (s : CString) : putEscaped j s = puts j (escape s.bytes) := by
  unfold putEscaped
  induction s.bytes generalizing j with
  | nil => rfl
  | cons c s ih =>
    rw [List.foldl_cons, ih, putEscapedByte_eq, ← puts_append]
    rfl

/-- A string between its quotes. -/
theorem putString_eq (j : VcJson) (s : CString) :
    put (putEscaped (put j quote) s) quote = puts j (renderString s.bytes) := by
  rw [putEscaped_eq, renderString, puts_snoc]
  rfl

theorem putKey_eq (j : VcJson) (key : CString) :
    putKey j key = puts j (renderString key.bytes ++ [colon]) := by
  rw [putKey, putString_eq, puts_snoc]

/-- The loop over `num`, from the last digit to the first. -/
theorem reverse_numDigits (room : Nat) (v : UInt64) (hroom : 0 < room)
    (hv : v.toNat < 10 ^ room) : (numDigits room v).reverse = decimal v.toNat := by
  induction room generalizing v with
  | zero => omega
  | succ room ih =>
    have hten : (10 : UInt64).toNat = 10 := rfl
    have hdiv : (v / 10).toNat = v.toNat / 10 := by rw [UInt64.toNat_div, hten]
    have hdigit : (0x30 + (v % 10).toUInt8 : UInt8) = decimalDigit (v.toNat % 10) := by
      have h48 : (0x30 : UInt8).toNat = 0x30 := rfl
      apply UInt8.toNat_inj.mp
      rw [toNat_decimalDigit (Nat.mod_lt _ (by decide)), UInt8.toNat_add, UInt64.toNat_toUInt8,
        UInt64.toNat_mod, hten, h48]
      omega
    have hzero : v / 10 ≠ 0 ↔ ¬v.toNat < 10 := by
      rw [Ne, ← UInt64.toNat_inj, hdiv]
      have h0 : (0 : UInt64).toNat = 0 := rfl
      rw [h0]
      omega
    rw [numDigits, decimal]
    by_cases hlast : v.toNat < 10
    · rw [if_neg (fun h => hzero.mp h hlast), if_pos hlast, hdigit,
        Nat.mod_eq_of_lt hlast]
      rfl
    · have hroom' : 0 < room := by
        rcases Nat.eq_zero_or_pos room with rfl | h
        · simp at hv
          omega
        · exact h
      rw [if_pos (hzero.mpr hlast), if_neg hlast, List.reverse_cons, hdigit,
        ih (v / 10) hroom' (by rw [hdiv]; rw [pow_succ] at hv; omega), hdiv]

/-- The number a `long` is written as, apart from its sign. -/
theorem toNat_unsigned (value : Long) :
    (if value.val < 0 then UInt64.ofInt (-(value.val + 1)) + 1
      else UInt64.ofInt value.val).toNat = value.val.natAbs := by
  have hlow := value.lower
  have hhigh := value.upper
  have h1 : (1 : UInt64).toNat = 1 := rfl
  split_ifs with hneg
  · rw [UInt64.toNat_add, h1, UInt64.ofInt, UInt64.toNat_ofNat']
    omega
  · rw [UInt64.ofInt, UInt64.toNat_ofNat']
    omega

/-! ## A call -/

theorem put_count (j : VcJson) (k : Nat) (c : UInt8) :
    put { j with n := k } c = { put j c with n := k } := by
  unfold put
  split_ifs <;> rfl

/-- The bytes do not depend on the count of fields. -/
theorem puts_count (j : VcJson) (k : Nat) (s : Bytes) :
    puts { j with n := k } s = { puts j s with n := k } := by
  induction s generalizing j with
  | nil => rfl
  | cons c s ih =>
    have hstep : puts { j with n := k } (c :: s) = puts (put { j with n := k } c) s := rfl
    rw [hstep, put_count, ih]
    rfl

@[simp] theorem put_opened (j : VcJson) (c : UInt8) : (put j c).opened = j.opened := by
  unfold put
  split_ifs <;> rfl

@[simp] theorem puts_opened (j : VcJson) (s : Bytes) : (puts j s).opened = j.opened := by
  induction s generalizing j with
  | nil => rfl
  | cons c s ih => exact (ih (put j c)).trans (put_opened j c)

theorem comma_eq {j : VcJson} (h : j.n ≠ INT_MAX) :
    comma j =
      some (puts { j with n := j.n + 1 } (if j.n = 0 then [] else [FlatJson.comma])) := by
  unfold comma
  rw [if_neg h]
  by_cases hzero : j.n = 0
  · simp [hzero]
  · simp only [hzero, if_false, ne_eq, not_false_eq_true, if_true]
    rfl

/-- A call puts its member, after a comma unless it is the first. -/
theorem write_eq {j : VcJson} (hopen : j.opened = true) (hn : j.n ≠ INT_MAX) (c : Call) :
    write j c =
      some (puts { j with n := j.n + 1 }
        ((if j.n = 0 then [] else [FlatJson.comma]) ++ renderMember c.member)) := by
  cases c with
  | str key value =>
    have hvalue : (value.getD ⟨[], by simp⟩).bytes = (value.map CString.bytes).getD [] := by
      cases value <;> rfl
    show VcJsonStr j key value = _
    unfold VcJsonStr
    rw [if_pos hopen, comma_eq hn]
    simp only [Option.bind_eq_bind, Option.bind_some, putKey_eq, putString_eq, hvalue,
      ← puts_append]
    simp [renderMember, Call.member, renderValue]
  | int key value =>
    show VcJsonInt j key value = _
    unfold VcJsonInt
    rw [if_pos hopen, comma_eq hn]
    have hv := toNat_unsigned value
    simp only [Option.bind_eq_bind, Option.bind_some, putKey_eq]
    generalize (if value.val < 0 then UInt64.ofInt (-(value.val + 1)) + 1
      else UInt64.ofInt value.val) = v at hv ⊢
    have hdigits : (numDigits 32 v).reverse = decimal value.val.natAbs := by
      rw [← hv]
      exact reverse_numDigits 32 v (by decide) (v.toNat_lt.trans (by decide))
    rw [hdigits]
    by_cases hneg : value.val < 0
    · simp [hneg, renderMember, Call.member, renderValue, renderInt, puts]
    · simp [hneg, renderMember, Call.member, renderValue, renderInt, puts]
  | bool key value =>
    show VcJsonBool j key value = _
    unfold VcJsonBool
    rw [if_pos hopen, comma_eq hn]
    simp only [Option.bind_eq_bind, Option.bind_some, putKey_eq]
    by_cases hzero : value = 0
    · simp [hzero, renderMember, Call.member, renderValue, puts, putRaw]
    · simp [hzero, renderMember, Call.member, renderValue, puts, putRaw]

theorem write_none {j : VcJson} (hopen : j.opened = true) (hn : j.n = INT_MAX) (c : Call) :
    write j c = none := by
  have hcomma : comma j = none := by rw [comma, if_pos hn]
  cases c <;> simp [write, VcJsonStr, VcJsonInt, VcJsonBool, hopen, hcomma]

/-! ## A session -/

/-- The state after some calls. -/
def afterCalls (buf : Nat → UInt8) (cap : Nat) (calls : List Call) (k : Nat) : VcJson :=
  { puts (VcJsonInit buf cap) (renderMembers (calls.map Call.member)) with n := k }

theorem opened_session (buf : Nat → UInt8) (cap : Nat) (calls : List Call) (k : Nat) :
    (afterCalls buf cap calls k).opened = true := by
  show (puts (VcJsonInit buf cap) (renderMembers (calls.map Call.member))).opened = true
  rw [puts_opened, VcJsonInit, put_opened]

theorem session_eq (buf : Nat → UInt8) (cap : Nat) (calls : List Call)
    (h : calls.length ≤ INT_MAX) :
    session buf cap calls = some (afterCalls buf cap calls calls.length) := by
  induction calls using List.reverseRecOn with
  | nil =>
    have hn : (VcJsonInit buf cap).n = 0 := by
      unfold VcJsonInit put
      split_ifs <;> rfl
    refine congrArg some ?_
    show VcJsonInit buf cap = { VcJsonInit buf cap with n := 0 }
    rw [← hn]
  | append_singleton calls c ih =>
    rw [List.length_append, List.length_singleton] at h
    have hstep : session buf cap (calls ++ [c]) = (session buf cap calls).bind (write · c) := by
      simp [session, List.foldlM_append]
    have hcall := write_eq (opened_session buf cap calls calls.length)
      (show calls.length ≠ INT_MAX by omega) c
    rw [hstep, ih (by omega), Option.bind_some, hcall]
    have hempty : (if (afterCalls buf cap calls calls.length).n = 0 then ([] : Bytes)
        else [FlatJson.comma]) =
        if calls.map Call.member = [] then [] else [FlatJson.comma] := by
      show (if calls.length = 0 then _ else _) = _
      simp
    have hall : puts (VcJsonInit buf cap) (renderMembers ((calls ++ [c]).map Call.member)) =
        puts (puts (VcJsonInit buf cap) (renderMembers (calls.map Call.member)))
          ((if calls.map Call.member = [] then [] else [FlatJson.comma]) ++
            renderMember c.member) := by
      rw [List.map_append, List.map_singleton, renderMembers_append, List.append_assoc, puts_append]
    rw [hempty]
    show some (puts (afterCalls buf cap calls (calls.length + 1)) _) = _
    rw [afterCalls, puts_count, ← hall, List.length_append, List.length_singleton]
    rfl

/-- One field beyond the `int`. -/
theorem session_none (buf : Nat → UInt8) (cap : Nat) (calls : List Call)
    (h : INT_MAX < calls.length) : session buf cap calls = none := by
  have hlen : (calls.take INT_MAX).length = INT_MAX := by
    rw [List.length_take]
    omega
  obtain ⟨c, rest, hrest⟩ : ∃ c rest, calls.drop INT_MAX = c :: rest := by
    cases hd : calls.drop INT_MAX with
    | nil =>
      have hle := List.drop_eq_nil_iff.mp hd
      omega
    | cons c rest => exact ⟨c, rest, rfl⟩
  have hsplit : calls = calls.take INT_MAX ++ (c :: rest) := by
    rw [← hrest, List.take_append_drop]
  have hfirst := session_eq buf cap (calls.take INT_MAX) hlen.le
  have hcall := write_none (opened_session buf cap (calls.take INT_MAX) (calls.take INT_MAX).length)
    hlen c
  rw [session] at hfirst ⊢
  rw [hsplit, List.foldlM_append, hfirst]
  simp only [Option.bind_eq_bind, Option.bind_some, List.foldlM_cons]
  rw [hcall]
  rfl

/-! ## The buffer -/

/-- The buffer of a writer that has been given the bytes `s`: all of them, if there is room for them
and the terminator. -/
structure Holds (mem : Nat → UInt8) (cap : Nat) (s : Bytes) (j : VcJson) : Prop where
  cap_eq : j.cap = cap
  above : ∀ i ≥ cap, j.buf i = mem i
  len_lt : j.len < cap
  nul : j.buf j.len = 0
  err_iff : j.err = true ↔ cap ≤ s.length
  len_eq : j.err = false → j.len = s.length
  bytes : j.err = false → ∀ i < s.length, j.buf i = s.getD i 0

theorem Holds.contained {mem : Nat → UInt8} {cap : Nat} {s : Bytes} {j : VcJson}
    (h : Holds mem cap s j) : Contained mem j.buf cap :=
  ⟨h.above, j.len, h.len_lt, h.nul⟩

/-- One byte more. -/
theorem holds_put {mem : Nat → UInt8} {cap : Nat} {s : Bytes} {j : VcJson} (h : Holds mem cap s j)
    (c : UInt8) : Holds mem cap (s ++ [c]) (put j c) := by
  have hlen : (s ++ [c]).length = s.length + 1 := by simp
  unfold put
  by_cases herr : j.err = true
  · -- no room before, no room now
    have hcap := h.err_iff.mp herr
    rw [if_pos herr]
    exact
      { h with
        err_iff := by simp [herr]; omega
        len_eq := by simp [herr]
        bytes := by simp [herr] }
  · have herr' : j.err = false := by simpa using herr
    have hs := h.len_eq herr'
    have hfit : ¬cap ≤ s.length := mt h.err_iff.mpr herr
    have hcap := h.cap_eq
    rw [if_neg herr]
    by_cases hroom : j.len + 1 ≥ j.cap
    · rw [if_pos hroom]
      exact
        { h with
          err_iff := by simp; omega
          len_eq := by simp
          bytes := by simp }
    · rw [if_neg hroom]
      constructor
      · exact h.cap_eq
      · intro i hi
        have hi1 : i ≠ j.len + 1 := by omega
        have hi2 : i ≠ j.len := by omega
        simp [hi1, hi2, h.above i hi]
      · show j.len + 1 < cap
        omega
      · simp
      · simp [herr']
        omega
      · intro _
        show j.len + 1 = _
        rw [hlen, hs]
      · intro _ i hi
        rw [hlen] at hi
        have hi1 : i ≠ j.len + 1 := by omega
        by_cases hlast : i = s.length
        · subst hlast
          simp [hs]
        · have hi2 : i ≠ j.len := by omega
          have hlt : i < s.length := by omega
          have hb := h.bytes herr' i hlt
          simp only [Function.update_of_ne hi1, Function.update_of_ne hi2, hb]
          rw [List.getD_append _ _ _ _ hlt]

theorem holds_puts {mem : Nat → UInt8} {cap : Nat} {s : Bytes} {j : VcJson} (h : Holds mem cap s j)
    (t : Bytes) : Holds mem cap (s ++ t) (puts j t) := by
  induction t using List.reverseRecOn with
  | nil => simpa using h
  | append_singleton t c ih =>
    rw [puts_snoc, ← List.append_assoc]
    exact holds_put ih c

theorem holds_init (mem : Nat → UInt8) {cap : Nat} (hcap : 0 < cap) :
    Holds mem cap [openBrace] (VcJsonInit mem cap) := by
  have hne : cap ≠ 0 := by omega
  refine holds_put (s := []) ?_ openBrace
  exact
    { cap_eq := rfl
      above := by
        intro i hi
        have hi0 : i ≠ 0 := by omega
        simp [hne, hi0]
      len_lt := hcap
      nul := by simp [hne]
      err_iff := by simp
      len_eq := by simp
      bytes := by simp }

/-- The string in a buffer that has been given bytes without a terminator among them. -/
theorem Holds.text_eq {mem : Nat → UInt8} {cap : Nat} {s : Bytes} {j : VcJson}
    (h : Holds mem cap s j) (herr : j.err = false) (hs : (0 : UInt8) ∉ s) : text cap j.buf = s := by
  have hlt := h.len_lt
  have hlen := h.len_eq herr
  have hbytes := h.bytes herr
  have hnul := h.nul
  obtain ⟨k, hk⟩ : ∃ k, cap = s.length + (k + 1) := ⟨cap - s.length - 1, by omega⟩
  have hfront : (List.range s.length).map j.buf = s := by
    apply List.ext_getElem (by simp)
    intro i hi hi'
    rw [List.getElem_map, List.getElem_range, hbytes i hi', List.getD_eq_getElem _ _ hi']
  have hpos : ∀ c ∈ s, decide (c ≠ 0) = true := by
    intro c hc
    simp only [ne_eq, decide_eq_true_eq]
    rintro rfl
    exact hs hc
  unfold text
  rw [hk, List.range_add, List.map_append, hfront, List.takeWhile_append_of_pos hpos,
    List.range_succ_eq_map]
  rw [hlen] at hnul
  simp [hnul]

/-! ## No byte of an object is a terminator -/

theorem zero_notMem_escapeByte (c : UInt8) : (0 : UInt8) ∉ escapeByte c := by
  have hdigit : ∀ d < 16, 0 ≠ hexDigit d := by decide
  have hc := c.toNat_lt
  have hhigh := hdigit (c.toNat / 16) (by omega)
  have hlow := hdigit (c.toNat % 16) (by omega)
  have hlit : (0 : UInt8) ≠ backslash ∧ (0 : UInt8) ≠ quote ∧ (0 : UInt8) ≠ letterU := by decide
  obtain ⟨hb, hq, hu⟩ := hlit
  unfold escapeByte
  split_ifs with h1 h2 h3 h4 h5 h6 h7 h8 <;> simp [hb, hq, hu, hhigh, hlow]
  rintro rfl
  exact h8 (by decide)

theorem zero_notMem_renderString (s : Bytes) : (0 : UInt8) ∉ renderString s := by
  have hq : (0 : UInt8) ≠ quote := by decide
  simp [renderString, escape, hq, zero_notMem_escapeByte]

theorem zero_notMem_decimal (n : Nat) : (0 : UInt8) ∉ decimal n :=
  fun h => absurd (isDigit_of_mem_decimal n 0 h) (by decide)

theorem zero_notMem_renderMember (m : Member) : (0 : UInt8) ∉ renderMember m := by
  have hcolon : (0 : UInt8) ≠ colon := by decide
  have hminus : (0 : UInt8) ≠ minus := by decide
  have htrue : (0 : UInt8) ∉ trueText := by decide
  have hfalse : (0 : UInt8) ∉ falseText := by decide
  obtain ⟨key, v⟩ := m
  have hvalue : (0 : UInt8) ∉ renderValue v := by
    cases v with
    | str s => exact zero_notMem_renderString s
    | int i =>
      show (0 : UInt8) ∉ renderInt i
      unfold renderInt
      split_ifs
      · simp [hminus, zero_notMem_decimal]
      · exact zero_notMem_decimal _
    | bool b =>
      cases b with
      | true => exact htrue
      | false => exact hfalse
  simp [renderMember, zero_notMem_renderString, hcolon, hvalue]

theorem zero_notMem_render (ms : List Member) : (0 : UInt8) ∉ render ms := by
  have hopen : (0 : UInt8) ≠ openBrace := by decide
  have hclose : (0 : UInt8) ≠ closeBrace := by decide
  have hcomma : (0 : UInt8) ≠ FlatJson.comma := by decide
  cases ms with
  | nil => simp [render, renderMembers, hopen, hclose]
  | cons m ms =>
    simp [render, renderMembers, hopen, hclose, hcomma, zero_notMem_renderMember]

/-! ## The object of the calls -/

/-- The buffer after the calls, and after the closing brace. -/
theorem holds_session (mem : Nat → UInt8) {cap : Nat} (hcap : 0 < cap) (calls : List Call)
    (k : Nat) :
    Holds mem cap (openBrace :: renderMembers (calls.map Call.member))
        (afterCalls mem cap calls k) ∧
      Holds mem cap (render (calls.map Call.member))
        (VcJsonFinish (afterCalls mem cap calls k)).1 := by
  have hcalls := holds_puts (holds_init mem hcap) (renderMembers (calls.map Call.member))
  have hafter : Holds mem cap (openBrace :: renderMembers (calls.map Call.member))
      (afterCalls mem cap calls k) := { hcalls with }
  have hput := holds_put hafter closeBrace
  refine ⟨hafter, ?_⟩
  unfold VcJsonFinish
  rw [if_pos (opened_session mem cap calls k)]
  exact { hput with }

theorem finish_result (mem : Nat → UInt8) (cap : Nat) (calls : List Call) (k : Nat) :
    (VcJsonFinish (afterCalls mem cap calls k)).2 = 0 ↔
      (VcJsonFinish (afterCalls mem cap calls k)).1.err = false := by
  unfold VcJsonFinish
  rw [if_pos (opened_session mem cap calls k)]
  dsimp only
  cases (put (afterCalls mem cap calls k) closeBrace).err <;> simp

theorem write_finish (mem : Nat → UInt8) (cap : Nat) (calls : List Call) (k : Nat) (c : Call) :
    write (VcJsonFinish (afterCalls mem cap calls k)).1 c =
      some (VcJsonFinish (afterCalls mem cap calls k)).1 := by
  have hclosed : (VcJsonFinish (afterCalls mem cap calls k)).1.opened = false := by
    unfold VcJsonFinish
    rw [if_pos (opened_session mem cap calls k)]
  cases c <;> simp [write, VcJsonStr, VcJsonInt, VcJsonBool, hclosed]

theorem faithful_of_lt (mem : Nat → UInt8) {cap : Nat} (hcap : 0 < cap) {calls : List Call}
    (h : calls.length < 2 ^ 31) : Faithful mem cap calls := by
  have hle : calls.length ≤ INT_MAX := Nat.le_sub_one_of_lt h
  obtain ⟨hcalls, hdone⟩ := holds_session mem hcap calls calls.length
  have hresult := finish_result mem cap calls calls.length
  refine ⟨_, session_eq mem cap calls hle, hcalls.contained, hdone.contained,
    write_finish mem cap calls calls.length, ?_, ?_⟩
  · have herr := hdone.err_iff
    rw [hresult, ← Bool.not_eq_true, herr]
    omega
  · intro hzero
    have htext := hdone.text_eq (hresult.mp hzero) (zero_notMem_render _)
    exact ⟨htext, by rw [htext, parse_render]⟩

theorem not_faithful_of_le (mem : Nat → UInt8) (cap : Nat) {calls : List Call}
    (h : 2 ^ 31 ≤ calls.length) : ¬Faithful mem cap calls := by
  rintro ⟨j, hj, -⟩
  rw [session_none mem cap calls (Nat.sub_one_lt_of_le (by decide) h)] at hj
  cases hj

/-- The writer is faithful up to the largest `int`, and has no behaviour beyond it. -/
theorem writes_iff (mem : Nat → UInt8) {cap : Nat} (hcap : 0 < cap) (calls : List Call) :
    Faithful mem cap calls ↔ calls.length < 2 ^ 31 := by
  constructor
  · intro h
    by_contra hle
    exact not_faithful_of_le mem cap (Nat.le_of_not_lt hle) h
  · exact faithful_of_lt mem hcap

/-- One field in sixteen bytes. -/
theorem writes_iff_one :
    Faithful (fun _ => 0xff) 16 [.bool ⟨[0x61], by decide⟩ 1] ↔
      [Call.bool ⟨[0x61], by decide⟩ 1].length < 2 ^ 31 :=
  writes_iff (fun _ => 0xff) (by decide) _

/-- `2^31` fields, of which only the first few are in the buffer: the count leaves the `int`. -/
theorem count_leaves_int :
    ¬Faithful (fun _ => 0xff) 16 (List.replicate (2 ^ 31) (.bool ⟨[0x61], by decide⟩ 1)) :=
  not_faithful_of_le _ _ (by rw [List.length_replicate])

end VcJson
end VeraCrypt
