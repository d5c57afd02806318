import VeraCrypt.Common.TLVParser
import VeraCrypt.Lib.Except
import VeraCrypt.Lib.SortedBy
import Mathlib.Data.List.Sort

/-!
# The applications of a payment card (`Common/EMVCard.cpp`)

`GetCardAID` asks a card for the applications it knows, and where it has none of them, for the
directory of its applications. A card is whatever answers it gives: the commands of a transaction
are numbered, and an exchange either gives a response or throws. The loop over the records of the
directory runs on fuel.

Two things are shown of it. The list it builds holds the applications found, in the order of their
identifiers and not of their priorities (`getCardAID_priority_iff`); and the loop over the records
ends when a card stops answering, and at no other time (`readRecords_ends_iff`).
-/

set_option autoImplicit false

namespace VeraCrypt
namespace Common

open Lib

structure CommandAPDU where
  cla : UInt8
  ins : UInt8
  p1 : UInt8
  p2 : UInt8
  data : Bytes
  ne : Nat
  deriving DecidableEq

structure ResponseAPDU where
  data : Bytes
  sw : UInt16
  deriving DecidableEq

/-- What `ApduProcessData` makes of the `n`-th command of a transaction; `none` throws. -/
abbrev Card := Nat → CommandAPDU → Option ResponseAPDU

inductive CardStop where
  | thrown | fuel
  deriving DecidableEq

/-! ## The code -/

def swNoError : UInt16 := 0x9000
def claISO7816 : UInt8 := 0x00
def insSelectFile : UInt8 := 0xA4
def insReadRecord : UInt8 := 0xB2
def shortAPDUMaxTransSize : Nat := 256

def emvFciTag : UInt16 := 0x6F
def emvDfNameTag : UInt16 := 0x84
def emvFciIssuerTag : UInt16 := 0xA5
def emvFciIssuerDiscretionaryDataTag : UInt16 := 0xBF0C
def emvDirectoryEntryTag : UInt16 := 0x61
def emvSfiTag : UInt16 := 0x88
def emvTemplateTag : UInt16 := 0x70
def emvAidTag : UInt16 := 0x4F
def emvPriorityTag : UInt16 := 0x87

/-- `1PAY.SYS.DDF01` -/
def emvPse1 : Bytes :=
  [0x31, 0x50, 0x41, 0x59, 0x2E, 0x53, 0x59, 0x53, 0x2E, 0x44, 0x44, 0x46, 0x30, 0x31]

/-- `2PAY.SYS.DDF01` -/
def emvPse2 : Bytes :=
  [0x32, 0x50, 0x41, 0x59, 0x2E, 0x53, 0x59, 0x53, 0x2E, 0x44, 0x44, 0x46, 0x30, 0x31]

def amexAid : Bytes := [0xA0, 0x00, 0x00, 0x00, 0x00, 0x25, 0x10]
def mastercardAid : Bytes := [0xA0, 0x00, 0x00, 0x00, 0x04, 0x10, 0x10]
def visaAid : Bytes := [0xA0, 0x00, 0x00, 0x00, 0x03, 0x10, 0x10]

/-- `SUPPORTED_AIDS`, in the order of the map. -/
def supportedAids : List Bytes := [amexAid, mastercardAid, visaAid]

/-- `ApduProcessData` -/
def exchange (card : Card) (n : Nat) (command : CommandAPDU) : Except CardStop ResponseAPDU :=
  match card n command with
  | some response => .ok response
  | none => .error .thrown

def selectFile (name : Bytes) : CommandAPDU :=
  { cla := claISO7816, ins := insSelectFile, p1 := 0x04, p2 := 0x00, data := name,
    ne := shortAPDUMaxTransSize }

def readRecord (rec sfi : UInt8) : CommandAPDU :=
  { cla := claISO7816, ins := insReadRecord, p1 := rec, p2 := (sfi <<< 3) ||| 4, data := [],
    ne := shortAPDUMaxTransSize }

/-- The loop over `SUPPORTED_AIDS`: the first that the card selects, and the exchanges made. -/
def selectSupported (card : Card) : List Bytes → Nat → Except CardStop (Option Bytes × Nat)
  | [], n => .ok (none, n)
  | aid :: aids, n => do
    let response ← exchange card n (selectFile aid)
    if response.sw = swNoError then .ok (some aid, n + 1) else selectSupported card aids (n + 1)

structure PseSelected where
  response : ResponseAPDU
  usingContactless : Bool
  exchanges : Nat

/-- The selection of the PSE. -/
def selectPse (card : Card) (forceContactless : Bool) (n : Nat) : Except CardStop PseSelected :=
  if forceContactless then do
    let response ← exchange card n (selectFile emvPse2)
    .ok ⟨response, true, n + 1⟩
  else do
    let response ← exchange card n (selectFile emvPse1)
    if response.sw ≠ swNoError then
      let response ← exchange card (n + 1) (selectFile emvPse2)
      .ok ⟨response, true, n + 2⟩
    else .ok ⟨response, false, n + 1⟩

/-- `TLV_Parse` of a response; the parser needs no more fuel than there are bytes. -/
def parseData (data : Bytes) : Except TlvStop TLVNode :=
  tlvParse data.length (some (fun i => data.getD i 0)) data.length

def directoryEntries (node : TLVNode) : List TLVNode :=
  node.subs.filter (fun sub => sub.tag = emvDirectoryEntryTag)

/-- What a record adds to `pseDirectoryNodes`. A `TLVException` is swallowed. -/
def recordEntries (response : ResponseAPDU) : List TLVNode :=
  if response.sw = swNoError ∧ 0 < response.data.length then
    match parseData response.data with
    | .ok templateNode =>
      if templateNode.tag = emvTemplateTag ∧ 1 ≤ templateNode.subs.length then
        directoryEntries templateNode
      else []
    | .error _ => []
  else []

/-- The loop over the records, from number `rec` on; `n` exchanges were made. -/
def readRecordsLoop (card : Card) (sfi : UInt8) :
    Nat → Nat → UInt8 → List TLVNode → Except CardStop (List TLVNode)
  | 0, _, _, _ => .error .fuel
  | fuel + 1, n, rec, pseDirectoryNodes => do
    let response ← exchange card n (readRecord rec sfi)
    let pseDirectoryNodes := pseDirectoryNodes ++ recordEntries response
    if 0 < response.data.length then
      readRecordsLoop card sfi fuel (n + 1) (rec + 1) pseDirectoryNodes
    else .ok pseDirectoryNodes

def readRecords (fuel : Nat) (card : Card) (sfi : UInt8) (n : Nat) :
    Except CardStop (List TLVNode) :=
  readRecordsLoop card sfi fuel n 1 []

/-- `fciNode`, when it has what both kinds of card need. -/
def fciNodeOf (rootNode : TLVNode) : Option TLVNode :=
  match tlvFind emvFciTag rootNode with
  | some fciNode => if 2 ≤ fciNode.subs.length then some fciNode else none
  | none => none

/-- The entries in the answer of a contactless card. -/
def contactlessEntries (fciNode : TLVNode) : List TLVNode :=
  match tlvFind emvFciIssuerTag fciNode with
  | none => []
  | some fciIssuerNode =>
    if fciIssuerNode.subs.length < 1 then []
    else
      match tlvFind emvFciIssuerDiscretionaryDataTag fciIssuerNode with
      | none => []
      | some discretionaryDataNode => directoryEntries discretionaryDataNode

/-- `sfi`: where a contact card has the records of its directory. -/
def contactSfi (fciNode : TLVNode) : Option UInt8 :=
  match tlvFind emvDfNameTag fciNode, tlvFind emvFciIssuerTag fciNode with
  | some _, some fciIssuerNode =>
    match tlvFind emvSfiTag fciIssuerNode with
    | some sfiNode => if sfiNode.value.length = 1 then sfiNode.value.head? else none
    | none => none
  | _, _ => none

/-- `pseDirectoryNodes`: the directory entries of the card. -/
def pseDirectory (fuel : Nat) (card : Card) (forceContactless : Bool) (n : Nat) :
    Except CardStop (List TLVNode) := do
  let pse ← selectPse card forceContactless n
  if pse.response.sw = swNoError ∧ 0 < pse.response.data.length then
    match parseData pse.response.data with
    | .error _ => .error .thrown
    | .ok rootNode =>
      match fciNodeOf rootNode with
      | none => .ok []
      | some fciNode =>
        if pse.usingContactless then .ok (contactlessEntries fciNode)
        else
          match contactSfi fciNode with
          | some sfi => readRecords fuel card sfi pse.exchanges
          | none => .ok []
  else .ok []

/-- What the loop over the entries pushes for one: an element of `supportedAIDsPriorities` and one
    of `supportedAIDs`. The first is a byte of `aidNode`. -/
def prioritizedAid (entry : TLVNode) : Option (UInt8 × Bytes) :=
  match tlvFind emvAidTag entry, tlvFind emvPriorityTag entry with
  | some aidNode, some aidPriorityNode =>
    if 0 < aidNode.value.length ∧ aidPriorityNode.value.length = 1 then
      some (aidNode.value.getD 0 0, aidNode.value)
    else none
  | _, _ => none

/-- `operator<` of a pair. -/
def pairLt (p q : UInt8 × Bytes) : Prop := p.1 < q.1 ∨ ¬ q.1 < p.1 ∧ p.2 < q.2

instance : DecidableRel pairLt := fun _ _ => inferInstanceAs (Decidable (_ ∨ _ ∧ _))

/-- `supportedAIDs` behind the sort. -/
def sortAids (pseDirectoryNodes : List TLVNode) : List Bytes :=
  ((pseDirectoryNodes.filterMap prioritizedAid).insertionSort (fun p q => ¬ pairLt q p)).map
    Prod.snd

/-- `m_aid` and `m_supportedAids`. -/
structure CardAid where
  aid : Bytes
  supportedAids : List Bytes
  deriving DecidableEq

/-- `GetCardAID` of a card that was not read yet, in a connected reader. What is thrown is
    swallowed; `none` is a call that does not return on this fuel. -/
def getCardAID (fuel : Nat) (card : Card) (forceContactless : Bool) : Option CardAid :=
  match selectSupported card supportedAids 0 with
  | .error .thrown => some ⟨[], []⟩
  | .error .fuel => none
  | .ok (some tokenAID, _) => some ⟨tokenAID, [tokenAID]⟩
  | .ok (none, n) =>
    match pseDirectory fuel card forceContactless n with
    | .error .thrown => some ⟨[], []⟩
    | .error .fuel => none
    | .ok pseDirectoryNodes =>
      match sortAids pseDirectoryNodes with
      | [] => some ⟨[], []⟩
      | tokenAID :: aids => some ⟨tokenAID, tokenAID :: aids⟩

/-! ## The order of the applications -/

/-- An application of the directory: its identifier, and its priority indicator, which is the value
    of the priority tag. -/
structure Application where
  aid : Bytes
  priority : UInt8
  deriving DecidableEq

/-- The application of an entry that has an identifier and a priority. -/
def application (entry : TLVNode) : Option Application :=
  match tlvFind emvAidTag entry, tlvFind emvPriorityTag entry with
  | some aidNode, some aidPriorityNode =>
    if 0 < aidNode.value.length ∧ aidPriorityNode.value.length = 1 then
      some ⟨aidNode.value, aidPriorityNode.value.getD 0 0⟩
    else none
  | _, _ => none

def applications (pseDirectoryNodes : List TLVNode) : List Application :=
  pseDirectoryNodes.filterMap application

/-- A list of identifiers shows the applications in the order of their priorities. -/
def SortedByPriority (apps : List Application) (aids : List Bytes) : Prop :=
  ∃ order : List Application, order.Perm apps ∧ order.map Application.aid = aids ∧
    order.Pairwise (fun a b => a.priority ≤ b.priority)

/-- What the code sorts an identifier by. -/
def sortKey (aid : Bytes) : UInt8 × Bytes := (aid.getD 0 0, aid)

section
variable {entry : TLVNode} {a b : Bytes}

theorem prioritizedAid_eq (entry : TLVNode) :
    prioritizedAid entry = (application entry).map (fun app => sortKey app.aid) := by
  unfold prioritizedAid application
  cases tlvFind emvAidTag entry with
  | none => rfl
  | some aidNode =>
    cases tlvFind emvPriorityTag entry with
    | none => rfl
    | some aidPriorityNode =>
      show (if 0 < aidNode.value.length ∧ aidPriorityNode.value.length = 1 then _ else _) =
        (if 0 < aidNode.value.length ∧ aidPriorityNode.value.length = 1 then _ else _ :
          Option Application).map _
      split
      · rfl
      · rfl

theorem aid_ne_nil {app : Application} (h : application entry = some app) : app.aid ≠ [] := by
  unfold application at h
  split at h
  · split at h
    · rename_i hlen
      cases h
      exact List.ne_nil_of_length_pos hlen.1
    · exact absurd h (by simp)
  · exact absurd h (by simp)

/-- The first byte is part of the identifier, so it decides nothing that the identifier does not. -/
theorem pairLt_sortKey (ha : a ≠ []) (hb : b ≠ []) : pairLt (sortKey a) (sortKey b) ↔ a < b := by
  obtain ⟨x, xs, rfl⟩ := List.exists_cons_of_ne_nil ha
  obtain ⟨y, ys, rfl⟩ := List.exists_cons_of_ne_nil hb
  show (x < y ∨ ¬ y < x ∧ x :: xs < y :: ys) ↔ x :: xs < y :: ys
  constructor
  · rintro (hlt | ⟨-, hlt⟩)
    · exact List.cons_lt_cons_iff.mpr (.inl hlt)
    · exact hlt
  · intro hlt
    rcases List.cons_lt_cons_iff.mp hlt with hxy | ⟨rfl, htail⟩
    · exact .inl hxy
    · exact .inr ⟨Std.lt_irrefl, hlt⟩

end

/-- **The list is sorted by identifier.** -/
theorem sortAids_eq (nodes : List TLVNode) :
    sortAids nodes = ((applications nodes).map Application.aid).insertionSort (· ≤ ·) := by
  have hpairs : nodes.filterMap prioritizedAid =
      ((applications nodes).map Application.aid).map sortKey := by
    rw [applications, List.map_map, List.map_filterMap]
    exact List.filterMap_congr (fun entry _ => prioritizedAid_eq entry)
  have hne : ∀ aid ∈ (applications nodes).map Application.aid, aid ≠ [] := by
    intro aid hmem
    obtain ⟨app, happ, rfl⟩ := List.mem_map.mp hmem
    obtain ⟨entry, -, hentry⟩ := List.mem_filterMap.mp happ
    exact aid_ne_nil hentry
  have hsort := List.map_insertionSort (r := (· ≤ ·)) (s := fun p q => ¬ pairLt q p) sortKey
    ((applications nodes).map Application.aid) (fun a ha b hb => by
      rw [pairLt_sortKey (hne b hb) (hne a ha)]
      exact List.not_lt.symm)
  rw [sortAids, hpairs, ← hsort, List.map_map]
  exact List.map_id _

theorem perm_sortAids (nodes : List TLVNode) :
    (sortAids nodes).Perm ((applications nodes).map Application.aid) := by
  rw [sortAids_eq]
  exact List.perm_insertionSort _ _

theorem pairwise_sortAids (nodes : List TLVNode) : (sortAids nodes).Pairwise (· ≤ ·) := by
  rw [sortAids_eq]
  exact List.pairwise_insertionSort _ _

/-- What `GetCardAID` makes of the directory. -/
theorem getCardAID_of_directory {fuel n : Nat} {card : Card} {forceContactless : Bool}
    {nodes : List TLVNode} (hknown : selectSupported card supportedAids 0 = .ok (none, n))
    (hpse : pseDirectory fuel card forceContactless n = .ok nodes) :
    getCardAID fuel card forceContactless =
      some ⟨(sortAids nodes).headD [], sortAids nodes⟩ := by
  unfold getCardAID
  rw [hknown]
  simp only [hpse]
  cases sortAids nodes with
  | nil => rfl
  | cons aid aids => rfl

/-- **When the applications come in the order of their priorities.** Of a card that knows none of
    the built-in applications, whatever directory it gives: the list holds the applications found,
    and its first is the one that is used; it is in the order of their priority indicators if and
    only if among the applications found no identifier that stands in front of another has a larger
    indicator. -/
theorem getCardAID_priority_iff {fuel n : Nat} {card : Card} {forceContactless : Bool}
    {nodes : List TLVNode} (hknown : selectSupported card supportedAids 0 = .ok (none, n))
    (hpse : pseDirectory fuel card forceContactless n = .ok nodes) :
    ∃ found, getCardAID fuel card forceContactless = some found ∧
      found.aid = found.supportedAids.headD [] ∧
      found.supportedAids.Perm ((applications nodes).map Application.aid) ∧
      (SortedByPriority (applications nodes) found.supportedAids ↔
        ∀ a ∈ applications nodes, ∀ b ∈ applications nodes,
          a.aid < b.aid → a.priority ≤ b.priority) :=
  ⟨_, getCardAID_of_directory hknown hpse, rfl, perm_sortAids nodes,
    exists_sorted_map_iff (perm_sortAids nodes) (pairwise_sortAids nodes)⟩

/-- A contactless card with two applications, the second with the higher priority. -/
def twoApplications : Card := fun n _ =>
  if n < 3 then some ⟨[], 0x6A82⟩
  else some ⟨[0x6F, 0x31, 0x84, 0x0E] ++ emvPse2 ++ [0xA5, 0x1F, 0xBF, 0x0C, 0x1C] ++
    [0x61, 0x0C, 0x4F, 0x07, 0xA0, 0x00, 0x00, 0x00, 0x04, 0x30, 0x60, 0x87, 0x01, 0x02] ++
    [0x61, 0x0C, 0x4F, 0x07, 0xA0, 0x00, 0x00, 0x01, 0x52, 0x30, 0x10, 0x87, 0x01, 0x01],
    swNoError⟩

/-- The directory of the card. -/
def twoEntries : List TLVNode := (pseDirectory 1 twoApplications true 3).toOption.getD []

theorem getCardAID_priority_iff_demo :
    ∃ found, getCardAID 1 twoApplications true = some found ∧
      found.aid = found.supportedAids.headD [] ∧
      found.supportedAids.Perm ((applications twoEntries).map Application.aid) ∧
      (SortedByPriority (applications twoEntries) found.supportedAids ↔
        ∀ a ∈ applications twoEntries, ∀ b ∈ applications twoEntries,
          a.aid < b.aid → a.priority ≤ b.priority) :=
  getCardAID_priority_iff (n := 3) rfl (eq_ok_getD (by decide +kernel))

/-- The application of priority 2 comes first, and is the one that is used. -/
theorem getCardAID_wrong_order :
    applications twoEntries =
        [⟨[0xA0, 0x00, 0x00, 0x00, 0x04, 0x30, 0x60], 2⟩,
          ⟨[0xA0, 0x00, 0x00, 0x01, 0x52, 0x30, 0x10], 1⟩] ∧
      getCardAID 1 twoApplications true =
        some ⟨[0xA0, 0x00, 0x00, 0x00, 0x04, 0x30, 0x60],
          [[0xA0, 0x00, 0x00, 0x00, 0x04, 0x30, 0x60],
            [0xA0, 0x00, 0x00, 0x01, 0x52, 0x30, 0x10]]⟩ ∧
      ¬ SortedByPriority (applications twoEntries)
        [[0xA0, 0x00, 0x00, 0x00, 0x04, 0x30, 0x60],
          [0xA0, 0x00, 0x00, 0x01, 0x52, 0x30, 0x10]] := by
  have hfound : applications twoEntries =
      [⟨[0xA0, 0x00, 0x00, 0x00, 0x04, 0x30, 0x60], 2⟩,
        ⟨[0xA0, 0x00, 0x00, 0x01, 0x52, 0x30, 0x10], 1⟩] := by decide +kernel
  refine ⟨hfound, by decide +kernel, fun h => ?_⟩
  obtain ⟨order, hperm, haids, hsorted⟩ := h
  rw [hfound] at hperm
  have hkeys : order.Pairwise (fun a b => a.aid ≤ b.aid) := by
    rw [← List.pairwise_map, haids]
    decide
  have hle := le_of_sorted_both hkeys hsorted
    (a := ⟨[0xA0, 0x00, 0x00, 0x00, 0x04, 0x30, 0x60], 2⟩)
    (b := ⟨[0xA0, 0x00, 0x00, 0x01, 0x52, 0x30, 0x10], 1⟩)
    (hperm.mem_iff.mpr (by decide)) (hperm.mem_iff.mpr (by decide)) (by decide)
  exact absurd hle (by decide)

/-! ## The end of the records -/

/-- The `k`-th answer from exchange `n` on ends the loop: it has no data, or none came. The number
    of the record wraps. -/
def EndsAt (card : Card) (sfi : UInt8) (n : Nat) (rec : UInt8) (k : Nat) : Prop :=
  ∀ response, card (n + k) (readRecord (rec + UInt8.ofNat k) sfi) = some response →
    response.data = []

theorem endsAt_succ {card : Card} {sfi : UInt8} {n : Nat} {rec : UInt8} {k : Nat} :
    EndsAt card sfi n rec (k + 1) ↔ EndsAt card sfi (n + 1) (rec + 1) k := by
  have hn : n + (k + 1) = n + 1 + k := by omega
  have hrec : rec + UInt8.ofNat (k + 1) = rec + 1 + UInt8.ofNat k := by
    rw [Nat.add_comm k 1, UInt8.ofNat_add, UInt8.add_assoc]
    rfl
  rw [EndsAt, EndsAt, hn, hrec]

/-- One round: the answer ends the loop, or the loop goes on with the next record. -/
theorem readRecordsLoop_succ (card : Card) (sfi : UInt8) (fuel n : Nat) (rec : UInt8)
    (nodes : List TLVNode) :
    (EndsAt card sfi n rec 0 ∧
      readRecordsLoop card sfi (fuel + 1) n rec nodes ≠ .error .fuel) ∨
    (¬ EndsAt card sfi n rec 0 ∧ ∃ nodes', readRecordsLoop card sfi (fuel + 1) n rec nodes =
      readRecordsLoop card sfi fuel (n + 1) (rec + 1) nodes') := by
  have hends : EndsAt card sfi n rec 0 ↔
      ∀ response, card n (readRecord rec sfi) = some response → response.data = [] := by
    rw [EndsAt, Nat.add_zero, show UInt8.ofNat 0 = 0 from rfl, UInt8.add_zero]
  rw [hends, readRecordsLoop, exchange]
  cases hanswer : card n (readRecord rec sfi) with
  | none =>
    refine .inl ⟨fun _ h => absurd h (by simp), ?_⟩
    show (.error .thrown : Except CardStop (List TLVNode)) ≠ .error .fuel
    exact fun h => absurd (Except.error.inj h) (by decide)
  | some response =>
    by_cases hdata : response.data = []
    · refine .inl ⟨fun r hr => ?_, ?_⟩
      · cases hr
        exact hdata
      · show (if 0 < response.data.length then _ else _) ≠ _
        rw [if_neg (by rw [hdata]; exact Nat.lt_irrefl 0)]
        exact fun h => absurd h (by simp)
    · refine .inr ⟨fun h => hdata (h response rfl), nodes ++ recordEntries response, ?_⟩
      show (if 0 < response.data.length then _ else _) = _
      rw [if_pos (List.length_pos_of_ne_nil hdata)]

theorem readRecordsLoop_ends_iff (card : Card) (sfi : UInt8) (fuel : Nat) :
    ∀ (n : Nat) (rec : UInt8) (nodes : List TLVNode),
      readRecordsLoop card sfi fuel n rec nodes ≠ .error .fuel ↔
        ∃ k < fuel, EndsAt card sfi n rec k := by
  induction fuel with
  | zero =>
    intro n rec nodes
    refine ⟨fun h => absurd rfl h, ?_⟩
    rintro ⟨k, hk, -⟩
    exact absurd hk (Nat.not_lt_zero k)
  | succ fuel ih =>
    intro n rec nodes
    rcases readRecordsLoop_succ card sfi fuel n rec nodes with ⟨hends, hloop⟩ | ⟨hgoes, nodes', hloop⟩
    · exact ⟨fun _ => ⟨0, Nat.succ_pos _, hends⟩, fun _ => hloop⟩
    · rw [hloop, ih]
      constructor
      · rintro ⟨k, hk, hends⟩
        exact ⟨k + 1, Nat.succ_lt_succ hk, endsAt_succ.mpr hends⟩
      · rintro ⟨k, hk, hends⟩
        cases k with
        | zero => exact absurd hends hgoes
        | succ k => exact ⟨k, Nat.lt_of_succ_lt_succ hk, endsAt_succ.mp hends⟩

/-- **When the loop over the records ends.** For every card and every bound, it ends within that
    many records if and only if one of the first so many is answered without data or not at all:
    nothing else ends it. -/
theorem readRecords_ends_iff (card : Card) (sfi : UInt8) (n bound : Nat) :
    readRecords bound card sfi n ≠ .error .fuel ↔ ∃ k < bound, EndsAt card sfi n 1 k :=
  readRecordsLoop_ends_iff card sfi bound n 1 []

/-- The answer of a contact card that has its directory in file 1. -/
def fciOfPse1 : Bytes :=
  [0x6F, 0x15, 0x84, 0x0E] ++ emvPse1 ++ [0xA5, 0x03, 0x88, 0x01, 0x01]

/-- A contact card that has an empty template for every record. -/
def endlessRecords : Card := fun n _ =>
  if n < 3 then some ⟨[], 0x6A82⟩
  else if n = 3 then some ⟨fciOfPse1, swNoError⟩
  else some ⟨[0x70, 0x00], swNoError⟩

/-- `GetCardAID` of such a card does not return. -/
theorem getCardAID_never_ends :
    ¬ ∃ fuel found, getCardAID fuel endlessRecords false = some found := by
  rintro ⟨fuel, found, hfound⟩
  have hloop : readRecords fuel endlessRecords 1 4 = .error .fuel := by
    by_contra hends
    obtain ⟨k, -, hk⟩ := (readRecordsLoop_ends_iff endlessRecords 1 fuel 4 1 []).mp hends
    have hanswer : endlessRecords (4 + k) (readRecord (1 + UInt8.ofNat k) 1) =
        some ⟨[0x70, 0x00], swNoError⟩ := by
      rw [endlessRecords, if_neg (by omega), if_neg (by omega)]
    exact absurd (hk _ hanswer) (by decide)
  have hsfi : ((parseData fciOfPse1).toOption.bind fciNodeOf).bind contactSfi = some 1 := by
    decide +kernel
  obtain ⟨fciNode, hfci, hsfi⟩ := Option.bind_eq_some_iff.mp hsfi
  obtain ⟨rootNode, hroot, hfci⟩ := Option.bind_eq_some_iff.mp hfci
  have hdirectory : pseDirectory fuel endlessRecords false 3 =
      readRecords fuel endlessRecords 1 4 := by
    have hparse := eq_ok_of_toOption hroot
    have hselect : selectPse endlessRecords false 3 = .ok ⟨⟨fciOfPse1, swNoError⟩, false, 4⟩ := rfl
    have hanswered : True ∧ 0 < fciOfPse1.length := ⟨trivial, by decide⟩
    simp only [pseDirectory, hselect, bind_ok, hparse, hfci, hsfi, Bool.false_eq_true, if_false]
    exact if_pos hanswered
  have hknown : selectSupported endlessRecords supportedAids 0 = .ok (none, 3) := rfl
  rw [getCardAID, hknown] at hfound
  simp only [hdirectory, hloop] at hfound
  exact absurd hfound (by simp)

end Common
end VeraCrypt
