import Mathlib.Data.Char
import VeraCrypt.Lib.Replace
import VeraCrypt.Lib.SortedMap

/-!
# The configuration files in XML (`Main/Xml.cpp`)

`XmlWriter::WriteNodes` writes nodes with their attributes and texts, and `XmlParser::GetNodes`
reads the nodes of one name. Both replace the characters that mean something by entities, each by a
chain of replacements in the whole text.

The writer escapes the ampersands of the entities it has just written, and the reader undoes one
layer only, so a text with `<` or `>` comes back as entities; one with `&quot;` comes back with a
quote (`convert_escape_iff`). And the reader takes a backslash in front of a quote for an escape
that the writer never writes. `getNodes_writeNodes_iff` says that everything else comes back.
-/

set_option autoImplicit false

namespace VeraCrypt
namespace XmlFile

open Lib

abbrev WxString := List Char

inductive XmlError where
  | parameterIncorrect
  deriving DecidableEq

/-- `XmlNode` -/
structure XmlNode where
  name : WxString
  attributes : SortedMap WxString WxString
  innerNodes : List XmlNode
  innerText : WxString

/-! ## Escaping -/

def ltWord : WxString := ['&', 'l', 't', ';']
def gtWord : WxString := ['&', 'g', 't', ';']
def ampWord : WxString := ['&', 'a', 'm', 'p', ';']
def quotWord : WxString := ['&', 'q', 'u', 'o', 't', ';']

/-- `ConvertEscapedChars` -/
def convertEscapedChars (xmlString : WxString) : WxString :=
  let xmlString := replaceAll ltWord ['<'] xmlString
  let xmlString := replaceAll gtWord ['>'] xmlString
  let xmlString := replaceAll ampWord ['&'] xmlString
  replaceAll quotWord ['"'] xmlString

/-- `EscapeChars` -/
def escapeChars (rawString : WxString) : WxString :=
  let rawString := replaceAll ['<'] ltWord rawString
  let rawString := replaceAll ['>'] gtWord rawString
  let rawString := replaceAll ['&'] ampWord rawString
  replaceAll ['"'] quotWord rawString

/-! ## Writing -/

def attributeText (attrib : WxString × WxString) : WxString :=
  ' ' :: attrib.1 ++ ['=', '"'] ++ escapeChars attrib.2 ++ ['"']

def attributesText (attributes : List (WxString × WxString)) : WxString :=
  attributes.flatMap attributeText

def closeTag (name : WxString) : WxString := ['<', '/'] ++ name ++ ['>']

mutual

/-- One node, at the level that `CurrentIndentLevel` has. -/
def writeNode (level : Nat) : XmlNode → WxString
  | ⟨name, attributes, innerNodes, innerText⟩ =>
    List.replicate level '\t' ++ '<' :: name ++ attributesText attributes.entries ++
      if innerNodes.isEmpty then
        if innerText.isEmpty then ['/', '>', '\n']
        else '>' :: escapeChars innerText ++ closeTag name ++ ['\n']
      else ['>', '\n'] ++ writeNodesAt (level + 1) innerNodes ++ List.replicate level '\t' ++
        closeTag name ++ ['\n']

def writeNodesAt (level : Nat) : List XmlNode → WxString
  | [] => []
  | node :: nodes => writeNode level node ++ writeNodesAt level nodes

end

/-- `WriteNodes` -/
def writeNodes (currentIndentLevel : Nat) (nodes : List XmlNode) : WxString :=
  writeNodesAt (currentIndentLevel + 1) nodes

/-! ## Reading -/

/-- The white space of `Trim`. -/
def isSpace (c : Char) : Bool := c ∈ [' ', '\t', '\n', '\x0b', '\x0c', '\r']

/-- `Trim` on both sides. -/
def trim (s : WxString) : WxString := ((s.reverse.dropWhile isSpace).reverse).dropWhile isSpace

/-- `find` for a character: the text in front of it and the text behind it. -/
def findChar (c : Char) : WxString → Option (WxString × WxString)
  | [] => none
  | x :: s => if x = c then some ([], s) else (findChar c s).map (fun p => (x :: p.1, p.2))

/-- `find` for a text: what is in front of it, and the text that begins with it. -/
def find (w : WxString) : WxString → Option (WxString × WxString)
  | [] => none
  | x :: s =>
      if w.isPrefixOf (x :: s) then some ([], x :: s)
      else (find w s).map (fun p => (x :: p.1, p.2))

/-- `FindTagEnd`: what is in front of the end of the tag, and the text from it. In a quote the
    character that ends it is remembered. -/
def findTagEnd : Option Char → WxString → Option (WxString × WxString)
  | _, [] => none
  | none, c :: s =>
      if c = '\'' ∨ c = '"' then (findTagEnd (some c) s).map (fun p => (c :: p.1, p.2))
      else if c = '>' then some ([], c :: s)
      else (findTagEnd none s).map (fun p => (c :: p.1, p.2))
  | some quoteChar, c :: s =>
      (findTagEnd (if c = quoteChar then none else some quoteChar) s).map
        (fun p => (c :: p.1, p.2))

/-- The loop for the closing quote: what is in front of it, and the text behind it. -/
def findClosingQuote : Bool → WxString → Option (WxString × WxString)
  | _, [] => none
  | inEscape, c :: s =>
      if c = '"' && !inEscape then some ([], s)
      else (findClosingQuote (c = '\\' && !inEscape) s).map (fun p => (c :: p.1, p.2))

def orThrow {α : Type} : Option α → Except XmlError α
  | some a => .ok a
  | none => .error .parameterIncorrect

/-- One turn of the loop over the attributes: the name and the value, and the text behind. -/
def readAttribute (text : WxString) :
    Except XmlError (Option ((WxString × WxString) × WxString)) :=
  match text.dropWhile (· = ' ') with
  | [] => .ok none
  | c :: s =>
    if c = '/' then .ok none
    else do
      let (attributeName, afterEquals) ← orThrow (findChar '=' (c :: s))
      if (trim attributeName).isEmpty then .error .parameterIncorrect
      else do
        let (_, afterQuote) ← orThrow (findChar '"' afterEquals)
        let (value, rest) ← orThrow (findClosingQuote false afterQuote)
        .ok (some ((trim attributeName, convertEscapedChars value), rest))

theorem findChar_length {c : Char} {text a rest : WxString} (h : findChar c text = some (a, rest)) :
    rest.length < text.length := by
  induction text generalizing a with
  | nil => cases h
  | cons x s ih =>
    rw [findChar] at h
    split at h
    · cases h
      simp
    · obtain ⟨⟨a', rest'⟩, hs, heq⟩ := Option.map_eq_some_iff.mp h
      cases heq
      exact (ih hs).trans (by simp)

theorem findClosingQuote_length {inEscape : Bool} {text a rest : WxString}
    (h : findClosingQuote inEscape text = some (a, rest)) : rest.length < text.length := by
  induction text generalizing inEscape a with
  | nil => cases h
  | cons x s ih =>
    rw [findClosingQuote] at h
    split at h
    · cases h
      simp
    · obtain ⟨⟨a', rest'⟩, hs, heq⟩ := Option.map_eq_some_iff.mp h
      cases heq
      exact (ih hs).trans (by simp)

theorem orThrow_eq_ok {α : Type} {o : Option α} {a : α} (h : orThrow o = .ok a) : o = some a := by
  cases o with
  | none => cases h
  | some b =>
    cases h
    rfl

/-- What a turn that reads an attribute has found. -/
theorem readAttribute_eq_some {text rest : WxString} {e : WxString × WxString}
    (h : readAttribute text = .ok (some (e, rest))) :
    ∃ c s attributeName afterEquals front afterQuote value,
      text.dropWhile (· = ' ') = c :: s ∧ c ≠ '/' ∧
      findChar '=' (c :: s) = some (attributeName, afterEquals) ∧
      findChar '"' afterEquals = some (front, afterQuote) ∧
      findClosingQuote false afterQuote = some (value, rest) ∧
      e = (trim attributeName, convertEscapedChars value) := by
  rw [readAttribute] at h
  cases htext : text.dropWhile (· = ' ') with
  | nil =>
    rw [htext] at h
    cases h
  | cons c s =>
    rw [htext] at h
    simp only at h
    split at h
    · cases h
    · rename_i hslash
      cases hname : findChar '=' (c :: s) with
      | none =>
        rw [hname] at h
        cases h
      | some p =>
        obtain ⟨attributeName, afterEquals⟩ := p
        rw [hname] at h
        change (if (trim attributeName).isEmpty = true then _ else _) = _ at h
        split at h
        · cases h
        · cases hquote : findChar '"' afterEquals with
          | none =>
            rw [hquote] at h
            cases h
          | some q =>
            obtain ⟨front, afterQuote⟩ := q
            rw [hquote] at h
            cases hvalue : findClosingQuote false afterQuote with
            | none =>
              change ((orThrow (findClosingQuote false afterQuote)) >>= _) = _ at h
              rw [hvalue] at h
              cases h
            | some r =>
              obtain ⟨value, rest'⟩ := r
              change ((orThrow (findClosingQuote false afterQuote)) >>= _) = _ at h
              rw [hvalue] at h
              cases h
              exact ⟨c, s, attributeName, afterEquals, front, afterQuote, value, rfl, hslash, hname,
                hquote, hvalue, rfl⟩

/-- A turn that has found a name and the quote behind it. -/
theorem readAttribute_of {text s attributeName afterEquals front afterQuote : WxString} {c : Char}
    (htext : text.dropWhile (· = ' ') = c :: s) (hslash : c ≠ '/')
    (hname : findChar '=' (c :: s) = some (attributeName, afterEquals))
    (hempty : trim attributeName ≠ [])
    (hquote : findChar '"' afterEquals = some (front, afterQuote)) :
    readAttribute text = (orThrow (findClosingQuote false afterQuote)).map
      (fun p => some ((trim attributeName, convertEscapedChars p.1), p.2)) := by
  rw [readAttribute, htext]
  simp only
  rw [if_neg hslash, hname]
  change (if (trim attributeName).isEmpty = true then _ else _) = _
  rw [if_neg (by rwa [List.isEmpty_iff]), hquote]
  change (orThrow (findClosingQuote false afterQuote) >>= _) = _
  cases findClosingQuote false afterQuote <;> rfl

theorem readAttribute_length {text rest : WxString} {e : WxString × WxString}
    (h : readAttribute text = .ok (some (e, rest))) : rest.length < text.length := by
  obtain ⟨c, s, _, afterEquals, _, afterQuote, _, htext, _, hname, hquote, hvalue, _⟩ :=
    readAttribute_eq_some h
  have hdrop := (List.dropWhile_sublist (l := text) (fun x => decide (x = ' '))).length_le
  rw [htext] at hdrop
  have hname' := findChar_length hname
  have hquote' := findChar_length hquote
  have hvalue' := findClosingQuote_length hvalue
  omega

/-- The loop over the attributes. -/
def parseAttributes (text : WxString) (attributes : SortedMap WxString WxString) :
    Except XmlError (SortedMap WxString WxString) :=
  match _h : readAttribute text with
  | .error err => .error err
  | .ok none => .ok attributes
  | .ok (some (e, rest)) => parseAttributes rest (attributes.set e.1 e.2)
termination_by text.length
decreasing_by exact readAttribute_length _h

/-- Behind the end of a tag: the node, if the tag is one of that name, and the text from
    `nodePos`. -/
def readTag (nodeName beforeEnd fromEnd : WxString) :
    Except XmlError (Option XmlNode × WxString) :=
  let nodeTagText := beforeEnd.drop 1
  if nodeName.length < nodeTagText.length ∧ nodeTagText[nodeName.length]? ≠ some ' ' ∧
      nodeTagText[nodeName.length]? ≠ some '/' then
    .ok (none, fromEnd)
  else do
    let attributes ← parseAttributes (nodeTagText.drop nodeName.length) .empty
    if nodeTagText.getLast? = some '/' then
      .ok (some ⟨nodeName, attributes, [], []⟩, fromEnd)
    else do
      let (innerText, fromClose) ← orThrow (find (closeTag nodeName) (fromEnd.drop 1))
      .ok (some ⟨nodeName, attributes, [], convertEscapedChars innerText⟩, fromClose)

/-- One turn of the loop over the nodes. -/
def readNode (nodeName text : WxString) :
    Except XmlError (Option (Option XmlNode × WxString)) :=
  match find ('<' :: nodeName) text with
  | none => .ok none
  | some (_, fromNode) =>
    match findTagEnd none fromNode with
    | none => .error .parameterIncorrect
    | some (beforeEnd, fromEnd) => (readTag nodeName beforeEnd fromEnd).map some

theorem find_eq {w text a rest : WxString} (h : find w text = some (a, rest)) :
    text = a ++ rest ∧ w <+: rest := by
  induction text generalizing a with
  | nil => cases h
  | cons x s ih =>
    rw [find] at h
    split at h
    · rename_i hpre
      cases h
      exact ⟨rfl, List.isPrefixOf_iff_prefix.mp hpre⟩
    · obtain ⟨⟨a', rest'⟩, hs, heq⟩ := Option.map_eq_some_iff.mp h
      cases heq
      exact ⟨by rw [(ih hs).1, List.cons_append], (ih hs).2⟩

theorem findTagEnd_eq {quote : Option Char} {text a rest : WxString}
    (h : findTagEnd quote text = some (a, rest)) : text = a ++ rest := by
  induction text generalizing quote a with
  | nil => cases quote <;> cases h
  | cons x s ih =>
    have hcons : ∀ quote', (findTagEnd quote' s).map (fun p => (x :: p.1, p.2)) = some (a, rest) →
        x :: s = a ++ rest := by
      intro quote' hmap
      obtain ⟨⟨a', rest'⟩, hs, heq⟩ := Option.map_eq_some_iff.mp hmap
      cases heq
      rw [ih hs, List.cons_append]
    cases quote with
    | none =>
      rw [findTagEnd] at h
      split at h
      · exact hcons _ h
      · split at h
        · cases h
          rfl
        · exact hcons _ h
    | some quoteChar => exact hcons _ h

theorem findTagEnd_length {s a rest : WxString} (h : findTagEnd none ('<' :: s) = some (a, rest)) :
    rest.length < ('<' :: s).length := by
  have heq := findTagEnd_eq h
  cases a with
  | cons x a =>
    rw [heq, List.length_append, List.length_cons]
    omega
  | nil =>
    -- the tag does not end with its first character
    rw [findTagEnd, if_neg (by decide), if_neg (by decide)] at h
    obtain ⟨p, _, hp⟩ := Option.map_eq_some_iff.mp h
    cases hp

theorem readTag_length {nodeName beforeEnd fromEnd rest : WxString} {node : Option XmlNode}
    (h : readTag nodeName beforeEnd fromEnd = .ok (node, rest)) :
    rest.length ≤ fromEnd.length := by
  rw [readTag] at h
  simp only at h
  split at h
  · cases h
    exact Nat.le_refl _
  · cases hparse : parseAttributes ((beforeEnd.drop 1).drop nodeName.length) .empty with
    | error err =>
      rw [hparse] at h
      cases h
    | ok attributes =>
      rw [hparse] at h
      change (if (beforeEnd.drop 1).getLast? = some '/' then _ else _) = _ at h
      split at h
      · cases h
        exact Nat.le_refl _
      · cases hfind : find (closeTag nodeName) (fromEnd.drop 1) with
        | none =>
          rw [hfind] at h
          cases h
        | some p =>
          obtain ⟨innerText, fromClose⟩ := p
          rw [hfind] at h
          cases h
          have hlen := congrArg List.length (find_eq hfind).1
          rw [List.length_append, List.length_drop] at hlen
          change fromClose.length ≤ fromEnd.length
          omega

theorem readNode_length {nodeName text rest : WxString} {node : Option XmlNode}
    (h : readNode nodeName text = .ok (some (node, rest))) : rest.length < text.length := by
  rw [readNode] at h
  split at h
  · cases h
  · rename_i a fromNode hfind
    obtain ⟨htext, s, hs⟩ := find_eq hfind
    split at h
    · cases h
    · rename_i beforeEnd fromEnd hend
      cases htag : readTag nodeName beforeEnd fromEnd with
      | error err =>
        rw [htag] at h
        cases h
      | ok p =>
        rw [htag] at h
        cases h
        rw [← hs] at hend
        have hrest := readTag_length htag
        have hshort := findTagEnd_length hend
        rw [htext, List.length_append, ← hs]
        exact Nat.lt_of_le_of_lt hrest (Nat.lt_of_lt_of_le hshort (Nat.le_add_left _ _))

/-- `GetNodes` -/
def getNodes (nodeName text : WxString) : Except XmlError (List XmlNode) :=
  match _h : readNode nodeName text with
  | .error err => .error err
  | .ok none => .ok []
  | .ok (some (node, rest)) => (getNodes nodeName rest).map (node.toList ++ ·)
termination_by text.length
decreasing_by exact readNode_length _h

/-! ## What escaping does -/

/-- What becomes of a character when it is written. -/
def escapeChar (c : Char) : WxString :=
  if c = '<' then '&' :: 'a' :: 'm' :: 'p' :: ';' :: ['l', 't', ';']
  else if c = '>' then '&' :: 'a' :: 'm' :: 'p' :: ';' :: ['g', 't', ';']
  else if c = '&' then ampWord
  else if c = '"' then quotWord
  else [c]

/-- What is left of it when the ampersands are read. -/
def halfChar (c : Char) : WxString :=
  if c = '<' then ltWord
  else if c = '>' then gtWord
  else if c = '"' then quotWord
  else [c]

theorem escapeChars_eq (s : WxString) : escapeChars s = s.flatMap escapeChar := by
  simp only [escapeChars, replaceAll_singleton, List.flatMap_assoc]
  congr 1
  funext c
  by_cases hlt : c = '<'
  · subst hlt
    decide
  by_cases hgt : c = '>'
  · subst hgt
    decide
  by_cases hamp : c = '&'
  · subst hamp
    decide
  by_cases hquot : c = '"'
  · subst hquot
    decide
  · simp [escapeChar, hlt, hgt, hamp, hquot]

/-- An entity that is not the word that is replaced stays. -/
theorem replaceAll_entity {m c : Char} {body new x : WxString} (hne : m ≠ c) (hx : '&' ∉ c :: x)
    (rest : WxString) : replaceAll ('&' :: m :: body) new ('&' :: (c :: x ++ rest)) =
      '&' :: (c :: x ++ replaceAll ('&' :: m :: body) new rest) := by
  rw [replaceAll_cons_of_not, replaceAll_append_of_not_mem new hx]
  intro hpre
  rw [List.cons_append, List.cons_prefix_cons, List.cons_prefix_cons] at hpre
  exact hne hpre.2.1

/-- A word of the reader that stands nowhere in what is written. -/
theorem replaceAll_escapeChars {m : Char} (body new : WxString) (ha : m ≠ 'a') (hq : m ≠ 'q')
    (s : WxString) :
    replaceAll ('&' :: m :: body) new (s.flatMap escapeChar) = s.flatMap escapeChar := by
  induction s with
  | nil => rfl
  | cons c s ih =>
    rw [List.flatMap_cons, escapeChar]
    split
    · exact (replaceAll_entity ha (by decide) _).trans (by rw [ih]; rfl)
    split
    · exact (replaceAll_entity ha (by decide) _).trans (by rw [ih]; rfl)
    split
    · exact (replaceAll_entity ha (by decide) _).trans (by rw [ih]; rfl)
    split
    · exact (replaceAll_entity hq (by decide) _).trans (by rw [ih]; rfl)
    · rename_i hamp _
      rw [List.singleton_append, replaceAll_cons_ne new (Ne.symm hamp), ih]

theorem replaceAll_ampWord (s : WxString) :
    replaceAll ampWord ['&'] (s.flatMap escapeChar) = s.flatMap halfChar := by
  have hamp : ∀ rest, replaceAll ampWord ['&'] (ampWord ++ rest) =
      '&' :: replaceAll ampWord ['&'] rest :=
    fun rest => replaceAll_append ['&'] (by simp [ampWord]) rest
  induction s with
  | nil => rfl
  | cons c s ih =>
    rw [List.flatMap_cons, List.flatMap_cons, escapeChar, halfChar]
    split
    · refine (hamp (['l', 't', ';'] ++ s.flatMap escapeChar)).trans ?_
      rw [ampWord, replaceAll_append_of_not_mem _ (by decide), ← ampWord, ih]
      rfl
    split
    · refine (hamp (['g', 't', ';'] ++ s.flatMap escapeChar)).trans ?_
      rw [ampWord, replaceAll_append_of_not_mem _ (by decide), ← ampWord, ih]
      rfl
    split
    · rename_i hc
      rw [hamp, ih, hc]
      rfl
    split
    · exact (replaceAll_entity (by decide) (by decide) _).trans (by rw [← ampWord, ih]; rfl)
    · rename_i hc _
      rw [List.singleton_append, List.singleton_append, ampWord,
        replaceAll_cons_ne _ (Ne.symm hc), ← ampWord, ih]

theorem convert_escape_eq (s : WxString) : convertEscapedChars (escapeChars s) =
    replaceAll quotWord ['"'] (s.flatMap halfChar) := by
  rw [convertEscapedChars, escapeChars_eq, ltWord, gtWord]
  rw [replaceAll_escapeChars _ _ (by decide) (by decide),
    replaceAll_escapeChars _ _ (by decide) (by decide), replaceAll_ampWord]

/-- A word without an ampersand that stands at the front was there before. -/
theorem prefix_of_prefix_halfChar {u s : WxString} (hu : '&' ∉ u) (h : u <+: s.flatMap halfChar) :
    u <+: s := by
  induction s generalizing u with
  | nil => exact h
  | cons c s ih =>
    cases u with
    | nil => exact List.nil_prefix
    | cons x u =>
      rw [List.mem_cons, not_or] at hu
      rw [List.flatMap_cons, halfChar] at h
      split at h
      · rw [ltWord, List.cons_append, List.cons_prefix_cons] at h
        exact absurd h.1.symm hu.1
      split at h
      · rw [gtWord, List.cons_append, List.cons_prefix_cons] at h
        exact absurd h.1.symm hu.1
      split at h
      · rw [quotWord, List.cons_append, List.cons_prefix_cons] at h
        exact absurd h.1.symm hu.1
      · rw [List.singleton_append, List.cons_prefix_cons] at h
        exact List.cons_prefix_cons.mpr ⟨h.1, ih hu.2 h.2⟩

/-- The texts that come back: without `<` and `>`, and without the entity of the quote. -/
structure Plain (s : WxString) : Prop where
  lt : '<' ∉ s
  gt : '>' ∉ s
  quot : ¬ quotWord <:+: s

theorem Plain.convert_escape {s : WxString} (h : Plain s) :
    convertEscapedChars (escapeChars s) = s := by
  rw [convert_escape_eq]
  induction s with
  | nil => rfl
  | cons c s ih =>
    obtain ⟨hlt, hgt, hquot⟩ := h
    rw [List.mem_cons, not_or] at hlt hgt
    rw [List.infix_cons_iff, not_or] at hquot
    have hrest := ih ⟨hlt.2, hgt.2, hquot.2⟩
    rw [List.flatMap_cons, halfChar, if_neg (Ne.symm hlt.1), if_neg (Ne.symm hgt.1)]
    split
    · rename_i hc
      rw [replaceAll_append _ (by simp [quotWord]), hrest, hc, List.singleton_append]
    · rw [List.singleton_append, replaceAll_cons_of_not, hrest]
      -- the word would stand at the front of the text
      intro hpre
      rw [quotWord, List.cons_prefix_cons] at hpre
      apply hquot.1
      rw [quotWord, List.cons_prefix_cons]
      exact ⟨hpre.1, prefix_of_prefix_halfChar (by decide) hpre.2⟩

theorem not_mem_halfChar {x c : Char} (hx : x = '<' ∨ x = '>') : x ∉ halfChar c := by
  unfold halfChar
  split
  · cases hx with
    | inl h => subst h; decide
    | inr h => subst h; decide
  split
  · cases hx with
    | inl h => subst h; decide
    | inr h => subst h; decide
  split
  · cases hx with
    | inl h => subst h; decide
    | inr h => subst h; decide
  · rename_i hlt hgt _
    rw [List.mem_singleton]
    rintro rfl
    cases hx with
    | inl h => exact hlt h
    | inr h => exact hgt h

theorem convert_escape_iff (s : WxString) : convertEscapedChars (escapeChars s) = s ↔ Plain s := by
  refine ⟨fun h => ?_, Plain.convert_escape⟩
  have hangle : ∀ x : Char, x = '<' ∨ x = '>' → x ∉ s := by
    intro x hx hmem
    rw [← h, convert_escape_eq] at hmem
    cases mem_replaceAll (by simp [quotWord]) hmem with
    | inl hhalf =>
      obtain ⟨c, _, hc⟩ := List.mem_flatMap.mp hhalf
      exact not_mem_halfChar hx hc
    | inr hnew =>
      rw [List.mem_singleton] at hnew
      subst hnew
      simp at hx
  refine ⟨hangle '<' (.inl rfl), hangle '>' (.inr rfl), fun hinfix => ?_⟩
  rw [← h, convert_escape_eq] at hinfix
  exact not_infix_replaceAll (by simp [quotWord]) (by decide) _ hinfix

/-! ## The scanners on what is written -/

/-- The characters that the entities stand for are gone. -/
theorem not_mem_escapeChars {x : Char} (hx : x = '<' ∨ x = '>' ∨ x = '"') (s : WxString) :
    x ∉ escapeChars s := by
  rw [escapeChars_eq, List.mem_flatMap]
  rintro ⟨c, -, hc⟩
  unfold escapeChar at hc
  split at hc
  · obtain rfl | rfl | rfl := hx <;> revert hc <;> decide
  split at hc
  · obtain rfl | rfl | rfl := hx <;> revert hc <;> decide
  split at hc
  · obtain rfl | rfl | rfl := hx <;> revert hc <;> decide
  split at hc
  · obtain rfl | rfl | rfl := hx <;> revert hc <;> decide
  · rename_i hlt hgt _ hquot
    rw [List.mem_singleton] at hc
    subst hc
    obtain h | h | h := hx
    · exact hlt h
    · exact hgt h
    · exact hquot h

theorem findChar_append {c : Char} {a : WxString} (h : c ∉ a) (s : WxString) :
    findChar c (a ++ c :: s) = some (a, s) := by
  induction a with
  | nil => simp [findChar]
  | cons x a ih =>
    rw [List.mem_cons, not_or] at h
    rw [List.cons_append, findChar, if_neg (Ne.symm h.1), ih h.2]
    rfl

theorem findChar_of_not_mem {c : Char} {s : WxString} (h : c ∉ s) : findChar c s = none := by
  induction s with
  | nil => rfl
  | cons x s ih =>
    rw [List.mem_cons, not_or] at h
    rw [findChar, if_neg (Ne.symm h.1), ih h.2]
    rfl

/-- `inEscape` behind a text. -/
def escapeState (inEscape : Bool) (s : WxString) : Bool :=
  s.foldl (fun inEscape c => c = '\\' && !inEscape) inEscape

theorem findClosingQuote_append {x : WxString} (h : '"' ∉ x) (inEscape : Bool) (s : WxString) :
    findClosingQuote inEscape (x ++ s) =
      (findClosingQuote (escapeState inEscape x) s).map (fun p => (x ++ p.1, p.2)) := by
  induction x generalizing inEscape with
  | nil => simp [escapeState]
  | cons c x ih =>
    rw [List.mem_cons, not_or] at h
    have hc : ¬ (decide (c = '"') && !inEscape) = true := by simp [Ne.symm h.1]
    rw [List.cons_append, findClosingQuote, if_neg hc, ih h.2, Option.map_map]
    rfl

theorem findClosingQuote_of_not_mem {x : WxString} (h : '"' ∉ x) (inEscape : Bool) :
    findClosingQuote inEscape x = none := by
  have happend := findClosingQuote_append h inEscape []
  rw [List.append_nil] at happend
  exact happend

/-- The text ends in an odd number of backslashes. -/
def endsEscaped (s : WxString) : Bool := (s.reverse.takeWhile (· = '\\')).length % 2 = 1

theorem endsEscaped_concat (s : WxString) (c : Char) :
    endsEscaped (s ++ [c]) = (decide (c = '\\') && !endsEscaped s) := by
  unfold endsEscaped
  rw [List.reverse_append, List.reverse_singleton, List.singleton_append, List.takeWhile_cons]
  by_cases hc : c = '\\'
  · simp only [hc, decide_true, if_true, List.length_cons, Bool.true_and]
    rw [← decide_not, decide_eq_decide]
    omega
  · simp [hc]

theorem escapeState_concat (inEscape : Bool) (s : WxString) (c : Char) :
    escapeState inEscape (s ++ [c]) = (decide (c = '\\') && !escapeState inEscape s) := by
  simp [escapeState, List.foldl_append]

/-- Behind the escaped text the reader thinks itself in an escape when the text ends in one. -/
theorem escapeState_escapeChars (s : WxString) :
    escapeState false (escapeChars s) = endsEscaped s := by
  rw [escapeChars_eq]
  induction s using List.reverseRecOn with
  | nil => rfl
  | append_singleton s c ih =>
    rw [List.flatMap_append, List.flatMap_singleton, endsEscaped_concat, ← ih]
    -- an entity ends with a semicolon
    have hword : ∀ x, escapeState false (s.flatMap escapeChar ++ (x ++ [';'])) = false := by
      intro x
      rw [← List.append_assoc, escapeState_concat]
      rfl
    unfold escapeChar
    split
    · rename_i hc
      rw [hc]
      exact hword ['&', 'a', 'm', 'p', ';', 'l', 't']
    split
    · rename_i hc
      rw [hc]
      exact hword ['&', 'a', 'm', 'p', ';', 'g', 't']
    split
    · rename_i hc
      rw [hc]
      exact hword ['&', 'a', 'm', 'p']
    split
    · rename_i hc
      rw [hc]
      exact hword ['&', 'q', 'u', 'o', 't']
    · exact escapeState_concat _ _ _

/-- The closing quote behind a value is the one that is found, or is taken for an escaped one. -/
theorem findClosingQuote_value (v rest : WxString) :
    findClosingQuote false (escapeChars v ++ '"' :: rest) =
      if endsEscaped v then
        (findClosingQuote false rest).map (fun p => (escapeChars v ++ '"' :: p.1, p.2))
      else some (escapeChars v, rest) := by
  rw [findClosingQuote_append (not_mem_escapeChars (by simp) v), escapeState_escapeChars]
  cases endsEscaped v with
  | true =>
    rw [if_pos rfl, findClosingQuote, if_neg (by decide), Option.map_map]
    rfl
  | false => simp [findClosingQuote]

/-! ## Names -/

/-- A name: letters, or any characters that mean nothing in a tag. -/
structure IsName (s : WxString) : Prop where
  ne_nil : s ≠ []
  chars : ∀ c ∈ s, isSpace c = false ∧ c ∉ ['<', '>', '"', '\'', '=', '/']

theorem IsName.not_mem {s : WxString} (h : IsName s) {c : Char}
    (hc : c ∈ ['<', '>', '"', '\'', '=', '/']) : c ∉ s :=
  fun hmem => (h.chars c hmem).2 hc

theorem IsName.space_not_mem {s : WxString} (h : IsName s) : ' ' ∉ s :=
  fun hmem => absurd (h.chars ' ' hmem).1 (by decide)

theorem dropWhile_of_forall {s : WxString} (h : ∀ c ∈ s, isSpace c = false) :
    s.dropWhile isSpace = s := by
  cases s with
  | nil => rfl
  | cons c s => rw [List.dropWhile_cons, if_neg (by simp [h c])]

theorem IsName.trim {s : WxString} (h : IsName s) : trim s = s := by
  have hrev : ∀ c ∈ s.reverse, isSpace c = false :=
    fun c hc => (h.chars c (List.mem_reverse.mp hc)).1
  rw [XmlFile.trim, dropWhile_of_forall hrev, List.reverse_reverse,
    dropWhile_of_forall (fun c hc => (h.chars c hc).1)]

theorem mem_dropWhile {c : Char} {s : WxString} (h : c ∈ s) (hc : isSpace c = false) :
    c ∈ s.dropWhile isSpace := by
  induction s with
  | nil => cases h
  | cons x s ih =>
    rw [List.dropWhile_cons]
    split
    · rename_i hx
      rw [List.mem_cons] at h
      cases h with
      | inl heq => rw [← heq, hc] at hx; cases hx
      | inr hin => exact ih hin
    · exact h

/-- Trimming leaves what is no white space. -/
theorem mem_trim {c : Char} {s : WxString} (h : c ∈ s) (hc : isSpace c = false) : c ∈ trim s := by
  apply mem_dropWhile _ hc
  rw [List.mem_reverse]
  exact mem_dropWhile (List.mem_reverse.mpr h) hc

/-! ## The attributes of a tag

The text behind any quote of a tag is that behind a value and the attributes after it, or behind an
opening quote. -/

/-- What stands behind the attributes: nothing, or the mark of a node without a text. -/
structure IsTail (tail : WxString) : Prop where
  eq : tail = [] ∨ tail = ['/']

theorem IsTail.not_mem {tail : WxString} (h : IsTail tail) {c : Char} (hc : c ≠ '/') :
    c ∉ tail := by
  cases h.eq with
  | inl heq => simp [heq]
  | inr heq => simp [heq, hc]

/-- The text at the front of the attributes, or, with a value, behind the quote that opens it. -/
def textAt (tail : WxString) : Option WxString → List (WxString × WxString) → WxString
  | none, entries => attributesText entries ++ tail
  | some v, entries => escapeChars v ++ '"' :: (attributesText entries ++ tail)

/-- The names of the attributes are names. -/
def NamesOk (entries : List (WxString × WxString)) : Prop := ∀ e ∈ entries, IsName e.1

theorem textAt_some (tail v : WxString) (entries : List (WxString × WxString)) :
    textAt tail (some v) entries = escapeChars v ++ '"' :: textAt tail none entries := rfl

theorem textAt_cons (tail a v : WxString) (entries : List (WxString × WxString)) :
    textAt tail none ((a, v) :: entries) =
      ' ' :: (a ++ '=' :: '"' :: textAt tail (some v) entries) := by
  simp [textAt, attributesText, attributeText]

/-- From the front of an attribute the opening quote is found. -/
theorem findClosingQuote_attribute {a : WxString} (ha : IsName a) (tail u : WxString)
    (entries : List (WxString × WxString)) :
    findClosingQuote false (textAt tail none ((a, u) :: entries)) =
      some (' ' :: a ++ ['='], textAt tail (some u) entries) := by
  have hquote : '"' ∉ ' ' :: a ++ ['='] := by
    have hin := ha.not_mem (c := '"') (by decide)
    simp [hin]
  have htext : textAt tail none ((a, u) :: entries) =
      (' ' :: a ++ ['=']) ++ '"' :: textAt tail (some u) entries := by
    rw [textAt_cons]
    simp
  rw [htext, findClosingQuote_append hquote, escapeState_concat, findClosingQuote]
  simp

/-- The closing quote of a value, searched from its front: it is found, or the value goes on to the
    opening quote of the next, behind an equals sign. -/
theorem findClosingQuote_textAt {tail : WxString} (htail : IsTail tail)
    {entries : List (WxString × WxString)} (hnames : NamesOk entries) {v value rest : WxString}
    (h : findClosingQuote false (textAt tail (some v) entries) = some (value, rest)) :
    ∃ v' entries', rest = textAt tail v' entries' ∧ entries' <:+ entries ∧
      ((endsEscaped v = false ∧ value = escapeChars v) ∨ ∃ s, value = s ++ ['=']) := by
  rw [textAt, findClosingQuote_value] at h
  cases hv : endsEscaped v with
  | false =>
    rw [hv, if_neg (by simp)] at h
    cases h
    exact ⟨none, entries, rfl, List.suffix_refl _, .inl ⟨rfl, rfl⟩⟩
  | true =>
    rw [hv, if_pos rfl] at h
    cases entries with
    | nil =>
      rw [attributesText, List.flatMap_nil, List.nil_append,
        findClosingQuote_of_not_mem (htail.not_mem (by decide))] at h
      cases h
    | cons e entries =>
      obtain ⟨a, u⟩ := e
      have hopen := findClosingQuote_attribute (hnames (a, u) List.mem_cons_self) tail u entries
      rw [textAt] at hopen
      rw [hopen] at h
      cases h
      refine ⟨some u, entries, rfl, List.suffix_cons _ _,
        .inr ⟨escapeChars v ++ '"' :: ' ' :: a, ?_⟩⟩
      simp

theorem dropWhile_space_append (x s : WxString) {c : Char} (hc : c ≠ ' ') :
    (x ++ c :: s).dropWhile (· = ' ') = x.dropWhile (· = ' ') ++ c :: s := by
  induction x with
  | nil => simp [hc]
  | cons y x ih =>
    rw [List.cons_append, List.dropWhile_cons, List.dropWhile_cons, ih]
    split <;> rfl

theorem readAttribute_tail {tail : WxString} (h : IsTail tail) : readAttribute tail = .ok none := by
  cases h.eq with
  | inl heq => rw [heq]; rfl
  | inr heq => rw [heq]; rfl

/-- One turn from the front of an attribute: its name is read, and a value from its opening
    quote. -/
theorem readAttribute_front (tail : WxString) {a : WxString} (ha : IsName a) (u : WxString)
    (entries : List (WxString × WxString)) :
    readAttribute (textAt tail none ((a, u) :: entries)) =
      (orThrow (findClosingQuote false (textAt tail (some u) entries))).map
        (fun p => some ((a, convertEscapedChars p.1), p.2)) := by
  obtain ⟨c, s, hcs⟩ := List.exists_cons_of_ne_nil ha.ne_nil
  have hc : c ≠ ' ' := fun h => ha.space_not_mem (by rw [hcs, h]; exact List.mem_cons_self)
  have hslash : c ≠ '/' := fun h => ha.not_mem (c := '/') (by decide)
    (by rw [hcs, h]; exact List.mem_cons_self)
  have hdrop : (textAt tail none ((a, u) :: entries)).dropWhile (· = ' ') =
      c :: (s ++ '=' :: '"' :: textAt tail (some u) entries) := by
    rw [textAt_cons, hcs]
    simp [hc]
  have hname : findChar '=' (c :: (s ++ '=' :: '"' :: textAt tail (some u) entries)) =
      some (a, '"' :: textAt tail (some u) entries) := by
    have heq := findChar_append (ha.not_mem (c := '=') (by decide))
      ('"' :: textAt tail (some u) entries)
    rw [hcs] at heq ⊢
    exact heq
  have hread := readAttribute_of hdrop hslash hname (by rw [ha.trim]; exact ha.ne_nil)
    (findChar_append (a := []) (by simp) _)
  rw [hread, ha.trim]

/-- One turn from anywhere behind a quote: the text that is left is behind a quote too, and what was
    read has the name of an attribute that was in front, or no name, or a value that ends with the
    equals sign of the next. -/
theorem readAttribute_textAt {tail : WxString} (htail : IsTail tail) {v : Option WxString}
    {entries : List (WxString × WxString)} (hnames : NamesOk entries) {e : WxString × WxString}
    {rest : WxString} (h : readAttribute (textAt tail v entries) = .ok (some (e, rest))) :
    ∃ v' entries', rest = textAt tail v' entries' ∧ entries' <:+ entries ∧
      (e.1 ∈ entries.map Prod.fst ∨ '"' ∈ e.1 ∨ ∃ s, e.2 = convertEscapedChars (s ++ ['='])) := by
  cases v with
  | none =>
    cases entries with
    | nil =>
      have hnone := readAttribute_tail htail
      rw [textAt, attributesText, List.flatMap_nil, List.nil_append, hnone] at h
      cases h
    | cons first entries =>
      obtain ⟨a, u⟩ := first
      rw [readAttribute_front tail (hnames (a, u) List.mem_cons_self)] at h
      cases hquote : findClosingQuote false (textAt tail (some u) entries) with
      | none =>
        rw [hquote] at h
        cases h
      | some p =>
        obtain ⟨value, rest'⟩ := p
        rw [hquote] at h
        cases h
        obtain ⟨v', entries', hrest, hsuffix, -⟩ := findClosingQuote_textAt htail
          (fun e he => hnames e (List.mem_cons_of_mem _ he)) hquote
        exact ⟨v', entries', hrest, hsuffix.trans (List.suffix_cons _ _), .inl (by simp)⟩
  | some v =>
    obtain ⟨c, s, attributeName, afterEquals, front, afterQuote, value, htext, hslash, hname,
      hquote, hvalue, rfl⟩ := readAttribute_eq_some h
    rw [textAt, dropWhile_space_append _ _ (by decide)] at htext
    rw [← htext] at hname
    have hno : '"' ∉ (escapeChars v).dropWhile (· = ' ') :=
      fun hmem => not_mem_escapeChars (by simp) v ((List.dropWhile_sublist _).subset hmem)
    by_cases heq : '=' ∈ (escapeChars v).dropWhile (· = ' ')
    · -- the name ends in the value, and what is read begins at the quote behind it
      obtain ⟨x, y, hxy, hx⟩ := List.eq_append_cons_of_mem heq
      rw [hxy, List.append_assoc, List.cons_append, findChar_append hx] at hname
      cases hname
      have hy : '"' ∉ y := fun hmem => hno (by rw [hxy]; simp [hmem])
      rw [findChar_append hy] at hquote
      cases hquote
      cases entries with
      | nil =>
        rw [attributesText, List.flatMap_nil, List.nil_append,
          findClosingQuote_of_not_mem (htail.not_mem (by decide))] at hvalue
        cases hvalue
      | cons first entries =>
        obtain ⟨a, u⟩ := first
        have hopen := findClosingQuote_attribute (hnames (a, u) List.mem_cons_self) tail u entries
        rw [textAt] at hopen
        rw [hopen] at hvalue
        cases hvalue
        exact ⟨some u, entries, rfl, List.suffix_cons _ _, .inr (.inr ⟨' ' :: a, rfl⟩)⟩
    · -- the name goes on behind the quote, to the equals sign of the next attribute
      cases entries with
      | nil =>
        rw [attributesText, List.flatMap_nil, List.nil_append, findChar_of_not_mem] at hname
        · cases hname
        · have hin := htail.not_mem (c := '=') (by decide)
          simp [heq, hin]
      | cons first entries =>
        obtain ⟨a, u⟩ := first
        have ha := hnames (a, u) List.mem_cons_self
        have hcons := textAt_cons tail a u entries
        rw [textAt] at hcons
        rw [hcons, ← List.cons_append, ← List.cons_append, ← List.append_assoc,
          findChar_append] at hname
        · cases hname
          have hfound := findChar_append (c := '"') (a := []) (by simp)
            (textAt tail (some u) entries)
          rw [List.nil_append] at hfound
          rw [hfound] at hquote
          cases hquote
          obtain ⟨v', entries', hrest, hsuffix, -⟩ := findClosingQuote_textAt htail
            (fun e he => hnames e (List.mem_cons_of_mem _ he)) hvalue
          refine ⟨v', entries', hrest, hsuffix.trans (List.suffix_cons _ _), .inr (.inl ?_)⟩
          exact mem_trim (by simp) (by decide)
        · have hin := ha.not_mem (c := '=') (by decide)
          simp [heq, hin]

theorem parseAttributes_of_error {text : WxString} {err : XmlError}
    (h : readAttribute text = .error err) (attributes : SortedMap WxString WxString) :
    parseAttributes text attributes = .error err := by
  rw [parseAttributes]
  split
  · rfl
  · rename_i heq
    rw [h] at heq
    cases heq
  · rename_i heq
    rw [h] at heq
    cases heq

theorem parseAttributes_of_none {text : WxString} (h : readAttribute text = .ok none)
    (attributes : SortedMap WxString WxString) :
    parseAttributes text attributes = .ok attributes := by
  rw [parseAttributes]
  split
  · rename_i heq
    rw [h] at heq
    cases heq
  · rfl
  · rename_i heq
    rw [h] at heq
    cases heq

theorem parseAttributes_of_some {text rest : WxString} {e : WxString × WxString}
    (h : readAttribute text = .ok (some (e, rest))) (attributes : SortedMap WxString WxString) :
    parseAttributes text attributes = parseAttributes rest (attributes.set e.1 e.2) := by
  rw [parseAttributes]
  split
  · rename_i heq
    rw [h] at heq
    cases heq
  · rename_i heq
    rw [h] at heq
    cases heq
  · rename_i heq
    rw [h] at heq
    cases heq
    rfl

/-- What the map has for a name was read up to an equals sign. -/
def EqualsBehind (name : WxString) (attributes : SortedMap WxString WxString) : Prop :=
  ∀ e ∈ attributes.entries, e.1 = name → ∃ s, e.2 = convertEscapedChars (s ++ ['='])

/-- Where an attribute of that name is not in front any more, this stays so. -/
theorem EqualsBehind.parseAttributes {tail name : WxString} (htail : IsTail tail)
    (hname : IsName name) {v : Option WxString} {entries : List (WxString × WxString)}
    (hnames : NamesOk entries) (hnew : name ∉ entries.map Prod.fst)
    {attributes result : SortedMap WxString WxString} (h : EqualsBehind name attributes)
    (hparse : XmlFile.parseAttributes (textAt tail v entries) attributes = .ok result) :
    EqualsBehind name result := by
  induction hn : (textAt tail v entries).length using Nat.strong_induction_on
    generalizing v entries attributes with
  | _ n ih =>
    cases hread : readAttribute (textAt tail v entries) with
    | error err =>
      rw [parseAttributes_of_error hread] at hparse
      cases hparse
    | ok o =>
      cases o with
      | none =>
        rw [parseAttributes_of_none hread] at hparse
        cases hparse
        exact h
      | some p =>
        obtain ⟨e, rest⟩ := p
        rw [parseAttributes_of_some hread] at hparse
        have hshort := readAttribute_length hread
        obtain ⟨v', entries', rfl, hsuffix, hkind⟩ := readAttribute_textAt htail hnames hread
        rw [hn] at hshort
        refine ih _ hshort (fun e he => hnames e (hsuffix.subset he))
          (fun hin => hnew ((hsuffix.map Prod.fst).subset hin)) ?_ hparse rfl
        intro e' he' hkey
        cases SortedMap.mem_set he' with
        | inr hold => exact h e' hold.1 hkey
        | inl hset =>
          rw [hset] at hkey ⊢
          obtain hin | hquote | hends := hkind
          · exact absurd (hkey ▸ hin) hnew
          · exact absurd (hkey ▸ hquote) (hname.not_mem (by decide))
          · exact hends

/-- The names ascend, as they do in a map. -/
def Ascending (entries : List (WxString × WxString)) : Prop :=
  entries.Pairwise (fun e e' => e.1 < e'.1)

/-- A value that ends in an escape is not read as it was written. -/
theorem equalsBehind_of_endsEscaped {tail : WxString} (htail : IsTail tail)
    {entries : List (WxString × WxString)} (hnames : NamesOk entries) (hsorted : Ascending entries)
    (hescaped : ∃ e ∈ entries, endsEscaped e.2 = true)
    {attributes result : SortedMap WxString WxString}
    (hparse : parseAttributes (textAt tail none entries) attributes = .ok result) :
    ∃ e ∈ entries, endsEscaped e.2 = true ∧ EqualsBehind e.1 result := by
  induction entries generalizing attributes with
  | nil =>
    obtain ⟨e, he, -⟩ := hescaped
    cases he
  | cons first entries ih =>
    obtain ⟨a, u⟩ := first
    have hsorted' := List.pairwise_cons.mp hsorted
    have hrest : NamesOk entries := fun e he => hnames e (List.mem_cons_of_mem _ he)
    have ha := hnames (a, u) List.mem_cons_self
    have hfront := readAttribute_front tail ha u entries
    cases hquote : findClosingQuote false (textAt tail (some u) entries) with
    | none =>
      rw [hquote] at hfront
      rw [parseAttributes_of_error hfront] at hparse
      cases hparse
    | some p =>
      obtain ⟨value, rest⟩ := p
      rw [hquote] at hfront
      rw [parseAttributes_of_some hfront] at hparse
      obtain ⟨v', entries', hat, hsuffix, hvalue⟩ := findClosingQuote_textAt htail hrest hquote
      cases hu : endsEscaped u with
      | true =>
        refine ⟨(a, u), List.mem_cons_self, hu, ?_⟩
        rw [hat] at hparse
        refine EqualsBehind.parseAttributes htail ha (fun e he => hrest e (hsuffix.subset he)) ?_ ?_
          hparse
        · -- the names that follow are behind it in the order
          intro hin
          obtain ⟨e, he, heq⟩ := List.mem_map.mp hin
          exact absurd heq (hsorted'.1 e (hsuffix.subset he)).ne'
        · intro e he hkey
          cases SortedMap.mem_set he with
          | inr hold => exact absurd hkey hold.2
          | inl hset =>
            rw [hset]
            obtain ⟨hu', -⟩ | ⟨s, hs⟩ := hvalue
            · rw [hu] at hu'
              cases hu'
            · exact ⟨s, by rw [hs]⟩
      | false =>
        have hnext : rest = textAt tail none entries := by
          rw [textAt, findClosingQuote_value, hu, if_neg (by simp)] at hquote
          cases hquote
          rfl
        rw [hnext] at hparse
        obtain ⟨e, he, hesc⟩ := hescaped
        rw [List.mem_cons] at he
        have hlater : ∃ e ∈ entries, endsEscaped e.2 = true := by
          cases he with
          | inl heq =>
            rw [heq, hu] at hesc
            cases hesc
          | inr hin => exact ⟨e, hin, hesc⟩
        obtain ⟨e', he', hboth⟩ := ih hrest hsorted'.2 hlater hparse
        exact ⟨e', List.mem_cons_of_mem _ he', hboth⟩

/-- What an attribute is read as when its quote is found. -/
def readBack (e : WxString × WxString) : WxString × WxString :=
  (e.1, convertEscapedChars (escapeChars e.2))

theorem parseAttributes_of_not_escaped {tail : WxString} (htail : IsTail tail)
    {entries : List (WxString × WxString)} (hnames : NamesOk entries)
    (hplain : ∀ e ∈ entries, endsEscaped e.2 = false) (attributes : SortedMap WxString WxString)
    (hsorted : Ascending (attributes.entries ++ entries)) :
    ∃ result, parseAttributes (textAt tail none entries) attributes = .ok result ∧
      result.entries = attributes.entries ++ entries.map readBack := by
  induction entries generalizing attributes with
  | nil =>
    have hnone := readAttribute_tail htail
    exact ⟨attributes, parseAttributes_of_none hnone _, by simp⟩
  | cons first entries ih =>
    obtain ⟨a, u⟩ := first
    have hu := hplain (a, u) List.mem_cons_self
    have hfront := readAttribute_front tail (hnames (a, u) List.mem_cons_self) u entries
    have hvalue : findClosingQuote false (textAt tail (some u) entries) =
        some (escapeChars u, textAt tail none entries) := by
      rw [textAt_some, findClosingQuote_value, hu, if_neg (by simp)]
    rw [hvalue] at hfront
    rw [parseAttributes_of_some hfront]
    have hlast : ∀ e ∈ attributes.entries, e.1 < a :=
      fun e he => (List.pairwise_append.mp hsorted).2.2 e he (a, u) List.mem_cons_self
    have hset := SortedMap.set_of_last hlast (convertEscapedChars (escapeChars u))
    obtain ⟨result, hresult, hentries⟩ := ih (fun e he => hnames e (List.mem_cons_of_mem _ he))
      (fun e he => hplain e (List.mem_cons_of_mem _ he))
      (attributes.set a (convertEscapedChars (escapeChars u))) (by
        have happend := List.pairwise_append.mp hsorted
        have hcons := List.pairwise_cons.mp happend.2.1
        rw [hset, List.append_assoc, List.singleton_append]
        refine List.pairwise_append.mpr ⟨happend.1, List.pairwise_cons.mpr ⟨hcons.1, hcons.2⟩, ?_⟩
        intro e he e' he'
        rw [List.mem_cons] at he'
        cases he' with
        | inl heq => exact heq ▸ hlast e he
        | inr hin => exact happend.2.2 e he e' (List.mem_cons_of_mem _ hin))
    refine ⟨result, hresult, ?_⟩
    rw [hentries, hset, List.map_cons, List.append_assoc]
    rfl

theorem endsEscaped_of_concat_equals (s : WxString) :
    endsEscaped (convertEscapedChars (s ++ ['='])) = false := by
  rw [convertEscapedChars, ltWord, gtWord, ampWord, quotWord]
  rw [replaceAll_concat (by simp) (by decide), replaceAll_concat (by simp) (by decide),
    replaceAll_concat (by simp) (by decide), replaceAll_concat (by simp) (by decide),
    endsEscaped_concat]
  rfl

/-- The values that come back. -/
def ValueOk (v : WxString) : Prop := endsEscaped v = false ∧ Plain v

/-- The attributes of a tag come back exactly where each value does. -/
theorem parseAttributes_iff {tail : WxString} (htail : IsTail tail)
    {attributes : SortedMap WxString WxString} (hnames : NamesOk attributes.entries) :
    parseAttributes (textAt tail none attributes.entries) .empty = .ok attributes ↔
      ∀ e ∈ attributes.entries, ValueOk e.2 := by
  by_cases hescaped : ∃ e ∈ attributes.entries, endsEscaped e.2 = true
  · constructor
    · intro hparse
      obtain ⟨e, he, hesc, hbehind⟩ := equalsBehind_of_endsEscaped htail hnames attributes.sorted
        hescaped hparse
      obtain ⟨s, hs⟩ := hbehind e he rfl
      rw [hs, endsEscaped_of_concat_equals] at hesc
      cases hesc
    · intro hall
      obtain ⟨e, he, hesc⟩ := hescaped
      rw [(hall e he).1] at hesc
      cases hesc
  · have hplain : ∀ e ∈ attributes.entries, endsEscaped e.2 = false := by
      intro e he
      rw [← Bool.not_eq_true]
      exact fun h => hescaped ⟨e, he, h⟩
    obtain ⟨result, hresult, hentries⟩ := parseAttributes_of_not_escaped htail hnames hplain .empty
      attributes.sorted
    rw [hresult]
    constructor
    · intro heq e he
      cases heq
      -- the entries are their own images
      have hmap : attributes.entries.map readBack = attributes.entries.map id := by
        rw [List.map_id]
        exact hentries.symm
      have he' := List.map_inj_left.mp hmap e he
      exact ⟨hplain e he, (convert_escape_iff e.2).mp (congrArg Prod.snd he')⟩
    · intro hall
      have hmap : attributes.entries.map readBack = attributes.entries.map id := by
        apply List.map_inj_left.mpr
        intro e he
        exact Prod.ext rfl (hall e he).2.convert_escape
      rw [List.map_id] at hmap
      exact congrArg Except.ok (SortedMap.ext (by rw [hentries, hmap]; rfl))

/-! ## The nodes of a file -/

theorem find_append_of_not_mem {c : Char} {w x : WxString} (h : c ∉ x) (s : WxString) :
    find (c :: w) (x ++ s) = (find (c :: w) s).map (fun p => (x ++ p.1, p.2)) := by
  induction x with
  | nil => simp
  | cons y x ih =>
    rw [List.mem_cons, not_or] at h
    have hpre : ¬ (c :: w).isPrefixOf (y :: (x ++ s)) = true := by
      rw [List.isPrefixOf_iff_prefix, List.cons_prefix_cons]
      exact fun hp => h.1 hp.1
    rw [List.cons_append, find, if_neg hpre, ih h.2, Option.map_map]
    rfl

theorem find_front (c : Char) (w s : WxString) :
    find (c :: w) (c :: (w ++ s)) = some ([], c :: (w ++ s)) := by
  rw [find, if_pos]
  rw [List.isPrefixOf_iff_prefix]
  exact List.prefix_append (c :: w) s

theorem findTagEnd_append {x : WxString} (hquote : '"' ∉ x) (happ : '\'' ∉ x) (hgt : '>' ∉ x)
    (s : WxString) :
    findTagEnd none (x ++ s) = (findTagEnd none s).map (fun p => (x ++ p.1, p.2)) := by
  induction x with
  | nil => simp
  | cons c x ih =>
    rw [List.mem_cons, not_or] at hquote happ hgt
    have hc : ¬ (c = '\'' ∨ c = '"') := by
      rintro (h | h)
      · exact happ.1 h.symm
      · exact hquote.1 h.symm
    rw [List.cons_append, findTagEnd, if_neg hc, if_neg (Ne.symm hgt.1), ih hquote.2 happ.2 hgt.2,
      Option.map_map]
    rfl

/-- In quotes nothing but the quote that ends them counts. -/
theorem findTagEnd_quoted {x : WxString} (hquote : '"' ∉ x) (s : WxString) :
    findTagEnd (some '"') (x ++ '"' :: s) =
      (findTagEnd none s).map (fun p => (x ++ '"' :: p.1, p.2)) := by
  induction x with
  | nil => simp [findTagEnd]
  | cons c x ih =>
    rw [List.mem_cons, not_or] at hquote
    rw [List.cons_append, findTagEnd, if_neg (Ne.symm hquote.1), ih hquote.2, Option.map_map]
    rfl

theorem findTagEnd_attributes {entries : List (WxString × WxString)} (hnames : NamesOk entries)
    (s : WxString) :
    findTagEnd none (attributesText entries ++ s) =
      (findTagEnd none s).map (fun p => (attributesText entries ++ p.1, p.2)) := by
  induction entries with
  | nil => simp [attributesText]
  | cons e entries ih =>
    obtain ⟨a, v⟩ := e
    have ha := hnames (a, v) List.mem_cons_self
    have hmem : ∀ c ∈ ['"', '\'', '>'], c ∉ ' ' :: a ++ ['='] := by
      intro c hc hin
      have hno : c ∉ a := ha.not_mem (by revert hc; simp; tauto)
      simp only [List.cons_append, List.mem_cons, List.mem_append, hno, List.not_mem_nil, or_false,
        false_or] at hin
      obtain rfl | rfl := hin <;> revert hc <;> decide
    have htext : attributesText ((a, v) :: entries) ++ s = (' ' :: a ++ ['=']) ++
        '"' :: (escapeChars v ++ '"' :: (attributesText entries ++ s)) := by
      simp [attributesText, attributeText]
    rw [htext, findTagEnd_append (hmem _ (by simp)) (hmem _ (by simp)) (hmem _ (by simp)),
      findTagEnd, if_pos (by simp), findTagEnd_quoted (not_mem_escapeChars (by simp) v),
      ih (fun e he => hnames e (List.mem_cons_of_mem _ he))]
    simp [Option.map_map, Function.comp_def, attributesText, attributeText]

/-- What stands behind the attributes of a written tag. -/
def tailOf (innerText : WxString) : WxString := if innerText.isEmpty then ['/'] else []

theorem isTail_tailOf (innerText : WxString) : IsTail (tailOf innerText) := by
  unfold tailOf
  constructor
  split
  · exact .inr rfl
  · exact .inl rfl

/-- The text from the end of the tag. -/
def fromTagEnd (name innerText rest : WxString) : WxString :=
  '>' :: if innerText.isEmpty then '\n' :: rest
    else escapeChars innerText ++ (closeTag name ++ '\n' :: rest)

/-- The text from `nodePos` when the node is read. -/
def fromNodePos (name innerText rest : WxString) : WxString :=
  if innerText.isEmpty then '>' :: '\n' :: rest else closeTag name ++ '\n' :: rest

theorem writeNode_leaf (level : Nat) (name : WxString) (attributes : SortedMap WxString WxString)
    (innerText rest : WxString) :
    writeNode level ⟨name, attributes, [], innerText⟩ ++ rest =
      List.replicate level '\t' ++ ('<' :: (name ++
        (textAt (tailOf innerText) none attributes.entries ++
          fromTagEnd name innerText rest))) := by
  rw [writeNode, textAt, tailOf, fromTagEnd]
  cases innerText <;> simp

theorem findTagEnd_writeNode {name : WxString} (hname : IsName name)
    {entries : List (WxString × WxString)} (hnames : NamesOk entries) {tail : WxString}
    (htail : IsTail tail) (s : WxString) :
    findTagEnd none ('<' :: (name ++ (textAt tail none entries ++ '>' :: s))) =
      some ('<' :: (name ++ textAt tail none entries), '>' :: s) := by
  have hmem : ∀ c ∈ ['"', '\'', '>'], c ∉ '<' :: name ∧ c ∉ tail := by
    intro c hc
    have hno : c ∉ name := hname.not_mem (by revert hc; simp; tauto)
    constructor
    · rw [List.mem_cons, not_or]
      exact ⟨fun h => by subst h; revert hc; decide, hno⟩
    · exact htail.not_mem (fun h => by subst h; revert hc; decide)
  have hend : findTagEnd none ('>' :: s) = some ([], '>' :: s) := by simp [findTagEnd]
  rw [textAt, List.append_assoc, ← List.cons_append,
    findTagEnd_append (hmem _ (by simp)).1 (hmem _ (by simp)).1 (hmem _ (by simp)).1,
    findTagEnd_attributes hnames,
    findTagEnd_append (hmem _ (by simp)).2 (hmem _ (by simp)).2 (hmem _ (by simp)).2, hend]
  simp

/-- A tag with a tail ends like it, one without ends with a name or a quote. -/
theorem getLast_tag {name : WxString} (hname : IsName name)
    (entries : List (WxString × WxString)) (innerText : WxString) :
    (name ++ textAt (tailOf innerText) none entries).getLast? = some '/' ↔
      innerText.isEmpty = true := by
  have hnameLast : ∀ c, name.getLast? = some c → c ≠ '/' := by
    intro c hc hslash
    exact hname.not_mem (c := '/') (by decide) (hslash ▸ List.mem_of_getLast? hc)
  unfold tailOf textAt
  cases innerText with
  | nil => simp
  | cons c innerText =>
    simp only [List.isEmpty_cons, Bool.false_eq_true, if_false, List.append_nil, iff_false]
    cases entries using List.reverseRecOn with
    | nil =>
      rw [attributesText, List.flatMap_nil, List.append_nil]
      exact fun h => hnameLast _ h rfl
    | append_singleton entries e =>
      have htext : name ++ attributesText (entries ++ [e]) =
          (name ++ attributesText entries ++ ' ' :: e.1 ++ ['=', '"'] ++ escapeChars e.2) ++
            ['"'] := by
        simp [attributesText, attributeText]
      rw [htext, List.getLast?_concat]
      simp

theorem readTag_writeNode {name : WxString} (hname : IsName name)
    (attributes : SortedMap WxString WxString) (innerText rest : WxString) :
    readTag name ('<' :: (name ++ textAt (tailOf innerText) none attributes.entries))
        (fromTagEnd name innerText rest) =
      (parseAttributes (textAt (tailOf innerText) none attributes.entries) .empty).map
        (fun result => (some ⟨name, result, [], convertEscapedChars (escapeChars innerText)⟩,
          fromNodePos name innerText rest)) := by
  have hfits : ¬ (name.length < (name ++ textAt (tailOf innerText) none attributes.entries).length ∧
      (name ++ textAt (tailOf innerText) none attributes.entries)[name.length]? ≠ some ' ' ∧
      (name ++ textAt (tailOf innerText) none attributes.entries)[name.length]? ≠ some '/') := by
    rintro ⟨hlt, hspace, hslash⟩
    rw [List.getElem?_append_right (Nat.le_refl _), Nat.sub_self] at hspace hslash
    cases hentries : attributes.entries with
    | nil =>
      have htext : textAt (tailOf innerText) none [] = tailOf innerText := by
        simp [textAt, attributesText]
      rw [hentries, htext] at hlt hslash
      cases innerText with
      | nil => simp [tailOf] at hslash
      | cons c innerText => simp [tailOf] at hlt
    | cons e entries =>
      obtain ⟨a, v⟩ := e
      rw [hentries, textAt_cons] at hspace
      simp at hspace
  rw [readTag]
  simp only [List.drop_succ_cons, List.drop_zero]
  rw [if_neg hfits, List.drop_left]
  cases parseAttributes (textAt (tailOf innerText) none attributes.entries) .empty with
  | error err => rfl
  | ok result =>
    change (if _ then _ else _) = _
    by_cases hempty : innerText.isEmpty = true
    · rw [if_pos ((getLast_tag hname _ _).mpr hempty), fromTagEnd, fromNodePos, if_pos hempty,
        if_pos hempty, List.isEmpty_iff.mp hempty]
      rfl
    · rw [if_neg (mt (getLast_tag hname _ _).mp hempty), fromTagEnd, fromNodePos, if_neg hempty,
        if_neg hempty]
      have hfind : find (closeTag name) (escapeChars innerText ++ (closeTag name ++ '\n' :: rest)) =
          some (escapeChars innerText, closeTag name ++ '\n' :: rest) := by
        have hfront := find_front '<' ('/' :: name ++ ['>']) ('\n' :: rest)
        have happend := find_append_of_not_mem (w := '/' :: name ++ ['>'])
          (not_mem_escapeChars (.inl rfl) innerText) (closeTag name ++ '\n' :: rest)
        exact happend.trans (by
          change (find ('<' :: ('/' :: name ++ ['>']))
            ('<' :: (('/' :: name ++ ['>']) ++ '\n' :: rest))).map _ = _
          rw [hfront]
          simp [closeTag])
      simp only [List.drop_succ_cons, List.drop_zero, hfind]
      rfl

theorem readNode_writeNode (level : Nat) {name : WxString} (hname : IsName name)
    {attributes : SortedMap WxString WxString} (hnames : NamesOk attributes.entries)
    (innerText rest : WxString) :
    readNode name (writeNode level ⟨name, attributes, [], innerText⟩ ++ rest) =
      (parseAttributes (textAt (tailOf innerText) none attributes.entries) .empty).map
        (fun result => some (some ⟨name, result, [], convertEscapedChars (escapeChars innerText)⟩,
          fromNodePos name innerText rest)) := by
  have hindent : '<' ∉ List.replicate level '\t' := by
    intro hmem
    exact absurd (List.eq_of_mem_replicate hmem) (by decide)
  rw [readNode, writeNode_leaf, find_append_of_not_mem hindent, find_front]
  simp only [Option.map_some]
  have hend : fromTagEnd name innerText rest = '>' :: (fromTagEnd name innerText rest).drop 1 := rfl
  rw [hend, findTagEnd_writeNode hname hnames (isTail_tailOf innerText), ← hend]
  simp only
  rw [readTag_writeNode hname]
  cases parseAttributes (textAt (tailOf innerText) none attributes.entries) .empty <;> rfl

/-- Text in which no node begins is passed over. -/
theorem readNode_of_find {name text text' : WxString} (front : WxString)
    (h : find ('<' :: name) text = (find ('<' :: name) text').map (fun p => (front ++ p.1, p.2))) :
    readNode name text = readNode name text' := by
  rw [readNode, readNode, h]
  cases find ('<' :: name) text' <;> rfl

theorem readNode_fromNodePos {name : WxString} (hname : IsName name) (innerText rest : WxString) :
    readNode name (fromNodePos name innerText rest) = readNode name rest := by
  unfold fromNodePos
  split
  · exact readNode_of_find _ (find_append_of_not_mem (x := ['>', '\n']) (by decide) rest)
  · -- the closing tag begins with `</`
    apply readNode_of_find ('<' :: ('/' :: name ++ ['>', '\n']))
    have hno : '<' ∉ '/' :: name ++ ['>', '\n'] := by
      have hin := hname.not_mem (c := '<') (by decide)
      simp [hin]
    have htext : closeTag name ++ '\n' :: rest =
        '<' :: (('/' :: name ++ ['>', '\n']) ++ rest) := by simp [closeTag]
    have hpre : ¬ ('<' :: name).isPrefixOf
        ('<' :: (('/' :: name ++ ['>', '\n']) ++ rest)) = true := by
      obtain ⟨c, s, hcs⟩ := List.exists_cons_of_ne_nil hname.ne_nil
      rw [List.isPrefixOf_iff_prefix, hcs, List.cons_prefix_cons]
      rintro ⟨-, hpre⟩
      rw [List.cons_append, List.cons_append, List.cons_prefix_cons] at hpre
      exact hname.not_mem (c := '/') (by decide) (by rw [hcs, hpre.1]; exact List.mem_cons_self)
    rw [htext, find, if_neg hpre, find_append_of_not_mem hno, Option.map_map]
    rfl

theorem getNodes_of_none {name text : WxString} (h : readNode name text = .ok none) :
    getNodes name text = .ok [] := by
  rw [getNodes]
  split
  · rename_i heq
    rw [h] at heq
    cases heq
  · rfl
  · rename_i heq
    rw [h] at heq
    cases heq

theorem getNodes_of_error {name text : WxString} {err : XmlError}
    (h : readNode name text = .error err) : getNodes name text = .error err := by
  rw [getNodes]
  split
  · rfl
  · rename_i heq
    rw [h] at heq
    cases heq
  · rename_i heq
    rw [h] at heq
    cases heq

theorem getNodes_of_some {name text rest : WxString} {node : Option XmlNode}
    (h : readNode name text = .ok (some (node, rest))) :
    getNodes name text = (getNodes name rest).map (node.toList ++ ·) := by
  rw [getNodes]
  split
  · rename_i heq
    rw [h] at heq
    cases heq
  · rename_i heq
    rw [h] at heq
    cases heq
  · rename_i heq
    rw [h] at heq
    cases heq
    rfl

theorem getNodes_congr {name text text' : WxString} (h : readNode name text = readNode name text') :
    getNodes name text = getNodes name text' := by
  cases hread : readNode name text' with
  | error err => rw [getNodes_of_error hread, getNodes_of_error (h.trans hread)]
  | ok o =>
    cases o with
    | none => rw [getNodes_of_none hread, getNodes_of_none (h.trans hread)]
    | some p => rw [getNodes_of_some hread, getNodes_of_some (h.trans hread)]

/-- A node of that name without nodes in it, as the program writes them. -/
structure IsLeaf (name : WxString) (node : XmlNode) : Prop where
  name_eq : node.name = name
  innerNodes : node.innerNodes = []
  names : NamesOk node.attributes.entries

/-- The nodes that come back: no `<`, no `>` and no entity of the quote in any text, and no value
    that ends in an odd number of backslashes. -/
structure ComesBack (node : XmlNode) : Prop where
  attributes : ∀ e ∈ node.attributes.entries, ValueOk e.2
  innerText : Plain node.innerText

theorem readNode_blank {name : WxString} : readNode name [] = .ok none := rfl

/-- One node in front: it comes back, and then the others, or not all come back. -/
theorem getNodes_cons (level : Nat) {name : WxString} (hname : IsName name) {node : XmlNode}
    (hleaf : IsLeaf name node) (rest : WxString) (nodes : List XmlNode) :
    getNodes name (writeNode level node ++ rest) = .ok (node :: nodes) ↔
      ComesBack node ∧ getNodes name rest = .ok nodes := by
  obtain ⟨nodeName, attributes, innerNodes, innerText⟩ := node
  obtain ⟨rfl, rfl, hnames⟩ := hleaf
  have hread := readNode_writeNode level hname hnames innerText rest
  have hiff := parseAttributes_iff (isTail_tailOf innerText) hnames
  cases hparse : parseAttributes (textAt (tailOf innerText) none attributes.entries) .empty with
  | error err =>
    rw [hparse] at hread hiff
    rw [getNodes_of_error hread]
    constructor
    · intro h
      cases h
    · intro h
      cases hiff.mpr h.1.attributes
  | ok result =>
    rw [hparse] at hread hiff
    rw [getNodes_of_some hread, getNodes_congr (readNode_fromNodePos hname innerText rest)]
    cases getNodes nodeName rest with
    | error err =>
      constructor
      · intro h
        cases h
      · intro h
        cases h.2
    | ok others =>
      change Except.ok (_ :: others) = Except.ok _ ↔ _
      rw [Except.ok.injEq, List.cons.injEq, XmlNode.mk.injEq, Except.ok.injEq]
      constructor
      · rintro ⟨⟨-, hattributes, -, htext⟩, hothers⟩
        exact ⟨⟨hiff.mp (congrArg Except.ok hattributes), (convert_escape_iff innerText).mp htext⟩,
          hothers⟩
      · rintro ⟨⟨hattributes, htext⟩, hothers⟩
        have hresult := hiff.mpr hattributes
        rw [Except.ok.injEq] at hresult
        exact ⟨⟨rfl, hresult, rfl, htext.convert_escape⟩, hothers⟩

theorem getNodes_writeNodesAt (level : Nat) {name : WxString} (hname : IsName name)
    (nodes : List XmlNode) (hleaf : ∀ node ∈ nodes, IsLeaf name node) :
    getNodes name (writeNodesAt level nodes) = .ok nodes ↔ ∀ node ∈ nodes, ComesBack node := by
  induction nodes with
  | nil =>
    rw [writeNodesAt, getNodes_of_none readNode_blank]
    simp
  | cons node nodes ih =>
    rw [writeNodesAt, getNodes_cons level hname (hleaf node List.mem_cons_self),
      ih (fun n hn => hleaf n (List.mem_cons_of_mem _ hn)), List.forall_mem_cons]

/-- What is written comes back exactly when the texts of all nodes are such. -/
theorem getNodes_writeNodes_iff (currentIndentLevel : Nat) {name : WxString} (hname : IsName name)
    (nodes : List XmlNode) (hleaf : ∀ node ∈ nodes, IsLeaf name node) :
    getNodes name (writeNodes currentIndentLevel nodes) = .ok nodes ↔
      ∀ node ∈ nodes, ComesBack node :=
  getNodes_writeNodesAt (currentIndentLevel + 1) hname nodes hleaf

/-- A node `v` with an attribute `a`. -/
def nodeOf (value innerText : WxString) : XmlNode where
  name := ['v']
  attributes := ⟨[(['a'], value)], List.pairwise_singleton _ _⟩
  innerNodes := []
  innerText := innerText

theorem isName_singleton {c : Char}
    (h : isSpace c = false ∧ c ∉ ['<', '>', '"', '\'', '=', '/']) : IsName [c] where
  ne_nil := by simp
  chars := by
    intro x hx
    rw [List.mem_singleton.mp hx]
    exact h

theorem isLeaf_nodeOf (value innerText : WxString) : IsLeaf ['v'] (nodeOf value innerText) where
  name_eq := rfl
  innerNodes := rfl
  names := by
    intro e he
    rw [List.mem_singleton.mp he]
    exact isName_singleton (by decide)

theorem getNodes_writeNodes_demo :
    getNodes ['v'] (writeNodes 0 [nodeOf ['x', '&'] ['"']]) = .ok [nodeOf ['x', '&'] ['"']] ↔
      ∀ node ∈ [nodeOf ['x', '&'] ['"']], ComesBack node :=
  getNodes_writeNodes_iff 0 (isName_singleton (by decide)) [nodeOf ['x', '&'] ['"']] (by
    intro node hnode
    rw [List.mem_singleton.mp hnode]
    exact isLeaf_nodeOf _ _)

/-- A value `<` is written as `&amp;lt;`, and read as `&lt;`. -/
theorem less_than_does_not_come_back :
    ¬ getNodes ['v'] (writeNodes 0 [nodeOf ['<'] []]) = .ok [nodeOf ['<'] []] := by
  intro h
  have hall := (getNodes_writeNodesAt 1 (isName_singleton (by decide)) [nodeOf ['<'] []] (by
    intro node hnode
    rw [List.mem_singleton.mp hnode]
    exact isLeaf_nodeOf _ _)).mp h
  have hvalue := (hall _ List.mem_cons_self).attributes _ List.mem_cons_self
  exact hvalue.2.lt List.mem_cons_self

end XmlFile
end VeraCrypt
