import Mathlib.Data.List.Basic
import Mathlib.Data.List.ModifyLast

/-!
# Keyfile lists of the command line (`CommandLineInterface::ToKeyfileList`)

Names are separated by commas, and a comma of a name is written twice. The parser cuts the
argument at every comma and puts the tokens together again: an empty token is a doubled comma,
and what it remembers between two tokens is whether the last one was empty.

A name that ends in a comma is where this memory is too short. The token after it starts a new
name, and the parser takes it with `prevEmpty` still set; what follows, be it a comma of this
name or the next name, is read as if it stood behind a doubled comma. So the names come back
when such a name is the last one, or the one before a last name without commas, and in no other
case (`toKeyfileList_writeNames_iff`).
-/

set_option autoImplicit false

namespace VeraCrypt

namespace CommandLineInterface

/-- A `wxString`. An argument holds no null character, so `wc_str ()` is the whole of it. -/
abbrev WxString := List Char

/-- The tokens of a `wxStringTokenizer` with `wxTOKEN_RET_EMPTY_ALL`. -/
def tokenize (arg : WxString) : List WxString := if arg = [] then [] else arg.splitOn ','

/-- The end of a round of the loop: what a token does to `arr` and `prevEmpty`, or `none` where
    the loop is left. -/
def takeToken (hasMoreTokens : Bool) (token : WxString) (arr : List WxString)
    (prevEmpty : Bool) : Option (List WxString × Bool) :=
  if token.isEmpty && !hasMoreTokens then none
  else if prevEmpty || token.isEmpty then
    if arr.isEmpty then some ([[]], prevEmpty)
    else some (arr.modifyLast (· ++ if token.isEmpty then [','] else token), token.isEmpty)
  else some (arr ++ [token], false)

/-- The loop, with the tokens that are left. -/
def joinTokens : List WxString → List WxString → Bool → List WxString
  | [], arr, _ => arr
  | token :: tokens, arr, prevEmpty =>
    match prevEmpty && token.isEmpty, tokens with
    | true, token' :: tokens' =>
      if !token'.isEmpty then joinTokens tokens' (arr ++ [token']) true
      else
        match takeToken (!tokens'.isEmpty) token' arr prevEmpty with
        | none => arr
        | some (arr', prevEmpty') => joinTokens tokens' arr' prevEmpty'
    | _, tokens =>
      match takeToken (!tokens.isEmpty) token arr prevEmpty with
      | none => arr
      | some (arr', prevEmpty') => joinTokens tokens arr' prevEmpty'

/-- `ToKeyfileList`: the paths of the keyfiles. -/
def toKeyfileList (arg : WxString) : List WxString :=
  (joinTokens (tokenize arg) [] false).filter (!·.isEmpty)

/-! ## Writing a list of names -/

/-- A name with each of its commas doubled. -/
def escapeName (name : WxString) : WxString :=
  name.flatMap (fun ch => if ch = ',' then [',', ','] else [ch])

/-- The names, separated by single commas. -/
def writeNames : List WxString → WxString
  | [] => []
  | [name] => escapeName name
  | name :: names => escapeName name ++ ',' :: writeNames names

/-- No name ends in a comma but the last one, or the one in front of a last name without commas. -/
def Separable : List WxString → Prop
  | name :: next :: names =>
    (name.getLast? = some ',' → ',' ∉ next ∧ names = []) ∧ Separable (next :: names)
  | _ => True

/-! ## The rounds of the loop -/

section
variable {arr tokens : List WxString} {a t : WxString}

theorem joinTokens_add (ht : t ≠ []) :
    joinTokens (t :: tokens) arr false = joinTokens tokens (arr ++ [t]) false := by
  simp [joinTokens, takeToken, ht]

example : joinTokens [['b']] [['a']] false = [['a'], ['b']] := by
  simp [joinTokens, takeToken]

theorem joinTokens_extend (ht : t ≠ []) :
    joinTokens (t :: tokens) (arr ++ [a]) true = joinTokens tokens (arr ++ [a ++ t]) false := by
  have htok : t.isEmpty = false := by simp [ht]
  simp [joinTokens, takeToken, htok, List.modifyLast_concat]

theorem joinTokens_comma (hmore : tokens ≠ []) :
    joinTokens ([] :: tokens) (arr ++ [a]) false =
      joinTokens tokens (arr ++ [a ++ [',']]) true := by
  simp [joinTokens, takeToken, hmore, List.modifyLast_concat]

theorem joinTokens_end (prevEmpty : Bool) : joinTokens [[]] arr prevEmpty = arr := by
  cases prevEmpty <;> simp [joinTokens, takeToken]

/-- Behind a doubled comma an empty token and one that is not: the second is taken as a name. -/
theorem joinTokens_next (ht : t ≠ []) :
    joinTokens ([] :: t :: tokens) arr true = joinTokens tokens (arr ++ [t]) true := by
  simp [joinTokens, ht]

theorem joinTokens_next_comma (hmore : tokens ≠ []) :
    joinTokens ([] :: [] :: tokens) (arr ++ [a]) true =
      joinTokens tokens (arr ++ [a ++ [',']]) true := by
  simp [joinTokens, takeToken, hmore, List.modifyLast_concat]

theorem joinTokens_next_end : joinTokens [[], []] arr true = arr := by
  simp [joinTokens, takeToken]

end

/-- The elements in front of the last one are settled, the last one only grows, and what comes
    after it is never empty. -/
theorem joinTokens_grows (tokens : List WxString) (arr : List WxString) {a : WxString}
    (ha : a ≠ []) (prevEmpty : Bool) :
    ∃ x more, joinTokens tokens (arr ++ [a]) prevEmpty = arr ++ (a ++ x) :: more ∧
      ∀ m ∈ more, m ≠ [] := by
  induction h : tokens.length using Nat.strongRecOn generalizing tokens arr a prevEmpty with
  | ind n ih =>
    have hadd : ∀ (t : WxString) (rest : List WxString) (p : Bool), t ≠ [] → rest.length < n →
        ∃ x more, joinTokens rest (arr ++ [a] ++ [t]) p = arr ++ (a ++ x) :: more ∧
          ∀ m ∈ more, m ≠ [] := by
      intro t rest p ht hlt
      obtain ⟨x, more, heq, hmore⟩ := ih rest.length hlt rest (arr ++ [a]) ht p rfl
      refine ⟨[], (t ++ x) :: more, by simpa using heq, ?_⟩
      intro m hm
      rcases List.mem_cons.mp hm with rfl | hm
      · simp [ht]
      · exact hmore m hm
    have hextend : ∀ (y : WxString) (rest : List WxString) (p : Bool), rest.length < n →
        ∃ x more, joinTokens rest (arr ++ [a ++ y]) p = arr ++ (a ++ x) :: more ∧
          ∀ m ∈ more, m ≠ [] := by
      intro y rest p hlt
      obtain ⟨x, more, heq, hmore⟩ := ih rest.length hlt rest arr (a := a ++ y) (by simp [ha]) p rfl
      exact ⟨y ++ x, more, by rw [heq, List.append_assoc], hmore⟩
    have hstop : ∃ x more, arr ++ [a] = arr ++ (a ++ x) :: more ∧ ∀ m ∈ more, m ≠ [] :=
      ⟨[], [], by simp, by simp⟩
    cases tokens with
    | nil => exact hstop
    | cons t rest =>
      rw [List.length_cons] at h
      by_cases ht : t = []
      · subst ht
        cases rest with
        | nil =>
          rw [joinTokens_end]
          exact hstop
        | cons t' rest' =>
          cases prevEmpty with
          | false =>
            rw [joinTokens_comma (by simp)]
            exact hextend _ _ _ (by omega)
          | true =>
            rw [List.length_cons] at h
            by_cases ht' : t' = []
            · subst ht'
              by_cases hend : rest' = []
              · rw [hend, joinTokens_next_end]
                exact hstop
              · rw [joinTokens_next_comma hend]
                exact hextend _ _ _ (by omega)
            · rw [joinTokens_next ht']
              exact hadd t' rest' true ht' (by omega)
      · cases prevEmpty with
        | false =>
          rw [joinTokens_add ht]
          exact hadd t rest false ht (by omega)
        | true =>
          rw [joinTokens_extend ht]
          exact hextend t rest false (by omega)

/-! ## The tokens of a name -/

/-- A name from the pieces between its commas. -/
def ofPieces (p : WxString) (qs : List WxString) : WxString := p ++ qs.flatMap (',' :: ·)

/-- What stands behind the first token of an escaped name. -/
def pieceTokens (qs : List WxString) : List WxString := qs.flatMap (fun q => [[], q])

@[simp] theorem ofPieces_nil (p : WxString) : ofPieces p [] = p := by simp [ofPieces]

theorem ofPieces_cons (p q : WxString) (qs : List WxString) :
    ofPieces p (q :: qs) = p ++ ',' :: ofPieces q qs := by
  simp [ofPieces]

@[simp] theorem pieceTokens_nil : pieceTokens [] = [] := rfl

@[simp] theorem pieceTokens_cons (q : WxString) (qs : List WxString) :
    pieceTokens (q :: qs) = [] :: q :: pieceTokens qs := rfl

theorem exists_pieces (name : WxString) :
    ∃ p qs, ',' ∉ p ∧ (∀ q ∈ qs, ',' ∉ q) ∧ name = ofPieces p qs := by
  induction name with
  | nil => exact ⟨[], [], by simp, by simp, rfl⟩
  | cons ch name ih =>
    obtain ⟨p, qs, hp, hqs, rfl⟩ := ih
    by_cases hch : ch = ','
    · refine ⟨[], p :: qs, by simp, ?_, by rw [hch, ofPieces_cons, List.nil_append]⟩
      intro q hq
      rcases List.mem_cons.mp hq with rfl | hq
      · exact hp
      · exact hqs q hq
    · refine ⟨ch :: p, qs, ?_, hqs, rfl⟩
      simp [hp, Ne.symm hch]

theorem escapeName_append (x y : WxString) :
    escapeName (x ++ y) = escapeName x ++ escapeName y := by
  simp [escapeName]

theorem escapeName_of_not_mem {p : WxString} (h : ',' ∉ p) : escapeName p = p := by
  induction p with
  | nil => rfl
  | cons ch p ih =>
    simp only [List.mem_cons, not_or] at h
    have hrest : escapeName (ch :: p) = ch :: escapeName p := by
      simp [escapeName, Ne.symm h.1]
    rw [hrest, ih h.2]

theorem splitOn_escapeName {p : WxString} {qs : List WxString} (hp : ',' ∉ p)
    (hqs : ∀ q ∈ qs, ',' ∉ q) :
    (escapeName (ofPieces p qs)).splitOn ',' = p :: pieceTokens qs := by
  induction qs generalizing p with
  | nil => rw [ofPieces_nil, escapeName_of_not_mem hp, List.splitOn_eq_singleton hp, pieceTokens_nil]
  | cons q qs ih =>
    have hq := hqs q (by simp)
    have hrest := ih hq (fun r hr => hqs r (by simp [hr]))
    have hcomma : escapeName (',' :: ofPieces q qs) = ',' :: ',' :: escapeName (ofPieces q qs) := rfl
    rw [ofPieces_cons, escapeName_append, escapeName_of_not_mem hp, hcomma,
      List.splitOn_append_cons_self_of_not_mem hp, ← List.nil_append (',' :: escapeName _),
      List.splitOn_append_cons_self_of_not_mem (by simp), hrest, pieceTokens_cons]

/-- The last piece is empty exactly when the name ends in a comma. -/
theorem getLast?_ofPieces {p : WxString} {qs : List WxString} (hp : ',' ∉ p)
    (hqs : ∀ q ∈ qs, ',' ∉ q) :
    (ofPieces p qs).getLast? = some ',' ↔ qs.getLast? = some [] := by
  induction qs generalizing p with
  | nil =>
    simp only [ofPieces_nil, List.getLast?_nil, reduceCtorEq, iff_false]
    intro h
    exact hp (List.mem_of_getLast? h)
  | cons q qs ih =>
    have hq := hqs q (by simp)
    have hrest := ih hq (fun r hr => hqs r (by simp [hr]))
    have hlast : (p ++ ',' :: ofPieces q qs).getLast? = (',' :: ofPieces q qs).getLast? := by
      simp [List.getLast?_append, List.getLast?_cons]
    rw [ofPieces_cons, hlast]
    cases qs with
    | nil =>
      rw [ofPieces_nil, List.getLast?_singleton]
      cases q with
      | nil => simp
      | cons ch q =>
        rw [List.getLast?_cons_cons]
        simp only [Option.some.injEq, reduceCtorEq, iff_false]
        intro h
        exact hq (List.mem_of_getLast? h)
    | cons r qs =>
      have hne : ofPieces q (r :: qs) ≠ [] := by simp [ofPieces_cons]
      rw [List.getLast?_cons_cons, ← hrest]
      obtain ⟨ch, tail, heq⟩ := List.exists_cons_of_ne_nil hne
      rw [heq, List.getLast?_cons_cons]

/-- The tokens of an escaped name. -/
def nameTokens (name : WxString) : List WxString := (escapeName name).splitOn ','

theorem tokenize_writeNames {names : List WxString} (h : ∀ name ∈ names, name ≠ []) :
    tokenize (writeNames names) = names.flatMap nameTokens := by
  have hescape : ∀ name : WxString, name ≠ [] → escapeName name ≠ [] := by
    intro name hne
    obtain ⟨ch, tail, rfl⟩ := List.exists_cons_of_ne_nil hne
    by_cases hch : ch = ',' <;> simp [escapeName, hch]
  have hwritten : ∀ name names', names = name :: names' → writeNames names ≠ [] := by
    rintro name names' rfl
    cases names' with
    | nil => exact hescape name (h name (by simp))
    | cons next names' => simp [writeNames]
  have hsplit : ∀ l : List WxString, l ≠ [] →
      (writeNames l).splitOn ',' = l.flatMap nameTokens := by
    intro l hl
    induction l with
    | nil => exact absurd rfl hl
    | cons name l ih =>
      cases l with
      | nil => simp [writeNames, nameTokens]
      | cons next l =>
        have hcons : writeNames (name :: next :: l) =
            escapeName name ++ ',' :: writeNames (next :: l) := rfl
        rw [hcons, List.splitOn_append_cons_self, ih (by simp), List.flatMap_cons (x := name),
          nameTokens]
  unfold tokenize
  cases names with
  | nil => rfl
  | cons name names =>
    rw [if_neg (hwritten name names rfl)]
    exact hsplit _ (by simp)

/-! ## What becomes of a name -/

/-- The loop behind a name: with its last piece not empty it goes on, and with an empty last piece
    the next token becomes a name. -/
def resume (endsInComma : Bool) (tokens arr : List WxString) : List WxString :=
  match endsInComma, tokens with
  | false, tokens => joinTokens tokens arr false
  | true, [] => arr
  | true, token :: tokens => joinTokens tokens (arr ++ [token]) true

/-- The pieces of a name, from the last element of `arr` on: behind a piece (the first part), and
    behind a doubled comma (the second). -/
theorem joinTokens_pieces (qs : List WxString) {tokens : List WxString}
    (htokens : ∀ t ∈ tokens.head?, t ≠ []) (arr : List WxString) (a : WxString) :
    joinTokens (pieceTokens qs ++ tokens) (arr ++ [a]) false =
        resume (qs.getLast? == some []) tokens (arr ++ [ofPieces a qs]) ∧
      ∀ q, joinTokens (q :: (pieceTokens qs ++ tokens)) (arr ++ [a]) true =
        resume ((q :: qs).getLast? == some []) tokens (arr ++ [a ++ ofPieces q qs]) := by
  induction qs generalizing a with
  | nil =>
    refine ⟨by simp [resume], ?_⟩
    intro q
    cases q with
    | cons ch q =>
      rw [joinTokens_extend (by simp)]
      simp [resume]
    | nil =>
      cases tokens with
      | nil => simp [joinTokens_end, resume]
      | cons t tokens =>
        have ht : t ≠ [] := htokens t (by simp)
        simp [joinTokens_next ht, resume]
  | cons r qs ih =>
    have hfirst : ∀ a, joinTokens (pieceTokens (r :: qs) ++ tokens) (arr ++ [a]) false =
        resume ((r :: qs).getLast? == some []) tokens (arr ++ [ofPieces a (r :: qs)]) := by
      intro a
      rw [pieceTokens_cons, List.cons_append, List.cons_append, joinTokens_comma (by simp),
        (ih (a ++ [','])).2 r, ofPieces_cons]
      simp
    refine ⟨hfirst a, ?_⟩
    intro q
    cases q with
    | cons ch q =>
      rw [joinTokens_extend (by simp), hfirst (a ++ ch :: q)]
      simp [ofPieces]
    | nil =>
      rw [pieceTokens_cons, List.cons_append, List.cons_append, joinTokens_next_comma (by simp),
        (ih (a ++ [','])).2 r, ofPieces_cons]
      simp

/-- Behind a first piece taken with `prevEmpty` set, the name comes out wrong if it has a comma
    or if a name follows. -/
theorem joinTokens_lost (qs : List WxString) {tokens : List WxString}
    (htokens : ∀ t ∈ tokens.head?, t ≠ []) (hrest : qs ≠ [] ∨ tokens ≠ []) (arr : List WxString)
    {a : WxString} (ha : a ≠ []) :
    ∃ y more, joinTokens (pieceTokens qs ++ tokens) (arr ++ [a]) true = arr ++ y :: more ∧
      y ≠ [] ∧ (∀ m ∈ more, m ≠ []) ∧ y ≠ ofPieces a qs := by
  induction qs generalizing a with
  | nil =>
    -- the next name is appended to this one
    obtain ⟨t, tokens, rfl⟩ := List.exists_cons_of_ne_nil (hrest.resolve_left (by simp))
    have ht : t ≠ [] := htokens t (by simp)
    obtain ⟨x, more, heq, hmore⟩ := joinTokens_grows tokens arr (a := a ++ t) (by simp [ha]) false
    refine ⟨a ++ t ++ x, more, ?_, by simp [ha], hmore, by simp [ht]⟩
    rw [pieceTokens_nil, List.nil_append, joinTokens_extend ht, heq]
  | cons q qs ih =>
    have hlonger : a ≠ ofPieces a (q :: qs) := by simp [ofPieces_cons]
    by_cases hq : q = []
    · subst hq
      by_cases hend : pieceTokens qs ++ tokens = []
      · -- a last comma is dropped
        refine ⟨a, [], ?_, ha, by simp, hlonger⟩
        rw [pieceTokens_cons, List.cons_append, List.cons_append, hend, joinTokens_next_end]
      · -- one comma for two: the same again, one piece further
        have hmore : qs ≠ [] ∨ tokens ≠ [] := by
          cases qs with
          | nil => simpa using hend
          | cons r qs => simp
        obtain ⟨y, more, heq, hy, hall, hne⟩ := ih hmore (a := a ++ [',']) (by simp)
        refine ⟨y, more, ?_, hy, hall, ?_⟩
        · rw [pieceTokens_cons, List.cons_append, List.cons_append, joinTokens_next_comma hend, heq]
        · simpa [ofPieces] using hne
    · -- the piece behind the comma becomes a name
      obtain ⟨x, more, heq, hmore⟩ :=
        joinTokens_grows (pieceTokens qs ++ tokens) (arr ++ [a]) hq true
      refine ⟨a, (q ++ x) :: more, ?_, ha, ?_, hlonger⟩
      · rw [pieceTokens_cons, List.cons_append, List.cons_append, joinTokens_next hq, heq]
        simp
      · intro m hm
        rcases List.mem_cons.mp hm with rfl | hm
        · simp [hq]
        · exact hmore m hm

/-- A name in its pieces: the first is not empty where the name does not begin with a comma. -/
theorem exists_pieces_of_name {name : WxString} (hne : name ≠ []) (hhead : name.head? ≠ some ',') :
    ∃ p qs, p ≠ [] ∧ name = ofPieces p qs ∧ (',' ∈ name ↔ qs ≠ []) ∧
      (name.getLast? = some ',' ↔ qs.getLast? = some []) ∧
      nameTokens name = p :: pieceTokens qs := by
  obtain ⟨p, qs, hp, hqs, rfl⟩ := exists_pieces name
  refine ⟨p, qs, ?_, rfl, ?_, getLast?_ofPieces hp hqs, splitOn_escapeName hp hqs⟩
  · rintro rfl
    cases qs with
    | nil => exact hne rfl
    | cons q qs => exact hhead (by simp [ofPieces_cons])
  · cases qs with
    | nil => simp [hp]
    | cons q qs => simp [ofPieces_cons]

theorem head_nameTokens {names : List WxString} (hne : ∀ name ∈ names, name ≠ [])
    (hhead : ∀ name ∈ names, name.head? ≠ some ',') :
    ∀ t ∈ (names.flatMap nameTokens).head?, t ≠ [] := by
  cases names with
  | nil => simp
  | cons name names =>
    obtain ⟨p, qs, hp, -, -, -, hsplit⟩ :=
      exists_pieces_of_name (hne name (by simp)) (hhead name (by simp))
    simp [hsplit, hp]

theorem filter_names {l : List WxString} (h : ∀ m ∈ l, m ≠ []) : l.filter (!·.isEmpty) = l :=
  List.filter_eq_self.mpr (fun m hm => by simp [h m hm])

theorem settled_append {arr l : List WxString} (harr : ∀ m ∈ arr, m ≠ []) (hl : ∀ m ∈ l, m ≠ []) :
    ∀ m ∈ arr ++ l, m ≠ [] := by
  intro m hm
  rcases List.mem_append.mp hm with hm | hm
  · exact harr m hm
  · exact hl m hm

/-- Behind a name that ends in a comma the rest is read right when it is one name without commas. -/
theorem resume_names {next : WxString} {names : List WxString}
    (hne : ∀ name ∈ next :: names, name ≠ [])
    (hhead : ∀ name ∈ next :: names, name.head? ≠ some ',') {arr : List WxString}
    (harr : ∀ name ∈ arr, name ≠ []) :
    (resume true ((next :: names).flatMap nameTokens) arr).filter (!·.isEmpty) =
        arr ++ next :: names ↔ ',' ∉ next ∧ names = [] := by
  obtain ⟨p, qs, hp, hnext, hmem, -, hsplit⟩ :=
    exists_pieces_of_name (hne next (by simp)) (hhead next (by simp))
  have hresume : resume true ((next :: names).flatMap nameTokens) arr =
      joinTokens (pieceTokens qs ++ names.flatMap nameTokens) (arr ++ [p]) true := by
    rw [List.flatMap_cons, hsplit]
    rfl
  have hsettled := settled_append harr (l := [p]) (by simp [hp])
  rw [hresume]
  by_cases hgood : qs = [] ∧ names = []
  · obtain ⟨rfl, rfl⟩ := hgood
    have hall : joinTokens (pieceTokens [] ++ [].flatMap nameTokens) (arr ++ [p]) true =
        arr ++ [p] := rfl
    rw [ofPieces_nil] at hnext
    rw [hall, filter_names hsettled, hnext]
    simp [← hnext, hmem]
  · have hbad : ¬(',' ∉ next ∧ names = []) := by
      rintro ⟨hfree, hend⟩
      exact hgood ⟨by_contra fun h => hfree (hmem.mpr h), hend⟩
    have hafter : qs ≠ [] ∨ names.flatMap nameTokens ≠ [] := by
      cases names with
      | nil => exact Or.inl (fun h => hgood ⟨h, rfl⟩)
      | cons m names => exact Or.inr (by simp [nameTokens])
    have htail := head_nameTokens (fun m hm => hne m (List.mem_cons_of_mem _ hm))
      (fun m hm => hhead m (List.mem_cons_of_mem _ hm))
    obtain ⟨y, more, heq, hy, hmore, hne'⟩ := joinTokens_lost qs htail hafter arr hp
    have hfull := settled_append harr (l := y :: more) (by simpa [hy] using hmore)
    rw [← hnext] at hne'
    rw [heq, filter_names hfull]
    simp [hbad, hne']

/-- The names of a list, from any names that are already settled. -/
theorem joinTokens_names {names : List WxString} (hne : ∀ name ∈ names, name ≠ [])
    (hhead : ∀ name ∈ names, name.head? ≠ some ',') {arr : List WxString}
    (harr : ∀ name ∈ arr, name ≠ []) :
    (joinTokens (names.flatMap nameTokens) arr false).filter (!·.isEmpty) = arr ++ names ↔
      Separable names := by
  induction names generalizing arr with
  | nil => simp [joinTokens, Separable, filter_names harr]
  | cons name names ih =>
    obtain ⟨p, qs, hp, hname, -, hlast, hsplit⟩ :=
      exists_pieces_of_name (hne name (by simp)) (hhead name (by simp))
    have hrestne : ∀ m ∈ names, m ≠ [] := fun m hm => hne m (by simp [hm])
    have hresthead : ∀ m ∈ names, m.head? ≠ some ',' := fun m hm => hhead m (by simp [hm])
    have hsettled := settled_append harr (l := [name]) (by simp [hne name (by simp)])
    rw [List.flatMap_cons, hsplit, List.cons_append, joinTokens_add hp,
      (joinTokens_pieces qs (head_nameTokens hrestne hresthead) arr p).1, ← hname,
      List.append_cons arr name names]
    cases hcomma : qs.getLast? == some [] with
    | false =>
      -- the name is complete, and the loop goes on as from the start
      have hnot : name.getLast? ≠ some ',' := by
        rw [Ne, hlast]
        simpa using hcomma
      have hiff : Separable (name :: names) ↔ Separable names := by
        cases names with
        | nil => simp [Separable]
        | cons next names => simp [Separable, hnot]
      exact (ih hrestne hresthead hsettled).trans hiff.symm
    | true =>
      have hends : name.getLast? = some ',' := hlast.mpr (by simpa using hcomma)
      cases names with
      | nil => simp [resume, Separable, filter_names hsettled]
      | cons next names =>
        rw [resume_names hrestne hresthead hsettled]
        constructor
        · rintro ⟨hfree, rfl⟩
          simp [Separable, hfree]
        · intro hsep
          exact hsep.1 hends

/-- **Keyfile lists.** Names that do not begin with a comma, written with their commas doubled,
    come back from `ToKeyfileList` exactly when they are `Separable`. -/
theorem toKeyfileList_writeNames_iff (names : List WxString) (hne : ∀ name ∈ names, name ≠ [])
    (hhead : ∀ name ∈ names, name.head? ≠ some ',') :
    toKeyfileList (writeNames names) = names ↔ Separable names := by
  unfold toKeyfileList
  rw [tokenize_writeNames hne]
  exact joinTokens_names hne hhead (by simp)

theorem toKeyfileList_writeNames_iff_demo :
    toKeyfileList (writeNames [['a', ','], ['b']]) = [['a', ','], ['b']] ↔
      Separable [['a', ','], ['b']] :=
  toKeyfileList_writeNames_iff [['a', ','], ['b']] (by decide) (by decide)

/-- Three names, the first of which ends in a comma: the other two come back as one. -/
theorem toKeyfileList_writeNames_merged :
    toKeyfileList (writeNames [['a', ','], ['b'], ['c']]) = [['a', ','], ['b', 'c']] ∧
      toKeyfileList (writeNames [['a', ','], ['b'], ['c']]) ≠ [['a', ','], ['b'], ['c']] := by
  decide

end CommandLineInterface

end VeraCrypt
