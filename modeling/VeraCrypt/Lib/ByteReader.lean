import VeraCrypt.Lib.Except

/-!
# Readers of a byte stream

A reader takes bytes from the front of a stream and gives a value, or stops. Three things are said
of readers and go through a chain of them: that one takes what was written and gives the value it
was written for (`Reads`), that what one gives depends on the bytes it has taken and on no others
(`TakesOnly`), and for which streams it does not stop for a given reason (`bind_ne_error`).
-/

set_option autoImplicit false

namespace VeraCrypt
namespace Lib

abbrev ByteReader (ε α : Type) := StateT (List UInt8) (Except (ε × List UInt8)) α

namespace ByteReader

variable {ε α β : Type}

def stop (e : ε) : ByteReader ε α := fun s => .error (e, s)

/-- A block whose exceptions are caught, those that `caught` tells of: `none` where there was one. -/
def attempt (caught : ε → Bool) (r : ByteReader ε α) : ByteReader ε (Option α) := fun s =>
  match r.run s with
  | .ok (a, rest) => .ok (some a, rest)
  | .error (e, left) => if caught e then .ok (none, left) else .error (e, left)

theorem run_bind (r : ByteReader ε α) (f : α → ByteReader ε β) (s : List UInt8) :
    (r >>= f).run s = r.run s >>= fun p => (f p.1).run p.2 := rfl

theorem run_pure (a : α) (s : List UInt8) : (pure a : ByteReader ε α).run s = .ok (a, s) := rfl

theorem run_stop (e : ε) (s : List UInt8) : (stop e : ByteReader ε α).run s = .error (e, s) := rfl

theorem pure_ok_iff {a b : α} {s rest : List UInt8} :
    (pure a : ByteReader ε α).run s = .ok (b, rest) ↔ a = b ∧ s = rest := by
  rw [run_pure]
  simp

theorem stop_ne_ok {e : ε} {a : α} {s rest : List UInt8} :
    (stop e : ByteReader ε α).run s ≠ .ok (a, rest) := by
  rw [run_stop]
  simp

/-- What a chain that gave a value says of its first step and of the rest. -/
theorem bind_ok_iff {r : ByteReader ε α} {f : α → ByteReader ε β} {s rest : List UInt8} {b : β} :
    (r >>= f).run s = .ok (b, rest) ↔
      ∃ a mid, r.run s = .ok (a, mid) ∧ (f a).run mid = .ok (b, rest) := by
  rw [run_bind, bind_eq_ok]
  constructor
  · rintro ⟨⟨a, mid⟩, h, h'⟩
    exact ⟨a, mid, h, h'⟩
  · rintro ⟨a, mid, h, h'⟩
    exact ⟨(a, mid), h, h'⟩

/-! ## What was written is read -/

/-- From any stream that begins with `w` the reader takes `w` and gives `a`. -/
def Reads (r : ByteReader ε α) (w : List UInt8) (a : α) : Prop :=
  ∀ rest, r.run (w ++ rest) = .ok (a, rest)

theorem reads_pure (a : α) : Reads (pure a : ByteReader ε α) [] a := fun _ => rfl

theorem Reads.bind {r : ByteReader ε α} {f : α → ByteReader ε β} {w w' : List UInt8} {a : α} {b : β}
    (h : Reads r w a) (h' : Reads (f a) w' b) : Reads (r >>= f) (w ++ w') b := by
  intro rest
  rw [run_bind, List.append_assoc, h (w' ++ rest)]
  exact h' rest

/-- From a stream that begins with `w` the reader takes `w` and gives `a` where `cond` holds, and
    gives nothing where it does not. -/
def ReadsIf (cond : Prop) (r : ByteReader ε α) (w : List UInt8) (a : α) : Prop :=
  ∀ rest b rest', r.run (w ++ rest) = .ok (b, rest') ↔ cond ∧ b = a ∧ rest' = rest

theorem ReadsIf.bind {cond cond' : Prop} {r : ByteReader ε α} {f : α → ByteReader ε β}
    {w w' : List UInt8} {a : α} {b : β} (h : ReadsIf cond r w a) (h' : ReadsIf cond' (f a) w' b) :
    ReadsIf (cond ∧ cond') (r >>= f) (w ++ w') b := by
  intro rest c rest'
  rw [bind_ok_iff, List.append_assoc]
  constructor
  · rintro ⟨x, mid, hr, hf⟩
    obtain ⟨hcond, rfl, rfl⟩ := (h _ x mid).mp hr
    obtain ⟨hcond', hc, hrest⟩ := (h' rest c rest').mp hf
    exact ⟨⟨hcond, hcond'⟩, hc, hrest⟩
  · rintro ⟨⟨hcond, hcond'⟩, hc, hrest⟩
    exact ⟨a, w' ++ rest, (h _ a _).mpr ⟨hcond, rfl, rfl⟩, (h' rest c rest').mpr ⟨hcond', hc, hrest⟩⟩

theorem readsIf_pure (a : α) : ReadsIf True (pure a : ByteReader ε α) [] a := by
  intro rest b rest'
  rw [pure_ok_iff]
  constructor
  · rintro ⟨rfl, rfl⟩
    exact ⟨trivial, rfl, rfl⟩
  · rintro ⟨-, rfl, rfl⟩
    exact ⟨rfl, rfl⟩

theorem ReadsIf.congr {cond cond' : Prop} {r : ByteReader ε α} {w : List UInt8} {a : α}
    (h : ReadsIf cond r w a) (hcond : cond ↔ cond') : ReadsIf cond' r w a :=
  propext hcond ▸ h

theorem ReadsIf.map {cond : Prop} {r : ByteReader ε α} {g : α → β} {w : List UInt8} {a : α}
    (h : ReadsIf cond r w a) : ReadsIf cond (r >>= fun x => pure (g x)) w (g a) := by
  have hpure := h.bind (f := fun x => (pure (g x) : ByteReader ε β)) (readsIf_pure (g a))
  rw [List.append_nil] at hpure
  exact hpure.congr (and_iff_left trivial)

theorem ReadsIf.reads {cond : Prop} {r : ByteReader ε α} {w : List UInt8} {a : α}
    (h : ReadsIf cond r w a) (hcond : cond) : Reads r w a :=
  fun rest => (h rest a rest).mpr ⟨hcond, rfl, rfl⟩

theorem Reads.map {r : ByteReader ε α} {g : α → β} {w : List UInt8} {a : α} (h : Reads r w a) :
    Reads (r >>= fun x => pure (g x)) w (g a) := by
  have hpure := h.bind (f := fun x => (pure (g x) : ByteReader ε β)) (reads_pure (g a))
  rwa [List.append_nil] at hpure

/-- A part that is written and read under one condition. -/
theorem Reads.when {c : Prop} [Decidable c] {r : ByteReader ε α} {w : List UInt8} {a b : α}
    (h : Reads r w a) :
    Reads (if c then r else pure b) (if c then w else []) (if c then a else b) := by
  by_cases hc : c
  · simpa only [if_pos hc] using h
  · simpa only [if_neg hc] using reads_pure b

theorem Reads.of_pos {c : Prop} [Decidable c] {r r' : ByteReader ε α} {w : List UInt8} {a : α}
    (hc : c) (h : Reads r w a) : Reads (if c then r else r') w a := by
  rwa [if_pos hc]

/-- A block that reads what was written throws nothing that would be caught. -/
theorem reads_attempt {r : ByteReader ε α} {w : List UInt8} {a : α} (caught : ε → Bool)
    (h : Reads r w a) : Reads (attempt caught r) w (some a) := by
  intro rest
  show attempt caught r (w ++ rest) = _
  rw [attempt, h rest]

/-! ## What a value depends on -/

/-- What the reader gives, it gives on every stream that begins with the bytes it has taken. -/
def TakesOnly (r : ByteReader ε α) : Prop :=
  ∀ s a rest, r.run s = .ok (a, rest) → ∃ w, s = w ++ rest ∧ Reads r w a

theorem takesOnly_pure (a : α) : TakesOnly (pure a : ByteReader ε α) := by
  intro s b rest h
  cases h
  exact ⟨[], rfl, reads_pure _⟩

theorem takesOnly_stop (e : ε) : TakesOnly (stop e : ByteReader ε α) := by
  intro s a rest h
  rw [run_stop] at h
  cases h

theorem TakesOnly.bind {r : ByteReader ε α} {f : α → ByteReader ε β} (h : TakesOnly r)
    (h' : ∀ a, TakesOnly (f a)) : TakesOnly (r >>= f) := by
  intro s b rest hrun
  obtain ⟨a, mid, hr, hf⟩ := bind_ok_iff.mp hrun
  obtain ⟨w, rfl, hw⟩ := h s a mid hr
  obtain ⟨w', rfl, hw'⟩ := h' a mid b rest hf
  exact ⟨w ++ w', (List.append_assoc ..).symm, hw.bind hw'⟩

theorem takesOnly_ite {c : Prop} [Decidable c] {r r' : ByteReader ε α} (h : TakesOnly r)
    (h' : TakesOnly r') : TakesOnly (if c then r else r') := by
  by_cases hc : c
  · rwa [if_pos hc]
  · rwa [if_neg hc]

/-! ## Where a reader stops -/

/-- On the stream `s` the reader does not stop for the reason `e`. -/
def Avoids (r : ByteReader ε α) (e : ε) (s : List UInt8) : Prop :=
  ∀ left, r.run s ≠ .error (e, left)

theorem pure_avoids {a : α} {s : List UInt8} {e : ε} : Avoids (pure a : ByteReader ε α) e s := by
  intro left
  rw [run_pure]
  simp

theorem stop_avoids {s : List UInt8} {e e' : ε} (h : e ≠ e') :
    Avoids (stop e : ByteReader ε α) e' s := by
  intro left
  rw [run_stop]
  intro heq
  cases heq
  exact h rfl

theorem not_avoids_stop {s : List UInt8} {e : ε} : ¬ Avoids (stop e : ByteReader ε α) e s :=
  fun h => h s rfl

/-- A chain does not stop for a reason exactly when neither its first step does nor, where that
    gives a value, the rest of it. -/
theorem bind_avoids_iff {r : ByteReader ε α} {f : α → ByteReader ε β} {s : List UInt8} {e : ε} :
    Avoids (r >>= f) e s ↔ Avoids r e s ∧ ∀ a rest, r.run s = .ok (a, rest) → Avoids (f a) e rest := by
  simp only [Avoids, run_bind]
  cases h : r.run s with
  | error p => simp [bind, Except.bind]
  | ok p =>
    obtain ⟨a, rest⟩ := p
    simp only [bind_ok, ne_eq, reduceCtorEq, not_false_eq_true, implies_true, true_and]
    constructor
    · rintro hf a' rest' heq
      cases heq
      exact hf
    · intro hf
      exact hf a rest rfl

end ByteReader

end Lib
end VeraCrypt
