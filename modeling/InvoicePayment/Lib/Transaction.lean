import Mathlib.Tactic.Common

/-!
# Transactions

A program over a store runs statement after statement and keeps what it has written when one of
them fails; `atomically` runs it in a transaction, which is rolled back then. A program that meets
a function on the whole store (`Program.Meets`, built statement by statement) commits what the
function returns and nothing else (`atomically_eq`).
-/

/-- A program that writes to a store of type `σ`, also before it fails. -/
structure Program (ε σ α : Type) where
  run : σ → σ × Except ε α

namespace Program

variable {ε σ α β : Type}

protected def pure (a : α) : Program ε σ α := ⟨fun s => (s, .ok a)⟩

/-- The second part runs on the store the first one leaves, unless it has failed. -/
protected def bind (m : Program ε σ α) (k : α → Program ε σ β) : Program ε σ β :=
  ⟨fun s =>
    match m.run s with
    | (s', .error e) => (s', .error e)
    | (s', .ok a) => (k a).run s'⟩

instance : Monad (Program ε σ) where
  pure := Program.pure
  bind := Program.bind

/-- A statement. If it fails, it has written nothing. -/
def stmt (f : σ → Except ε (σ × α)) : Program ε σ α :=
  ⟨fun s =>
    match f s with
    | .error e => (s, .error e)
    | .ok (s', a) => (s', .ok a)⟩

/-- A query. -/
def query (f : σ → α) : Program ε σ α := ⟨fun s => (s, .ok (f s))⟩

/-- The program in a transaction of its own: committed at the end, rolled back if it fails. -/
def atomically (m : Program ε σ α) (s : σ) : σ × Except ε α :=
  match m.run s with
  | (_, .error e) => (s, .error e)
  | (s', .ok a) => (s', .ok a)

/-- How a program ends that does what the result says: with its error, having written whatever, or
with its store and its value. -/
def Ends : Except ε (σ × α) → σ × Except ε α → Prop
  | .error e, x => x.2 = .error e
  | .ok p, x => x = (p.1, .ok p.2)

/-- From every store the program ends as `f` says. -/
def Meets (m : Program ε σ α) (f : σ → Except ε (σ × α)) : Prop := ∀ s, Ends (f s) (m.run s)

theorem Meets.congr {m : Program ε σ α} {f g : σ → Except ε (σ × α)} (hm : Meets m f)
    (h : ∀ s, f s = g s) : Meets m g := by
  intro s
  rw [← h s]
  exact hm s

theorem meets_pure (a : α) : Meets (pure a : Program ε σ α) fun s => .ok (s, a) :=
  fun _ => rfl

theorem meets_stmt (f : σ → Except ε (σ × α)) : Meets (stmt f) f := by
  intro s
  unfold stmt
  dsimp only
  cases f s with
  | error e => rfl
  | ok p => rfl

theorem meets_query (f : σ → α) : Meets (query f : Program ε σ α) fun s => .ok (s, f s) :=
  fun _ => rfl

theorem Meets.bind {m : Program ε σ α} {k : α → Program ε σ β} {f : σ → Except ε (σ × α)}
    {g : α → σ → Except ε (σ × β)} (hm : Meets m f) (hk : ∀ a, Meets (k a) (g a)) :
    Meets (m >>= k) fun s => f s >>= fun p => g p.2 p.1 := by
  intro s
  have hfirst := hm s
  show Ends _ ((Program.bind m k).run s)
  unfold Program.bind
  dsimp only
  generalize m.run s = x at hfirst ⊢
  cases hf : f s with
  | error e =>
    rw [hf] at hfirst
    obtain ⟨s', r⟩ := x
    obtain rfl : r = .error e := hfirst
    rfl
  | ok p =>
    rw [hf] at hfirst
    obtain rfl : x = (p.1, .ok p.2) := hfirst
    exact hk p.2 p.1

/-- A program in a transaction is as atomic as the function it meets. -/
theorem atomically_eq {m : Program ε σ α} {f : σ → Except ε (σ × α)} (h : Meets m f) (s : σ) :
    m.atomically s =
      match f s with
      | .error e => (s, .error e)
      | .ok (s', a) => (s', .ok a) := by
  have hend := h s
  unfold atomically
  generalize m.run s = x at hend ⊢
  cases hf : f s with
  | error e =>
    rw [hf] at hend
    obtain ⟨s', r⟩ := x
    obtain rfl : r = .error e := hend
    rfl
  | ok p =>
    rw [hf] at hend
    obtain rfl : x = (p.1, .ok p.2) := hend
    rfl

end Program
