import GrammarInference.Log

/-!
# Random choices

Sampling is written as a tree of random choices: one of several alternatives, or a number between
zero and one. The tree is fixed without any source of randomness; a generator is one way of making
its choices.

The main statements are that choices compose and that running a tree goes step by step.
-/

namespace GrammarInference

/-- A computation that makes random choices on its way to a result. -/
inductive Draw (α : Type) where
  /-- The result. -/
  | done (result : α)
  /-- Chooses one of `others + 1` alternatives. -/
  | choose (others : Nat) (next : Fin (others + 1) → Draw α)
  /-- Draws a number from zero up to, and without, one. -/
  | unit (next : Float → Draw α)
  /-- Leaves a note in the log. -/
  | note (n : Note) (next : Draw α)

namespace Draw

/-- Goes on with the result of a computation. -/
def bind {α β : Type} : Draw α → (α → Draw β) → Draw β
  | .done a, f => f a
  | .choose others next, f => .choose others fun i => (next i).bind f
  | .unit next, f => .unit fun x => (next x).bind f
  | .note n next, f => .note n (next.bind f)

instance : Monad Draw where
  pure := .done
  bind := bind

theorem bind_assoc {α β γ : Type} (d : Draw α) (f : α → Draw β) (g : β → Draw γ) :
    (d.bind f).bind g = d.bind fun a => (f a).bind g := by
  induction d with
  | done a => rfl
  | choose others next ih => simp only [bind]; congr; funext r; exact ih r
  | unit next ih => simp only [bind]; congr; funext r; exact ih r
  | note n next ih => simp only [bind]; congr

/-- Chooses an entry of a list; there is none in the empty list. -/
def oneOf {α : Type} (xs : List α) : Draw (Option α) :=
  match xs with
  | [] => .done none
  | x :: rest => .choose rest.length fun i => .done (some ((x :: rest).get i))

end Draw

/-- A source of randomness: a state with two ways of drawing from it. -/
structure Source (σ : Type) where
  /-- Chooses one of `others + 1` alternatives. -/
  choose : (others : Nat) → σ → Fin (others + 1) × σ
  /-- Draws a number from zero up to, and without, one. -/
  unit : σ → Float × σ

namespace Draw

/-- Makes the choices of a computation from a source, and collects its notes. -/
def run {α σ : Type} (source : Source σ) : Draw α → σ → α × σ × List Note
  | .done a, s => (a, s, [])
  | .choose others next, s =>
    let (i, s) := source.choose others s
    (next i).run source s
  | .unit next, s =>
    let (x, s) := source.unit s
    (next x).run source s
  | .note n next, s =>
    let (a, s, notes) := next.run source s
    (a, s, n :: notes)

/-- Running one computation after another hands the state on. -/
theorem run_bind {α β σ : Type} (source : Source σ) (d : Draw α) (f : α → Draw β) (s : σ) :
    (d.bind f).run source s =
      (((f (d.run source s).1).run source (d.run source s).2.1).1,
        ((f (d.run source s).1).run source (d.run source s).2.1).2.1,
        (d.run source s).2.2 ++ ((f (d.run source s).1).run source (d.run source s).2.1).2.2) := by
  induction d generalizing s with
  | done a => rfl
  | choose others next ih => simp only [bind, run]; exact ih _ _
  | unit next ih => simp only [bind, run]; exact ih _ _
  | note n next ih => simp only [bind, run]; rw [ih]; rfl

end Draw

end GrammarInference
