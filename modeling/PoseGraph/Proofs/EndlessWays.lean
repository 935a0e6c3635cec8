import Mathlib.Logic.Relation
import Mathlib.Tactic.Push

/-! Ways along a relation that go on for ever. From any point a way leads to a point that
nothing comes after, or else there is a way without an end. Where no point has two
successors, it is one of the two and not both. -/
namespace PoseGraph.EndlessWays
open Relation

variable {α : Type} {r : α → α → Prop} {a b c : α}

/-- Nothing comes after a point. -/
def Last (r : α → α → Prop) (a : α) : Prop := ∀ b, ¬r a b

/-- There is a way from a point that has no end. -/
def Endless (r : α → α → Prop) (a : α) : Prop := ∃ way : Nat → α, way 0 = a ∧ ∀ i, r (way i) (way (i + 1))

theorem endless_of_onward (onward : ∀ b, ReflTransGen r a b → ∃ c, r b c) : Endless r a := by
  let next (b : { b // ReflTransGen r a b }) : { b // ReflTransGen r a b } :=
    ⟨(onward b b.2).choose, b.2.tail (onward b b.2).choose_spec⟩
  let way (i : Nat) : { b // ReflTransGen r a b } := Nat.rec ⟨a, .refl⟩ (fun _ => next) i
  exact ⟨fun i => (way i).1, rfl, fun i => (onward (way i).1 (way i).2).choose_spec⟩

theorem last_or_endless (r : α → α → Prop) (a : α) : (∃ b, ReflTransGen r a b ∧ Last r b) ∨ Endless r a := by
  by_cases onward : ∀ b, ReflTransGen r a b → ∃ c, r b c
  · exact .inr (endless_of_onward onward)
  · push Not at onward
    exact .inl onward

section Unique
variable (unique : Relator.RightUnique r)
include unique

/-- What is reached comes before the last point. -/
theorem reaches_last (reached : ReflTransGen r a b) (last : Last r b) (also : ReflTransGen r a c) : ReflTransGen r c b := by
  rcases ReflTransGen.total_of_right_unique unique reached also with onward | back
  · rcases onward.cases_head with rfl | ⟨next, step, -⟩
    · exact .refl
    · exact absurd step (last next)
  · exact back

theorem last_unique (reached : ReflTransGen r a b) (last : Last r b) (also : ReflTransGen r a c) (other : Last r c) :
    b = c := by
  rcases (reaches_last unique reached last also).cases_head with same | ⟨next, step, -⟩
  · exact same.symm
  · exact absurd step (other next)

/-- A way without an end would go through the last point. -/
theorem not_endless (reached : ReflTransGen r a b) (last : Last r b) : ¬Endless r a := by
  induction reached using ReflTransGen.head_induction_on with
  | refl =>
    rintro ⟨way, rfl, onward⟩
    exact last _ (onward 0)
  | head step _ ih =>
    rintro ⟨way, rfl, onward⟩
    exact ih ⟨fun i => way (i + 1), unique (onward 0) step, fun i => onward (i + 1)⟩

end Unique

end PoseGraph.EndlessWays
