/-
Walks in a tree of names: down to a name, or up to the parent, which at the top stays where it
is.  Every walk amounts to going up some levels and then down some names.
-/
import Mathlib.Data.List.Infix

universe u

namespace DotPaths

open List

variable {α : Type u}

inductive Step (α : Type u) where
  | up
  | down (name : α)
  deriving DecidableEq, Repr

/-- Where the steps lead to. -/
def walk (place : List α) : List (Step α) → List α
  | [] => place
  | .up :: steps => walk place.dropLast steps
  | .down name :: steps => walk (place ++ [name]) steps

theorem walk_append (place : List α) (steps more : List (Step α)) :
    walk place (steps ++ more) = walk (walk place steps) more := by
  induction steps generalizing place with
  | nil => rfl
  | cons step steps ih =>
    cases step with
    | up => exact ih place.dropLast
    | down name => exact ih (place ++ [name])

/-- So many levels up, and then down these names. -/
structure Route (α : Type u) where
  ups : Nat
  names : List α
  deriving DecidableEq, Repr

namespace Route

/-- A step up takes back the last name, if there is one. -/
def extend [DecidableEq α] (route : Route α) : Step α → Route α
  | .up =>
    if route.names = [] then ⟨route.ups + 1, []⟩ else ⟨route.ups, route.names.dropLast⟩
  | .down name => ⟨route.ups, route.names ++ [name]⟩

def goFrom (route : Route α) (place : List α) : List α :=
  place.take (place.length - route.ups) ++ route.names

end Route

variable [DecidableEq α]

/-- The shortest form of a walk. -/
def route (steps : List (Step α)) : Route α :=
  steps.foldl Route.extend ⟨0, []⟩

theorem goFrom_extend (start : Route α) (place : List α) (step : Step α) :
    (start.extend step).goFrom place = walk (start.goFrom place) [step] := by
  cases step with
  | down name => exact (append_assoc _ _ _).symm
  | up =>
    change _ = (place.take (place.length - start.ups) ++ start.names).dropLast
    rw [Route.extend]
    split_ifs with hnames
    · have hup : min (min (place.length - start.ups) place.length - 1)
          (place.length - start.ups) = place.length - (start.ups + 1) := by omega
      rw [hnames, append_nil, dropLast_eq_take, take_take, length_take, hup,
        Route.goFrom, append_nil]
    · rw [dropLast_append_of_ne_nil hnames]
      rfl

theorem walk_eq_goFrom (place : List α) (steps : List (Step α)) :
    walk place steps = (route steps).goFrom place := by
  suffices hgeneral : ∀ start : Route α,
      walk (start.goFrom place) steps = (steps.foldl Route.extend start).goFrom place by
    have hstart : (⟨0, []⟩ : Route α).goFrom place = place := by simp [Route.goFrom]
    have hwalk := hgeneral ⟨0, []⟩
    rwa [hstart] at hwalk
  induction steps with
  | nil => intro start; rfl
  | cons step steps ih =>
    intro start
    rw [foldl_cons, ← ih, goFrom_extend, ← walk_append]
    rfl

theorem start_le_walk_iff (place : List α) (steps : List (Step α)) :
    place <+: walk place steps ↔
      place.drop (place.length - (route steps).ups) <+: (route steps).names := by
  rw [walk_eq_goFrom, Route.goFrom]
  grind [take_append_drop, prefix_append_right_inj]

end DotPaths
