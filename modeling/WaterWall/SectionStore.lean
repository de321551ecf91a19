/-
A configuration of named sections, each with a type and a table of options, as UCI
keeps it.  Deleting what is not there and setting an option of a section that is not
there do nothing, and so does a value that is not given.  Every operation is
described by what it leaves under each name.
-/
import Mathlib.Logic.Function.Basic

namespace SectionStore

open Function

universe u

/-- The value of an option. -/
inductive Value (S : Type u) where
  | text (value : S)
  | list (values : List S)

structure Section (S : Type u) where
  type : S
  options : S → Option (Value S)

/-- The sections of a configuration by their names. -/
abbrev Config (S : Type u) := S → Option (Section S)

variable {S : Type u} [DecidableEq S]

/-- Options that are set one after the other. -/
abbrev Settings (S : Type u) := List (S × Option (Value S))

namespace Section

def empty (type : S) : Section S :=
  ⟨type, fun _ => none⟩

def set (content : Section S) (option : S) (value : Option (Value S)) : Section S :=
  match value with
  | none => content
  | some value => { content with options := Function.update content.options option (some value) }

def setAll (content : Section S) (fields : Settings S) : Section S :=
  fields.foldl (fun content field => content.set field.1 field.2) content

def unset (content : Section S) (option : S) : Section S :=
  { content with options := Function.update content.options option none }

theorem set_type (content : Section S) (option : S) (value : Option (Value S)) :
    (content.set option value).type = content.type := by
  cases value <;> rfl

theorem set_options_of_ne {content : Section S} {option other : S} {value : Option (Value S)}
    (hne : other ≠ option) : (content.set option value).options other = content.options other := by
  cases value with
  | none => rfl
  | some value => exact update_of_ne hne _ _

theorem setAll_type (content : Section S) (fields : Settings S) :
    (content.setAll fields).type = content.type := by
  induction fields generalizing content with
  | nil => rfl
  | cons field fields ih =>
    change ((content.set field.1 field.2).setAll fields).type = content.type
    rw [ih, set_type]

theorem setAll_options_of_not_mem {content : Section S} {fields : Settings S} {option : S}
    (hnot : option ∉ fields.map Prod.fst) :
    (content.setAll fields).options option = content.options option := by
  induction fields generalizing content with
  | nil => rfl
  | cons field fields ih =>
    rw [List.map_cons, List.mem_cons, not_or] at hnot
    change ((content.set field.1 field.2).setAll fields).options option = _
    rw [ih hnot.2, set_options_of_ne hnot.1]

theorem setAll_options {content : Section S} {front behind : Settings S} {option : S}
    {value : Value S} (hnot : option ∉ behind.map Prod.fst) :
    (content.setAll (front ++ (option, some value) :: behind)).options option = some value := by
  rw [setAll, List.foldl_append, List.foldl_cons]
  change (Section.setAll _ behind).options option = _
  rw [setAll_options_of_not_mem hnot]
  exact update_self _ _ _

end Section

namespace Config

def delete (config : Config S) (name : S) : Config S :=
  Function.update config name none

/-- Creates a section, or gives one that exists another type. -/
def addSection (config : Config S) (type name : S) : Config S :=
  Function.update config name
    (some ⟨type, ((config name).map Section.options).getD fun _ => none⟩)

def setAll (config : Config S) (name : S) (fields : Settings S) : Config S :=
  Function.update config name ((config name).map fun content => content.setAll fields)

def unset (config : Config S) (name option : S) : Config S :=
  Function.update config name ((config name).map fun content => content.unset option)

section Apply

variable {config : Config S} {name other : S}

theorem delete_self : config.delete name name = none :=
  update_self _ _ _

theorem delete_of_ne (hne : other ≠ name) : config.delete name other = config other :=
  update_of_ne hne _ _

theorem addSection_of_none (type : S) (hnone : config name = none) :
    config.addSection type name name = some (Section.empty type) := by
  rw [addSection, update_self, hnone]
  rfl

theorem addSection_of_ne (type : S) (hne : other ≠ name) :
    config.addSection type name other = config other :=
  update_of_ne hne _ _

theorem setAll_of_some {content : Section S} (fields : Settings S)
    (hsome : config name = some content) :
    config.setAll name fields name = some (content.setAll fields) := by
  rw [setAll, update_self, hsome]
  rfl

theorem setAll_of_ne (fields : Settings S) (hne : other ≠ name) :
    config.setAll name fields other = config other :=
  update_of_ne hne _ _

theorem unset_of_some {content : Section S} (option : S) (hsome : config name = some content) :
    config.unset name option name = some (content.unset option) := by
  rw [unset, update_self, hsome]
  rfl

theorem unset_of_ne (option : S) (hne : other ≠ name) :
    config.unset name option other = config other :=
  update_of_ne hne _ _

end Apply

end Config

end SectionStore
