import RuleScript.Ty.Basic

/-!
# Names of the target's events

Each event has the name the language uses, the trigger the target uses, and the values that the
trigger provides.
-/

namespace RuleScript

/-- A value that a trigger provides. -/
structure EventArg where
  ty : Ty
  /-- The text that stands for it in rules. -/
  target : String

/-- An event of the target. -/
structure EventDef where
  name : String
  /-- The text of the trigger in rules. -/
  target : String
  args : List EventArg

namespace EventDef

/-- What is known about damage that was taken or dealt. -/
def damageArgs : List EventArg :=
  [⟨.player, "Event Player"⟩,
   ⟨.number, "Event Damage"⟩,
   ⟨.player, "Attacker"⟩,
   ⟨.boolean, "Event Was Critical Hit"⟩,
   ⟨.native "ability", "Event Ability"⟩,
   ⟨.native "vector", "Event Direction"⟩]

/-- What is known about a death. -/
def deathArgs : List EventArg :=
  [⟨.player, "Victim"⟩,
   ⟨.player, "Attacker"⟩,
   ⟨.number, "Event Damage"⟩,
   ⟨.boolean, "Event Was Critical Hit"⟩,
   ⟨.native "button", "Event Ability"⟩,
   ⟨.native "vector", "Event Direction"⟩]

/-- All events. -/
def all : List EventDef :=
  [⟨"client", "Ongoing - Each Player", [⟨.player, "Event Player"⟩]⟩,
   ⟨"server", "Ongoing - Global", []⟩,
   ⟨"playerDied", "Player Died", deathArgs⟩,
   ⟨"playerTookDamage", "Player Took Damage", damageArgs⟩,
   ⟨"playerDealtDamage", "Player Dealt Damage", damageArgs⟩]

/-- The event of a name. -/
def find? (name : String) : Option EventDef := all.find? (·.name = name)

end EventDef

end RuleScript
