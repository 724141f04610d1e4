import RuleScript.Ty.Basic

/-!
# Names of the target's actions and values

Each function has the name the language uses, the text the target uses, its parameters and, if it
yields a value, the type of that value. A function without a value is an action and can only stand
as a statement.
-/

namespace RuleScript

/-- A parameter of a target function. -/
structure ParamDef where
  name : String
  ty : Ty
  /-- The text that stands for the argument when it is left out. -/
  default? : Option String
  /-- Whether the argument has to be a text literal, which is kept with its braces. -/
  template : Bool

/-- An action or a value of the target. -/
structure FunctionDef where
  name : String
  /-- The text that stands for it in rules. -/
  target : String
  params : List ParamDef
  ret : Option Ty

namespace ParamDef

/-- A parameter that needs an argument. -/
def required (name : String) (ty : Ty) : ParamDef := ⟨name, ty, none, false⟩

/-- A parameter that has a text for when its argument is left out. -/
def optional (name : String) (ty : Ty) (default : String) : ParamDef :=
  ⟨name, ty, some default, false⟩

/-- A parameter that takes a text literal with places for other values in it. -/
def format (name : String) : ParamDef := ⟨name, .string, none, true⟩

end ParamDef

namespace FunctionDef

open ParamDef

/-- One player or several. -/
def playerOrPlayers : Ty := .union [.player, .array .player]

/-- The functions that yield no value. -/
def actions : List FunctionDef :=
  [⟨"disableGameModeHUD", "Disable Game Mode HUD", [required "player" playerOrPlayers], none⟩,
   ⟨"disableMessages", "Disable Messages", [required "player" playerOrPlayers], none⟩,
   ⟨"setInvisible", "Set Invisible",
     [required "player" playerOrPlayers,
      optional "invisibleTo" (.native "invis") "All"],
     none⟩,
   ⟨"createHUDText", "Create HUD Text",
     [required "visibleTo" playerOrPlayers,
      required "header" .any,
      optional "subheader" .any "Null",
      optional "text" .any "Null",
      optional "location" (.native "hudpos") "Left",
      optional "sortOrder" .number "0",
      optional "headerColor" (.native "color") "Color(White)",
      optional "subheaderColor" (.native "color") "Color(White)",
      optional "textColor" (.native "color") "Color(White)",
      optional "reevaluation" (.native "hudeval") "None",
      optional "spectators" (.native "visibility") "Default Visibility"],
     none⟩,
   ⟨"smallMessage", "Small Message",
     [required "visibleTo" playerOrPlayers,
      required "header" .any],
     none⟩,
   ⟨"bigMessage", "Big Message",
     [required "visibleTo" playerOrPlayers,
      required "header" .any],
     none⟩,
   ⟨"wait", "Wait",
     [required "time" .number,
      optional "behavior" (.native "waitbehavior") "Ignore Condition"],
     none⟩,
   ⟨"kill", "Kill", [required "player" playerOrPlayers, optional "killer" .player "Null"], none⟩,
   ⟨"damage", "Damage",
     [required "player" playerOrPlayers,
      required "damager" .player,
      required "amount" .number],
     none⟩,
   ⟨"setStatus", "Set Status",
     [required "player" playerOrPlayers,
      required "assister" .player,
      required "status" (.native "status"),
      required "duration" .number],
     none⟩,
   ⟨"teleport", "Teleport",
     [required "player" playerOrPlayers,
      required "position" (.native "vector")],
     none⟩]

/-- The functions that yield a value. -/
def values : List FunctionDef :=
  [⟨"allPlayers", "All Players",
     [optional "team" (.native "team") "All Teams"],
     some (.array .player)⟩,
   ⟨"eventPlayer", "Event Player", [], some .player⟩,
   ⟨"vector", "Vector",
     [required "x" .number,
      required "y" .number,
      required "z" .number],
     some (.native "vector")⟩,
   ⟨"positionOf", "Position Of", [required "player" .player], some (.native "vector")⟩,
   ⟨"heroOf", "Hero Of", [required "player" .player], some (.native "hero")⟩,
   ⟨"health", "Health", [required "player" .player], some .number⟩,
   ⟨"isAlive", "Is Alive", [required "player" .player], some .boolean⟩,
   ⟨"count", "Count Of", [required "array" (.array .any)], some .number⟩,
   ⟨"abs", "Absolute Value", [required "value" .number], some .number⟩,
   ⟨"max", "Max", [required "a" .number, required "b" .number], some .number⟩,
   ⟨"min", "Min", [required "a" .number, required "b" .number], some .number⟩,
   ⟨"random", "Random Real", [required "min" .number, required "max" .number], some .number⟩,
   ⟨"format", "Custom String",
     [format "template",
      required "values" (.variadic .any)],
     some .string⟩]

/-- All functions. -/
def all : List FunctionDef := actions ++ values

/-- The function of a name. -/
def find? (name : String) : Option FunctionDef := all.find? (·.name = name)

end FunctionDef

end RuleScript
