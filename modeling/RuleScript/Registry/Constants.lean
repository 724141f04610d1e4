import RuleScript.Ty.Basic

/-!
# Names of the target's constants

Each constant has the name the language uses, the text the target uses, and an opaque type.
-/

namespace RuleScript

/-- A constant of the target. -/
structure ConstantDef where
  name : String
  /-- The text that stands for it in rules. -/
  target : String
  ty : Ty

namespace ConstantDef

/-- Constants of one native type. -/
def group (ty : String) (entries : List (String × String)) : List ConstantDef :=
  entries.map fun (name, target) => ⟨name, target, .native ty⟩

/-- The teams. -/
def teams : List ConstantDef :=
  group "team"
    [("TEAM_ALL", "All Teams"),
     ("TEAM_1", "Team 1"),
     ("TEAM_2", "Team 2")]

/-- The colors. -/
def colors : List ConstantDef :=
  group "color"
    [("COLOR_WHITE", "Color(White)"),
     ("COLOR_BLUE", "Color(Blue)"),
     ("COLOR_LIME", "Color(Lime Green)"),
     ("COLOR_AQUA", "Color(Aqua)"),
     ("COLOR_SKY", "Color(Sky Blue)"),
     ("COLOR_GRAY", "Color(Gray)"),
     ("COLOR_ROSE", "Color(Rose)"),
     ("COLOR_VIOLET", "Color(Violet)"),
     ("COLOR_YELLOW", "Color(Yellow)"),
     ("COLOR_GREEN", "Color(Green)"),
     ("COLOR_RED", "Color(Red)"),
     ("COLOR_BLACK", "Color(Black)"),
     ("COLOR_TURQUOISE", "Color(Turquoise)"),
     ("COLOR_ORANGE", "Color(Orange)"),
     ("COLOR_PURPLE", "Color(Purple)"),
     ("COLOR_TEAM_1", "Color(Team 1)"),
     ("COLOR_TEAM_2", "Color(Team 2)")]

/-- The places of a heads-up display. -/
def hudPlaces : List ConstantDef :=
  group "hudpos"
    [("HUD_LEFT", "Left"),
     ("HUD_TOP", "Top"),
     ("HUD_RIGHT", "Right")]

/-- What a heads-up display keeps up to date. -/
def hudUpdates : List ConstantDef :=
  group "hudeval"
    [("HUDEVAL_NONE", "None")]

/-- Whether spectators see something. -/
def visibilities : List ConstantDef :=
  group "visibility"
    [("SPECTATOR_VISIBLE_DEFAULT", "Default Visibility"),
     ("SPECTATOR_VISIBLE_ALWAYS", "Visible Always"),
     ("SPECTATOR_VISIBLE_NEVER", "Visible Never")]

/-- For whom a player is invisible. -/
def invisibilities : List ConstantDef :=
  group "invis"
    [("INVISIBLE_TO_ALL", "All"),
     ("INVISIBLE_TO_ENEMIES", "Enemies"),
     ("INVISIBLE_TO_NONE", "None")]

/-- What a direction is relative to. -/
def relativities : List ConstantDef :=
  group "relativity"
    [("RELATIVE_TO_WORLD", "To World"),
     ("RELATIVE_TO_PLAYER", "To Player")]

/-- The statuses of a player. -/
def statuses : List ConstantDef :=
  group "status"
    [("STATUS_ASLEEP", "Asleep"),
     ("STATUS_BURNING", "Burning"),
     ("STATUS_FROZEN", "Frozen"),
     ("STATUS_HACKED", "Hacked"),
     ("STATUS_INVINCIBLE", "Invincible"),
     ("STATUS_KNOCKED_DOWN", "Knocked Down"),
     ("STATUS_PHASED_OUT", "Phased Out"),
     ("STATUS_ROOTED", "Rooted"),
     ("STATUS_STUNNED", "Stunned"),
     ("STATUS_UNKILLABLE", "Unkillable")]

/-- The heroes. -/
def heroes : List ConstantDef :=
  group "hero"
    [("HERO_ANA", "Ana"),
     ("HERO_ASHE", "Ashe"),
     ("HERO_BAPTISTE", "Baptiste"),
     ("HERO_BASTION", "Bastion"),
     ("HERO_BRIGITTE", "Brigitte"),
     ("HERO_CASSIDY", "Cassidy"),
     ("HERO_MCCREE", "Cassidy"),
     ("HERO_DOOMFIST", "Doomfist"),
     ("HERO_DVA", "D.Va"),
     ("HERO_ECHO", "Echo"),
     ("HERO_GENJI", "Genji"),
     ("HERO_HANZO", "Hanzo"),
     ("HERO_ILLARI", "Illari"),
     ("HERO_JUNKER_QUEEN", "Junker Queen"),
     ("HERO_JUNKRAT", "Junkrat"),
     ("HERO_KIRIKO", "Kiriko"),
     ("HERO_LIFEWEAVER", "Lifeweaver"),
     ("HERO_LUCIO", "Lúcio"),
     ("HERO_MEI", "Mei"),
     ("HERO_MERCY", "Mercy"),
     ("HERO_MOIRA", "Moira"),
     ("HERO_ORISA", "Orisa"),
     ("HERO_PHARAH", "Pharah"),
     ("HERO_RAMATTRA", "Ramattra"),
     ("HERO_REAPER", "Reaper"),
     ("HERO_REINHARDT", "Reinhardt"),
     ("HERO_ROADHOG", "Roadhog"),
     ("HERO_SIGMA", "Sigma"),
     ("HERO_SOJOURN", "Sojourn"),
     ("HERO_SOLDIER_76", "Soldier 76"),
     ("HERO_SOMBRA", "Sombra"),
     ("HERO_SYMMETRA", "Symmetra"),
     ("HERO_TORBJORN", "Torbjörn"),
     ("HERO_TRACER", "Tracer"),
     ("HERO_WIDOWMAKER", "Widowmaker"),
     ("HERO_WINSTON", "Winston"),
     ("HERO_WRECKING_BALL", "Wrecking Ball"),
     ("HERO_ZARYA", "Zarya"),
     ("HERO_ZENYATTA", "Zenyatta")]

/-- All constants. -/
def all : List ConstantDef :=
  teams ++ colors ++ hudPlaces ++ hudUpdates ++ visibilities
    ++ invisibilities ++ relativities ++ statuses ++ heroes

/-- The constant of a name. -/
def find? (name : String) : Option ConstantDef := all.find? (·.name = name)

end ConstantDef

end RuleScript
