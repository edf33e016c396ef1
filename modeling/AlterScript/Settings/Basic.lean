/-
  Settings: what a settings file or the flags of a command say, layer over layer.

  A setting that a layer leaves out is the earlier one: `merge_assoc` says that layers can be put
  together in any grouping.
-/
import AlterScript.Script.Mode
import AlterScript.Settings.Version

namespace AlterScript

/-- Settings for keyspaces. -/
structure KeyspaceSettings where
  /-- Whether keyspaces are left alone. -/
  skip : Option Bool := none
deriving DecidableEq, Repr

/-- Settings for scripts. -/
structure ScriptSettings where
  /-- Whether drops take effect. -/
  applyDrops : Option Bool := none
  /-- Whether the database is of an old version, whatever its version is said to be. -/
  legacy : Option Bool := none
  /-- The version of the database. -/
  version : Option String := none
  keyspaces : Option KeyspaceSettings := none
deriving DecidableEq, Repr

/-- One layer of settings. -/
structure Settings where
  script : Option ScriptSettings := none
deriving DecidableEq, Repr

/-! ## Layers -/

/-- Two optional layers, put together where both are present. -/
def mergeLayers {α : Type} (merge : α → α → α) : Option α → Option α → Option α
  | some earlier, some later => some (merge earlier later)
  | earlier, later => later <|> earlier

theorem mergeLayers_assoc {α : Type} {merge : α → α → α}
    (h : ∀ a b c, merge (merge a b) c = merge a (merge b c)) (a b c : Option α) :
    mergeLayers merge (mergeLayers merge a b) c = mergeLayers merge a (mergeLayers merge b c) := by
  cases a <;> cases b <;> cases c <;> simp [mergeLayers, h]

namespace KeyspaceSettings

/-- What the later layer leaves out is taken from the earlier one. -/
def merge (earlier later : KeyspaceSettings) : KeyspaceSettings := ⟨later.skip <|> earlier.skip⟩

theorem merge_assoc (a b c : KeyspaceSettings) :
    (a.merge b).merge c = a.merge (b.merge c) := by
  simp only [merge]; cases c.skip <;> rfl

end KeyspaceSettings

namespace ScriptSettings

/-- What the later layer leaves out is taken from the earlier one. -/
def merge (earlier later : ScriptSettings) : ScriptSettings where
  applyDrops := later.applyDrops <|> earlier.applyDrops
  legacy := later.legacy <|> earlier.legacy
  version := later.version <|> earlier.version
  keyspaces := mergeLayers KeyspaceSettings.merge earlier.keyspaces later.keyspaces

theorem merge_assoc (a b c : ScriptSettings) : (a.merge b).merge c = a.merge (b.merge c) := by
  simp only [merge, mergeLayers_assoc KeyspaceSettings.merge_assoc]
  cases c.applyDrops <;> cases c.legacy <;> cases c.version <;> rfl

/-- Whether keyspaces are left alone, where the layer says so. -/
def skipKeyspaces (s : ScriptSettings) : Option Bool := s.keyspaces.bind KeyspaceSettings.skip

end ScriptSettings

namespace Settings

/-- What the later layer leaves out is taken from the earlier one. -/
def merge (earlier later : Settings) : Settings :=
  ⟨mergeLayers ScriptSettings.merge earlier.script later.script⟩

theorem merge_assoc (a b c : Settings) : (a.merge b).merge c = a.merge (b.merge c) := by
  simp only [merge, mergeLayers_assoc ScriptSettings.merge_assoc]

end Settings

/-- The flags of a command; one that is not given says nothing. -/
structure Flags where
  applyDrops : Bool := false
  legacy : Bool := false
  skipKeyspaces : Bool := false
deriving DecidableEq, Repr

namespace Flags

/-- A flag that is given sets `true`. -/
def setting (given : Bool) : Option Bool := if given then some true else none

/-- The layer that flags make. -/
def settings (f : Flags) : Settings where
  script := some
    { applyDrops := setting f.applyDrops
      legacy := setting f.legacy
      keyspaces := if f.skipKeyspaces then some ⟨some true⟩ else none }

end Flags

/-- A layer: what a settings file holds, or the flags of a command. -/
inductive Layer
  | file (settings : Settings)
  | flags (given : Flags)
deriving DecidableEq, Repr

namespace Layer

/-- What a layer says. -/
def settings : Layer → Settings
  | file settings => settings
  | flags given => given.settings

end Layer

/-- Layers on top of one another, the last one uppermost. -/
def Settings.ofLayers (layers : List Layer) : Settings :=
  layers.foldl (fun settings l => settings.merge l.settings) {}

/-! ## Outcome -/

/-- Settings with nothing left open. -/
structure Resolved where
  mode : Mode := {}
  version : Option String := none
deriving DecidableEq, Repr

namespace Settings

/-- Whether the database is of an old version: as the settings say, or else as its version says. -/
def isLegacy (s : ScriptSettings) : Except VersionError Bool :=
  match s.legacy with
  | some legacy => .ok legacy
  | none =>
    match s.version with
    | some version => Version.isLegacyText version
    | none => .ok false

/-- The settings with what they leave out. -/
def resolve (s : Settings) : Except VersionError Resolved :=
  let script := s.script.getD {}
  (isLegacy script).map fun legacy =>
    { mode :=
        { legacy := legacy
          applyDrops := script.applyDrops.getD false
          skipKeyspaces := script.skipKeyspaces.getD false }
      version := script.version }

end Settings

end AlterScript
