/-
  Settings in layers.

  `Setting.read_ofLayers`: of any layers, the last one that says something about a setting counts,
  whatever the layers say about the others. `Settings.resolve_ofLayers` says what the settings come
  to with that, and when they come to nothing: the version of the database only counts where no
  layer says whether the database is old.
-/
import AlterScript.Settings.Basic
import Mathlib.Data.List.Induction

namespace AlterScript

theorem Settings.ofLayers_concat (layers : List Layer) (l : Layer) :
    ofLayers (layers ++ [l]) = (ofLayers layers).merge l.settings := by
  rw [ofLayers, List.foldl_append]
  rfl

/-! ## One setting -/

/-- A setting. Where nothing is said it is left open, and of two layers the later one counts. -/
structure Setting (α : Type) where
  read : Settings → Option α
  read_empty : read {} = none
  read_merge (earlier later : Settings) :
    read (earlier.merge later) = (read later <|> read earlier)

namespace Setting

variable {α : Type}

theorem bind_mergeLayers {β : Type} {merge : β → β → β} {read : β → Option α}
    (h : ∀ a b, read (merge a b) = (read b <|> read a)) (a b : Option β) :
    (mergeLayers merge a b).bind read = (b.bind read <|> a.bind read) := by
  cases a with
  | none => cases b <;> simp [mergeLayers]
  | some earlier =>
    cases b with
    | none => simp [mergeLayers]
    | some later => exact h earlier later

/-- Whether drops take effect. -/
def applyDrops : Setting Bool where
  read s := s.script.bind ScriptSettings.applyDrops
  read_empty := rfl
  read_merge _ _ := bind_mergeLayers (fun _ _ => rfl) _ _

/-- Whether the database is of an old version. -/
def legacy : Setting Bool where
  read s := s.script.bind ScriptSettings.legacy
  read_empty := rfl
  read_merge _ _ := bind_mergeLayers (fun _ _ => rfl) _ _

/-- The version of the database. -/
def version : Setting String where
  read s := s.script.bind ScriptSettings.version
  read_empty := rfl
  read_merge _ _ := bind_mergeLayers (fun _ _ => rfl) _ _

/-- Whether keyspaces are left alone. -/
def skipKeyspaces : Setting Bool where
  read s := s.script.bind ScriptSettings.skipKeyspaces
  read_empty := rfl
  read_merge _ _ := bind_mergeLayers (fun _ _ => bind_mergeLayers (fun _ _ => rfl) _ _) _ _

/-- What the last layer that says something about a setting says. -/
def last (setting : Setting α) (layers : List Layer) : Option α :=
  layers.reverse.findSome? fun l => setting.read l.settings

theorem last_concat (setting : Setting α) (layers : List Layer) (l : Layer) :
    setting.last (layers ++ [l]) = (setting.read l.settings <|> setting.last layers) := by
  rw [last, List.reverse_append, List.reverse_singleton, List.singleton_append,
    List.findSome?_cons]
  cases setting.read l.settings <;> rfl

/-- The last layer that says something about a setting counts. -/
theorem read_ofLayers (setting : Setting α) (layers : List Layer) :
    setting.read (Settings.ofLayers layers) = setting.last layers := by
  induction layers using List.reverseRecOn with
  | nil => exact setting.read_empty
  | append_singleton layers l ih =>
    rw [Settings.ofLayers_concat, setting.read_merge, last_concat, ih]

end Setting

/-! ## Flags -/

namespace Flags

/-- A flag that is given sets `true`, one that is not sets nothing, and there is none for the
    version. -/
theorem read_settings (f : Flags) :
    Setting.applyDrops.read f.settings = setting f.applyDrops ∧
    Setting.legacy.read f.settings = setting f.legacy ∧
    Setting.version.read f.settings = none ∧
    Setting.skipKeyspaces.read f.settings = setting f.skipKeyspaces := by
  refine ⟨rfl, rfl, rfl, ?_⟩
  cases f with
  | mk applyDrops legacy skip => cases skip <;> rfl

end Flags

/-! ## Versions -/

namespace Version

theorem isLegacyText_eq_ok_iff {text : String} {legacy : Bool} :
    isLegacyText text = .ok legacy ↔
      ∃ numbers, ofText? text = some numbers ∧ isLegacy numbers = legacy := by
  rw [isLegacyText, ofText]
  cases ofText? text with
  | none => simp [Except.map]
  | some numbers => simp [Except.map]

theorem isLegacyText_eq_error_iff {text : String} {e : VersionError} :
    isLegacyText text = .error e ↔ ofText? text = none ∧ e.text = text := by
  rw [isLegacyText, ofText]
  cases e with
  | mk other =>
    cases ofText? text with
    | none => simp [Except.map, eq_comm]
    | some numbers => simp [Except.map]

/-- Whether the database is taken to be of an old version, by what is said of that and of its
    version. -/
inductive TakenFor : Option Bool → Option String → Bool → Prop
  | said (legacy : Bool) (version : Option String) : TakenFor (some legacy) version legacy
  | version {text : String} {numbers : Version} (h : ofText? text = some numbers) :
      TakenFor none (some text) (isLegacy numbers)
  | unsaid : TakenFor none none false

end Version

/-! ## All settings -/

namespace Settings

theorem isLegacy_eq_ok_iff {s : ScriptSettings} {legacy : Bool} :
    isLegacy s = .ok legacy ↔ Version.TakenFor s.legacy s.version legacy := by
  rw [isLegacy]
  cases s.legacy with
  | some said =>
    constructor
    · intro h
      obtain rfl := Except.ok.inj h
      exact .said _ _
    · rintro ⟨⟩
      rfl
  | none =>
    cases s.version with
    | none =>
      constructor
      · intro h
        obtain rfl := Except.ok.inj h
        exact .unsaid
      · rintro ⟨⟩
        rfl
    | some text =>
      refine Version.isLegacyText_eq_ok_iff.trans ⟨?_, ?_⟩
      · rintro ⟨numbers, h, rfl⟩
        exact .version h
      · rintro (_ | h | _)
        exact ⟨_, h, rfl⟩

theorem isLegacy_eq_error_iff {s : ScriptSettings} {e : VersionError} :
    isLegacy s = .error e ↔
      s.legacy = none ∧ s.version = some e.text ∧ Version.ofText? e.text = none := by
  rw [isLegacy]
  cases s.legacy with
  | some said => simp
  | none =>
    cases s.version with
    | none => simp
    | some text =>
      refine Version.isLegacyText_eq_error_iff.trans ⟨?_, ?_⟩
      · rintro ⟨h, rfl⟩
        exact ⟨rfl, rfl, h⟩
      · rintro ⟨-, htext, h⟩
        obtain rfl := Option.some.inj htext
        exact ⟨h, rfl⟩

theorem read_getD {α : Type} (read : ScriptSettings → Option α) (h : read {} = none)
    (s : Settings) : read (s.script.getD {}) = s.script.bind read := by
  cases s.script with
  | none => exact h
  | some script => rfl

theorem resolve_eq_ok_iff {s : Settings} {r : Resolved} :
    s.resolve = .ok r ↔
      Version.TakenFor (Setting.legacy.read s) (Setting.version.read s) r.mode.legacy ∧
      r.mode.applyDrops = (Setting.applyDrops.read s).getD false ∧
      r.mode.skipKeyspaces = (Setting.skipKeyspaces.read s).getD false ∧
      r.version = Setting.version.read s := by
  have happly : (s.script.getD {}).applyDrops = Setting.applyDrops.read s := read_getD _ rfl s
  have hskip : (s.script.getD {}).skipKeyspaces = Setting.skipKeyspaces.read s := read_getD _ rfl s
  have hversion : (s.script.getD {}).version = Setting.version.read s := read_getD _ rfl s
  have hlegacy : (s.script.getD {}).legacy = Setting.legacy.read s := read_getD _ rfl s
  rw [← happly, ← hskip, ← hversion, ← hlegacy, ← isLegacy_eq_ok_iff, resolve]
  constructor
  · intro h
    cases htaken : isLegacy (s.script.getD {}) with
    | error e =>
      rw [htaken] at h
      cases h
    | ok legacy =>
      rw [htaken] at h
      obtain rfl := Except.ok.inj h
      exact ⟨rfl, rfl, rfl, rfl⟩
  · rintro ⟨htaken, hdrops, hkeyspaces, hnumber⟩
    rw [htaken, ← hdrops, ← hkeyspaces, ← hnumber]
    rfl

theorem resolve_eq_error_iff {s : Settings} {e : VersionError} :
    s.resolve = .error e ↔
      Setting.legacy.read s = none ∧ Setting.version.read s = some e.text ∧
      Version.ofText? e.text = none := by
  have hversion : (s.script.getD {}).version = Setting.version.read s := read_getD _ rfl s
  have hlegacy : (s.script.getD {}).legacy = Setting.legacy.read s := read_getD _ rfl s
  rw [← hversion, ← hlegacy, ← isLegacy_eq_error_iff, resolve]
  cases isLegacy (s.script.getD {}) with
  | error e' => simp only [Except.map, Except.error.injEq]
  | ok legacy => exact iff_of_false (by rintro ⟨⟩) (by rintro ⟨⟩)

/-! ## Layers -/

theorem merge_empty (s : Settings) : s.merge {} = s := by
  cases s with
  | mk script => cases script <;> rfl

theorem ofLayers_append (xs ys : List Layer) :
    ofLayers (xs ++ ys) = (ofLayers xs).merge (ofLayers ys) := by
  induction ys using List.reverseRecOn with
  | nil =>
    rw [List.append_nil]
    exact (merge_empty (ofLayers xs)).symm
  | append_singleton ys l ih =>
    rw [← List.append_assoc, ofLayers_concat, ofLayers_concat, ih, merge_assoc]

/-- Of any layers, files and flags, the last one that says something about a setting counts, and
    layers can be put together in any grouping. What is said of the age of the database counts more
    than its version; the settings come to nothing exactly if that is left open and the version
    that counts is none. -/
theorem resolve_ofLayers (layers : List Layer) :
    (Setting.applyDrops.read (ofLayers layers) = Setting.applyDrops.last layers ∧
      Setting.legacy.read (ofLayers layers) = Setting.legacy.last layers ∧
      Setting.version.read (ofLayers layers) = Setting.version.last layers ∧
      Setting.skipKeyspaces.read (ofLayers layers) = Setting.skipKeyspaces.last layers) ∧
    (∀ f : Flags,
      Setting.applyDrops.read (Layer.flags f).settings = (if f.applyDrops then some true else none) ∧
      Setting.legacy.read (Layer.flags f).settings = (if f.legacy then some true else none) ∧
      Setting.version.read (Layer.flags f).settings = none ∧
      Setting.skipKeyspaces.read (Layer.flags f).settings =
        (if f.skipKeyspaces then some true else none)) ∧
    (∀ a b c : Settings, (a.merge b).merge c = a.merge (b.merge c)) ∧
    (∀ xs ys, layers = xs ++ ys → ofLayers layers = (ofLayers xs).merge (ofLayers ys)) ∧
    (∀ r, (ofLayers layers).resolve = .ok r ↔
      Version.TakenFor (Setting.legacy.last layers) (Setting.version.last layers) r.mode.legacy ∧
      r.mode.applyDrops = (Setting.applyDrops.last layers).getD false ∧
      r.mode.skipKeyspaces = (Setting.skipKeyspaces.last layers).getD false ∧
      r.version = Setting.version.last layers) ∧
    ∀ e, (ofLayers layers).resolve = .error e ↔
      Setting.legacy.last layers = none ∧ Setting.version.last layers = some e.text ∧
      Version.ofText? e.text = none := by
  refine ⟨⟨?_, ?_, ?_, ?_⟩, Flags.read_settings, merge_assoc, ?_, fun r => ?_, fun e => ?_⟩
  · exact Setting.read_ofLayers _ layers
  · exact Setting.read_ofLayers _ layers
  · exact Setting.read_ofLayers _ layers
  · exact Setting.read_ofLayers _ layers
  · rintro xs ys rfl
    exact ofLayers_append xs ys
  · simp only [resolve_eq_ok_iff, Setting.read_ofLayers]
  · simp only [resolve_eq_error_iff, Setting.read_ofLayers]

/-- A file says of which version the database is, and the flags that it is old all the same. -/
example :
    let file : Layer := .file { script := some { version := some "4.0", applyDrops := some true } }
    (ofLayers [file]).resolve = .ok { mode := { applyDrops := true }, version := some "4.0" } ∧
    (ofLayers [file, .flags { legacy := true }]).resolve =
      .ok { mode := { legacy := true, applyDrops := true }, version := some "4.0" } :=
  ⟨rfl, rfl⟩

end Settings

end AlterScript
