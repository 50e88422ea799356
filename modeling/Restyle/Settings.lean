import Restyle.Path
import Restyle.Proposal
import Restyle.Toml.Reader

/-!
# Settings

The settings of a project come from `north.toml` in its directory.  Values are
taken as they are; only the strategy and the limit on changes are checked when
the file is read.
-/

namespace Restyle

structure Settings where
  directory : Toml := .text defaultDirectory
  strategy : Toml := .text "balanced"
  included : Toml := .array []
  excluded : Toml := .array []
  maxChanges : Toml := .integer 0
  backup : Toml := .boolean true
  interactive : Toml := .boolean false
  /-- The stylesheet, if it is not in its usual place. -/
  stylesheet : Option Toml := none
  deriving Repr, Inhabited

namespace Settings

def fileName : String := "north.toml"

/-- The value under a name in a section.  A section that is no table has no
values, but a list or a text that holds the name does not serve. -/
def sectionValue? (name : String) : Toml → Except Fault (Option Toml)
  | .table fields => .ok (Toml.lookup name fields)
  | .array items =>
      if items.any fun item => item.toJson? == some (.text name) then
        .error (.mismatch .array)
      else .ok none
  | .text value =>
      if Text.occursIn name.toList value.toList then .error (.mismatch .text) else .ok none
  | _ => .error (.mismatch .null)

/-- A value of a section of the file, if it is there. -/
def value? (root : List (String × Toml)) (sectionName name : String) :
    Except Fault (Option Toml) :=
  match Toml.lookup sectionName root with
  | none => .ok none
  | some content => sectionValue? name content

/-- Takes the settings from the content of the file. -/
def ofTable (root : List (String × Toml)) : Except Fault Settings := do
  let usual : Settings := {}
  let directory ← value? root "general" "north_dir"
  let strategy ← value? root "propose" "strategy"
  let included ← value? root "propose" "include"
  let excluded ← value? root "propose" "exclude"
  let maxChanges ← value? root "propose" "max_changes"
  let backup ← value? root "migrate" "backup"
  let interactive ← value? root "migrate" "interactive"
  let stylesheet ← value? root "migrate" "base_css"
  return {
    directory := directory.getD usual.directory
    strategy := strategy.getD usual.strategy
    included := included.getD usual.included
    excluded := excluded.getD usual.excluded
    maxChanges := maxChanges.getD usual.maxChanges
    backup := backup.getD usual.backup
    interactive := interactive.getD usual.interactive
    stylesheet }

/-- Whether a limit on changes is an integer that is not negative; the truth
values count as integers. -/
def isLimit : Toml → Bool
  | .integer value => 0 ≤ value
  | .boolean _ => true
  | _ => false

/-- Refuses a value for a cause that shows it. -/
def refuse (value : Toml) (cause : SettingsCause) : Except Failure Unit :=
  if value.isShowable then .error (.settings cause) else .error (.value .integerUnwritable)

/-- Refuses an unknown strategy and a limit that is none. -/
def check (settings : Settings) : Except Failure Unit := do
  let known := (settings.strategy.toJson?.bind Strategy.ofJson?).isSome
  if !known then refuse settings.strategy (.unknownStrategy settings.strategy.shown)
  if !isLimit settings.maxChanges then
    refuse settings.maxChanges (.badMaxChanges settings.maxChanges.quoted)

/-- Reads the settings from the text of the file. -/
def ofText (text : List Char) : Except Failure Settings := do
  match Toml.read text with
  | .error .malformed => throw (.settings .malformed)
  | .error (.tooLong digits) => throw (.value (.integerTooLong digits))
  | .ok root =>
      match ofTable root with
      | .error fault => throw (.value fault)
      | .ok settings =>
          check settings
          return settings

/-- Loads the settings of the project.  Without a file the usual ones hold. -/
def load : Activity Settings := do
  let session ← get
  let path := session.project.child fileName
  if !session.workspace.pathExists path then return {}
  else
    match session.workspace.readBytes path with
    | .error error => throw (.reading (.system error))
    | .ok bytes =>
        match Text.decode bytes with
        | .error fault => throw (.reading (.encoding fault))
        | .ok text => Activity.lift (ofText text)

def pathText : Toml → Except Fault String
  | .text value => .ok value
  | _ => .error (.mismatch .null)

/-- The layout that the settings give to a project. -/
def layout (settings : Settings) (project : Path) : Except Fault Layout := do
  let directory ← pathText settings.directory
  match settings.stylesheet with
  | none => return .below project directory none
  | some stylesheet =>
      if stylesheet.isFilled then
        return .below project directory (some (← pathText stylesheet))
      else return .below project directory none

def ruleItems : Toml → Except Fault (List RuleItem)
  | .array items => .ok (items.map RuleItem.ofToml)
  | .text value =>
      .ok (value.toList.map fun character => .value (.text character.toString))
  | .table fields => .ok (fields.map fun field => .value (.text field.1))
  | .integer _ => .error (.notIterable .integer)
  | .real _ => .error (.notIterable .real)
  | .boolean _ => .error (.notIterable .boolean)
  | .moment _ => .error (.notIterable .object)

end Settings

end Restyle
