import ClusterOverlay.Config.Setting
import ClusterOverlay.Toml.Document

/-!
# The configuration file and the environment

A configuration comes from three sources.  What the environment says wins over
what the file says, and the file wins over the defaults.  The file is a TOML
document with one table per section; names that are no settings are ignored.
A section may also be an array, which gives the settings in order.
-/

namespace ClusterOverlay

/-- The variables that are set. -/
abbrev Environment := List (String × String)

/-- What is found where the configuration file should be. -/
inductive ConfigFile
  | missing
  /-- Nothing is found, and nothing can be made, because a file stands in the
  way. -/
  | obstructed
  | directory
  | content (bytes : Bytes)
  deriving DecidableEq, Repr

namespace Config

/-! ## Location -/

/-- The path of an entry of a directory. -/
def joinPath (directory entry : String) : String :=
  if directory.isEmpty || directory.endsWith "/" then directory ++ entry
  else directory ++ "/" ++ entry

/-- Where the configuration file is. -/
def path (environment : Environment) : String :=
  match environment.lookup "TANDEM_CONFIG" with
  | some path => path
  | none =>
      let base :=
        match environment.lookup "XDG_CONFIG_HOME" with
        | some directory => directory
        | none => joinPath ((environment.lookup "HOME").getD "/tmp") ".config"
      joinPath (joinPath base "tandem") "config.toml"

/-! ## Reading -/

/-- The setting that a TOML value gives, if it can be one. -/
def settingValue? : Toml.Value → Option SettingValue
  | .string text => some (.text text)
  | .integer number => if 0 ≤ number then some (.number number.toNat) else none
  | _ => none

/-- Set a setting to a TOML value. -/
def assign? (setting : Setting) (value : Toml.Value) (config : Config) : Option Config := do
  setting.set (← settingValue? value) config

/-- Read a section given as a table. -/
def readEntries? (settings : List Setting) (entries : Toml.Entries) (config : Config) :
    Option Config :=
  settings.foldlM
    (fun config setting =>
      match entries.lookup setting.name with
      | some value => assign? setting value config
      | none => some config)
    config

/-- Read a section given as an array. -/
def readElements? (settings : List Setting) (elements : List Toml.Value) (config : Config) :
    Option Config :=
  (settings.zip elements).foldlM (fun config (setting, value) => assign? setting value config)
    config

/-- Read a section.  A date counts as an empty one. -/
def readSection? (group : String) (value : Toml.Value) (config : Config) : Option Config :=
  match value with
  | .table _ entries => readEntries? (settingsOf group) entries config
  | .array elements => readElements? (settingsOf group) elements config
  | .tables elements => readElements? (settingsOf group) elements config
  | .dateTime _ => some config
  | _ => none

/-- Read a configuration from the text of a file. -/
def ofText? (text : String) : Option Config := do
  let document ← Toml.parse? text
  groups.foldlM
    (fun config group =>
      match document.lookup group with
      | some value => readSection? group value config
      | none => some config)
    {}

/-! ## Environment -/

/-- Read a port: decimal digits, with a plus sign in front or without. -/
def port? (text : String) : Option UInt16 :=
  let digits :=
    match text.toList with
    | '+' :: digits => digits
    | digits => digits
  if digits.isEmpty || !digits.all Char.isDigit then none
  else if Ipv4.digitsValue digits < 65536 then some (UInt16.ofNat (Ipv4.digitsValue digits))
  else none

/-- What the environment says about the network.  A port that cannot be read
is ignored. -/
def withEnvironment (environment : Environment) (config : Config) : Config :=
  let host (name : String) (value : String) := (environment.lookup name).getD value
  let port (name : String) (value : UInt16) := ((environment.lookup name).bind port?).getD value
  { config with
    network :=
      { config.network with
        host := host "TANDEM_NETWORK__HOST" config.network.host
        port := port "TANDEM_NETWORK__PORT" config.network.port
        mainHost := host "TANDEM_NETWORK__MAIN_HOST" config.network.mainHost
        mainPort := port "TANDEM_NETWORK__MAIN_PORT" config.network.mainPort
        statusPort := port "TANDEM_NETWORK__STATUS_PORT" config.network.statusPort } }

/-! ## Loading -/

/-- The configuration in a file, or the defaults if there is no file. -/
def ofFile : ConfigFile → Except ConfigError Config
  | .missing => .ok {}
  | .obstructed => .ok {}
  | .directory => .error .readFailed
  | .content bytes =>
      match Bytes.text? bytes with
      | none => .error .readFailed
      | some text =>
          match ofText? text with
          | some config => .ok config
          | none => .error .parseFailed

/-- The configuration from all sources, if the overlay can honour it. -/
def load (environment : Environment) (file : ConfigFile) : Except ConfigError Config := do
  let config := withEnvironment environment (← ofFile file)
  config.check
  return config

/-! ## Writing -/

/-- A setting as it stands in a file.  Texts are written between quotes as they
are; those of the defaults hold nothing to be escaped. -/
def line (config : Config) (setting : Setting) : String :=
  let value :=
    match setting.get config with
    | .text text => "\"" ++ text ++ "\""
    | .number number => number.repr
  setting.name ++ " = " ++ value ++ "\n"

/-- A section as it stands in a file. -/
def lines (config : Config) (group : String) : String :=
  "[" ++ group ++ "]\n" ++ String.join ((settingsOf group).map config.line)

/-- The file that holds the defaults. -/
def defaultText : String :=
  "\n".intercalate (groups.map ({} : Config).lines)

/-- Make sure that there is a file: if nothing is there, write the defaults. -/
def ensureFile : ConfigFile → Except ConfigError ConfigFile
  | .missing => .ok (.content (Bytes.ofText defaultText))
  | .obstructed => .error .writeFailed
  | .directory => .ok .directory
  | .content bytes => .ok (.content bytes)

end Config

end ClusterOverlay
