import ClusterOverlay.Config

/-!
# Settings by name

Every field of a configuration has a name within one of four sections.  The
list `Config.settings` ties the names to the fields; reading and writing
configuration files are both driven by it.
-/

namespace ClusterOverlay

/-- The value of a setting. -/
inductive SettingValue
  | text (text : String)
  | number (number : Nat)
  deriving DecidableEq, Repr

/-- A field of the configuration and its name. -/
structure Setting where
  group : String
  name : String
  get : Config → SettingValue
  /-- Set the field, unless the value is of the wrong kind or does not fit. -/
  set : SettingValue → Config → Option Config

namespace Setting

/-- A field that holds a text. -/
def ofText (group name : String) (get : Config → String) (set : String → Config → Config) :
    Setting where
  group
  name
  get config := .text (get config)
  set
    | .text text, config => some (set text config)
    | .number _, _ => none

/-- A field that holds a number below a bound. -/
def ofNumber (group name : String) (bound : Nat) (get : Config → Nat)
    (set : Nat → Config → Config) : Setting where
  group
  name
  get config := .number (get config)
  set
    | .number number, config => if number < bound then some (set number config) else none
    | .text _, _ => none

/-- A text in the first section. -/
def host (name : String) (get : NetworkConfig → String)
    (set : String → NetworkConfig → NetworkConfig) : Setting :=
  ofText "network" name (get ·.network) fun text config =>
    { config with network := set text config.network }

/-- A number in the first section. -/
def network (name : String) (bound : Nat) (get : NetworkConfig → Nat)
    (set : Nat → NetworkConfig → NetworkConfig) : Setting :=
  ofNumber "network" name bound (get ·.network) fun number config =>
    { config with network := set number config.network }

/-- A port in the first section. -/
def port (name : String) (get : NetworkConfig → UInt16)
    (set : UInt16 → NetworkConfig → NetworkConfig) : Setting :=
  network name UInt16.size (fun config => (get config).toNat)
    fun number => set (UInt16.ofNat number)

/-- A number in the second section. -/
def scheduler (name : String) (bound : Nat) (get : SchedulerConfig → Nat)
    (set : Nat → SchedulerConfig → SchedulerConfig) : Setting :=
  ofNumber "scheduler" name bound (get ·.scheduler) fun number config =>
    { config with scheduler := set number config.scheduler }

/-- A number in the third section. -/
def coalesce (name : String) (get : CoalesceConfig → Nat)
    (set : Nat → CoalesceConfig → CoalesceConfig) : Setting :=
  ofNumber "coalesce" name UInt64.size (get ·.coalesce) fun number config =>
    { config with coalesce := set number config.coalesce }

/-- A number in the fourth section. -/
def liveness (name : String) (get : LivenessConfig → Nat)
    (set : Nat → LivenessConfig → LivenessConfig) : Setting :=
  ofNumber "liveness" name UInt64.size (get ·.liveness) fun number config =>
    { config with liveness := set number config.liveness }

end Setting

namespace Config

/-- The names of the sections, in order. -/
def groups : List String :=
  ["network", "scheduler", "coalesce", "liveness"]

/-- All settings, in order. -/
def settings : List Setting :=
  [.host "host" (·.host) fun host config => { config with host },
    .port "port" (·.port) fun port config => { config with port },
    .host "main_host" (·.mainHost) fun mainHost config => { config with mainHost },
    .port "main_port" (·.mainPort) fun mainPort config => { config with mainPort },
    .network "connect_timeout_ms" UInt64.size (·.connectTimeout)
      fun connectTimeout config => { config with connectTimeout },
    .network "max_payload" UInt64.size (·.maxPayload)
      fun maxPayload config => { config with maxPayload },
    .port "status_port" (·.statusPort) fun statusPort config => { config with statusPort },
    .scheduler "epoch_ms" UInt64.size (·.epoch) fun epoch config => { config with epoch },
    .scheduler "rotation_ms" UInt64.size (·.rotation)
      fun rotation config => { config with rotation },
    .scheduler "highest_budget" UInt32.size (·.highestBudget)
      fun highestBudget config => { config with highestBudget },
    .scheduler "high_budget" UInt32.size (·.highBudget)
      fun highBudget config => { config with highBudget },
    .scheduler "low_budget" UInt32.size (·.lowBudget)
      fun lowBudget config => { config with lowBudget },
    .coalesce "threshold_bytes" (·.threshold)
      fun threshold config => { config with threshold },
    .coalesce "max_latency_ms" (·.maxLatency)
      fun maxLatency config => { config with maxLatency },
    .coalesce "check_interval_ms" (·.checkInterval)
      fun checkInterval config => { config with checkInterval },
    .liveness "client_alive_interval_ms" (·.clientAliveInterval)
      fun clientAliveInterval config => { config with clientAliveInterval },
    .liveness "server_alive_interval_ms" (·.serverAliveInterval)
      fun serverAliveInterval config => { config with serverAliveInterval },
    .liveness "cluster_timeout_ms" (·.clusterTimeout)
      fun clusterTimeout config => { config with clusterTimeout },
    .liveness "main_timeout_ms" (·.mainTimeout)
      fun mainTimeout config => { config with mainTimeout },
    .liveness "reassembly_ttl_ms" (·.reassemblyTtl)
      fun reassemblyTtl config => { config with reassemblyTtl }]

/-- The settings of a section, in order. -/
def settingsOf (group : String) : List Setting :=
  settings.filter (·.group = group)

end Config

end ClusterOverlay
