import ClusterOverlay.Packet
import ClusterOverlay.Peer
import ClusterOverlay.Schedule

/-!
# Configuration

What an operator can set, with the values that hold otherwise.  Times are in
milliseconds.  `Config.check` refuses what the overlay cannot honour.
-/

namespace ClusterOverlay

/-- Where a node listens, and what it sends. -/
structure NetworkConfig where
  /-- The host on which the node listens and under which others know it. -/
  host : String := "127.0.0.1"
  port : UInt16 := 8000
  mainHost : String := "127.0.0.1"
  mainPort : UInt16 := 8000
  connectTimeout : Nat := 2000
  /-- Payload bytes in one fragment. -/
  maxPayload : Nat := Packet.payloadLimit
  /-- Port of the status page. -/
  statusPort : UInt16 := 7878
  deriving DecidableEq, Repr

/-- How packets are scheduled. -/
structure SchedulerConfig where
  epoch : Nat := 100
  rotation : Nat := 1000
  highestBudget : Nat := 50
  highBudget : Nat := 30
  lowBudget : Nat := 20
  deriving DecidableEq, Repr

/-- How small payloads are collected. -/
structure CoalesceConfig where
  /-- Bytes at which a batch is full. -/
  threshold : Nat := 2048
  maxLatency : Nat := 10
  checkInterval : Nat := 5
  deriving DecidableEq, Repr

/-- How silence is noticed. -/
structure LivenessConfig where
  clientAliveInterval : Nat := 2000
  serverAliveInterval : Nat := 10000
  clusterTimeout : Nat := 6000
  mainTimeout : Nat := 30000
  reassemblyTtl : Nat := 30000
  deriving DecidableEq, Repr

/-- Everything an operator can set. -/
structure Config where
  network : NetworkConfig := {}
  scheduler : SchedulerConfig := {}
  coalesce : CoalesceConfig := {}
  liveness : LivenessConfig := {}
  deriving DecidableEq, Repr

/-- The first setting that the overlay cannot honour. -/
inductive ConfigFault
  | maxPayload
  | schedulerIntervals
  | schedulerBudgets
  | checkInterval
  | livenessIntervals
  deriving DecidableEq, Repr

/-- The text reported for a setting that cannot be honoured. -/
def ConfigFault.message : ConfigFault → String
  | maxPayload => "network.max_payload must be between 1 and 15340"
  | schedulerIntervals => "scheduler intervals must be non-zero"
  | schedulerBudgets => "scheduler budgets must be non-zero"
  | checkInterval => "coalesce.check_interval_ms must be non-zero"
  | livenessIntervals => "liveness intervals must be non-zero"

/-- Why there is no configuration. -/
inductive ConfigError
  /-- The file cannot be read as text. -/
  | readFailed
  /-- The text is no configuration. -/
  | parseFailed
  /-- The file cannot be written. -/
  | writeFailed
  | invalid (fault : ConfigFault)
  deriving DecidableEq, Repr

/-- The text reported, where it depends on nothing but the configuration. -/
def ConfigError.message? : ConfigError → Option String
  | invalid fault => some ("invalid configuration: " ++ fault.message)
  | _ => none

namespace NetworkConfig

/-- The node that listens under this configuration. -/
def localPeer (config : NetworkConfig) : Peer :=
  ⟨config.host, config.port⟩

/-- The main server of the overlay that the node joins. -/
def mainPeer (config : NetworkConfig) : Peer :=
  ⟨config.mainHost, config.mainPort⟩

end NetworkConfig

/-- The schedule that a configuration asks for, created now. -/
def SchedulerConfig.schedule (config : SchedulerConfig) (now : Nat) : Schedule :=
  Schedule.create ⟨config.highestBudget, config.highBudget, config.lowBudget⟩
    (milliseconds config.epoch) (milliseconds config.rotation) now

/-- Refuse what the overlay cannot honour. -/
def Config.check (config : Config) : Except ConfigError Unit :=
  if config.network.maxPayload = 0
      ∨ Packet.frameLimit < config.network.maxPayload + Packet.headerLength then
    .error (.invalid .maxPayload)
  else if config.scheduler.epoch = 0 ∨ config.scheduler.rotation = 0 then
    .error (.invalid .schedulerIntervals)
  else if config.scheduler.highestBudget = 0 ∨ config.scheduler.highBudget = 0
      ∨ config.scheduler.lowBudget = 0 then
    .error (.invalid .schedulerBudgets)
  else if config.coalesce.checkInterval = 0 then
    .error (.invalid .checkInterval)
  else if config.liveness.clientAliveInterval = 0 ∨ config.liveness.serverAliveInterval = 0
      ∨ config.liveness.clusterTimeout = 0 ∨ config.liveness.mainTimeout = 0 then
    .error (.invalid .livenessIntervals)
  else
    .ok ()

end ClusterOverlay
