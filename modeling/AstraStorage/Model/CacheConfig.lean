import Mathlib.Data.Rat.Defs
import AstraStorage.Model.Strings

/-!
# The Redis configuration

`internal/platform/redis/client/config.go` and `internal/platform/redis/cache/policy.go`, with the
expirations that the read cache derives from them. Durations are in nanoseconds. The user name, the
password and the fields of the policy that no expiration depends on are left out.
-/

namespace AstraStorage.CacheConfig

/-- Durations are counted in nanoseconds. -/
def second : Int64 := 1000000000

def minute : Int64 := 60 * second

/-- A value that is not positive stands for the default. -/
def orDefault (value default : Int64) : Int64 := if value ≤ 0 then default else value

/-- `if failed { return fmt.Errorf(message) }`. -/
def refuse (failed : Prop) [Decidable failed] (message : String) : Except String Unit :=
  if failed then .error message else .ok ()

structure ReplicationGroupConfig where
  masterSetName : String
  fileMetaTTL : Int64 := 0
  fileMetaTTLJitter : Int64 := 0
  downloadPlanTTL : Int64 := 0
  directoryListTTL : Int64 := 0
  nodeHealthTTL : Int64 := 0
  nullEntryTTL : Int64 := 0
  hotspotThreshold : Int64 := 0
  hotspotWindow : Int64 := 0
  staleServeWindow : Int64 := 0
  bloomExpectedInsert : Int64 := 0
  bloomFalsePositive : Rat := 0

def ReplicationGroupConfig.withDefaults (c : ReplicationGroupConfig) : ReplicationGroupConfig where
  masterSetName := c.masterSetName
  fileMetaTTL := orDefault c.fileMetaTTL (5 * minute)
  fileMetaTTLJitter := orDefault c.fileMetaTTLJitter (30 * second)
  downloadPlanTTL := orDefault c.downloadPlanTTL (3 * minute)
  directoryListTTL := orDefault c.directoryListTTL (90 * second)
  nodeHealthTTL := orDefault c.nodeHealthTTL (15 * second)
  nullEntryTTL := orDefault c.nullEntryTTL (30 * second)
  hotspotThreshold := orDefault c.hotspotThreshold 8
  hotspotWindow := orDefault c.hotspotWindow minute
  staleServeWindow := orDefault c.staleServeWindow (15 * second)
  bloomExpectedInsert := orDefault c.bloomExpectedInsert 100000
  bloomFalsePositive := if c.bloomFalsePositive ≤ 0 then 1 / 100 else c.bloomFalsePositive

/-- The lifetimes are checked after the defaults have been filled in. -/
def ReplicationGroupConfig.validate (c : ReplicationGroupConfig) (name : String) :
    Except String Unit := do
  refuse (trimSpace c.masterSetName = "")
    ("redis config: " ++ name ++ " master set name is required")
  let cfg := c.withDefaults
  refuse (cfg.fileMetaTTL ≤ 0 ∨ cfg.downloadPlanTTL ≤ 0 ∨ cfg.directoryListTTL ≤ 0 ∨
      cfg.nodeHealthTTL ≤ 0 ∨ cfg.nullEntryTTL ≤ 0)
    ("redis config: " ++ name ++ " cache ttl values must be positive")
  refuse (cfg.fileMetaTTLJitter < 0)
    ("redis config: " ++ name ++ " ttl jitter cannot be negative")
  refuse (cfg.hotspotThreshold ≤ 0)
    ("redis config: " ++ name ++ " hotspot threshold must be positive")
  refuse (cfg.hotspotWindow ≤ 0)
    ("redis config: " ++ name ++ " hotspot window must be positive")
  refuse (cfg.staleServeWindow < 0)
    ("redis config: " ++ name ++ " stale serve window cannot be negative")
  refuse (cfg.bloomExpectedInsert ≤ 0)
    ("redis config: " ++ name ++ " bloom expected insertions must be positive")
  refuse (cfg.bloomFalsePositive ≤ 0 ∨ cfg.bloomFalsePositive ≥ 1)
    ("redis config: " ++ name ++ " bloom false positive rate must be in (0,1)")

structure WarmupConfig where
  interval : Int64 := 0
  batchSize : Int64 := 0
  concurrency : Int64 := 0
  lockTTL : Int64 := 0
  startupTopN : Int64 := 0
  hotsetRefresh : Int64 := 0

def WarmupConfig.withDefaults (c : WarmupConfig) : WarmupConfig where
  interval := orDefault c.interval (30 * second)
  batchSize := orDefault c.batchSize 32
  concurrency := orDefault c.concurrency 4
  lockTTL := orDefault c.lockTTL (10 * second)
  startupTopN := orDefault c.startupTopN 128
  hotsetRefresh := orDefault c.hotsetRefresh (2 * minute)

/-- Every value is checked after the defaults have been filled in. -/
def WarmupConfig.validate (c : WarmupConfig) : Except String Unit := do
  let cfg := c.withDefaults
  refuse (cfg.interval ≤ 0) "redis config: warmup interval must be positive"
  refuse (cfg.batchSize ≤ 0) "redis config: warmup batch size must be positive"
  refuse (cfg.concurrency ≤ 0) "redis config: warmup concurrency must be positive"
  refuse (cfg.lockTTL ≤ 0) "redis config: warmup lock ttl must be positive"
  refuse (cfg.startupTopN ≤ 0) "redis config: warmup startup top n must be positive"
  refuse (cfg.hotsetRefresh ≤ 0) "redis config: hotset refresh interval must be positive"

structure Config where
  enabled : Bool
  sentinelEndpoints : List String
  dialTimeout : Int64 := 0
  readTimeout : Int64 := 0
  writeTimeout : Int64 := 0
  cache : ReplicationGroupConfig
  coord : ReplicationGroupConfig
  warmup : WarmupConfig := {}

def Config.withDefaults (c : Config) : Config :=
  { c with
    dialTimeout := orDefault c.dialTimeout (3 * second)
    readTimeout := orDefault c.readTimeout second
    writeTimeout := orDefault c.writeTimeout second
    cache := c.cache.withDefaults
    coord := c.coord.withDefaults
    warmup := c.warmup.withDefaults }

/-- Nothing is checked unless Redis is enabled. -/
def Config.validate (c : Config) : Except String Unit :=
  if c.enabled = false then .ok ()
  else do
    refuse (c.sentinelEndpoints = [])
      "redis config: sentinel endpoints are required when redis is enabled"
    refuse (trimSpace c.cache.masterSetName = "")
      "redis config: cache master set name is required"
    refuse (trimSpace c.coord.masterSetName = "")
      "redis config: coord master set name is required"
    refuse (c.cache.masterSetName = c.coord.masterSetName)
      "redis config: cache and coord master set names must differ"
    let cfg := c.withDefaults
    refuse (cfg.dialTimeout ≤ 0) "redis config: dial timeout must be positive"
    refuse (cfg.readTimeout ≤ 0) "redis config: read timeout must be positive"
    refuse (cfg.writeTimeout ≤ 0) "redis config: write timeout must be positive"
    cfg.cache.validate "cache"
    cfg.coord.validate "coord"
    cfg.warmup.validate

/-! ### Expirations -/

structure Policy where
  fileMetaTTL : Int64
  fileMetaTTLJitter : Int64
  downloadPlanTTL : Int64
  directoryListTTL : Int64

/-- The policy takes the settings of the group with their defaults. -/
def newPolicy (cfg : ReplicationGroupConfig) : Policy :=
  let cfg := cfg.withDefaults
  { fileMetaTTL := cfg.fileMetaTTL
    fileMetaTTLJitter := cfg.fileMetaTTLJitter
    downloadPlanTTL := cfg.downloadPlanTTL
    directoryListTTL := cfg.directoryListTTL }

/-- `rand.Int63n`, which panics unless the bound is positive. Every number below the bound is drawn
for some `random`. -/
def int63n (random : Nat) (n : Int64) : Option Int64 :=
  if n ≤ 0 then none else some (Int64.ofInt (random % n.toInt))

/-- A lifetime moved by at most `jitter` either way. -/
def applyTTLJitter (random : Nat) (ttl jitter : Int64) : Option Int64 :=
  if ttl ≤ 0 ∨ jitter ≤ 0 then some ttl
  else do
    let window := jitter * 2
    let delta := (← int63n random (window + 1)) - jitter
    return ttl + delta

/-- What the read cache stores. -/
inductive Entry where
  | file
  | downloadPlan
  | directoryList

/-- The time to live that `GetFile`, `GetDownloadPlan` or `GetChildren` passes on. -/
def Policy.ttl (policy : Policy) : Entry → Int64
  | .file => policy.fileMetaTTL
  | .downloadPlan => policy.downloadPlanTTL
  | .directoryList => policy.directoryListTTL

/-- The expiration that `readThroughWithLock` passes to Redis, if it does not panic. -/
def Policy.expiration (policy : Policy) (entry : Entry) (random : Nat) : Option Int64 :=
  if policy.fileMetaTTLJitter > 0 then
    applyTTLJitter random (policy.ttl entry) policy.fileMetaTTLJitter
  else some (policy.ttl entry)

end AstraStorage.CacheConfig
