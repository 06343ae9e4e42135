import Fleet.Settings.Basic
import Fleet.Yaml.Record

/-!
# Reading settings

Only the project has to be given. A section that is left out or empty, and a field that is left out of its
section, mean what is usual.
-/

namespace Fleet

open Text (limit16 limit32 limit64)

/-- Reads how polls are paced. -/
def PollPolicy.ofNode? (n : Yaml.Node) : Option PollPolicy := do
  let r ← n.record? ["initial_interval_ms", "max_interval_ms", "multiplier", "timeout_secs"]
  let usual := PollPolicy.standard
  let timeout := r.defaulted "timeout_secs" (usual.timeoutMs / 1000) (Yaml.Node.asNatBelow limit64)
  return ⟨← r.defaulted "initial_interval_ms" usual.initialMs (Yaml.Node.asNatBelow limit64),
    ← r.defaulted "max_interval_ms" usual.maxMs (Yaml.Node.asNatBelow limit64),
    ← r.defaulted "multiplier" usual.multiplier Yaml.Node.asNumber64, (← timeout) * 1000⟩

/-- Reads how requests are sent again. -/
def RetryPolicy.ofNode? (n : Yaml.Node) : Option RetryPolicy := do
  let r ← n.record? ["max_attempts", "initial_delay_ms", "max_delay_ms", "backoff_multiplier"]
  let usual := RetryPolicy.standard
  return ⟨← r.defaulted "max_attempts" usual.maxAttempts (Yaml.Node.asNatBelow limit32),
    ← r.defaulted "initial_delay_ms" usual.initialMs (Yaml.Node.asNatBelow limit64),
    ← r.defaulted "max_delay_ms" usual.maxMs (Yaml.Node.asNatBelow limit64),
    ← r.defaulted "backoff_multiplier" usual.multiplier Yaml.Node.asNumber64⟩

def NodeDefaults.ofNode? (n : Yaml.Node) : Option NodeDefaults := do
  let r ← n.record? ["machine_type", "image", "disk_size_gb", "inbound_ports", "external_ip", "login_user",
    "public_key_path"]
  let usual := NodeDefaults.standard
  return ⟨← r.defaulted "machine_type" usual.machineType Yaml.Node.asText,
    ← r.defaulted "image" usual.image Yaml.Node.asText,
    ← r.defaulted "disk_size_gb" usual.diskSizeGb (Yaml.Node.asNatBelow limit32),
    ← r.defaulted "inbound_ports" usual.inboundPorts (Yaml.Node.asList (Yaml.Node.asNatBelow limit16)),
    ← r.defaulted "external_ip" usual.externalIp Yaml.Node.asBool,
    ← r.optional "login_user" Yaml.Node.asText,
    ← r.optional "public_key_path" Yaml.Node.asText⟩

namespace Settings

def ofNode? (n : Yaml.Node) : Option Settings := do
  let r ← n.record? ["project", "zone", "access_token", "api_base", "resource_prefix", "concurrency", "poll",
    "retry", "node"]
  let usual := Settings.forProject (← r.required "project" Yaml.Node.asText)
  return ⟨usual.project,
    ← r.defaulted "zone" usual.zone Yaml.Node.asText,
    ← r.optional "access_token" Yaml.Node.asText,
    ← r.optional "api_base" Yaml.Node.asText,
    ← r.defaulted "resource_prefix" usual.networkStem Yaml.Node.asText,
    ← r.defaulted "concurrency" usual.concurrency (Yaml.Node.asNatBelow limit64),
    ← r.defaulted "poll" usual.poll PollPolicy.ofNode?,
    ← r.defaulted "retry" usual.retry RetryPolicy.ofNode?,
    ← r.defaulted "node" usual.node NodeDefaults.ofNode?⟩

/-- The settings that a text holds. -/
def ofText (text : String) : Except SettingsFailure Settings :=
  match (Yaml.parse? text).bind ofNode? with
  | some s => .ok s
  | none => .error .malformed

end Settings

end Fleet
