import Fleet.Failure

/-!
# Resources

The resources that make up a group of nodes, as the platform reports them, and the requests that create
and change them. `Resource.ofKind?` reads a resource as one of a given kind and fails on any other.
-/

namespace Fleet

/-- Texts under textual keys, in key order. -/
abbrev Metadata := OrderedMap String String

structure Network where
  name : String
  selfLink : String
  ipv4Range : Option String
  gatewayIpv4 : Option String
  description : Option String
  deriving DecidableEq

/-- A protocol and the ports it may reach; no ports stand for all of them. -/
structure FirewallRule where
  protocol : String
  ports : List String
  deriving DecidableEq

/-- The rule that lets a protocol reach the given ports. -/
def FirewallRule.ofPorts (protocol : String) (ports : List Nat) : FirewallRule :=
  ⟨protocol, ports.map toString⟩

structure Firewall where
  name : String
  selfLink : String
  /-- The network whose traffic is filtered. -/
  network : String
  sourceRanges : List String
  sourceTags : List String
  targetTags : List String
  allowed : List FirewallRule
  deriving DecidableEq

structure Disk where
  name : String
  selfLink : String
  zone : String
  sizeGb : Nat
  sourceImage : Option String
  status : Option String
  deriving DecidableEq

/-- The states of an instance's life. -/
inductive InstanceStatus
  | provisioning
  | staging
  | running
  | stopping
  | stopped
  | suspended
  | terminated
  | unknown
  deriving DecidableEq, Repr

namespace InstanceStatus

def text : InstanceStatus → String
  | provisioning => "PROVISIONING"
  | staging => "STAGING"
  | running => "RUNNING"
  | stopping => "STOPPING"
  | stopped => "STOPPED"
  | suspended => "SUSPENDED"
  | terminated => "TERMINATED"
  | unknown => "UNKNOWN"

/-- All states that a text can name; every other text stands for the unknown one. -/
def all : List InstanceStatus :=
  [provisioning, staging, running, stopping, stopped, suspended, terminated, unknown]

def ofText (s : String) : InstanceStatus :=
  (all.find? fun t => t.text == s).getD unknown

end InstanceStatus

/-- The tags of an instance. A change has to name the fingerprint that was read with the tags, so that no
change is based on tags that have been replaced meanwhile. -/
structure Tags where
  items : List String
  fingerprint : Option String
  deriving DecidableEq

namespace Tags

def containsAll (t : Tags) (wanted : List String) : Bool :=
  wanted.all fun tag => t.items.contains tag

theorem containsAll_iff {t : Tags} {wanted : List String} :
    t.containsAll wanted = true ↔ ∀ tag ∈ wanted, tag ∈ t.items := by
  simp [containsAll]

/-- `items` followed by the tags that it lacks, each once. -/
def merged (items wanted : List String) : List String :=
  wanted.foldl (fun acc tag => if acc.contains tag then acc else acc ++ [tag]) items

/-- The tags that are lacking are added in the order in which they are wanted first. -/
theorem merged_eq (items wanted : List String) :
    merged items wanted = items ++ (wanted.filter fun t => t ∉ items).eraseDups := by
  induction wanted generalizing items with
  | nil => simp [merged]
  | cons w ws ih =>
    show merged (if items.contains w = true then items else items ++ [w]) ws = _
    by_cases hw : w ∈ items
    · rw [if_pos (by simpa using hw), ih, List.filter_cons_of_neg (by simpa using hw)]
    · have hws : (ws.filter fun t => t ∉ items ++ [w]) = (ws.filter fun t => t ∉ items).filter fun t => !t == w := by
        rw [List.filter_filter]
        refine List.filter_congr fun t _ => ?_
        by_cases ht : t = w <;> simp [ht]
      rw [if_neg (by simpa using hw), ih, hws, List.filter_cons_of_pos (by simpa using hw), List.eraseDups_cons,
        List.append_assoc]
      rfl

theorem mem_merged {items wanted : List String} {t : String} : t ∈ merged items wanted ↔ t ∈ items ∨ t ∈ wanted := by
  by_cases ht : t ∈ items <;> simp [merged_eq, List.mem_eraseDups, ht]

end Tags

structure NetworkInterface where
  network : String
  networkIp : Option String
  natIp : Option String
  deriving DecidableEq

structure AttachedDisk where
  source : String
  boot : Bool
  /-- Whether the platform deletes the disk together with the instance. -/
  autoDelete : Bool
  deriving DecidableEq

structure Instance where
  name : String
  selfLink : String
  zone : String
  machineType : String
  status : InstanceStatus
  tags : Tags
  networkInterfaces : List NetworkInterface
  disks : List AttachedDisk
  metadata : Metadata
  deriving DecidableEq

namespace Instance

def bootDisk? (i : Instance) : Option AttachedDisk := i.disks.find? (·.boot)

def isOnNetwork (i : Instance) (network : String) : Bool :=
  i.networkInterfaces.any fun nic => Link.sameResource nic.network network

end Instance

/-- A resource of any kind. -/
inductive Resource
  | network (n : Network)
  | firewall (f : Firewall)
  | disk (d : Disk)
  | instance (i : Instance)
  deriving DecidableEq

/-- What all resources have in common. -/
structure Summary where
  kind : Kind
  name : String
  selfLink : String
  scope : Scope
  status : Option String
  deriving DecidableEq

/-- The type of the resources of one kind. -/
abbrev Kind.Record : Kind → Type
  | .network => Network
  | .firewall => Firewall
  | .disk => Disk
  | .instance => Instance

namespace Resource

def kind : Resource → Kind
  | network _ => .network
  | firewall _ => .firewall
  | disk _ => .disk
  | .instance _ => .instance

def name : Resource → String
  | network n => n.name
  | firewall f => f.name
  | disk d => d.name
  | .instance i => i.name

def selfLink : Resource → String
  | network n => n.selfLink
  | firewall f => f.selfLink
  | disk d => d.selfLink
  | .instance i => i.selfLink

def scope : Resource → Scope
  | network _ => .global
  | firewall _ => .global
  | disk d => .zone d.zone
  | .instance i => .zone i.zone

def status : Resource → Option String
  | network _ => none
  | firewall _ => none
  | disk d => d.status
  | .instance i => some i.status.text

def summary (r : Resource) : Summary := ⟨r.kind, r.name, r.selfLink, r.scope, r.status⟩

/-- The resource of kind `k` that `r` is; a resource of another kind is a failure. -/
def ofKind? : (k : Kind) → Resource → Except Failure k.Record
  | .network, network n => .ok n
  | .firewall, firewall f => .ok f
  | .disk, disk d => .ok d
  | .instance, .instance i => .ok i
  | k, r => .error (.wrongKind k r.kind)

/-- A resource of a known kind as a resource of any kind. -/
def ofRecord : (k : Kind) → k.Record → Resource
  | .network, n => network n
  | .firewall, f => firewall f
  | .disk, d => disk d
  | .instance, i => .instance i

theorem ofKind?_ofRecord (k : Kind) (a : k.Record) : ofKind? k (ofRecord k a) = .ok a := by
  cases k <;> rfl

theorem ofRecord_injective {k : Kind} {a b : k.Record} (h : ofRecord k a = ofRecord k b) : a = b := by
  have := ofKind?_ofRecord k a
  rw [h, ofKind?_ofRecord k b] at this
  exact (Except.ok.inj this).symm

theorem ofRecord_of_ofKind? {k : Kind} {r : Resource} {a : k.Record} (h : ofKind? k r = .ok a) :
    r = ofRecord k a := by
  cases k <;> cases r <;> simp_all [ofKind?, ofRecord]

theorem exists_ofKind? {k : Kind} {r : Resource} (h : r.kind = k) : ∃ a, ofKind? k r = .ok a ∧ r = ofRecord k a := by
  subst h
  cases r <;> exact ⟨_, rfl, rfl⟩

theorem mapM_ofKind? {k : Kind} {rs : List Resource} (h : ∀ r ∈ rs, r.kind = k) :
    ∃ as, rs.mapM (ofKind? k) = .ok as ∧ as.map (ofRecord k) = rs := by
  induction rs with
  | nil => exact ⟨[], rfl, rfl⟩
  | cons r rs ih =>
    obtain ⟨a, ha, hr⟩ := exists_ofKind? (h r List.mem_cons_self)
    obtain ⟨as, has, hrs⟩ := ih fun r' hr' => h r' (List.mem_cons_of_mem _ hr')
    refine ⟨a :: as, ?_, by rw [List.map_cons, hrs, ← hr]⟩
    rw [List.mapM_cons, ha, has]
    rfl

theorem eq_map_of_mapM_ofKind? {k : Kind} {rs : List Resource} {as : List k.Record} (h : rs.mapM (ofKind? k) = .ok as) :
    rs = as.map (ofRecord k) := by
  induction rs generalizing as with
  | nil =>
    cases h
    rfl
  | cons r rs ih =>
    rw [List.mapM_cons] at h
    cases ha : ofKind? k r with
    | error f =>
      rw [ha] at h
      cases h
    | ok a =>
      cases has : rs.mapM (ofKind? k) with
      | error f =>
        rw [ha, has] at h
        cases h
      | ok as' =>
        rw [ha, has] at h
        cases h
        rw [List.map_cons, ← ih has, ← ofRecord_of_ofKind? ha]

theorem exists_of_mapM_ofKind? {k : Kind} {rs : List Resource} {f : Failure} (h : rs.mapM (ofKind? k) = .error f) :
    ∃ r ∈ rs, ofKind? k r = .error f := by
  induction rs generalizing f with
  | nil => cases h
  | cons r rs ih =>
    rw [List.mapM_cons] at h
    cases ha : ofKind? k r with
    | error g =>
      rw [ha] at h
      cases h
      exact ⟨r, List.mem_cons_self, ha⟩
    | ok a =>
      cases has : rs.mapM (ofKind? k) with
      | error g =>
        rw [ha, has] at h
        cases h
        obtain ⟨r', hr', hf⟩ := ih has
        exact ⟨r', List.mem_cons_of_mem r hr', hf⟩
      | ok as =>
        rw [ha, has] at h
        cases h

end Resource

/-! ### Requests -/

structure NetworkSpec where
  name : String
  ipv4Range : String
  description : Option String
  deriving DecidableEq

structure FirewallSpec where
  name : String
  network : String
  sourceRanges : List String
  sourceTags : List String
  targetTags : List String
  allowed : List FirewallRule
  deriving DecidableEq

structure DiskSpec where
  name : String
  sizeGb : Nat
  sourceImage : String
  deriving DecidableEq

structure InstanceSpec where
  name : String
  machineType : String
  /-- The disk to boot from, which is deleted together with the instance. -/
  bootDisk : String
  network : String
  /-- Whether the instance gets an address that is reachable from outside. -/
  externalIp : Bool
  metadata : Metadata
  deriving DecidableEq

/-- A request to create a resource. -/
inductive ResourceSpec
  | network (n : NetworkSpec)
  | firewall (f : FirewallSpec)
  | disk (d : DiskSpec)
  | instance (i : InstanceSpec)
  deriving DecidableEq

namespace ResourceSpec

def kind : ResourceSpec → Kind
  | network _ => .network
  | firewall _ => .firewall
  | disk _ => .disk
  | .instance _ => .instance

def name : ResourceSpec → String
  | network n => n.name
  | firewall f => f.name
  | disk d => d.name
  | .instance i => i.name

end ResourceSpec

end Fleet
