import Fleet.Memory.Basic

/-!
# How changes take effect

An effect is refused when what it creates exists, when what it names is missing or when what it deletes is
in use. Otherwise it takes effect as a whole and is entered in the journal, together with the disks that go
with an instance.
-/

namespace Fleet

namespace Memory

def notFound (k : ResourceKey) : OperationError :=
  ⟨.notFound, "The resource '" ++ k.2.2 ++ "' of kind " ++ k.1.text ++ " was not found", none⟩

def alreadyExists (r : Resource) : OperationError :=
  ⟨.alreadyExists, "The resource '" ++ r.selfLink ++ "' already exists", none⟩

def inUse (r user : Resource) : OperationError :=
  ⟨.resourceInUse, "The " ++ r.kind.text ++ " resource '" ++ r.selfLink ++
    "' is already being used by '" ++ user.selfLink ++ "'", none⟩

/-- The key of the network that a reference denotes. -/
def networkKey (link : String) : ResourceKey := resourceKey .network .global (Link.name link)

/-- The key of the disk in a zone that a reference denotes. -/
def diskKey (zone link : String) : ResourceKey := resourceKey .disk (.zone zone) (Link.name link)

/-- The resources that an instance needs: its networks and then its disks. -/
def referencesOf (i : Instance) : List ResourceKey :=
  i.networkInterfaces.map (fun nic => networkKey nic.network) ++ i.disks.map (fun d => diskKey i.zone d.source)

/-- The first resource that a new resource needs and that is not stored. -/
def missingReference? (m : Memory) : Resource → Option ResourceKey
  | .instance i => (referencesOf i).find? fun k => !m.resources.contains k
  | _ => none

/-- Whether `user` keeps `r` from being deleted: a firewall and an instance keep their networks, and an
instance keeps its disks. -/
def uses : Resource → Resource → Bool
  | .firewall f, .network n => Link.sameResource f.network n.selfLink
  | .instance i, .network n => i.isOnNetwork n.selfLink
  | .instance i, .disk d => i.disks.any fun a => Link.sameResource a.source d.selfLink
  | _, _ => false

/-- The first resource, in the order of the store, that keeps another one from being deleted. -/
def user? (m : Memory) (r : Resource) : Option Resource := m.resources.values.find? fun u => uses u r

def log (m : Memory) (e : JournalEntry) : Memory := { m with applied := m.applied ++ [e] }

/-- Removes a stored resource and enters that in the journal. -/
def remove (m : Memory) (k : ResourceKey) : Memory :=
  { m with resources := m.resources.erase k }.log (.delete k.1 k.2.2)

/-- Removes those disks of an instance that go with it, as far as they are there. -/
def removeAttached (m : Memory) (zone : String) : List AttachedDisk → Memory
  | [] => m
  | d :: ds =>
    let k := diskKey zone d.source
    -- Nobody asks here whether another instance is attached to the disk.
    let m := if d.autoDelete && m.resources.contains k then m.remove k else m
    removeAttached m zone ds

/-- The disks that go with a resource. -/
def removeWith (m : Memory) : Resource → Memory
  | .instance i => m.removeAttached i.zone i.disks
  | _ => m

/-- Carries out an effect, or refuses it. -/
def apply (m : Memory) : Effect → Except OperationError Unit × Memory
  | .create r =>
    if m.resources.contains r.key then (.error (alreadyExists r), m)
    else
      match m.missingReference? r with
      | some k => (.error (notFound k), m)
      | none => (.ok (), (m.log (.insert r.kind r.name)).seed r)
  | .delete k =>
    match m.resources.find? k with
    | none => (.error (notFound k), m)
    | some r =>
      match m.user? r with
      | some u => (.error (inUse r u), m)
      | none => (.ok (), (m.remove k).removeWith r)
  | .setTags k items =>
    -- The fingerprint is used up also when the instance is missing.
    let (fingerprint, m) := m.newFingerprint
    match m.resources.find? k with
    | some (.instance i) =>
      let changed := { i with tags := ⟨items, some fingerprint⟩ }
      (.ok (), { m with resources := m.resources.insert k (.instance changed) }.log
        (.setTags k.2.2 items (some fingerprint)))
    | _ => (.error (notFound k), m)

end Memory

end Fleet
