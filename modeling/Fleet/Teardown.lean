import Fleet.Client
import Fleet.Node

/-!
# Taking down one node

The instance is deleted first and its boot disk afterwards, unless the instance's metadata say that the
disk is to be kept. What is already gone is no failure.
-/

namespace Fleet

namespace Instance

/-- Whether the boot disk stays when the instance goes. -/
def keepsBootDisk (i : Instance) : Bool :=
  i.metadata.find? Naming.deleteBootDiskKey == some (NodeSpec.flagText false)

/-- The name of the boot disk: the one that is attached, or the one that a launch would have made. -/
def bootDiskName (i : Instance) : String :=
  match i.bootDisk? with
  | some d => Link.name d.source
  | none => Naming.bootDiskName i.name

end Instance

namespace Client

/-- Deletes an instance and, unless it is to be kept, its boot disk. -/
def destroy (c : Client) (i : Instance) : Action Unit := do
  let _ ← c.deleteIfExists .instance (.zone i.zone) i.name
  if i.keepsBootDisk then return
  let _ ← c.deleteIfExists .disk (.zone i.zone) i.bootDiskName

end Client

end Fleet
