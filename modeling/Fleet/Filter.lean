import Fleet.Resource.Basic

/-!
# Filters for listings

A filter asks for resources in a scope, on a network, with a label or with the start of a name; what it
leaves open does not matter.
-/

namespace Fleet

structure Filter where
  scope : Option Scope
  network : Option String
  label : Option (String × String)
  nameStart : Option String
  deriving DecidableEq

namespace Filter

/-- The filter that every resource passes. -/
def any : Filter := ⟨none, none, none, none⟩

/-- The resources on a network. -/
def onNetwork (network : String) : Filter := { any with network := some network }

/-- The instances with a metadata entry. -/
def withLabel (key value : String) : Filter := { any with label := some (key, value) }

/-- The resources whose names start with a text. -/
def withNameStart (start : String) : Filter := { any with nameStart := some start }

/-- Whether a resource belongs to a network. A network belongs to itself and a disk to none. -/
def isOn (network : String) : Resource → Bool
  | .instance i => i.isOnNetwork network
  | .firewall f => Link.sameResource f.network network
  | .network n => Link.sameResource n.selfLink network
  | .disk _ => false

/-- Only instances have labels. -/
def isLabelled (key value : String) : Resource → Bool
  | .instance i => i.metadata.find? key == some value
  | _ => false

/-- Whether a resource passes. The scope is asked of zonal resources only. -/
def admits (f : Filter) (r : Resource) : Bool :=
  f.scope.all (fun s => !r.kind.isZonal || r.scope == s) &&
    f.nameStart.all (fun p => p.toList.isPrefixOf r.name.toList) &&
    f.network.all (fun n => isOn n r) && f.label.all (fun l => isLabelled l.1 l.2 r)

end Filter

end Fleet
