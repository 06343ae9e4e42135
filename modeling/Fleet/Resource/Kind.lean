import Fleet.OrderedMap
import Fleet.Text.Segments

/-!
# Kinds, scopes and links

What every resource of the platform has: a kind, a scope it lives in and a link that ends in its name.
References between resources are full links or bare names, and `sameResource` compares the two forms.
-/

namespace Fleet

/-- The kinds of resource that make up a group of nodes. -/
inductive Kind
  | network
  | firewall
  | disk
  | «instance»
  deriving DecidableEq, Repr, Inhabited

namespace Kind

/-- The collection of the platform that holds the resources of a kind. -/
def collection : Kind → String
  | network => "networks"
  | firewall => "firewalls"
  | disk => "disks"
  | .instance => "instances"

/-- Disks and instances live in a zone, networks and firewalls are global. -/
def isZonal : Kind → Bool
  | network => false
  | firewall => false
  | disk => true
  | .instance => true

def text : Kind → String
  | network => "network"
  | firewall => "firewall"
  | disk => "disk"
  | .instance => "instance"

/-- The place of a kind in listings of all kinds. -/
def rank : Kind → Nat
  | network => 0
  | firewall => 1
  | disk => 2
  | .instance => 3

instance : KeyOrder Kind :=
  KeyOrder.ofInjective rank fun a b h => by cases a <;> cases b <;> simp_all [rank]

end Kind

/-- Where a resource or an operation lives. -/
inductive Scope
  | global
  | region (name : String)
  | zone (name : String)
  deriving DecidableEq, Repr, Inhabited

namespace Scope

/-- The segments of a link that say where the resource lives. -/
def path : Scope → String
  | global => "global"
  | region r => "regions/" ++ r
  | zone z => "zones/" ++ z

/-- The rank and name by which scopes are ordered: the global one first, then regions, then zones. -/
def rank : Scope → Nat × String
  | global => (0, "")
  | region r => (1, r)
  | zone z => (2, z)

instance : KeyOrder Scope :=
  KeyOrder.ofInjective rank fun a b h => by cases a <;> cases b <;> simp_all [rank]

end Scope

namespace Link

/-- The last segment of a link; a bare name is its own last segment. -/
def name (link : String) : String := String.ofList (Text.afterLast '/' link.toList)

/-- Whether a reference has more than one segment. -/
def isPath (link : String) : Bool := link.toList.contains '/'

/-- Whether two references denote the same resource: two links when they are equal, a bare name and
anything else when their last segments are equal. -/
def sameResource (a b : String) : Bool :=
  if isPath a && isPath b then a == b else name a == name b

theorem name_eq_self {link : String} (h : '/' ∉ link.toList) : name link = link := by
  simp [name, Text.afterLast_of_not_mem h]

theorem name_append_path (start rest : String) : name (start ++ "/" ++ rest) = name rest := by
  have e : (start ++ "/" ++ rest).toList = start.toList ++ '/' :: rest.toList := by simp
  rw [name, name, e, Text.afterLast_append]

theorem name_append (start last : String) (h : '/' ∉ last.toList) :
    name (start ++ "/" ++ last) = last := by
  rw [name_append_path, name_eq_self h]

end Link

end Fleet
