import Fleet.Resource.Kind

/-!
# Operating systems behind image names

An image is named `<family>-<version parts>-<build>`; the operating system of a node is read off the name
of its image.
-/

namespace Fleet

structure OperatingSystem where
  family : String
  /-- The middle segments of the image's name, joined by points. -/
  version : Option String
  is64bit : Bool
  description : String
  deriving DecidableEq

structure ImageInfo where
  id : String
  link : String
  /-- The last segment of the image's name, as a rule a date. -/
  build : Option String
  os : OperatingSystem
  deriving DecidableEq

namespace ImageInfo

/-- The facts that an image's link tells. A name of fewer than three segments tells nothing but that a
Linux is inside. -/
def ofLink (link : String) : ImageInfo :=
  let id := Link.name link
  let os (family : String) (version : Option String) : OperatingSystem := ⟨family, version, true, id⟩
  match Text.segments '-' id.toList with
  | first :: second :: third :: more =>
    let rest := second :: third :: more
    let version := String.ofList (Text.joined ['.'] rest.dropLast)
    ⟨id, link, rest.getLast?.map String.ofList, os (String.ofList first) (some version)⟩
  | _ => ⟨id, link, none, os "linux" none⟩

end ImageInfo

end Fleet
