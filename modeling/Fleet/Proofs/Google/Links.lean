import Fleet.Google.Config
import Mathlib.Data.List.DropRight

/-!
# Links of images and machine types

The names of images and machine types are resolved to links (`Resolves`): a full link is left as it is, and anything
else is put under a project at the place of the API, with the same last segment. A link that comes about so is taken for
a full link again only when the place of the API is an `https` address; otherwise resolving it once more puts it under a
project a second time, and it grows (`links_stable_iff`).
-/

namespace Fleet

namespace Google

namespace Config

variable {c : Config}

/-- The place of the API begins like a full link, and something other than slashes follows. -/
def HasHttpsBase (c : Config) : Prop := ∃ rest : String, c.apiBase = "https://" ++ rest ∧ ∃ d ∈ rest.toList, d ≠ '/'

/-! ### The place of the API -/

/-- A full link is a text whose first slash follows `https:` and is followed by another one. -/
theorem isFullLink_iff {s : String} : isFullLink s = true ↔
    ∃ rest, Text.splitFirst '/' s.toList = some ("https:".toList, '/' :: rest) := by
  have hsplit (rest : List Char) : "https://".toList ++ rest = "https:".toList ++ '/' :: '/' :: rest := rfl
  rw [isFullLink, List.isPrefixOf_iff_prefix]
  constructor
  · rintro ⟨rest, hs⟩
    exact ⟨rest, by rw [← hs, hsplit, Text.splitFirst_append (by decide)]⟩
  · rintro ⟨rest, hs⟩
    exact ⟨rest, by rw [hsplit, (Text.splitFirst_eq_some hs).1]⟩

private theorem toList_root (c : Config) : c.root.toList = c.apiBase.toList.rdropWhile (· = '/') :=
  String.toList_ofList

private theorem root_ne_concat_slash (cs : List Char) : c.root.toList ≠ cs ++ ['/'] := by
  intro h
  rw [toList_root] at h
  have hlast := List.rdropWhile_last_not (fun x => decide (x = '/')) c.apiBase.toList (by simp [h])
  simp [h] at hlast

private theorem rdropWhile_append {p : Char → Bool} {xs ys : List Char} (h : ∃ d ∈ ys, p d = false) :
    (xs ++ ys).rdropWhile p = xs ++ ys.rdropWhile p := by
  obtain ⟨d, hd, hp⟩ := h
  have hne : ys.reverse.dropWhile p ≠ [] := by
    intro hnil
    have hall := List.dropWhile_eq_nil_iff.1 hnil d (List.mem_reverse.2 hd)
    exact absurd hall (by rw [hp]; decide)
  rw [List.rdropWhile, List.rdropWhile, List.reverse_append, List.dropWhile_append, if_neg (by simpa using hne),
    List.reverse_append, List.reverse_reverse]

/-- What is left of an address without the slashes at its end is a full link when something follows the two slashes. -/
theorem isFullLink_root_iff : isFullLink c.root = true ↔ c.HasHttpsBase := by
  rw [isFullLink, List.isPrefixOf_iff_prefix]
  constructor
  · rintro ⟨cs, hroot⟩
    rcases cs.eq_nil_or_concat' with rfl | ⟨ds, d, rfl⟩
    · exact absurd hroot.symm (root_ne_concat_slash "https:/".toList)
    · have hd : d ≠ '/' := by
        rintro rfl
        exact root_ne_concat_slash ("https://".toList ++ ds) (by rw [← hroot, List.append_assoc])
      obtain ⟨slashes, hbase⟩ : c.root.toList <+: c.apiBase.toList := by
        rw [toList_root]
        exact List.rdropWhile_prefix ..
      have hrest : (String.ofList (ds ++ [d] ++ slashes)).toList = ds ++ [d] ++ slashes := String.toList_ofList
      refine ⟨String.ofList (ds ++ [d] ++ slashes), String.toList_injective ?_, d, ?_, hd⟩
      · rw [String.toList_append, hrest, ← hbase, ← hroot, List.append_assoc]
      · rw [hrest]
        simp
  · rintro ⟨rest, hbase, d, hd, hne⟩
    refine ⟨rest.toList.rdropWhile (· = '/'), ?_⟩
    rw [toList_root, hbase, String.toList_append, rdropWhile_append ⟨d, hd, by simpa using hne⟩]

theorem isFullLink_rooted (path : String) :
    isFullLink (c.root ++ "/projects/" ++ path) = true ↔ c.HasHttpsBase := by
  rw [← isFullLink_root_iff, isFullLink_iff, isFullLink_iff]
  have hlists : (c.root ++ "/projects/" ++ path).toList =
      c.root.toList ++ '/' :: ("projects/".toList ++ path.toList) := by
    rw [String.toList_append, String.toList_append, List.append_assoc]
    rfl
  rw [hlists]
  cases hroot : Text.splitFirst '/' c.root.toList with
  | none =>
    -- The first slash is the one in front of the word `projects`.
    rw [Text.splitFirst_append (Text.splitFirst_eq_none_iff.1 hroot)]
    simp
  | some parts =>
    obtain ⟨ds, es⟩ := parts
    obtain ⟨hparts, hds⟩ := Text.splitFirst_eq_some hroot
    rw [hparts, List.append_assoc, List.cons_append, Text.splitFirst_append hds]
    cases es with
    | nil => exact absurd hparts (root_ne_concat_slash ds)
    | cons e es => simp

/-! ### Resolving names -/

/-- A way to resolve names: a full link is left alone, and anything else is put under a project, where the last segment
stays the same and nothing gets lost. -/
structure Resolves (c : Config) (f : String → String) : Prop where
  full : ∀ {x}, isFullLink x = true → f x = x
  rooted : ∀ {x}, isFullLink x = false → ∃ start last, f x = c.root ++ "/projects/" ++ (start ++ "/" ++ last) ∧
    Link.name last = Link.name x ∧ x.length ≤ start.length + 1 + last.length

namespace Resolves

variable {f : String → String}

theorem isFullLink_iff (h : c.Resolves f) (x : String) :
    isFullLink (f x) = true ↔ isFullLink x = true ∨ c.HasHttpsBase := by
  cases hx : isFullLink x with
  | true => simp [h.full hx, hx]
  | false =>
    obtain ⟨start, last, hf, -, -⟩ := h.rooted hx
    simp [hf, isFullLink_rooted]

/-- What is resolved once more either is taken for a full link or grows. -/
theorem stable_iff (h : c.Resolves f) (x : String) : f (f x) = f x ↔ isFullLink x = true ∨ c.HasHttpsBase := by
  rw [← h.isFullLink_iff]
  refine ⟨fun hstable => ?_, h.full⟩
  by_contra hfull
  obtain ⟨start, last, hf, -, hlength⟩ := h.rooted (Bool.eq_false_iff.2 hfull)
  have hgrown := congrArg String.length hf
  have hprojects : "/projects/".length = 10 := rfl
  have hslash : "/".length = 1 := rfl
  simp only [hstable, String.length_append, hprojects, hslash] at hgrown
  omega

theorem name_eq (h : c.Resolves f) (x : String) : Link.name (f x) = Link.name x := by
  cases hx : isFullLink x with
  | true => rw [h.full hx]
  | false =>
    obtain ⟨start, last, hf, hname, -⟩ := h.rooted hx
    rw [hf, ← String.append_assoc, ← String.append_assoc, Link.name_append_path, hname]

end Resolves

theorem resolves_imageLink (c : Config) : c.Resolves c.imageLink := by
  constructor
  case full => exact fun hx => if_pos hx
  case rooted =>
    intro x hx
    have himages : "/global/images/" = "/global/images" ++ "/" := rfl
    unfold imageLink
    rw [if_neg (by simp [hx])]
    split
    · next project image hsplit =>
      have hparts : x = String.ofList project ++ "/" ++ String.ofList image := by
        refine String.toList_injective ?_
        rw [(Text.splitFirst_eq_some hsplit).1]
        simp
      refine ⟨String.ofList project ++ "/global/images", String.ofList image, ?_, ?_, ?_⟩
      · simp only [himages, String.append_assoc]
      · rw [hparts, Link.name_append_path]
      · have hslash : "/".length = 1 := rfl
        rw [hparts, String.length_append, String.length_append, String.length_append, hslash]
        omega
    · refine ⟨c.project ++ "/global/images", x, ?_, rfl, by omega⟩
      simp only [projectUrl, himages, String.append_assoc]

theorem resolves_machineTypeLink (c : Config) (zone : String) : c.Resolves (c.machineTypeLink zone) := by
  constructor
  case full => exact fun hx => if_pos hx
  case rooted =>
    intro x hx
    have htypes : "/machineTypes/" = "/machineTypes" ++ "/" := rfl
    refine ⟨c.project ++ "/zones/" ++ zone ++ "/machineTypes", x, ?_, rfl, by omega⟩
    unfold machineTypeLink
    rw [if_neg (by simp [hx])]
    simp only [projectUrl, htypes, String.append_assoc]

/-! ### Stability -/

/-- The link of an image or a machine type is taken for a full link, and so resolved to itself, exactly when the text was
a full link already or the place of the API is an `https` address. Its last segment is always that of the text. -/
theorem links_stable_iff (c : Config) (zone : String) :
    (∀ x, (c.imageLink (c.imageLink x) = c.imageLink x ↔ isFullLink x = true ∨ c.HasHttpsBase) ∧
      (isFullLink (c.imageLink x) = true ↔ isFullLink x = true ∨ c.HasHttpsBase) ∧
      Link.name (c.imageLink x) = Link.name x) ∧
    ∀ m, (c.machineTypeLink zone (c.machineTypeLink zone m) = c.machineTypeLink zone m ↔
        isFullLink m = true ∨ c.HasHttpsBase) ∧
      (isFullLink (c.machineTypeLink zone m) = true ↔ isFullLink m = true ∨ c.HasHttpsBase) ∧
      Link.name (c.machineTypeLink zone m) = Link.name m := by
  have himage := c.resolves_imageLink
  have hmachine := c.resolves_machineTypeLink zone
  exact ⟨fun x => ⟨himage.stable_iff x, himage.isFullLink_iff x, himage.name_eq x⟩,
    fun m => ⟨hmachine.stable_iff m, hmachine.isFullLink_iff m, hmachine.name_eq m⟩⟩

/-- At an `http` address links are not recognised: they are taken for images of a project `http:`, or for the names of
machine types. -/
theorem links_unstable_of_http :
    let c : Config := { ofProject "myproject" "token" with apiBase := "http://localhost:8080/compute/v1" }
    c.imageLink (c.imageLink "debian") ≠ c.imageLink "debian" ∧
      c.machineTypeLink "zone-a" (c.machineTypeLink "zone-a" "f1-micro") ≠ c.machineTypeLink "zone-a" "f1-micro" := by
  decide

end Config

end Google

end Fleet
