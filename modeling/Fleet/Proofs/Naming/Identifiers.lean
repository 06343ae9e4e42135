import Fleet.Naming

/-!
# The text form of node identifiers

Commands address a node by the text `<zone>/<name>`. It is cut at its first slash, and both sides have to be segments:
non-empty texts without a slash. So the texts that are read are exactly those of two segments with a slash between
them, and reading and writing are inverse to each other (`ofText?_text_inverse`).
-/

namespace Fleet

namespace NodeId

/-- A text that may be the zone or the name of an identifier. -/
def IsSegment (s : String) : Prop := s ≠ "" ∧ '/' ∉ s.toList

instance : DecidablePred IsSegment := fun s => inferInstanceAs (Decidable (s ≠ "" ∧ '/' ∉ s.toList))

theorem toList_text (id : NodeId) : id.text.toList = id.zone.toList ++ '/' :: id.name.toList := by
  rw [text, String.toList_append, String.toList_append, List.append_assoc]
  rfl

private theorem isSegment_ofList_iff {cs : List Char} : IsSegment (String.ofList cs) ↔ cs ≠ [] ∧ '/' ∉ cs := by
  rw [IsSegment, ne_eq, String.ofList_eq_empty_iff, String.toList_ofList]

/-- An identifier is read from a text when the text is its own and both of its parts are segments. -/
theorem ofText?_eq_ok_iff {s : String} {id : NodeId} :
    ofText? s = .ok id ↔ s = id.text ∧ IsSegment id.zone ∧ IsSegment id.name := by
  constructor
  · intro h
    unfold ofText? at h
    split at h
    · next zone name hsplit =>
      obtain ⟨htext, hslash⟩ := Text.splitFirst_eq_some hsplit
      split at h
      · next hparts =>
        cases h
        refine ⟨String.toList_injective ?_, isSegment_ofList_iff.2 ⟨hparts.1, hslash⟩,
          isSegment_ofList_iff.2 hparts.2⟩
        rw [toList_text, String.toList_ofList, String.toList_ofList, htext]
      · cases h
    · cases h
  · rintro ⟨rfl, hzone, hname⟩
    have hparts : id.zone.toList ≠ [] ∧ id.name.toList ≠ [] ∧ '/' ∉ id.name.toList :=
      ⟨mt String.toList_eq_nil_iff.1 hzone.1, mt String.toList_eq_nil_iff.1 hname.1, hname.2⟩
    unfold ofText?
    rw [toList_text, Text.splitFirst_append hzone.2]
    simp only [if_pos hparts, String.ofList_toList]

/-- The texts that are read are those of two segments with a slash between them. What is read from a text has this text,
and an identifier of two segments is read back from its text. -/
theorem ofText?_text_inverse :
    (∀ s, (∃ id, ofText? s = .ok id) ↔ ∃ z n, IsSegment z ∧ IsSegment n ∧ s = z ++ "/" ++ n) ∧
      (∀ s id, ofText? s = .ok id → id.text = s) ∧
      ∀ z n, IsSegment z → IsSegment n → ofText? (text ⟨z, n⟩) = .ok ⟨z, n⟩ := by
  refine ⟨fun s => ⟨?_, ?_⟩, fun s id h => (ofText?_eq_ok_iff.1 h).1.symm, fun z n hz hn => ?_⟩
  · rintro ⟨id, h⟩
    obtain ⟨htext, hzone, hname⟩ := ofText?_eq_ok_iff.1 h
    exact ⟨id.zone, id.name, hzone, hname, htext⟩
  · rintro ⟨z, n, hz, hn, htext⟩
    exact ⟨⟨z, n⟩, ofText?_eq_ok_iff.2 ⟨htext, hz, hn⟩⟩
  · exact ofText?_eq_ok_iff.2 ⟨rfl, hz, hn⟩

/-- The identifier of a node in a zone with hyphens in both names. -/
theorem ofText?_text_inverse_of_hyphens :
    ofText? "us-central1-a/test-delete-networks" = .ok ⟨"us-central1-a", "test-delete-networks"⟩ ∧
      text ⟨"us-central1-a", "test-delete-networks"⟩ = "us-central1-a/test-delete-networks" ∧
      IsSegment "us-central1-a" ∧ IsSegment "test-delete-networks" ∧
      ofText? (text ⟨"us-central1-a", "test-delete-networks"⟩) = .ok ⟨"us-central1-a", "test-delete-networks"⟩ := by
  have hread : ofText? "us-central1-a/test-delete-networks" = .ok ⟨"us-central1-a", "test-delete-networks"⟩ := by rfl
  have hzone : IsSegment "us-central1-a" := by decide
  have hname : IsSegment "test-delete-networks" := by decide
  exact ⟨hread, ofText?_text_inverse.2.1 _ _ hread, hzone, hname, ofText?_text_inverse.2.2 _ _ hzone hname⟩

/-- A third segment is not taken for a part of the name. -/
example : ofText? "a/b/c" = .error (.invalidNodeId "a/b/c") := by rfl

end NodeId

end Fleet
