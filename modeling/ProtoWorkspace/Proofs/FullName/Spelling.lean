import Mathlib
import ProtoWorkspace.FullName
import ProtoWorkspace.Proofs.Fallible

/-!
# Which texts are full names

A text is read as a full name exactly when it is the text of that name, so it is made of three valid parts
with two slashes between them. A full name is made of three parts exactly when it is read from them with
slashes between them.
-/

namespace ProtoWorkspace.FullName

open Fallible

variable {n : FullName} {s registry owner name : String}

theorem ofParts_eq_ok : ofParts registry owner name = .ok n ↔
    n.registry = registry ∧ n.owner = owner ∧ n.name = name := by
  obtain ⟨registry', owner', name', hregistry, howner, hname⟩ := n
  unfold ofParts
  constructor
  · intro h
    split_ifs at h
    cases h
    exact ⟨rfl, rfl, rfl⟩
  · rintro ⟨rfl, rfl, rfl⟩
    rw [dif_pos hregistry, dif_pos howner, dif_pos hname]

theorem succeeds_ofParts_iff : Succeeds (ofParts registry owner name) ↔
    NamePart.IsValid registry ∧ NamePart.IsValid owner ∧ NamePart.IsValid name := by
  constructor
  · rintro ⟨n, made⟩
    obtain ⟨rfl, rfl, rfl⟩ := ofParts_eq_ok.1 made
    exact ⟨n.registry_valid, n.owner_valid, n.name_valid⟩
  · rintro ⟨hregistry, howner, hname⟩
    exact ⟨⟨registry, owner, name, hregistry, howner, hname⟩, ofParts_eq_ok.2 ⟨rfl, rfl, rfl⟩⟩

theorem parse_eq_ok : parse s = .ok n ↔ n.text = s := by
  constructor
  · intro h
    unfold parse at h
    split at h
    · next registry owner name pieces =>
      split at h
      · next n' made =>
        cases h
        obtain ⟨hregistry, howner, hname⟩ := ofParts_eq_ok.1 made
        rw [text, hregistry, howner, hname, ← String.toList_inj, toList_textOf]
        simp only [String.toList_ofList]
        rw [← pieces, Text.joinFields_fields]
      · cases h
    · cases h
  · rintro rfl
    exact parse_text n

/-- Whether a text is made of three valid parts with slashes between them. -/
def IsSpelled (s : String) : Prop :=
  ∃ registry owner name, NamePart.IsValid registry ∧ NamePart.IsValid owner ∧ NamePart.IsValid name ∧
    s = textOf registry owner name

theorem succeeds_parse_iff : Succeeds (parse s) ↔ IsSpelled s := by
  constructor
  · rintro ⟨n, read⟩
    exact ⟨_, _, _, n.registry_valid, n.owner_valid, n.name_valid, (parse_eq_ok.1 read).symm⟩
  · rintro ⟨registry, owner, name, hregistry, howner, hname, rfl⟩
    exact ⟨⟨registry, owner, name, hregistry, howner, hname⟩, parse_eq_ok.2 rfl⟩

theorem text_inj {n' : FullName} : n.text = n'.text ↔ n = n' :=
  ⟨text_injective, congrArg text⟩

theorem fields_textOf (registry owner name : String) : Text.fields '/' (textOf registry owner name).toList =
    Text.fields '/' registry.toList ++ Text.fields '/' owner.toList ++ Text.fields '/' name.toList := by
  rw [toList_textOf, Text.joinFields, Text.joinFields, Text.joinFields, Text.fields_append,
    Text.fields_append, List.append_assoc]

theorem eq_of_fields_eq_singleton {cs field : List Char} (h : Text.fields '/' cs = [field]) :
    field = cs := by
  have joined := Text.joinFields_fields '/' cs
  rwa [h] at joined

/-- Three texts with slashes between them make the text of a name only if they are its parts: each has at
least one field, and the name has three. -/
theorem text_eq_textOf_iff : n.text = textOf registry owner name ↔
    n.registry = registry ∧ n.owner = owner ∧ n.name = name := by
  constructor
  · intro same
    have fields := n.fields_text
    rw [same, fields_textOf] at fields
    obtain ⟨r, rs, hr⟩ := List.exists_cons_of_ne_nil (Text.fields_ne_nil '/' registry.toList)
    obtain ⟨o, os, ho⟩ := List.exists_cons_of_ne_nil (Text.fields_ne_nil '/' owner.toList)
    obtain ⟨m, ms, hm⟩ := List.exists_cons_of_ne_nil (Text.fields_ne_nil '/' name.toList)
    rw [hr, ho, hm] at fields
    have lengths := congrArg List.length fields
    simp only [List.length_append, List.length_cons, List.length_nil] at lengths
    obtain rfl : rs = [] := List.length_eq_zero_iff.1 (by omega)
    obtain rfl : os = [] := List.length_eq_zero_iff.1 (by omega)
    obtain rfl : ms = [] := List.length_eq_zero_iff.1 (by omega)
    simp only [List.cons_append, List.nil_append, List.cons.injEq, and_true] at fields
    obtain ⟨rfl, rfl, rfl⟩ := fields
    simp only [← String.toList_inj]
    exact ⟨eq_of_fields_eq_singleton hr, eq_of_fields_eq_singleton ho, eq_of_fields_eq_singleton hm⟩
  · rintro ⟨rfl, rfl, rfl⟩
    rfl

theorem ofParts_sameValue_parse (registry owner name : String) :
    SameValue (ofParts registry owner name) (parse (textOf registry owner name)) := by
  intro n
  rw [ofParts_eq_ok, parse_eq_ok, text_eq_textOf_iff]

end ProtoWorkspace.FullName
