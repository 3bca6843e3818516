import ProtoWorkspace.Text.Fields
import ProtoWorkspace.Text.Quoted

/-!
# Full names

A published module is identified by a registry, an owner and a name, none of them empty and none
with a slash in it. Main statements: the text `registry/owner/name` of a full name reads back, so
two full names are equal exactly when their texts are.
-/

namespace ProtoWorkspace

/-- The three parts of a full name. -/
inductive NamePart where
  | registry
  | owner
  | name
  deriving DecidableEq, Repr

def NamePart.word : NamePart → String
  | .registry => "registry"
  | .owner => "owner"
  | .name => "name"

/-- A part of a full name is not empty and holds no slash. -/
def NamePart.IsValid (s : String) : Prop :=
  s.toList ≠ [] ∧ '/' ∉ s.toList

instance (s : String) : Decidable (NamePart.IsValid s) :=
  inferInstanceAs (Decidable (_ ∧ _))

/-- The identity of a published module. -/
structure FullName where
  registry : String
  owner : String
  name : String
  registry_valid : NamePart.IsValid registry
  owner_valid : NamePart.IsValid owner
  name_valid : NamePart.IsValid name
  deriving DecidableEq

namespace FullName

/-- A text is no full name because of one of its parts. -/
inductive Fault where
  | missingPart (part : NamePart) (text : String)
  deriving DecidableEq

def Fault.message : Fault → String
  | .missingPart part text =>
    "Missing module name component `" ++ part.word ++ "` in string `" ++ text ++ "`"

def textOf (registry owner name : String) : String :=
  registry ++ "/" ++ owner ++ "/" ++ name

/-- The text `registry/owner/name`. -/
def text (n : FullName) : String :=
  textOf n.registry n.owner n.name

def shown (n : FullName) : String :=
  "FullName \x7b registry: " ++ Text.quoted n.registry ++ ", owner: " ++ Text.quoted n.owner ++
    ", name: " ++ Text.quoted n.name ++ " \x7d"

/-- The full name with the given parts; the first part that is not valid is reported. -/
def ofParts (registry owner name : String) : Except Fault FullName :=
  if hr : NamePart.IsValid registry then
    if ho : NamePart.IsValid owner then
      if hn : NamePart.IsValid name then
        .ok ⟨registry, owner, name, hr, ho, hn⟩
      else .error (.missingPart .name (textOf registry owner name))
    else .error (.missingPart .owner (textOf registry owner name))
  else .error (.missingPart .registry (textOf registry owner name))

/-- Reads the text of a full name. A text that is not three valid parts between two slashes lacks
its first part. -/
def parse (s : String) : Except Fault FullName :=
  match Text.fields '/' s.toList with
  | [registry, owner, name] =>
    match ofParts (String.ofList registry) (String.ofList owner) (String.ofList name) with
    | .ok n => .ok n
    | .error _ => .error (.missingPart .registry s)
  | _ => .error (.missingPart .registry s)

/-- The order by registry, then owner, then name. It differs from the order of the texts where a
part holds a character below the slash. -/
def compare (a b : FullName) : Ordering :=
  (Ord.compare a.registry b.registry).then
    ((Ord.compare a.owner b.owner).then (Ord.compare a.name b.name))

theorem toList_textOf (registry owner name : String) : (textOf registry owner name).toList =
    Text.joinFields '/' [registry.toList, owner.toList, name.toList] := by
  simp [textOf, Text.joinFields]

theorem toList_text (n : FullName) :
    n.text.toList = Text.joinFields '/' [n.registry.toList, n.owner.toList, n.name.toList] :=
  toList_textOf n.registry n.owner n.name

theorem fields_text (n : FullName) :
    Text.fields '/' n.text.toList = [n.registry.toList, n.owner.toList, n.name.toList] := by
  rw [toList_text]
  apply Text.fields_joinFields (by simp)
  simp [n.registry_valid.2, n.owner_valid.2, n.name_valid.2]

theorem parse_text (n : FullName) : parse n.text = .ok n := by
  simp [parse, fields_text, ofParts, n.registry_valid, n.owner_valid, n.name_valid]

theorem text_injective {a b : FullName} (h : a.text = b.text) : a = b := by
  have := parse_text a
  rw [h, parse_text b] at this
  exact (Except.ok.inj this).symm

end FullName

end ProtoWorkspace
