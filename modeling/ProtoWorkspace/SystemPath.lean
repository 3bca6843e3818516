import ProtoWorkspace.Text.Mended

/-!
# Paths of the system

To the system a path is any bytes. Most paths are texts, but a path that is none may be named, and shown
with marks for what is no character.
-/

namespace ProtoWorkspace

structure SystemPath where
  bytes : ByteArray

namespace SystemPath

instance : DecidableEq SystemPath := fun p q =>
  match ByteArray.instDecidableEq p.bytes q.bytes with
  | isTrue same => isTrue (congrArg mk same)
  | isFalse different => isFalse fun same => different (congrArg bytes same)

variable {p : SystemPath} {s : String}

def ofText (s : String) : SystemPath :=
  ⟨s.toUTF8⟩

/-- The text that a path is, if it is one. -/
def text? (p : SystemPath) : Option String :=
  String.fromUTF8? p.bytes

def shown (p : SystemPath) : String :=
  Text.mended p.bytes

theorem text?_eq_some : p.text? = some s ↔ p = ofText s := by
  unfold text? String.fromUTF8?
  split
  · next valid =>
    rw [Option.some.injEq, ← String.toByteArray_inj]
    exact ⟨fun same => congrArg mk same, congrArg bytes⟩
  · next invalid =>
    refine iff_of_false nofun ?_
    rintro rfl
    exact invalid s.isValidUTF8

@[simp] theorem text?_ofText (s : String) : (ofText s).text? = some s :=
  text?_eq_some.2 rfl

@[simp] theorem shown_ofText (s : String) : (ofText s).shown = s :=
  Text.mended_toUTF8 s

/-- Whether a path is a text. -/
def IsText (p : SystemPath) : Prop :=
  p = ofText p.shown

instance (p : SystemPath) : Decidable p.IsText :=
  inferInstanceAs (Decidable (p = ofText p.shown))

theorem isText_ofText (s : String) : (ofText s).IsText := by
  rw [IsText, shown_ofText]

theorem text?_of_isText (h : p.IsText) : p.text? = some p.shown :=
  text?_eq_some.2 h

theorem text?_eq_none : p.text? = none ↔ ¬ p.IsText := by
  constructor
  · intro none text
    rw [text?_of_isText text] at none
    cases none
  · intro other
    cases h : p.text? with
    | none => rfl
    | some s => exact absurd (text?_eq_some.1 h ▸ isText_ofText s) other

end SystemPath

end ProtoWorkspace
