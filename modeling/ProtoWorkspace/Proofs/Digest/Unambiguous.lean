import Mathlib.Tactic
import ProtoWorkspace.Digest.Stream

/-!
# The stream under a digest can be read in one way only

A digest is the hash of a row of bytes made of the generation, the files of a module and, for `b4`,
two optional configuration files or, for `b5`, the digests of the dependencies. As long as no count
and no length needs more than its eight bytes, two such rows are equal only when everything that
they were made of is. Every piece is shown to end where its own bytes say so, whatever follows it;
the pieces then compose.
-/

namespace ProtoWorkspace.Digest

/-- What a digest is computed from. -/
inductive Preimage where
  | b4 (files : List (String × ByteArray)) (yaml lock : Option ObjectData)
  | b5 (files : List (String × ByteArray)) (dependencies : List Digest)

/-- Whether a count or length can be told apart from all others in eight bytes. -/
def FitsCount (n : Nat) : Prop := n < 2 ^ 64

instance (n : Nat) : Decidable (FitsCount n) :=
  inferInstanceAs (Decidable (_ < _))

/-- Path and content of a file are short enough. -/
def FitsFile (file : String × ByteArray) : Prop :=
  FitsCount file.1.utf8ByteSize ∧ FitsCount file.2.size

/-- There are few enough files, and each is short enough. -/
def FitsFiles (files : List (String × ByteArray)) : Prop :=
  FitsCount files.length ∧ ∀ file ∈ files, FitsFile file

/-- Name and content of a configuration file are short enough. -/
def FitsObject (object : ObjectData) : Prop :=
  FitsCount object.name.utf8ByteSize ∧ FitsCount object.data.size

namespace Preimage

/-- The bytes that are hashed. -/
def stream : Preimage → List UInt8
  | b4 files yaml lock => b4Stream files yaml lock
  | b5 files dependencies => b5Stream files dependencies

/-- No count and no length needs more than eight bytes. -/
def Fits : Preimage → Prop
  | b4 files yaml lock =>
    FitsFiles files ∧ (∀ object ∈ yaml, FitsObject object) ∧ ∀ object ∈ lock, FitsObject object
  | b5 files dependencies => FitsFiles files ∧ FitsCount dependencies.length

end Preimage

/-- Among the values with `P`, what `encode` writes ends where it says itself: in front of any two
texts, equal rows come from equal values and equal rests. -/
def Delimited {α : Type} (P : α → Prop) (encode : α → List UInt8) : Prop :=
  ∀ a b rest rest', P a → P b → encode a ++ rest = encode b ++ rest' → a = b ∧ rest = rest'

theorem length_countBytes (n : Nat) : (countBytes n).length = 8 := by
  simp [countBytes]

theorem countBytes_injective {n k : Nat} (hn : FitsCount n) (hk : FitsCount k)
    (h : countBytes n = countBytes k) : n = k := by
  have digit : ∀ i < 8, n / 256 ^ i % 256 = k / 256 ^ i % 256 := by
    intro i hi
    have byte := congrArg (fun bytes => (bytes[i]?.map UInt8.toNat)) h
    simpa [countBytes, hi, Nat.pow_eq] using byte
  have d0 := digit 0 (by decide)
  have d1 := digit 1 (by decide)
  have d2 := digit 2 (by decide)
  have d3 := digit 3 (by decide)
  have d4 := digit 4 (by decide)
  have d5 := digit 5 (by decide)
  have d6 := digit 6 (by decide)
  have d7 := digit 7 (by decide)
  unfold FitsCount at hn hk
  norm_num at d0 d1 d2 d3 d4 d5 d6 d7
  omega

theorem delimited_countBytes : Delimited FitsCount countBytes := by
  intro n k rest rest' hn hk h
  obtain ⟨counts, rests⟩ := List.append_inj h (by rw [length_countBytes, length_countBytes])
  exact ⟨countBytes_injective hn hk counts, rests⟩

theorem delimited_counted : Delimited (fun bytes => FitsCount bytes.length) counted := by
  intro a b rest rest' ha hb h
  unfold counted at h
  rw [List.append_assoc, List.append_assoc] at h
  obtain ⟨lengths, bytes⟩ := delimited_countBytes _ _ _ _ ha hb h
  exact List.append_inj bytes lengths

theorem textBytes_injective {s t : String} (h : textBytes s = textBytes t) : s = t := by
  have bytes : s.toUTF8 = t.toUTF8 := ByteArray.ext (Array.toList_inj.1 h)
  exact String.toByteArray_inj.1 bytes

theorem delimited_text :
    Delimited (fun s : String => FitsCount s.utf8ByteSize) (fun s => counted (textBytes s)) := by
  intro s t rest rest' hs ht h
  obtain ⟨bytes, rests⟩ := delimited_counted _ _ _ _ hs ht h
  exact ⟨textBytes_injective bytes, rests⟩

theorem delimited_data :
    Delimited (fun data : ByteArray => FitsCount data.size) (fun data => counted data.data.toList) := by
  intro a b rest rest' ha hb h
  obtain ⟨bytes, rests⟩ := delimited_counted _ _ _ _ ha hb h
  exact ⟨ByteArray.ext (Array.toList_inj.1 bytes), rests⟩

theorem delimited_typeMark : Delimited (fun _ => True) typeMark := by
  intro a b rest rest' _ _ h
  have short : ∀ type : DigestType, FitsCount type.text.utf8ByteSize := by
    intro type
    cases type <;> decide
  obtain ⟨texts, rests⟩ := delimited_text _ _ _ _ (short a) (short b) h
  refine ⟨?_, rests⟩
  cases a <;> cases b <;> first | rfl | exact absurd texts (by decide)

theorem delimited_file : Delimited FitsFile fileBytes := by
  rintro ⟨path, data⟩ ⟨path', data'⟩ rest rest' ha hb h
  unfold fileBytes at h
  rw [List.append_assoc, List.append_assoc] at h
  obtain ⟨rfl, datas⟩ := delimited_text _ _ _ _ ha.1 hb.1 h
  obtain ⟨rfl, rests⟩ := delimited_data _ _ _ _ ha.2 hb.2 datas
  exact ⟨rfl, rests⟩

theorem Delimited.flatMap {α : Type} {P : α → Prop} {encode : α → List UInt8}
    (delimited : Delimited P encode) {xs ys : List α} {rest rest' : List UInt8}
    (hx : ∀ a ∈ xs, P a) (hy : ∀ a ∈ ys, P a) (lengths : xs.length = ys.length)
    (h : xs.flatMap encode ++ rest = ys.flatMap encode ++ rest') : xs = ys ∧ rest = rest' := by
  induction xs generalizing ys with
  | nil =>
    cases ys with
    | nil => exact ⟨rfl, h⟩
    | cons y ys => simp at lengths
  | cons x xs ih =>
    cases ys with
    | nil => simp at lengths
    | cons y ys =>
      rw [List.flatMap_cons, List.flatMap_cons, List.append_assoc, List.append_assoc] at h
      obtain ⟨rfl, tails⟩ := delimited _ _ _ _ (hx _ List.mem_cons_self) (hy _ List.mem_cons_self) h
      obtain ⟨rfl, rests⟩ := ih (fun a ha => hx a (List.mem_cons_of_mem _ ha))
        (fun a ha => hy a (List.mem_cons_of_mem _ ha)) (by simpa using lengths) tails
      exact ⟨rfl, rests⟩

theorem Delimited.list {α : Type} {P : α → Prop} {encode : α → List UInt8}
    (delimited : Delimited P encode) :
    Delimited (fun xs : List α => FitsCount xs.length ∧ ∀ a ∈ xs, P a)
      (fun xs => countBytes xs.length ++ xs.flatMap encode) := by
  intro xs ys rest rest' hx hy h
  rw [List.append_assoc, List.append_assoc] at h
  obtain ⟨lengths, values⟩ := delimited_countBytes _ _ _ _ hx.1 hy.1 h
  exact delimited.flatMap hx.2 hy.2 lengths values

theorem delimited_files : Delimited FitsFiles filesBytes :=
  delimited_file.list

theorem delimited_object : Delimited (fun o : Option ObjectData => ∀ object ∈ o, FitsObject object)
    objectBytes := by
  intro a b rest rest' ha hb h
  cases a with
  | none =>
    cases b with
    | none => exact ⟨rfl, by simpa [objectBytes] using h⟩
    | some object => simp [objectBytes] at h
  | some object =>
    cases b with
    | none => simp [objectBytes] at h
    | some object' =>
      obtain ⟨name, data⟩ := object
      obtain ⟨name', data'⟩ := object'
      have fits := ha _ rfl
      have fits' := hb _ rfl
      simp only [objectBytes, List.cons_append, List.append_assoc, List.cons.injEq, true_and] at h
      obtain ⟨rfl, datas⟩ := delimited_text _ _ _ _ fits.1 fits'.1 h
      obtain ⟨rfl, rests⟩ := delimited_data _ _ _ _ fits.2 fits'.2 datas
      exact ⟨rfl, rests⟩

theorem delimited_dependency : Delimited (fun _ => True) dependencyBytes := by
  rintro ⟨type, value, length⟩ ⟨type', value', length'⟩ rest rest' _ _ h
  have short : ∀ {bytes : List UInt8}, bytes.length = 64 → FitsCount bytes.length := by
    intro bytes hbytes
    rw [hbytes]
    decide
  unfold dependencyBytes at h
  rw [List.append_assoc, List.append_assoc] at h
  obtain ⟨rfl, values⟩ := delimited_typeMark _ _ _ _ trivial trivial h
  obtain ⟨rfl, rests⟩ := delimited_counted _ _ _ _ (short length) (short length') values
  exact ⟨rfl, rests⟩

theorem b4Stream_ne_b5Stream (files files' : List (String × ByteArray))
    (yaml lock : Option ObjectData) (dependencies : List Digest) :
    b4Stream files yaml lock ≠ b5Stream files' dependencies := by
  intro h
  unfold b4Stream b5Stream at h
  simp only [List.append_assoc] at h
  exact absurd (delimited_typeMark _ _ _ _ trivial trivial h).1 (by decide)

theorem b4Stream_injective {files files' : List (String × ByteArray)}
    {yaml yaml' lock lock' : Option ObjectData} (fits : (Preimage.b4 files yaml lock).Fits)
    (fits' : (Preimage.b4 files' yaml' lock').Fits)
    (h : b4Stream files yaml lock = b4Stream files' yaml' lock') :
    files = files' ∧ yaml = yaml' ∧ lock = lock' := by
  unfold b4Stream at h
  simp only [List.append_assoc] at h
  obtain ⟨-, body⟩ := delimited_typeMark _ _ _ _ trivial trivial h
  obtain ⟨rfl, objects⟩ := delimited_files _ _ _ _ fits.1 fits'.1 body
  obtain ⟨rfl, locks⟩ := delimited_object _ _ _ _ fits.2.1 fits'.2.1 objects
  rw [← List.append_nil (objectBytes lock), ← List.append_nil (objectBytes lock')] at locks
  exact ⟨rfl, rfl, (delimited_object _ _ _ _ fits.2.2 fits'.2.2 locks).1⟩

theorem b5Stream_injective {files files' : List (String × ByteArray)}
    {dependencies dependencies' : List Digest} (fits : (Preimage.b5 files dependencies).Fits)
    (fits' : (Preimage.b5 files' dependencies').Fits)
    (h : b5Stream files dependencies = b5Stream files' dependencies') :
    files = files' ∧ dependencies = dependencies' := by
  unfold b5Stream at h
  simp only [List.append_assoc] at h
  obtain ⟨-, body⟩ := delimited_typeMark _ _ _ _ trivial trivial h
  obtain ⟨rfl, counts⟩ := delimited_files _ _ _ _ fits.1 fits'.1 body
  obtain ⟨lengths, digests⟩ := delimited_countBytes _ _ _ _ fits.2 fits'.2 counts
  rw [← List.append_nil (dependencies.flatMap _), ← List.append_nil (dependencies'.flatMap _)]
    at digests
  exact ⟨rfl, (delimited_dependency.flatMap (by simp) (by simp) lengths digests).1⟩

/-- Two digests are computed from the same bytes only when they are of the same generation, over the
same files at the same paths, and over the same configuration files or dependencies. -/
theorem stream_eq_iff {a b : Preimage} (ha : a.Fits) (hb : b.Fits) :
    a.stream = b.stream ↔ a = b := by
  constructor
  · intro h
    cases a with
    | b4 files yaml lock =>
      cases b with
      | b4 files' yaml' lock' =>
        obtain ⟨rfl, rfl, rfl⟩ := b4Stream_injective ha hb h
        rfl
      | b5 files' dependencies' => exact absurd h (b4Stream_ne_b5Stream _ _ _ _ _)
    | b5 files dependencies =>
      cases b with
      | b4 files' yaml' lock' => exact absurd h.symm (b4Stream_ne_b5Stream _ _ _ _ _)
      | b5 files' dependencies' =>
        obtain ⟨rfl, rfl⟩ := b5Stream_injective ha hb h
        rfl
  · rintro rfl
    rfl

/-- The same bytes as path and content of a file, cut at another place, and the same configuration
file in the other role give another stream. -/
theorem stream_ne_of_moved_bytes :
    (Preimage.b4 [("ab", "c".toUTF8)] (some ⟨"buf", "v".toUTF8⟩) none).Fits ∧
      (Preimage.b4 [("a", "bc".toUTF8)] none (some ⟨"buf", "v".toUTF8⟩)).Fits ∧
      (Preimage.b4 [("ab", "c".toUTF8)] (some ⟨"buf", "v".toUTF8⟩) none).stream ≠
        (Preimage.b4 [("a", "bc".toUTF8)] none (some ⟨"buf", "v".toUTF8⟩)).stream := by
  have fits : (Preimage.b4 [("ab", "c".toUTF8)] (some ⟨"buf", "v".toUTF8⟩) none).Fits := by
    simp only [Preimage.Fits, FitsFiles, FitsFile, FitsObject, List.forall_mem_singleton,
      Option.mem_def, Option.some.injEq, forall_eq', reduceCtorEq, false_implies, implies_true]
    decide
  have fits' : (Preimage.b4 [("a", "bc".toUTF8)] none (some ⟨"buf", "v".toUTF8⟩)).Fits := by
    simp only [Preimage.Fits, FitsFiles, FitsFile, FitsObject, List.forall_mem_singleton,
      Option.mem_def, Option.some.injEq, forall_eq', reduceCtorEq, false_implies, implies_true]
    decide
  refine ⟨fits, fits', fun h => ?_⟩
  have same := (stream_eq_iff fits fits').1 h
  simp at same

end ProtoWorkspace.Digest
