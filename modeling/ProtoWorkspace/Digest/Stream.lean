import ProtoWorkspace.Bucket
import ProtoWorkspace.Hash.Shake256

/-!
# What a digest is computed from

A digest is the SHAKE256 hash of a row of bytes. Every field of varying length stands behind its
length, every list behind its count, and every optional field behind a byte that tells whether it
is there, so nothing can be read in two ways.
-/

namespace ProtoWorkspace.Digest

/-- A count in eight bytes, the lowest first. -/
def countBytes (n : Nat) : List UInt8 :=
  (List.range 8).map fun i => UInt8.ofNat (n / Nat.pow 256 i)

/-- Bytes behind their count. -/
def counted (bytes : List UInt8) : List UInt8 :=
  countBytes bytes.length ++ bytes

def textBytes (s : String) : List UInt8 :=
  s.toUTF8.data.toList

def typeMark (type : DigestType) : List UInt8 :=
  counted (textBytes type.text)

def fileBytes (file : String × ByteArray) : List UInt8 :=
  counted (textBytes file.1) ++ counted file.2.data.toList

def filesBytes (files : List (String × ByteArray)) : List UInt8 :=
  countBytes files.length ++ files.flatMap fileBytes

def objectBytes : Option ObjectData → List UInt8
  | none => [0]
  | some object => 1 :: counted (textBytes object.name) ++ counted object.data.data.toList

def dependencyBytes (d : Digest) : List UInt8 :=
  typeMark d.type ++ counted d.value

/-- What the `b4` digest of a module is computed from: its files and its two
configuration files. -/
def b4Stream (files : List (String × ByteArray)) (yaml lock : Option ObjectData) : List UInt8 :=
  typeMark .b4 ++ filesBytes files ++ objectBytes yaml ++ objectBytes lock

/-- What the `b5` digest of a module is computed from: its files and the digests of its
dependencies. -/
def b5Stream (files : List (String × ByteArray)) (dependencies : List Digest) : List UInt8 :=
  typeMark .b5 ++ filesBytes files ++ countBytes dependencies.length ++
    dependencies.flatMap dependencyBytes

def ofStream (type : DigestType) (stream : List UInt8) : Digest :=
  ⟨type, Shake256.hash 64 stream, Shake256.length_hash 64 stream⟩

/-- The `b4` digest of a module. -/
def b4 (files : List (String × ByteArray)) (yaml lock : Option ObjectData) : Digest :=
  ofStream .b4 (b4Stream files yaml lock)

/-- The `b5` digest of a module, whose dependencies must have `b5` digests too. -/
def b5 (files : List (String × ByteArray)) (dependencies : List Digest) : Except Error Digest :=
  match dependencies.find? (·.type ≠ .b5) with
  | some d => .error (.digestTypeMismatch .b5 d.type)
  | none => .ok (ofStream .b5 (b5Stream files dependencies))

end ProtoWorkspace.Digest
