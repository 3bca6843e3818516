import ProtoWorkspace.Text.Fields
import ProtoWorkspace.Text.Quoted

/-!
# Module digests

A digest is a value of 64 bytes together with the generation of the algorithm that made it: `b4` is
flat, `b5` covers the dependencies as well. Its text is the generation, a colon and 128 lower-case
hexadecimal digits.
-/

namespace ProtoWorkspace

/-- The generation of the digest algorithm. -/
inductive DigestType where
  /-- The module's own files and its two configuration files. -/
  | b4
  /-- The module's own files and the digests of its dependencies. -/
  | b5
  deriving DecidableEq, Repr

namespace DigestType

def text : DigestType → String
  | .b4 => "b4"
  | .b5 => "b5"

/-- Reads a generation; only the letters of ASCII may have either case. -/
def parse? (cs : List Char) : Option DigestType :=
  match cs.map Char.toLower with
  | ['b', '4'] => some .b4
  | ['b', '5'] => some .b5
  | _ => none

end DigestType

/-- A value of 64 bytes and the generation of the algorithm that made it. -/
structure Digest where
  type : DigestType
  value : List UInt8
  length_value : value.length = 64
  deriving DecidableEq

namespace Digest

/-- Why bytes, or a text, are no value of a digest. -/
inductive ValueFault where
  | missingType
  | malformed (fault : Hex.Fault)
  | wrongLength (length : Nat)
  deriving DecidableEq

def ValueFault.message : ValueFault → String
  | .missingType => "missing type"
  | .malformed fault => fault.message
  | .wrongLength length => "expected 64 bytes, got " ++ toString length

/-- Why a text is no digest. -/
inductive Fault where
  | unknownType (text : String)
  | invalid (text : String) (fault : ValueFault)
  deriving DecidableEq

def Fault.message : Fault → String
  | .unknownType text => "Invalid digest type `" ++ text ++ "`, expected b4 or b5"
  | .invalid text fault => "Invalid digest `" ++ text ++ "`: " ++ fault.message

def valueText (d : Digest) : String :=
  String.ofList (Hex.encode d.value)

def text (d : Digest) : String :=
  d.type.text ++ ":" ++ d.valueText

/-- A digest of the given bytes, of which there must be 64. -/
def ofBytes (type : DigestType) (value : List UInt8) : Except Fault Digest :=
  if h : value.length = 64 then .ok ⟨type, value, h⟩
  else .error (.invalid (String.ofList (Hex.encode value)) (.wrongLength value.length))

def parseType (s : String) : Except Fault DigestType :=
  match DigestType.parse? s.toList with
  | some type => .ok type
  | none => .error (.unknownType s)

/-- Reads a digest: the generation ends at the first colon, the digits of the value follow. -/
def parse (s : String) : Except Fault Digest :=
  match s.toList.span (· != ':') with
  | (_, []) => .error (.invalid s .missingType)
  | (type, _ :: digits) => do
    let type ← parseType (String.ofList type)
    match Hex.decode digits with
    | .ok value => ofBytes type value
    | .error fault => .error (.invalid s (.malformed fault))

def shown (d : Digest) : String :=
  "Digest(" ++ d.text ++ ")"

end Digest

end ProtoWorkspace
