import ProtoWorkspace.Log.Record
import ProtoWorkspace.ModuleDigest
import ProtoWorkspace.ModuleSet.Build

/-!
# Sessions

A session is what stays between questions: the disk, the sets that were made, every answer that was
given and a journal of what happened. An answer is looked for at most once. Be it a value or an
error, it is kept for as long as the session lasts.
-/

namespace ProtoWorkspace

/-- Answers that are kept together. -/
abbrev Shelf := (q : Question) → Option (Except Error q.Answer)

def Shelf.put (shelf : Shelf) (q : Question) (answer : Except Error q.Answer) : Shelf :=
  fun q' => if h : q = q' then some (h ▸ answer) else shelf q'

/-- A number for a text, which different texts seldom share. -/
def spread (s : String) : Nat :=
  s.toList.foldl (fun n c => (31 * n + c.toNat) % 65536) 0

abbrev shelfCount : Nat := 256

def Question.shelf (q : Question) : Fin shelfCount :=
  Fin.ofNat shelfCount <|
    match q with
    | .bucket s | .fileIndex s | .yaml s | .lock s | .declaredKeys s => s.position
    | .provider _ s | .imports _ s | .dependencies _ s | .digest _ s _ => spread s
    | .keyDigest number => number

/-- The answers that are kept, on several shelves so that none gets crowded. -/
structure Memo where
  shelves : Vector Shelf shelfCount

namespace Memo

def empty : Memo :=
  ⟨Vector.replicate shelfCount fun _ => none⟩

def find? (memo : Memo) (q : Question) : Option (Except Error q.Answer) :=
  memo.shelves[q.shelf] q

def store (memo : Memo) (q : Question) (answer : Except Error q.Answer) : Memo :=
  ⟨memo.shelves.set q.shelf (memo.shelves[q.shelf].put q answer)⟩

@[simp] theorem find?_empty (q : Question) : empty.find? q = none := by
  simp [find?, empty]

@[simp] theorem find?_store_self (memo : Memo) (q : Question) (answer : Except Error q.Answer) :
    (memo.store q answer).find? q = some answer := by
  simp [find?, store, Shelf.put]

/-- Keeping an answer does not touch those of other questions. -/
theorem find?_store_of_ne {memo : Memo} {q q' : Question} {answer : Except Error q.Answer}
    (h : q ≠ q') : (memo.store q answer).find? q' = memo.find? q' := by
  by_cases hs : q.shelf = q'.shelf
  · simp [find?, store, Shelf.put, hs, h]
  · have hv : q.shelf.val ≠ q'.shelf.val := fun e => hs (Fin.ext e)
    simp [find?, store, hv]

end Memo

/-- Something that happened in a session. -/
inductive Happening where
  /-- A step on the way to an answer. -/
  | event (event : Event)
  /-- The answer to a question is looked for. -/
  | asked (question : Question)
  /-- The answer to a question was looked for and found. -/
  | answered (question : Question) (answer : Except Error question.Answer)
  /-- The answer to a question had been kept. -/
  | recalled (question : Question)
  /-- A set with that many modules was built. -/
  | built (modules : Nat)
  | told (record : Log.Record)

/-- What stays between questions. -/
structure Session where
  disk : Disk := {}
  /-- The sets that were made; the number of a set is its position. -/
  sets : List ModuleSet := []
  memo : Memo := .empty
  /-- How often a number was asked for. -/
  numbers : Nat := 0
  /-- What happened, the latest first. -/
  journal : List Happening := []

/-- Something done in a session. -/
abbrev SessionM := ExceptT Error (StateM Session)

namespace Session

def count (s : Session) (isCounted : Event → Bool) : Nat :=
  s.journal.countP fun
    | .event event => isCounted event
    | _ => false

def enter (s : Session) (h : Happening) : Session :=
  { s with journal := h :: s.journal }

def note (h : Happening) : SessionM Unit :=
  modify (enter · h)

/-- The answer to a question, which is found by `ask` unless it was kept. -/
def remember (q : Question) (ask : SessionM q.Answer) : SessionM q.Answer := fun s =>
  match s.memo.find? q with
  | some answer => (answer, s.enter (.recalled q))
  | none =>
    let (answer, s) := ask (s.enter (.asked q))
    (answer, { s.enter (.answered q answer) with memo := s.memo.store q answer })

/-- The way to the sources through a session. -/
def access : Access SessionM where
  disk := return (← get).disk
  findSet number := return (← get).sets.find? (·.number == number)
  remember := remember
  note event := note (.event event)

def freshNumber : SessionM Nat :=
  modifyGet fun s => (s.numbers, { s with numbers := s.numbers + 1 })

/-- Keeps a set that was made with the next number. -/
def addSet (make : Nat → Except Error ModuleSet) : SessionM ModuleSet := do
  let set ← MonadExcept.ofExcept (make (← get).sets.length)
  modify fun s => { s with sets := s.sets ++ [set] }
  return set

/-- Builds a set from additions. -/
def build (parser : ImportParser) (additions : List Addition) : SessionM ModuleSet := do
  let set ← addSet fun number => ModuleSet.build number parser additions
  note (.built set.modules.length)
  return set

/-- A set with other targets. -/
def retarget (set : ModuleSet) (identities : List String) : SessionM ModuleSet :=
  addSet fun number => set.retarget number identities

/-- A question asked a second time gets the answer that was kept. -/
theorem remember_of_find? {q : Question} {ask : SessionM q.Answer} {s : Session}
    {answer : Except Error q.Answer} (h : s.memo.find? q = some answer) :
    remember q ask s = (answer, s.enter (.recalled q)) := by
  simp [remember, h]

end Session

end ProtoWorkspace
