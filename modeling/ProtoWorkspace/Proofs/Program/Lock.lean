import Mathlib.Tactic
import ProtoWorkspace.Proofs.Disk.Written
import ProtoWorkspace.Proofs.LockFile.Records
import ProtoWorkspace.Proofs.LockFile.Text
import ProtoWorkspace.Proofs.Registry.Pins

/-!
# The lock command

The command makes a lock file, reads the one that is there and writes the new one where they differ.
Main statement: it changes nothing when it fails or must find the lock file up to date, what it leaves
behind is the lock file that it tells of, and from then on it has nothing to do
(`Commands.lock_settled`).
-/

namespace ProtoWorkspace

open Fallible

namespace CommandM

variable {α β : Type} {x : CommandM α} {f : α → CommandM β} {σ σ' : Session}

theorem bind_of_ok {a : α} (h : x σ = (.ok a, σ')) : (x >>= f : CommandM β) σ = f a σ' := by
  simp only [bind, ExceptT.bind, ExceptT.mk, StateT.bind, h]
  rfl

theorem bind_of_error {e : CommandError} (h : x σ = (.error e, σ')) :
    (x >>= f : CommandM β) σ = (.error e, σ') := by
  simp only [bind, ExceptT.bind, ExceptT.mk, StateT.bind, h]
  rfl

end CommandM

namespace Commands

variable {σ σ' : Session} {s : ModuleSet} {type : DigestType} {path : String} {isLocked : Bool}

theorem onModules_run {α : Type} (x : SessionM α) (σ : Session) :
    onModules x σ = ((x σ).1.mapError .module, (x σ).2) := rfl

theorem tell_run (level : Log.Level) (message : String) (σ : Session) :
    ∃ happening, tell level message σ = (.ok (), σ.enter happening) :=
  ⟨_, rfl⟩

/-- How the command goes on with a lock file. -/
inductive Settles (l : LockFile) (disk : Disk) (path : String) (isLocked : Bool) :
    Except CommandError (LockFile × Bool) → Disk → Prop where
  | unreadable {e : DocumentError} (present : disk.hasPath path = true)
    (old : readLock disk path = .error e) :
    Settles l disk path isLocked (.error (.document e)) disk
  | upToDate (old : readLock disk path = .ok l) : Settles l disk path isLocked (.ok (l, false)) disk
  | outdated (locked : isLocked = true) (old : readLock disk path ≠ .ok l) :
    Settles l disk path isLocked (.error (.outdatedLock path)) disk
  | unwritable {fault : Disk.Fault} (free : isLocked = false) (old : readLock disk path ≠ .ok l)
    (refused : disk.write path l.text.toUTF8 = .error fault) :
    Settles l disk path isLocked (.error (.unwritable fault)) disk
  | written {disk' : Disk} (free : isLocked = false) (old : readLock disk path ≠ .ok l)
    (put : disk.write path l.text.toUTF8 = .ok disk') :
    Settles l disk path isLocked (.ok (l, true)) disk'

/-- What the command does with a lock file when the old one has been read. -/
def renew (l : LockFile) (disk : Disk) (path : String) (isLocked : Bool) (old : Option LockFile) :
    CommandM (LockFile × Bool) :=
  if old = some l then do
    tell .debug "Lockfile is up to date"
    return (l, false)
  else if isLocked then throw (.outdatedLock path)
  else
    match disk.write path l.text.toUTF8 with
    | .error fault => throw (.unwritable fault)
    | .ok disk => do
      modify fun s => { s with disk := disk }
      tell .info ("Wrote lockfile to " ++ path)
      return (l, true)

theorem renew_settles {l : LockFile} {old : Option LockFile}
    (hold : old = some l ↔ readLock σ.disk path = .ok l) :
    ∃ result σ', renew l σ.disk path isLocked old σ = (result, σ') ∧ σ.KeptBy σ' ∧
      Settles l σ.disk path isLocked result σ'.disk := by
  have same : σ.KeptBy σ := (Session.Before.refl σ).keptBy
  unfold renew
  by_cases upToDate : old = some l
  · rw [if_pos upToDate]
    obtain ⟨told, run⟩ := tell_run .debug "Lockfile is up to date" σ
    exact ⟨_, _, CommandM.bind_of_ok run, (σ.before_enter told).keptBy, .upToDate (hold.1 upToDate)⟩
  rw [if_neg upToDate]
  have differs : readLock σ.disk path ≠ .ok l := fun h => upToDate (hold.2 h)
  cases isLocked with
  | true => exact ⟨_, _, rfl, same, .outdated rfl differs⟩
  | false =>
    rw [if_neg Bool.false_ne_true]
    cases put : σ.disk.write path l.text.toUTF8 with
    | error fault => exact ⟨_, _, rfl, same, .unwritable rfl differs put⟩
    | ok disk =>
      have changed : (modify fun s => { s with disk := disk } : CommandM Unit) σ =
          (.ok (), { σ with disk := disk }) := rfl
      obtain ⟨told, run⟩ := tell_run .info ("Wrote lockfile to " ++ path) { σ with disk := disk }
      refine ⟨_, _, (CommandM.bind_of_ok changed).trans (CommandM.bind_of_ok run), ?_,
        .written rfl differs put⟩
      exact ⟨List.prefix_refl _, fun _ _ => id⟩

theorem lock_of_error {e : Error} (h : lockOf s type σ = (.error e, σ')) :
    lock s type path isLocked σ = (.error (.module e), σ') := by
  refine CommandM.bind_of_error ?_
  rw [onModules_run, h]
  rfl

theorem hasPath_of_readLock {disk : Disk} {l : LockFile} (h : readLock disk path = .ok l) :
    disk.hasPath path = true := by
  obtain ⟨text, read, -⟩ := bind_eq_ok.1 h
  unfold readText at read
  cases data : disk.read path with
  | error fault =>
    rw [data] at read
    cases read
  | ok data' => exact Disk.hasPath_of_read data

theorem readText_of_read {disk : Disk} {text : String} (h : disk.read path = .ok text.toUTF8) :
    readText disk path = .ok text := by
  have decoded : String.fromUTF8? text.toUTF8 = some text := dif_pos text.isValidUTF8
  rw [readText, h]
  dsimp only
  rw [decoded]

/-- A lock file is read back from where it was written. -/
theorem readLock_of_write {disk disk' : Disk} {l : LockFile}
    (h : disk.write path l.text.toUTF8 = .ok disk') : readLock disk' path = .ok l := by
  rw [readLock, readText_of_read (Disk.read_of_write h), ok_bind]
  exact LockFile.parse_of_document l.parse?_text

theorem lock_of_ok (path : String) (isLocked : Bool) {l : LockFile}
    (h : lockOf s type σ = (.ok l, σ')) :
    ∃ result σ₂, lock s type path isLocked σ = (result, σ₂) ∧ σ'.KeptBy σ₂ ∧
      Settles l σ'.disk path isLocked result σ₂.disk := by
  have made : onModules (lockOf s type) σ = (.ok l, σ') := by
    rw [onModules_run, h]
    rfl
  obtain ⟨told, tellsLock⟩ := tell_run .debug ("Generated lockfile: " ++ l.shown) σ'
  have keeps : σ'.KeptBy (σ'.enter told) := (σ'.before_enter told).keptBy
  have sameDisk : (σ'.enter told).disk = σ'.disk := rfl
  have found : (get : CommandM Session) (σ'.enter told) = (.ok (σ'.enter told), σ'.enter told) :=
    rfl
  rw [lock, CommandM.bind_of_ok made, CommandM.bind_of_ok tellsLock, CommandM.bind_of_ok found]
  generalize σ'.enter told = σ₁ at keeps sameDisk
  rw [← sameDisk]
  have run (old : Option LockFile) (hold : old = some l ↔ readLock σ₁.disk path = .ok l) :
      ∃ result σ₂, renew l σ₁.disk path isLocked old σ₁ = (result, σ₂) ∧ σ'.KeptBy σ₂ ∧
        Settles l σ₁.disk path isLocked result σ₂.disk := by
    obtain ⟨result, σ₂, renewed, kept, settles⟩ := renew_settles hold
    exact ⟨result, σ₂, renewed, keeps.trans kept, settles⟩
  dsimp only
  by_cases present : σ₁.disk.hasPath path = true
  · rw [if_pos present]
    cases read : readLock σ₁.disk path with
    | error e =>
      have failed : (some <$> onDocument (.error e) : CommandM (Option LockFile)) σ₁ =
          (.error (.document e), σ₁) := rfl
      exact ⟨_, _, CommandM.bind_of_error failed, keeps, .unreadable present read⟩
    | ok old =>
      have done : (some <$> onDocument (.ok old) : CommandM (Option LockFile)) σ₁ =
          (.ok (some old), σ₁) := rfl
      rw [CommandM.bind_of_ok done]
      refine run (some old) ?_
      rw [read, Option.some.injEq, Except.ok.injEq]
  · rw [if_neg present]
    refine run none ?_
    exact ⟨nofun, fun read => absurd (hasPath_of_readLock read) present⟩

/-! ## What becomes of the file -/

section Settles

variable {l : LockFile} {disk disk' : Disk} {result : Except CommandError (LockFile × Bool)}

theorem Settles.disk_eq (h : Settles l disk path isLocked result disk')
    (hk : isLocked = true ∨ ¬ Succeeds result) : disk' = disk := by
  cases h with
  | written free =>
    rcases hk with locked | failed
    · cases free.symm.trans locked
    · exact absurd (succeeds_ok _) failed
  | _ => rfl

theorem Settles.of_ok {l' : LockFile} {written : Bool}
    (h : Settles l disk path isLocked (.ok (l', written)) disk') :
    l' = l ∧ readLock disk' path = .ok l := by
  cases h with
  | upToDate old => exact ⟨rfl, old⟩
  | written _ _ put => exact ⟨rfl, readLock_of_write put⟩

/-- Where there is nothing yet and a file can be put, it is written. -/
theorem Settles.eq_of_absent {disk₂ : Disk} (h : Settles l disk path false result disk')
    (absent : disk.hasPath path = false) (put : disk.write path l.text.toUTF8 = .ok disk₂) :
    result = .ok (l, true) := by
  cases h with
  | unreadable present => cases absent.symm.trans present
  | upToDate old => cases absent.symm.trans (hasPath_of_readLock old)
  | outdated locked => cases locked
  | unwritable _ _ refused => cases put.symm.trans refused
  | written => rfl

theorem Settles.of_readLock (h : Settles l disk path isLocked result disk')
    (old : readLock disk path = .ok l) : result = .ok (l, false) ∧ disk' = disk := by
  cases h with
  | upToDate => exact ⟨rfl, rfl⟩
  | unreadable _ failed => cases old.symm.trans failed
  | outdated _ differs => exact absurd old differs
  | unwritable _ differs => exact absurd old differs
  | written _ differs => exact absurd old differs

end Settles

/-- The command loses no set and no answer. -/
theorem keptBy_lock {result : Except CommandError (LockFile × Bool)}
    (h : lock s type path isLocked σ = (result, σ')) : σ.KeptBy σ' := by
  have before := Cumulative.before (x := lockOf s type) σ
  rcases made : lockOf s type σ with ⟨e | l, σ₁⟩
  · cases h.symm.trans (lock_of_error made)
    rw [made] at before
    exact before.keptBy
  · obtain ⟨_, _, run, kept, -⟩ := lock_of_ok path isLocked made
    cases h.symm.trans run
    rw [made] at before
    exact before.keptBy.trans kept

/-- Either a digest fails and nothing else is done, or the command goes on with a lock file that is
made whenever it is run again. -/
theorem lock_cases {result : Except CommandError (LockFile × Bool)} (hs : σ.Has s)
    (h : lock s type path isLocked σ = (result, σ')) :
    (¬ Succeeds result ∧ σ'.disk = σ.disk ∧ ∃ x ∈ s.pinned, ¬ Succeeds (σ'.digestOf s type x)) ∨
    ∃ l : LockFile, l.Records s (σ'.digestOf s type) ∧
      Settles l σ.disk path isLocked result σ'.disk ∧
      ∀ σ₂, σ'.KeptBy σ₂ → ∃ σ₃, lockOf s type σ₂ = (.ok l, σ₃) := by
  have before := Cumulative.before (x := lockOf s type) σ
  rcases lockOf_cases type hs with ⟨e, σ₁, failed, x, hx, kept⟩ | ⟨l, σ₁, made, records⟩
  · cases h.symm.trans (lock_of_error failed)
    rw [failed] at before
    refine .inl ⟨not_succeeds_error _, before.disk, x, hx, ?_⟩
    rw [kept.digestOf_eq]
    exact not_succeeds_error e
  · obtain ⟨_, _, run, kept, settles⟩ := lock_of_ok path isLocked made
    cases h.symm.trans run
    rw [made] at before
    rw [before.disk] at settles
    exact .inr ⟨l, records σ' kept, settles, fun σ₂ hk => lockOf_again hs made (kept.trans hk)⟩

/-- The lock command changes nothing when it fails, nor when the lock file must be up to date. Then it
succeeds exactly when all digests can be had and the file is a lock file that lists them. When it
succeeds, the file can be read as that lock file, and from then on the command finds it up to date. -/
theorem lock_settled {result : Except CommandError (LockFile × Bool)} (hs : σ.Has s)
    (h : lock s type path isLocked σ = (result, σ')) :
    (isLocked = true ∨ ¬ Succeeds result → σ'.disk = σ.disk) ∧
    (isLocked = true → (Succeeds result ↔
      ∃ l : LockFile, l.Records s (σ'.digestOf s type) ∧ readLock σ.disk path = .ok l)) ∧
    ∀ l written, result = .ok (l, written) →
      l.Records s (σ'.digestOf s type) ∧ readLock σ'.disk path = .ok l ∧
      ∀ σ₂ isLocked', σ'.Before σ₂ → ∃ σ₃,
        lock s type path isLocked' σ₂ = (.ok (l, false), σ₃) ∧ σ₃.disk = σ₂.disk := by
  rcases lock_cases hs h with ⟨failed, disk, x, hx, noDigest⟩ | ⟨l, records, settles, again⟩
  · refine ⟨fun _ => disk, fun _ => ⟨fun ok => absurd ok failed, ?_⟩, ?_⟩
    · rintro ⟨l, records, -⟩
      exact absurd (records.digested x hx) noDigest
    · rintro l written rfl
      exact absurd (succeeds_ok _) failed
  · refine ⟨settles.disk_eq, fun locked => ⟨?_, ?_⟩, ?_⟩
    · rintro ⟨⟨l', written⟩, rfl⟩
      have read := settles.of_ok.2
      rw [settles.disk_eq (.inl locked)] at read
      exact ⟨l, records, read⟩
    · rintro ⟨l', records', read⟩
      obtain rfl := records.unique records'
      exact ⟨_, (settles.of_readLock read).1⟩
    · rintro l' written rfl
      obtain ⟨rfl, read⟩ := settles.of_ok
      refine ⟨records, read, fun σ₂ isLocked' hb => ?_⟩
      obtain ⟨σ₃, made⟩ := again σ₂ hb.keptBy
      have before := Cumulative.before (x := lockOf s type) σ₂
      rw [made] at before
      obtain ⟨result, σ₄, run, -, settles'⟩ := lock_of_ok path isLocked' made
      rw [before.disk, hb.disk] at settles'
      obtain ⟨rfl, same⟩ := settles'.of_readLock read
      exact ⟨σ₄, run, same.trans hb.disk.symm⟩

end Commands

namespace Sample

/-- The session in which the digest of the pinned module has been asked for. -/
def askedSession : Session :=
  pinnedSession.after (pinnedSet.digest Session.access pinnedSecond .b5)

theorem before_askedSession : pinnedSession.Before askedSession :=
  Cumulative.before pinnedSession

theorem has_askedSession : askedSession.Has pinnedSet :=
  (reachable_pinnedSession.has pinnedSet_mem_sets).of_keptBy before_askedSession.keptBy

theorem keepsDigest_askedSession : ∃ d, askedSession.KeepsDigest pinnedSet .b5 pinnedSecond (.ok d) := by
  have kept := Session.keepsDigest_digest pinnedSession pinnedSet .b5 pinnedSecond
  have digest := reachable_pinnedSession.outcome_digest hasPlainPaths_pinnedSession
    pinnedSet_mem_sets (mem_modules_pinnedSet.2 (.inr rfl)) .b5
  rw [Session.digestOf, digest.trans digest_pinnedSecond] at kept
  exact ⟨_, kept⟩

theorem pinned_pinnedSet {x : Module} (hx : x ∈ pinnedSet.pinned) : x = pinnedSecond := by
  obtain ⟨member, -, hc⟩ := ModuleSet.mem_pinned_iff.1 hx
  rcases mem_modules_pinnedSet.1 member with rfl | rfl
  · cases hc
  · rfl

/-- Where there is no lock file, one is written. -/
theorem lock_askedSession {result : Except CommandError (LockFile × Bool)} {σ' : Session}
    (h : Commands.lock pinnedSet .b5 "lock" false askedSession = (result, σ')) :
    ∃ l, result = .ok (l, true) := by
  have disk : askedSession.disk = {} := before_askedSession.disk
  have absent : ({} : Disk).hasPath "lock" = false := by decide
  rcases Commands.lock_cases has_askedSession h with ⟨-, -, x, hx, failed⟩ | ⟨l, -, settles, -⟩
  · obtain rfl := pinned_pinnedSet hx
    obtain ⟨d, kept⟩ := keepsDigest_askedSession
    rw [(kept.of_keptBy (Commands.keptBy_lock h)).digestOf_eq] at failed
    exact absurd (succeeds_ok d) failed
  · have put : ({} : Disk).write "lock" l.text.toUTF8 =
        .ok (({} : Disk).putFile ["lock"] l.text.toUTF8) := rfl
    rw [disk] at settles
    exact ⟨l, settles.eq_of_absent absent put⟩

end Sample

/-- In the sample the lock file is written and can be read, and the command then finds it up to date. -/
theorem Sample.lock_pinned : askedSession.Has pinnedSet ∧ ∃ l σ',
    Commands.lock pinnedSet .b5 "lock" false askedSession = (.ok (l, true), σ') ∧
    l.Records pinnedSet (σ'.digestOf pinnedSet .b5) ∧
    Commands.readLock σ'.disk "lock" = .ok l ∧
    ∃ σ₂, Commands.lock pinnedSet .b5 "lock" true σ' = (.ok (l, false), σ₂) ∧
      σ₂.disk = σ'.disk := by
  rcases h : Commands.lock pinnedSet .b5 "lock" false askedSession with ⟨result, σ'⟩
  obtain ⟨l, rfl⟩ := lock_askedSession h
  obtain ⟨records, read, again⟩ := (Commands.lock_settled has_askedSession h).2.2 l true rfl
  exact ⟨has_askedSession, l, σ', rfl, records, read, again σ' true (.refl σ')⟩

end ProtoWorkspace
