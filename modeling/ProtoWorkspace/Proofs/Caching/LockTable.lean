import Mathlib.Tactic
import ProtoWorkspace.Caching.LockTable

/-!
# The locks in the table are the locks in use

A guard is live from the moment it is taken until it is dropped. Whatever guards are taken and dropped,
in any order, the table has one lock for each key with a live guard and no other: `Holds` follows the
live guards beside the table, and `IsSound` is what ties the two together.
-/

namespace ProtoWorkspace

theorem lookup_eq_some_iff_mem {α β : Type} [BEq α] [LawfulBEq α] {entries : List (α × β)} {a : α} {b : β}
    (nodup : (entries.map Prod.fst).Nodup) : entries.lookup a = some b ↔ (a, b) ∈ entries := by
  induction entries with
  | nil => simp
  | cons entry entries ih =>
    obtain ⟨a', b'⟩ := entry
    obtain ⟨new, nodup⟩ := List.nodup_cons.1 nodup
    by_cases same : a = a'
    · subst same
      have absent : (a, b) ∉ entries := fun h => new (List.mem_map.2 ⟨_, h, rfl⟩)
      simp [absent, eq_comm]
    · have apart : (a == a') = false := by simpa using same
      simp [List.lookup_cons, apart, same, ih nodup]

theorem not_mem_keys_of_lookup_eq_none {α β : Type} [BEq α] [LawfulBEq α] {entries : List (α × β)} {a : α}
    (absent : entries.lookup a = none) : a ∉ entries.map Prod.fst := by
  intro old
  obtain ⟨entry, hentry, same⟩ := List.mem_map.1 old
  simpa [same] using List.lookup_eq_none_iff.1 absent entry hentry

theorem Guard.excludes_comm (g g' : Guard) : g.excludes g'.mode = g'.excludes g.mode :=
  Bool.or_comm _ _

theorem Guard.excludes_eq_false_iff {g : Guard} {mode : LockMode} :
    g.excludes mode = false ↔ g.mode = .shared ∧ mode = .shared := by
  cases h : g.mode <;> cases mode <;> simp [Guard.excludes, h]

namespace LockTable

variable {t t' : LockTable} {held : List Guard} {g : Guard} {key : String} {lock : Nat} {mode : LockMode}

/-- A table that started empty, with the guards that were taken without waiting and not dropped since. -/
inductive Holds : LockTable → List Guard → Prop where
  | new : Holds {} []
  | acquire {t t' : LockTable} {held : List Guard} {key : String} {mode : LockMode} {g : Guard} :
    Holds t held → t.acquire? key mode = some (g, t') → Holds t' (g :: held)
  | drop {t : LockTable} {held : List Guard} {g : Guard} :
    Holds t held → g ∈ held → Holds (t.release g) (held.erase g)

/-- The guards that are out hold the locks of their keys, and every lock is held. -/
structure IsSound (t : LockTable) : Prop where
  keys_nodup : (t.table.map Prod.fst).Nodup
  locks_nodup : (t.table.map Prod.snd).Nodup
  lt_made : ∀ entry ∈ t.table, entry.2 < t.made
  ids_nodup : (t.guards.map Guard.id).Nodup
  lt_given : ∀ g ∈ t.guards, g.id < t.given
  has_entry : ∀ g ∈ t.guards, (g.key, g.lock) ∈ t.table
  is_held : ∀ entry ∈ t.table, ∃ g ∈ t.guards, g.lock = entry.2
  /-- Guards of one lock keep each other in. -/
  shared : t.guards.Pairwise fun g g' => g.lock = g'.lock → g.excludes g'.mode = false

theorem isSound_empty : IsSound {} where
  keys_nodup := List.nodup_nil
  locks_nodup := List.nodup_nil
  lt_made := List.forall_mem_nil _
  ids_nodup := List.nodup_nil
  lt_given := List.forall_mem_nil _
  has_entry := List.forall_mem_nil _
  is_held := List.forall_mem_nil _
  shared := .nil

/-! ## Taking a guard -/

theorem isFree_iff : t.isFree lock mode = true ↔ ∀ g ∈ t.guards, g.lock = lock → g.excludes mode = false := by
  simp [isFree, or_iff_not_imp_left]

theorem acquire?_of_lookup (h : t.table.lookup key = some lock) :
    t.acquire? key mode =
      if t.isFree lock mode then
        some (⟨t.given, key, lock, mode⟩,
          { t with guards := ⟨t.given, key, lock, mode⟩ :: t.guards, given := t.given + 1 })
      else none := by
  simp only [acquire?, lockFor, h]

theorem IsSound.lock_lt_made (h : t.IsSound) (hg : g ∈ t.guards) : g.lock < t.made :=
  h.lt_made _ (h.has_entry g hg)

/-- A lock that is made is free. -/
theorem IsSound.acquire?_of_absent (h : t.IsSound) (absent : t.table.lookup key = none) :
    t.acquire? key mode =
      some (⟨t.given, key, t.made, mode⟩,
        ⟨(key, t.made) :: t.table, ⟨t.given, key, t.made, mode⟩ :: t.guards, t.made + 1, t.given + 1⟩) := by
  have free : isFree { t with table := (key, t.made) :: t.table, made := t.made + 1 } t.made mode = true :=
    isFree_iff.2 fun g hg same => absurd same (h.lock_lt_made hg).ne
  simp only [acquire?, lockFor, absent, free, if_true]

theorem guards_of_acquire? (got : t.acquire? key mode = some (g, t')) :
    t'.guards = g :: t.guards ∧ g.key = key ∧ g.mode = mode := by
  have guards : (t.lockFor key).2.guards = t.guards := by
    unfold lockFor
    split <;> rfl
  unfold acquire? at got
  dsimp only at got
  split at got
  · cases got
    simp [guards]
  · cases got

theorem IsSound.lookup_eq_some (h : t.IsSound) (hg : g ∈ t.guards) : t.table.lookup g.key = some g.lock :=
  (lookup_eq_some_iff_mem h.keys_nodup).2 (h.has_entry g hg)

/-- Guards hold one lock exactly if they have one key. -/
theorem IsSound.lock_eq_iff (h : t.IsSound) {g g' : Guard} (hg : g ∈ t.guards) (hg' : g' ∈ t.guards) :
    g.lock = g'.lock ↔ g.key = g'.key := by
  constructor
  · intro same
    have entries := List.inj_on_of_nodup_map h.locks_nodup (h.has_entry g hg) (h.has_entry g' hg') same
    exact congrArg Prod.fst entries
  · intro same
    have found := h.lookup_eq_some hg
    rw [same, h.lookup_eq_some hg'] at found
    exact (Option.some.inj found).symm

/-- A guard can be taken unless the key has a guard that keeps it out. -/
theorem IsSound.acquire?_isSome_iff (h : t.IsSound) :
    (t.acquire? key mode).isSome = true ↔ ∀ g ∈ t.guards, g.key = key → g.excludes mode = false := by
  cases found : t.table.lookup key with
  | none =>
    have others : ∀ g ∈ t.guards, g.key ≠ key := by
      rintro g hg rfl
      simp [h.lookup_eq_some hg] at found
    simp only [h.acquire?_of_absent found, Option.isSome_some, true_iff]
    exact fun g hg same => absurd same (others g hg)
  | some lock =>
    have holds (g : Guard) (hg : g ∈ t.guards) : g.lock = lock ↔ g.key = key := by
      obtain ⟨g', hg', there⟩ := h.is_held _ ((lookup_eq_some_iff_mem h.keys_nodup).1 found)
      have entry := h.has_entry g' hg'
      rw [there] at entry
      have named : g'.key = key := congrArg Prod.fst (List.inj_on_of_nodup_map h.locks_nodup entry
        ((lookup_eq_some_iff_mem h.keys_nodup).1 found) rfl)
      rw [← named, ← h.lock_eq_iff hg hg', there]
    rw [acquire?_of_lookup found]
    by_cases free : t.isFree lock mode = true
    · simp only [free, if_true, Option.isSome_some, true_iff]
      exact fun g hg same => isFree_iff.1 free g hg ((holds g hg).2 same)
    · simp only [free, Bool.false_eq_true, if_false, Option.isSome_none, false_iff]
      exact fun all => free (isFree_iff.2 fun g hg same => all g hg ((holds g hg).1 same))

theorem IsSound.ids_nodup_cons (h : t.IsSound) (key : String) (lock : Nat) (mode : LockMode) :
    ((⟨t.given, key, lock, mode⟩ :: t.guards).map Guard.id).Nodup := by
  refine List.nodup_cons.2 ⟨fun old => ?_, h.ids_nodup⟩
  obtain ⟨g, hg, same⟩ := List.mem_map.1 old
  exact (h.lt_given g hg).ne same

theorem IsSound.lt_given_cons (h : t.IsSound) (key : String) (lock : Nat) (mode : LockMode) :
    ∀ g ∈ (⟨t.given, key, lock, mode⟩ : Guard) :: t.guards, g.id < t.given + 1 :=
  List.forall_mem_cons.2 ⟨Nat.lt_succ_self _, fun g hg => (h.lt_given g hg).trans (Nat.lt_succ_self _)⟩

theorem IsSound.is_held_cons (h : t.IsSound) (g : Guard) :
    ∀ entry ∈ t.table, ∃ g' ∈ g :: t.guards, g'.lock = entry.2 :=
  fun entry hentry => (h.is_held entry hentry).imp fun _ => And.imp_left (List.mem_cons_of_mem _)

/-- A guard of a key that had none. -/
theorem IsSound.acquire_absent (h : t.IsSound) (absent : t.table.lookup key = none) (mode : LockMode) :
    IsSound ⟨(key, t.made) :: t.table, ⟨t.given, key, t.made, mode⟩ :: t.guards,
      t.made + 1, t.given + 1⟩ where
  keys_nodup := List.nodup_cons.2 ⟨not_mem_keys_of_lookup_eq_none absent, h.keys_nodup⟩
  locks_nodup := by
    refine List.nodup_cons.2 ⟨fun old => ?_, h.locks_nodup⟩
    obtain ⟨entry, hentry, same⟩ := List.mem_map.1 old
    exact (h.lt_made entry hentry).ne same
  lt_made := List.forall_mem_cons.2 ⟨Nat.lt_succ_self _,
    fun entry hentry => (h.lt_made entry hentry).trans (Nat.lt_succ_self _)⟩
  ids_nodup := h.ids_nodup_cons _ _ _
  lt_given := h.lt_given_cons _ _ _
  has_entry := List.forall_mem_cons.2 ⟨List.mem_cons_self,
    fun g hg => List.mem_cons_of_mem _ (h.has_entry g hg)⟩
  is_held := List.forall_mem_cons.2 ⟨⟨_, List.mem_cons_self, rfl⟩, h.is_held_cons _⟩
  shared := .cons (fun g hg same => absurd same.symm (h.lock_lt_made hg).ne) h.shared

/-- A guard of a key whose other guards let it in. -/
theorem IsSound.acquire_present (h : t.IsSound) (found : t.table.lookup key = some lock)
    (free : t.isFree lock mode = true) :
    IsSound { t with guards := ⟨t.given, key, lock, mode⟩ :: t.guards, given := t.given + 1 } where
  keys_nodup := h.keys_nodup
  locks_nodup := h.locks_nodup
  lt_made := h.lt_made
  ids_nodup := h.ids_nodup_cons _ _ _
  lt_given := h.lt_given_cons _ _ _
  has_entry := List.forall_mem_cons.2 ⟨(lookup_eq_some_iff_mem h.keys_nodup).1 found, h.has_entry⟩
  is_held := h.is_held_cons _
  shared := .cons (fun g hg same => (Guard.excludes_comm _ g).trans (isFree_iff.1 free g hg same.symm))
    h.shared

theorem IsSound.acquire (h : t.IsSound) (got : t.acquire? key mode = some (g, t')) : t'.IsSound := by
  cases found : t.table.lookup key with
  | none =>
    rw [h.acquire?_of_absent found] at got
    cases got
    exact h.acquire_absent found mode
  | some lock =>
    rw [acquire?_of_lookup found] at got
    split at got
    · next free =>
      cases got
      exact h.acquire_present found free
    · cases got

/-! ## Dropping a guard -/

theorem IsSound.guards_release (h : t.IsSound) (hg : g ∈ t.guards) :
    (t.release g).guards = t.guards.erase g := by
  have nodup : t.guards.Nodup := h.ids_nodup.of_map _
  rw [nodup.erase_eq_filter]
  refine List.filter_congr fun g' hg' => ?_
  have same : g'.id = g.id ↔ g' = g :=
    ⟨List.inj_on_of_nodup_map h.ids_nodup hg' hg, congrArg _⟩
  rw [Bool.eq_iff_iff, bne_iff_ne, bne_iff_ne]
  exact not_congr same

/-- The lock of a dropped guard stays in the table exactly if another guard holds it. -/
theorem IsSound.table_release (h : t.IsSound) (hg : g ∈ t.guards) :
    (t.release g).table =
      if ∃ g' ∈ t.guards.erase g, g'.lock = g.lock then t.table
      else t.table.filter (·.1 != g.key) := by
  have guards := h.guards_release hg
  unfold release at guards
  dsimp only at guards
  simp only [release, guards, h.lookup_eq_some hg, Option.any_some, List.any_eq_true, beq_iff_eq]

/-- After a guard is dropped the table has the locks that other guards hold. -/
theorem IsSound.mem_table_release (h : t.IsSound) (hg : g ∈ t.guards) {entry : String × Nat} :
    entry ∈ (t.release g).table ↔ entry ∈ t.table ∧ ∃ g' ∈ t.guards.erase g, g'.lock = entry.2 := by
  -- an entry keeps its holder unless that is the dropped guard, and then the entry is the guard's own
  have holder (hentry : entry ∈ t.table) :
      entry = (g.key, g.lock) ∨ ∃ g' ∈ t.guards.erase g, g'.lock = entry.2 := by
    obtain ⟨g', hg', there⟩ := h.is_held entry hentry
    by_cases same : g' = g
    · subst same
      exact .inl (List.inj_on_of_nodup_map h.locks_nodup hentry (h.has_entry g' hg') there.symm)
    · exact .inr ⟨g', (List.mem_erase_of_ne same).2 hg', there⟩
  rw [h.table_release hg]
  split
  · next held =>
    refine ⟨fun hentry => ⟨hentry, ?_⟩, And.left⟩
    rcases holder hentry with rfl | other
    · exact held
    · exact other
  · next unheld =>
    rw [List.mem_filter, bne_iff_ne]
    refine and_congr_right fun hentry => ⟨fun other => ?_, ?_⟩
    · exact (holder hentry).resolve_left fun own => other (congrArg Prod.fst own)
    · rintro ⟨g', hg', there⟩ same
      have own := List.inj_on_of_nodup_map h.keys_nodup hentry (h.has_entry g hg) same
      exact unheld ⟨g', hg', there.trans (congrArg Prod.snd own)⟩

theorem IsSound.release (h : t.IsSound) (hg : g ∈ t.guards) : (t.release g).IsSound := by
  have sub : (t.release g).table.Sublist t.table := by
    rw [h.table_release hg]
    split
    · exact .refl _
    · exact List.filter_sublist
  have guards := h.guards_release hg
  exact {
    keys_nodup := h.keys_nodup.sublist (sub.map _)
    locks_nodup := h.locks_nodup.sublist (sub.map _)
    lt_made := fun entry hentry => h.lt_made entry (sub.subset hentry)
    ids_nodup := guards ▸ h.ids_nodup.sublist (List.erase_sublist.map _)
    lt_given := fun g' hg' => h.lt_given g' (List.mem_of_mem_erase (guards ▸ hg'))
    has_entry := fun g' hg' => by
      rw [guards] at hg'
      exact (h.mem_table_release hg).2 ⟨h.has_entry g' (List.mem_of_mem_erase hg'), g', hg', rfl⟩
    is_held := fun entry hentry => by
      rw [guards]
      exact ((h.mem_table_release hg).1 hentry).2
    shared := guards ▸ h.shared.sublist List.erase_sublist }

/-! ## Any sequence of guards taken and dropped -/

theorem Holds.isSound (h : Holds t held) : t.IsSound ∧ t.guards = held := by
  induction h with
  | new => exact ⟨isSound_empty, rfl⟩
  | acquire _ got ih => exact ⟨ih.1.acquire got, (guards_of_acquire? got).1.trans (ih.2 ▸ rfl)⟩
  | drop _ hg ih =>
    obtain ⟨sound, rfl⟩ := ih
    exact ⟨sound.release hg, sound.guards_release hg⟩

theorem Holds.mem_keys_iff (h : Holds t held) : key ∈ t.table.map Prod.fst ↔ ∃ g ∈ held, g.key = key := by
  obtain ⟨sound, rfl⟩ := h.isSound
  constructor
  · intro hkey
    obtain ⟨entry, hentry, rfl⟩ := List.mem_map.1 hkey
    obtain ⟨g, hg, there⟩ := sound.is_held entry hentry
    exact ⟨g, hg, congrArg Prod.fst
      (List.inj_on_of_nodup_map sound.locks_nodup (sound.has_entry g hg) hentry there)⟩
  · rintro ⟨g, hg, rfl⟩
    exact List.mem_map_of_mem (sound.has_entry g hg)

/-- Whatever guards were taken without waiting and dropped since, in any order, the table has one entry for
every key with a live guard and none for other keys. So its size is the number of these keys, and it is empty
exactly if no guard is live. Live guards hold the lock that the table has for their key, and two of them
hold one lock exactly if they have one key. So no other guard of the key is live beside one that is
exclusive. Nor does a guard have to wait for anything but a live guard of its key. -/
theorem Holds.table_in_use (h : Holds t held) :
    (t.table.map Prod.fst).Nodup ∧
    (∀ key, key ∈ t.table.map Prod.fst ↔ ∃ g ∈ held, g.key = key) ∧
    t.size = (held.map Guard.key).toFinset.card ∧
    (t.isEmpty = true ↔ held = []) ∧
    (∀ g ∈ held, t.table.lookup g.key = some g.lock ∧
      ∀ g' ∈ held, g.lock = g'.lock ↔ g.key = g'.key) ∧
    (held.Pairwise fun g g' => g.key = g'.key → g.mode = .shared ∧ g'.mode = .shared) ∧
    ∀ key mode, (t.acquire? key mode).isSome = true ↔
      ∀ g ∈ held, g.key = key → g.mode = .shared ∧ mode = .shared := by
  have entries (key : String) : key ∈ t.table.map Prod.fst ↔ ∃ g ∈ held, g.key = key := h.mem_keys_iff
  obtain ⟨sound, rfl⟩ := h.isSound
  refine ⟨sound.keys_nodup, entries, ?_, ?_, ?_, ?_, ?_⟩
  · calc t.size = (t.table.map Prod.fst).length := (List.length_map _).symm
      _ = (t.table.map Prod.fst).toFinset.card := (List.toFinset_card_of_nodup sound.keys_nodup).symm
      _ = (t.guards.map Guard.key).toFinset.card := by
        congr 1
        ext key
        simp only [List.mem_toFinset, entries, List.mem_map]
  · rw [isEmpty, List.isEmpty_iff, ← List.map_eq_nil_iff (f := Prod.fst),
      ← List.map_eq_nil_iff (f := Guard.key), List.eq_nil_iff_forall_not_mem, List.eq_nil_iff_forall_not_mem]
    exact forall_congr' fun key => not_congr ((entries key).trans List.mem_map.symm)
  · exact fun g hg => ⟨sound.lookup_eq_some hg, fun g' hg' => sound.lock_eq_iff hg hg'⟩
  · refine sound.shared.imp_of_mem fun {g g'} hg hg' apart same => ?_
    exact Guard.excludes_eq_false_iff.1 (apart ((sound.lock_eq_iff hg hg').2 same))
  · intro key mode
    rw [sound.acquire?_isSome_iff]
    exact forall₃_congr fun g _ _ => Guard.excludes_eq_false_iff

end LockTable

namespace Sample

/-! Two readers of one key and a writer of another, and the first reader gone before the writer. -/

def firstReader : Guard := ⟨0, "a", 0, .shared⟩

def writer : Guard := ⟨1, "b", 1, .exclusive⟩

def secondReader : Guard := ⟨2, "a", 0, .shared⟩

def lockTable : LockTable where
  table := [("b", 1), ("a", 0)]
  guards := [secondReader, writer]
  made := 2
  given := 3

theorem holds_lockTable : LockTable.Holds lockTable [secondReader, writer] := by
  have one := LockTable.Holds.new.acquire
    (rfl : ({} : LockTable).acquire? "a" .shared = some (firstReader, _))
  have two := one.acquire (rfl : LockTable.acquire? _ "b" .exclusive = some (writer, _))
  have three := two.acquire (rfl : LockTable.acquire? _ "a" .shared = some (secondReader, _))
  have gone : firstReader ∈ [secondReader, writer, firstReader] := by decide
  exact three.drop gone

/-- The keys of the second reader and of the writer are in the table, and of the two only the reader's can
be read by another. -/
theorem lockTable_in_use : LockTable.Holds lockTable [secondReader, writer] ∧
    lockTable.size = 2 ∧ (lockTable.acquire? "a" .shared).isSome = true ∧
    (lockTable.acquire? "b" .shared).isSome = false := by
  obtain ⟨-, -, size, -, -, -, granted⟩ := holds_lockTable.table_in_use
  refine ⟨holds_lockTable, size.trans (by decide), (granted _ _).2 (by decide), ?_⟩
  rw [← Bool.not_eq_true, granted]
  decide

end Sample

end ProtoWorkspace
