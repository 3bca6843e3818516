import ProtoWorkspace.Proofs.Session.World

/-!
# Asking in a session

What is asked in a session follows what is asked of the world behind it. There is a rule for every
way of putting things together and, from these, one statement for every question.
-/

namespace ProtoWorkspace

/-- Whether something done in a session, while the questions in `asking` are open, has the outcome
`y` and leaves a session that the world still describes. -/
def Follows {α : Type} (w : World) (asking : List Question) (x : SessionM α)
    (y : Except Error α) : Prop :=
  ∀ σ, w.Describes asking σ → w.Allows (x σ).2 → w.Describes asking (x σ).2 ∧ (x σ).1 = y

/-- Whether all questions have a higher rank than the given one. -/
def Above (rank : Nat) (asking : List Question) : Prop :=
  ∀ q ∈ asking, rank < q.rank

theorem Above.not_mem {asking : List Question} {q : Question} (h : Above q.rank asking) :
    q ∉ asking :=
  fun hq => lt_irrefl _ (h q hq)

theorem Above.cons {n k : Nat} {asking : List Question} {q : Question} (h : Above n asking)
    (hk : k ≤ n) (hq : k < q.rank) : Above k (q :: asking) := by
  intro q' hq'
  rcases List.mem_cons.1 hq' with rfl | hq'
  · exact hq
  · exact lt_of_le_of_lt hk (h q' hq')

theorem Above.mono {n k : Nat} {asking : List Question} (h : Above n asking) (hk : k ≤ n) :
    Above k asking :=
  fun q hq => lt_of_le_of_lt hk (h q hq)

namespace Follows

variable {α β : Type} {w : World} {asking : List Question}

theorem pure (a : α) : Follows w asking (Pure.pure a) (.ok a) :=
  fun _ h _ => ⟨h, rfl⟩

theorem throw (e : Error) : Follows w asking (MonadExcept.throw e : SessionM α) (.error e) :=
  fun _ h _ => ⟨h, rfl⟩

theorem ofExcept (y : Except Error α) :
    Follows w asking (MonadExcept.ofExcept y) (MonadExcept.ofExcept y) := by
  cases y with
  | ok a => exact pure a
  | error e => exact throw e

theorem bind {x : SessionM α} {y : Except Error α} {f : α → SessionM β} {g : α → Except Error β}
    [hc : ∀ a, Cumulative (f a)] (hx : Follows w asking x y)
    (hf : ∀ a, y = .ok a → Follows w asking (f a) (g a)) :
    Follows w asking (x >>= f) (y >>= g) := by
  intro σ hσ allowed
  have first := hx σ hσ
  rcases h : x σ with ⟨_ | a, σ'⟩
  · rw [SessionM.bind_of_error h] at allowed ⊢
    rw [h] at first
    obtain ⟨hσ', rfl⟩ := first allowed
    exact ⟨hσ', rfl⟩
  · rw [SessionM.bind_of_ok h] at allowed ⊢
    rw [h] at first
    obtain ⟨hσ', rfl⟩ := first (allowed.of_before ((hc a).before σ'))
    exact hf a rfl σ' hσ' allowed

theorem map {x : SessionM α} {y : Except Error α} (f : α → β) (hx : Follows w asking x y) :
    Follows w asking (f <$> x) (f <$> y) := by
  rw [map_eq_pure_bind, map_eq_pure_bind]
  exact hx.bind fun a _ => pure (f a)

theorem ite {p : Prop} [Decidable p] {x x' : SessionM α} {y y' : Except Error α}
    (hp : p → Follows w asking x y) (hn : ¬ p → Follows w asking x' y') :
    Follows w asking (if p then x else x') (if p then y else y') := by
  by_cases h : p
  · rw [if_pos h, if_pos h]
    exact hp h
  · rw [if_neg h, if_neg h]
    exact hn h

theorem mapM {f : α → SessionM β} {g : α → Except Error β} [hc : ∀ a, Cumulative (f a)]
    {xs : List α} (h : ∀ a ∈ xs, Follows w asking (f a) (g a)) :
    Follows w asking (xs.mapM f) (xs.mapM g) := by
  induction xs with
  | nil => exact pure []
  | cons a xs ih =>
    obtain ⟨ha, hxs⟩ := List.forall_mem_cons.1 h
    rw [List.mapM_cons, List.mapM_cons]
    exact ha.bind fun b _ => (ih hxs).bind fun bs _ => pure (b :: bs)

section Sound

variable (hw : w.IsSound)

include hw

theorem disk : Follows w asking Session.access.disk w.io.disk := by
  intro σ hσ _
  refine ⟨hσ, ?_⟩
  rw [hw.plain.disk_eq, ← hσ.disk]
  rfl

theorem note (event : Event) : Follows w asking (Session.access.note event) (w.io.note event) := by
  intro σ hσ _
  rw [hw.plain.note_eq]
  exact ⟨hσ.enter fun q => by simp, rfl⟩

theorem findSet {number : Nat} (hn : number < w.made) :
    Follows w asking (Session.access.findSet number) (w.io.findSet number) := by
  intro σ hσ _
  refine ⟨hσ, ?_⟩
  rw [hw.plain.findSet_eq]
  change Except.ok (σ.sets.find? (·.number == number)) = _
  rw [hσ.sets]
  have later : (w.sets.drop w.made).find? (·.number == number) = none := by
    rw [List.find?_eq_none]
    intro s hs
    obtain ⟨i, hi⟩ := List.mem_iff_getElem?.1 hs
    rw [List.getElem?_drop] at hi
    have number_eq := hw.inOrder.number_eq hi
    rw [beq_iff_eq]
    omega
  conv_rhs => rw [← List.take_append_drop w.made w.sets, List.find?_append, later]
  rw [Option.or_none]

theorem load {event : Event} (supply : Supply α) :
    Follows w asking (Session.access.load event supply) (w.io.load event supply) := by
  cases supply with
  | ready a => exact pure a
  | deferred load =>
    exact (note hw event).bind fun _ _ => (disk hw).bind fun d _ => ofExcept (load d)

/-- A question that is not open can be asked. -/
theorem remember {q : Question} (hi : q.isImports = false) {ask : SessionM q.Answer}
    {ask' : Except Error q.Answer} (hq : q ∉ asking)
    (ha : w.Answers q (w.io.remember q ask')) (h : Follows w (q :: asking) ask ask') :
    Follows w asking (Session.access.remember q ask) (w.io.remember q ask') := by
  intro σ hσ allowed
  have plain := hw.plain.remember_eq q ask' hi
  rw [plain] at ha ⊢
  change w.Allows (Session.remember q ask σ).2 at allowed
  change w.Describes asking (Session.remember q ask σ).2 ∧ (Session.remember q ask σ).1 = ask'
  cases hn : σ.memo.find? q with
  | some answer =>
    rw [Session.remember_of_find? hn]
    exact ⟨hσ.enter fun q' => by simp, hσ.answers q answer hn _ ha⟩
  | none =>
    rw [Session.remember_of_none hn] at allowed ⊢
    -- what the session keeps of imports is not touched by the answer to another question
    have allowedAsk : w.Allows (ask (σ.enter (.asked q))).2 := by
      intro number mark a h'
      refine allowed number mark a ((Memo.find?_store_of_ne ?_).trans h')
      rintro rfl
      cases hi
    obtain ⟨hσ', outcome⟩ := h _ (hσ.ask hq hn) allowedAsk
    refine ⟨hσ'.store (fun b hb => ?_) ?_, outcome⟩
    · rw [outcome]
      exact hw.answers_unique hi ha hb
    · cases q with
      | imports number mark => cases hi
      | _ => trivial

end Sound

end Follows

end ProtoWorkspace
