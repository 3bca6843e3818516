import Mathlib.Tactic

/-!
# Computations that may fail

What a sequence of computations in `Except` gives, and when it gives something at all, read off its
steps.
-/

namespace ProtoWorkspace

/-- Whether a computation gives a value. -/
def Succeeds {ε α : Type} (x : Except ε α) : Prop := ∃ a, x = .ok a

/-- Whether two computations give the same value, or both fail. -/
def SameValue {ε α : Type} (x x' : Except ε α) : Prop := ∀ a, x = .ok a ↔ x' = .ok a

/-- Whether two computations give related values, or fail with the same error. -/
inductive Agree {ε α β : Type} (R : α → β → Prop) : Except ε α → Except ε β → Prop
  | ok {a : α} {b : β} (related : R a b) : Agree R (.ok a) (.ok b)
  | error (e : ε) : Agree R (.error e) (.error e)

namespace Fallible

variable {ε α β : Type}

@[simp] theorem succeeds_ok (a : α) : Succeeds (.ok a : Except ε α) := ⟨a, rfl⟩

@[simp] theorem not_succeeds_error (e : ε) : ¬ Succeeds (.error e : Except ε α) := by
  rintro ⟨a, h⟩
  cases h

theorem exists_error_of_not_succeeds {x : Except ε α} (h : ¬ Succeeds x) : ∃ e, x = .error e := by
  cases x with
  | error e => exact ⟨e, rfl⟩
  | ok a => exact absurd ⟨a, rfl⟩ h

@[simp] theorem ok_bind (a : α) (f : α → Except ε β) : (Except.ok a >>= f) = f a := rfl

@[simp] theorem error_bind (e : ε) (f : α → Except ε β) :
    (Except.error e >>= f) = .error e := rfl

@[simp] theorem map_ok (f : α → β) (a : α) : f <$> (.ok a : Except ε α) = .ok (f a) := rfl

@[simp] theorem map_error (f : α → β) (e : ε) :
    f <$> (.error e : Except ε α) = .error e := rfl

@[simp] theorem pure_eq_ok (a : α) : (pure a : Except ε α) = .ok a := rfl

@[simp] theorem throw_eq_error (e : ε) : (throw e : Except ε α) = .error e := rfl

@[simp] theorem ofExcept_eq (x : Except ε α) : (MonadExcept.ofExcept x : Except ε α) = x := by
  cases x <;> rfl

theorem bind_eq_ok {x : Except ε α} {f : α → Except ε β} {b : β} :
    x >>= f = .ok b ↔ ∃ a, x = .ok a ∧ f a = .ok b := by
  cases x <;> simp

theorem bind_congr {x : Except ε α} {f g : α → Except ε β} (h : ∀ a, x = .ok a → f a = g a) :
    x >>= f = x >>= g := by
  cases x with
  | error e => rfl
  | ok a => exact h a rfl

theorem bind_eq_error {x : Except ε α} {f : α → Except ε β} {e : ε} :
    x >>= f = .error e ↔ x = .error e ∨ ∃ a, x = .ok a ∧ f a = .error e := by
  cases x <;> simp

theorem map_eq_ok {x : Except ε α} {f : α → β} {b : β} :
    f <$> x = .ok b ↔ ∃ a, x = .ok a ∧ f a = b := by
  cases x <;> simp

theorem succeeds_bind {x : Except ε α} {f : α → Except ε β} :
    Succeeds (x >>= f) ↔ ∃ a, x = .ok a ∧ Succeeds (f a) := by
  cases x <;> simp

@[simp] theorem succeeds_map {x : Except ε α} {f : α → β} : Succeeds (f <$> x) ↔ Succeeds x := by
  cases x <;> simp

theorem mapError_eq_ok {ε' : Type} {x : Except ε α} {f : ε → ε'} {a : α} :
    x.mapError f = .ok a ↔ x = .ok a := by
  cases x <;> simp [Except.mapError]

theorem mapError_eq_error {ε' : Type} {x : Except ε α} {f : ε → ε'} {e' : ε'} :
    x.mapError f = .error e' ↔ ∃ e, x = .error e ∧ f e = e' := by
  cases x <;> simp [Except.mapError]

theorem succeeds_mapError {ε' : Type} {x : Except ε α} {f : ε → ε'} :
    Succeeds (x.mapError f) ↔ Succeeds x :=
  exists_congr fun _ => mapError_eq_ok

theorem exists_of_mem_right {R : α → β → Prop} {xs : List α} {ys : List β}
    (h : List.Forall₂ R xs ys) {y : β} (hy : y ∈ ys) : ∃ x ∈ xs, R x y := by
  induction h with
  | nil => simp at hy
  | cons hx _ ih =>
    rcases List.mem_cons.1 hy with rfl | hy
    · exact ⟨_, List.mem_cons_self, hx⟩
    · obtain ⟨x, hmem, hR⟩ := ih hy
      exact ⟨x, List.mem_cons_of_mem _ hmem, hR⟩

/-- Lists that are both related to a third one, element by element, are so related to each other. -/
theorem forall₂_of_common {γ : Type} {R : α → β → Prop} {S : α → γ → Prop} {T : β → γ → Prop}
    {xs : List α} {ys : List β} {zs : List γ} (h : List.Forall₂ R xs ys) (h' : List.Forall₂ S xs zs)
    (step : ∀ x ∈ xs, ∀ y ∈ ys, ∀ z, R x y → S x z → T y z) : List.Forall₂ T ys zs := by
  induction h generalizing zs with
  | nil =>
    cases h'
    exact .nil
  | @cons x y xs ys hR _ ih =>
    cases h' with
    | @cons _ z _ zs hS hrest =>
      refine .cons (step x List.mem_cons_self y List.mem_cons_self z hR hS) (ih hrest ?_)
      intro x hx y hy
      exact step x (List.mem_cons_of_mem _ hx) y (List.mem_cons_of_mem _ hy)

theorem forall₂_congr_of_mem {R S : α → β → Prop} {xs : List α} {ys : List β}
    (h : ∀ x ∈ xs, ∀ y, R x y ↔ S x y) : List.Forall₂ R xs ys ↔ List.Forall₂ S xs ys := by
  have itself : List.Forall₂ (· = ·) xs xs := List.forall₂_refl xs
  constructor
  · intro hR
    refine forall₂_of_common itself hR ?_
    rintro x hx _ - y rfl hxy
    exact (h x hx y).1 hxy
  · intro hS
    refine forall₂_of_common itself hS ?_
    rintro x hx _ - y rfl hxy
    exact (h x hx y).2 hxy

theorem forall₂_and {R S : α → β → Prop} {xs : List α} {ys : List β} (h : List.Forall₂ R xs ys)
    (h' : List.Forall₂ S xs ys) : List.Forall₂ (fun x y => R x y ∧ S x y) xs ys := by
  rw [List.forall₂_iff_zip] at h h' ⊢
  exact ⟨h.1, fun member => ⟨h.2 member, h'.2 member⟩⟩

/-- Lists whose elements have the same images one by one have the same images. -/
theorem map_eq_map_of_forall₂ {γ : Type} {f : α → γ} {g : β → γ} {xs : List α} {ys : List β}
    (h : List.Forall₂ (fun x y => f x = g y) xs ys) : xs.map f = ys.map g := by
  induction h with
  | nil => rfl
  | cons hx _ ih => rw [List.map_cons, List.map_cons, hx, ih]

/-- All results of a sequence belong to their arguments. -/
theorem mapM_eq_ok {f : α → Except ε β} {xs : List α} {ys : List β} :
    xs.mapM f = .ok ys ↔ List.Forall₂ (fun x y => f x = .ok y) xs ys := by
  induction xs generalizing ys with
  | nil => cases ys <;> simp
  | cons x xs ih =>
    rw [List.mapM_cons, bind_eq_ok]
    constructor
    · rintro ⟨y, hy, h⟩
      obtain ⟨rest, hrest, h⟩ := bind_eq_ok.1 h
      cases h
      exact .cons hy (ih.1 hrest)
    · intro h
      cases h with
      | cons hy hrest => exact ⟨_, hy, bind_eq_ok.2 ⟨_, ih.2 hrest, rfl⟩⟩

theorem succeeds_mapM {f : α → Except ε β} {xs : List α} :
    Succeeds (xs.mapM f) ↔ ∀ x ∈ xs, Succeeds (f x) := by
  induction xs with
  | nil => simp
  | cons x xs ih =>
    rw [List.mapM_cons, succeeds_bind]
    constructor
    · rintro ⟨y, hy, h⟩
      obtain ⟨rest, hrest, -⟩ := succeeds_bind.1 h
      exact List.forall_mem_cons.2 ⟨⟨y, hy⟩, ih.1 ⟨rest, hrest⟩⟩
    · intro h
      obtain ⟨⟨y, hy⟩, hxs⟩ := List.forall_mem_cons.1 h
      obtain ⟨rest, hrest⟩ := ih.2 hxs
      exact ⟨y, hy, succeeds_bind.2 ⟨rest, hrest, succeeds_ok _⟩⟩

theorem exists_of_mapM_eq_error {f : α → Except ε β} {xs : List α} {e : ε}
    (h : xs.mapM f = .error e) : ∃ x ∈ xs, f x = .error e := by
  induction xs with
  | nil => simp at h
  | cons x xs ih =>
    rw [List.mapM_cons] at h
    rcases bind_eq_error.1 h with hx | ⟨y, -, h⟩
    · exact ⟨x, List.mem_cons_self, hx⟩
    · rcases bind_eq_error.1 h with hxs | ⟨rest, -, h⟩
      · obtain ⟨z, hz, he⟩ := ih hxs
        exact ⟨z, List.mem_cons_of_mem _ hz, he⟩
      · cases h

theorem exists_of_mem_mapM {f : α → Except ε β} {xs : List α} {ys : List β}
    (h : xs.mapM f = .ok ys) {y : β} (hy : y ∈ ys) : ∃ x ∈ xs, f x = .ok y :=
  exists_of_mem_right (mapM_eq_ok.1 h) hy

theorem exists_mem_of_mapM {f : α → Except ε β} {xs : List α} {ys : List β}
    (h : xs.mapM f = .ok ys) {x : α} (hx : x ∈ xs) : ∃ y ∈ ys, f x = .ok y :=
  exists_of_mem_right (R := fun y x => f x = .ok y) (mapM_eq_ok.1 h).flip hx

/-- Where all failures are the same, it is the failure of the sequence. -/
theorem mapM_eq_error {f : α → Except ε β} {xs : List α} {e : ε}
    (all : ∀ x ∈ xs, Succeeds (f x) ∨ f x = .error e) (some : ∃ x ∈ xs, f x = .error e) :
    xs.mapM f = .error e := by
  cases h : xs.mapM f with
  | ok ys =>
    obtain ⟨x, hx, he⟩ := some
    obtain ⟨y, -, hy⟩ := exists_mem_of_mapM h hx
    cases he.symm.trans hy
  | error e' =>
    obtain ⟨x, hx, he'⟩ := exists_of_mapM_eq_error h
    rcases all x hx with ⟨y, hy⟩ | he
    · cases hy.symm.trans he'
    · cases he.symm.trans he'
      rfl

/-- A sequence fails with the first failure in it. -/
theorem mapM_eq_error_iff {f : α → Except ε β} {xs : List α} {e : ε} :
    xs.mapM f = .error e ↔ ∃ before x after, xs = before ++ x :: after ∧
      (∀ y ∈ before, Succeeds (f y)) ∧ f x = .error e := by
  constructor
  · intro h
    induction xs with
    | nil => cases h
    | cons x xs ih =>
      rw [List.mapM_cons] at h
      rcases bind_eq_error.1 h with first | ⟨y, hy, h⟩
      · exact ⟨[], x, xs, rfl, by simp, first⟩
      · rcases bind_eq_error.1 h with rest | ⟨_, -, h⟩
        · obtain ⟨before, z, after, rfl, succeed, hz⟩ := ih rest
          exact ⟨x :: before, z, after, rfl, List.forall_mem_cons.2 ⟨⟨y, hy⟩, succeed⟩, hz⟩
        · cases h
  · rintro ⟨before, x, after, rfl, succeed, hx⟩
    obtain ⟨ys, hys⟩ := succeeds_mapM.2 succeed
    rw [List.mapM_append, hys, ok_bind, List.mapM_cons, hx]
    rfl

theorem mapM_append_cons_eq_ok {f : α → Except ε β} {xs zs : List α} {y : α} {result : List β} :
    (xs ++ y :: zs).mapM f = .ok result ↔ ∃ before b after, xs.mapM f = .ok before ∧
      f y = .ok b ∧ zs.mapM f = .ok after ∧ result = before ++ b :: after := by
  rw [List.mapM_append, List.mapM_cons]
  constructor
  · intro h
    obtain ⟨before, hbefore, h⟩ := bind_eq_ok.1 h
    obtain ⟨rest, hrest, h⟩ := bind_eq_ok.1 h
    obtain ⟨b, hb, hrest⟩ := bind_eq_ok.1 hrest
    obtain ⟨after, hafter, hrest⟩ := bind_eq_ok.1 hrest
    cases hrest
    cases h
    exact ⟨before, b, after, hbefore, hb, hafter, rfl⟩
  · rintro ⟨before, b, after, hbefore, hb, hafter, rfl⟩
    rw [hbefore, ok_bind, hb, ok_bind, hafter]
    rfl

theorem mapM_congr {f g : α → Except ε β} {xs : List α} (h : ∀ x ∈ xs, f x = g x) :
    xs.mapM f = xs.mapM g := by
  induction xs with
  | nil => rfl
  | cons x xs ih =>
    rw [List.mapM_cons, List.mapM_cons, h x List.mem_cons_self,
      ih fun y hy => h y (List.mem_cons_of_mem _ hy)]

theorem mapM_eq_mapM {γ : Type} {f : α → Except ε γ} {g : β → Except ε γ} {xs : List α}
    {ys : List β} (h : List.Forall₂ (fun x y => f x = g y) xs ys) : xs.mapM f = ys.mapM g := by
  induction h with
  | nil => rfl
  | cons hx _ ih => rw [List.mapM_cons, List.mapM_cons, hx, ih]

theorem mapM_map {γ : Type} (f : α → Except ε β) (g : β → γ) (xs : List α) :
    (xs.mapM fun x => g <$> f x) = List.map g <$> xs.mapM f := by
  induction xs with
  | nil => rfl
  | cons x xs ih =>
    rw [List.mapM_cons, List.mapM_cons, ih]
    cases f x with
    | error e => rfl
    | ok y => cases xs.mapM f <;> rfl

theorem forM_eq_ok {f : α → Except ε Unit} {xs : List α} :
    xs.forM f = .ok () ↔ ∀ x ∈ xs, f x = .ok () := by
  induction xs with
  | nil => simp
  | cons x xs ih =>
    change (f x >>= fun _ => xs.forM f) = .ok () ↔ _
    rw [bind_eq_ok, List.forall_mem_cons, ← ih]
    constructor
    · rintro ⟨⟨⟩, hx, hxs⟩
      exact ⟨hx, hxs⟩
    · rintro ⟨hx, hxs⟩
      exact ⟨(), hx, hxs⟩

/-- What every step keeps, the whole sequence keeps. -/
theorem foldlM_keeps {step : β → α → Except ε β} {P : β → Prop} {xs : List α}
    (hstep : ∀ b a b', a ∈ xs → P b → step b a = .ok b' → P b') {b b' : β} (hb : P b)
    (h : xs.foldlM step b = .ok b') : P b' := by
  induction xs generalizing b with
  | nil =>
    cases h
    exact hb
  | cons a xs ih =>
    rw [List.foldlM_cons] at h
    obtain ⟨c, hc, h⟩ := bind_eq_ok.1 h
    refine ih (fun b a b' ha => hstep b a b' (List.mem_cons_of_mem _ ha)) ?_ h
    exact hstep b a c List.mem_cons_self hb hc

end Fallible

namespace SameValue

open Fallible

variable {ε α β : Type} {x x' : Except ε α}

theorem refl (x : Except ε α) : SameValue x x := fun _ => Iff.rfl

theorem of_eq (h : x = x') : SameValue x x' := h ▸ refl x

theorem symm (h : SameValue x x') : SameValue x' x := fun a => (h a).symm

theorem succeeds_iff (h : SameValue x x') : Succeeds x ↔ Succeeds x' := exists_congr h

theorem bind {f g : α → Except ε β} (h : SameValue x x')
    (hf : ∀ a, x = .ok a → SameValue (f a) (g a)) : SameValue (x >>= f) (x' >>= g) := by
  intro b
  rw [bind_eq_ok, bind_eq_ok]
  refine exists_congr fun a => ?_
  rw [← h a]
  exact and_congr_right fun hx => hf a hx b

theorem mapM {γ : Type} {f : α → Except ε γ} {g : β → Except ε γ} {xs : List α} {ys : List β}
    (h : List.Forall₂ (fun a b => SameValue (f a) (g b)) xs ys) :
    SameValue (xs.mapM f) (ys.mapM g) := by
  induction h with
  | nil => exact refl _
  | cons hx _ ih =>
    rw [List.mapM_cons, List.mapM_cons]
    exact hx.bind fun y _ => ih.bind fun rest _ => refl _

end SameValue

namespace Agree

variable {ε α β γ δ : Type} {R : α → β → Prop} {S : γ → δ → Prop} {x : Except ε α} {y : Except ε β}

theorem of_eq {R : α → α → Prop} (hR : ∀ a, R a a) {x y : Except ε α} (h : x = y) : Agree R x y := by
  subst h
  cases x with
  | ok a => exact .ok (hR a)
  | error e => exact .error e

theorem eq {x y : Except ε α} (h : Agree (· = ·) x y) : x = y := by
  cases h with
  | ok same => rw [same]
  | error e => rfl

theorem succeeds_iff (h : Agree R x y) : Succeeds x ↔ Succeeds y := by
  cases h <;> simp

theorem trans {S : β → γ → Prop} {T : α → γ → Prop} {z : Except ε γ} (h : Agree R x y)
    (h' : Agree S y z) (hT : ∀ a b c, R a b → S b c → T a c) : Agree T x z := by
  cases h with
  | ok related =>
    cases h' with
    | ok related' => exact .ok (hT _ _ _ related related')
  | error e =>
    cases h'
    exact .error e

theorem mono {T : α → β → Prop} (h : Agree R x y) (hRT : ∀ a b, R a b → T a b) : Agree T x y := by
  cases h with
  | ok related => exact .ok (hRT _ _ related)
  | error e => exact .error e

theorem bind {f : α → Except ε γ} {g : β → Except ε δ} (h : Agree R x y)
    (hf : ∀ a b, R a b → Agree S (f a) (g b)) : Agree S (x >>= f) (y >>= g) := by
  cases h with
  | ok related => exact hf _ _ related
  | error e => exact .error e

theorem map {f : α → γ} {g : β → δ} (h : Agree R x y) (hf : ∀ a b, R a b → S (f a) (g b)) :
    Agree S (f <$> x) (g <$> y) := by
  cases h with
  | ok related => exact .ok (hf _ _ related)
  | error e => exact .error e

/-- Where related values are treated the same, the outcome is the same. -/
theorem bind_eq {f : α → Except ε γ} {g : β → Except ε γ} (h : Agree R x y)
    (hf : ∀ a b, R a b → f a = g b) : x >>= f = y >>= g := by
  cases h with
  | ok related => exact hf _ _ related
  | error e => rfl

/-- What related values have in common, the values have if there are any. -/
theorem exists_iff {P : α → Prop} {Q : β → Prop} (h : Agree R x y) (hPQ : ∀ a b, R a b → (P a ↔ Q b)) :
    (∃ a, x = .ok a ∧ P a) ↔ ∃ b, y = .ok b ∧ Q b := by
  cases h with
  | ok related => simpa using hPQ _ _ related
  | error e => simp

theorem mapM {f : γ → Except ε α} {g : δ → Except ε β} {xs : List γ} {ys : List δ}
    (h : List.Forall₂ (fun c d => Agree R (f c) (g d)) xs ys) :
    Agree (List.Forall₂ R) (xs.mapM f) (ys.mapM g) := by
  induction h with
  | nil => exact .ok .nil
  | cons first _ ih =>
    rw [List.mapM_cons, List.mapM_cons]
    exact first.bind fun _ _ hab => ih.bind fun _ _ hrest => .ok (.cons hab hrest)

/-- Sequences in a row fail as they do in one. -/
theorem mapM_flatMap (f : α → Except ε β) (g : γ → List α) (xs : List γ) :
    Agree (fun _ _ => True) (xs.mapM fun x => (g x).mapM f) ((xs.flatMap g).mapM f) := by
  induction xs with
  | nil => exact .ok trivial
  | cons x xs ih =>
    rw [List.mapM_cons, List.flatMap_cons, List.mapM_append]
    have same : Agree (· = ·) ((g x).mapM f) ((g x).mapM f) := .of_eq (fun _ => rfl) rfl
    exact same.bind fun _ _ _ => ih.bind fun _ _ _ => .ok trivial

theorem foldlM {step : α → γ → Except ε α} {step' : β → δ → Except ε β} {xs : List γ} {ys : List δ}
    (h : List.Forall₂ S xs ys)
    (hstep : ∀ a b c d, R a b → S c d → Agree R (step a c) (step' b d)) {a : α} {b : β} (hab : R a b) :
    Agree R (xs.foldlM step a) (ys.foldlM step' b) := by
  induction h generalizing a b with
  | nil => exact .ok hab
  | cons hcd _ ih =>
    rw [List.foldlM_cons, List.foldlM_cons]
    exact (hstep _ _ _ _ hab hcd).bind fun _ _ => ih

end Agree

end ProtoWorkspace
