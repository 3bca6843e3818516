import ProtoWorkspace.Proofs.Session.Cumulative
import ProtoWorkspace.Registry.InSession

/-!
# Publishing step by step

To publish a module is to take a snapshot of it, to store it and to make a key, in this order. A snapshot
that cannot be taken leaves the registry as it was, and a key can be made for all commits but the one that
stands for none. So publishing at any other commit is one step, which fails as a whole or succeeds as a
whole (`Registry.publish_eq_push`).
-/

namespace ProtoWorkspace

namespace RegistryM

variable {α β : Type} {x : RegistryM α} {f : α → RegistryM β} {r r' : Registry} {σ σ' : Session}

theorem bind_of_ok {a : α} (h : x r σ = ((.ok a, r'), σ')) : (x >>= f : RegistryM β) r σ = f a r' σ' := by
  simp only [bind, ExceptT.bind, ExceptT.mk, StateT.bind, h]
  rfl

theorem bind_of_error {e : Error} (h : x r σ = ((.error e, r'), σ')) :
    (x >>= f : RegistryM β) r σ = ((.error e, r'), σ') := by
  simp only [bind, ExceptT.bind, ExceptT.mk, StateT.bind, h]
  rfl

end RegistryM

namespace Registry

variable {r : Registry} {fresh : CommitId} {s : ModuleSet} {x : Module} {σ σ' : Session}

theorem publish_of_error {e : Error} (h : r.snapshot s Session.access x σ = (.error e, σ')) :
    publish fresh s x r σ = ((.error e, r), σ') := by
  have here : (get : RegistryM Registry) r σ = ((.ok r, r), σ) := rfl
  have taken : inSession (r.snapshot s Session.access x) r σ = ((.error e, r), σ') := by
    rw [inSession, h]
  rw [publish, RegistryM.bind_of_ok here, RegistryM.bind_of_error taken]

/-- What is stored stays stored, even if no key can be made for it. -/
theorem publish_of_ok {stored : StoredCommit}
    (h : r.snapshot s Session.access x σ = (.ok stored, σ')) :
    publish fresh s x r σ =
      ((ModuleKey.make stored.name fresh (.known stored.b5), r.insert fresh stored), σ') := by
  have here : (get : RegistryM Registry) r σ = ((.ok r, r), σ) := rfl
  have taken : inSession (r.snapshot s Session.access x) r σ = ((.ok stored, r), σ') := by
    rw [inSession, h]
  have written : (modify (insert · fresh stored) : RegistryM Unit) r σ' =
      ((.ok (), r.insert fresh stored), σ') := rfl
  rw [publish, RegistryM.bind_of_ok here, RegistryM.bind_of_ok taken, RegistryM.bind_of_ok written]
  cases ModuleKey.make stored.name fresh (.known stored.b5) <;> rfl

/-- At a commit that stands for one, a module is published as a whole, or the registry stays as it was. -/
theorem publish_eq_push (proper : fresh.isNone = false) :
    publish fresh s x r σ =
      match r.push fresh s Session.access x σ with
      | (.ok (r', key), σ') => ((.ok key, r'), σ')
      | (.error e, σ') => ((.error e, r), σ') := by
  rcases taken : r.snapshot s Session.access x σ with ⟨e | stored, σ'⟩
  · have pushed : r.push fresh s Session.access x σ = (.error e, σ') := SessionM.bind_of_error taken
    rw [publish_of_error taken, pushed]
  · have made : ModuleKey.make stored.name fresh (.known stored.b5) =
        .ok ⟨stored.name, fresh, .known stored.b5, proper⟩ := dif_pos proper
    have pushed : r.push fresh s Session.access x σ =
        (.ok (r.insert fresh stored, ⟨stored.name, fresh, .known stored.b5, proper⟩), σ') := by
      rw [push, SessionM.bind_of_ok taken, made]
      rfl
    rw [publish_of_ok taken, made, pushed]

end Registry

end ProtoWorkspace
