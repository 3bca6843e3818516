import ProtoWorkspace.Proofs.Session.Questions

/-!
# Digests in a session

The search for a digest in a session, which may come upon digests that were kept, finds what the
world says. While it goes on, only digests of modules that are not idle and of later sets are being
looked for; so the search never asks for a digest that it is about to find.
-/

namespace ProtoWorkspace.Follows

open ModuleSet

/-- Whether the search for the digest of `x` may start while the given questions are open: they all
ask for digests, of other modules of the set that are not idle or in later sets. -/
def MaySeek (s : ModuleSet) (idle : List String) (x : Module) (asking : List Question) : Prop :=
  x.identity ∉ idle ∧ ∀ q ∈ asking, ∃ number identity type, q = .digest number identity type ∧
    (s.number < number ∨ s.number = number ∧ identity ∉ idle ∧ identity ≠ x.identity)

theorem not_mem_others {identities : List String} {identity : String} :
    identity ∉ others identities identity := by
  simp [others]

section MaySeek

variable {s t : ModuleSet} {idle : List String} {x y : Module} {asking : List Question}

theorem MaySeek.above (h : MaySeek s idle x asking) : Above 3 asking := by
  intro q hq
  obtain ⟨number, identity, type, rfl, -⟩ := h.2 q hq
  exact Nat.lt_succ_self 3

theorem MaySeek.not_mem (h : MaySeek s idle x asking) (type : DigestType) :
    .digest s.number x.identity type ∉ asking := by
  intro hq
  obtain ⟨number, identity, type', same, later⟩ := h.2 _ hq
  obtain ⟨rfl, rfl, -⟩ := Question.digest.inj same
  rcases later with later | ⟨-, -, other⟩
  · exact lt_irrefl _ later
  · exact other rfl

theorem MaySeek.dependency (h : MaySeek s idle x asking) (type : DigestType)
    (hy : y.identity ∈ idle) :
    MaySeek s (others idle y.identity) y (.digest s.number x.identity type :: asking) := by
  refine ⟨not_mem_others, fun q hq => ?_⟩
  · have notIdle : ∀ {identity}, identity ∉ idle →
        identity ∉ others idle y.identity ∧ identity ≠ y.identity := by
      intro identity hn
      refine ⟨fun hmem => hn (List.mem_filter.1 hmem).1, fun same => hn (same ▸ hy)⟩
    rcases List.mem_cons.1 hq with rfl | hq
    · exact ⟨_, _, _, rfl, .inr ⟨rfl, notIdle h.1⟩⟩
    · obtain ⟨number, identity, type', rfl, later⟩ := h.2 q hq
      exact ⟨number, identity, type', rfl, later.imp id fun ⟨same, hn, _⟩ => ⟨same, notIdle hn⟩⟩

theorem MaySeek.earlier (h : MaySeek s idle x asking) (type : DigestType)
    (ht : t.number < s.number) :
    MaySeek t (others t.identities y.identity) y
      (.digest s.number x.identity type :: asking) := by
  refine ⟨not_mem_others, fun q hq => ?_⟩
  rcases List.mem_cons.1 hq with rfl | hq
  · exact ⟨_, _, _, rfl, .inl ht⟩
  · obtain ⟨number, identity, type', rfl, later⟩ := h.2 q hq
    refine ⟨number, identity, type', rfl, .inl ?_⟩
    rcases later with later | ⟨rfl, -⟩
    · exact ht.trans later
    · exact ht

end MaySeek

section Digests

variable {w : World} (hw : w.IsSound) {asking : List Question}

include hw

theorem flatDigest {s : ModuleSet} {x : Module} (hs : s ∈ w.sets) (hx : x ∈ s.modules)
    (hr : Above 1 asking) :
    Follows w asking (ModuleSet.flatDigest Session.access x) (ModuleSet.flatDigest w.io x) :=
  (yaml hw hs hx (hr.mono (by decide))).bind fun _ _ =>
    (lock hw hs hx (hr.mono (by decide))).bind fun _ _ =>
      (contents hw hs hx hr).bind fun _ _ => pure _

theorem digestBy {n : Nat} (hr : Above 0 asking) {key : ModuleKey}
    (hk : key.IsKnown w.disk w.loads n) {ofModule : Nat → String → DigestType → SessionM Digest}
    {ofModule' : Nat → String → DigestType → Except Error Digest}
    (h : ∀ number identity type, number < n →
      Follows w asking (ofModule number identity type) (ofModule' number identity type)) :
    Follows w asking (key.digestBy Session.access ofModule) (key.digestBy w.io ofModule') := by
  unfold ModuleKey.digestBy
  cases ho : key.origin with
  | known digest => exact pure digest
  | supplied number load' =>
    have loads : load' w.disk = w.loads number := by
      simpa only [ModuleKey.IsKnown, ho] using hk
    refine remember hw rfl (Above.not_mem hr) ?_ (load hw _)
    rw [hw.plain.remember_eq _ _ rfl, hw.plain.load_eq]
    exact loads.symm
  | ofModule number identity type =>
    have before : number < n := by
      simpa only [ModuleKey.IsKnown, ho] using hk
    exact h number identity type before

/-- What is asked of the set with a number follows if it does for every set with that number. -/
theorem withSet {number : Nat} (hn : number < w.made) {f : Option ModuleSet → SessionM Digest}
    {g : Option ModuleSet → Except Error Digest} [∀ t, Cumulative (f t)]
    (hnone : Follows w asking (f none) (g none))
    (hsome : ∀ t ∈ w.sets, t.number = number → Follows w asking (f (some t)) (g (some t))) :
    Follows w asking (Session.access.findSet number >>= f) (w.io.findSet number >>= g) := by
  refine (findSet hw hn).bind fun t ht => ?_
  rw [hw.plain.findSet_eq, Except.ok.injEq] at ht
  cases t with
  | none => exact hnone
  | some t =>
    have same : t.number = number := by
      simpa using List.find?_some ht
    exact hsome t (List.mem_of_find?_eq_some ht) same

theorem keyDigest {s : ModuleSet} (hm : s.number < w.made) (hr : Above 0 asking)
    {key : ModuleKey} (hk : key.IsKnown w.disk w.loads s.number)
    (earlier : ∀ t ∈ w.sets, t.number < s.number → ∀ y ∈ t.modules, ∀ type,
      Follows w asking
        (t.digestWithin Session.access (others t.identities y.identity) y type)
        (t.digestWithin w.io (others t.identities y.identity) y type)) :
    Follows w asking (s.keyDigest Session.access key) (s.keyDigest w.io key) := by
  refine digestBy hw hr hk fun number identity type before => ?_
  refine withSet hw (before.trans hm) (throw _) fun t ht same => ?_
  refine ite (fun hlt => ?_) fun _ => throw _
  cases hy : t.find? identity with
  | none => exact throw _
  | some y =>
    obtain rfl : y.identity = identity := by
      simpa using List.find?_some hy
    exact earlier t ht hlt y (List.mem_of_find?_eq_some hy) type

/-- The digest of a module, where the search may go on to all its dependencies. -/
theorem digestWithin {s : ModuleSet} {idle : List String} {x : Module} {type : DigestType}
    (hs : s ∈ w.sets) (hm : s.number < w.made) (hx : x ∈ s.modules)
    (hc : s.Covers w.io idle x) (hseek : MaySeek s idle x asking) :
    Follows w asking (s.digestWithin Session.access idle x type)
      (s.digestWithin w.io idle x type) := by
  induction s, idle, x, type using digestWithin.induct generalizing asking with
  | case1 s idle x type ih ih' =>
    have answer : w.Answers (.digest s.number x.identity type)
        (s.digestWithin w.io idle x type) :=
      ⟨s, hs, rfl, x, hx, rfl, (digestWithin_eq_digest hw.plain hx hc type).symm⟩
    rw [digestWithin_eq] at answer
    rw [digestWithin_eq, digestWithin_eq]
    refine remember hw rfl (hseek.not_mem type) answer ?_
    have above : Above 3 (.digest s.number x.identity type :: asking) :=
      hseek.above.cons le_rfl (Nat.lt_succ_self 3)
    have files : Above 1 (.digest s.number x.identity type :: asking) := above.mono (by decide)
    cases type with
    | b4 => exact flatDigest hw hs hx files
    | b5 =>
      refine ite (fun hl => ?_) fun hl => ?_
      · refine (dependencies hw hs hx above).bind fun ds hds => ?_
        have inSet : ∀ d ∈ ds, d.module ∈ s.modules := fun d hd =>
          mem_modules_of_mem_dependencies hw.plain hx hds hd
        refine (checkNoCycle hw hs above inSet).bind fun _ hcheck => ?_
        refine (mapM fun d hd => ?_).bind fun digests _ => ?_
        · have hidle := hc hl ds hds hcheck d hd
          unfold dependencyDigest
          rw [if_pos hidle, if_pos hidle]
          exact ih d hidle hs hm (inSet d hd) (hc.dependency hw.plain hx hl hds hcheck hd)
            (hseek.dependency .b5 hidle)
        · exact (contents hw hs hx files).bind fun _ _ => ofExcept _
      · refine (declaredKeys hw hs hx (above.mono (by decide))).bind fun keys hkeys => ?_
        rw [hw.plain.declaredKeys_eq] at hkeys
        refine (mapM fun key hkey => ?_).bind fun digests _ => ?_
        · have hknown := hw.inOrder.keys hs hx hkeys key (List.mem_mergeSort.1 hkey)
          refine keyDigest hw hm (above.mono (by decide)) hknown ?_
          intro t ht hlt y hy type
          exact ih' y.identity type t hlt y ht (hlt.trans hm) hy
            (covers_others_identities hw.plain hy) (hseek.earlier .b5 hlt)
        · exact (contents hw hs hx files).bind fun _ _ => ofExcept _

/-- The digest of a module, while no other question is open. -/
theorem digest {s : ModuleSet} {x : Module} {type : DigestType} (hs : s ∈ w.sets)
    (hm : s.number < w.made) (hx : x ∈ s.modules) :
    Follows w [] (s.digest Session.access x type) (s.digest w.io x type) :=
  digestWithin hw hs hm hx (covers_others_identities hw.plain hx) ⟨not_mem_others, by simp⟩

theorem digestOfKey {key : ModuleKey} (hk : key.IsKnown w.disk w.loads w.made) :
    Follows w [] (key.digest Session.access) (key.digest w.io) := by
  rw [ModuleKey.digest_eq, ModuleKey.digest_eq]
  refine digestBy hw (by simp [Above]) hk fun number identity type made => ?_
  refine withSet hw made (throw _) fun s hs same => ?_
  dsimp only [digestOfFound]
  cases hx : s.find? identity with
  | none => exact throw _
  | some x => exact digest hw hs (same ▸ made) (List.mem_of_find?_eq_some hx)

section Push

variable (r : Registry) {s : ModuleSet} (hs : s ∈ w.sets) (hm : s.number < w.made)

include hs hm

theorem pinnedKey {d : Dependency} (hd : d.module ∈ s.modules) :
    Follows w [] (r.pinnedKey s Session.access d) (r.pinnedKey s w.io d) :=
  (ofExcept _).bind fun _ _ => (digest hw hs hm hd).bind fun _ _ =>
    (ofExcept _).bind fun _ _ => ofExcept _

theorem snapshot {x : Module} (hx : x ∈ s.modules) :
    Follows w [] (r.snapshot s Session.access x) (r.snapshot s w.io x) := by
  have any : ∀ {n}, Above n [] := by simp [Above]
  refine (ofExcept _).bind fun _ _ => (contents hw hs hx any).bind fun _ _ => ?_
  refine (dependencies hw hs hx any).bind fun ds hds => ?_
  refine (mapM fun d hd => ?_).bind fun _ _ => ?_
  · exact pinnedKey hw r hs hm (mem_modules_of_mem_dependencies hw.plain hx hds hd)
  · exact (yaml hw hs hx any).bind fun _ _ => (lock hw hs hx any).bind fun _ _ =>
      (digest hw hs hm hx).bind fun _ _ => (digest hw hs hm hx).bind fun _ _ => pure _

theorem push (fresh : CommitId) {x : Module} (hx : x ∈ s.modules) :
    Follows w [] (r.push fresh s Session.access x) (r.push fresh s w.io x) :=
  (snapshot hw r hs hm hx).bind fun _ _ => (ofExcept _).bind fun _ _ => pure _

end Push

end Digests

end ProtoWorkspace.Follows
