import NodeWatch.Proofs.EntryFates
import NodeWatch.Proofs.RemovalReconcile
import NodeWatch.Proofs.OperationSendings

/-! The reckoning of a removal: what it takes out when the last answer is in, what it leaves alone,
and what it then says it has come to. -/

namespace NodeWatch

theorem Client.holders_unregister (c : Client) (cause : Cause) (path : String) (k : Kind)
    (target : Target) (path' : String) (k' : Kind) :
    (c.unregister cause path (.only k) target).2.registry.holders path' k' =
      (c.registry.holders path' k').filter fun s =>
        !(decide (path' = path ∧ k' = k) && target.selects s) := by
  have hselects : (Selector.only k).selects k' = decide (k' = k) := by
    simp [Selector.selects, Selector.kinds]
  have htake := Registry.holders_takeOut c.registry path
    (fun k' s => (Selector.only k).selects k' && target.selects s) path' k'
  refine htake.trans ?_
  rw [hselects]
  by_cases hp : path = path'
  · subst hp
    simp
  · have hp' : path' ≠ path := fun he => hp he.symm
    simp [hp, hp']

namespace Removal

variable {r : RemovalRequest} {p : Plan} {c : Client} {l : List (Kind × Answer)} {ks : List Kind}
  {x : Settlement × Client}

/-- The fault that an answer counts for. That the server knows no such watch counts for nothing to
a quiet removal and to a probe. -/
def countedFault? (r : RemovalRequest) (p : Plan) : Answer → Option Fault
  | .ok _ => none
  | .error f => if f.isNoWatcher && (r.quiet || p.probe) then none else some f

/-- The kinds that go when these answers, and these kinds without an answer, were acted upon. -/
def departed (r : RemovalRequest) (l : List (Kind × Answer)) (ks : List Kind) : List Kind :=
  (l.filter fun y => takes r y.2).map Prod.fst ++ ks

/-- The entries of a kind that go with it, oldest first. -/
def selected (r : RemovalRequest) (reg : Registry) (k : Kind) : List Entry :=
  ((reg.holders r.path k).filter r.target.selects).map (.mk r.path k)

theorem unregister_only (r : RemovalRequest) (c : Client) (k : Kind) :
    (c.unregister .removed r.path (.only k) r.target).1 = selected r c.registry k := by
  cases k <;>
    simp [Client.unregister, Registry.unregister, Registry.takeOut, Holders.entries, selected,
      Registry.holders, Holders.of, Selector.selects, Selector.kinds]

/-- How far the reckoning has come. -/
structure Reckoned (r : RemovalRequest) (p : Plan) (c : Client) (l : List (Kind × Answer))
    (ks : List Kind) (x : Settlement × Client) : Prop where
  holders : ∀ path k, x.2.registry.holders path k = (c.registry.holders path k).filter fun s =>
    !(decide (path = r.path ∧ k ∈ departed r l ks) && r.target.selects s)
  live : c.registry.live = ↑x.1.removed + x.2.registry.live
  removed : (departed r l ks).Nodup →
    x.1.removed = (departed r l ks).flatMap (selected r c.registry)
  cleared : x.1.cleared = (l.filter fun y => y.2.isOk).map Prod.fst
  failure : x.1.failure = l.findSome? fun y => countedFault? r p y.2
  noted : ∃ os, x.2.journal = os ++ c.journal ∧
    takings os.reverse = x.1.removed.map (.mk .removed) ∧ Client.sendings os = []

theorem reckoned_nil (r : RemovalRequest) (p : Plan) (c : Client) :
    Reckoned r p c [] [] (⟨[], [], none⟩, c) :=
  ⟨by simp [departed], (zero_add _).symm, fun _ => rfl, rfl, rfl, [], rfl, rfl, rfl⟩

/-- The entries of one more kind are taken out. -/
theorem Reckoned.takeOut {l' : List (Kind × Answer)} {ks' : List Kind} {o' : Settlement} {k : Kind}
    (h : Reckoned r p c l ks x)
    (hgone : departed r l' ks' = departed r l ks ++ [k])
    (hremoved : o'.removed =
      x.1.removed ++ (x.2.unregister .removed r.path (.only k) r.target).1)
    (hcleared : o'.cleared = (l'.filter fun y => y.2.isOk).map Prod.fst)
    (hfailure : o'.failure = l'.findSome? fun y => countedFault? r p y.2) :
    Reckoned r p c l' ks' (o', (x.2.unregister .removed r.path (.only k) r.target).2) := by
  have hlive : x.2.registry.live = ↑(x.2.unregister .removed r.path (.only k) r.target).1 +
      (x.2.unregister .removed r.path (.only k) r.target).2.registry.live :=
    Registry.live_takeOut _ _ _
  refine ⟨fun path k' => ?_, ?_, fun hnodup => ?_, hcleared, hfailure, ?_⟩
  · rw [Client.holders_unregister, h.holders, List.filter_filter]
    refine List.filter_congr fun s _ => ?_
    have hk : k' ∈ departed r l' ks' ↔ k' ∈ departed r l ks ∨ k' = k := by
      rw [hgone, List.mem_append, List.mem_singleton]
    by_cases hs : r.target.selects s = true <;> by_cases hp : path = r.path <;>
      by_cases hd : k' ∈ departed r l ks <;> by_cases he : k' = k <;> simp_all
  · rw [h.live, hlive, hremoved, ← Multiset.coe_add, add_assoc]
  · rw [hgone, List.nodup_append] at hnodup
    obtain ⟨hearlier, _, hnew⟩ := hnodup
    have hk : k ∉ departed r l ks := fun hk => hnew k hk k (.head _) rfl
    have hsame : selected r x.2.registry k = selected r c.registry k := by
      simp [selected, h.holders, hk]
    rw [hremoved, hgone, unregister_only, hsame, h.removed hearlier, List.flatMap_append,
      List.flatMap_singleton]
  · obtain ⟨os, hj, htakings, hsendings⟩ := h.noted
    refine ⟨.taken .removed (x.2.unregister .removed r.path (.only k) r.target).1 :: os, ?_, ?_, ?_⟩
    · exact congrArg (_ :: ·) hj
    · rw [List.reverse_cons, takings_append, htakings, hremoved, List.map_append]
      exact congrArg (_ ++ ·) (List.append_nil _)
    · rw [← List.singleton_append, Client.sendings_append, hsendings]
      rfl

/-- A kind stays as it is. -/
theorem Reckoned.leave {l' : List (Kind × Answer)} {o' : Settlement} {c' : Client}
    (h : Reckoned r p c l ks x) (hgone : departed r l' ks = departed r l ks)
    (hregistry : c'.registry = x.2.registry) (hremoved : o'.removed = x.1.removed)
    (hcleared : o'.cleared = (l'.filter fun y => y.2.isOk).map Prod.fst)
    (hfailure : o'.failure = l'.findSome? fun y => countedFault? r p y.2)
    (hjournal : c'.journal = x.2.journal ∨ ∃ m, c'.journal = .remarked m :: x.2.journal) :
    Reckoned r p c l' ks (o', c') := by
  refine ⟨fun path k => ?_, ?_, fun hnodup => ?_, hcleared, hfailure, ?_⟩
  · rw [hregistry, h.holders, hgone]
  · rw [hregistry, hremoved, h.live]
  · rw [hgone] at hnodup ⊢
    rw [hremoved, h.removed hnodup]
  · obtain ⟨os, hj, htakings, hsendings⟩ := h.noted
    rcases hjournal with hj' | ⟨m, hj'⟩
    · exact ⟨os, hj'.trans hj, by rw [htakings, hremoved], hsendings⟩
    · refine ⟨.remarked m :: os, ?_, ?_, ?_⟩
      · rw [hj', hj]
        rfl
      · rw [List.reverse_cons, takings_append, htakings, hremoved]
        exact List.append_nil _
      · rw [← List.singleton_append, Client.sendings_append, hsendings]
        rfl

theorem Reckoned.settleKind (h : Reckoned r p c l [] x) (k : Kind) (a : Answer) :
    Reckoned r p c (l ++ [(k, a)]) [] (settleKind r p x (k, a)) := by
  obtain ⟨o, c₁⟩ := x
  have hgone : takes r a = true →
      departed r (l ++ [(k, a)]) [] = departed r l [] ++ [k] := fun ht => by
    simp [departed, List.filter_append, ht]
  have hcleared : ((l ++ [(k, a)]).filter fun y => y.2.isOk).map Prod.fst =
      o.cleared ++ if a.isOk then [k] else [] := by
    rw [h.cleared, List.filter_append, List.map_append]
    by_cases ha : a.isOk = true <;> simp [ha]
  have hfailure : (l ++ [(k, a)]).findSome? (fun y => countedFault? r p y.2) =
      (o.failure <|> countedFault? r p a) := by
    rw [h.failure, List.findSome?_append]
    simp
  simp only [Removal.settleKind]
  cases a with
  | ok y =>
    refine h.takeOut (k := k) (hgone rfl) rfl ?_ ?_
    · rw [hcleared]
      rfl
    · rw [hfailure]
      simp [countedFault?]
  | error f =>
    have hsame : takes r (.error f) = false →
        departed r (l ++ [(k, .error f)]) [] = departed r l [] := fun ht => by
      simp [departed, List.filter_append, ht]
    rw [show (Except.error f : Answer).isOk = false from rfl, if_neg Bool.false_ne_true,
      List.append_nil] at hcleared
    by_cases hf : f.isNoWatcher = true
    · by_cases hq : r.quiet = true
      · simp only [hf, hq, if_true]
        refine h.takeOut (k := k) (hgone (by simp [takes, hf, hq])) rfl hcleared.symm ?_
        rw [hfailure]
        simp [countedFault?, hf, hq]
      · by_cases hprobe : p.probe = true
        · simp only [hf, hq, hprobe, if_true, Bool.false_eq_true, if_false]
          refine h.leave (hsame (by simp [takes, hq])) rfl rfl hcleared.symm ?_ (.inl rfl)
          rw [hfailure]
          simp [countedFault?, hf, hprobe]
        · simp only [hf, hq, hprobe, if_true, Bool.false_eq_true, if_false]
          refine h.leave (hsame (by simp [takes, hq])) rfl rfl hcleared.symm ?_ (.inl rfl)
          rw [hfailure]
          simp [countedFault?, hq, hprobe]
    · simp only [hf, Bool.false_eq_true, if_false]
      refine h.leave (hsame (by simp [takes, hf])) rfl rfl hcleared.symm ?_ (.inr ⟨_, rfl⟩)
      rw [hfailure]
      simp [countedFault?, hf]

theorem Reckoned.settleHere (h : Reckoned r p c l ks x) (k : Kind) :
    Reckoned r p c l (ks ++ [k]) (settleHere r x k) :=
  h.takeOut (k := k) (by simp [departed]) rfl h.cleared h.failure

/-- What the reckoning comes to, before a removal without effect is counted as a failure. -/
theorem reckoned_reconcile (r : RemovalRequest) (p : Plan) (as : List Answer) (c : Client) :
    ∃ o, Reckoned r p c (p.server.zip as) p.here (o, (reconcile r p as c).2) ∧
      (reconcile r p as c).1 = { o with failure := o.failure <|> missed r p o } := by
  have hasked : ∀ l, Reckoned r p c l [] (l.foldl (Removal.settleKind r p) (⟨[], [], none⟩, c)) := by
    intro l
    induction l using List.reverseRecOn with
    | nil => exact reckoned_nil r p c
    | append_singleton l y ih =>
      rw [List.foldl_append]
      exact ih.settleKind y.1 y.2
  have hhere : ∀ (ks : List Kind) (x : Settlement × Client), Reckoned r p c (p.server.zip as) [] x →
      Reckoned r p c (p.server.zip as) ks (ks.foldl (Removal.settleHere r) x) := by
    intro ks x hx
    induction ks using List.reverseRecOn with
    | nil => exact hx
    | append_singleton ks k ih =>
      rw [List.foldl_append]
      exact ih.settleHere k
  exact ⟨_, hhere p.here _ (hasked (p.server.zip as)), rfl⟩

theorem Reckoned.nodup (h : Reckoned r p c l ks x) : x.1.removed.Nodup := by
  have hnodup := c.registry.nodup_live
  rw [h.live, Multiset.nodup_add] at hnodup
  exact hnodup.1

theorem Reckoned.mem_removed (h : Reckoned r p c l ks x) {e : Entry} : e ∈ x.1.removed ↔
    e ∈ c.registry ∧ e.path = r.path ∧ e.kind ∈ departed r l ks ∧
      r.target.selects e.subscriber = true := by
  have hnodup := c.registry.nodup_live
  rw [h.live, Multiset.nodup_add, Multiset.disjoint_left] at hnodup
  have hafter : e ∈ x.2.registry ↔ e ∈ c.registry ∧
      ¬((e.path = r.path ∧ e.kind ∈ departed r l ks) ∧ r.target.selects e.subscriber = true) := by
    rw [Registry.mem_iff, Registry.mem_iff, h.holders, List.mem_filter]
    refine and_congr_right fun _ => ?_
    rw [Bool.not_eq_true', Bool.and_eq_false_iff, decide_eq_false_iff_not, ← Bool.not_eq_true]
    tauto
  have hbefore : e ∈ c.registry ↔ e ∈ x.1.removed ∨ e ∈ x.2.registry := by
    rw [← Registry.mem_live, h.live, Multiset.mem_add, Multiset.mem_coe, Registry.mem_live]
  have hdisjoint : e ∈ x.1.removed → e ∉ x.2.registry := fun hl hr =>
    hnodup.2.2 (Multiset.mem_coe.mpr hl) (Registry.mem_live.mpr hr)
  tauto

/-- Only the entries taken out are missing from the registry, and the others keep their order. -/
theorem Reckoned.frame (h : Reckoned r p c l ks x) (path : String) (k : Kind) :
    x.2.registry.holders path k =
      (c.registry.holders path k).filter fun s => ⟨path, k, s⟩ ∉ x.1.removed := by
  rw [h.holders]
  refine List.filter_congr fun s hs => ?_
  have hmem : (⟨path, k, s⟩ : Entry) ∈ x.1.removed ↔ _ := h.mem_removed
  have hin : (⟨path, k, s⟩ : Entry) ∈ c.registry := hs
  by_cases hp : path = r.path <;> by_cases hk : k ∈ departed r l ks <;>
    by_cases ht : r.target.selects s = true <;> simp_all

theorem missed_eq_none {o : Settlement} : missed r p o = none ↔
    (r.quiet = false → (∀ s, r.target = .one s → o.removed ≠ []) ∧
      (p.probe = true → o.cleared ≠ [])) := by
  obtain ⟨path, kind, target, here, quiet⟩ := r
  cases quiet with
  | true => simp [missed]
  | false => cases target <;> simp [missed]

end Removal

end NodeWatch
