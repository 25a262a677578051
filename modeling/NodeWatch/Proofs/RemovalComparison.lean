import NodeWatch.Proofs.SoleRemoval

/-! Two removals that begin on the same client, and each go on by itself. To be quiet makes a
difference to what counts as a failure, and to what goes when the server knows no such watch. To leave
the server out makes none, as long as the server drops what it is asked to. -/

namespace NodeWatch

open Removal

variable {reply reply' : Transport} {r : RemovalRequest} {p : Plan} {reg : Registry} {c : Client}
  {l : List (Kind × Answer)} {es gone : List Entry} {ks ks' : List Kind} {f : Fault}
  {s : Engine} {u u' : Awaiting} {result result' : Except Fault (List Entry)}

namespace Removal

/-- A quiet removal has no failure that is not one to others, and none that there was no watch. -/
theorem countedFault?_quiet (a : Answer) :
    (countedFault? r p a = none → countedFault? { r with quiet := true } p a = none) ∧
    (∀ f, countedFault? { r with quiet := true } p a = some f → f.isNoWatcher = false) ∧
    ∀ f, f.isNoWatcher = false → countedFault? r p a = some f →
      countedFault? { r with quiet := true } p a = some f := by
  cases a with
  | ok y => simp [countedFault?]
  | error g =>
    cases hg : g.isNoWatcher with
    | false =>
      refine ⟨fun h => ?_, fun f h => ?_, fun f _ h => ?_⟩
      · rw [countedFault?_of_other hg] at h
        cases h
      · rw [countedFault?_of_other hg] at h
        rw [← Option.some.inj h, hg]
      · rw [countedFault?_of_other hg] at h ⊢
        exact h
    | true =>
      have hnone : countedFault? { r with quiet := true } p (.error g) = none := by
        simp [countedFault?, hg]
      refine ⟨fun _ => hnone, fun f h => ?_, fun f hf h => ?_⟩
      · rw [hnone] at h
        cases h
      · simp only [countedFault?, hg, Bool.true_and] at h
        split at h
        · cases h
        · rw [← Option.some.inj h, hg] at hf
          cases hf

/-- The first failure is the first one to a quiet removal too, unless it is that there was no watch. -/
theorem findSome?_quiet (hf : f.isNoWatcher = false)
    (h : l.findSome? (fun y => countedFault? r p y.2) = some f) :
    l.findSome? (fun y => countedFault? { r with quiet := true } p y.2) = some f := by
  obtain ⟨l₁, y, l₂, rfl, hy, hbefore⟩ := List.findSome?_eq_some_iff.mp h
  refine List.findSome?_eq_some_iff.mpr ⟨l₁, y, l₂, rfl, ?_, fun z hz => ?_⟩
  · exact (countedFault?_quiet y.2).2.2 f hf hy
  · exact (countedFault?_quiet z.2).1 (hbefore z hz)

theorem missed_quiet (o : Settlement) : missed { r with quiet := true } p o = none :=
  missed_eq_none.mpr nofun

theorem settlement_quiet (p : Plan) (l : List (Kind × Answer)) (es : List Entry) :
    (settlement { r with quiet := true } p l es).failure =
      l.findSome? fun y => countedFault? { r with quiet := true } p y.2 := by
  simp [settlement, missed_quiet]

/-- That nothing came of a removal is said as that there was no watch. -/
theorem isNoWatcher_of_missed {o : Settlement} (h : missed r p o = some f) :
    f.isNoWatcher = true := by
  have hsaid : ∀ b : Bool, (if b then some (Fault.noWatcher r.path r.kind) else none) = some f →
      f.isNoWatcher = true := by
    intro b hb
    cases b with
    | true =>
      rw [← Option.some.inj hb]
      rfl
    | false => cases hb
  exact hsaid _ h

theorem settlement_failure (r : RemovalRequest) (p : Plan) (l : List (Kind × Answer))
    (es : List Entry) : ∃ o, (settlement r p l es).failure =
      (l.findSome? (fun y => countedFault? r p y.2)).or (missed r p o) :=
  ⟨_, Option.orElse_eq_or⟩

theorem result_ok {o : Settlement} : o.result = .ok gone ↔ o.failure = none ∧ o.removed = gone := by
  rw [Settlement.result]
  cases o.failure <;> simp

theorem result_error {o : Settlement} : o.result = .error f ↔ o.failure = some f := by
  rw [Settlement.result]
  cases o.failure <;> simp

theorem departed_quiet_subset (l : List (Kind × Answer)) (ks : List Kind) :
    departed r l ks ⊆ departed { r with quiet := true } l ks := by
  intro k hk
  simp only [departed, List.mem_append, List.mem_map, List.mem_filter] at hk ⊢
  refine hk.imp ?_ id
  rintro ⟨y, ⟨hy, htakes⟩, rfl⟩
  exact ⟨y, ⟨hy, takes_iff.mpr ((takes_iff.mp htakes).imp id fun h => ⟨rfl, h.2⟩)⟩, rfl⟩

/-- Where no answer counts as a failure, the quiet removal parts with the same kinds, unless nobody is
registered at all. -/
theorem departed_quiet (hq : r.quiet = false)
    (hnone : ∀ y ∈ l, countedFault? r p y.2 = none) (hp : p.probe = false) (ks : List Kind) :
    departed { r with quiet := true } l ks = departed r l ks := by
  rw [departed, departed]
  refine congrArg (fun l : List (Kind × Answer) => l.map Prod.fst ++ ks)
    (List.filter_congr fun y hy => ?_)
  have hok := countedFault?_eq_none.mp (hnone y hy)
  rw [hq, hp] at hok
  obtain ⟨x, hx⟩ := hok.resolve_right (by simp)
  rw [hx]
  rfl

/-- Removals that select the same leave the same registry, if they take out the same kinds that
somebody selected is registered under. -/
theorem Leaves.registry_eq {qs qs' : List Request} {d d' : Client} (h : Leaves r c qs ks d)
    (h' : Leaves r c qs' ks' d') (hks : ∀ k s, s ∈ c.registry.holders r.path k →
      r.target.selects s = true → (k ∈ ks' ↔ k ∈ ks)) : d'.registry = d.registry := by
  refine Registry.ext_holders fun path k => ?_
  rw [h.holders, h'.holders]
  refine List.filter_congr fun s hs => ?_
  by_cases hp : path = r.path
  · subst hp
    by_cases ht : r.target.selects s = true
    · simp [hks k s hs ht]
    · simp [ht]
  · simp [hp]

end Removal

/-- How a quiet removal went, compared with one that is not. -/
structure Quieter (c : Client) (x x' : Except Fault (List Entry) × Awaiting) : Prop where
  /-- It never says that there was no watch. -/
  never : ∀ f, x'.1 = .error f → f.isNoWatcher = false
  failure : ∀ f, x.1 = .error f → f.isNoWatcher = false → x'.1 = .error f
  success : ∀ es, x.1 = .ok es →
    x'.1 = .ok es ∧ x'.2.engine.client.registry = x.2.engine.client.registry
  /-- It asks for the same, and takes out and confirms at least as much, and in the case of success
  just the same. -/
  logs : ∃ qs es es',
    c.Logs x.2.engine.client qs (es.map (.mk .removed)) (confirmations es) ∧
    c.Logs x'.2.engine.client qs (es'.map (.mk .removed)) (confirmations es') ∧
    x.2.carried ++ x.2.engine.client.deliveries.items =
      c.deliveries.items ++ confirmations es ∧
    x'.2.carried ++ x'.2.engine.client.deliveries.items =
      c.deliveries.items ++ confirmations es' ∧
    (∀ e, e ∈ x.2.engine.client.registry ↔ e ∈ c.registry ∧ e ∉ es) ∧
    (∀ e, e ∈ x'.2.engine.client.registry ↔ e ∈ c.registry ∧ e ∉ es') ∧
    es ⊆ es' ∧ ∀ gone, x.1 = .ok gone → es = gone ∧ es' = gone

namespace Removal

theorem quieter_of_leaves {qs : List Request} (hs : s.Ready)
    (hu : ComesTo reply s r result u) (hu' : ComesTo reply s { r with quiet := true } result' u')
    (h : Leaves r s.client qs ks u.engine.client)
    (h' : Leaves { r with quiet := true } s.client qs ks' u'.engine.client) (hsub : ks ⊆ ks')
    (hnever : ∀ f, result' = .error f → f.isNoWatcher = false)
    (hfailure : ∀ f, result = .error f → f.isNoWatcher = false → result' = .error f)
    (hsuccess : ∀ gone, result = .ok gone → gone = ks.flatMap (selected r s.client.registry) ∧
      result' = .ok (ks'.flatMap (selected r s.client.registry)) ∧
      (ks' = ks ∨ ∀ k, s.client.registry.holders r.path k = [])) :
    Quieter s.client (result, u) (result', u') := by
  have hsame : ∀ gone, result = .ok gone →
      ks'.flatMap (selected r s.client.registry) = ks.flatMap (selected r s.client.registry) := by
    intro gone hgone
    rcases (hsuccess gone hgone).2.2 with rfl | hnone
    · rfl
    · have hempty : ∀ ks : List Kind, ks.flatMap (selected r s.client.registry) = [] := fun ks =>
        List.flatMap_eq_nil_iff.mpr fun k _ => by simp [selected, hnone k]
      rw [hempty, hempty]
  refine ⟨hnever, hfailure, fun gone hgone => ?_, qs, ks.flatMap (selected r s.client.registry),
    ks'.flatMap (selected r s.client.registry), h.logs, h'.logs, hu.carried hs h.logs,
    hu'.carried hs h'.logs, h.mem_registry, h'.mem_registry, fun e he => ?_, fun gone hgone => ?_⟩
  · obtain ⟨rfl, hresult, hks⟩ := hsuccess gone hgone
    refine ⟨hsame _ hgone ▸ hresult, ?_⟩
    have hleaves : Leaves r s.client qs ks' u'.engine.client := ⟨h'.holders, h'.logs⟩
    refine h.registry_eq hleaves fun k x hx _ => ?_
    rcases hks with rfl | hnone
    · rfl
    · rw [hnone k] at hx
      cases hx
  · obtain ⟨k, hk, he⟩ := List.mem_flatMap.mp he
    exact List.mem_flatMap.mpr ⟨k, hsub hk, he⟩
  · obtain ⟨rfl, _, _⟩ := hsuccess gone hgone
    exact ⟨rfl, hsame _ hgone⟩

theorem nothing_of_loud (hq : r.quiet = false) (es : List Entry) :
    (if es = [] then nothing r else .ok es) = .ok gone ↔ es ≠ [] ∧ es = gone := by
  by_cases hes : es = [] <;> simp [hes, nothing, hq]

theorem quieter_local (hs : s.Ready) (hr : r.registryOnly = true) (hv : Path.isValid r.path = true)
    (hq : r.quiet = false) (h : ComesTo reply s r result u)
    (h' : ComesTo reply s { r with quiet := true } result' u') :
    Quieter s.client (result, u) (result', u') := by
  obtain ⟨hresult, hleaves⟩ := perform_local reply hr hv s.client
  obtain ⟨hresult', hleaves'⟩ := perform_local reply (r := { r with quiet := true }) hr hv s.client
  have hquiet : result' = .ok (r.kind.kinds.flatMap (selected r s.client.registry)) := by
    rw [(h'.alike hs).1, hresult']
    split
    · rename_i hnone
      exact congrArg Except.ok hnone.symm
    · rfl
  refine quieter_of_leaves hs h h' (h.leaves hs hleaves) (h'.leaves hs hleaves')
    (List.Subset.refl _) (fun f hf => ?_) (fun f hf hn => ?_) fun gone hgone => ?_
  · rw [hquiet] at hf
    cases hf
  · rw [(h.alike hs).1, hresult] at hf
    split at hf
    · rw [nothing, hq] at hf
      obtain rfl := Except.error.inj hf
      cases hn
    · cases hf
  · rw [(h.alike hs).1, hresult, nothing_of_loud hq] at hgone
    exact ⟨hgone.2.symm, hquiet, .inl rfl⟩

theorem quieter_remote (hs : s.Ready) (hr : r.registryOnly = false)
    (hv : Path.isValid r.path = true) (hq : r.quiet = false) (h : ComesTo reply s r result u)
    (h' : ComesTo reply s { r with quiet := true } result' u') :
    Quieter s.client (result, u) (result', u') := by
  obtain ⟨hresult, hleaves⟩ := perform_remote reply hr hv s.client
  obtain ⟨hresult', hleaves'⟩ := perform_remote reply (r := { r with quiet := true }) hr hv s.client
  rw [← (h.alike hs).1] at hresult
  rw [← (h'.alike hs).1] at hresult'
  obtain ⟨o, ho⟩ := settlement_failure r (plan r s.client.registry) (verdicts reply r s.client)
    ((parted reply r s.client).flatMap (selected r s.client.registry))
  refine quieter_of_leaves hs h h' (h.leaves hs hleaves) (h'.leaves hs hleaves')
    (departed_quiet_subset _ _) (fun f hf => ?_) (fun f hf hn => ?_) fun gone hgone => ?_
  · rw [hresult', result_error, settlement_quiet] at hf
    obtain ⟨y, _, hy⟩ := List.exists_of_findSome?_eq_some hf
    exact (countedFault?_quiet y.2).2.1 f hy
  · rw [hresult, result_error] at hf
    rw [hresult', result_error, settlement_quiet]
    refine findSome?_quiet hn ?_
    rw [ho, Option.or_eq_some_iff] at hf
    refine hf.resolve_right fun hmissed => ?_
    rw [isNoWatcher_of_missed hmissed.2] at hn
    cases hn
  · rw [hresult, result_ok] at hgone
    rw [ho, Option.or_eq_none_iff, List.findSome?_eq_none_iff] at hgone
    obtain ⟨⟨hnone, _⟩, hremoved⟩ := hgone
    have hquiet : result' = .ok ((parted reply { r with quiet := true } s.client).flatMap
        (selected r s.client.registry)) := by
      rw [hresult', result_ok, settlement_quiet, List.findSome?_eq_none_iff]
      exact ⟨fun y hy => (countedFault?_quiet y.2).1 (hnone y hy), rfl⟩
    refine ⟨hremoved.symm, hquiet, ?_⟩
    cases hp : (plan r s.client.registry).probe with
    | true => exact .inr (probe_plan.mp hp).2.2
    | false => exact .inl (departed_quiet hq hnone hp _)

end Removal

/-- A removal that is by itself, and the same one made quiet, with the same answers of the server. The
quiet one never says that there was no watch. It asks for the same. If the other succeeds it does, with
the same entries in the same order, the same registry and the same confirmations; if the other fails
for another reason than that there was no watch, it fails for the same reason. And whatever the other
takes out, it takes out too. -/
theorem quiet_compares (hs : s.Ready) (hv : Path.isValid r.path = true) (hq : r.quiet = false) :
    (∃ result u, ComesTo reply s r result u) ∧
    (∃ result' u', ComesTo reply s { r with quiet := true } result' u') ∧
    ∀ result u result' u', ComesTo reply s r result u →
      ComesTo reply s { r with quiet := true } result' u' →
      Quieter s.client (result, u) (result', u') := by
  refine ⟨ComesTo.exists_of_ready reply hs r, ComesTo.exists_of_ready reply hs _,
    fun result u result' u' h h' => ?_⟩
  cases hr : r.registryOnly with
  | true => exact quieter_local hs hr hv hq h h'
  | false => exact quieter_remote hs hr hv hq h h'

/-- One subscriber holds both kinds of a path, and another shares one of them. -/
def sharing : Option Engine :=
  Engine.follow [.begin (.arm ⟨.presence, "/a", .watcher (.named "w")⟩),
    .answer (.caller 0) 0 (.ok (.presence true)),
    .begin (.arm ⟨.listing, "/a", .watcher (.named "w")⟩),
    .answer (.caller 1) 0 (.ok (.listing [])),
    .begin (.arm ⟨.presence, "/a", .watcher (.named "u")⟩),
    .answer (.caller 2) 0 (.ok (.presence true))]
    (.initial {} ⟨1024, [], [], [], true⟩ ⟨256, [], [], [], true⟩ none)

theorem exists_of_sharing (check : Engine → Bool)
    (h : sharing.any (fun s => decide (s.client.closed = false ∧ s.dispatching = true ∧
      s.client.deliveries.isOpen = true ∧ 0 < s.client.deliveries.capacity ∧
      s.client.deliveries.line = [] ∧ s.client.deliveries.admitted = [] ∧ s.held = true) &&
      check s) = true) : ∃ s, Engine.Ready s ∧ check s = true := by
  obtain ⟨s, hs, h⟩ := (Option.any_eq_true _ _).mp h
  obtain ⟨hready, hcheck⟩ := Bool.and_eq_true_iff.mp h
  obtain ⟨hopened, hdispatching, hisOpen, hcapacity, hline, hadmitted, hheld⟩ :=
    of_decide_eq_true hready
  have horderly := (Engine.reachable_of_fresh hs).orderly
  exact ⟨s, ⟨⟨horderly, hopened, hdispatching, hisOpen, hcapacity, hline, hadmitted⟩, hheld⟩,
    hcheck⟩

/-- The removal of a subscriber who shares one kind, and holds the other alone. -/
def sharedRemoval : RemovalRequest :=
  ⟨"/a", .any, .one (.watcher (.named "w")), false, false⟩

/-- The entries that go: the server is asked about the kind that is not shared, and that one comes
first. -/
def sharedEntries : List Entry :=
  [⟨"/a", .children, .watcher (.named "w")⟩, ⟨"/a", .data, .watcher (.named "w")⟩]

def unknown : Fault :=
  .noWatcher "/a" (.only .children)

/-- The server knows no watch of the kind that is not shared. To the quiet removal that is no failure,
and the entries of both kinds go. -/
theorem quiet_tolerates_unknown_watch :
    ∃ (s : Engine) (u u' : Awaiting), s.Ready ∧
      ComesTo (fun _ => .error unknown) s sharedRemoval (.error unknown) u ∧
      ComesTo (fun _ => .error unknown) s { sharedRemoval with quiet := true } (.ok sharedEntries)
        u' ∧
      Quieter s.client (.error unknown, u) (.ok sharedEntries, u') := by
  obtain ⟨s, hs, hcheck⟩ := exists_of_sharing (fun s =>
    decide ((perform (fun _ => .error unknown) sharedRemoval s.client).1 = .error unknown) &&
    decide ((perform (fun _ => .error unknown) { sharedRemoval with quiet := true } s.client).1 =
      .ok sharedEntries)) (by decide +kernel)
  simp only [Bool.and_eq_true, decide_eq_true_eq] at hcheck
  obtain ⟨⟨_, u, h⟩, ⟨_, u', h'⟩, hquieter⟩ :=
    @quiet_compares (fun _ => .error unknown) sharedRemoval s hs (by decide) rfl
  obtain rfl := (h.alike hs).1.trans hcheck.1
  obtain rfl := (h'.alike hs).1.trans hcheck.2
  exact ⟨s, u, u', hs, h, h', hquieter _ _ _ _ h h'⟩

namespace Removal

theorem verdicts_ok (hreply : ∀ qs k, ∃ x, reply (qs ++ [.remove r.path k]) = .ok x) :
    ∀ y ∈ verdicts reply r c, ∃ x, y.2 = .ok x := by
  rintro ⟨k, a⟩ hy
  obtain ⟨i, hi⟩ := List.mem_iff_getElem?.mp hy
  obtain ⟨hk, ha⟩ := List.getElem?_zip_eq_some.mp hi
  rw [getElem?_replies] at ha
  split at ha
  · have hlast : (requests r (plan r c.registry).server).take (i + 1) =
        requests r ((plan r c.registry).server.take i) ++ [.remove r.path k] := by
      rw [← requests_take_succ hk, requests, requests, List.map_take]
    rw [hlast, ← List.append_assoc] at ha
    obtain ⟨x, hx⟩ := hreply (c.history ++ requests r ((plan r c.registry).server.take i)) k
    exact ⟨x, (Option.some.inj ha).symm.trans hx⟩
  · cases ha

/-- When the server drops all that it is asked to, all kinds go that were planned for. -/
theorem parted_eq (hok : ∀ y ∈ verdicts reply r c, ∃ x, y.2 = .ok x) :
    parted reply r c = (plan r c.registry).server ++ (plan r c.registry).here := by
  have hall : (verdicts reply r c).filter (fun y => takes r y.2) = verdicts reply r c :=
    List.filter_eq_self.mpr fun y hy => takes_iff.mpr (.inl (hok y hy))
  rw [parted, departed, hall, verdicts, List.map_fst_zip (length_verdicts reply r c).ge]

/-- The plan leaves out no kind that somebody selected is registered under. -/
theorem mem_plan_iff {k : Kind} {s : Subscriber} (hs : s ∈ reg.holders r.path k)
    (ht : r.target.selects s = true) :
    k ∈ (plan r reg).server ++ (plan r reg).here ↔ k ∈ r.kind.kinds := by
  have hselects : k ∈ r.kind.kinds ↔ r.kind.selects k = true := by simp [Selector.selects]
  rw [hselects, List.mem_append]
  cases htarget : r.target with
  | one s' =>
    rw [htarget] at ht
    obtain rfl : s' = s := by simpa [Target.selects] using ht
    rw [(mem_plan_one htarget).1, (mem_plan_one htarget).2]
    by_cases halone : reg.holders r.path k = [s'] <;> simp [halone, hs]
  | all =>
    have hheld : reg.holders r.path k ≠ [] := List.ne_nil_of_mem hs
    simp [plan_all htarget, mem_server_plan, Due, htarget, hheld]

/-- The order of the kinds makes no difference to which entries they select. -/
theorem perm_flatMap_selected (hks : ks.Nodup) (hks' : ks'.Nodup)
    (h : ∀ k s, s ∈ reg.holders r.path k → r.target.selects s = true → (k ∈ ks ↔ k ∈ ks')) :
    (ks.flatMap (selected r reg)).Perm (ks'.flatMap (selected r reg)) := by
  refine (List.perm_ext_iff_of_nodup (nodup_selected hks) (nodup_selected hks')).mpr fun e => ?_
  rw [mem_flatMap_selected, mem_flatMap_selected]
  constructor
  · rintro ⟨he, hp, hk, ht⟩
    exact ⟨he, hp, (h e.kind e.subscriber (hp ▸ he) ht).mp hk, ht⟩
  · rintro ⟨he, hp, hk, ht⟩
    exact ⟨he, hp, (h e.kind e.subscriber (hp ▸ he) ht).mpr hk, ht⟩

/-- The server is not probed where somebody is registered. -/
theorem probe_of_mem {e : Entry} (he : e ∈ reg) (hp : e.path = r.path) :
    (plan r reg).probe = false := by
  refine Bool.eq_false_iff.mpr fun hprobe => ?_
  have hnone := (probe_plan.mp hprobe).2.2 e.kind
  rw [← hp] at hnone
  rw [Registry.mem_iff, hnone] at he
  cases he

theorem settlement_ok (hok : ∀ y ∈ l, ∃ x, y.2 = .ok x) (hes : es ≠ []) (hp : p.probe = false) :
    (settlement r p l es).result = .ok es := by
  obtain ⟨o, ho⟩ : ∃ o : Settlement, o = ⟨es, (l.filter fun y => y.2.isOk).map Prod.fst, none⟩ :=
    ⟨_, rfl⟩
  have hcounted : l.findSome? (fun y => countedFault? r p y.2) = none :=
    List.findSome?_eq_none_iff.mpr fun y hy => countedFault?_eq_none.mpr (.inl (hok y hy))
  have hmissed : missed r p o = none := by
    refine missed_eq_none.mpr fun _ => ⟨fun _ _ => by rw [ho]; exact hes, fun hprobe => ?_⟩
    rw [hp] at hprobe
    cases hprobe
  rw [result_ok, settlement, ← ho, hcounted, hmissed, ho]
  exact ⟨rfl, rfl⟩

end Removal

/-- A removal that selects an entry, when it is by itself and the server drops all that it is asked to,
and the same one with the server left out, whatever answers there would be. Both succeed, with the same
entries but for their order, and leave the same registry; and they queue the same confirmations but for
their order. The one that leaves the server out asks it for nothing. -/
theorem local_agrees_with_server (hs : s.Ready) (hv : Path.isValid r.path = true)
    (hr : r.registryOnly = false)
    (hselected : ∃ e ∈ s.client.registry, e.path = r.path ∧ r.kind.selects e.kind = true ∧
      r.target.selects e.subscriber = true)
    (hreply : ∀ qs k, ∃ x, reply (qs ++ [.remove r.path k]) = .ok x) :
    (∃ result u, ComesTo reply s r result u) ∧
    (∃ result' u', ComesTo reply' s { r with registryOnly := true } result' u') ∧
    ∀ result u result' u', ComesTo reply s r result u →
      ComesTo reply' s { r with registryOnly := true } result' u' →
      ∃ qs es es', result = .ok es ∧ result' = .ok es' ∧ es.Perm es' ∧
        u.engine.client.registry = u'.engine.client.registry ∧
        (∀ e, e ∈ u.engine.client.registry ↔ e ∈ s.client.registry ∧ e ∉ es) ∧
        s.client.Logs u.engine.client qs (es.map (.mk .removed)) (confirmations es) ∧
        s.client.Logs u'.engine.client [] (es'.map (.mk .removed)) (confirmations es') ∧
        u.carried ++ u.engine.client.deliveries.items =
          s.client.deliveries.items ++ confirmations es ∧
        u'.carried ++ u'.engine.client.deliveries.items =
          s.client.deliveries.items ++ confirmations es' ∧
        (confirmations es).Perm (confirmations es') := by
  refine ⟨ComesTo.exists_of_ready reply hs r, ComesTo.exists_of_ready reply' hs _,
    fun result u result' u' h h' => ?_⟩
  obtain ⟨hresult, hremote⟩ := perform_remote reply hr hv s.client
  obtain ⟨hresult', hlocal⟩ :=
    perform_local reply' (r := { r with registryOnly := true }) rfl hv s.client
  have hok := verdicts_ok (c := s.client) hreply
  have hleaves := h.leaves hs hremote
  have hleaves' : Leaves r s.client [] r.kind.kinds u'.engine.client :=
    ⟨(h'.leaves hs hlocal).holders, (h'.leaves hs hlocal).logs⟩
  have hkinds : ∀ k s', s' ∈ s.client.registry.holders r.path k → r.target.selects s' = true →
      (k ∈ parted reply r s.client ↔ k ∈ r.kind.kinds) := by
    intro k s' hs' ht
    rw [parted_eq hok]
    exact mem_plan_iff hs' ht
  have hperm : ((parted reply r s.client).flatMap (selected r s.client.registry)).Perm
      (r.kind.kinds.flatMap (selected r s.client.registry)) :=
    perm_flatMap_selected (nodup_departed (length_verdicts _ _ _)) (nodup_kinds r.kind) hkinds
  obtain ⟨e, he, hp, hk, ht⟩ := hselected
  have hmem : e ∈ r.kind.kinds.flatMap (selected r s.client.registry) :=
    mem_flatMap_selected.mpr ⟨he, hp, by simpa [Selector.selects] using hk, ht⟩
  refine ⟨_, _, _, ?_, ?_, hperm, hleaves'.registry_eq hleaves hkinds, hleaves.mem_registry,
    hleaves.logs, hleaves'.logs, h.carried hs hleaves.logs, h'.carried hs hleaves'.logs,
    hperm.map _⟩
  · rw [(h.alike hs).1, hresult]
    exact settlement_ok hok (List.ne_nil_of_mem (hperm.mem_iff.mpr hmem)) (probe_of_mem he hp)
  · rw [(h'.alike hs).1, hresult']
    exact if_neg (List.ne_nil_of_mem hmem)

/-- Without the server the two kinds go together, and with it the one that is not shared goes first. -/
theorem shared_kind_agrees :
    ∃ (s : Engine) (u u' : Awaiting), s.Ready ∧
      ComesTo (fun _ => .ok .removed) s sharedRemoval (.ok sharedEntries) u ∧
      ComesTo (fun _ => .ok .removed) s { sharedRemoval with registryOnly := true }
        (.ok sharedEntries.reverse) u' ∧
      u.engine.client.registry = u'.engine.client.registry ∧
      u.carried ++ u.engine.client.deliveries.items =
        s.client.deliveries.items ++ confirmations sharedEntries ∧
      u'.carried ++ u'.engine.client.deliveries.items =
        s.client.deliveries.items ++ confirmations sharedEntries.reverse ∧
      (confirmations sharedEntries).Perm (confirmations sharedEntries.reverse) := by
  obtain ⟨s, hs, hcheck⟩ := exists_of_sharing (fun s =>
    decide (s.client.registry.holders "/a" .children = [.watcher (.named "w")]) &&
    decide ((perform (fun _ => .ok .removed) sharedRemoval s.client).1 = .ok sharedEntries) &&
    decide ((perform (fun _ => .ok .removed) { sharedRemoval with registryOnly := true }
      s.client).1 = .ok sharedEntries.reverse)) (by decide +kernel)
  simp only [Bool.and_eq_true, decide_eq_true_eq] at hcheck
  obtain ⟨⟨hholders, hserver⟩, hlocal⟩ := hcheck
  have he : (⟨"/a", .children, .watcher (.named "w")⟩ : Entry) ∈ s.client.registry := by
    rw [Registry.mem_iff, hholders]
    exact .head _
  have hreply : ∀ (qs : List Request) (k : Kind), ∃ x,
      (fun _ => .ok .removed : Transport) (qs ++ [.remove sharedRemoval.path k]) = .ok x :=
    fun _ _ => ⟨.removed, rfl⟩
  obtain ⟨⟨_, u, h⟩, ⟨_, u', h'⟩, hagree⟩ :=
    @local_agrees_with_server (fun _ => .ok .removed) (fun _ => .ok .removed) sharedRemoval s hs
      (by decide) rfl ⟨_, he, rfl, by decide, by decide⟩ hreply
  obtain rfl := (h.alike hs).1.trans hserver
  obtain rfl := (h'.alike hs).1.trans hlocal
  obtain ⟨_, es, es', hes, hes', _, hregistry, _, _, _, hqueued, hqueued', hconfirmed⟩ :=
    hagree _ _ _ _ h h'
  obtain rfl := Except.ok.inj hes
  obtain rfl := Except.ok.inj hes'
  exact ⟨s, u, u', hs, h, h', hregistry, hqueued, hqueued', hconfirmed⟩

end NodeWatch
