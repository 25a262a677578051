import NodeWatch.Proofs.AwaitedRemovals
import NodeWatch.Proofs.RemovalRequests
import NodeWatch.Proofs.OrphanedWatches

/-! A removal that is by itself from its beginning to its end. Nobody registers anything meanwhile, so
it takes out what it found, each kind in the order of its registrations, and arms nothing again. -/

namespace NodeWatch

namespace Client

variable {c c₁ c' d : Client} {qs qs' : List Request} {ts ts' : List Consumption}
  {ds ds' : List Delivery}

/-- In between these requests were made, these entries were taken out and these deliveries queued. -/
def Logs (c c' : Client) (qs : List Request) (ts : List Consumption) (ds : List Delivery) : Prop :=
  ∃ os, c'.journal = os ++ c.journal ∧ askings os = qs ∧ takings os.reverse = ts ∧ queuings os = ds

theorem Logs.of_eq (h : c'.journal = c.journal) : c.Logs c' [] [] [] :=
  ⟨[], h, rfl, rfl, rfl⟩

theorem Logs.trans (h : c.Logs c₁ qs ts ds) (h' : c₁.Logs c' qs' ts' ds') :
    c.Logs c' (qs ++ qs') (ts ++ ts') (ds ++ ds') := by
  obtain ⟨os, hj, rfl, rfl, rfl⟩ := h
  obtain ⟨os', hj', rfl, rfl, rfl⟩ := h'
  refine ⟨os' ++ os, ?_, askings_append os' os, ?_, queuings_append os' os⟩
  · rw [hj', hj, List.append_assoc]
  · rw [List.reverse_append, takings_append]

theorem takings_trace (os : List Occurrence) :
    takings os.reverse = (trace os).flatMap Occurrence.consumptions := by
  have hidle : ∀ l : List Occurrence, l.flatMap Occurrence.consumptions =
      (l.filter fun o => !o.isIdle).flatMap Occurrence.consumptions := by
    intro l
    induction l with
    | nil => rfl
    | cons o l ih => cases o <;> simp_all [Occurrence.isIdle, Occurrence.consumptions]
  rw [trace, ← List.filter_reverse, takings, hidle]

/-- What was logged does not depend on calls of user code and on remarks. -/
theorem Logs.mirrors (h : c.Logs d qs ts ds) (hm : Mirrors c' d)
    (hj : ∃ os, c'.journal = os ++ c.journal) : c.Logs c' qs ts ds := by
  obtain ⟨os, hos, rfl, rfl, rfl⟩ := h
  obtain ⟨os', hos'⟩ := hj
  have htrace : trace os' = trace os := by
    have hsame := hm.trace_eq
    rw [hos', hos, trace_append, trace_append] at hsame
    exact List.append_cancel_left hsame
  refine ⟨os', hos', ?_, ?_, ?_⟩
  · rw [askings_eq_filterMap, htrace, ← askings_eq_filterMap]
  · rw [takings_trace, htrace, ← takings_trace]
  · rw [queuings_eq_filterMap, htrace, ← queuings_eq_filterMap]

theorem logs_submit (qs : List Request) (c : Client) : c.Logs (qs.foldl submit c) qs [] [] := by
  induction qs generalizing c with
  | nil => exact .of_eq rfl
  | cons q qs ih =>
    have hfirst : c.Logs (c.submit q) [q] [] [] := ⟨[.asked q], rfl, rfl, rfl, rfl⟩
    exact hfirst.trans (ih (c.submit q))

theorem registry_submit (qs : List Request) (c : Client) :
    (qs.foldl submit c).registry = c.registry := by
  induction qs generalizing c with
  | nil => rfl
  | cons q qs ih => exact ih (c.submit q)

theorem logs_settle (c : Client) (m : RemovalMode) (result : Except Fault (List Entry)) :
    c.Logs (c.settle m result) [] [] [] :=
  ⟨[.settled m (outcomeOf result)], rfl, rfl, rfl, rfl⟩

end Client

namespace Removal

variable {r : RemovalRequest} {p : Plan} {reg : Registry} {c c' : Client} {reply : Transport}
  {es : List Entry} {ks : List Kind} {qs : List Request}

theorem logs_tell (es : List Entry) (c : Client) :
    c.Logs (es.foldl tell c) [] [] (confirmations es) := by
  induction es generalizing c with
  | nil => exact .of_eq rfl
  | cons e es ih =>
    have hfirst : c.Logs (tell c e) [] [] (confirmations [e]) := ⟨[.queued _], rfl, rfl, rfl, rfl⟩
    exact hfirst.trans (ih (tell c e))

theorem registry_tell (es : List Entry) (c : Client) :
    (es.foldl tell c).registry = c.registry := by
  induction es generalizing c with
  | nil => rfl
  | cons e es ih => exact ih (tell c e)

theorem rearm_of_unheld (hks : ∀ k ∈ ks, c.registry.holders r.path k = []) :
    ks.foldl (rearm r) c = c := by
  induction ks with
  | nil => rfl
  | cons k ks ih =>
    have hnone : rearm r c k = c := by
      refine if_pos ?_
      simp [Registry.registeredKinds, Selector.kinds, hks k (.head _)]
    rw [List.foldl_cons, hnone]
    exact ih fun k' hk' => hks k' (.tail _ hk')

/-- What a removal leaves that asked for these and took the entries that it selects of these kinds. -/
structure Leaves (r : RemovalRequest) (c : Client) (qs : List Request) (ks : List Kind)
    (c' : Client) : Prop where
  holders : ∀ path k, c'.registry.holders path k = (c.registry.holders path k).filter fun s =>
    !(decide (path = r.path ∧ k ∈ ks) && r.target.selects s)
  logs : c.Logs c' qs ((ks.flatMap (selected r c.registry)).map (.mk .removed))
    (confirmations (ks.flatMap (selected r c.registry)))

theorem mem_selected {k : Kind} {e : Entry} : e ∈ selected r reg k ↔
    e ∈ reg ∧ e.path = r.path ∧ e.kind = k ∧ r.target.selects e.subscriber = true := by
  obtain ⟨path, kind, s⟩ := e
  simp only [selected, List.mem_map, List.mem_filter, Entry.mk.injEq, Registry.mem_iff]
  constructor
  · rintro ⟨s', ⟨hs, ht⟩, rfl, rfl, rfl⟩
    exact ⟨hs, rfl, rfl, ht⟩
  · rintro ⟨hs, rfl, rfl, ht⟩
    exact ⟨s, ⟨hs, ht⟩, rfl, rfl, rfl⟩

theorem nodup_selected (hks : ks.Nodup) : (ks.flatMap (selected r reg)).Nodup := by
  refine List.nodup_flatMap.mpr ⟨fun k _ => ?_, hks.imp fun hne e he he' => hne ?_⟩
  · exact ((reg.nodup_holders r.path k).filter _).map fun s s' h => (Entry.mk.inj h).2.2
  · exact (mem_selected.mp he).2.2.1.symm.trans (mem_selected.mp he').2.2.1

theorem nodup_kinds (kind : Selector) : kind.kinds.Nodup := by
  cases kind with
  | only k => exact List.nodup_singleton k
  | any => decide

/-- A kind is asked about, or settled here, and not both. -/
theorem nodup_plan (r : RemovalRequest) (reg : Registry) :
    ((plan r reg).server ++ (plan r reg).here).Nodup := by
  refine List.nodup_append.mpr ⟨nodup_server r reg, ?_, ?_⟩
  · unfold plan
    split
    · refine (nodup_kinds r.kind).sublist ?_
      dsimp only
      rw [Registry.subscriberKinds, List.filter_map, List.map_map]
      refine ((List.map_congr_left fun _ _ => rfl).trans (List.map_id _)).symm ▸ ?_
      exact List.filter_sublist.trans List.filter_sublist
    · split
      · exact List.nodup_nil
      · split <;> exact List.nodup_nil
  · rintro k hserver k' hhere rfl
    cases ht : r.target with
    | one s => exact ((mem_plan_one ht).2.mp hhere).2.2 ((mem_plan_one ht).1.mp hserver).2
    | all =>
      rw [plan_all ht] at hhere
      cases hhere

theorem nodup_departed {as : List Answer} (h : as.length = (plan r reg).server.length) :
    (departed r ((plan r reg).server.zip as) (plan r reg).here).Nodup := by
  refine (nodup_plan r reg).sublist (List.Sublist.append ?_ (List.Sublist.refl _))
  have hsub := (List.filter_sublist (p := fun y : Kind × Answer => takes r y.2)
    (l := (plan r reg).server.zip as)).map Prod.fst
  rwa [List.map_fst_zip h.ge] at hsub

/-- The kinds that the server is asked to drop, each with its answer. -/
def verdicts (reply : Transport) (r : RemovalRequest) (c : Client) : List (Kind × Answer) :=
  (plan r c.registry).server.zip (replies reply c.history (requests r (plan r c.registry).server))

/-- The kinds whose entries go. -/
def parted (reply : Transport) (r : RemovalRequest) (c : Client) : List Kind :=
  departed r (verdicts reply r c) (plan r c.registry).here

/-- What a removal says it has come to that took these entries out. -/
def settlement (r : RemovalRequest) (p : Plan) (l : List (Kind × Answer)) (es : List Entry) :
    Settlement :=
  let o : Settlement := ⟨es, (l.filter fun y => y.2.isOk).map Prod.fst, none⟩
  { o with failure := (l.findSome? fun y => countedFault? r p y.2) <|> missed r p o }

theorem length_replies (before qs : List Request) :
    (replies reply before qs).length = qs.length := by
  rw [replies, List.length_map, List.length_range]

theorem length_verdicts (reply : Transport) (r : RemovalRequest) (c : Client) :
    (replies reply c.history (requests r (plan r c.registry).server)).length =
      (plan r c.registry).server.length := by
  rw [length_replies, requests, List.length_map]

theorem reconcile_eq {as : List Answer} (reg : Registry)
    (h : as.length = (plan r reg).server.length) (c : Client) : (reconcile r (plan r reg) as c).1 =
      settlement r (plan r reg) ((plan r reg).server.zip as)
        ((departed r ((plan r reg).server.zip as) (plan r reg).here).flatMap
          (selected r c.registry)) := by
  obtain ⟨o, hreckoned, ho⟩ := reckoned_reconcile r (plan r reg) as c
  have hremoved := hreckoned.removed (nodup_departed h)
  have hcleared := hreckoned.cleared
  have hfailure := hreckoned.failure
  dsimp only at hremoved hcleared hfailure
  rw [ho, settlement, ← hremoved, ← hcleared, ← hfailure]
  rfl

theorem logs_reconcile (r : RemovalRequest) (p : Plan) (as : List Answer) (c : Client) :
    c.Logs (reconcile r p as c).2 [] ((reconcile r p as c).1.removed.map (.mk .removed)) [] := by
  obtain ⟨o, hreckoned, ho⟩ := reckoned_reconcile r p as c
  obtain ⟨os, hj, htakings, hsendings⟩ := hreckoned.noted
  obtain ⟨os', hj', hunasked⟩ := (drawn_reconcile r p as c).unasked.journal
  obtain rfl : os' = os := List.append_cancel_right (hj'.symm.trans hj)
  exact ⟨os', hj, Client.askings_of_not_mem hunasked, ho ▸ htakings,
    Client.queuings_of_sendings hsendings⟩

/-- Nobody holds a kind any more that the server dropped, if no one registered it since the removal was
planned. -/
theorem unheld_of_accepted {reg' : Registry} {l : List (Kind × Answer)} {k : Kind}
    (hl : ∀ y ∈ l, y.1 ∈ (plan r reg).server) (hk : k ∈ (l.filter fun y => y.2.isOk).map Prod.fst)
    (hholders : reg'.holders r.path k = (reg.holders r.path k).filter fun s =>
      !(decide (k ∈ departed r l ks) && r.target.selects s)) : reg'.holders r.path k = [] := by
  obtain ⟨⟨k, a⟩, hy, rfl⟩ := List.mem_map.mp hk
  obtain ⟨hy, hok⟩ := List.mem_filter.mp hy
  have htakes : takes r a = true := by
    cases a with
    | ok y => rfl
    | error f => cases hok
  have hdeparted : k ∈ departed r l ks :=
    List.mem_append_left _ (List.mem_map.mpr ⟨(k, a), List.mem_filter.mpr ⟨hy, htakes⟩, rfl⟩)
  rw [hholders, List.filter_eq_nil_iff]
  intro s hs
  simp [hdeparted, selects_of_plan (hl _ hy) hs]

/-- Nobody holds a kind any more that the server dropped. -/
theorem unheld_of_cleared {d : Client} {k : Kind}
    (hholders : ∀ path k, d.registry.holders path k = (c.registry.holders path k).filter fun s =>
      !(decide (path = r.path ∧ k ∈ parted reply r c) && r.target.selects s))
    (hk : k ∈ ((verdicts reply r c).filter fun y => y.2.isOk).map Prod.fst) :
    d.registry.holders r.path k = [] := by
  have hpath := hholders r.path k
  simp only [true_and] at hpath
  exact unheld_of_accepted (fun y hy => (List.of_mem_zip hy).1) hk hpath

/-- The entries are confirmed, and nothing is armed again. -/
theorem leaves_ends {d : Client} {o : Settlement}
    (hholders : ∀ path k, d.registry.holders path k = (c.registry.holders path k).filter fun s =>
      !(decide (path = r.path ∧ k ∈ ks) && r.target.selects s))
    (hlogs : c.Logs d qs ((ks.flatMap (selected r c.registry)).map (.mk .removed)) [])
    (hremoved : o.removed = ks.flatMap (selected r c.registry))
    (hcleared : ∀ k ∈ o.cleared, d.registry.holders r.path k = []) :
    Leaves r c qs ks
      (ends r o (o.cleared.foldl (rearm r) (o.removed.foldl tell d))).2 := by
  have hregistry := registry_tell o.removed d
  have hagain := rearm_of_unheld (hregistry.symm ▸ hcleared)
  have htold := (hlogs.trans (logs_tell o.removed d)).trans
    (Client.logs_settle (o.removed.foldl tell d) r.mode o.result)
  rw [hagain]
  refine ⟨fun path k => ?_, ?_⟩
  · rw [← hholders path k, ← hregistry]
    rfl
  · simpa only [List.append_nil, List.nil_append, hremoved, ends] using htold

theorem finale_asking (p : Plan) (c : Client) : finale reply r (.asking p []) c =
    let x := reconcile r p (replies reply c.history (requests r p.server))
      ((requests r p.server).foldl Client.submit c)
    ends r x.1 (x.1.cleared.foldl (rearm r) (x.1.removed.foldl tell x.2)) := by
  simp [finale]

/-- What a removal that asks the server comes to when it is by itself. -/
theorem perform_remote (reply : Transport) (hr : r.registryOnly = false)
    (hv : Path.isValid r.path = true) (c : Client) :
    (perform reply r c).1 = (settlement r (plan r c.registry) (verdicts reply r c)
      ((parted reply r c).flatMap (selected r c.registry))).result ∧
    Leaves r c (requests r (plan r c.registry).server) (parted reply r c)
      (perform reply r c).2 := by
  rw [perform, start_remote hr hv]
  split
  · rename_i hempty
    obtain ⟨hserver, hhere⟩ := hempty
    obtain ⟨s, htarget⟩ := target_of_empty hserver
    have hverdicts : verdicts reply r c = [] := by rw [verdicts, hserver, List.zip_nil_left]
    have hparted : parted reply r c = [] := by rw [parted, hverdicts, hhere]; rfl
    rw [hverdicts, hparted, hserver]
    refine ⟨?_, ⟨by simp [finish, finale, Client.settle, Client.count, Client.note], ?_⟩⟩
    · cases hq : r.quiet <;>
        simp [finish, finale, nothing, settlement, missed, htarget, hq, Settlement.result]
    · exact Client.logs_settle c r.mode (nothing r)
  · rw [finale_asking]
    have hreg := Client.registry_submit (requests r (plan r c.registry).server) c
    have hasked := Client.logs_submit (requests r (plan r c.registry).server) c
    generalize (requests r (plan r c.registry).server).foldl Client.submit c = c₁ at hreg hasked ⊢
    have hlength := length_verdicts reply r c
    have heq := reconcile_eq c.registry hlength c₁
    have hreconciled := logs_reconcile r (plan r c.registry)
      (replies reply c.history (requests r (plan r c.registry).server)) c₁
    obtain ⟨o, hreckoned, _⟩ := reckoned_reconcile r (plan r c.registry)
      (replies reply c.history (requests r (plan r c.registry).server)) c₁
    have hholders := hreckoned.holders
    generalize reconcile r (plan r c.registry)
      (replies reply c.history (requests r (plan r c.registry).server)) c₁ = x at *
    obtain ⟨o', c₂⟩ := x
    rw [hreg] at heq hholders
    obtain rfl : o' = settlement r (plan r c.registry) (verdicts reply r c)
      ((parted reply r c).flatMap (selected r c.registry)) := heq
    refine ⟨rfl, leaves_ends hholders ?_ rfl fun k hk => unheld_of_cleared hholders hk⟩
    have hlogs := hasked.trans hreconciled
    rwa [List.append_nil, List.nil_append, List.append_nil] at hlogs

theorem entries_eq (r : RemovalRequest) (c : Client) :
    (c.unregister .removed r.path r.kind r.target).1 =
      r.kind.kinds.flatMap (selected r c.registry) := by
  cases hk : r.kind with
  | only k => simpa [Selector.kinds] using unregister_only r c k
  | any =>
    simp [Client.unregister, Registry.unregister, Registry.takeOut, Holders.entries, selected,
      Registry.holders, Holders.of, Selector.selects, Selector.kinds]

theorem holders_unregister (r : RemovalRequest) (c : Client) (path : String) (k : Kind) :
    (c.unregister .removed r.path r.kind r.target).2.registry.holders path k =
      (c.registry.holders path k).filter fun s =>
        !(decide (path = r.path ∧ k ∈ r.kind.kinds) && r.target.selects s) := by
  have htake := Registry.holders_takeOut c.registry r.path
    (fun k s => r.kind.selects k && r.target.selects s) path k
  refine htake.trans ?_
  by_cases hp : r.path = path
  · subst hp
    rw [if_pos rfl]
    exact List.filter_congr fun s _ => by simp [Selector.selects]
  · have hp' : path ≠ r.path := fun he => hp he.symm
    simp [hp, hp']

theorem start_local (hr : r.registryOnly = true) (hv : Path.isValid r.path = true) (c : Client) :
    start r c =
      if r.kind.kinds.flatMap (selected r c.registry) = [] then
        finish r (nothing r) (c.unregister .removed r.path r.kind r.target).2
      else
        (.confirming (r.kind.kinds.flatMap (selected r c.registry))
          ⟨r.kind.kinds.flatMap (selected r c.registry), [], none⟩,
          (c.unregister .removed r.path r.kind r.target).2) := by
  have hvalid : Path.validate r.path = .ok () := by
    simp only [Path.validate, Option.isNone_iff_eq_none.mp hv]
  rw [← entries_eq]
  simp only [start, hvalid, hr, if_true]
  generalize c.unregister .removed r.path r.kind r.target = x
  obtain ⟨es, c₁⟩ := x
  cases es <;> rfl

/-- What a removal that leaves the server out comes to. -/
theorem perform_local (reply : Transport) (hr : r.registryOnly = true)
    (hv : Path.isValid r.path = true) (c : Client) :
    (perform reply r c).1 = (if r.kind.kinds.flatMap (selected r c.registry) = [] then nothing r
      else .ok (r.kind.kinds.flatMap (selected r c.registry))) ∧
    Leaves r c [] r.kind.kinds (perform reply r c).2 := by
  have hholders := holders_unregister r c
  have hlogs : c.Logs (c.unregister .removed r.path r.kind r.target).2 []
      ((r.kind.kinds.flatMap (selected r c.registry)).map (.mk .removed)) [] := by
    refine ⟨[.taken .removed (c.unregister .removed r.path r.kind r.target).1], rfl, rfl, ?_, rfl⟩
    rw [entries_eq]
    exact List.append_nil _
  rw [perform, start_local hr hv]
  split
  · rename_i hnone
    have hsettled := hlogs.trans (Client.logs_settle _ r.mode (nothing r))
    rw [hnone] at hsettled
    refine ⟨rfl, hholders, ?_⟩
    rw [hnone]
    exact hsettled
  · exact ⟨rfl, leaves_ends hholders hlogs rfl (fun k hk => by cases hk)⟩

theorem Leaves.mirrors {d : Client} (h : Leaves r c qs ks d) (hm : Client.Mirrors c' d)
    (hj : ∃ os, c'.journal = os ++ c.journal) : Leaves r c qs ks c' :=
  ⟨hm.registry.symm ▸ h.holders, h.logs.mirrors hm hj⟩

theorem mem_flatMap_selected {e : Entry} : e ∈ ks.flatMap (selected r reg) ↔
    e ∈ reg ∧ e.path = r.path ∧ e.kind ∈ ks ∧ r.target.selects e.subscriber = true := by
  simp only [List.mem_flatMap, mem_selected]
  constructor
  · rintro ⟨k, hk, he, hp, rfl, ht⟩
    exact ⟨he, hp, hk, ht⟩
  · rintro ⟨he, hp, hk, ht⟩
    exact ⟨e.kind, hk, he, hp, rfl, ht⟩

/-- The entries taken out are those that are missing. -/
theorem Leaves.mem_registry (h : Leaves r c qs ks c') (e : Entry) :
    e ∈ c'.registry ↔ e ∈ c.registry ∧ e ∉ ks.flatMap (selected r c.registry) := by
  rw [mem_flatMap_selected, Registry.mem_iff, h.holders, List.mem_filter, ← Registry.mem_iff]
  refine and_congr_right fun he => ?_
  simp only [Bool.not_eq_true', Bool.and_eq_false_iff, decide_eq_false_iff_not, he, true_and]
  rw [← Bool.not_eq_true]
  tauto

end Removal

/-- The removal was begun, and nobody began anything else until it had come to this result. -/
def ComesTo (reply : Transport) (s : Engine) (r : RemovalRequest)
    (result : Except Fault (List Entry)) (u : Awaiting) : Prop :=
  ∃ t, Engine.act (.begin (.remove r)) s = some t ∧
    Relation.ReflTransGen (Attends reply (.caller s.nextCall)) ⟨t, []⟩ u ∧
    u.engine.outcome? s.nextCall = some (.removal result)

namespace ComesTo

open Client (Mirrors)
open Removal (perform Leaves)

variable {reply : Transport} {s : Engine} {u : Awaiting} {r : RemovalRequest}
  {result : Except Fault (List Entry)}

theorem exists_of_ready (reply : Transport) (hs : s.Ready) (r : RemovalRequest) :
    ∃ result u, ComesTo reply s r result u := by
  obtain ⟨t, hbegun⟩ : ∃ t, Engine.act (.begin (.remove r)) s = some t := ⟨_, if_pos hs.held⟩
  obtain ⟨u, result, hrun, hu⟩ := (Attended.begun reply hs r hbegun).completes
  refine ⟨result, u, t, hbegun, hrun, ?_⟩
  rw [Engine.outcome?, hu.call]
  rfl

theorem alike (h : ComesTo reply s r result u) (hs : s.Ready) :
    result = (perform reply r s.client).1 ∧ Mirrors u.engine.client (perform reply r s.client).2 ∧
      ∃ os, u.engine.client.journal = os ++ s.client.journal := by
  obtain ⟨t, hbegun, hrun, houtcome⟩ := h
  obtain ⟨st, hu⟩ := (Attended.begun reply hs r hbegun).run hrun
  obtain rfl := hu.done_of_outcome houtcome
  obtain ⟨os, _, hj, _⟩ := hu.told
  exact ⟨hu.alike.1, hu.alike.2, os, hj⟩

theorem leaves (h : ComesTo reply s r result u) (hs : s.Ready) {qs : List Request}
    {ks : List Kind} (hl : Leaves r s.client qs ks (perform reply r s.client).2) :
    Leaves r s.client qs ks u.engine.client :=
  hl.mirrors (h.alike hs).2.1 (h.alike hs).2.2

/-- What was logged as queued was put on the queue behind what was there, and is there still, or was
carried out. -/
theorem carried (h : ComesTo reply s r result u) (hs : s.Ready) {qs : List Request}
    {ts : List Consumption} {ds : List Delivery} (hl : s.client.Logs u.engine.client qs ts ds) :
    u.carried ++ u.engine.client.deliveries.items = s.client.deliveries.items ++ ds := by
  obtain ⟨t, hbegun, hrun, _⟩ := h
  obtain ⟨st, hu⟩ := (Attended.begun reply hs r hbegun).run hrun
  obtain ⟨os, es, hj, hq, hitems⟩ := hu.told
  obtain ⟨os', hj', _, _, rfl⟩ := hl
  obtain rfl : os = os' := List.append_cancel_right (hj.symm.trans hj')
  rw [hitems, hq]

end ComesTo

end NodeWatch
