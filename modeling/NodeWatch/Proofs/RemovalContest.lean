import Mathlib.Algebra.BigOperators.Group.Finset.Piecewise
import Mathlib.Data.Finset.Card
import NodeWatch.Proofs.EntryConservation
import NodeWatch.Proofs.DeliveryTraffic

/-! Who wins a race for one entry. However removals of the same entry are interleaved with each other,
with arming reads, notifications and expiries, the call that took the entry out is the one that
succeeds and confirms it, and the calls that took nothing fail and tell nobody. -/

namespace NodeWatch

/-- The removal asks for this entry and no other, and finding nothing is not success. -/
structure RemovalRequest.Seeks (r : RemovalRequest) (e : Entry) : Prop where
  path : r.path = e.path
  kind : r.kind = .only e.kind
  target : r.target = .one e.subscriber
  quiet : r.quiet = false

theorem RemovalRequest.seeks_iff {r : RemovalRequest} {e : Entry} : r.Seeks e ↔
    r.path = e.path ∧ r.kind = .only e.kind ∧ r.target = .one e.subscriber ∧ r.quiet = false :=
  ⟨fun h => ⟨h.path, h.kind, h.target, h.quiet⟩, fun h => ⟨h.1, h.2.1, h.2.2.1, h.2.2.2⟩⟩

instance (r : RemovalRequest) (e : Entry) : Decidable (r.Seeks e) :=
  decidable_of_iff' _ RemovalRequest.seeks_iff

namespace Removal

variable {r : RemovalRequest} {e : Entry} {c c' : Client} {os : List Occurrence}

/-- The entry is all that was removed, or nothing was removed and that is a failure. -/
def Settlement.Decided (o : Settlement) (e : Entry) : Prop :=
  o.removed = [e] ∧ o.failure = none ∨ o.removed = [] ∧ o.failure.isSome = true

/-- At most the kind of the entry is planned for. -/
structure Plan.Narrow (p : Plan) (e : Entry) : Prop where
  kinds : p.server ++ p.here = [] ∨ p.server ++ p.here = [e.kind]
  probe : p.probe = false

/-- How far a removal that seeks an entry has come, given what it has taken and told. -/
def Contested (e : Entry) (ts : List Consumption) (ds : List Delivery) : Stage → Prop
  | .asking p _ => p.Narrow e ∧ ts = [] ∧ ds = []
  | .confirming rest o => o.Decided e ∧ ts = o.removed.map (.mk .removed) ∧
    ∃ told, o.removed = told ++ rest ∧ ds = told.map (Delivery.removed · .syncConnected)
  | .checking _ o | .rearming _ _ o => o.Decided e ∧ ts = o.removed.map (.mk .removed) ∧
    ds = o.removed.map (Delivery.removed · .syncConnected)
  | .done result => ∃ o : Settlement, o.Decided e ∧ result = o.result ∧
    ts = o.removed.map (.mk .removed) ∧ ds = o.removed.map (Delivery.removed · .syncConnected)

theorem narrow_plan (hr : r.Seeks e) (reg : Registry) : (plan r reg).Narrow e := by
  simp only [plan, hr.target, hr.kind, Registry.subscriberKinds, Selector.kinds]
  by_cases hs : (reg.holders r.path e.kind).contains e.subscriber = true
  · by_cases hl : (reg.holders r.path e.kind).length = 1
    · exact ⟨.inr (by simp_all), rfl⟩
    · exact ⟨.inr (by simp_all), rfl⟩
  · exact ⟨.inl (by simp_all), rfl⟩

/-- The entry sought is all that can be taken out. -/
theorem unregister_of_seeks (hr : r.Seeks e) (c : Client) :
    (c.unregister .removed r.path (.only e.kind) r.target).1 = [] ∨
      (c.unregister .removed r.path (.only e.kind) r.target).1 = [e] := by
  have hnodup : (c.unregister .removed r.path (.only e.kind) r.target).1.Nodup :=
    Registry.nodup_takeOut_fst _ _ _
  have honly : ∀ f ∈ (c.unregister .removed r.path (.only e.kind) r.target).1, f = e := by
    intro f hf
    obtain ⟨_, hpath, hsel⟩ := Registry.mem_takeOut_fst.mp hf
    rw [hr.target] at hsel
    obtain ⟨path, k, s⟩ := f
    obtain ⟨path', k', s'⟩ := e
    simp_all [Selector.selects, Selector.kinds, Target.selects, hr.path]
  generalize (c.unregister .removed r.path (.only e.kind) r.target).1 = l at hnodup honly
  cases l with
  | nil => exact .inl rfl
  | cons f l =>
    cases l with
    | nil => exact .inr (by rw [honly f (.head _)])
    | cons g l =>
      have hfg : f = g := (honly f (.head _)).trans (honly g (.tail _ (.head _))).symm
      exact absurd (hfg ▸ List.mem_cons_self) (List.nodup_cons.mp hnodup).1

/-- Without a failure of its own, a removal misses what it sought when it took nothing. -/
theorem missed_of_seeks (hr : r.Seeks e) {p : Plan} (hp : p.probe = false) (o : Settlement) :
    missed r p o = if o.removed.isEmpty then some (.noWatcher r.path r.kind) else none := by
  simp [missed, hr.target, hr.quiet, hp]

/-- What acting on the answers has come to. -/
structure Judged (e : Entry) (c : Client) (x : Settlement × Client) : Prop where
  decided : x.1.Decided e
  noted : ∃ os, x.2.journal = os ++ c.journal ∧
    takings os = x.1.removed.map (.mk .removed) ∧ tellings os = []

theorem judged_of_taken (hr : r.Seeks e) {p : Plan} (hp : p.probe = false) (cs : List Kind)
    (c : Client) :
    Judged e c
      (⟨(c.unregister .removed r.path (.only e.kind) r.target).1, cs,
          missed r p ⟨(c.unregister .removed r.path (.only e.kind) r.target).1, cs, none⟩⟩,
        (c.unregister .removed r.path (.only e.kind) r.target).2) := by
  refine ⟨?_, [.taken .removed _], rfl, List.append_nil _, rfl⟩
  rw [Settlement.Decided, missed_of_seeks hr hp]
  rcases unregister_of_seeks hr c with h | h <;> simp [h]

theorem judged_of_failure (f : Fault) (cs : List Kind) (os : List Occurrence)
    (hj : c'.journal = os ++ c.journal) (ho : ∀ o ∈ os, o.Plain) :
    Judged e c (⟨[], cs, some f⟩, c') :=
  ⟨.inr ⟨rfl, rfl⟩, os, hj, takings_of_plain ho, tellings_of_plain ho⟩

theorem judged_reconcile (hr : r.Seeks e) {p : Plan} (hp : p.Narrow e) {as : List Answer}
    (hlen : as.length = p.server.length) (c : Client) : Judged e c (reconcile r p as c) := by
  have hmissed := missed_of_seeks hr hp.probe
  rcases hp.kinds with hk | hk
  · obtain ⟨hserver, hhere⟩ := List.append_eq_nil_iff.mp hk
    simp only [reconcile, hserver, hhere, List.zip_nil_left, List.foldl_nil, hmissed]
    exact judged_of_failure _ [] [] rfl (by simp)
  · rcases List.append_eq_singleton_iff.mp hk with ⟨hserver, hhere⟩ | ⟨hserver, hhere⟩
    · simp only [reconcile, hserver, hhere, List.zip_nil_left, List.foldl_nil, List.foldl_cons,
        settleHere]
      exact judged_of_taken hr hp.probe [] c
    · rw [hserver] at hlen
      obtain ⟨a, rfl⟩ := List.length_eq_one_iff.mp hlen
      simp only [reconcile, hserver, hhere, List.zip_cons_cons, List.zip_nil_left, List.foldl_nil,
        List.foldl_cons, settleKind, hr.quiet, hp.probe]
      cases a with
      | ok x => exact judged_of_taken hr hp.probe [e.kind] c
      | error f =>
        by_cases hf : f.isNoWatcher = true
        · simp only [hf, if_true, Bool.false_eq_true, if_false]
          exact judged_of_failure f [] [] rfl (by simp)
        · simp only [hf, Bool.false_eq_true, if_false]
          refine judged_of_failure f [] [.remarked _] rfl fun o ho => ?_
          rw [List.mem_singleton.mp ho]
          exact ⟨rfl, rfl, rfl⟩

theorem contested_failed (e : Entry) (f : Fault) : Contested e [] [] (.done (.error f)) :=
  ⟨⟨[], [], some f⟩, .inr ⟨rfl, rfl⟩, rfl, rfl, rfl⟩

theorem contested_start (hr : r.Seeks e) (hj : (start r c).2.journal = os ++ c.journal) :
    Contested e (takings os) (tellings os) (start r c).1 := by
  have hnothing : nothing r = .error (.noWatcher r.path r.kind) := by simp [nothing, hr.quiet]
  unfold start at hj ⊢
  split at hj
  · obtain rfl := List.self_eq_append_left.mp hj
    exact contested_failed e _
  · split at hj
    · rename_i hlocal
      rw [if_pos hlocal, hr.kind]
      have htaken := unregister_of_seeks hr c
      rw [hr.kind] at hj
      cases hu : c.unregister .removed r.path (.only e.kind) r.target with
      | mk es c₁ =>
        have hc₁ : c₁.journal = [.taken .removed es] ++ c.journal :=
          (congrArg (·.2.journal) hu).symm.trans
            (congrArg (fun x => Occurrence.taken .removed x.1 :: c.journal) hu)
        rw [hu] at hj htaken
        rcases htaken with rfl | rfl
        · dsimp only [finish] at hj ⊢
          have hos : [.settled r.mode (Client.outcomeOf (nothing r)), .taken .removed []] = os := by
            refine List.append_cancel_right (Eq.trans ?_ hj)
            change _ = _ :: c₁.journal
            rw [hc₁]
            rfl
          rw [hnothing] at hos ⊢
          subst hos
          exact contested_failed e _
        · dsimp only at hj ⊢
          obtain rfl := List.append_cancel_right (hc₁.symm.trans hj)
          exact ⟨.inl ⟨rfl, rfl⟩, rfl, [], rfl, rfl⟩
    · rename_i hremote
      rw [if_neg hremote]
      dsimp only at hj ⊢
      split at hj
      · rename_i hempty
        rw [if_pos hempty, hnothing]
        obtain rfl : [.settled r.mode (Client.outcomeOf (nothing r))] = os :=
          List.append_cancel_right hj
        exact contested_failed e _
      · rename_i hsome
        rw [if_neg hsome]
        obtain rfl := List.self_eq_append_left.mp hj
        exact ⟨narrow_plan hr c.registry, rfl, rfl⟩

theorem contested_advance (hr : r.Seeks e) {p : Plan} (hp : p.Narrow e)
    {answers : List (Option Answer)}
    (hj : (advance r p answers c).2.journal = os ++ c.journal) :
    Contested e (takings os) (tellings os) (advance r p answers c).1 := by
  rcases advance_cases r p answers c with ⟨_, ha⟩ | ⟨as, _, hlen, ha⟩
  · rw [ha] at hj ⊢
    obtain rfl := List.self_eq_append_left.mp hj
    exact ⟨hp, rfl, rfl⟩
  · rw [ha] at hj ⊢
    obtain ⟨hdecided, os', hos', htakings, htellings⟩ := judged_reconcile hr hp hlen c
    obtain rfl := List.append_cancel_right (hos'.symm.trans hj)
    exact ⟨hdecided, htakings, [], rfl, htellings⟩

theorem contested_resume {party : Party} {st st' : Stage} {ts : List Consumption}
    {ds : List Delivery} (hr : r.Seeks e) (ho : c.deliveries.isOpen = true)
    (h : Contested e ts ds st) (hm : resume r party st c = some (st', c'))
    (hj : c'.journal = os ++ c.journal) :
    Contested e (takings os ++ ts) (tellings os ++ ds) st' := by
  cases resumed hm with
  | asked p answers k next =>
    obtain rfl : [.asked (.remove r.path k)] = os := List.append_cancel_right hj
    exact h
  | advanced p answers empty =>
    obtain ⟨hp, rfl, rfl⟩ := h
    rw [List.append_nil, List.append_nil]
    exact contested_advance hr hp hj
  | told o =>
    obtain rfl := List.self_eq_append_left.mp hj
    obtain ⟨hdecided, rfl, told, htold, rfl⟩ := h
    refine ⟨hdecided, rfl, ?_⟩
    rw [htold, List.append_nil]
    rfl
  | telling f es o =>
    obtain ⟨hdecided, rfl, told, htold, rfl⟩ := h
    -- there is one entry to tell of at most, so nothing was told before
    obtain ⟨rfl, rfl, rfl⟩ : told = [] ∧ f = e ∧ es = [] := by
      rcases hdecided with ⟨hone, _⟩ | ⟨hnone, _⟩
      · rcases List.append_eq_singleton_iff.mp (htold.symm.trans hone) with ⟨ht, he⟩ | ⟨_, he⟩
        · obtain ⟨rfl, rfl⟩ := List.cons_eq_cons.mp he
          exact ⟨ht, rfl, rfl⟩
        · cases he
      · rw [hnone] at htold
        simp at htold
    rcases Queue.offer_of_open ho party (Delivery.removed f .syncConnected) with
      ⟨q, hq, _⟩ | ⟨q, hq, _⟩
    · simp only [Client.send, hq] at hj ⊢
      obtain rfl : [.queued (Delivery.removed f .syncConnected)] = os :=
        List.append_cancel_right hj
      exact ⟨hdecided, rfl, [f], htold, rfl⟩
    · simp only [Client.send, hq] at hj ⊢
      obtain rfl := List.self_eq_append_left.mp hj
      exact ⟨hdecided, rfl, [], htold, rfl⟩
  | finished o result ended =>
    obtain rfl : [.settled r.mode (Client.outcomeOf result)] = os := List.append_cancel_right hj
    obtain ⟨hdecided, rfl, rfl⟩ := h
    exact ⟨o, hdecided, ended, rfl, rfl⟩
  | passed k ks o unheld =>
    obtain rfl := List.self_eq_append_left.mp hj
    exact h
  | rearming k ks o held =>
    obtain rfl : [.asked (.register r.path (.rearming k)), .remarked (.rearming r.path k)] = os :=
      List.append_cancel_right hj
    exact h

theorem contested_answer {slot : Nat} {x : Answer} {st st' : Stage} {ts : List Consumption}
    {ds : List Delivery} (hr : r.Seeks e) (h : Contested e ts ds st)
    (hm : answer r slot x st c = some (st', c')) (hj : c'.journal = os ++ c.journal) :
    Contested e (takings os ++ ts) (tellings os ++ ds) st' := by
  cases replied hm with
  | advanced p answers awaited =>
    obtain ⟨hp, rfl, rfl⟩ := h
    rw [List.append_nil, List.append_nil]
    exact contested_advance hr hp hj
  | rearmed k ks o first c' aside unasked =>
    obtain ⟨os', hos', haside⟩ := aside.journal
    obtain rfl := List.append_cancel_right (hos'.symm.trans hj)
    have hplain : ∀ o ∈ os', o.Plain := fun o ho => Occurrence.plain_of_isAside (haside o ho)
    rw [takings_of_plain hplain, tellings_of_plain hplain]
    exact h

end Removal

namespace Operation

/-- A removal that sought this entry has come to its end. -/
def contends (e : Entry) : Operation → Bool
  | .removal r (.done _) => r.Seeks e
  | _ => false

/-- A removal that sought this entry has succeeded. -/
def wins (e : Entry) : Operation → Bool
  | .removal r (.done (.ok _)) => r.Seeks e
  | _ => false

def Contested (o : Operation) (ps : List Page) : Prop :=
  ∀ r st e, o = .removal r st → r.Seeks e →
    Removal.Contested e (takings (ps.flatMap Page.noted)) (tellings (ps.flatMap Page.noted)) st

variable {c c' : Client} {os : List Occurrence} {ds : List Delivery}

theorem contested_start (o : Order) (hj : (start o c).2.journal = os ++ c.journal) (reg : Registry) :
    (start o c).1.Contested [⟨reg, os, ds⟩] := by
  intro r st e ho hr
  rw [List.flatMap_singleton]
  cases o with
  | remove r' =>
    simp only [start, Removal.startOpen] at ho hj
    split at ho
    · rename_i hclosed
      obtain ⟨rfl, rfl⟩ := Operation.removal.inj ho
      rw [if_pos hclosed] at hj
      obtain rfl := List.self_eq_append_left.mp hj
      exact Removal.contested_failed e _
    · rename_i hopen
      obtain ⟨rfl, rfl⟩ := Operation.removal.inj ho
      rw [if_neg hopen] at hj
      exact Removal.contested_start hr hj
  | arm | enrol | notify | session => cases ho

theorem contested_move {o o' : Operation} {m : Move} {p : Party} {ps : List Page}
    (h : o.Contested ps) (hopen : c.deliveries.isOpen = true)
    (hm : o.move m p c = some (o', c')) (hj : c'.journal = os ++ c.journal) (reg : Registry) :
    o'.Contested (⟨reg, os, ds⟩ :: ps) := by
  intro r st' e ho hr
  rw [List.flatMap_cons, takings_append, tellings_append]
  cases moves hm with
  | removing r' st st₁ c' resume =>
    obtain ⟨rfl, rfl⟩ := Operation.removal.inj ho
    exact Removal.contested_resume hr hopen (h _ _ e rfl hr) resume hj
  | settling r' slot x st st₁ c' answer =>
    obtain ⟨rfl, rfl⟩ := Operation.removal.inj ho
    exact Removal.contested_answer hr (h _ _ e rfl hr) answer hj
  | failed | armed | refused | enrolled | lining | notified | notifying | handling | answered
    | timedOut | retried => cases ho

theorem contested_beside {o : Operation} {ps : List Page} (h : o.Contested ps) {pg : Page}
    (ha : ∀ x ∈ pg.noted, x.isAside = true) : o.Contested (pg :: ps) := by
  intro r st e ho hr
  have hplain : ∀ x ∈ pg.noted, x.Plain := fun x hx => Occurrence.plain_of_isAside (ha x hx)
  rw [List.flatMap_cons, takings_append, tellings_append, takings_of_plain hplain,
    tellings_of_plain hplain]
  exact h r st e ho hr

end Operation

namespace Engine

/-- Deliveries can be queued, unless nobody is left who could queue one. -/
def Served (s : Engine) : Prop :=
  s.client.deliveries.isOpen = true ∨ s.silent = true

theorem served_initial {settings : Settings} {feed : Option Nat} {s : Engine}
    (hb : build settings feed = .built s) : s.Served := by
  refine .inl ((accounted_initial hb).served.resolve_right fun hsilent => ?_)
  obtain ⟨d, r, _, _, rfl⟩ := build_eq hb
  cases hsilent

theorem served_act {a : Action} {s t : Engine} (hs : s.Orderly) (ho : s.client.closed = false)
    (h : s.Served) (hact : act a s = some t) : t.Served := by
  rcases h with h | h
  · cases act_turnover hs ho hact with
    | started p o taken origin fresh after client handed =>
      exact .inl (by rw [client, (Operation.undisturbed_start o s.client).deliveries, h])
    | moved p m o o' rest action before move after handed =>
      exact .inl ((Operation.grows_move move).isOpen.trans h)
    | ended p o rest inside before finished after aside handed => exact .inl (aside.opens.trans h)
    | abandoned id o rest action before after aside handed => exact .inl (aside.opens.trans h)
    | beside inside after aside handed => exact .inl (aside.opens.trans h)
    | silenced inside silent after => exact .inr (after ▸ silent)
  · exact .inr (silent_act ho h hact)

theorem Served.isOpen {s : Engine} (h : s.Served) {p : Party} {o : Operation}
    (ho : s.task? p = some o) : s.client.deliveries.isOpen = true := by
  refine h.resolve_right fun hsilent => ?_
  have hmem := mem_of_task? ho
  rw [tasks_of_silent hsilent] at hmem
  cases hmem

end Engine

namespace Chronicle

variable {w v : Chronicle}

theorem contested_run {settings : Settings} {feed : Option Nat} {s : Engine}
    (hs : Engine.build settings feed = .built s)
    (h : Relation.ReflTransGen Onward (opening s) w) :
    w.Numbered ∧ w.engine.Served ∧
      ∀ n (o : Operation), w.operations[n]? = some o → o.Contested (w.own n) := by
  induction h with
  | refl =>
    exact ⟨numbered_opening hs, Engine.served_initial hs, fun n o ho => by cases ho⟩
  | tail _ hstep ih =>
    obtain ⟨hw, hserved, htells⟩ := ih
    obtain ⟨ho, a, ha⟩ := hstep
    obtain ⟨t, hact, hv⟩ := continued hw ha
    obtain ⟨rfl, _⟩ := hv.turned
    refine ⟨hw.act ha, Engine.served_act hw.orderly ho hserved hact, ?_⟩
    exact tells_act hw ha (fun o os ds hj => Operation.contested_start o hj _)
      (fun p m o o' c os ds ps htask hm hj hps =>
        Operation.contested_move hps (hserved.isOpen htask) hm hj _)
      (fun r st ps pg haside hps => Operation.contested_beside hps haside) htells

def contenders (w : Chronicle) (e : Entry) : Finset Nat :=
  (Finset.range w.operations.length).filter fun n => (w.operations[n]?).any (Operation.contends e)

def winners (w : Chronicle) (e : Entry) : Finset Nat :=
  (Finset.range w.operations.length).filter fun n => (w.operations[n]?).any (Operation.wins e)

theorem mem_contenders {e : Entry} {n : Nat} : n ∈ w.contenders e ↔
    ∃ r result, w.operations[n]? = some (.removal r (.done result)) ∧ r.Seeks e := by
  rw [contenders, Finset.mem_filter, Finset.mem_range, Option.any_eq_true]
  constructor
  · rintro ⟨_, o, ho, hc⟩
    unfold Operation.contends at hc
    split at hc
    · rename_i r result
      exact ⟨r, result, ho, of_decide_eq_true hc⟩
    · cases hc
  · rintro ⟨r, result, ho, hr⟩
    exact ⟨(List.getElem?_eq_some_iff.mp ho).1, _, ho, decide_eq_true hr⟩

theorem mem_winners {e : Entry} {n : Nat} : n ∈ w.winners e ↔
    ∃ r es, w.operations[n]? = some (.removal r (.done (.ok es))) ∧ r.Seeks e := by
  rw [winners, Finset.mem_filter, Finset.mem_range, Option.any_eq_true]
  constructor
  · rintro ⟨_, o, ho, hc⟩
    unfold Operation.wins at hc
    split at hc
    · rename_i r es
      exact ⟨r, es, ho, of_decide_eq_true hc⟩
    · cases hc
  · rintro ⟨r, es, ho, hr⟩
    exact ⟨(List.getElem?_eq_some_iff.mp ho).1, _, ho, decide_eq_true hr⟩

/-- Every consumption of the run, with the operation that was at work. -/
def consumptions (w : Chronicle) : List (Option Nat × Consumption) :=
  w.occurrences.flatMap fun y => y.2.consumptions.map (Prod.mk y.1)

theorem consumptions_by (w : Chronicle) (n : Nat) :
    ((w.consumptions).filter fun z => z.1 = some n).map Prod.snd = w.takings n := by
  obtain ⟨s, pages, operations, number⟩ := w
  simp only [consumptions, occurrences, takings, deeds, own]
  induction pages with
  | nil => rfl
  | cons x pages ih =>
    obtain ⟨i, pg⟩ := x
    rw [List.flatMap_cons, List.flatMap_append, List.filter_append, List.map_append, ih,
      List.filter_cons]
    by_cases hi : i = some n
    · have hall : ∀ z ∈ (pg.noted.map (Prod.mk i)).flatMap fun y =>
          y.2.consumptions.map (Prod.mk y.1), decide (z.1 = some n) = true := by
        intro z hz
        simp only [List.mem_flatMap, List.mem_map] at hz
        obtain ⟨_, ⟨o, _, rfl⟩, x, _, rfl⟩ := hz
        exact decide_eq_true hi
      rw [List.filter_eq_self.mpr hall, if_pos (by simpa using hi), List.map_cons,
        List.flatMap_cons, takings_append]
      congr 1
      simp only [List.flatMap_map, List.map_flatMap, List.map_map, Function.comp_def, List.map_id']
      rfl
    · have hnone : ∀ z ∈ (pg.noted.map (Prod.mk i)).flatMap fun y =>
          y.2.consumptions.map (Prod.mk y.1), ¬decide (z.1 = some n) = true := by
        intro z hz
        simp only [List.mem_flatMap, List.mem_map] at hz
        obtain ⟨_, ⟨o, _, rfl⟩, x, _, rfl⟩ := hz
        simpa using hi
      rw [List.filter_eq_nil_iff.mpr hnone, if_neg (by simpa using hi)]
      rfl

theorem countP_takings (w : Chronicle) (n : Nat) (Q : Consumption → Bool) :
    w.consumptions.countP (fun z => decide (z.1 = some n) && Q z.2) = (w.takings n).countP Q := by
  rw [← consumptions_by, List.countP_map, List.countP_filter]
  exact List.countP_congr fun z _ => by simp [and_comm]

/-- What any of some operations did is what each of them did, taken together. -/
theorem countP_by_hand {β : Type} (N : Finset Nat) (Q : β → Bool) (l : List (Option Nat × β)) :
    l.countP (fun z => z.1.any (· ∈ N) && Q z.2) =
      ∑ n ∈ N, l.countP fun z => decide (z.1 = some n) && Q z.2 := by
  induction l with
  | nil => simp
  | cons z l ih =>
    obtain ⟨i, x⟩ := z
    simp only [List.countP_cons, ih, Finset.sum_add_distrib]
    congr 1
    cases i with
    | none => simp
    | some j => by_cases hq : Q x = true <;> simp [hq, Finset.sum_ite_eq]

theorem outcome_run {settings : Settings} {feed : Option Nat} {s : Engine}
    (hs : Engine.build settings feed = .built s)
    (h : Relation.ReflTransGen Onward (opening s) w) {e : Entry} {n : Nat} {r : RemovalRequest}
    {result : Except Fault (List Entry)}
    (ho : w.operations[n]? = some (.removal r (.done result))) (hr : r.Seeks e) :
    (result = .ok [e] ∧ w.takings n = [⟨.removed, e⟩] ∧
        w.tellings n = [.removed e .syncConnected]) ∨
      ∃ f, result = .error f ∧ w.takings n = [] ∧ w.tellings n = [] := by
  obtain ⟨_, _, htells⟩ := contested_run hs h
  obtain ⟨o, hdecided, rfl, ht, hd⟩ := htells n _ ho r _ e rfl hr
  rw [tellings_run (numbered_opening hs) (Onward.steps h), takings, deeds, ht, hd,
    Removal.Settlement.result]
  rcases hdecided with ⟨hone, hf⟩ | ⟨hnone, hf⟩
  · exact .inl ⟨by rw [hf, hone], by rw [hone]; rfl, by rw [hone]; rfl⟩
  · obtain ⟨f, hf⟩ := Option.isSome_iff_exists.mp hf
    exact .inr ⟨f, by rw [hf], by rw [hnone]; rfl, by rw [hnone]; rfl⟩

theorem countP_contender {settings : Settings} {feed : Option Nat} {s : Engine}
    (hs : Engine.build settings feed = .built s)
    (h : Relation.ReflTransGen Onward (opening s) w) {e : Entry} {n : Nat}
    (hn : n ∈ w.contenders e) (Q : Cause → Bool) :
    (w.takings n).countP (fun x => x.entry == e && Q x.cause) =
      if n ∈ w.winners e ∧ Q .removed = true then 1 else 0 := by
  obtain ⟨r, result, ho, hr⟩ := mem_contenders.mp hn
  rcases outcome_run hs h ho hr with ⟨rfl, ht, _⟩ | ⟨f, rfl, ht, _⟩
  · have hwin : n ∈ w.winners e := mem_winners.mpr ⟨r, [e], ho, hr⟩
    rw [ht]
    by_cases hq : Q .removed = true <;> simp [hwin, hq]
  · have hlost : n ∉ w.winners e := by
      intro hwin
      obtain ⟨r', es, ho', _⟩ := mem_winners.mp hwin
      rw [ho] at ho'
      cases ho'
    rw [ht]
    simp [hlost]

theorem winners_subset (w : Chronicle) (e : Entry) : w.winners e ⊆ w.contenders e := by
  intro n hn
  obtain ⟨r, es, ho, hr⟩ := mem_winners.mp hn
  exact mem_contenders.mpr ⟨r, .ok es, ho, hr⟩

/-- A removal of an entry by its own subscriber, by any path and in any company, succeeds exactly when
it took the entry out and queued its confirmation, and fails exactly when it took and queued nothing.
So as many of these calls succeed as registrations were ended by them, one each; and a registration
ended by an event or an expiry is no call's success. -/
theorem removal_wins_iff_takes {settings : Settings} {feed : Option Nat} {s : Engine}
    (hs : Engine.build settings feed = .built s)
    (h : Relation.ReflTransGen Onward (opening s) w) (e : Entry) :
    (∀ n r result, w.operations[n]? = some (.removal r (.done result)) → r.Seeks e →
      ((∃ es, result = .ok es) ↔
        w.takings n = [⟨.removed, e⟩] ∧ w.tellings n = [.removed e .syncConnected]) ∧
      ((∃ f, result = .error f) ↔ w.takings n = [] ∧ w.tellings n = [])) ∧
    (w.fates e).length = w.engine.client.armed.count e ∧
    (w.winners e).card = (w.fates e).countP (fun f => f.any fun x => x.1.any (· ∈ w.contenders e)) ∧
    (∀ n ∈ w.contenders e, ∀ cause, (w.fates e).count (some (some n, cause)) =
      if n ∈ w.winners e ∧ cause = .removed then 1 else 0) := by
  have hsteps := Onward.steps h
  have hsober := (faithful_run hs hsteps).sober
  refine ⟨fun n r result ho hr => ?_, length_fates_run hs hsteps e, ?_, fun n hn cause => ?_⟩
  · rcases outcome_run hs h ho hr with ⟨rfl, ht, hd⟩ | ⟨f, rfl, ht, hd⟩ <;> simp [ht, hd]
  · rw [fates, Occurrence.countP_fates e _ hsober]
    refine Eq.symm ?_
    calc w.consumptions.countP (fun z => z.2.entry == e && z.1.any (· ∈ w.contenders e))
        = w.consumptions.countP
            (fun z => z.1.any (· ∈ w.contenders e) && (z.2.entry == e && true)) :=
          List.countP_congr fun z _ => by simp [and_comm]
      _ = ∑ n ∈ w.contenders e, w.consumptions.countP
            (fun z => decide (z.1 = some n) && (z.2.entry == e && true)) :=
          countP_by_hand _ (fun x : Consumption => x.entry == e && true) _
      _ = ∑ n ∈ w.contenders e, if n ∈ w.winners e then 1 else 0 := by
          refine Finset.sum_congr rfl fun n hn => ?_
          rw [countP_takings w n fun x => x.entry == e && true]
          simpa using countP_contender hs h hn fun _ => true
      _ = (w.winners e).card := by
          rw [← Finset.card_filter, Finset.filter_mem_eq_inter,
            Finset.inter_eq_right.mpr (winners_subset w e)]
  · have hcount : (w.fates e).count (some (some n, cause)) =
        (w.fates e).countP fun f => f.any fun x => decide (x = (some n, cause)) := by
      refine List.countP_congr fun f _ => ?_
      cases f <;> simp
    rw [hcount, fates, Occurrence.countP_fates e _ hsober]
    calc w.consumptions.countP (fun z => z.2.entry == e && decide ((z.1, z.2.cause) = (some n, cause)))
        = w.consumptions.countP (fun z => decide (z.1 = some n) &&
            (z.2.entry == e && decide (z.2.cause = cause))) :=
          List.countP_congr fun z _ => by simp [and_left_comm]
      _ = (w.takings n).countP (fun x => x.entry == e && decide (x.cause = cause)) :=
          countP_takings w n fun x => x.entry == e && decide (x.cause = cause)
      _ = if n ∈ w.winners e ∧ cause = .removed then 1 else 0 := by
          rw [countP_contender hs h hn fun c => decide (c = cause)]
          simp [eq_comm]

/-- Two calls remove the only entry at once. The server grants both; the call that is answered first
wins. -/
theorem first_answered_removal_wins :
    ∃ s w, Engine.build {} none = .built s ∧ Relation.ReflTransGen Onward (opening s) w ∧
      w.contenders ⟨"/a", .data, .watcher (.named "w")⟩ = {1, 2} ∧
      w.winners ⟨"/a", .data, .watcher (.named "w")⟩ = {1} ∧
      w.tellings 1 = [.removed ⟨"/a", .data, .watcher (.named "w")⟩ .syncConnected] ∧
      w.tellings 2 = [] ∧
      (w.fates ⟨"/a", .data, .watcher (.named "w")⟩).countP
        (fun f => f.any fun x => x.1.any (· ∈ w.contenders ⟨"/a", .data, .watcher (.named "w")⟩)) =
          1 := by
  have hrun : (follow [.begin (.arm ⟨.presence, "/a", .watcher (.named "w")⟩),
      .answer (.caller 0) 0 (.ok (.presence true)),
      .begin (.remove ⟨"/a", .only .data, .one (.watcher (.named "w")), false, false⟩),
      .begin (.remove ⟨"/a", .only .data, .one (.watcher (.named "w")), false, false⟩),
      .resume (.caller 1), .resume (.caller 2), .answer (.caller 1) 0 (.ok .removed),
      .answer (.caller 2) 0 (.ok .removed), .resume (.caller 1), .resume (.caller 1),
      .resume (.caller 1), .resume (.caller 1), .resume (.caller 2), .resume (.caller 2),
      .resume (.caller 2)] (opening Engine.fresh)).any
      (fun w => decide (w.contenders ⟨"/a", .data, .watcher (.named "w")⟩ = {1, 2} ∧
        w.winners ⟨"/a", .data, .watcher (.named "w")⟩ = {1} ∧
        w.tellings 1 = [.removed ⟨"/a", .data, .watcher (.named "w")⟩ .syncConnected] ∧
        w.tellings 2 = [])) = true := by
    decide +kernel
  obtain ⟨w, hw, hc⟩ := (Option.any_eq_true _ _).mp hrun
  obtain ⟨hcontenders, hwinners, htold, huntold⟩ := of_decide_eq_true hc
  have honward := onward_of_follow hw
  have hcard := (removal_wins_iff_takes Engine.build_fresh honward
    ⟨"/a", .data, .watcher (.named "w")⟩).2.2.1
  refine ⟨_, w, Engine.build_fresh, honward, hcontenders, hwinners, htold, huntold, ?_⟩
  rw [← hcard, hwinners]
  rfl

end Chronicle

end NodeWatch
