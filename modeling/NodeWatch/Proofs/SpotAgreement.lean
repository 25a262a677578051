import NodeWatch.Proofs.TaskTurnover

/-! A client and its server while one operation is at work. The server watches paths and kinds, the
client lists entries under them; each stage of each operation says how the two sets may differ. -/

namespace NodeWatch

open Session (Spot)

/-- How a server that watches `S` answers a request, and what it watches then. A request may also
fail, with any fault but the one that tells that there is no such watch. -/
inductive Serves (S : Set Spot) : Request → Answer → Set Spot → Prop
  | registered (path : String) (read : Read) (x : Response) :
    Serves S (.register path read) (.ok x) (insert ⟨path, read.kind⟩ S)
  | dropped (path : String) (k : Kind) (x : Response) (known : ⟨path, k⟩ ∈ S) :
    Serves S (.remove path k) (.ok x) (S \ {⟨path, k⟩})
  | unknown (path : String) (k : Kind) (f : Fault) (absent : ⟨path, k⟩ ∉ S)
    (fault : f.isNoWatcher = true) : Serves S (.remove path k) (.error f) S
  | failed (q : Request) (f : Fault) (fault : f.isNoWatcher = false) : Serves S q (.error f) S

/-- What an event at the server leaves of the watches. -/
def WatchedEvent.leaves (e : WatchedEvent) (S : Set Spot) : Set Spot :=
  { κ ∈ S | ¬(e.path = some κ.path ∧ κ.kind ∈ e.type.triggered) }

/-- Every watch of the client is one of the server's; and if `exact`, the other way round. -/
structure Agrees (exact : Prop) (R : Registry) (S : Set Spot) : Prop where
  covered : R.spots ⊆ S
  exact_of : exact → S ⊆ R.spots

theorem Agrees.imp {exact exact' : Prop} {R : Registry} {S : Set Spot} (h : Agrees exact R S)
    (hi : exact' → exact) : Agrees exact' R S :=
  ⟨h.covered, fun hx => h.exact_of (hi hx)⟩

namespace Registry

theorem mem_spots_takeOut {R : Registry} {path : String} {p : Kind → Subscriber → Bool}
    {κ : Spot} :
    κ ∈ (R.takeOut path p).2.spots ↔
      ∃ e ∈ R, e.spot = κ ∧ ¬(e.path = path ∧ p e.kind e.subscriber = true) := by
  constructor
  · rintro ⟨e, he, rfl⟩
    obtain ⟨hR, hp⟩ := mem_takeOut_snd.mp he
    exact ⟨e, hR, rfl, hp⟩
  · rintro ⟨e, hR, rfl, hp⟩
    exact ⟨e, mem_takeOut_snd.mpr ⟨hR, hp⟩, rfl⟩

theorem mem_spots_takeOut_kinds {R : Registry} {path : String} {q : Kind → Bool} {κ : Spot} :
    κ ∈ (R.takeOut path fun k _ => q k).2.spots ↔
      κ ∈ R.spots ∧ ¬(κ.path = path ∧ q κ.kind = true) := by
  rw [mem_spots_takeOut]
  constructor
  · rintro ⟨e, hR, rfl, hp⟩
    exact ⟨⟨e, hR, rfl⟩, hp⟩
  · rintro ⟨⟨e, hR, rfl⟩, hp⟩
    exact ⟨e, hR, rfl, hp⟩

theorem mem_spots_unregister_all {R : Registry} {path : String} {k : Kind} {κ : Spot} :
    κ ∈ (R.unregister path (.only k) .all).2.spots ↔ κ ∈ R.spots ∧ κ ≠ ⟨path, k⟩ := by
  have hfun : (fun k' s => (Selector.only k).selects k' && Target.all.selects s) =
      fun k' _ => (Selector.only k).selects k' := by
    funext k' s
    exact Bool.and_true _
  rw [unregister, hfun, mem_spots_takeOut_kinds]
  obtain ⟨path', k'⟩ := κ
  simp [Selector.selects, Selector.kinds]

end Registry

theorem Client.registry_arm (c : Client) (e : Entry) :
    (c.arm e).registry.spots = insert e.spot c.registry.spots := by
  have hspots := Registry.spots_insert c.registry e.path e.kind e.subscriber
  simp only [Client.arm]
  cases hi : c.registry.insert e.path e.kind e.subscriber with
  | mk new R =>
    rw [hi] at hspots
    cases new with
    | true => exact hspots
    | false =>
      have hmem : e.spot ∈ c.registry.spots := by
        refine ⟨e, ?_, rfl⟩
        by_contra hn
        have htrue := (Registry.insert_fst c.registry e.path e.kind e.subscriber).mpr hn
        rw [hi] at htrue
        cases htrue
      exact (Set.insert_eq_of_mem hmem).symm

theorem Client.registry_send (c : Client) (p : Party) (d : Delivery) :
    (c.send p d).2.registry = c.registry := by
  simp only [Client.send]
  split <;> rfl

theorem Client.registry_fire (c : Client) (path : String) (e : WatchedEvent) :
    (c.fire path e).2.registry = (c.registry.takeTriggered path e.type).2 := by
  simp only [Client.fire]
  split <;> rename_i h <;> rw [h]
  rfl

theorem mem_leaves {e : WatchedEvent} {S : Set Spot} {κ : Spot} :
    κ ∈ e.leaves S ↔ κ ∈ S ∧ ¬(e.path = some κ.path ∧ κ.kind ∈ e.type.triggered) :=
  Iff.rfl

/-- A notification takes out of the registry what its event took from the server. -/
theorem Notification.spots_start {c : Client} (ho : c.closed = false) (e : WatchedEvent) :
    (start e c).2.registry.spots = e.leaves c.registry.spots := by
  have hn : ¬c.closed = true := by simp [ho]
  simp only [start]
  rw [if_neg hn]
  ext κ
  rw [mem_leaves]
  cases hp : e.path with
  | none => simp
  | some path =>
    change κ ∈ (c.fire path e).2.registry.spots ↔ _
    rw [Client.registry_fire, Registry.takeTriggered, Registry.mem_spots_takeOut_kinds]
    simp [eq_comm]

theorem Agrees.leaves {exact : Prop} {R R' : Registry} {S : Set Spot} (h : Agrees exact R S)
    {e : WatchedEvent} (hR : R'.spots = e.leaves R.spots) : Agrees exact R' (e.leaves S) := by
  constructor
  · rw [hR]
    exact fun κ hκ => ⟨h.covered hκ.1, hκ.2⟩
  · intro hx
    rw [hR]
    exact fun κ hκ => ⟨h.exact_of hx hκ.1, hκ.2⟩

namespace Removal

variable {r : RemovalRequest} {exact : Prop} {R : Registry} {S : Set Spot} {p : Plan}
  {answers : List (Option Answer)}

/-- While a removal waits for its answers, the server has dropped the kinds answered so far. -/
structure Asking (r : RemovalRequest) (exact : Prop) (R : Registry) (S : Set Spot) (p : Plan)
    (answers : List (Option Answer)) : Prop where
  planned : p = plan r R
  dropped : ∀ k x, Answered p answers k (.ok x) → ⟨r.path, k⟩ ∉ S
  unknown : ∀ k f, Answered p answers k (.error f) → f.isNoWatcher = true →
    ⟨r.path, k⟩ ∉ R.spots ∨ ∃ x, Answered p answers k (.ok x)
  covered : ∀ κ ∈ R.spots, κ ∈ S ∨ κ.path = r.path ∧ ∃ x, Answered p answers κ.kind (.ok x)
  exact_of : exact → S ⊆ R.spots

theorem answered_append_none {k : Kind} {a : Answer} :
    Answered p (answers ++ [none]) k a ↔ Answered p answers k a := by
  constructor
  · rintro ⟨i, hk, ha⟩
    by_cases hi : i < answers.length
    · rw [List.getElem?_append_left hi] at ha
      exact ⟨i, hk, ha⟩
    · rw [List.getElem?_append_right (by omega), List.getElem?_singleton] at ha
      split at ha <;> cases ha
  · rintro ⟨i, hk, ha⟩
    exact ⟨i, hk, by rw [List.getElem?_append_left (List.getElem?_eq_some_iff.mp ha).1, ha]⟩

theorem answered_set {slot : Nat} {x : Answer} (hw : answers[slot]? = some none) {k : Kind}
    {a : Answer} :
    Answered p (answers.set slot (some x)) k a ↔
      Answered p answers k a ∨ p.server[slot]? = some k ∧ a = x := by
  have hlt : slot < answers.length := (List.getElem?_eq_some_iff.mp hw).1
  constructor
  · rintro ⟨i, hk, ha⟩
    rw [List.getElem?_set] at ha
    by_cases hi : slot = i
    · subst hi
      rw [if_pos rfl, if_pos hlt] at ha
      exact .inr ⟨hk, (Option.some.inj (Option.some.inj ha)).symm⟩
    · rw [if_neg hi] at ha
      exact .inl ⟨i, hk, ha⟩
  · rintro (⟨i, hk, ha⟩ | ⟨hk, rfl⟩)
    · refine ⟨i, hk, ?_⟩
      have hi : slot ≠ i := by
        rintro rfl
        rw [hw] at ha
        cases ha
      rw [List.getElem?_set, if_neg hi, ha]
    · exact ⟨slot, hk, by rw [List.getElem?_set, if_pos rfl, if_pos hlt]⟩

theorem asking_nil (h : Agrees exact R S) : Asking r exact R S (plan r R) [] :=
  ⟨rfl, fun _ _ ⟨_, _, ha⟩ => by simp at ha, fun _ _ ⟨_, _, ha⟩ => by simp at ha,
    fun _ hκ => .inl (h.covered hκ), h.exact_of⟩

theorem Asking.submitted (h : Asking r exact R S p answers) :
    Asking r exact R S p (answers ++ [none]) := by
  have ha : ∀ k a, Answered p (answers ++ [none]) k a = Answered p answers k a := fun _ _ =>
    propext answered_append_none
  refine ⟨h.planned, ?_, ?_, ?_, h.exact_of⟩
  · simpa only [ha] using h.dropped
  · simpa only [ha] using h.unknown
  · simpa only [ha] using h.covered

theorem Asking.answered (h : Asking r exact R S p answers) {slot : Nat} {k : Kind} {x : Answer}
    {S' : Set Spot} (hk : p.server[slot]? = some k) (hw : answers[slot]? = some none)
    (hs : Serves S (.remove r.path k) x S') :
    Asking r exact R S' p (answers.set slot (some x)) := by
  have hset : ∀ k' a, Answered p (answers.set slot (some x)) k' a =
      (Answered p answers k' a ∨ k = k' ∧ a = x) := fun k' a => by
    rw [answered_set hw, hk, Option.some.injEq]
  refine ⟨h.planned, ?_, ?_, ?_, ?_⟩
  · simp only [hset]
    rintro k' y (ha | ⟨rfl, rfl⟩)
    · have hold := h.dropped k' y ha
      cases hs with
      | dropped => exact fun hm => hold hm.1
      | unknown => exact hold
      | failed => exact hold
    · cases hs with
      | dropped => simp
  · simp only [hset]
    rintro k' f (ha | ⟨rfl, rfl⟩) hf
    · rcases h.unknown k' f ha hf with hn | ⟨y, hy⟩
      · exact .inl hn
      · exact .inr ⟨y, .inl hy⟩
    · cases hs with
      | unknown _ _ _ absent =>
        by_cases hR : (⟨r.path, k⟩ : Spot) ∈ R.spots
        · rcases h.covered _ hR with hS | ⟨_, y, hy⟩
          · exact absurd hS absent
          · exact .inr ⟨y, .inl hy⟩
        · exact .inl hR
      | failed _ _ fault =>
        rw [hf] at fault
        cases fault
  · simp only [hset]
    intro κ hκ
    rcases h.covered κ hκ with hS | ⟨hp, y, hy⟩
    · cases hs with
      | dropped _ _ y =>
        by_cases he : κ = ⟨r.path, k⟩
        · subst he
          exact .inr ⟨rfl, y, .inr ⟨rfl, rfl⟩⟩
        · exact .inl ⟨hS, he⟩
      | unknown => exact .inl hS
      | failed => exact .inl hS
    · exact .inr ⟨hp, y, .inl hy⟩
  · intro hx
    cases hs with
    | dropped => exact fun κ hκ => h.exact_of hx hκ.1
    | unknown => exact h.exact_of hx
    | failed => exact h.exact_of hx

theorem exists_other {l : List Subscriber} (hd : l.Nodup) {s : Subscriber} (hs : s ∈ l)
    (hne : l ≠ [s]) : ∃ t ∈ l, t ≠ s := by
  by_contra hn
  push Not at hn
  apply hne
  cases l with
  | nil => cases hs
  | cons a l =>
    obtain rfl := hn a (.head _)
    cases l with
    | nil => rfl
    | cons b l =>
      obtain rfl := hn b (.tail _ (.head _))
      simp at hd

theorem Asking.reconciled {as : List Answer} {c : Client}
    (h : Asking r exact c.registry S p (as.map some)) :
    Agrees exact (reconcile r p as c).2.registry S := by
  have hmem := (drawn_reconcile r p as c).registry
  constructor
  · rintro κ ⟨e, he, rfl⟩
    obtain ⟨hR, hstays⟩ := (hmem e).mp he
    rcases h.covered _ ⟨e, hR, rfl⟩ with hS | ⟨hp, x, hx⟩
    · exact hS
    · refine absurd ⟨hp, ?_, mem_gone.mpr (.inl ⟨_, hx, rfl⟩)⟩ hstays
      cases ht : r.target with
      | all => rfl
      | one s =>
        have hserver : e.kind ∈ (plan r c.registry).server := by
          obtain ⟨i, hk, _⟩ := hx
          rw [← h.planned]
          exact List.mem_of_getElem? hk
        have hsole := ((mem_plan_one ht).1.mp hserver).2
        have hsub : e.subscriber ∈ c.registry.holders r.path e.kind := hp ▸ hR
        rw [hsole, List.mem_singleton] at hsub
        simp [Target.selects, hsub]
  · intro hx κ hκ
    obtain ⟨e, hR, rfl⟩ := h.exact_of hx hκ
    by_cases hgone : e.path = r.path ∧ e.kind ∈ gone r p as
    · obtain ⟨hp, hk⟩ := hgone
      have hspot : e.spot = ⟨r.path, e.kind⟩ := by rw [Entry.spot, hp]
      rcases mem_gone.mp hk with ⟨a, ha, htakes⟩ | hhere
      · exfalso
        cases a with
        | ok x => exact h.dropped _ x ha (hspot ▸ hκ)
        | error f =>
          simp only [takes, Bool.and_eq_true] at htakes
          rcases h.unknown _ f ha htakes.1 with hn | ⟨x, hx⟩
          · exact hn (hspot ▸ ⟨e, hR, rfl⟩)
          · exact h.dropped _ x hx (hspot ▸ hκ)
      · rw [h.planned] at hhere
        cases ht : r.target with
        | all =>
          rw [plan_all ht] at hhere
          cases hhere
        | one s =>
          obtain ⟨_, hs, hne⟩ := (mem_plan_one ht).2.mp hhere
          obtain ⟨t, htm, hts⟩ := exists_other (c.registry.nodup_holders _ _) hs hne
          refine ⟨⟨r.path, e.kind, t⟩, (hmem _).mpr ⟨htm, ?_⟩, hspot.symm⟩
          rintro ⟨_, hsel, _⟩
          rw [ht] at hsel
          have hst : s = t := by simpa [Target.selects] using hsel
          exact hts hst.symm
    · exact ⟨e, (hmem e).mpr ⟨hR, fun hn => hgone ⟨hn.1, hn.2.2⟩⟩, rfl⟩

/-- How the two sets may differ at a stage of a removal. -/
def Between (r : RemovalRequest) (exact : Prop) (R : Registry) (S : Set Spot) : Stage → Prop
  | .asking p answers => Asking r exact R S p answers
  | .confirming .. | .checking .. | .done _ => Agrees exact R S
  | .rearming k _ _ => Agrees exact R S ∧ ⟨r.path, k⟩ ∈ R.spots

theorem between_start {c : Client} (h : Agrees exact c.registry S)
    (hl : exact → r.registryOnly = false) :
    Between r exact (start r c).2.registry S (start r c).1 := by
  have hout : r.registryOnly = true →
      Agrees exact (c.unregister .removed r.path r.kind r.target).2.registry S := fun hr =>
    ⟨(Registry.spots_takeOut_subset _ _ _).trans h.covered, fun hx => by
      rw [hl hx] at hr
      cases hr⟩
  have hstart := started r c
  generalize start r c = x at hstart ⊢
  cases hstart with
  | invalid | idle => exact h
  | unmatched _ alone | taken _ alone => exact hout alone
  | asking => exact asking_nil h

theorem between_advance {c : Client} (h : Asking r exact c.registry S p answers) :
    Between r exact (advance r p answers c).2.registry S (advance r p answers c).1 := by
  rcases advance_cases r p answers c with ⟨_, he⟩ | ⟨as, rfl, _, he⟩
  · rw [he]
    exact h
  · rw [he]
    exact h.reconciled

theorem between_resume {party : Party} {c c' : Client} {st st' : Stage}
    (h : Between r exact c.registry S st) (hm : resume r party st c = some (st', c')) :
    Between r exact c'.registry S st' := by
  cases resumed hm with
  | asked p answers k next => exact Asking.submitted h
  | advanced p answers empty => exact between_advance h
  | told o => exact h
  | telling e es o =>
    change Agrees exact (c.send party _).2.registry S
    rw [Client.registry_send]
    exact h
  | finished o result => exact h
  | passed k ks o unheld => exact h
  | rearming k ks o held => exact ⟨h, held⟩

theorem between_answer {slot : Nat} {x : Answer} {q : Request} {limit : Option Nat} {c c' : Client}
    {st st' : Stage} {S' : Set Spot} (h : Between r exact c.registry S st)
    (hm : answer r slot x st c = some (st', c'))
    (hw : (waits r st)[slot]? = some (some (.answer q limit))) (hs : Serves S q x S') :
    Between r exact c'.registry S' st' := by
  cases replied hm with
  | advanced p answers awaited =>
    simp only [waits, List.getElem?_zipWith, awaited] at hw
    cases hk : p.server[slot]? with
    | none => simp [hk] at hw
    | some k =>
      simp only [hk, Option.some.injEq, Wait.answer.injEq] at hw
      obtain ⟨rfl, _⟩ := hw
      exact between_advance (Asking.answered h hk awaited hs)
  | rearmed k ks o first c' aside unasked =>
    subst first
    simp only [waits, List.getElem?_cons_zero, Option.some.injEq, Wait.answer.injEq] at hw
    obtain ⟨rfl, _⟩ := hw
    obtain ⟨hagree, hheld⟩ := h
    change Agrees exact c'.registry S'
    rw [aside.registry]
    cases hs with
    | registered =>
      rw [Read.kind_rearming]
      refine ⟨hagree.covered.trans (Set.subset_insert _ _), fun hx => ?_⟩
      exact Set.insert_subset hheld (hagree.exact_of hx)
    | failed => exact hagree

end Removal

namespace Session

variable {exact : Prop} {R : Registry} {S : Set Spot}

def Task.Won (t : Task) : Prop :=
  ∃ x, t.stage = .ended (.ok x)

/-- While the tasks are at work the server watches what they have armed. -/
structure Resubmitting (R : Registry) (S : Set Spot) (ts : List Task) : Prop where
  nodup : (ts.map Task.spot).Nodup
  listed : ∀ κ, κ ∈ ts.map Task.spot ↔ κ ∈ R.spots
  won : ∀ κ, κ ∈ S ↔ ∃ t ∈ ts, t.spot = κ ∧ t.Won

/-- While the losses are sorted out, every watch is the server's, or was lost and will go. -/
structure Dropping (R : Registry) (S : Set Spot) (rs : List (Spot × Answer)) : Prop where
  covered : ∀ κ ∈ R.spots, κ ∈ S ∨ ∃ f, (κ, .error f) ∈ rs
  listed : S ⊆ R.spots
  lost : ∀ κ f, (κ, .error f) ∈ rs → κ ∉ S

/-- How the two sets may differ while a session event is handled. -/
def Between (exact : Prop) (R : Registry) (S : Set Spot) : Stage → Prop
  | .expiring | .expired => S = ∅
  | .resubmitting ts => Resubmitting R S ts
  | .dropping rs _ => Dropping R S rs
  | .reporting _ | .done => Agrees exact R S

theorem Task.not_won_of_unstarted {t : Task} (h : Backoff.isUnstarted t.stage = true) :
    ¬t.Won := by
  rintro ⟨x, hw⟩
  rw [hw] at h
  cases h

theorem map_spot_set {ts : List Task} {slot : Nat} {t : Task} (ht : ts[slot]? = some t)
    (b : Backoff.Stage) : (ts.set slot { t with stage := b }).map Task.spot = ts.map Task.spot := by
  obtain ⟨hlt, hget⟩ := List.getElem?_eq_some_iff.mp ht
  have hself := List.set_getElem_self (by simpa using hlt : slot < (ts.map Task.spot).length)
  rw [List.getElem_map, hget] at hself
  rw [List.map_set, hself]

theorem Resubmitting.set {ts : List Task} (h : Resubmitting R S ts) {slot : Nat} {t : Task}
    (ht : ts[slot]? = some t) (hn : ¬t.Won) (b : Backoff.Stage) {S' : Set Spot}
    (hS : ∀ κ, κ ∈ S' ↔ κ ∈ S ∨ κ = t.spot ∧ ∃ x, b = .ended (.ok x)) :
    Resubmitting R S' (ts.set slot { t with stage := b }) := by
  obtain ⟨hlt, _⟩ := List.getElem?_eq_some_iff.mp ht
  have hmap := map_spot_set ht b
  refine ⟨by rw [hmap]; exact h.nodup, fun κ => by rw [hmap]; exact h.listed κ, fun κ => ?_⟩
  rw [hS, h.won]
  constructor
  · rintro (⟨u, hu, hspot, hwon⟩ | ⟨rfl, hwon⟩)
    · obtain ⟨i, hi⟩ := List.mem_iff_getElem?.mp hu
      have hne : slot ≠ i := by
        rintro rfl
        rw [ht] at hi
        exact hn (Option.some.inj hi ▸ hwon)
      refine ⟨u, List.mem_iff_getElem?.mpr ⟨i, ?_⟩, hspot, hwon⟩
      rw [List.getElem?_set, if_neg hne, hi]
    · exact ⟨_, List.mem_set hlt _, rfl, hwon⟩
  · rintro ⟨u, hu, hspot, hwon⟩
    rcases List.mem_or_eq_of_mem_set hu with hu | rfl
    · exact .inl ⟨u, hu, hspot, hwon⟩
    · exact .inr ⟨hspot.symm, hwon⟩

theorem Resubmitting.set_lost {ts : List Task} (h : Resubmitting R S ts) {slot : Nat} {t : Task}
    (ht : ts[slot]? = some t) (hn : ¬t.Won) {b : Backoff.Stage} (hb : ∀ x, b ≠ .ended (.ok x)) :
    Resubmitting R S (ts.set slot { t with stage := b }) :=
  h.set ht hn b (by simp [hb])

theorem results?_eq_some {ts : List Task} {rs : List (Spot × Answer)}
    (h : results? ts = some rs) : ts = rs.map fun x => ⟨x.1, .ended x.2⟩ := by
  induction ts generalizing rs with
  | nil =>
    obtain rfl := Option.some.inj h
    rfl
  | cons t ts ih =>
    simp only [results?, List.mapM_cons, Option.bind_eq_bind, Option.bind_eq_some_iff,
      Option.pure_def, Option.some.injEq] at h
    obtain ⟨x, hx, xs, hxs, rfl⟩ := h
    obtain ⟨res, hres, rfl⟩ := Option.map_eq_some_iff.mp hx
    rw [List.map_cons, ← ih hxs]
    obtain ⟨spot, stage⟩ := t
    cases stage with
    | ended r =>
      obtain rfl := Option.some.inj hres
      rfl
    | unstarted | trying | pausing => cases hres

theorem Resubmitting.gathered {ts : List Task} (h : Resubmitting R S ts)
    {rs : List (Spot × Answer)} (hr : results? ts = some rs) : Dropping R S rs := by
  obtain rfl := results?_eq_some hr
  obtain ⟨hnodup, hlisted, hwon⟩ := h
  have hmap : (rs.map fun x => (⟨x.1, .ended x.2⟩ : Task)).map Task.spot = rs.map Prod.fst := by
    rw [List.map_map]
    rfl
  rw [hmap] at hnodup
  rw [hmap] at hlisted
  have hmem : ∀ κ, κ ∈ S ↔ ∃ x, (κ, .ok x) ∈ rs := by
    intro κ
    rw [hwon]
    constructor
    · rintro ⟨t, ht, rfl, x, hw⟩
      obtain ⟨⟨s, res⟩, hx, rfl⟩ := List.mem_map.mp ht
      obtain rfl : res = .ok x := Backoff.Stage.ended.inj hw
      exact ⟨x, hx⟩
    · rintro ⟨x, hx⟩
      exact ⟨_, List.mem_map_of_mem hx, rfl, x, rfl⟩
  refine ⟨fun κ hκ => ?_, fun κ hκ => ?_, fun κ f hf hκ => ?_⟩
  · obtain ⟨⟨s, res⟩, hx, rfl⟩ := List.mem_map.mp ((hlisted κ).mpr hκ)
    cases res with
    | ok x => exact .inl ((hmem s).mpr ⟨x, hx⟩)
    | error f => exact .inr ⟨f, hx⟩
  · obtain ⟨x, hx⟩ := (hmem κ).mp hκ
    exact (hlisted κ).mp (List.mem_map_of_mem hx)
  · obtain ⟨x, hx⟩ := (hmem κ).mp hκ
    have hinj := List.inj_on_of_nodup_map hnodup hf hx rfl
    cases hinj

theorem between_start {c : Client} (e : SessionEvent) (h : Agrees exact c.registry S) :
    Between exact (start e c).2.registry (if e = .expired then ∅ else S) (start e c).1 := by
  cases e with
  | disconnected => exact h
  | reconnected => exact h
  | expired => rfl

theorem between_recover {c : Client} :
    Between exact (recover c).2.registry ∅ (recover c).1 := by
  unfold recover
  dsimp only
  split
  · refine ⟨fun κ hκ => ?_, Set.empty_subset _, fun _ _ _ => Set.notMem_empty _⟩
    change κ ∈ Registry.empty.spots at hκ
    rw [Registry.spots_empty] at hκ
    exact absurd hκ (Set.notMem_empty κ)
  · change Resubmitting c.registry ∅ ((spots (c.registry.snapshot none)).map (Task.mk · .unstarted))
    have hmap : ((spots (c.registry.snapshot none)).map (Task.mk · .unstarted)).map Task.spot =
        spots (c.registry.snapshot none) := by
      rw [List.map_map]
      exact List.map_id _
    refine ⟨?_, fun κ => ?_, fun κ => ?_⟩
    · rw [hmap]
      exact c.registry.nodup_spots_snapshot
    · rw [hmap]
      exact Registry.mem_spots_snapshot
    · refine ⟨fun hκ => absurd hκ (Set.notMem_empty κ), ?_⟩
      rintro ⟨t, ht, _, hw⟩
      obtain ⟨s, _, rfl⟩ := List.mem_map.mp ht
      exact Task.not_won_of_unstarted rfl hw

theorem between_resume {p : Party} {c c' : Client} {st st' : Stage}
    (h : Between exact c.registry S st) (hm : resume p st c = some (st', c')) :
    Between exact c'.registry S st' := by
  cases resumed hm with
  | expiring => split <;> exact h
  | expired =>
    obtain rfl : S = ∅ := h
    exact between_recover
  | started before after t unstarted =>
    have hget : (before ++ t :: after)[before.length]? = some t := by simp
    have hset : (before ++ t :: after).set before.length
        { t with stage := .trying 1 c.settings.resubmit.baseDelayMs } =
        before ++ { t with stage := .trying 1 c.settings.resubmit.baseDelayMs } :: after := by simp
    change Resubmitting c.registry S _
    rw [← hset]
    exact Resubmitting.set_lost h hget (Task.not_won_of_unstarted unstarted) (by simp)
  | gathered ts rs results => exact Resubmitting.gathered h results
  | telling rs e es =>
    change Dropping (c.send p _).2.registry S rs
    rw [Client.registry_send]
    exact h
  | kept s rs =>
    obtain ⟨hcovered, hlisted, hlost⟩ := h
    refine ⟨fun κ hκ => (hcovered κ hκ).imp_right ?_, hlisted,
      fun κ f hf => hlost κ f (.tail _ hf)⟩
    rintro ⟨f, hf⟩
    exact ⟨f, (List.mem_cons.mp hf).resolve_left (by simp)⟩
  | dropped s f rs =>
    obtain ⟨hcovered, hlisted, hlost⟩ := h
    have hspots : ∀ κ, κ ∈ ((c.remark (.rearmAbandoned s.path s.kind f)).unregister .expired s.path
        (.only s.kind) .all).2.registry.spots ↔ κ ∈ c.registry.spots ∧ κ ≠ s := fun _ =>
      Registry.mem_spots_unregister_all
    refine ⟨fun κ hκ => ?_, fun κ hκ => ?_, fun κ f' hf => hlost κ f' (.tail _ hf)⟩
    · obtain ⟨hR, hne⟩ := (hspots κ).mp hκ
      refine (hcovered κ hR).imp_right ?_
      rintro ⟨f', hf⟩
      refine ⟨f', (List.mem_cons.mp hf).resolve_left ?_⟩
      intro he
      exact hne (Prod.mk.inj he).1
    · refine (hspots κ).mpr ⟨hlisted hκ, ?_⟩
      rintro rfl
      exact hlost κ f (.head _) hκ
  | restored =>
    obtain ⟨hcovered, hlisted, _⟩ := h
    exact ⟨fun κ hκ => (hcovered κ hκ).resolve_right (by simp), fun _ => hlisted⟩
  | reporting state =>
    rw [Client.registry_send]
    split <;> exact h

theorem failed_ne_won (policy : BackoffPolicy) (n delay : Nat) (f : Fault) (c : Client)
    (x : Response) : (Backoff.failed policy n delay f c).1 ≠ .ended (.ok x) := by
  simp only [Backoff.failed]
  split <;> simp

theorem between_answer {slot : Nat} {x : Answer} {q : Request} {limit : Option Nat} {c c' : Client}
    {st st' : Stage} {S' : Set Spot} (h : Between exact c.registry S st)
    (hm : answer slot x st c = some (st', c'))
    (hw : (waits c.settings.resubmit st)[slot]? = some (some (.answer q limit)))
    (hs : Serves S q x S') : Between exact c'.registry S' st' := by
  obtain ⟨ts, t, b, rfl, ht, hb, rfl⟩ := update_eq_some hm
  rw [waits, List.getElem?_map, ht, Option.map_some, Option.some.injEq] at hw
  have hreg := (Client.Aside.of_remarked (Backoff.remarked_answer hb)).registry
  change Resubmitting c'.registry S' _
  rw [hreg]
  obtain ⟨s, stage⟩ := t
  cases stage with
  | trying n d =>
    obtain ⟨rfl, _⟩ := Wait.answer.inj (Option.some.inj hw)
    have hn : ¬Task.Won ⟨s, .trying n d⟩ := by simp [Task.Won]
    cases hs with
    | registered path read y =>
      obtain ⟨rfl, _⟩ := Prod.mk.inj (Option.some.inj hb)
      refine Resubmitting.set h ht hn _ fun κ => ?_
      rw [Read.kind_rearming]
      change κ ∈ insert s S ↔ _
      simp [or_comm]
    | failed _ f fault =>
      obtain rfl : (Backoff.failed _ _ _ _ _).1 = b := congrArg Prod.fst (Option.some.inj hb)
      exact Resubmitting.set_lost h ht hn (failed_ne_won _ _ _ _ _)
  | unstarted | pausing | ended => cases hw

theorem between_timeOut {slot : Nat} {c c' : Client} {st st' : Stage}
    (h : Between exact c.registry S st) (hm : timeOut slot st c = some (st', c')) :
    Between exact c'.registry S st' := by
  obtain ⟨ts, t, b, rfl, ht, hb, rfl⟩ := update_eq_some hm
  have hreg := (Client.Aside.of_remarked (Backoff.remarked_timeOut hb)).registry
  change Resubmitting c'.registry S _
  rw [hreg]
  obtain ⟨s, stage⟩ := t
  cases stage with
  | trying n d =>
    obtain rfl : (Backoff.failed _ _ _ _ _).1 = b := congrArg Prod.fst (Option.some.inj hb)
    exact Resubmitting.set_lost h ht (by simp [Task.Won]) (failed_ne_won _ _ _ _ _)
  | unstarted | pausing | ended => cases hb

theorem between_retry {slot : Nat} {c c' : Client} {st st' : Stage}
    (h : Between exact c.registry S st) (hm : retry slot st c = some (st', c')) :
    Between exact c'.registry S st' := by
  obtain ⟨ts, t, b, rfl, ht, hb, rfl⟩ := update_eq_some hm
  obtain rfl := Backoff.submitted_retry hb
  obtain ⟨s, stage⟩ := t
  cases stage with
  | pausing n d =>
    obtain rfl : Backoff.Stage.trying _ _ = b := congrArg Prod.fst (Option.some.inj hb)
    exact Resubmitting.set_lost h ht (by simp [Task.Won]) (by simp)
  | unstarted | trying | ended => cases hb

end Session

/-- The order asks for a removal that leaves the server out. -/
def Order.isLocal : Order → Bool
  | .remove r => r.registryOnly
  | .enrol b => b.request.registryOnly
  | .arm _ | .notify _ | .session _ => false

/-- What the server watches when what it sends has led to this order. -/
def Order.leaves (o : Order) (S : Set Spot) : Set Spot :=
  match o with
  | .notify e => e.leaves S
  | .session e => if e = .expired then ∅ else S
  | .arm _ | .remove _ | .enrol _ => S

namespace Operation

variable {exact : Prop} {R : Registry} {S : Set Spot} {c c' : Client}

/-- How the two sets may differ while an operation is at work. -/
def Between (exact : Prop) (R : Registry) (S : Set Spot) : Operation → Prop
  | arming .. | notification _ => Agrees exact R S
  | enrolment b _ => Agrees exact R S ∧ (exact → b.request.registryOnly = false)
  | removal r st => Removal.Between r exact R S st
  | session st => Session.Between exact R S st

theorem Between.agrees {o : Operation} (h : o.Between exact R S) (hf : o.Finished) :
    Agrees exact R S := by
  cases o with
  | arming | notification => exact h
  | enrolment => exact h.1
  | removal r st => cases st <;> first | exact h | cases hf
  | session st => cases st <;> first | exact h | cases hf

theorem between_start (ho : c.closed = false) {exact' : Prop} (o : Order)
    (h : Agrees exact c.registry S) (hi : exact' → exact) (hl : exact' → o.isLocal = false) :
    (start o c).1.Between exact' (start o c).2.registry (o.leaves S) := by
  replace h := h.imp hi
  have hnotified : ∀ e, o = .notify e → (start o c).2.registry.spots = e.leaves c.registry.spots := by
    rintro e rfl
    exact Notification.spots_start ho e
  have hstart := started o c
  generalize start o c = x at hstart hnotified ⊢
  cases hstart with
  | unread | asked => exact h
  | removing r => exact Removal.between_start h hl
  | unenrolled | offering => exact ⟨h, hl⟩
  | announced e | fired e => exact h.leaves (hnotified e rfl)
  | handling e => exact Session.between_start e h
  | unremoved _ shut | ignored _ shut | unhandled _ shut =>
    rw [ho] at shut
    cases shut

theorem between_resume {o o' : Operation} {p : Party} (h : o.Between exact c.registry S)
    (hm : o.resume p c = some (o', c')) : o'.Between exact c'.registry S := by
  cases moves (m := .resume) hm with
  | removing r st st' c' resume => exact Removal.between_resume h resume
  | refused | enrolled | lining | notified => exact h
  | notifying d ds =>
    change Agrees exact (c.send p d).2.registry S
    rw [Client.registry_send]
    exact h
  | handling st st' c' resume => exact Session.between_resume h resume

theorem between_answer {o o' : Operation} {slot : Nat} {x : Answer} {q : Request}
    {limit : Option Nat} {S' : Set Spot} (h : o.Between exact c.registry S)
    (hm : o.answer slot x c = some (o', c'))
    (hw : (o.waits c.settings.resubmit)[slot]? = some (some (.answer q limit)))
    (hs : Serves S q x S') : o'.Between exact c'.registry S' := by
  cases moves (m := .answer slot x) (p := .remover) hm with
  | failed a f =>
    obtain ⟨rfl, _⟩ := Wait.answer.inj (Option.some.inj (Option.some.inj hw))
    cases hs with
    | failed => exact h
  | armed a y =>
    obtain ⟨rfl, _⟩ := Wait.answer.inj (Option.some.inj (Option.some.inj hw))
    cases hs with
    | registered =>
      have harm := Client.registry_arm c a.entry
      refine ⟨?_, fun hx => ?_⟩
      · rw [harm]
        exact Set.insert_subset_insert h.covered
      · rw [harm]
        exact Set.insert_subset_insert (h.exact_of hx)
  | settling r slot x st st' c' answer => exact Removal.between_answer h answer hw hs
  | answered slot x st st' c' answer => exact Session.between_answer h answer hw hs

theorem between_timeOut {o o' : Operation} {slot : Nat} (h : o.Between exact c.registry S)
    (hm : o.timeOut slot c = some (o', c')) : o'.Between exact c'.registry S := by
  cases moves (m := .timeOut slot) (p := .remover) hm with
  | timedOut slot st st' c' timeOut => exact Session.between_timeOut h timeOut

theorem between_retry {o o' : Operation} {slot : Nat} (h : o.Between exact c.registry S)
    (hm : o.retry slot c = some (o', c')) : o'.Between exact c'.registry S := by
  cases moves (m := .retry slot) (p := .remover) hm with
  | retried slot st st' c' retry => exact Session.between_retry h retry

end Operation

theorem Engine.spots_of_build {settings : Settings} {feed : Option Nat} {s : Engine}
    (h : Engine.build settings feed = .built s) : s.client.registry.spots = ∅ := by
  obtain ⟨d, r, _, _, rfl⟩ := Engine.build_eq h
  exact Registry.spots_empty

end NodeWatch
