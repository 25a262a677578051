import NodeWatch.Proofs.EntryConservation
import NodeWatch.Proofs.DeliveryTraffic

/-! What a client's acts rest on. It registers and asks for watches on checked paths only, it tells a
subscriber only of an entry that it took out before, and it calls user code only to carry out a
delivery that was queued. So the journal can be read backwards, from each thing in it to its grounds. -/

namespace NodeWatch

/-- A delivery to a subscriber tells of an entry that was taken out before. -/
def Announces (before : List Occurrence) (d : Delivery) : Prop :=
  d.isWatched = true → ∃ x ∈ takings before, x.announcement = d

/-- What an occurrence rests on, given what was noted before it. -/
def Occurrence.Rests (before : List Occurrence) : Occurrence → Prop
  | asked q => Path.validate q.path = .ok ()
  | armed e => Path.validate e.path = .ok ()
  | taken cause es => ∀ e ∈ es, Path.validate e.path = .ok () ∧ Consumption.Due ⟨cause, e⟩
  | queued d | dropped d => Announces before d
  | called x => ∃ d listeners, queued d ∈ before ∧ x ∈ d.calls listeners
  | settled .. | handling _ | recovering _ | remarked _ => True

/-- Everything noted, the latest first, rests on what was noted before it. -/
def Rested : List Occurrence → Prop
  | [] => True
  | o :: os => o.Rests os ∧ Rested os

theorem Announces.append {before : List Occurrence} {d : Delivery} (h : Announces before d)
    (os : List Occurrence) : Announces (os ++ before) d := by
  intro hd
  obtain ⟨x, hx, he⟩ := h hd
  refine ⟨x, ?_, he⟩
  rw [takings_append]
  exact List.mem_append_right _ hx

theorem announces_of_unwatched {before : List Occurrence} {d : Delivery} (h : d.isWatched = false) :
    Announces before d := by
  intro hd
  rw [h] at hd
  cases hd

theorem announces_taken {before : List Occurrence} {cause : Cause} {es : List Entry} {e : Entry}
    (he : e ∈ es) :
    Announces (.taken cause es :: before) (Consumption.announcement ⟨cause, e⟩) := by
  intro _
  exact ⟨⟨cause, e⟩, List.mem_append_left _ (List.mem_map_of_mem he), rfl⟩

theorem Rested.split {os : List Occurrence} (h : Rested os) {o : Occurrence} (ho : o ∈ os) :
    ∃ after before, os = after ++ o :: before ∧ o.Rests before := by
  induction os with
  | nil => cases ho
  | cons o' os ih =>
    rcases List.mem_cons.mp ho with rfl | ho
    · exact ⟨[], os, rfl, h.1⟩
    · obtain ⟨after, before, rfl, hrests⟩ := ih h.2 ho
      exact ⟨o' :: after, before, rfl, hrests⟩

theorem Rested.of_taken {os : List Occurrence} (h : Rested os) {x : Consumption}
    (hx : x ∈ takings os) : Path.validate x.entry.path = .ok () ∧ x.Due := by
  obtain ⟨o, ho, hx⟩ := List.mem_flatMap.mp hx
  obtain ⟨_, before, _, hrests⟩ := h.split ho
  cases o with
  | taken cause es =>
    obtain ⟨e, he, rfl⟩ := List.mem_map.mp hx
    exact hrests e he
  | _ => cases hx

theorem Rested.announced {os : List Occurrence} (h : Rested os) {d : Delivery}
    (hd : .queued d ∈ os ∨ .dropped d ∈ os) : Announces os d := by
  have hbefore : ∃ after before, os = after ++ before ∧ Announces before d := by
    rcases hd with hd | hd
    · obtain ⟨after, before, he, hrests⟩ := h.split hd
      exact ⟨after ++ [.queued d], before, by rw [he, List.append_assoc]; rfl, hrests⟩
    · obtain ⟨after, before, he, hrests⟩ := h.split hd
      exact ⟨after ++ [.dropped d], before, by rw [he, List.append_assoc]; rfl, hrests⟩
  obtain ⟨after, before, rfl, hannounces⟩ := hbefore
  exact hannounces.append after

namespace Client

structure Grounded (c : Client) : Prop where
  entries : ∀ e ∈ c.registry, Path.validate e.path = .ok ()
  journal : Rested c.journal
  items : ∀ d ∈ c.deliveries.items, .queued d ∈ c.journal

variable {c c' : Client}

theorem Grounded.of_eq (h : c.Grounded) (hr : c'.registry = c.registry)
    (hj : c'.journal = c.journal) (hd : c'.deliveries.items ⊆ c.deliveries.items) : c'.Grounded := by
  refine ⟨?_, ?_, ?_⟩
  · rw [hr]
    exact h.entries
  · rw [hj]
    exact h.journal
  · rw [hj]
    exact fun d hm => h.items d (hd hm)

theorem Grounded.note (h : c.Grounded) {o : Occurrence} (ho : o.Rests c.journal) :
    (c.note o).Grounded :=
  ⟨h.entries, ⟨ho, h.journal⟩, fun d hd => .tail _ (h.items d hd)⟩

theorem Grounded.remark (h : c.Grounded) (r : Remark) : (c.remark r).Grounded :=
  h.note trivial

theorem Grounded.of_remarked (h : c.Grounded) (hc : c.Remarked c') : c'.Grounded := by
  induction hc with
  | none => exact h
  | more _ r ih => exact ih.remark r

theorem Grounded.submit (h : c.Grounded) {q : Request} (hq : Path.validate q.path = .ok ()) :
    (c.submit q).Grounded :=
  h.note hq

theorem Grounded.count (h : c.Grounded) (m : Meter) (k : Nat) : (c.count m k).Grounded :=
  h.of_eq rfl rfl fun _ => id

theorem Grounded.settle (h : c.Grounded) (m : RemovalMode) (result : Except Fault (List Entry)) :
    (c.settle m result).Grounded :=
  (h.count _ 1).note trivial

theorem Grounded.arm (h : c.Grounded) {e : Entry} (he : Path.validate e.path = .ok ()) :
    (c.arm e).Grounded := by
  simp only [Client.arm]
  cases hi : c.registry.insert e.path e.kind e.subscriber with
  | mk new r =>
    cases new with
    | false => exact h
    | true =>
      refine ⟨fun f hf => ?_, ⟨he, h.journal⟩, fun d hd => .tail _ (h.items d hd)⟩
      have hinsert : f ∈ (c.registry.insert e.path e.kind e.subscriber).2 ↔ _ :=
        Registry.mem_insert
      rw [hi] at hinsert
      rcases hinsert.mp hf with rfl | hf
      · exact he
      · exact h.entries f hf

theorem Grounded.takeOut (h : c.Grounded) {cause : Cause} {path : String}
    {p : Kind → Subscriber → Bool}
    (hdue : ∀ e ∈ (c.registry.takeOut path p).1, Consumption.Due ⟨cause, e⟩)
    (hr : c'.registry = (c.registry.takeOut path p).2)
    (hj : c'.journal = .taken cause (c.registry.takeOut path p).1 :: c.journal)
    (hd : c'.deliveries = c.deliveries) : c'.Grounded := by
  refine ⟨fun e he => ?_, ?_, fun d hm => ?_⟩
  · rw [hr] at he
    exact h.entries e (Registry.mem_takeOut_snd.mp he).1
  · rw [hj]
    exact ⟨fun e he => ⟨h.entries e (Registry.mem_takeOut_fst.mp he).1, hdue e he⟩, h.journal⟩
  · rw [hd] at hm
    rw [hj]
    exact .tail _ (h.items d hm)

theorem Grounded.unregister (h : c.Grounded) (cause : Cause)
    (hdue : ∀ e, Consumption.Due ⟨cause, e⟩) (path : String) (kind : Selector) (target : Target) :
    (c.unregister cause path kind target).2.Grounded :=
  h.takeOut (fun e _ => hdue e) rfl rfl rfl

theorem Grounded.drain (h : c.Grounded) : c.drain.2.Grounded := by
  refine ⟨fun e he => ?_, ⟨fun e he => ⟨h.entries e (Registry.mem_snapshot.mp he), trivial⟩,
    h.journal⟩, fun d hd => .tail _ (h.items d hd)⟩
  change e ∈ Registry.empty at he
  rw [Registry.mem_iff, Registry.holders_empty] at he
  cases he

/-- Entries that a notification fires are at its path, and of a kind that it triggers. -/
theorem Grounded.fire (h : c.Grounded) {path : String} {e : WatchedEvent} (hp : e.path = some path) :
    (c.fire path e).2.Grounded ∧ ∀ x ∈ (c.fire path e).1,
      Announces (c.fire path e).2.journal (.watched x.subscriber x.kind e) := by
  have hdue : ∀ x ∈ (c.registry.takeTriggered path e.type).1, Consumption.Due ⟨.fired e, x⟩ := by
    intro x hx
    obtain ⟨_, hxp, hxk⟩ := Registry.mem_takeOut_fst.mp hx
    exact ⟨by rw [hp, hxp], by simpa using hxk⟩
  simp only [Client.fire]
  cases hf : c.registry.takeTriggered path e.type with
  | mk es r =>
    have hr : r = (c.registry.takeTriggered path e.type).2 := by rw [hf]
    have hes : es = (c.registry.takeTriggered path e.type).1 := by rw [hf]
    cases es with
    | nil =>
      refine ⟨⟨fun f hf' => ?_, h.journal, h.items⟩, by simp⟩
      change f ∈ r at hf'
      rw [hr] at hf'
      exact h.entries f (Registry.mem_takeOut_snd.mp hf').1
    | cons x xs =>
      refine ⟨h.takeOut hdue hr ?_ rfl, fun y hy => announces_taken hy⟩
      exact congrArg (fun es => Occurrence.taken (.fired e) es :: c.journal) hes

theorem Grounded.send (h : c.Grounded) {d : Delivery} (hd : Announces c.journal d) (p : Party) :
    (c.send p d).2.Grounded := by
  have hsent := c.sent p d
  generalize c.send p d = x at hsent ⊢
  obtain ⟨done, c₁⟩ := x
  cases hsent with
  | dropped refused => exact (h.remark .deliveryDropped).note (hd.append [_])
  | queued q offer opens =>
    refine ⟨h.entries, ⟨hd, h.journal⟩, fun d' hd' => ?_⟩
    change d' ∈ q.items at hd'
    rw [Queue.items_of_accepted offer, List.mem_append, List.mem_singleton] at hd'
    rcases hd' with hd' | rfl
    · exact .tail _ (h.items d' hd')
    · exact .head _
  | lined q offer opens =>
    exact h.of_eq rfl rfl fun d' hd' => Queue.items_of_mustWait offer ▸ hd'

theorem Grounded.apply (h : c.Grounded) (d : Deed) : (c.apply d).Grounded := by
  cases d <;> exact h.of_eq rfl rfl fun _ => id

theorem Grounded.call (h : c.Grounded) (conduct : Client → Call → Conduct) {x : Call} {d : Delivery}
    {listeners : List String} (hd : .queued d ∈ c.journal) (hx : x ∈ d.calls listeners) :
    (c.call conduct x).Grounded := by
  have hcalled : (c.note (.called x)).Grounded := h.note ⟨d, listeners, hd, hx⟩
  have hdone : ((conduct (c.note (.called x)) x).deeds.foldl Client.apply
      (c.note (.called x))).Grounded :=
    List.foldlRecOn (motive := Grounded) _ _ hcalled fun _ hc d _ => hc.apply d
  unfold Client.call
  dsimp only
  split
  · exact hdone.remark _
  · exact hdone

theorem Grounded.deliver (h : c.Grounded) (conduct : Client → Call → Conduct) {d : Delivery}
    (hd : .queued d ∈ c.journal) : (c.deliver conduct d).Grounded := by
  refine (List.foldlRecOn (motive := fun c' : Client => c'.Grounded ∧ .queued d ∈ c'.journal) _ _
    ⟨h, hd⟩ fun c' hc x hx => ⟨hc.1.call conduct hc.2 hx, ?_⟩).1
  obtain ⟨os, hj, _⟩ := (Runs.call conduct c' x).journal
  rw [hj]
  exact List.mem_append_right _ hc.2

end Client

/-- The paths that an operation may still ask about were checked. -/
def Operation.Checked : Operation → Prop
  | arming a .asked => Path.validate a.path = .ok ()
  | removal _ (.done _) => True
  | removal r _ => Path.validate r.path = .ok ()
  | session (.resubmitting ts) => ∀ t ∈ ts, Path.validate t.spot.path = .ok ()
  | arming _ (.done _) | enrolment .. | notification _ | session _ => True

/-- An operation that was begun on good grounds, and owes its deliveries. -/
structure Operation.Grounded (c : Client) (o : Operation) : Prop where
  checked : o.Checked
  owed : ∀ d ∈ o.agenda, Announces c.journal d

namespace Removal

variable {r : RemovalRequest} {p : Plan} {c c' : Client} {st st' : Stage}

/-- The entries that a removal has taken out so far were noted as taken out. -/
def Holds (x : Settlement × Client) : Prop :=
  x.2.Grounded ∧ ∀ e ∈ x.1.removed, Announces x.2.journal (.removed e .syncConnected)

theorem holds_takeOut {s : Settlement} (h : Holds (s, c)) (kind : Selector) {s' : Settlement}
    (hs : s'.removed = s.removed ++ (c.unregister .removed r.path kind r.target).1) :
    Holds (s', (c.unregister .removed r.path kind r.target).2) := by
  refine ⟨h.1.unregister .removed (fun _ => trivial) r.path kind r.target, fun e he => ?_⟩
  rw [hs, List.mem_append] at he
  rcases he with he | he
  · exact (h.2 e he).append [_]
  · exact announces_taken he

theorem holds_settleKind {x : Settlement × Client} (h : Holds x) (y : Kind × Answer) :
    Holds (settleKind r p x y) := by
  obtain ⟨s, c⟩ := x
  obtain ⟨k, a⟩ := y
  cases a with
  | ok _ => exact holds_takeOut h (.only k) rfl
  | error f =>
    simp only [settleKind]
    split
    · split
      · exact holds_takeOut h (.only k) rfl
      · split
        · exact h
        · exact h
    · exact ⟨h.1.remark _, fun e he => (h.2 e he).append [_]⟩

theorem holds_reconcile (h : c.Grounded) (p : Plan) (answers : List Answer) :
    Holds (reconcile r p answers c) := by
  have hasked : Holds ((p.server.zip answers).foldl (settleKind r p) (⟨[], [], none⟩, c)) :=
    List.foldlRecOn _ _ ⟨h, by simp⟩ fun _ hx y _ => holds_settleKind hx y
  have hhere : Holds (p.here.foldl (settleHere r)
      ((p.server.zip answers).foldl (settleKind r p) (⟨[], [], none⟩, c))) :=
    List.foldlRecOn _ _ hasked fun _ hx k _ => holds_takeOut hx (.only k) rfl
  exact hhere

theorem grounded_advance (h : c.Grounded) (hr : Path.validate r.path = .ok ()) (p : Plan)
    (answers : List (Option Answer)) :
    (advance r p answers c).2.Grounded ∧
      (Operation.removal r (advance r p answers c).1).Grounded (advance r p answers c).2 := by
  rcases advance_cases r p answers c with ⟨_, ha⟩ | ⟨as, _, _, ha⟩
  · rw [ha]
    exact ⟨h, hr, fun _ hd => by cases hd⟩
  · rw [ha]
    obtain ⟨hc, hremoved⟩ := holds_reconcile h p as
    refine ⟨hc, hr, fun d hd => ?_⟩
    obtain ⟨e, he, rfl⟩ := List.mem_map.mp hd
    exact hremoved e he

theorem grounded_start (h : c.Grounded) (r : RemovalRequest) :
    (start r c).2.Grounded ∧ (Operation.removal r (start r c).1).Grounded (start r c).2 := by
  have hend : ∀ (c₁ : Client), c₁.Grounded → ∀ result,
      (finish r result c₁).2.Grounded ∧
        (Operation.removal r (finish r result c₁).1).Grounded (finish r result c₁).2 :=
    fun c₁ h₁ result => ⟨h₁.settle _ _, trivial, fun _ hd => by cases hd⟩
  have htake : Holds (⟨(c.unregister .removed r.path r.kind r.target).1, [], none⟩,
      (c.unregister .removed r.path r.kind r.target).2) :=
    holds_takeOut (s := ⟨[], [], none⟩) ⟨h, by simp⟩ r.kind rfl
  have hstart := started r c
  generalize start r c = x at hstart ⊢
  cases hstart with
  | invalid => exact ⟨h, trivial, fun _ hd => by cases hd⟩
  | unmatched => exact hend _ htake.1 _
  | taken valid =>
    refine ⟨htake.1, valid, fun d hd => ?_⟩
    obtain ⟨e, he, rfl⟩ := List.mem_map.mp hd
    exact htake.2 e he
  | idle => exact hend c h _
  | asking valid => exact ⟨h, valid, fun _ hd => by cases hd⟩

theorem grounded_resume (h : c.Grounded) (ho : (Operation.removal r st).Grounded c) {party : Party}
    (hm : resume r party st c = some (st', c')) :
    c'.Grounded ∧ (Operation.removal r st').Grounded c' := by
  cases resumed hm with
  | asked p answers k next =>
    exact ⟨h.submit ho.checked, ho.checked, fun _ hd => by cases hd⟩
  | advanced p answers => exact grounded_advance h ho.checked p answers
  | told o => exact ⟨h, ho.checked, fun _ hd => by cases hd⟩
  | telling e es o =>
    have hd := ho.owed _ (.head _)
    refine ⟨h.send hd party, ho.checked, fun d hmem => ?_⟩
    obtain ⟨os, hj⟩ := (Client.Touched.send c party (.removed e .syncConnected)).journal
    rw [hj]
    refine (ho.owed d ?_).append os
    change d ∈ confirmations (if _ then es else e :: es) at hmem
    split at hmem
    · exact .tail _ hmem
    · exact hmem
  | finished o result => exact ⟨h.settle _ _, trivial, fun _ hd => by cases hd⟩
  | passed k ks o => exact ⟨h, ho.checked, fun _ hd => by cases hd⟩
  | rearming k ks o =>
    exact ⟨(h.remark _).submit ho.checked, ho.checked, fun _ hd => by cases hd⟩

theorem grounded_answer (h : c.Grounded) (ho : (Operation.removal r st).Grounded c) {slot : Nat}
    {x : Answer} (hm : answer r slot x st c = some (st', c')) :
    c'.Grounded ∧ (Operation.removal r st').Grounded c' := by
  cases st with
  | asking p answers =>
    cases replied hm with
    | advanced => exact grounded_advance h ho.checked p _
  | rearming k ks o =>
    obtain ⟨rfl, rfl | ⟨m, rfl⟩⟩ := answered_rearming hm
    · exact ⟨h, ho.checked, fun _ hd => by cases hd⟩
    · exact ⟨h.remark m, ho.checked, fun _ hd => by cases hd⟩
  | confirming | checking | done => cases hm

end Removal

namespace Session

variable {c c' : Client} {st st' : Stage}

theorem grounded_start (h : c.Grounded) (e : SessionEvent) :
    (start e c).2.Grounded ∧ (Operation.session (start e c).1).Grounded (start e c).2 := by
  have hn : (c.note (.handling e)).Grounded := h.note trivial
  have howed : ∀ {os : List Occurrence} (state : LinkState),
      ∀ d ∈ [Delivery.state (.linkChange state)], Announces os d := by
    intro os state d hd
    rw [List.mem_singleton.mp hd]
    exact announces_of_unwatched rfl
  cases e with
  | disconnected =>
    exact ⟨(hn.of_eq rfl rfl fun _ => id : Client.Grounded
      { c.note (.handling .disconnected) with connected := false }).remark _, trivial, howed _⟩
  | reconnected => exact ⟨hn.of_eq rfl rfl fun _ => id, trivial, howed _⟩
  | expired => exact ⟨hn.remark _, trivial, howed _⟩

theorem grounded_recover (h : c.Grounded) :
    (recover c).2.Grounded ∧ (Operation.session (recover c).1).Grounded (recover c).2 := by
  have hn : ((c.count (.recoveries c.settings.recovery) 1).note
      (.recovering c.settings.recovery)).Grounded :=
    (h.count _ 1).note trivial
  unfold recover
  dsimp only
  split
  · refine ⟨hn.drain, trivial, fun d hd => ?_⟩
    obtain ⟨e, he, rfl⟩ := List.mem_map.mp hd
    exact announces_taken he
  · refine ⟨hn, fun t ht => ?_, fun _ hd => by cases hd⟩
    obtain ⟨κ, hκ, rfl⟩ := List.mem_map.mp ht
    obtain ⟨e, he, rfl⟩ := mem_spots.mp hκ
    exact hn.entries e (Registry.mem_snapshot.mp he)

theorem grounded_resume (h : c.Grounded) (ho : (Operation.session st).Grounded c) {p : Party}
    (hm : resume p st c = some (st', c')) :
    c'.Grounded ∧ (Operation.session st').Grounded c' := by
  have hstate : ∀ (os : List Occurrence) (state : LinkState),
      Announces os (.state (.linkChange state)) := fun os state => announces_of_unwatched rfl
  cases resumed hm with
  | expiring =>
    refine ⟨h.send (hstate _ _) p, ?_, fun d hd => ?_⟩
    · split <;> exact trivial
    · split at hd
      · cases hd
      · rw [List.mem_singleton.mp hd]
        exact hstate _ _
  | expired => exact grounded_recover h
  | started before after t unstarted =>
    have hchecked : ∀ u ∈ before ++ t :: after, Path.validate u.spot.path = .ok () := ho.checked
    refine ⟨h.submit (hchecked t (List.mem_append_right _ (.head _))), fun u hu => ?_,
      fun _ hd => by cases hd⟩
    rcases List.mem_append.mp hu with hu | hu
    · exact hchecked u (List.mem_append_left _ hu)
    · rcases List.mem_cons.mp hu with rfl | hu
      · exact hchecked t (List.mem_append_right _ (.head _))
      · exact hchecked u (List.mem_append_right _ (.tail _ hu))
  | gathered => exact ⟨h, trivial, fun _ hd => by cases hd⟩
  | telling rs e es =>
    refine ⟨h.send (ho.owed _ (.head _)) p, trivial, fun d hd => ?_⟩
    obtain ⟨os, hj⟩ := (Client.Touched.send c p (.removed e .expired)).journal
    rw [hj]
    refine (ho.owed d ?_).append os
    change d ∈ List.map (Delivery.removed · .expired) (if _ then es else e :: es) at hd
    split at hd
    · exact .tail _ hd
    · exact hd
  | kept => exact ⟨h, trivial, fun _ hd => by cases hd⟩
  | dropped s f rs =>
    refine ⟨(h.remark _).unregister .expired (fun _ => trivial) _ _ _, trivial, fun d hd => ?_⟩
    obtain ⟨e, he, rfl⟩ := List.mem_map.mp hd
    exact announces_taken he
  | restored =>
    refine ⟨h.of_eq rfl rfl fun _ => id, trivial, fun d hd => ?_⟩
    rw [List.mem_singleton.mp hd]
    exact hstate _ _
  | reporting state =>
    refine ⟨h.send (hstate _ _) p, ?_, fun d hd => ?_⟩
    · split <;> exact trivial
    · split at hd
      · cases hd
      · rw [List.mem_singleton.mp hd]
        exact hstate _ _

theorem checked_task {ts : List Task} {slot : Nat} {t : Task}
    (ho : (Operation.session (.resubmitting ts)).Grounded c) (ht : ts[slot]? = some t) :
    Path.validate t.spot.path = .ok () := by
  have hchecked : ∀ u ∈ ts, Path.validate u.spot.path = .ok () := ho.checked
  exact hchecked t (List.mem_of_getElem? ht)

theorem grounded_update {slot : Nat} {f : Task → Client → Option (Backoff.Stage × Client)}
    (ho : (Operation.session st).Grounded c) (hm : update slot f st c = some (st', c')) :
    (Operation.session st').Grounded c' := by
  obtain ⟨ts, t, b, rfl, ht, _, rfl⟩ := update_eq_some hm
  have hchecked : ∀ u ∈ ts, Path.validate u.spot.path = .ok () := ho.checked
  have hspot := checked_task ho ht
  refine ⟨fun u hu => ?_, fun _ hd => by cases hd⟩
  rcases List.mem_or_eq_of_mem_set hu with hu | rfl
  · exact hchecked u hu
  · exact hspot

end Session

namespace Operation

variable {c c' : Client} {o o' : Operation}

theorem grounded_start (h : c.Grounded) (o : Order) :
    (start o c).2.Grounded ∧ (start o c).1.Grounded (start o c).2 := by
  have hover : ∀ {o : Operation}, o.Checked → o.agenda = [] → o.Grounded c := by
    intro o hchecked hagenda
    refine ⟨hchecked, fun d hd => ?_⟩
    rw [hagenda] at hd
    cases hd
  have hstart := started o c
  generalize start o c = x at hstart ⊢
  cases hstart with
  | unread | unremoved | unenrolled | offering | ignored | unhandled => exact ⟨h, hover trivial rfl⟩
  | asked a _ valid => exact ⟨h.submit valid, valid, fun _ hd => by cases hd⟩
  | removing r => exact Removal.grounded_start h r
  | announced e =>
    refine ⟨h, trivial, fun d hd => ?_⟩
    rw [List.mem_singleton.mp hd]
    exact announces_of_unwatched rfl
  | fired e path _ place =>
    obtain ⟨hc, hfired⟩ := h.fire place
    refine ⟨hc, trivial, fun d hd => ?_⟩
    obtain ⟨x, hx, rfl⟩ := List.mem_map.mp hd
    exact hfired x hx
  | handling e => exact Session.grounded_start h e

theorem grounded_move (h : c.Grounded) (ho : o.Grounded c) {m : Move} {p : Party}
    (hm : o.move m p c = some (o', c')) : c'.Grounded ∧ o'.Grounded c' := by
  cases moves hm with
  | failed => exact ⟨h, trivial, fun _ hd => by cases hd⟩
  | armed a => exact ⟨h.arm ho.checked, trivial, fun _ hd => by cases hd⟩
  | removing r st st' c' resume => exact Removal.grounded_resume h ho resume
  | settling r slot x st st' c' answer => exact Removal.grounded_answer h ho answer
  | refused => exact ⟨h, trivial, fun _ hd => by cases hd⟩
  | enrolled | lining => exact ⟨h.of_eq rfl rfl fun _ => id, trivial, fun _ hd => by cases hd⟩
  | notified => exact ⟨h, trivial, fun _ hd => by cases hd⟩
  | notifying d ds =>
    refine ⟨h.send (ho.owed d (.head _)) p, trivial, fun d' hd' => ?_⟩
    obtain ⟨os, hj⟩ := (Client.Touched.send c p d).journal
    rw [hj]
    refine (ho.owed d' ?_).append os
    change d' ∈ (if _ then ds else d :: ds) at hd'
    split at hd'
    · exact .tail _ hd'
    · exact hd'
  | handling st st' c' resume => exact Session.grounded_resume h ho resume
  | answered slot x st st' c' answer =>
    exact ⟨h.of_remarked (Session.remarked_answer answer), Session.grounded_update ho answer⟩
  | timedOut slot st st' c' timeOut =>
    exact ⟨h.of_remarked (Session.remarked_timeOut timeOut), Session.grounded_update ho timeOut⟩
  | retried slot st st' c' retry =>
    refine ⟨?_, Session.grounded_update ho retry⟩
    obtain ⟨ts, t, b, rfl, ht, hb, _⟩ := Session.update_eq_some retry
    rw [Backoff.submitted_retry hb]
    exact h.submit (Session.checked_task ho ht)

theorem Grounded.grown (ho : o.Grounded c) (h : ∃ os, c'.journal = os ++ c.journal) :
    o.Grounded c' := by
  obtain ⟨os, hj⟩ := h
  refine ⟨ho.checked, fun d hd => ?_⟩
  rw [hj]
  exact (ho.owed d hd).append os

end Operation

namespace Engine

variable {s t : Engine} {a : Action}

structure Grounded (s : Engine) : Prop where
  client : s.client.Grounded
  tasks : ∀ p o, s.task? p = some o → o.Grounded s.client

theorem grounded_change (h : s.Grounded) (hc : Change s a t) : t.client.Grounded := by
  cases hc with
  | begun o => exact (Operation.grounded_start h.client o).1
  | moved p m o o' c action task move =>
    rw [client_put]
    exact (Operation.grounded_move h.client (h.tasks p o task) move).1
  | concluded b r => exact h.client.of_remarked (Worker.remarked_conclude b r s.client)
  | reported f e sent c worker send =>
    have hc : c = (s.client.send .remover (.completion f e)).2 := by rw [send]
    change c.Grounded
    rw [hc]
    exact h.client.send (announces_of_unwatched rfl) .remover
  | dispatched conduct d q dispatching take =>
    have hitems := Queue.items_take take
    have hq : Client.Grounded { s.client with deliveries := q } := by
      refine h.client.of_eq rfl rfl fun d' hd' => ?_
      rw [hitems]
      exact .tail _ hd'
    refine hq.deliver conduct (h.client.items d ?_)
    rw [hitems]
    exact .head _
  | silenced =>
    exact (h.client.remark _).of_eq rfl rfl (List.nil_subset _)
  | took | stirred | deafened | fed | feedEnded | released | collected =>
    exact h.client.of_eq rfl rfl fun _ => id
  | retired =>
    exact h.client.of_eq rfl rfl fun d hd => Queue.items_withdraw s.client.deliveries .remover ▸ hd
  | undertook b => exact (Removal.grounded_start h.client b.request).1
  | lagged => exact h.client.remark _
  | heard e => exact (Session.grounded_start h.client e).1
  | performed d => exact h.client.apply d
  | abandoned id =>
    exact h.client.of_eq rfl rfl fun d hd => Queue.items_withdraw s.client.deliveries (.caller id) ▸ hd

theorem grounded_act (hs : s.Orderly) (h : s.Grounded) (ha : act a s = some t) : t.Grounded := by
  refine ⟨?_, fun p o htask => ?_⟩
  · rcases act_change_or_shutdown ha with hc | ⟨_, hc⟩
    · exact grounded_change h hc
    · cases hc with
      | dispatching => exact h.client.of_eq rfl rfl (List.nil_subset _)
      | worker =>
        exact h.client.of_eq rfl rfl fun d hd => Queue.items_withdraw s.client.deliveries .remover ▸ hd
      | listener => exact h.client
  · have hgrown := (touched_act ha).journal
    cases course hs ha with
    | started q o₁ party free task client others =>
      by_cases hq : p = q
      · subst hq
        obtain rfl := Option.some.inj (task.symm.trans htask)
        rw [client]
        exact (Operation.grounded_start h.client o₁).2
      · exact (h.tasks p o ((others p hq).symm.trans htask)).grown hgrown
    | moved q m o₁ o' party task move after others =>
      by_cases hq : p = q
      · subst hq
        rcases after with after | ⟨_, _, after⟩
        · obtain rfl := Option.some.inj (after.symm.trans htask)
          exact (Operation.grounded_move h.client (h.tasks p o₁ task) move).2
        · rw [after] at htask
          cases htask
      · exact (h.tasks p o ((others p hq).symm.trans htask)).grown hgrown
    | beside kept =>
      rcases kept p with hk | ⟨hk, _⟩
      · exact (h.tasks p o (hk.symm.trans htask)).grown hgrown
      · rw [hk] at htask
        cases htask

theorem grounded_initial (settings : Settings) (d : Queue Delivery) (r : Queue BackgroundRemoval)
    (feed : Option Nat) (hd : d.items = []) : (initial settings d r feed).Grounded := by
  refine ⟨⟨fun e he => ?_, ?_, fun d' hd' => ?_⟩, fun p o ho => ?_⟩
  · change e ∈ Registry.empty at he
    rw [Registry.mem_iff, Registry.holders_empty] at he
    cases he
  · change Rested (if _ then _ else _)
    split
    · exact ⟨trivial, trivial⟩
    · exact trivial
  · change d' ∈ d.items at hd'
    rw [hd] at hd'
    cases hd'
  · cases p with
    | caller id => cases ho
    | remover => cases ho
    | listener => cases feed <;> cases ho

theorem Reachable.grounded {settings : Settings} {feed : Option Nat}
    (h : Reachable settings feed s) : s.Grounded := by
  induction h with
  | built h =>
    obtain ⟨d, r, hd, _, rfl⟩ := build_eq h
    refine grounded_initial settings d r feed ?_
    rw [(Queue.ofCapacity_eq_ok.mp hd).2.2]
  | step a hs h ih => exact grounded_act hs.orderly ih h

/-- No event that consumes a watch announces a removal. -/
theorem not_removal_of_triggers {k : Kind} {type : EventType} (h : k ∈ type.triggered) :
    type.isRemoval = false := by
  cases type <;> first | rfl | cases h

theorem announced_of_kind (k : Kind) :
    (Selector.only k).announced.isRemoval = true ∧
      (Selector.only k).removedEvent? = some (Selector.only k).announced := by
  cases k <;> exact ⟨rfl, rfl⟩

/-- What a subscriber is told is told of an entry of its own, and says that a watch was removed just in
case that entry was. -/
theorem told_of_rested {os : List Occurrence} (h : Rested os) {sub : Subscriber} {k : Kind}
    {ev : WatchedEvent} (hd : .queued (.watched sub k ev) ∈ os ∨ .dropped (.watched sub k ev) ∈ os) :
    ∃ cause path, (⟨cause, path, k, sub⟩ : Consumption) ∈ takings os ∧ ev.path = some path ∧
      Path.validate path = .ok () ∧
      (ev.type.isRemoval = true ↔ cause = .removed ∧ ev.state = .syncConnected ∨
        cause = .expired ∧ ev.state = .expired) ∧
      (ev.type.isRemoval = true → (Selector.only k).removedEvent? = some ev.type) := by
  obtain ⟨⟨cause, path, k', sub'⟩, hx, he⟩ := h.announced hd rfl
  obtain ⟨hvalid, hdue⟩ := h.of_taken hx
  obtain ⟨hremoval, hown⟩ := announced_of_kind k'
  cases cause with
  | fired event =>
    obtain ⟨rfl, rfl, rfl⟩ := Delivery.watched.inj he
    have hnot := not_removal_of_triggers hdue.2
    refine ⟨_, path, hx, hdue.1, hvalid, ?_, ?_⟩
    · simp [hnot]
    · simp [hnot]
  | removed =>
    obtain ⟨rfl, rfl, rfl⟩ := Delivery.watched.inj he
    exact ⟨_, path, hx, rfl, hvalid, iff_of_true hremoval (.inl ⟨rfl, rfl⟩), fun _ => hown⟩
  | expired =>
    obtain ⟨rfl, rfl, rfl⟩ := Delivery.watched.inj he
    exact ⟨_, path, hx, rfl, hvalid, iff_of_true hremoval (.inr ⟨rfl, rfl⟩), fun _ => hown⟩

/-- Whatever goes on, and whatever the server notifies of: only watches of one kind on checked paths are
registered and asked for, and a subscriber is told of a removal or an expiry for an entry of its own that
was removed or expired, by the event of that entry's kind. -/
theorem only_checked_watches {settings : Settings} {feed : Option Nat}
    (h : Reachable settings feed s) :
    (∀ e ∈ s.client.registry,
      Path.validate e.path = .ok () ∧ (Selector.only e.kind).isConcrete = true) ∧
    (∀ q, .asked q ∈ s.client.journal →
      Path.validate q.path = .ok () ∧ (Selector.only q.kind).isConcrete = true) ∧
    (∀ sub k ev, .queued (.watched sub k ev) ∈ s.client.journal ∨
        .dropped (.watched sub k ev) ∈ s.client.journal →
      ∃ cause path, (⟨cause, path, k, sub⟩ : Consumption) ∈ takings s.client.journal ∧
        ev.path = some path ∧ Path.validate path = .ok () ∧
        (ev.type.isRemoval = true ↔ cause = .removed ∧ ev.state = .syncConnected ∨
          cause = .expired ∧ ev.state = .expired) ∧
        (ev.type.isRemoval = true → (Selector.only k).removedEvent? = some ev.type)) ∧
    ∀ x, .called x ∈ s.client.journal →
      ∃ d listeners, .queued d ∈ s.client.journal ∧ x ∈ d.calls listeners := by
  have hclient := h.grounded.client
  refine ⟨fun e he => ⟨hclient.entries e he, rfl⟩, fun q hq => ?_,
    fun sub k ev hd => told_of_rested hclient.journal hd, fun x hx => ?_⟩
  · obtain ⟨_, _, _, hrests⟩ := hclient.journal.split hq
    exact ⟨hrests, rfl⟩
  · obtain ⟨after, before, he, d, listeners, hd, hcalls⟩ := hclient.journal.split hx
    refine ⟨d, listeners, ?_, hcalls⟩
    rw [he]
    exact List.mem_append_right _ (.tail _ hd)

/-- A server that announces removals of its own accord, on whatever path, removes nothing; the watch
that is then removed is asked for by its own kind, and announced by its own event. -/
theorem children_removed_as_children :
    ∃ s, Reachable {} none s ∧
      .asked (.remove "/a" .children) ∈ s.client.journal ∧ Path.validate "/a" = .ok () ∧
      .called (.watcher (.named "w") ⟨.childWatchRemoved, .syncConnected, some "/a"⟩) ∈
        s.client.journal ∧
      (⟨.removed, "/a", .children, .watcher (.named "w")⟩ : Consumption) ∈
        takings s.client.journal := by
  have hrun : (follow [.begin (.arm ⟨.listing, "/a", .watcher (.named "w")⟩),
      .answer (.caller 0) 0 (.ok (.listing [])),
      .begin (.notify ⟨.dataWatchRemoved, .syncConnected, some "/a"⟩),
      .begin (.notify ⟨.nodeDeleted, .syncConnected, some "a//"⟩),
      .begin (.remove ⟨"/a", .any, .all, false, false⟩), .resume (.caller 3),
      .answer (.caller 3) 0 (.ok .removed), .resume (.caller 3),
      .dispatch fun _ _ => {}] fresh).any (fun t =>
      decide (.asked (.remove "/a" .children) ∈ t.client.journal) &&
      decide (.queued (.watched (.watcher (.named "w")) .children
        ⟨.childWatchRemoved, .syncConnected, some "/a"⟩) ∈ t.client.journal) &&
      decide (.called (.watcher (.named "w") ⟨.childWatchRemoved, .syncConnected, some "/a"⟩) ∈
        t.client.journal)) = true := by
    decide +kernel
  obtain ⟨t, ht, hrun⟩ := (Option.any_eq_true _ _).mp hrun
  simp only [Bool.and_eq_true, decide_eq_true_eq] at hrun
  obtain ⟨⟨hasked, hqueued⟩, hcalled⟩ := hrun
  have hreachable := reachable_of_fresh ht
  obtain ⟨_, hrequests, htold, _⟩ := only_checked_watches hreachable
  obtain ⟨cause, path, htaken, hpath, _, hcause, _⟩ := htold _ _ _ (.inl hqueued)
  obtain rfl := Option.some.inj hpath
  obtain ⟨rfl, _⟩ | ⟨_, hstate⟩ := hcause.mp rfl
  · exact ⟨t, hreachable, hasked, (hrequests _ hasked).1, hcalled, htaken⟩
  · cases hstate

end Engine

end NodeWatch
