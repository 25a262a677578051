import NodeWatch.Proofs.SpotAgreement
import NodeWatch.Proofs.Chronicle
import NodeWatch.Proofs.EntryConservation
import NodeWatch.Proofs.DeliveryTraffic

/-! What a recovery drops. It decides from a snapshot which paths and kinds to arm again, and drops by
path and kind, much later, whatever it could not arm. What it finds there by then may have been
registered since. -/

namespace NodeWatch

open Session (Spot)

/-- A session event is handled. -/
def Operation.isSession : Operation → Bool
  | session _ => true
  | _ => false

/-- On this page a path and kind was given up. -/
def Page.GivesUp (pg : Page) (κ : Spot) : Prop :=
  ∃ f, .remarked (.rearmAbandoned κ.path κ.kind f) ∈ pg.noted

def Page.Takes (pg : Page) (e : Entry) : Prop :=
  ∃ cause es, .taken cause es ∈ pg.noted ∧ e ∈ es

namespace Session

variable {c c' : Client} {os : List Occurrence} {ds : List Delivery} {ps : List Page}
  {st st' : Stage}

/-- The paths and kinds that a recovery still sees to. -/
def Stage.spots : Stage → List Spot
  | .resubmitting ts => ts.map Task.spot
  | .dropping rs _ => rs.map Prod.fst
  | .expiring | .expired | .reporting _ | .done => []

def Stage.isBefore : Stage → Bool
  | .expiring | .expired => true
  | .resubmitting _ | .dropping .. | .reporting _ | .done => false

/-- What a page of a recovery drops: the entries it found at one path and kind, which were watched when
the snapshot was taken and are now given up. -/
structure Drops (snapshot pg : Page) : Prop where
  cause : ∀ cause es, .taken cause es ∈ pg.noted → cause = .expired
  taken : ∀ e, pg.Takes e ↔ e ∈ pg.before ∧ pg.GivesUp e.spot
  surveyed : ∀ κ, pg.GivesUp κ → κ ∈ snapshot.before.spots

/-- What these occurrences owe to subscribers, and what they say to them. -/
def due (os : List Occurrence) : Multiset Delivery :=
  (takings os).map Consumption.announcement

def said (os : List Occurrence) : Multiset Delivery :=
  tellings os

theorem due_append (os js : List Occurrence) : due (os ++ js) = due os + due js := by
  rw [due, takings_append, List.map_append, ← Multiset.coe_add]
  rfl

theorem said_append (os js : List Occurrence) : said (os ++ js) = said os + said js := by
  rw [said, tellings_append, ← Multiset.coe_add]
  rfl

theorem due_expired (es : List Entry) (os : List Occurrence) :
    due (.taken .expired es :: os) = ↑(es.map (Delivery.removed · .expired)) + due os := by
  rw [← List.singleton_append, due_append]
  congr 1
  simp [due, takings, Occurrence.consumptions, Consumption.announcement, Function.comp_def]

/-- What there is to say of the pages after a snapshot, of the snapshot's own page and of those before
it. -/
structure Surveyed (st : Stage) (later : List Page) (snapshot : Page) (earlier : List Page) : Prop where
  noted : snapshot.noted = [.recovering .resubmitAll]
  spots : ∀ κ ∈ st.spots, κ ∈ snapshot.before.spots
  drops : ∀ pg ∈ later, Drops snapshot pg
  untaken : ∀ pg ∈ earlier, takings pg.noted = []

/-- How the handling of a session event stands to the pages it wrote, the latest first. -/
structure Traced (st : Stage) (ps : List Page) : Prop where
  fresh : st.isBefore = true → ∀ pg ∈ ps, (∀ policy, .recovering policy ∉ pg.noted) ∧
    takings pg.noted = []
  survey : ∀ later snapshot earlier, ps = later ++ snapshot :: earlier →
    .recovering .resubmitAll ∈ snapshot.noted → Surveyed st later snapshot earlier
  told : said (ps.flatMap Page.noted) + pending st ≤ due (ps.flatMap Page.noted)

/-- Nothing is taken, announced, given up or begun. -/
def Mute (o : Occurrence) : Prop :=
  o.consumptions = [] ∧ (∀ cause es, o ≠ .taken cause es) ∧ (∀ policy, o ≠ .recovering policy) ∧
    ∀ path k f, o ≠ .remarked (.rearmAbandoned path k f)

theorem drops_of_mute (snapshot : Page) {pg : Page} (h : ∀ o ∈ pg.noted, Mute o) :
    Drops snapshot pg := by
  have hgives : ∀ κ, ¬pg.GivesUp κ := by
    rintro κ ⟨f, hf⟩
    exact (h _ hf).2.2.2 _ _ _ rfl
  refine ⟨fun cause es ho => absurd rfl ((h _ ho).2.1 cause es), fun e => ?_,
    fun κ hκ => absurd hκ (hgives κ)⟩
  refine iff_of_false ?_ fun he => hgives _ he.2
  rintro ⟨cause, es, ho, _⟩
  exact (h _ ho).2.1 cause es rfl

theorem Traced.write (h : Traced st ps) {pg : Page}
    (hrec : ∀ policy, .recovering policy ∉ pg.noted)
    (hspots : ∀ κ ∈ st'.spots, κ ∈ st.spots)
    (hfresh : st'.isBefore = true → st.isBefore = true ∧ takings pg.noted = [])
    (hdrops : ∀ snapshot ∈ ps, (∀ κ ∈ st.spots, κ ∈ snapshot.before.spots) → Drops snapshot pg)
    (htold : said pg.noted + pending st' ≤ pending st + due pg.noted) :
    Traced st' (pg :: ps) := by
  refine ⟨fun hb pg' hpg => ?_, ?_, ?_⟩
  · rcases List.mem_cons.mp hpg with rfl | hpg
    · exact ⟨hrec, (hfresh hb).2⟩
    · exact h.fresh (hfresh hb).1 pg' hpg
  · intro later snapshot earlier he hr
    cases later with
    | nil =>
      obtain ⟨rfl, rfl⟩ := List.cons_eq_cons.mp he
      exact absurd hr (hrec _)
    | cons y later =>
      obtain ⟨rfl, rfl⟩ := List.cons_eq_cons.mp he
      obtain ⟨hnoted, hs, hd, hu⟩ := h.survey later snapshot earlier rfl hr
      refine ⟨hnoted, fun κ hκ => hs κ (hspots κ hκ), fun pg' hpg => ?_, hu⟩
      rcases List.mem_cons.mp hpg with rfl | hpg
      · exact hdrops snapshot (List.mem_append_right _ (.head _)) hs
      · exact hd pg' hpg
  · rw [List.flatMap_cons, said_append, due_append]
    calc said pg.noted + said (ps.flatMap Page.noted) + pending st'
        = said pg.noted + pending st' + said (ps.flatMap Page.noted) := add_right_comm _ _ _
      _ ≤ pending st + due pg.noted + said (ps.flatMap Page.noted) := add_le_add_left htold _
      _ = due pg.noted + (said (ps.flatMap Page.noted) + pending st) := by
          rw [add_comm (pending st), add_assoc, add_comm (pending st)]
      _ ≤ due pg.noted + due (ps.flatMap Page.noted) := add_le_add_right h.told _

theorem takings_of_mute {os : List Occurrence} (h : ∀ o ∈ os, Mute o) : takings os = [] :=
  List.flatMap_eq_nil_iff.mpr fun o ho => (h o ho).1

theorem Traced.mutter (h : Traced st ps) {pg : Page} (hm : ∀ o ∈ pg.noted, Mute o)
    (hspots : ∀ κ ∈ st'.spots, κ ∈ st.spots) (hfresh : st'.isBefore = true → st.isBefore = true)
    (htold : said pg.noted + pending st' ≤ pending st) : Traced st' (pg :: ps) := by
  refine h.write (fun policy ho => (hm _ ho).2.2.1 policy rfl) hspots
    (fun hb => ⟨hfresh hb, takings_of_mute hm⟩) (fun snapshot _ _ => drops_of_mute snapshot hm) ?_
  exact htold.trans (Multiset.le_add_right _ _)

theorem noted_send {p : Party} {d : Delivery} (hj : (c.send p d).2.journal = os ++ c.journal) :
    (∀ o ∈ os, Mute o) ∧
      ((c.send p d).1 = true ∧ said os ≤ said [.queued d] ∨ (c.send p d).1 = false ∧ said os = 0) := by
  simp only [Client.send] at hj ⊢
  split at hj
  · obtain rfl : [.dropped d, .remarked .deliveryDropped] = os := List.append_cancel_right hj
    exact ⟨by simp [Mute, Occurrence.consumptions], .inl ⟨rfl, Multiset.zero_le _⟩⟩
  · obtain rfl : [.queued d] = os := List.append_cancel_right hj
    exact ⟨by simp [Mute, Occurrence.consumptions], .inl ⟨rfl, le_rfl⟩⟩
  · obtain rfl := List.self_eq_append_left.mp hj
    exact ⟨by simp, .inr ⟨rfl, rfl⟩⟩

theorem noted_send_state {p : Party} {event : WatchedEvent}
    (hj : (c.send p (.state event)).2.journal = os ++ c.journal) :
    (∀ o ∈ os, Mute o) ∧ said os = 0 := by
  obtain ⟨hmute, ⟨_, hsaid⟩ | ⟨_, hsaid⟩⟩ := noted_send hj
  · exact ⟨hmute, Multiset.le_zero.mp hsaid⟩
  · exact ⟨hmute, hsaid⟩

/-- The first page of a recovery itself. -/
theorem Traced.survey_anew (h : Traced .expired ps) {pg : Page} (hb : st'.isBefore = false)
    (hs : .recovering .resubmitAll ∈ pg.noted →
      pg.noted = [.recovering .resubmitAll] ∧ ∀ κ ∈ st'.spots, κ ∈ pg.before.spots)
    (htold : said pg.noted + pending st' ≤ due pg.noted) : Traced st' (pg :: ps) := by
  have hfresh := h.fresh rfl
  refine ⟨fun hb' => by simp [hb] at hb', ?_, ?_⟩
  · intro later snapshot earlier he hr
    cases later with
    | nil =>
      obtain ⟨rfl, rfl⟩ := List.cons_eq_cons.mp he
      exact ⟨(hs hr).1, (hs hr).2, by simp, fun pg' hpg => (hfresh pg' hpg).2⟩
    | cons y later =>
      obtain ⟨rfl, rfl⟩ := List.cons_eq_cons.mp he
      exact absurd hr ((hfresh snapshot (List.mem_append_right _ (.head _))).1 _)
  · have htold' : said (ps.flatMap Page.noted) ≤ due (ps.flatMap Page.noted) := by
      simpa [pending] using h.told
    rw [List.flatMap_cons, said_append, due_append, add_right_comm]
    exact add_le_add htold htold'

theorem traced_recover (h : Traced .expired ps)
    (hj : (recover c).2.journal = os ++ c.journal) :
    Traced (recover c).1 (⟨c.registry, os, ds⟩ :: ps) := by
  cases hp : c.settings.recovery with
  | dropAll =>
    rw [recover_dropAll hp] at hj ⊢
    obtain rfl : [.taken .expired (c.registry.snapshot none), .recovering .dropAll] = os :=
      List.append_cancel_right hj
    refine h.survey_anew rfl (by simp) (le_of_eq ?_)
    rw [due_expired]
    exact (zero_add _).trans (add_zero _).symm
  | resubmitAll =>
    rw [recover_resubmitAll hp] at hj ⊢
    obtain rfl : [.recovering .resubmitAll] = os := List.append_cancel_right hj
    refine h.survey_anew rfl (fun _ => ⟨rfl, fun κ hκ => ?_⟩) le_rfl
    simp only [Stage.spots, List.map_map, Function.comp_def, List.map_id'] at hκ
    exact Registry.mem_spots_snapshot.mp hκ

theorem traced_resume {p : Party} (h : Traced st ps) (hm : resume p st c = some (st', c'))
    (hj : c'.journal = os ++ c.journal) : Traced st' (⟨c.registry, os, ds⟩ :: ps) := by
  cases resumed hm with
  | expiring =>
    obtain ⟨hmute, hsaid⟩ := noted_send_state hj
    refine h.mutter hmute (by split <;> simp [Stage.spots]) (fun _ => rfl) ?_
    rw [hsaid]
    split <;> exact le_rfl
  | expired => exact traced_recover h hj
  | started before after t unstarted =>
    obtain rfl : [.asked t.spot.request] = os := List.append_cancel_right hj
    refine h.mutter (by simp [Mute, Occurrence.consumptions]) ?_ id le_rfl
    simp [Stage.spots]
  | gathered ts rs results =>
    obtain rfl := List.self_eq_append_left.mp hj
    obtain rfl := results?_eq_some results
    refine h.mutter (by simp) ?_ id le_rfl
    simp [Stage.spots]
  | telling rs e es =>
    obtain ⟨hmute, hsaid⟩ := noted_send hj
    refine h.mutter hmute (fun _ => id) id ?_
    rw [pending_dropping_cons]
    rcases hsaid with ⟨hsent, hsaid⟩ | ⟨hsent, hsaid⟩
    · rw [hsent]
      exact add_le_add_left hsaid _
    · rw [hsent, hsaid, zero_add]
      exact le_rfl
  | kept s rs =>
    obtain rfl := List.self_eq_append_left.mp hj
    exact h.mutter (by simp) (fun κ hκ => .tail _ hκ) id le_rfl
  | dropped s f rs =>
    let es := (c.registry.unregister s.path (.only s.kind) .all).1
    obtain rfl : [.taken .expired es, .remarked (.rearmAbandoned s.path s.kind f)] = os :=
      List.append_cancel_right hj
    have hes : ∀ e, e ∈ es ↔ e ∈ c.registry ∧ e.spot = s := by
      intro e
      obtain ⟨path, k⟩ := s
      refine Registry.mem_takeOut_fst.trans (and_congr_right fun _ => ?_)
      simp [Selector.selects, Selector.kinds, Target.selects, Entry.spot]
    have hgives : ∀ κ, (⟨c.registry, [.taken .expired es,
        .remarked (.rearmAbandoned s.path s.kind f)], ds⟩ : Page).GivesUp κ ↔ κ = s := by
      rintro ⟨path, k⟩
      obtain ⟨path', k'⟩ := s
      simp [Page.GivesUp]
    refine h.write (by simp) (fun κ hκ => .tail _ hκ) (fun hbefore => by cases hbefore)
      (fun snapshot hsnapshot hs => ?_) ?_
    · refine ⟨by simp, fun e => ?_, fun κ hκ => ?_⟩
      · rw [hgives, ← hes]
        simp [Page.Takes]
      · rw [(hgives κ).mp hκ]
        exact hs s (.head _)
    · rw [due_expired]
      exact le_of_eq ((zero_add _).trans ((add_zero _).symm.trans (zero_add _).symm))
  | restored =>
    obtain rfl := List.self_eq_append_left.mp hj
    exact h.mutter (by simp) (by simp [Stage.spots]) (by simp [Stage.isBefore]) le_rfl
  | reporting state =>
    obtain ⟨hmute, hsaid⟩ := noted_send_state hj
    refine h.mutter hmute (by split <;> simp [Stage.spots]) (by split <;> simp [Stage.isBefore]) ?_
    rw [hsaid]
    split <;> exact le_rfl

theorem traced_anew (hm : ∀ o ∈ os, Mute o) (hsaid : said os = 0)
    (hpending : pending st = 0) (reg : Registry) : Traced st [⟨reg, os, ds⟩] := by
  have hnone : ∀ pg ∈ [(⟨reg, os, ds⟩ : Page)], ∀ policy, .recovering policy ∉ pg.noted := by
    intro pg hpg policy ho
    rw [List.mem_singleton.mp hpg] at ho
    exact (hm _ ho).2.2.1 policy rfl
  refine ⟨fun _ pg hpg => ⟨hnone pg hpg, ?_⟩, ?_, ?_⟩
  · rw [List.mem_singleton.mp hpg]
    exact takings_of_mute hm
  · intro later snapshot earlier he hr
    exact absurd hr (hnone snapshot (he ▸ List.mem_append_right _ (.head _)) _)
  · rw [List.flatMap_singleton, hsaid, hpending]
    exact Multiset.zero_le _

theorem traced_start (e : SessionEvent) (hj : (startOpen e c).2.journal = os ++ c.journal)
    (reg : Registry) : Traced (startOpen e c).1 [⟨reg, os, ds⟩] := by
  by_cases hc : c.closed
  · simp only [startOpen, if_pos hc] at hj ⊢
    obtain rfl := List.self_eq_append_left.mp hj
    exact traced_anew (by simp [Mute, Occurrence.consumptions]) rfl rfl reg
  · simp only [startOpen, if_neg hc] at hj ⊢
    cases e with
    | disconnected =>
      obtain rfl : [.remarked _, .handling .disconnected] = os := List.append_cancel_right hj
      exact traced_anew (by simp [Mute, Occurrence.consumptions]) rfl rfl reg
    | reconnected =>
      obtain rfl : [.handling .reconnected] = os := List.append_cancel_right hj
      exact traced_anew (by simp [Mute, Occurrence.consumptions]) rfl rfl reg
    | expired =>
      obtain rfl : [.remarked _, .handling .expired] = os := List.append_cancel_right hj
      exact traced_anew (by simp [Mute, Occurrence.consumptions]) rfl rfl reg

theorem traced_backoff {slot : Nat} {f : Task → Client → Option (Backoff.Stage × Client)}
    (h : Traced st ps) (hm : update slot f st c = some (st', c'))
    (hf : ∀ t b, f t c = some (b, c') → ∀ o ∈ os, Mute o ∧ o.announced? = none) (reg : Registry) :
    Traced st' (⟨reg, os, ds⟩ :: ps) := by
  obtain ⟨ts, t, b, rfl, ht, hb, rfl⟩ := update_eq_some hm
  have hmute := hf t b hb
  have hsaid : said os = 0 := by
    rw [said, tellings, List.filterMap_eq_nil_iff.mpr fun o ho => (hmute o ho).2]
    rfl
  refine h.mutter (fun o ho => (hmute o ho).1) (fun κ hκ => ?_) id ?_
  · rwa [Stage.spots, map_spot_set ht b] at hκ
  · rw [hsaid]
    exact le_rfl

/-- What an attempt leaves in the log is no part of a recovery's account. -/
theorem mute_attempt {policy : BackoffPolicy} {n delay : Nat} {f : Fault} {r : Remark}
    (hr : ∀ path k f, r ≠ .rearmAbandoned path k f)
    (hj : (Backoff.failed policy n delay f (c.remark r)).2.journal = os ++ c.journal) :
    ∀ o ∈ os, Mute o ∧ o.announced? = none := by
  have hremark : ∀ r' : Remark, (∀ path k f, r' ≠ .rearmAbandoned path k f) →
      Mute (.remarked r') ∧ (Occurrence.remarked r').announced? = none := by
    intro r' hr'
    exact ⟨⟨rfl, by simp, by simp, by simpa using hr'⟩, rfl⟩
  simp only [Backoff.failed] at hj
  split at hj
  · obtain rfl : [.remarked r] = os := List.append_cancel_right hj
    simpa using hremark r hr
  · obtain rfl : [.remarked (.gaveUp n), .remarked r] = os := List.append_cancel_right hj
    simpa using ⟨hremark (.gaveUp n) (by simp), hremark r hr⟩

theorem mute_answer {policy : BackoffPolicy} {x : Answer} {b b' : Backoff.Stage}
    (hm : Backoff.answer policy x b c = some (b', c')) (hj : c'.journal = os ++ c.journal) :
    ∀ o ∈ os, Mute o ∧ o.announced? = none := by
  simp only [Backoff.answer] at hm
  split at hm
  · obtain ⟨_, rfl⟩ := Prod.mk.inj (Option.some.inj hm)
    obtain rfl := List.self_eq_append_left.mp hj
    simp
  · obtain rfl : (Backoff.failed policy _ _ _ _).2 = c' := congrArg Prod.snd (Option.some.inj hm)
    exact mute_attempt (by simp) hj
  · cases hm

theorem mute_timeOut {policy : BackoffPolicy} {b b' : Backoff.Stage}
    (hm : Backoff.timeOut policy b c = some (b', c')) (hj : c'.journal = os ++ c.journal) :
    ∀ o ∈ os, Mute o ∧ o.announced? = none := by
  simp only [Backoff.timeOut] at hm
  split at hm
  · obtain rfl : (Backoff.failed policy _ _ _ _).2 = c' := congrArg Prod.snd (Option.some.inj hm)
    exact mute_attempt (by simp) hj
  · cases hm

end Session

namespace Operation

variable {c c' : Client} {os : List Occurrence}

def Traced (o : Operation) (ps : List Page) : Prop :=
  ∀ st, o = .session st → Session.Traced st ps

theorem traced_start (o : Order) (hj : (start o c).2.journal = os ++ c.journal) (reg : Registry) :
    (start o c).1.Traced [⟨reg, os, ds⟩] := by
  intro st ho
  cases o with
  | session e =>
    obtain rfl := Operation.session.inj ho
    exact Session.traced_start e hj reg
  | arm | remove | enrol | notify => cases ho

theorem traced_move {o o' : Operation} {m : Move} {p : Party} {ps : List Page} (h : o.Traced ps)
    (hm : o.move m p c = some (o', c')) (hj : c'.journal = os ++ c.journal) :
    o'.Traced (⟨c.registry, os, ds⟩ :: ps) := by
  intro st' ho
  cases moves hm with
  | handling st st₁ c' resume =>
    obtain rfl := Operation.session.inj ho
    exact Session.traced_resume (h st rfl) resume hj
  | answered slot x st st₁ c' answer =>
    obtain rfl := Operation.session.inj ho
    exact Session.traced_backoff (h st rfl) answer (fun t b hb => Session.mute_answer hb hj) _
  | timedOut slot st st₁ c' timeOut =>
    obtain rfl := Operation.session.inj ho
    exact Session.traced_backoff (h st rfl) timeOut (fun t b hb => Session.mute_timeOut hb hj) _
  | retried slot st st₁ c' retry =>
    obtain rfl := Operation.session.inj ho
    refine Session.traced_backoff (h st rfl) retry (fun t b hb => ?_) _
    rw [Backoff.submitted_retry hb] at hj
    obtain rfl : [.asked t.spot.request] = os := List.append_cancel_right hj
    simp [Session.Mute, Occurrence.consumptions, Occurrence.announced?]
  | failed | armed | removing | settling | refused | enrolled | lining | notified | notifying =>
    cases ho

end Operation

namespace Chronicle

variable {w v : Chronicle} {n : Nat} {since : List (Option Nat × Page)} {snapshot pg : Page}
  {e : Entry}

/-- What a page does not register was there when it was begun. -/
def Linked (reg : Registry) : List (Option Nat × Page) → Prop
  | [] => True
  | x :: xs => (∀ e ∈ reg, .armed e ∉ x.2.noted → e ∈ x.2.before) ∧ Linked x.2.before xs

theorem Linked.of_append {reg : Registry} {xs ys : List (Option Nat × Page)}
    {x : Option Nat × Page} (h : Linked reg (xs ++ x :: ys)) : Linked x.2.before ys := by
  induction xs generalizing reg with
  | nil => exact h.2
  | cons y xs ih => exact ih h.2

theorem Linked.mem_of_mem {reg : Registry} {xs ys : List (Option Nat × Page)}
    {x : Option Nat × Page} (h : Linked reg (xs ++ x :: ys)) (he : e ∈ reg)
    (hn : ∀ y ∈ xs, .armed e ∉ y.2.noted) (hx : .armed e ∉ x.2.noted) : e ∈ x.2.before := by
  induction xs generalizing reg with
  | nil => exact h.1 e he hx
  | cons y xs ih => exact ih h.2 (h.1 e he (hn y (.head _))) fun z hz => hn z (.tail _ hz)

theorem linked_run {s : Engine} (hs : (opening s).Numbered)
    (h : Relation.ReflTransGen Step (opening s) w) : Linked w.engine.client.registry w.pages := by
  induction h with
  | refl => trivial
  | tail h hstep ih =>
    obtain ⟨a, ha⟩ := hstep
    obtain ⟨t, hact, hv⟩ := continued (journal_run hs h).1 ha
    obtain ⟨rfl, n, hpages⟩ := hv.turned
    rw [hpages]
    exact ⟨fun e he hn => (Engine.touched_act hact).mem_of_mem (noted_page hact) he hn, ih⟩

theorem traced_run {s : Engine} (hs : (opening s).Numbered)
    (h : Relation.ReflTransGen Step (opening s) w) :
    ∀ n o, w.operations[n]? = some o → Operation.Traced o (w.own n) := by
  induction h with
  | refl => simp [opening]
  | tail h hstep ih =>
    obtain ⟨a, ha⟩ := hstep
    refine tells_act (journal_run hs h).1 ha (fun o os ds hj => Operation.traced_start o hj _)
      (fun p m o o' c os ds ps _ hm hj hps => Operation.traced_move hps hm hj) ?_ ih
    intro r st ps pg _ _ st' ho
    cases ho

/-- An operation began a recovery that arms the watches again, and these are the pages written since,
the latest first. -/
structure Recovery (w : Chronicle) (n : Nat) (since : List (Option Nat × Page)) (snapshot : Page) :
    Prop where
  handling : ∃ st, w.operations[n]? = some (.session st)
  began : .recovering .resubmitAll ∈ snapshot.noted
  pages : ∃ earlier, w.pages = since ++ (some n, snapshot) :: earlier

/-- A page of the recovery finds an entry that was registered after the snapshot. -/
def Newcomer (n : Nat) (since : List (Option Nat × Page)) (pg : Page) (e : Entry) : Prop :=
  ∃ after between, since = after ++ (some n, pg) :: between ∧ e ∈ pg.before ∧
    ∃ x ∈ between, .armed e ∈ x.2.noted

theorem Newcomer.found (h : Newcomer n since pg e) : (some n, pg) ∈ since ∧ e ∈ pg.before := by
  obtain ⟨after, between, rfl, he, _⟩ := h
  exact ⟨List.mem_append_right _ (.head _), he⟩

theorem own_of_append {earlier : List (Option Nat × Page)}
    (h : w.pages = since ++ (some n, snapshot) :: earlier) :
    ∃ later before, w.own n = later ++ snapshot :: before ∧
      ∀ pg, pg ∈ later ↔ (some n, pg) ∈ since := by
  refine ⟨(since.filter fun x => x.1 = some n).map Prod.snd,
    (earlier.filter fun x => x.1 = some n).map Prod.snd, ?_, fun pg => ?_⟩
  · rw [own, h, List.filter_append, List.filter_cons_of_pos (by simp), List.map_append,
      List.map_cons]
  · simp

/-- What a page of the recovery finds was there at the snapshot, or has been registered since. -/
theorem Recovery.mem_or_newcomer {reg : Registry} (hr : w.Recovery n since snapshot)
    (hlinked : Linked reg w.pages) (hnoted : snapshot.noted = [.recovering .resubmitAll])
    (hpg : (some n, pg) ∈ since) (he : e ∈ pg.before) :
    e ∈ snapshot.before ∨ Newcomer n since pg e := by
  obtain ⟨earlier, hpages⟩ := hr.pages
  obtain ⟨after, between, rfl⟩ := List.append_of_mem hpg
  by_cases harmed : ∃ x ∈ between, .armed e ∈ x.2.noted
  · exact .inr ⟨after, between, rfl, he, harmed⟩
  · rw [hpages, List.append_assoc] at hlinked
    refine .inl (Linked.mem_of_mem (Linked.of_append hlinked) he (fun y hy ha => ?_) ?_)
    · exact harmed ⟨y, hy, ha⟩
    · simp [hnoted]

/-- A recovery that arms the watches again drops what it finds, by then, at the paths and kinds that
it could not arm. So it drops only what the old session has lost exactly when it finds nothing there
that was registered after its snapshot. Every one of its announcements is owed to what it dropped. -/
theorem newcomers_spared_iff {settings : Settings} {feed : Option Nat} {s : Engine}
    (hs : Engine.build settings feed = .built s)
    (h : Relation.ReflTransGen Step (opening s) w) (hr : w.Recovery n since snapshot) :
    ((∀ pg, (some n, pg) ∈ since → ∀ e, pg.Takes e →
        e ∈ snapshot.before ∧ ¬Newcomer n since pg e) ↔
      ∀ pg e, Newcomer n since pg e → ¬pg.GivesUp e.spot) ∧
    (∀ pg, (some n, pg) ∈ since → (∀ κ, pg.GivesUp κ → κ ∈ snapshot.before.spots) ∧
      ∀ e, pg.Takes e ↔ e ∈ pg.before ∧ pg.GivesUp e.spot) ∧
    (∀ x ∈ w.takings n, x.cause = .expired ∧ ∃ pg, (some n, pg) ∈ since ∧ pg.Takes x.entry) ∧
    (w.tellings n : Multiset Delivery) ≤ (w.takings n).map Consumption.announcement := by
  have hopening := numbered_opening hs
  obtain ⟨st, hst⟩ := hr.handling
  obtain ⟨earlier, hpages⟩ := hr.pages
  obtain ⟨later, before, hown, hlater⟩ := own_of_append hpages
  have htraced := traced_run hopening h n _ hst st rfl
  obtain ⟨hnoted, _, hdrops, huntaken⟩ := htraced.survey later snapshot before hown hr.began
  have htakes : ∀ pg, (some n, pg) ∈ since → ∀ e, pg.Takes e ↔ e ∈ pg.before ∧ pg.GivesUp e.spot :=
    fun pg hpg => (hdrops pg ((hlater pg).mpr hpg)).taken
  refine ⟨⟨fun hspared pg e hnew hgives => ?_, fun hspared pg hpg e he => ?_⟩,
    fun pg hpg => ⟨(hdrops pg ((hlater pg).mpr hpg)).surveyed, htakes pg hpg⟩, fun x hx => ?_, ?_⟩
  · obtain ⟨hpg, hfound⟩ := hnew.found
    exact (hspared pg hpg e ((htakes pg hpg e).mpr ⟨hfound, hgives⟩)).2 hnew
  · obtain ⟨hfound, hgives⟩ := (htakes pg hpg e).mp he
    have hold : ¬Newcomer n since pg e := fun hnew => hspared pg e hnew hgives
    have hlinked := linked_run hopening h
    exact ⟨(hr.mem_or_newcomer hlinked hnoted hpg hfound).resolve_right hold, hold⟩
  · rw [takings, deeds, hown, List.flatMap_append, List.flatMap_cons, hnoted] at hx
    obtain ⟨o, ho, hx⟩ := List.mem_flatMap.mp hx
    rcases List.mem_append.mp ho with ho | ho
    · obtain ⟨pg, hpg, ho⟩ := List.mem_flatMap.mp ho
      cases o with
      | taken cause es =>
        obtain ⟨e, he, rfl⟩ := List.mem_map.mp hx
        exact ⟨(hdrops pg hpg).cause cause es ho, pg, (hlater pg).mp hpg, cause, es, ho, he⟩
      | _ => cases hx
    · rcases List.mem_append.mp ho with ho | ho
      · rw [List.mem_singleton.mp ho] at hx
        cases hx
      · obtain ⟨pg, hpg, ho⟩ := List.mem_flatMap.mp ho
        have hin : x ∈ NodeWatch.takings pg.noted := List.mem_flatMap.mpr ⟨o, ho, hx⟩
        rw [huntaken pg hpg] at hin
        cases hin
  · rw [tellings_run hopening h, Multiset.coe_reverse]
    exact (Multiset.le_add_right _ _).trans htraced.told

theorem split_at {α : Type} {l : List α} {k : Nat} {x : α} (h : l[k]? = some x) :
    l = l.take k ++ x :: l.drop (k + 1) := by
  obtain ⟨hk, rfl⟩ := List.getElem?_eq_some_iff.mp h
  rw [← List.drop_eq_getElem_cons hk, List.take_append_drop]

theorem newcomer_at {k : Nat} (h : since[k]? = some (some n, pg)) (he : e ∈ pg.before)
    (ha : ∃ x ∈ since.drop (k + 1), .armed e ∈ x.2.noted) : Newcomer n since pg e :=
  ⟨_, _, split_at h, he, ha⟩

/-- A watch is armed while a recovery is about to fail to arm the only one there was. -/
theorem exists_crossing {path : String} {es : List Entry}
    (h : path = "/a" ∧
        es = [⟨"/a", .data, .watcher (.named "w1")⟩, ⟨"/a", .data, .watcher (.named "w2")⟩] ∨
      path = "/b" ∧ es = [⟨"/a", .data, .watcher (.named "w1")⟩]) :
    ∃ s w since snapshot pg, Engine.build { resubmit := { maxRetries := 1 } } none = .built s ∧
      Relation.ReflTransGen Step (opening s) w ∧ w.Recovery 1 since snapshot ∧
      Newcomer 1 since pg ⟨path, .data, .watcher (.named "w2")⟩ ∧
      pg.noted =
        [.taken .expired es, .remarked (.rearmAbandoned "/a" .data .connectionLoss)] := by
  have hrun : ∃ s, Engine.build { resubmit := { maxRetries := 1 } } none = .built s ∧
      (follow [.begin (.arm ⟨.presence, "/a", .watcher (.named "w1")⟩),
        .answer (.caller 0) 0 (.ok (.presence true)), .begin (.session .expired),
        .resume (.caller 1), .resume (.caller 1), .resume (.caller 1),
        .begin (.arm ⟨.presence, path, .watcher (.named "w2")⟩),
        .answer (.caller 2) 0 (.ok (.presence true)),
        .answer (.caller 1) 0 (.error .connectionLoss), .resume (.caller 1), .resume (.caller 1)]
          (opening s)).any (fun w =>
        (w.operations[1]?).any Operation.isSession &&
        (w.pages[6]?).any (fun x => decide (x.1 = some 1 ∧ .recovering .resubmitAll ∈ x.2.noted)) &&
        (w.pages[0]?).any (fun x => decide (x.1 = some 1 ∧
          .watcher (.named "w2") ∈ x.2.before.holders path .data ∧ x.2.noted =
            [.taken .expired es, .remarked (.rearmAbandoned "/a" .data .connectionLoss)])) &&
        decide (∃ x ∈ (w.pages.take 6).drop 1,
          .armed ⟨path, .data, .watcher (.named "w2")⟩ ∈ x.2.noted)) = true := by
    refine ⟨_, rfl, ?_⟩
    rcases h with ⟨rfl, rfl⟩ | ⟨rfl, rfl⟩ <;> decide +kernel
  obtain ⟨s, hb, hrun⟩ := hrun
  obtain ⟨w, hw, hc⟩ := (Option.any_eq_true _ _).mp hrun
  simp only [Bool.and_eq_true, decide_eq_true_eq, Option.any_eq_true] at hc
  obtain ⟨⟨⟨⟨o, ho, hsession⟩, ⟨_, snapshot⟩, hsnapshot, rfl, hbegan⟩, ⟨_, pg⟩, hpg, rfl, hheld,
    hnoted⟩, harmed⟩ := hc
  refine ⟨s, w, w.pages.take 6, snapshot, pg, hb, Onward.steps (onward_of_follow hw),
    ⟨?_, hbegan, _, split_at hsnapshot⟩, newcomer_at (k := 0) ?_ hheld harmed, hnoted⟩
  · cases o with
    | session st => exact ⟨st, ho⟩
    | arming | removal | enrolment | notification => cases hsession
  · rw [List.getElem?_take_of_lt (by decide)]
    exact hpg

/-- A watch at another path, armed while the recovery is about to fail, is spared. -/
theorem newcomer_elsewhere_spared :
    ∃ s w since snapshot pg, Engine.build { resubmit := { maxRetries := 1 } } none = .built s ∧
      Relation.ReflTransGen Step (opening s) w ∧ w.Recovery 1 since snapshot ∧
      Newcomer 1 since pg ⟨"/b", .data, .watcher (.named "w2")⟩ ∧
      ¬pg.Takes ⟨"/b", .data, .watcher (.named "w2")⟩ ∧
      ⟨"/a", .data⟩ ∈ snapshot.before.spots := by
  obtain ⟨s, w, since, snapshot, pg, hb, hrun, hr, hnew, hnoted⟩ :=
    exists_crossing (.inr ⟨rfl, rfl⟩)
  obtain ⟨_, hpages, _⟩ := newcomers_spared_iff hb hrun hr
  obtain ⟨hsurveyed, htakes⟩ := hpages pg hnew.found.1
  refine ⟨s, w, since, snapshot, pg, hb, hrun, hr, hnew, fun he => ?_, hsurveyed _ ?_⟩
  · obtain ⟨f, hf⟩ := ((htakes _).mp he).2
    simp [hnoted, Entry.spot] at hf
  · exact ⟨.connectionLoss, by simp [hnoted]⟩

/-- A watch armed during a recovery is dropped by it: the server accepted its read, and failed the
recovery's own. -/
theorem newcomer_dropped :
    ¬∀ (settings : Settings) (feed : Option Nat) (s : Engine) (w : Chronicle) (n : Nat)
      (since : List (Option Nat × Page)) (snapshot pg : Page) (e : Entry),
      Engine.build settings feed = .built s → Relation.ReflTransGen Step (opening s) w →
      w.Recovery n since snapshot → Newcomer n since pg e → ¬pg.Takes e := by
  obtain ⟨s, w, since, snapshot, pg, hb, hrun, hr, hnew, hnoted⟩ :=
    exists_crossing (.inl ⟨rfl, rfl⟩)
  have htaken : .taken .expired [⟨"/a", .data, .watcher (.named "w1")⟩,
      ⟨"/a", .data, .watcher (.named "w2")⟩] ∈ pg.noted := by
    rw [hnoted]
    exact .head _
  intro h
  exact h _ _ s w 1 since snapshot pg _ hb hrun hr hnew ⟨_, _, htaken, by simp⟩

end Chronicle

end NodeWatch
