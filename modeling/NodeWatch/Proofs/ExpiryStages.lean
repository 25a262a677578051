import NodeWatch.Proofs.RecoveryAttempts

/-! The handling of an expired session from its beginning to its end: what is queued, what is asked,
what is left of the registry, and that the end is always reached. -/

namespace NodeWatch

open Session (Spot Task)

namespace Session

variable {results before rs : List (Spot × Answer)}

/-- The task of this path and kind ended in failure. -/
def failed (results : List (Spot × Answer)) (κ : Spot) : Bool :=
  results.any fun x => x.1 = κ && !x.2.isOk

/-- The entries of the paths and kinds whose tasks failed, task by task. -/
def casualties (r : Registry) (results : List (Spot × Answer)) : List Entry :=
  results.flatMap fun x => if x.2.isOk then [] else r.entriesAt x.1

theorem failed_append (before rs : List (Spot × Answer)) (κ : Spot) :
    failed (before ++ rs) κ = (failed before κ || failed rs κ) :=
  List.any_append

theorem failed_error (before : List (Spot × Answer)) (s κ : Spot) (f : Fault) :
    failed (before ++ [(s, .error f)]) κ = (failed before κ || decide (s = κ)) := by
  rw [failed_append]
  simp [failed, Except.isOk, Except.toBool]

theorem casualties_append (r : Registry) (before rs : List (Spot × Answer)) :
    casualties r (before ++ rs) = casualties r before ++ casualties r rs :=
  List.flatMap_append

theorem not_failed_of_nodup {κ : Spot} {result : Answer}
    (h : ((before ++ (κ, result) :: rs).map Prod.fst).Nodup) : failed before κ = false := by
  rw [List.map_append, List.map_cons, List.nodup_middle, List.nodup_cons] at h
  rw [failed, List.any_eq_false]
  intro x hx hk
  have hx1 : x.1 = κ := of_decide_eq_true ((Bool.and_eq_true _ _).mp hk).1
  exact h.1 (List.mem_append_left _ (List.mem_map.mpr ⟨x, hx, hx1⟩))

theorem failed_of_mem (h : (results.map Prod.fst).Nodup) {x : Spot × Answer}
    (hx : x ∈ results) : failed results x.1 = !x.2.isOk := by
  obtain ⟨before, rs, rfl⟩ := List.append_of_mem hx
  have hafter : failed rs x.1 = false := by
    rw [List.map_append, List.map_cons, List.nodup_middle, List.nodup_cons] at h
    rw [failed, List.any_eq_false]
    intro y hy hk
    have hy1 : y.1 = x.1 := of_decide_eq_true ((Bool.and_eq_true _ _).mp hk).1
    exact h.1 (List.mem_append_right _ (hy1 ▸ List.mem_map_of_mem hy))
  have hbefore : failed before x.1 = false := not_failed_of_nodup h
  rw [failed_append, hbefore]
  rw [failed] at hafter
  simp [failed, hafter]

/-- The casualties are entries of the snapshot, in its order. -/
theorem casualties_eq_filter (r : Registry)
    (h : results.map Prod.fst = spots (r.snapshot none)) :
    casualties r results = (r.snapshot none).filter fun e => failed results e.spot := by
  have hnodup : (results.map Prod.fst).Nodup := h ▸ r.nodup_spots_snapshot
  have hlist : r.snapshot none = results.flatMap fun x => r.entriesAt x.1 := by
    refine r.snapshot_eq_flatMap.trans ?_
    rw [← h, List.flatMap_map]
  rw [hlist, List.filter_flatMap]
  refine List.flatMap_congr fun x hx => ?_
  have hspot : ∀ e ∈ r.entriesAt x.1, failed results e.spot = !x.2.isOk := by
    intro e he
    rw [(Registry.mem_entriesAt.mp he).2, failed_of_mem hnodup hx]
  cases hok : x.2.isOk with
  | true =>
    rw [if_pos rfl]
    refine (List.filter_eq_nil_iff.mpr fun e he => ?_).symm
    simp [hspot e he, hok]
  | false =>
    rw [if_neg Bool.false_ne_true]
    refine (List.filter_eq_self.mpr fun e he => ?_).symm
    simp [hspot e he, hok]

end Session

namespace ExpiryRun

open Client (queuings askings)

variable {c₀ : Client} {p : Party} {w w' : ExpiryRun} {t : Engine} {os js : List Occurrence}
  {st st' : Session.Stage} {asked : List Request} {gone : List Entry}
  {rs : List (Spot × Answer)}

/-- What was dropped of the registry so far, and the results still to be acted upon. -/
inductive Dropped (c₀ : Client) (w : ExpiryRun) (asked : List Request) :
    List Entry → List (Spot × Answer) → Prop
  | drained (policy : c₀.settings.recovery = .dropAll)
    (registry : w.engine.client.registry = .empty) (unasked : asked = []) :
    Dropped c₀ w asked (c₀.registry.snapshot none) []
  | failed (start : Nat) (before rs : List (Spot × Answer))
    (policy : c₀.settings.recovery = .resubmitAll)
    (tried : Tried c₀.settings.resubmit start (Session.spots (c₀.registry.snapshot none)) w asked
      (before ++ rs))
    (registry : ∀ path k, w.engine.client.registry.holders path k =
      if Session.failed before ⟨path, k⟩ then [] else c₀.registry.holders path k) :
    Dropped c₀ w asked (Session.casualties c₀.registry before) rs

/-- What has happened when the handling of the expiry is at a stage. -/
inductive Tells (c₀ : Client) (w : ExpiryRun) (os : List Occurrence) : Session.Stage → Prop
  | expiring (registry : w.engine.client.registry = c₀.registry) (queued : queuings os = [])
    (unasked : askings os = []) (untried : w.attempts = []) (unheard : ∀ i, w.replies i = []) :
    Tells c₀ w os .expiring
  | expired (registry : w.engine.client.registry = c₀.registry)
    (queued : queuings os = [.state (.linkChange .expired)]) (unasked : askings os = [])
    (untried : w.attempts = []) (unheard : ∀ i, w.replies i = []) : Tells c₀ w os .expired
  | resubmitting (ts : List Task) (start : Nat) (policy : c₀.settings.recovery = .resubmitAll)
    (registry : w.engine.client.registry = c₀.registry)
    (queued : queuings os = [.state (.linkChange .expired)])
    (trying : Trying c₀.settings.resubmit start (Session.spots (c₀.registry.snapshot none)) w
      (askings os) ts) : Tells c₀ w os (.resubmitting ts)
  | dropping (gone told rest : List Entry) (rs : List (Spot × Answer))
    (dropped : Dropped c₀ w (askings os) gone rs) (all : told ++ rest = gone)
    (queued : queuings os =
      .state (.linkChange .expired) :: told.map (Delivery.removed · .expired)) :
    Tells c₀ w os (.dropping rs rest)
  | reporting (gone : List Entry) (dropped : Dropped c₀ w (askings os) gone [])
    (queued : queuings os =
      .state (.linkChange .expired) :: gone.map (Delivery.removed · .expired))
    (connected : w.engine.client.connected = true) : Tells c₀ w os (.reporting .syncConnected)
  | done (gone : List Entry) (dropped : Dropped c₀ w (askings os) gone [])
    (queued : queuings os = .state (.linkChange .expired) ::
      gone.map (Delivery.removed · .expired) ++ [.state (.linkChange .syncConnected)])
    (connected : w.engine.client.connected = true) : Tells c₀ w os .done

theorem Dropped.of_engine {ds : List Delivery} (h : Dropped c₀ w asked gone rs)
    (hr : t.client.registry = w.engine.client.registry) :
    Dropped c₀ { w with engine := t, carried := ds } asked gone rs := by
  cases h with
  | drained policy registry unasked => exact .drained policy (hr.trans registry) unasked
  | failed start before rs policy tried registry =>
    refine .failed start before rs policy ⟨tried.spots, tried.asked, tried.firsts, tried.foretold⟩ ?_
    intro path k
    exact hr ▸ registry path k

theorem Dropped.ticked (h : Dropped c₀ w asked gone rs) :
    Dropped c₀ { w with now := w.now + 1 } asked gone rs := by
  cases h with
  | drained policy registry unasked => exact .drained policy registry unasked
  | failed start before rs policy tried registry =>
    exact .failed start before rs policy
      ⟨tried.spots, tried.asked, tried.firsts, tried.foretold⟩ registry

theorem Trying.of_engine {policy : BackoffPolicy} {start : Nat} {κs : List Spot} {ts : List Task}
    {ds : List Delivery} (h : Trying policy start κs w asked ts) (t : Engine) :
    Trying policy start κs { w with engine := t, carried := ds } asked ts :=
  ⟨h.spots, h.asked, h.firsts, h.foretold, h.urgent, h.inTime⟩

/-- Nothing of this depends on what else the engine does. -/
theorem Tells.of_engine {ds : List Delivery} (h : Tells c₀ w os st)
    (hr : t.client.registry = w.engine.client.registry)
    (hc : t.client.connected = w.engine.client.connected) (hq : queuings js = [])
    (ha : askings js = []) :
    Tells c₀ { w with engine := t, carried := ds } (js ++ os) st := by
  have hqueued : queuings (js ++ os) = queuings os := Client.queuings_silent hq
  have hasked : askings (js ++ os) = askings os := Client.askings_silent ha
  cases h with
  | expiring registry queued unasked untried unheard =>
    exact .expiring (hr.trans registry) (hqueued.trans queued) (hasked.trans unasked) untried unheard
  | expired registry queued unasked untried unheard =>
    exact .expired (hr.trans registry) (hqueued.trans queued) (hasked.trans unasked) untried unheard
  | resubmitting ts start policy registry queued trying =>
    refine .resubmitting ts start policy (hr.trans registry) (hqueued.trans queued) ?_
    rw [hasked]
    exact trying.of_engine t
  | dropping gone told rest rs dropped all queued =>
    exact .dropping gone told rest rs (hasked ▸ dropped.of_engine hr) all (hqueued.trans queued)
  | reporting gone dropped queued connected =>
    exact .reporting gone (hasked ▸ dropped.of_engine hr) (hqueued.trans queued)
      (hc.trans connected)
  | done gone dropped queued connected =>
    exact .done gone (hasked ▸ dropped.of_engine hr) (hqueued.trans queued) (hc.trans connected)

/-- Acting upon a success leaves everything as it is. -/
theorem Dropped.kept {s : Spot} {x : Response} (h : Dropped c₀ w asked gone ((s, .ok x) :: rs))
    (hr : t.client.registry = w.engine.client.registry) :
    Dropped c₀ { w with engine := t } asked gone rs := by
  cases h with
  | failed start before _ policy tried registry =>
    have hgone : Session.casualties c₀.registry (before ++ [(s, .ok x)]) =
        Session.casualties c₀.registry before := by
      rw [Session.casualties_append]
      exact List.append_nil _
    have hfailed : ∀ κ, Session.failed (before ++ [(s, .ok x)]) κ = Session.failed before κ := by
      intro κ
      rw [Session.failed_append]
      simp [Session.failed, Except.isOk, Except.toBool]
    rw [← hgone]
    refine .failed start (before ++ [(s, .ok x)]) rs policy ?_ fun path k => ?_
    · rw [List.append_assoc]
      exact ⟨tried.spots, tried.asked, tried.firsts, tried.foretold⟩
    · rw [hfailed, ← registry]
      exact congrArg (Registry.holders · path k) hr

/-- Acting upon a failure takes out what is registered there, which is what was registered there when
the recovery began. -/
theorem Dropped.dropped {s : Spot} {f : Fault} (h : Dropped c₀ w asked gone ((s, .error f) :: rs))
    (hr : t.client.registry =
      (w.engine.client.registry.unregister s.path (.only s.kind) .all).2) :
    Dropped c₀ { w with engine := t } asked
      (gone ++ (w.engine.client.registry.unregister s.path (.only s.kind) .all).1) rs := by
  cases h with
  | failed start before _ policy tried registry =>
    have hfresh : Session.failed before s = false :=
      Session.not_failed_of_nodup (tried.spots ▸ c₀.registry.nodup_spots_snapshot)
    have hentries : w.engine.client.registry.entriesAt s = c₀.registry.entriesAt s := by
      have hholders := registry s.path s.kind
      rw [hfresh, if_neg Bool.false_ne_true] at hholders
      rw [Registry.entriesAt, hholders, Registry.entriesAt]
    have hgone : Session.casualties c₀.registry before ++
        (w.engine.client.registry.unregister s.path (.only s.kind) .all).1 =
          Session.casualties c₀.registry (before ++ [(s, .error f)]) := by
      rw [Registry.unregister_all, hentries, Session.casualties_append]
      simp [Session.casualties, Except.isOk, Except.toBool]
    rw [hgone]
    refine .failed start (before ++ [(s, .error f)]) rs policy ?_ fun path k => ?_
    · rw [List.append_assoc]
      exact ⟨tried.spots, tried.asked, tried.firsts, tried.foretold⟩
    · change t.client.registry.holders path k = _
      rw [hr, Registry.holders_unregister_all, registry, Session.failed_error]
      by_cases hs : s = ⟨path, k⟩
      · simp [hs]
      · rw [decide_eq_false hs, if_neg (Ne.symm hs), Bool.or_false]

/-- The handling went on to a stage, and what has happened since is told. -/
def WentOn (c₀ : Client) (p : Party) (w : ExpiryRun) (os : List Occurrence) (t : Engine)
    (st' : Session.Stage) : Prop :=
  t.client.Calm p ∧ t.client.settings = w.engine.client.settings ∧
    ∃ js, t.client.journal = js ++ w.engine.client.journal ∧
      Tells c₀ { w with engine := t } (js ++ os) st'

theorem Tells.offered (h : Tells c₀ w os st) (hw : w.engine.client.Calm p) {d : Delivery}
    (ht : t.client = (w.engine.client.send p d).2)
    (hnext : t.client.registry = w.engine.client.registry →
      t.client.connected = w.engine.client.connected →
      Tells c₀ { w with engine := t } (.queued d :: os) st') :
    WentOn c₀ p w os t (if (w.engine.client.send p d).1 then st' else st) := by
  rcases hw.send d with ⟨_, q, hs, hq, _⟩ | ⟨_, q, hs, hq, _⟩
  · rw [hs] at ht ⊢
    refine ⟨?_, by rw [ht]; rfl, [.queued d], by rw [ht]; rfl,
      hnext (by rw [ht]; rfl) (by rw [ht]; rfl)⟩
    rw [ht]
    exact hq.of_eq rfl rfl
  · rw [hs] at ht ⊢
    refine ⟨?_, by rw [ht], [], by rw [ht]; rfl, h.of_engine (by rw [ht]) (by rw [ht]) rfl rfl⟩
    rw [ht]
    exact hq

theorem Tells.recovered (h : Tells c₀ w os .expired) (hw : w.engine.client.Calm p)
    (hsettings : w.engine.client.settings = c₀.settings)
    (ht : t.client = (Session.recover w.engine.client).2) :
    WentOn c₀ p w os t (Session.recover w.engine.client).1 := by
  cases h with
  | expired registry queued unasked untried unheard =>
    cases hp : w.engine.client.settings.recovery with
    | dropAll =>
      rw [Session.recover_dropAll hp] at ht ⊢
      rw [WentOn, ht]
      refine ⟨hw.of_eq rfl rfl, rfl,
        [.taken .expired (w.engine.client.registry.snapshot none), .recovering .dropAll], rfl, ?_⟩
      refine .dropping (c₀.registry.snapshot none) [] _ [] (.drained ?_ ?_ ?_) ?_ ?_
      · rw [← hsettings, hp]
      · rw [ht]
        rfl
      · rw [Client.askings_silent rfl, unasked]
      · rw [← registry]
        rfl
      · rw [Client.queuings_append, queued]
        rfl
    | resubmitAll =>
      rw [Session.recover_resubmitAll hp] at ht ⊢
      rw [WentOn, ht]
      refine ⟨hw.of_eq rfl rfl, rfl, [.recovering .resubmitAll], rfl, ?_⟩
      refine .resubmitting _ w.now (hsettings ▸ hp) ?_ ?_ ?_
      · rw [ht]
        exact registry
      · rw [Client.queuings_append, queued]
        rfl
      · rw [Client.askings_silent rfl, unasked, registry]
        exact (trying_unstarted _ untried unheard).of_engine t

theorem Tells.dropped {s : Spot} {f : Fault}
    (h : Tells c₀ w os (.dropping ((s, .error f) :: rs) [])) (hw : w.engine.client.Calm p)
    (ht : t.client = ((w.engine.client.remark (.rearmAbandoned s.path s.kind f)).unregister .expired
      s.path (.only s.kind) .all).2) :
    WentOn c₀ p w os t
      (.dropping rs (w.engine.client.registry.unregister s.path (.only s.kind) .all).1) := by
  cases h with
  | dropping gone told _ _ dropped all queued =>
    let es := (w.engine.client.registry.unregister s.path (.only s.kind) .all).1
    rw [WentOn, ht]
    refine ⟨hw.of_eq rfl rfl, rfl,
      [.taken .expired es, .remarked (.rearmAbandoned s.path s.kind f)], rfl,
      .dropping (gone ++ es) told es rs ?_ ?_ ?_⟩
    · rw [Client.askings_silent rfl]
      exact dropped.dropped (by rw [ht]; rfl)
    · rw [← all, List.append_nil]
    · rw [Client.queuings_silent rfl, queued]

/-- What the handling does by itself, short of starting a task. -/
theorem Tells.resumed (hw : w.engine.client.Calm p)
    (hsettings : w.engine.client.settings = c₀.settings) (h : Tells c₀ w os st)
    (hm : Session.Resumed p w.engine.client st st' t.client)
    (hstarted : ∀ ts, st = .resubmitting ts → ∀ u ∈ ts, Backoff.isUnstarted u.stage = false) :
    WentOn c₀ p w os t st' := by
  generalize ht : t.client = c at hm
  cases hm with
  | expiring =>
    refine h.offered hw ht fun hregistry _ => ?_
    cases h with
    | expiring registry queued unasked untried unheard =>
      refine .expired (hregistry.trans registry) ?_ ?_ untried unheard
      · rw [Client.queuings_queued, queued, List.nil_append]
      · rw [Client.askings_queued, unasked]
  | expired => exact h.recovered hw hsettings ht
  | started before after u unstarted =>
    have hu := hstarted _ rfl u (by simp)
    rw [unstarted] at hu
    cases hu
  | gathered ts rs results =>
    cases h with
    | resubmitting _ start policy registry queued trying =>
      rw [WentOn, ht]
      refine ⟨hw, rfl, [], rfl, .dropping [] [] [] rs ?_ rfl queued⟩
      refine (Dropped.failed start [] rs policy (trying.tried results) fun path k => ?_).of_engine
        (by rw [ht])
      rw [registry]
      rfl
  | telling rs e es =>
    rw [apply_ite (Session.Stage.dropping rs)]
    refine h.offered hw ht fun hregistry _ => ?_
    cases h with
    | dropping gone told _ _ dropped all queued =>
      refine .dropping gone (told ++ [e]) es rs ?_ ?_ ?_
      · rw [Client.askings_queued]
        exact dropped.of_engine hregistry
      · rw [← all, List.append_assoc]
        rfl
      · rw [Client.queuings_queued, queued, List.map_append]
        rfl
  | kept s rs =>
    cases h with
    | dropping gone told _ _ dropped all queued =>
      rw [WentOn, ht]
      exact ⟨hw, rfl, [], rfl, .dropping gone told [] rs (dropped.kept (by rw [ht])) all queued⟩
  | dropped s f rs => exact h.dropped hw ht
  | restored =>
    cases h with
    | dropping gone told _ _ dropped all queued =>
      rw [WentOn, ht]
      refine ⟨hw.of_eq rfl rfl, rfl, [], rfl, .reporting gone (dropped.of_engine (by rw [ht])) ?_ ?_⟩
      · rw [← all, List.append_nil]
        exact queued
      · rw [ht]
  | reporting state =>
    refine h.offered hw ht fun hregistry hconnected => ?_
    cases h with
    | reporting gone dropped queued connected =>
      refine .done gone ?_ ?_ (hconnected.trans connected)
      · rw [Client.askings_queued]
        exact dropped.of_engine hregistry
      · rw [Client.queuings_queued, queued]

/-- How a client, its tasks and the clock stand when the handling of an expiry is at a stage. -/
structure Stands (c₀ : Client) (p : Party) (w : ExpiryRun) (st : Session.Stage) : Prop where
  handles : w.engine.Handles p st
  dispatching : w.engine.dispatching = true
  calm : w.engine.client.Calm p
  settings : w.engine.client.settings = c₀.settings
  past : ∀ i, w.changed i ≤ w.now
  tells : ∃ os, w.engine.client.journal = os ++ c₀.journal ∧ Tells c₀ w os st

variable {c : Client} {i : Nat}

theorem next?_of_task (h : w.engine.task? p = some (.session st)) :
    w.next? p = match st with
      | .resubmitting ts => ts.findIdx? (Backoff.isUnstarted ·.stage)
      | _ => none := by
  simp only [next?, h]
  cases st <;> rfl

theorem Stands.worked (h : Stands c₀ p w st) (htask : w.engine.task? p = some (.session st))
    (hn : w.next? p = none) (hm : Session.resume p st w.engine.client = some (st', c)) :
    Stands c₀ p { w with engine := w.engine.put p (.session st') c } st' := by
  obtain ⟨os, hj, htells⟩ := h.tells
  have hclient := Engine.client_put w.engine p (.session st') c
  have hresumed : Session.Resumed p w.engine.client st st' (w.engine.put p (.session st') c).client :=
    hclient.symm ▸ Session.resumed hm
  obtain ⟨hcalm, hsettings, js, hjs, htells'⟩ :=
    htells.resumed h.calm h.settings hresumed fun ts hst u hu => by
      subst hst
      rw [next?_of_task htask] at hn
      exact List.findIdx?_eq_none_iff.mp hn u hu
  refine ⟨Engine.Handles.put htask st' c, ?_, hcalm, ?_, h.past, js ++ os, ?_, htells'⟩
  · exact (Engine.dispatching_put ..).trans h.dispatching
  · rw [hsettings, h.settings]
  · rw [hjs, hj, List.append_assoc]

/-- Where the tasks are at work, what they are on is told by the journal. -/
theorem Stands.resubmitting {ts : List Task} (h : Stands c₀ p w (.resubmitting ts)) :
    c₀.settings.recovery = .resubmitAll ∧ w.engine.client.registry = c₀.registry ∧
      ∃ start os, w.engine.client.journal = os ++ c₀.journal ∧
        queuings os = [.state (.linkChange .expired)] ∧
        Trying c₀.settings.resubmit start (Session.spots (c₀.registry.snapshot none)) w
          (askings os) ts := by
  obtain ⟨os, hj, htells⟩ := h.tells
  cases htells with
  | resubmitting _ start policy registry queued trying =>
    exact ⟨policy, registry, start, os, hj, queued, trying⟩

theorem Stands.submitted {ts : List Task} {u : Task} {n d start : Nat}
    (h : Stands c₀ p w (.resubmitting ts))
    (htask : w.engine.task? p = some (.session (.resubmitting ts))) (hu : ts[i]? = some u)
    (hj : w.engine.client.journal = os ++ c₀.journal)
    (hq : queuings os = [.state (.linkChange .expired)])
    (htrying : Trying c₀.settings.resubmit start (Session.spots (c₀.registry.snapshot none)) w
      (askings os) ts)
    (hfirst : Backoff.isUnstarted u.stage = true →
      ∀ j v, j < i → ts[j]? = some v → Backoff.isUnstarted v.stage = false)
    (hagain : Backoff.isUnstarted u.stage = false → w.times i ≠ [])
    (hfore : Backoff.Foretold c₀.settings.resubmit start (w.times i ++ [w.now]) (w.replies i) w.now
      (.trying n d)) :
    Stands c₀ p (w.submit i (w.engine.put p (.session (.resubmitting
        (ts.set i { u with stage := .trying n d }))) (w.engine.client.submit u.spot.request)))
      (.resubmitting (ts.set i { u with stage := .trying n d })) := by
  obtain ⟨policy, registry, _⟩ := h.resubmitting
  let e := w.engine.put p (.session (.resubmitting (ts.set i { u with stage := .trying n d })))
    (w.engine.client.submit u.spot.request)
  have hclient : e.client = w.engine.client.submit u.spot.request := Engine.client_put ..
  refine ⟨Engine.Handles.put htask _ _, (Engine.dispatching_put ..).trans h.dispatching, ?_, ?_,
    fun j => ?_, .asked u.spot.request :: os, ?_, ?_⟩
  · change e.client.Calm p
    rw [hclient]
    exact h.calm.of_eq rfl rfl
  · change e.client.settings = _
    rw [hclient]
    exact h.settings
  · by_cases hji : j = i
    · simp [ExpiryRun.submit, hji]
    · simpa [ExpiryRun.submit, hji] using h.past j
  · change e.client.journal = _
    rw [hclient, List.cons_append, ← hj]
    rfl
  · refine .resubmitting _ start policy ?_ ?_ ?_
    · change e.client.registry = _
      rw [hclient]
      exact registry
    · rw [← List.singleton_append, Client.queuings_silent rfl]
      exact hq
    · rw [← List.singleton_append, Client.askings_append]
      exact htrying.submit hu hfirst hagain hfore e

theorem Stands.began (h : Stands c₀ p w st) (htask : w.engine.task? p = some (.session st))
    (hn : w.next? p = some i) (hm : Session.resume p st w.engine.client = some (st', c)) :
    Stands c₀ p (w.submit i (w.engine.put p (.session st') c)) st' := by
  rw [next?_of_task htask] at hn
  cases st with
  | resubmitting ts =>
    obtain ⟨policy, registry, start, os, hj, hq, htrying⟩ := h.resubmitting
    obtain ⟨u, hu, hun, hfirst, hstart⟩ :=
      Session.startNext_at w.engine.client.settings.resubmit w.engine.client hn
    simp only [Session.resume, hstart, Option.some.injEq, Prod.mk.injEq] at hm
    obtain ⟨rfl, rfl⟩ := hm
    have hstage : u.stage = .unstarted := by
      cases hs : u.stage <;> simp_all [Backoff.isUnstarted]
    have hold := htrying.foretold i u hu
    rw [hstage] at hold
    refine h.submitted htask hu hj hq htrying (fun _ => hfirst) (fun hf => ?_) ?_
    · rw [hun] at hf
      cases hf
    · rw [hold.1, hold.2, htrying.urgent ⟨u, List.mem_of_getElem? hu, hun⟩, h.settings]
      exact Backoff.foretold_start ..
  | expiring | expired | dropping | reporting | done => cases hn

theorem Stands.retried (h : Stands c₀ p w st) (htask : w.engine.task? p = some (.session st))
    {d : Nat} (hpause : (w.engine.waits p)[i]? = some (some (.pause d)))
    (hover : w.now = w.changed i + d)
    (hm : Session.retry i st w.engine.client = some (st', c)) :
    Stands c₀ p (w.submit i (w.engine.put p (.session st') c)) st' := by
  obtain ⟨ts, u, b, rfl, hu, hb, rfl⟩ := Session.update_eq_some hm
  obtain ⟨policy, registry, start, os, hj, hq, htrying⟩ := h.resubmitting
  obtain ⟨n, d', hstage⟩ : ∃ n d', u.stage = .pausing n d' := by
    cases hs : u.stage <;> simp_all [Backoff.retry]
  have hd : d' = d := by
    rw [Engine.waits_of_task htask, Session.waits, List.getElem?_map, hu] at hpause
    simpa [hstage, Backoff.wait?] using hpause
  subst hd
  have hold := htrying.foretold i u hu
  rw [hstage] at hold hb
  rw [h.settings] at hb
  obtain ⟨hagain, hfore⟩ := Backoff.foretold_retry hold hb rfl
  obtain rfl := Backoff.submitted_retry hb
  obtain rfl : .trying (n + 1) (min (2 * d') c₀.settings.resubmit.maxDelayMs) = b :=
    congrArg Prod.fst (Option.some.inj hb)
  refine h.submitted htask hu hj hq htrying (fun hun => ?_) (fun _ => hagain) ?_
  · rw [hstage] at hun
    cases hun
  · rw [hover]
    exact hfore

/-- A task hears of its attempt, or is late. -/
theorem Stands.heard {ts : List Task} {u : Task} {b : Backoff.Stage} {r : Backoff.Reply}
    (h : Stands c₀ p w (.resubmitting ts))
    (htask : w.engine.task? p = some (.session (.resubmitting ts))) (hu : ts[i]? = some u)
    (hstays : w.engine.client.Stays c) (hstarted : Backoff.isUnstarted u.stage = false)
    (hb : Backoff.isUnstarted b = false)
    (hfore : ∀ start, Backoff.Foretold c₀.settings.resubmit start (w.times i) (w.replies i)
      (w.changed i) u.stage → Backoff.Foretold c₀.settings.resubmit start (w.times i)
        (w.replies i ++ [r]) w.now b) :
    Stands c₀ p (w.hear i r (w.engine.put p (.session (.resubmitting
      (ts.set i { u with stage := b }))) c)) (.resubmitting (ts.set i { u with stage := b })) := by
  obtain ⟨policy, registry, start, os, hj, hq, htrying⟩ := h.resubmitting
  obtain ⟨js, hjs, hjq, hja⟩ := hstays.journal
  let e := w.engine.put p (.session (.resubmitting (ts.set i { u with stage := b }))) c
  have hclient : e.client = c := Engine.client_put ..
  refine ⟨Engine.Handles.put htask _ _, (Engine.dispatching_put ..).trans h.dispatching, ?_, ?_,
    fun j => ?_, js ++ os, ?_, ?_⟩
  · change e.client.Calm p
    rw [hclient]
    exact h.calm.of_eq hstays.closed hstays.deliveries
  · change e.client.settings = _
    rw [hclient, hstays.settings]
    exact h.settings
  · by_cases hji : j = i
    · simp [ExpiryRun.hear, hji]
    · simpa [ExpiryRun.hear, hji] using h.past j
  · change e.client.journal = _
    rw [hclient, hjs, hj, List.append_assoc]
  · refine .resubmitting _ start policy ?_ ((Client.queuings_silent hjq).trans hq) ?_
    · change e.client.registry = _
      rw [hclient, hstays.registry]
      exact registry
    · rw [Client.askings_silent hja]
      exact htrying.hear hu hstarted hb (hfore start (htrying.foretold i u hu)) e

theorem Stands.answered (h : Stands c₀ p w st) (htask : w.engine.task? p = some (.session st))
    {x : Answer} (hm : Session.answer i x st w.engine.client = some (st', c)) :
    Stands c₀ p (w.hear i (.heard (w.now - w.changed i) x) (w.engine.put p (.session st') c)) st' := by
  obtain ⟨ts, u, b, rfl, hu, hb, rfl⟩ := Session.update_eq_some hm
  rw [h.settings] at hb
  refine h.heard htask hu (.of_remarked (Backoff.remarked_answer hb)) ?_ ?_ fun start hold =>
    Backoff.foretold_answer (h.past i) hold hb
  · cases hs : u.stage <;> simp_all [Backoff.answer, Backoff.isUnstarted]
  · exact Backoff.started_answer hb

theorem Stands.timedOut (h : Stands c₀ p w st) (htask : w.engine.task? p = some (.session st))
    (hlate : w.now = w.changed i + w.engine.client.settings.resubmit.timeoutMs)
    (hm : Session.timeOut i st w.engine.client = some (st', c)) :
    Stands c₀ p (w.hear i .unheard (w.engine.put p (.session st') c)) st' := by
  obtain ⟨ts, u, b, rfl, hu, hb, rfl⟩ := Session.update_eq_some hm
  rw [h.settings] at hb hlate
  refine h.heard htask hu (.of_remarked (Backoff.remarked_timeOut hb)) ?_ ?_ fun start hold => ?_
  · cases hs : u.stage <;> simp_all [Backoff.timeOut, Backoff.isUnstarted]
  · exact Backoff.started_timeOut hb
  · rw [hlate]
    exact Backoff.foretold_timeOut hold hb

theorem Stands.dispatched (h : Stands c₀ p w st) {conduct : Client → Call → Conduct}
    (hopen : ∀ c x, .close ∉ (conduct c x).deeds) {d : Delivery} {q : Queue Delivery}
    (hq : w.engine.client.deliveries.take? = some (d, q)) :
    Stands c₀ p (w.carry { w.engine with
      client := { w.engine.client with deliveries := q }.deliver conduct d }) st := by
  have hstays := Client.Stays.deliver hopen { w.engine.client with deliveries := q } d
  obtain ⟨os, hj, htells⟩ := h.tells
  obtain ⟨js, hjs, hjq, hja⟩ := hstays.journal
  refine ⟨?_, h.dispatching, (h.calm.take hq).of_eq hstays.closed hstays.deliveries,
    hstays.settings.trans h.settings, h.past, js ++ os, ?_, ?_⟩
  · cases p <;> exact h.handles
  · rw [List.append_assoc, ← hj]
    exact hjs
  · exact htells.of_engine hstays.registry hstays.connected hjq hja

/-- Time passes when no task is to be started and none is late. -/
theorem Stands.ticked (h : Stands c₀ p w st) (hidle : Engine.act (.resume p) w.engine = none)
    (hearly : ∀ i x l, (w.engine.waits p)[i]? = some (some x) → x.limit? = some l →
      w.now < w.changed i + l) : Stands c₀ p { w with now := w.now + 1 } st := by
  obtain ⟨os, hj, htells⟩ := h.tells
  refine ⟨h.handles, h.dispatching, h.calm, h.settings, fun i => (h.past i).trans (Nat.le_succ _),
    os, hj, ?_⟩
  cases htells with
  | expiring registry queued unasked untried unheard =>
    exact .expiring registry queued unasked untried unheard
  | expired registry queued unasked untried unheard =>
    exact .expired registry queued unasked untried unheard
  | resubmitting ts start policy registry queued trying =>
    have htask : w.engine.task? p = some (.session (.resubmitting ts)) :=
      h.handles.task (by simp)
    refine .resubmitting ts start policy registry queued ⟨trying.spots, trying.asked, trying.firsts,
      trying.foretold, ?_, fun i u hu l hl => ?_⟩
    · rintro ⟨u, hu, hun⟩
      obtain ⟨i, hi⟩ : ∃ i, ts.findIdx? (Backoff.isUnstarted ·.stage) = some i :=
        Option.isSome_iff_exists.mp (List.findIdx?_isSome.trans (List.any_eq_true.mpr ⟨u, hu, hun⟩))
      obtain ⟨v, _, _, _, hstart⟩ :=
        Session.startNext_at w.engine.client.settings.resubmit w.engine.client hi
      have hact := Engine.act_of_move (m := .resume) htask (by
        simp only [Operation.move, Operation.resume, Session.resume, hstart]
        rfl)
      rw [Engine.actionOf, hidle] at hact
      cases hact
    · obtain ⟨x, hx, hlimit⟩ := Option.bind_eq_some_iff.mp hl
      refine Nat.succ_le_of_lt (hearly i x l ?_ hlimit)
      rw [Engine.waits_of_task htask, Session.waits, List.getElem?_map, hu, h.settings]
      exact congrArg some hx
  | dropping gone told rest rs dropped all queued =>
    exact .dropping gone told rest rs dropped.ticked all queued
  | reporting gone dropped queued connected =>
    exact .reporting gone dropped.ticked queued connected
  | done gone dropped queued connected => exact .done gone dropped.ticked queued connected

theorem Stands.step (h : Stands c₀ p w st) (hs : Step p w w') : ∃ st', Stands c₀ p w' st' := by
  cases hs with
  | worked t began act =>
    obtain ⟨st', hm, htask, ht⟩ := h.handles.moved (m := .resume) h.calm.opened act
    obtain ⟨st₁, he, hr⟩ := Operation.of_part (f := .session) hm
    obtain rfl := Operation.session.inj he
    exact ht ▸ ⟨_, h.worked htask began hr⟩
  | began i t next act =>
    obtain ⟨st', hm, htask, ht⟩ := h.handles.moved (m := .resume) h.calm.opened act
    obtain ⟨st₁, he, hr⟩ := Operation.of_part (f := .session) hm
    obtain rfl := Operation.session.inj he
    exact ht ▸ ⟨_, h.began htask next hr⟩
  | answered i x t inTime act =>
    obtain ⟨st', hm, htask, ht⟩ := h.handles.moved (m := .answer i x) h.calm.opened act
    obtain ⟨st₁, he, hr⟩ := Operation.of_part (f := .session) hm
    obtain rfl := Operation.session.inj he
    exact ht ▸ ⟨_, h.answered htask hr⟩
  | timedOut i t late act =>
    obtain ⟨st', hm, htask, ht⟩ := h.handles.moved (m := .timeOut i) h.calm.opened act
    obtain ⟨st₁, he, hr⟩ := Operation.of_part (f := .session) hm
    obtain rfl := Operation.session.inj he
    exact ht ▸ ⟨_, h.timedOut htask late hr⟩
  | retried i d t pause elapsed act =>
    obtain ⟨st', hm, htask, ht⟩ := h.handles.moved (m := .retry i) h.calm.opened act
    obtain ⟨st₁, he, hr⟩ := Operation.of_part (f := .session) hm
    obtain rfl := Operation.session.inj he
    exact ht ▸ ⟨_, h.retried htask pause elapsed hr⟩
  | dispatched conduct t opened act =>
    obtain ⟨d, q, hq, rfl⟩ := h.handles.dispatched h.calm.opened act
    exact ⟨st, h.dispatched opened hq⟩
  | ticked idle early => exact ⟨st, h.ticked idle early⟩

/-- What was carried out meanwhile and what is on the queue is what was on the queue at first and what
was noted as queued since, in the same order. -/
def Supplied (c₀ : Client) (w : ExpiryRun) : Prop :=
  ∃ os, w.engine.client.journal = os ++ c₀.journal ∧
    w.carried ++ w.engine.client.deliveries.items = c₀.deliveries.items ++ queuings os

theorem Supplied.grown (h : Supplied c₀ w) (hg : w.engine.client.Grows w'.engine.client)
    (hc : w'.carried = w.carried) : Supplied c₀ w' := by
  obtain ⟨os, hj, hitems⟩ := h
  obtain ⟨js, hjs, hmore⟩ := hg.items
  refine ⟨js ++ os, ?_, ?_⟩
  · rw [hjs, hj, List.append_assoc]
  · rw [hc, hmore, ← List.append_assoc, hitems, Client.queuings_append, List.append_assoc]

theorem Supplied.dispatched (h : Supplied c₀ w) {conduct : Client → Call → Conduct}
    (hopen : ∀ c x, .close ∉ (conduct c x).deeds) {d : Delivery} {q : Queue Delivery}
    (hq : w.engine.client.deliveries.take? = some (d, q)) :
    Supplied c₀ (w.carry { w.engine with
      client := { w.engine.client with deliveries := q }.deliver conduct d }) := by
  have hstays := Client.Stays.deliver hopen { w.engine.client with deliveries := q } d
  obtain ⟨os, hj, hitems⟩ := h
  obtain ⟨js, hjs, hjq, _⟩ := hstays.journal
  refine ⟨js ++ os, ?_, ?_⟩
  · rw [List.append_assoc, ← hj]
    exact hjs
  · rw [Client.queuings_silent hjq, ← hitems, Queue.items_take hq]
    change (w.carried ++ w.engine.client.deliveries.items.take 1) ++
      ({ w.engine.client with deliveries := q }.deliver conduct d).deliveries.items = _
    rw [hstays.deliveries, Queue.items_take hq, List.append_assoc]
    rfl

theorem Stands.grows (h : Stands c₀ p w st) {m : Move}
    (hact : Engine.act (Engine.actionOf p m) w.engine = some t) :
    w.engine.client.Grows t.client := by
  obtain ⟨_, hm, _⟩ := h.handles.moved h.calm.opened hact
  exact Operation.grows_move hm

theorem Supplied.step (h : Supplied c₀ w) (hst : Stands c₀ p w st) (hs : Step p w w') :
    Supplied c₀ w' := by
  cases hs with
  | worked t began act => exact h.grown (hst.grows (m := .resume) act) rfl
  | began i t next act => exact h.grown (hst.grows (m := .resume) act) rfl
  | answered i x t inTime act => exact h.grown (hst.grows (m := .answer i x) act) rfl
  | timedOut i t late act => exact h.grown (hst.grows (m := .timeOut i) act) rfl
  | retried i d t pause elapsed act => exact h.grown (hst.grows (m := .retry i) act) rfl
  | dispatched conduct t opened act =>
    obtain ⟨d, q, hq, rfl⟩ := hst.handles.dispatched hst.calm.opened act
    exact h.dispatched opened hq
  | ticked idle early => exact h.grown (Client.Idles.refl _).grows rfl

end ExpiryRun

end NodeWatch
