import NodeWatch.Proofs.RemovalContest
import NodeWatch.Proofs.RemovalTurns
import NodeWatch.Proofs.StaysClosed

/-! What a removal that asks the server comes to, whatever else goes on meanwhile: which entries go,
which stay, who is told, and whether it is a success. -/

namespace NodeWatch

namespace Engine

variable {settings : Settings} {feed : Option Nat} {s t : Engine}

/-- While the client is open its deliveries are taken, unless nobody is left to make any. -/
theorem Reachable.served (h : Reachable settings feed s) (ho : s.client.closed = false) :
    s.Served := by
  induction h with
  | built hb => exact served_initial hb
  | @step s t a hs ha ih =>
    have hopen : s.client.closed = false := by
      by_contra hclosed
      have hclosed' := (staysClosed_act hs.orderly (by simpa using hclosed) ha).closed
      exact absurd (hclosed'.symm.trans ho) nofun
    exact served_act hs.orderly hopen (ih hopen) ha

theorem Undertakes.reachable {p : Party} {r : RemovalRequest} (h : s.Undertakes p r t)
    (hs : Reachable settings feed s) : Reachable settings feed t := by
  cases h with
  | called r t hact => exact .step _ hs hact
  | received b t worker hact => exact .step _ hs hact

end Engine

namespace Pursuit

variable {party : Party} {w v : Pursuit}

/-- The engine acts, and turns are only added. -/
theorem exists_act (h : Step party w v) :
    ∃ a, Engine.act a w.engine = some v.engine ∧ w.turns <:+ v.turns := by
  obtain ⟨a, ha⟩ := h
  obtain ⟨t, hact, ht⟩ := Option.bind_eq_some_iff.mp ha
  split at ht
  · obtain rfl := Option.some.inj ht
    refine ⟨a, ?_⟩
    unfold record
    split
    · exact ⟨hact, List.suffix_cons _ _⟩
    · exact ⟨hact, List.suffix_rfl⟩
  · cases ht

theorem reachable_run {settings : Settings} {feed : Option Nat}
    (hw : Engine.Reachable settings feed w.engine) (h : Relation.ReflTransGen (Step party) w v) :
    Engine.Reachable settings feed v.engine := by
  refine hw.run (h.lift engine fun _ _ hstep => ?_)
  obtain ⟨a, hact, _⟩ := exists_act hstep
  exact ⟨a, hact⟩

theorem turns_suffix (h : Relation.ReflTransGen (Step party) w v) : w.turns <:+ v.turns := by
  induction h with
  | refl => exact List.suffix_rfl
  | tail _ hstep ih =>
    obtain ⟨_, _, hsuffix⟩ := exists_act hstep
    exact ih.trans hsuffix

end Pursuit

/-- The removal that has come to its end, and its result. -/
def Operation.ending? : Operation → Option (RemovalRequest × Except Fault (List Entry))
  | removal r (.done result) => some (r, result)
  | _ => none

theorem Operation.eq_of_ending? {o : Operation} {r : RemovalRequest}
    {result : Except Fault (List Entry)} (h : o.ending? = some (r, result)) :
    o = .removal r (.done result) := by
  cases o with
  | removal r' st =>
    cases st with
    | done result' =>
      obtain ⟨rfl, rfl⟩ := Prod.mk.inj (Option.some.inj h)
      rfl
    | asking | confirming | checking | rearming => cases h
  | arming | enrolment | notification | session => cases h

theorem Engine.task?_of_ending? {s : Engine} {p : Party} {r : RemovalRequest}
    {result : Except Fault (List Entry)}
    (h : (s.task? p).bind Operation.ending? = some (r, result)) :
    s.task? p = some (.removal r (.done result)) := by
  obtain ⟨o, ho, hended⟩ := Option.bind_eq_some_iff.mp h
  rw [ho, Operation.eq_of_ending? hended]

namespace Removal

variable {r : RemovalRequest} {p : Plan} {reg : Registry} {party : Party} {ts : List Turn}
  {o : Settlement} {told : List Entry}

/-- The entries of a kind go: it was settled without the server, or the server dropped it, or the
server did not know it and the removal is quiet. -/
def Goes (r : RemovalRequest) (p : Plan) (ts : List Turn) (k : Kind) : Prop :=
  k ∈ p.here ∨ k ∈ p.server ∧ ((∃ x, reply? r ts k = some (.ok x)) ∨
    r.quiet = true ∧ ∃ f, reply? r ts k = some (.error f) ∧ f.isNoWatcher = true)

/-- The removal took these entries out, in the turn in which the last answer came in, and changed
nothing else, in that turn or any other. -/
structure Settles (r : RemovalRequest) (p : Plan) (ts : List Turn) (es : List Entry) : Prop where
  turn : ∃ later x earlier, ts = later ++ x :: earlier ∧
    (p.server ≠ [] → Outstanding r p earlier) ∧ ¬Outstanding r p (x :: earlier) ∧
    (∀ y ∈ later ++ earlier, y.Still) ∧
    (∀ e, e ∈ es ↔ e ∈ x.before.registry ∧ e.path = r.path ∧
      r.target.selects e.subscriber = true ∧ Goes r p ts e.kind) ∧
    ∀ path k, x.after.registry.holders path k =
      (x.before.registry.holders path k).filter fun s => ⟨path, k, s⟩ ∉ es
  nodup : es.Nodup
  taken : Turn.takings ts = es.map (.mk .removed)

/-- Every answer was a success, or was that the server knows no such watch, to a quiet removal or a
probe; and unless it is quiet, a single subscriber's removal took something out, and a probe found
some kind known to the server. -/
def Succeeds (r : RemovalRequest) (p : Plan) (ts : List Turn) (es : List Entry) : Prop :=
  (∀ k ∈ p.server, (∃ x, reply? r ts k = some (.ok x)) ∨
    (r.quiet = true ∨ p.probe = true) ∧
      ∃ f, reply? r ts k = some (.error f) ∧ f.isNoWatcher = true) ∧
  (r.quiet = false → (∀ s, r.target = .one s → es ≠ []) ∧
    (p.probe = true → ∃ k ∈ p.server, ∃ x, reply? r ts k = some (.ok x)))

theorem answered_of_mem {as : List Answer} (hl : as.length = p.server.length) {k : Kind}
    (hk : k ∈ p.server) : ∃ a, (k, a) ∈ p.server.zip as := by
  have hmem : k ∈ (p.server.zip as).map Prod.fst := by
    rw [List.map_fst_zip hl.ge]
    exact hk
  obtain ⟨⟨k', a⟩, hm, rfl⟩ := List.mem_map.mp hmem
  exact ⟨a, hm⟩

theorem countedFault?_eq_none {a : Answer} : countedFault? r p a = none ↔
    (∃ x, a = .ok x) ∨ (r.quiet = true ∨ p.probe = true) ∧
      ∃ f, a = .error f ∧ f.isNoWatcher = true := by
  cases a with
  | ok x => simp [countedFault?]
  | error f => simp [countedFault?, and_comm]

theorem takes_iff {a : Answer} : takes r a = true ↔
    (∃ x, a = .ok x) ∨ r.quiet = true ∧ ∃ f, a = .error f ∧ f.isNoWatcher = true := by
  cases a with
  | ok x => simp [takes]
  | error f => simp [takes, and_comm]

theorem mem_departed {as : List Answer} (hheard : Heard r p (as.map some) ts) {k : Kind} :
    k ∈ departed r (p.server.zip as) p.here ↔ Goes r p ts k := by
  simp only [departed, List.mem_append, List.mem_map, List.mem_filter, Prod.exists,
    exists_and_right, exists_eq_right, mem_zip_iff_reply hheard, Goes]
  constructor
  · rintro (⟨a, hreply, htakes⟩ | hhere)
    · have hk := hheard.mem k a hreply
      rcases takes_iff.mp htakes with ⟨x, rfl⟩ | ⟨hq, f, rfl, hf⟩
      · exact .inr ⟨hk, .inl ⟨x, hreply⟩⟩
      · exact .inr ⟨hk, .inr ⟨hq, f, hreply, hf⟩⟩
    · exact .inl hhere
  · rintro (hhere | ⟨hk, ⟨x, hreply⟩ | ⟨hq, f, hreply, hf⟩⟩)
    · exact .inr hhere
    · exact .inl ⟨_, hreply, takes_iff.mpr (.inl ⟨x, rfl⟩)⟩
    · exact .inl ⟨_, hreply, takes_iff.mpr (.inr ⟨hq, f, rfl, hf⟩)⟩

section

variable {later earlier : List Turn} {x : Turn} {as : List Answer}

/-- The reckoning, before a removal without effect was counted as a failure. -/
theorem Reckons.exists_reckoned (h : Reckons r p later x earlier as o told) :
    ∃ o', Reckoned r p x.before (p.server.zip as) p.here (o', x.after) ∧
      o = { o' with failure := o'.failure <|> missed r p o' } := by
  obtain ⟨o', hreckoned, ho⟩ := reckoned_reconcile r p as x.before
  rw [h.reckoned] at hreckoned ho
  exact ⟨o', hreckoned, ho⟩

theorem Reckons.mem_removed (h : Reckons r p later x earlier as o told) {e : Entry} :
    e ∈ o.removed ↔ e ∈ x.before.registry ∧ e.path = r.path ∧
      r.target.selects e.subscriber = true ∧ Goes r p (later ++ x :: earlier) e.kind := by
  obtain ⟨o', hreckoned, rfl⟩ := h.exists_reckoned
  have hmem : e ∈ o'.removed ↔ _ := hreckoned.mem_removed
  rw [mem_departed h.heard] at hmem
  rw [hmem]
  tauto

theorem Reckons.frame (h : Reckons r p later x earlier as o told) (path : String) (k : Kind) :
    x.after.registry.holders path k =
      (x.before.registry.holders path k).filter fun s => ⟨path, k, s⟩ ∉ o.removed := by
  obtain ⟨o', hreckoned, rfl⟩ := h.exists_reckoned
  exact hreckoned.frame path k

/-- The turn takes everything out at once, and tells nobody yet. -/
theorem Reckons.noted (h : Reckons r p later x earlier as o told) :
    Turn.takings [x] = o.removed.map (.mk .removed) ∧ Turn.sendings [x] = [] := by
  obtain ⟨o', hreckoned, rfl⟩ := h.exists_reckoned
  obtain ⟨os, hj, htakings, hsendings⟩ := hreckoned.noted
  refine ⟨?_, (Turn.sendings_singleton _ hj).trans hsendings⟩
  rw [Turn.takings, List.flatMap_singleton, Turn.noted_eq hj, htakings]

theorem takings_eq_nil_of_still (h : ∀ y ∈ ts, y.Still) : Turn.takings ts = [] := by
  induction ts with
  | nil => rfl
  | cons y ts ih =>
    rw [← List.singleton_append, Turn.takings_append, (h y (.head _)).2,
      ih fun z hz => h z (.tail _ hz)]
    rfl

theorem Reckons.takings (h : Reckons r p later x earlier as o told) :
    Turn.takings (later ++ x :: earlier) = o.removed.map (.mk .removed) := by
  rw [← List.singleton_append, Turn.takings_append, Turn.takings_append, h.noted.1,
    takings_eq_nil_of_still fun y hy => h.still y (List.mem_append_left _ hy),
    takings_eq_nil_of_still fun y hy => h.still y (List.mem_append_right _ hy)]
  simp

theorem Reckons.settles (h : Reckons r p later x earlier as o told) :
    Settles r p (later ++ x :: earlier) o.removed := by
  refine ⟨⟨later, x, earlier, rfl, h.first, h.last, h.still, fun e => h.mem_removed, h.frame⟩, ?_,
    h.takings⟩
  obtain ⟨o', hreckoned, rfl⟩ := h.exists_reckoned
  exact hreckoned.nodup

theorem Reckons.sendings (h : Reckons r p later x earlier as o told) :
    Turn.sendings (later ++ x :: earlier) = confirmations told := by
  rw [← List.singleton_append, Turn.sendings_append, Turn.sendings_append, h.silent, h.sent,
    h.noted.2]
  rfl

theorem Reckons.failure (h : Reckons r p later x earlier as o told) : o.failure =
    (((p.server.zip as).findSome? fun y => countedFault? r p y.2) <|>
      missed r p { o with failure := none }) := by
  obtain ⟨o', hreckoned, rfl⟩ := h.exists_reckoned
  dsimp only
  rw [hreckoned.failure]
  rfl

theorem Reckons.cleared (h : Reckons r p later x earlier as o told) : o.cleared ≠ [] ↔
    ∃ k ∈ p.server, ∃ y, reply? r (later ++ x :: earlier) k = some (.ok y) := by
  obtain ⟨o', hreckoned, rfl⟩ := h.exists_reckoned
  rw [hreckoned.cleared, ne_eq, List.map_eq_nil_iff, List.filter_eq_nil_iff]
  push Not
  constructor
  · rintro ⟨⟨k, a⟩, hm, hok⟩
    have hreply := (mem_zip_iff_reply h.heard).mp hm
    cases a with
    | ok y => exact ⟨k, h.heard.mem k _ hreply, y, hreply⟩
    | error f => cases hok
  · rintro ⟨k, hk, y, hreply⟩
    exact ⟨(k, .ok y), (mem_zip_iff_reply h.heard).mpr hreply, rfl⟩

theorem Reckons.succeeds (h : Reckons r p later x earlier as o told) :
    o.failure = none ↔ Succeeds r p (later ++ x :: earlier) o.removed := by
  have hmissed : missed r p { o with failure := none } = none ↔ _ := missed_eq_none
  rw [h.failure, Option.orElse_eq_orElse, Option.orElse_eq_or, Option.or_eq_none_iff, hmissed,
    List.findSome?_eq_none_iff]
  refine and_congr ⟨fun hall k hk => ?_, fun hall y hy => ?_⟩ (imp_congr_right fun _ => and_congr_right
    fun _ => imp_congr_right fun _ => h.cleared)
  · obtain ⟨a, ha⟩ := answered_of_mem h.all hk
    have hreply := (mem_zip_iff_reply h.heard).mp ha
    rcases countedFault?_eq_none.mp (hall _ ha) with ⟨x, rfl⟩ | ⟨hq, f, rfl, hf⟩
    · exact .inl ⟨x, hreply⟩
    · exact .inr ⟨hq, f, hreply, hf⟩
  · have hreply := (mem_zip_iff_reply h.heard).mp hy
    refine countedFault?_eq_none.mpr ((hall _ (h.heard.mem _ _ hreply)).imp ?_ ?_)
    · rintro ⟨x, hx⟩
      exact ⟨x, Option.some.inj (hreply.symm.trans hx)⟩
    · rintro ⟨hq, f, hf, hn⟩
      exact ⟨hq, f, Option.some.inj (hreply.symm.trans hf), hn⟩

end

theorem probe_plan : (plan r reg).probe = true ↔
    r.target = .all ∧ r.kind = .any ∧ ∀ k, reg.holders r.path k = [] := by
  have hnone : reg.registeredKinds r.path .any .all = [] ↔ ∀ k, reg.holders r.path k = [] := by
    have hall : ∀ l : List Subscriber, l.any Target.all.selects = false ↔ l = [] := by
      intro l
      cases l <;> simp [Target.selects]
    simp only [Registry.registeredKinds, List.filter_eq_nil_iff, Bool.not_eq_true, hall]
    refine ⟨fun h k => h k ?_, fun h k _ => h k⟩
    cases k <;> simp [Selector.kinds]
  rw [← hnone]
  unfold plan
  cases ht : r.target with
  | one s => simp
  | all =>
    cases hk : r.kind with
    | only k => simp
    | any =>
      dsimp only
      split
      · rename_i he
        simp [he]
      · rename_i he
        simpa using he

/-- Only a single subscriber's removal may have nothing to do. -/
theorem target_of_empty (hserver : (plan r reg).server = []) : ∃ s, r.target = .one s := by
  cases ht : r.target with
  | one s => exact ⟨s, rfl⟩
  | all =>
    simp only [plan, ht] at hserver
    split at hserver
    · cases hserver
    · split at hserver
      · cases hserver
      · rename_i hne
        exact absurd hserver (by simpa using hne)

/-- One subscriber registers both kinds of a path. -/
def armBoth (name : String) : List Engine.Action :=
  [.begin (.arm ⟨.presence, "/a", .watcher (.named name)⟩),
    .answer (.caller 0) 0 (.ok (.presence true)),
    .begin (.arm ⟨.listing, "/a", .watcher (.named name)⟩), .answer (.caller 1) 0 (.ok (.listing []))]

/-- On a new client watches are armed in this way, then a removal is begun as the call of this number,
and goes on as the script says; and the check holds of what it found and of its run. -/
def playsOut (arms : List Engine.Action) (id : Nat) (r : RemovalRequest)
    (script : List Engine.Action) (check : Engine → Pursuit → Bool) : Bool :=
  (Engine.follow arms Engine.fresh).any fun s =>
    !s.client.closed && decide (s.nextCall = id) &&
      (Engine.act (.begin (.remove r)) s).any fun t =>
        (Pursuit.follow (.caller id) script ⟨t, []⟩).any (check s)

theorem run_of_playsOut {arms script : List Engine.Action} {id : Nat}
    {check : Engine → Pursuit → Bool} (h : playsOut arms id r script check = true) :
    ∃ (s t : Engine) (w : Pursuit), Engine.Reachable {} none s ∧ s.client.closed = false ∧
      s.Undertakes (.caller id) r t ∧
      Relation.ReflTransGen (Pursuit.Step (.caller id)) ⟨t, []⟩ w ∧ check s w = true := by
  obtain ⟨s, hs, h⟩ := (Option.any_eq_true _ _).mp h
  simp only [Bool.and_eq_true, Bool.not_eq_true', decide_eq_true_eq] at h
  obtain ⟨⟨ho, rfl⟩, h⟩ := h
  obtain ⟨t, ht, h⟩ := (Option.any_eq_true _ _).mp h
  obtain ⟨w, hw, h⟩ := (Option.any_eq_true _ _).mp h
  exact ⟨s, t, w, Engine.reachable_of_fresh hs, ho, .called _ t ht, Pursuit.steps_of_follow hw, h⟩

/-- A removal that asks the server, from when it is planned to when it ends, with anything going on in
between. Until the last answer is in it changes nothing. Then it takes out the entries that are at its
path by then, that its target selects and whose kind goes, and leaves all others as they are; whatever
its result, it puts one confirmation for each on the queue, unless client and queue were closed; and
its result is a success with these entries, or it is a failure, as the answers have it. -/
theorem removal_settles_by_answers {settings : Settings} {feed : Option Nat} {s t : Engine}
    {w : Pursuit} (hs : Engine.Reachable settings feed s) (ho : s.client.closed = false)
    (hremote : r.registryOnly = false) (hvalid : Path.isValid r.path = true)
    (hb : s.Undertakes party r t) (h : Relation.ReflTransGen (Pursuit.Step party) ⟨t, []⟩ w) :
    ((plan r s.client.registry).probe = true ↔
      r.target = .all ∧ r.kind = .any ∧ ∀ k, s.client.registry.holders r.path k = []) ∧
    ∃ st, w.engine.task? party = some (.removal r st) ∧
      ((∃ result, st = .done result) ∨ Proceeds r party st w.engine.client) ∧
      (((∀ result, st ≠ .done result) ∧
          ((plan r s.client.registry).server ≠ [] →
            Outstanding r (plan r s.client.registry) w.turns) ∧
          (∀ x ∈ w.turns, x.Still) ∧ Turn.sendings w.turns = [] ∧ Turn.queuings w.turns = []) ∨
        ∃ es, ((plan r s.client.registry).server = [] ∧ (plan r s.client.registry).here = [] ∧
            es = [] ∧ w.turns = [] ∨ Settles r (plan r s.client.registry) w.turns es) ∧
          ∀ result, st = .done result →
            Turn.sendings w.turns = confirmations es ∧
            (w.engine.client.closed = false ∨ w.engine.client.deliveries.isOpen = true →
              Turn.queuings w.turns = confirmations es) ∧
            (∀ es', result = .ok es' → es' = es) ∧
            ((∃ es', result = .ok es') ↔
              Succeeds r (plan r s.client.registry) w.turns es)) := by
  refine ⟨probe_plan, ?_⟩
  obtain ⟨ht, htask, _⟩ := hb.begun hs.orderly ho
  have hreach := Pursuit.reachable_run (hb.reachable hs) h
  have hdelivers := Pursuit.delivers_run ht htask h
  obtain ⟨st, hst, hempty | htraced⟩ := traced_run hs.orderly ho hremote hvalid hb h
  · obtain ⟨hserver, hhere, hturns, rfl⟩ := hempty
    obtain ⟨s', htarget⟩ := target_of_empty hserver
    refine ⟨_, hst, .inl ⟨_, rfl⟩, .inr ⟨[], .inl ⟨hserver, hhere, rfl, hturns⟩, ?_⟩⟩
    intro result hresult
    obtain rfl := Stage.done.inj hresult
    rw [hturns]
    refine ⟨rfl, fun _ => rfl, ?_, ?_⟩
    · intro es' he
      simp only [nothing] at he
      split at he
      · exact (Except.ok.inj he).symm
      · cases he
    · by_cases hq : r.quiet = true <;> simp [nothing, Succeeds, hserver, htarget, hq]
  · refine ⟨st, hst, ?_, ?_⟩
    · by_cases hd : ∃ result, st = .done result
      · exact .inl hd
      · exact .inr (htraced.proceeds (fun result he => hd ⟨result, he⟩) _)
    · refine htraced.acted.imp ?_ ?_
      · rintro ⟨hgoing, hout, hstill, hsilent⟩
        exact ⟨hgoing, hout, hstill, hsilent, Turn.queuings_of_sendings hdelivers hsilent⟩
      rintro ⟨o, told, ⟨later, x, earlier, as, hturns, hreckons⟩, hdone⟩
      have hqueued : w.engine.client.closed = false ∨ w.engine.client.deliveries.isOpen = true →
          Turn.queuings w.turns = Turn.sendings w.turns := fun hopen =>
        Turn.queuings_eq_sendings hdelivers (Pursuit.opens_run ht htask rfl h
          (hopen.elim (fun hc => (hreach.served hc).isOpen hst) id))
      rw [hturns] at hqueued ⊢
      refine ⟨o.removed, .inr hreckons.settles, fun result hresult => ?_⟩
      obtain ⟨rfl, rfl⟩ := hdone result hresult
      refine ⟨hreckons.sendings, fun hopen => (hqueued hopen).trans hreckons.sendings, ?_, ?_⟩
      · intro es' he
        simp only [Settlement.result] at he
        split at he
        · cases he
        · exact (Except.ok.inj he).symm
      · rw [← hreckons.succeeds, Settlement.result]
        cases o.failure <;> simp

/-- Two subscribers share one kind and only the first holds the other. While the first is being
removed a third joins them, and then the server cannot be reached: the shared kind goes all the same,
with a confirmation, and the removal fails. -/
theorem shared_kind_settles_alone :
    ∃ (s t : Engine) (w : Pursuit), Engine.Reachable {} none s ∧
      s.client.closed = false ∧
      s.Undertakes (.caller 3) ⟨"/a", .any, .one (.watcher (.named "v")), false, false⟩ t ∧
      Relation.ReflTransGen (Pursuit.Step (.caller 3)) ⟨t, []⟩ w ∧
      w.engine.task? (.caller 3) = some
        (.removal ⟨"/a", .any, .one (.watcher (.named "v")), false, false⟩
          (.done (.error .connectionLoss))) ∧
      w.engine.client.registry.holders "/a" .children =
        [.watcher (.named "w"), .watcher (.named "u")] ∧
      ∃ es, Settles ⟨"/a", .any, .one (.watcher (.named "v")), false, false⟩
          ⟨[.data], [.children], false⟩ w.turns es ∧
        Turn.queuings w.turns = confirmations es ∧
        confirmations es = [.removed ⟨"/a", .children, .watcher (.named "v")⟩ .syncConnected] ∧
        w.engine.client.deliveries.items = confirmations es := by
  have hplays : playsOut (armBoth "v" ++ [.begin (.arm ⟨.listing, "/a", .watcher (.named "w")⟩),
        .answer (.caller 2) 0 (.ok (.listing []))])
      3 ⟨"/a", .any, .one (.watcher (.named "v")), false, false⟩
      [.resume (.caller 3), .begin (.arm ⟨.listing, "/a", .watcher (.named "u")⟩),
        .answer (.caller 4) 0 (.ok (.listing [])),
        .answer (.caller 3) 0 (.error .connectionLoss), .resume (.caller 3), .resume (.caller 3),
        .resume (.caller 3)]
      (fun s w => decide (
        plan ⟨"/a", .any, .one (.watcher (.named "v")), false, false⟩ s.client.registry =
          ⟨[.data], [.children], false⟩ ∧
        (w.engine.task? (.caller 3)).bind Operation.ending? =
          some (⟨"/a", .any, .one (.watcher (.named "v")), false, false⟩, .error .connectionLoss) ∧
        w.engine.client.registry.holders "/a" .children =
          [.watcher (.named "w"), .watcher (.named "u")] ∧
        w.engine.client.closed = false ∧
        w.engine.client.deliveries.items =
          [.removed ⟨"/a", .children, .watcher (.named "v")⟩ .syncConnected] ∧
        Turn.sendings w.turns =
          [.removed ⟨"/a", .children, .watcher (.named "v")⟩ .syncConnected])) = true := by
    decide +kernel
  obtain ⟨s, t, w, hs, ho, hb, h, hcheck⟩ := run_of_playsOut hplays
  obtain ⟨hplan, hended, hholders, hopen, hitems, hsendings⟩ := of_decide_eq_true hcheck
  have htask := Engine.task?_of_ending? hended
  obtain ⟨_, st, hst, _, hsettles⟩ := removal_settles_by_answers hs ho rfl (by decide) hb h
  obtain rfl := (Operation.removal.inj (Option.some.inj (hst.symm.trans htask))).2
  rw [hplan] at hsettles
  obtain ⟨es, hes, houtcome⟩ := hsettles.resolve_left fun h => h.1 _ rfl
  obtain ⟨hsent, hqueued, _⟩ := houtcome _ rfl
  have hconfirmed := hsent.symm.trans hsendings
  exact ⟨s, t, w, hs, ho, hb, h, htask, hholders, es, hes.resolve_left fun h => by simp at h,
    hqueued (.inl hopen), hconfirmed, hitems.trans hconfirmed.symm⟩

end Removal

end NodeWatch
