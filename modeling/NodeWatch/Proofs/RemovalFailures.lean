import NodeWatch.Proofs.RemovalOutcomes

/-! Which failure a removal reports. A removal that asks about two kinds may fail for both, and says
only one thing in the end: it tells of the kind that comes first, unless that is but the server's
word that it knows no such watch, and the removal does not mind. -/

namespace NodeWatch

theorem ResultCode.ofResult_noWatcher {α : Type} {f : Fault} :
    ResultCode.ofResult (.error f : Except Fault α) = .noWatcher ↔ f.isNoWatcher = true := by
  cases f <;> simp [ResultCode.ofResult, Fault.code, Fault.isNoWatcher]

theorem ResultCode.ofResult_ne_ok {α : Type} (f : Fault) :
    ResultCode.ofResult (.error f : Except Fault α) ≠ .ok := by
  cases f <;> exact nofun

theorem Path.isValid_of_validate {path : String} (h : validate path = .ok ()) :
    isValid path = true := by
  simp only [validate] at h
  split at h
  · rename_i hn
    rw [isValid, hn]
    rfl
  · cases h

namespace Removal

variable {r : RemovalRequest} {p : Plan} {reg : Registry} {party : Party} {c c' : Client}
  {ts : List Turn} {o : Settlement} {told : List Entry}

/-- A removal that leaves the server out has no requests to be answered. -/
def Unanswered (ts : List Turn) : Stage → Prop
  | .confirming _ o => o.cleared = [] ∧ ∀ x ∈ ts, x.reply? = none
  | .checking ks _ => ks = [] ∧ ∀ x ∈ ts, x.reply? = none
  | .done _ => ∀ x ∈ ts, x.reply? = none
  | .asking .. | .rearming .. => False

theorem unanswered_start (h : ¬(r.registryOnly = false ∧ Path.isValid r.path = true)) (c : Client) :
    Unanswered [] (start r c).1 := by
  have hstart := started r c
  generalize start r c = x at hstart ⊢
  cases hstart with
  | invalid | unmatched => exact fun _ hx => by cases hx
  | taken => exact ⟨rfl, fun _ hx => by cases hx⟩
  | idle valid remote | asking valid remote =>
    exact absurd ⟨remote, Path.isValid_of_validate valid⟩ h

theorem unanswered_move {o o' : Operation} {m : Move} (hm : o.move m party c = some (o', c'))
    (h : ∃ st, o = .removal r st ∧ Unanswered ts st) :
    ∃ st', o' = .removal r st' ∧ Unanswered (⟨m, o, c, c'⟩ :: ts) st' := by
  obtain ⟨st, rfl, hst⟩ := h
  cases Operation.moves hm with
  | removing r st st' c' resume =>
    have hnone : ∀ ts : List Turn, (∀ x ∈ ts, x.reply? = none) →
        ∀ x ∈ (⟨.resume, .removal r st, c, c'⟩ :: ts : List Turn), x.reply? = none := by
      intro ts hts x hx
      rcases List.mem_cons.mp hx with rfl | hx
      · rfl
      · exact hts x hx
    cases resumed resume with
    | asked p answers => cases hst
    | advanced p answers => cases hst
    | told o => exact ⟨_, rfl, hst.1, hnone ts hst.2⟩
    | telling e es o => exact ⟨_, rfl, hst.1, hnone ts hst.2⟩
    | finished o result => exact ⟨_, rfl, hnone ts hst.2⟩
    | passed k ks o => cases hst.1
    | rearming k ks o => cases hst.1
  | settling r slot x st st' c' answer =>
    cases replied answer with
    | advanced p answers => cases hst
    | rearmed k ks o => cases hst

/-- Only a removal that asks the server has an answer. -/
theorem remote_of_reply {s t : Engine} {w : Pursuit} (hs : s.Orderly) (ho : s.client.closed = false)
    (hb : s.Undertakes party r t) (h : Relation.ReflTransGen (Pursuit.Step party) ⟨t, []⟩ w)
    {k : Kind} {a : Answer} (ha : reply? r w.turns k = some a) :
    r.registryOnly = false ∧ Path.isValid r.path = true := by
  by_contra hn
  obtain ⟨ht, htask, _⟩ := hb.begun hs ho
  obtain ⟨_, o, _, st, rfl, hst⟩ := Pursuit.tells_run
    (fun o ts => ∃ st, o = .removal r st ∧ Unanswered ts st) ht htask
    ⟨_, rfl, unanswered_start hn s.client⟩ (fun m o o' c c' ts hm htells => unanswered_move hm htells) h
  have hnone : ∀ x ∈ w.turns, x.reply? = none := by
    cases st with
    | confirming rest o => exact hst.2
    | checking ks o => exact hst.2
    | done result => exact hst
    | asking | rearming => cases hst
  rw [reply?, Turn.answer?, List.filterMap_eq_nil_iff.mpr hnone] at ha
  cases ha

/-- A failure for another reason is passed over: the kind asked about first is one that the server
does not know, and the removal minds. -/
def Shadowed (r : RemovalRequest) (p : Plan) (ts : List Turn) : Prop :=
  r.quiet = false ∧ p.probe = false ∧
    ∃ f, reply? r ts .data = some (.error f) ∧ f.isNoWatcher = true

theorem server_cases (r : RemovalRequest) (reg : Registry) :
    (∃ k, (plan r reg).server.Sublist [k]) ∨ (plan r reg).server = [.data, .children] := by
  have hsub := server_plan r reg
  cases hk : r.kind with
  | only k =>
    rw [hk] at hsub
    exact .inl ⟨k, hsub⟩
  | any =>
    rw [hk] at hsub
    rcases List.sublist_cons_iff.mp hsub with hsub | ⟨l, hl, hsub⟩
    · exact .inl ⟨.children, hsub⟩
    · rcases List.sublist_singleton.mp hsub with rfl | rfl
      · exact .inl ⟨.data, hl ▸ List.Sublist.refl _⟩
      · exact .inr hl

theorem countedFault?_of_other {f : Fault} (hf : f.isNoWatcher = false) :
    countedFault? r p (.error f) = some f := by
  simp [countedFault?, hf]

section

variable {later earlier : List Turn} {x : Turn} {as : List Answer}

theorem Reckons.result_eq (h : Reckons r p later x earlier as o told) {g : Fault}
    (hg : (p.server.zip as).findSome? (fun y => countedFault? r p y.2) = some g) :
    o.result = .error g := by
  rw [Settlement.result, h.failure, hg]
  rfl

/-- The only kind asked about has failed. -/
theorem Reckons.reports_one (h : Reckons r p later x earlier as o told) {k : Kind} {f : Fault}
    (hone : p.server = [k]) (hk : reply? r (later ++ x :: earlier) k = some (.error f))
    (hf : f.isNoWatcher = false) :
    o.result = .error f ∧ ¬Shadowed r p (later ++ x :: earlier) := by
  have hall := h.all
  rw [hone] at hall
  obtain ⟨a, rfl⟩ := List.length_eq_one_iff.mp hall
  have ha : (k, a) ∈ p.server.zip [a] := by
    rw [hone]
    exact .head _
  obtain rfl : a = .error f :=
    Option.some.inj (((mem_zip_iff_reply h.heard).mp ha).symm.trans hk)
  refine ⟨h.result_eq ?_, ?_⟩
  · rw [hone]
    simp [countedFault?_of_other hf]
  · rintro ⟨_, _, f₁, hdata, hf₁⟩
    have hkind := h.heard.mem .data _ hdata
    rw [hone] at hkind
    obtain rfl := List.mem_singleton.mp hkind
    obtain rfl : f₁ = f := Except.error.inj (Option.some.inj (hdata.symm.trans hk))
    rw [hf] at hf₁
    cases hf₁

/-- Both kinds were asked about, and what the first one was told counts. -/
theorem Reckons.reports_first {a b : Answer} (h : Reckons r p later x earlier [a, b] o told)
    (hboth : p.server = [.data, .children]) {f : Fault} (ha : countedFault? r p a = some f) :
    o.result = .error f := by
  refine h.result_eq ?_
  rw [hboth]
  simp [ha]

/-- What the first kind was told does not count, and what the second was told does. -/
theorem Reckons.reports_second {a b : Answer} (h : Reckons r p later x earlier [a, b] o told)
    (hboth : p.server = [.data, .children]) {f : Fault} (ha : countedFault? r p a = none)
    (hb : countedFault? r p b = some f) : o.result = .error f := by
  refine h.result_eq ?_
  rw [hboth]
  simp [ha, hb]

/-- A removal that was refused a kind for another reason than that the server does not know it reports
such a failure, unless it is shadowed. -/
theorem Reckons.reports (h : Reckons r (plan r reg) later x earlier as o told) {k : Kind} {f : Fault}
    (hk : reply? r (later ++ x :: earlier) k = some (.error f)) (hf : f.isNoWatcher = false) :
    ∃ g k', o.result = .error g ∧ reply? r (later ++ x :: earlier) k' = some (.error g) ∧
      (g.isNoWatcher = true ↔ Shadowed r (plan r reg) (later ++ x :: earlier)) := by
  have hserver := h.heard.mem k _ hk
  rcases server_cases r reg with ⟨k₀, hsub⟩ | hboth
  · have hone : (plan r reg).server = [k] := by
      rcases List.sublist_singleton.mp hsub with hnil | hone
      · rw [hnil] at hserver
        cases hserver
      · rw [hone] at hserver ⊢
        rw [List.mem_singleton.mp hserver]
    obtain ⟨hresult, hnot⟩ := h.reports_one hone hk hf
    exact ⟨f, k, hresult, hk, iff_of_false (by simp [hf]) hnot⟩
  · have hall := h.all
    rw [hboth] at hall
    obtain ⟨a, b, rfl⟩ := List.length_eq_two.mp hall
    have hmem : ∀ y ∈ [(Kind.data, a), (Kind.children, b)],
        reply? r (later ++ x :: earlier) y.1 = some y.2 := by
      intro y hy
      refine (mem_zip_iff_reply h.heard).mp ?_
      rw [hboth]
      exact hy
    have hdata := hmem (.data, a) (.head _)
    have hchildren := hmem (.children, b) (.tail _ (.head _))
    by_cases hshadowed : Shadowed r (plan r reg) (later ++ x :: earlier)
    · obtain ⟨hq, hp, f₁, hf₁, hn⟩ := id hshadowed
      obtain rfl : a = .error f₁ := Option.some.inj (hdata.symm.trans hf₁)
      refine ⟨f₁, .data, h.reports_first hboth ?_, hdata, iff_of_true hn hshadowed⟩
      simp [countedFault?, hq, hp]
    · by_cases ha : ∃ f₁, a = .error f₁ ∧ f₁.isNoWatcher = false
      · obtain ⟨f₁, rfl, hn⟩ := ha
        exact ⟨f₁, .data, h.reports_first hboth (countedFault?_of_other hn), hdata,
          iff_of_false (by simp [hn]) hshadowed⟩
      · have hnone : countedFault? r (plan r reg) a = none := by
          cases a with
          | ok y => rfl
          | error f₁ =>
            have hn : f₁.isNoWatcher = true := by
              by_contra hn
              exact ha ⟨f₁, rfl, by simpa using hn⟩
            by_contra hc
            refine hshadowed ⟨?_, ?_, f₁, hdata, hn⟩
            · exact Bool.eq_false_iff.mpr fun hq => hc (by simp [countedFault?, hn, hq])
            · exact Bool.eq_false_iff.mpr fun hp => hc (by simp [countedFault?, hn, hp])
        have hkind : k = .children := by
          cases k with
          | children => rfl
          | data => exact absurd ⟨f, Option.some.inj (hdata.symm.trans hk), hf⟩ ha
        subst hkind
        obtain rfl : b = .error f := Option.some.inj (hchildren.symm.trans hk)
        exact ⟨f, .children, h.reports_second hboth hnone (countedFault?_of_other hf), hk,
          iff_of_false (by simp [hf]) hshadowed⟩

end

/-- A removal that comes to its end, whatever else goes on, after it was refused a kind for another
reason than that the server does not know it: it fails, and with such a reason, which its callback is
told the code of, unless it is shadowed; then it says that there was no watch. -/
theorem failure_reported_iff {settings : Settings} {feed : Option Nat} {s t : Engine} {w : Pursuit}
    (hs : Engine.Reachable settings feed s) (ho : s.client.closed = false)
    (hb : s.Undertakes party r t) (h : Relation.ReflTransGen (Pursuit.Step party) ⟨t, []⟩ w)
    {result : Except Fault (List Entry)}
    (hw : w.engine.task? party = some (.removal r (.done result))) {k : Kind} {f : Fault}
    (hk : reply? r w.turns k = some (.error f)) (hf : f.isNoWatcher = false) :
    ((∃ g k', result = .error g ∧ g.isNoWatcher = false ∧
        reply? r w.turns k' = some (.error g)) ↔
      ¬Shadowed r (plan r s.client.registry) w.turns) ∧
    (∃ g k', result = .error g ∧ reply? r w.turns k' = some (.error g)) ∧
    ResultCode.ofResult result ≠ .ok ∧
    (ResultCode.ofResult result = .noWatcher ↔
      Shadowed r (plan r s.client.registry) w.turns) ∧
    ∀ b awake u fn, party = .remover → w.engine.worker = .removing b (.done result) awake →
      b.callback = some fn → Engine.act (.resume .remover) w.engine = some u →
      u.worker = .reporting fn
        (.removal r.path r.kind (ResultCode.ofResult result) false) true := by
  obtain ⟨hremote, hvalid⟩ := remote_of_reply hs.orderly ho hb h hk
  obtain ⟨st, hst, htraced⟩ := traced_run hs.orderly ho hremote hvalid hb h
  obtain rfl := (Operation.removal.inj (Option.some.inj (hw.symm.trans hst))).2
  obtain ⟨g, k', rfl, hreply, hg⟩ : ∃ g k', result = .error g ∧
      reply? r w.turns k' = some (.error g) ∧
      (g.isNoWatcher = true ↔ Shadowed r (plan r s.client.registry) w.turns) := by
    rcases htraced with ⟨_, _, hturns, _⟩ | htraced
    · rw [hturns] at hk
      cases hk
    · obtain ⟨o, rfl, later, x, earlier, as, hturns, hreckons⟩ := htraced
      rw [hturns] at hk ⊢
      exact hreckons.reports hk hf
  refine ⟨?_, ⟨g, k', rfl, hreply⟩, ResultCode.ofResult_ne_ok g, ResultCode.ofResult_noWatcher.trans hg,
    ?_⟩
  · rw [← hg, Bool.not_eq_true]
    constructor
    · rintro ⟨g', _, he, hn, _⟩
      rw [Except.error.inj he]
      exact hn
    · exact fun hn => ⟨g, k', rfl, hn, hreply⟩
  · rintro b awake u fn rfl hworker hcallback hact
    obtain rfl : b.request = r := by
      rw [Engine.task?, hworker] at hw
      exact (Operation.removal.inj (Option.some.inj hw)).1
    obtain ⟨⟨w', c'⟩, hresume, rfl⟩ := Option.map_eq_some_iff.mp hact
    rw [hworker] at hresume
    cases awake with
    | false => cases hresume
    | true =>
      have hconclude := (Prod.mk.inj (Option.some.inj hresume)).1
      simp only [hcallback, Worker.completion] at hconclude
      exact hconclude.symm

/-- The removal of a subscriber who holds both kinds of a path alone. -/
def soleRemoval : RemovalRequest :=
  ⟨"/a", .any, .one (.watcher (.named "w")), false, false⟩

/-- The removal's two requests are answered, and then it goes on to its end. -/
def soleScript (a b : Answer) (n : Nat) : List Engine.Action :=
  [.resume (.caller 2), .resume (.caller 2), .answer (.caller 2) 0 a, .answer (.caller 2) 1 b] ++
    List.replicate n (.resume (.caller 2))

theorem sole_run (a b : Answer) (n : Nat) (f : Fault)
    (h : playsOut (armBoth "w") 2 soleRemoval (soleScript a b n) (fun _ w => decide (
      (w.engine.task? (.caller 2)).bind Operation.ending? = some (soleRemoval, .error f) ∧
      reply? soleRemoval w.turns .data = some a ∧
      reply? soleRemoval w.turns .children = some b)) = true) :
    ∃ (s t : Engine) (w : Pursuit), Engine.Reachable {} none s ∧ s.client.closed = false ∧
      s.Undertakes (.caller 2) soleRemoval t ∧
      Relation.ReflTransGen (Pursuit.Step (.caller 2)) ⟨t, []⟩ w ∧
      w.engine.task? (.caller 2) = some (.removal soleRemoval (.done (.error f))) ∧
      reply? soleRemoval w.turns .data = some a ∧
      reply? soleRemoval w.turns .children = some b := by
  obtain ⟨s, t, w, hs, ho, hb, h, hcheck⟩ := run_of_playsOut h
  obtain ⟨hended, hdata, hchildren⟩ := of_decide_eq_true hcheck
  exact ⟨s, t, w, hs, ho, hb, h, Engine.task?_of_ending? hended, hdata, hchildren⟩

/-- One kind is dropped, for the other the connection is lost, and that is what the removal reports. -/
theorem lost_connection_reported :
    ∃ (s t : Engine) (w : Pursuit), Engine.Reachable {} none s ∧ s.client.closed = false ∧
      s.Undertakes (.caller 2) soleRemoval t ∧
      Relation.ReflTransGen (Pursuit.Step (.caller 2)) ⟨t, []⟩ w ∧
      w.engine.task? (.caller 2) =
        some (.removal soleRemoval (.done (.error .connectionLoss))) ∧
      reply? soleRemoval w.turns .data = some (.ok .removed) ∧
      reply? soleRemoval w.turns .children = some (.error .connectionLoss) ∧
      ¬Shadowed soleRemoval (plan soleRemoval s.client.registry) w.turns := by
  obtain ⟨s, t, w, hs, ho, hb, h, hw, hdata, hchildren⟩ :=
    sole_run (.ok .removed) (.error .connectionLoss) 4 .connectionLoss (by decide +kernel)
  have hreported := failure_reported_iff hs ho hb h hw hchildren rfl
  exact ⟨s, t, w, hs, ho, hb, h, hw, hdata, hchildren,
    hreported.1.mp ⟨.connectionLoss, .children, rfl, rfl, hchildren⟩⟩

/-- A lost connection is not always reported: one kind is unknown to the server, for the other the
connection is lost, and the removal says that there was no watch. -/
theorem lost_connection_shadowed :
    ¬∀ (settings : Settings) (feed : Option Nat) (s t : Engine) (party : Party)
      (r : RemovalRequest) (w : Pursuit) (result : Except Fault (List Entry)),
      Engine.Reachable settings feed s → s.client.closed = false → s.Undertakes party r t →
      Relation.ReflTransGen (Pursuit.Step party) ⟨t, []⟩ w →
      w.engine.task? party = some (.removal r (.done result)) →
      (∃ k f, reply? r w.turns k = some (.error f) ∧ f.isNoWatcher = false) →
      ∃ g k, result = .error g ∧ g.isNoWatcher = false ∧
        reply? r w.turns k = some (.error g) := by
  intro hall
  obtain ⟨s, t, w, hs, ho, hb, h, hw, _, hchildren⟩ :=
    sole_run (.error (.noWatcher "/a" (.only .data))) (.error .connectionLoss) 2
      (.noWatcher "/a" (.only .data)) (by decide +kernel)
  obtain ⟨g, _, hg, hn, _⟩ := hall {} none s t (.caller 2) soleRemoval w _ hs ho hb h hw
    ⟨.children, .connectionLoss, hchildren, rfl⟩
  obtain rfl := Except.error.inj hg
  cases hn

end Removal

end NodeWatch
