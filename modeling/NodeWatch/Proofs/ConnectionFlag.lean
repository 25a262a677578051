import NodeWatch.Proofs.EntryConservation
import NodeWatch.Proofs.OperationSendings

/-! Whether the connection counts as live. An event of the session decides it when it begins to be
handled, except that an expired session leaves it as it is until the recovery ends; then the
connection counts as live, whatever was reported meanwhile. -/

namespace NodeWatch

/-- What bears on the connection: an event begins to be handled, or a recovery ends. -/
inductive Tiding where
  | begun (event : SessionEvent)
  | restored
  deriving DecidableEq

namespace Tiding

def event? : Tiding → Option SessionEvent
  | begun e => some e
  | restored => none

def verdict : Tiding → Bool → Bool
  | begun e => Session.verdict e
  | restored => fun _ => true

/-- The event that began to be handled last. Of several tidings the latest comes first. -/
def last? (ts : List Tiding) : Option SessionEvent :=
  ts.findSome? event?

def live (ts : List Tiding) : Bool :=
  ts.foldr verdict true

end Tiding

/-- A session event whose handling goes on has expired the session, and the recovery is not over. -/
def Session.Stage.Recovers : Session.Stage → Prop
  | .expiring | .expired | .resubmitting _ | .dropping .. => True
  | .reporting _ | .done => False

namespace Client

theorem connected_deliver (conduct : Client → Call → Conduct) (c : Client) (d : Delivery) :
    (c.deliver conduct d).connected = c.connected := by
  refine List.foldlRecOn (motive := fun c' : Client => c'.connected = c.connected) _ _ rfl ?_
  intro c' hc x _
  have hdeeds : ((conduct (c'.note (.called x)) x).deeds.foldl Client.apply
      (c'.note (.called x))).connected = c.connected :=
    List.foldlRecOn (motive := fun c' : Client => c'.connected = c.connected) _ _ hc
      fun c' hc d _ => by cases d <;> exact hc
  unfold Client.call
  dsimp only
  split
  · exact hdeeds
  · exact hdeeds

end Client

namespace Engine

variable {a : Action} {s t : Engine}

def Action.tiding? (s : Engine) : Action → Option Tiding
  | .begin (.session e) => some (.begun e)
  | .listen => if s.feed.lost = 0 then s.feed.unread.head?.map .begun else none
  | .resume p => match s.task? p with
    | some (.session st) => if Session.restores st then some .restored else none
    | _ => none
  | _ => none

/-- A run of an open client on which no session event is given up half-way, with its tidings. -/
inductive Told (s : Engine) : List Tiding → Engine → Prop
  | start : Told s [] s
  | step {ts : List Tiding} {t u : Engine} (a : Action) (told : Told s ts t)
    (opened : t.client.closed = false)
    (kept : ∀ id st, a = .abandon id → t.call? id = some (.session st) → st = .done)
    (act : act a t = some u) : Told s ((a.tiding? t).toList ++ ts) u

def Recovers (s : Engine) : Prop :=
  ∃ p st, (p, .session st) ∈ s.tasks ∧ st.Recovers

theorem tiding?_actionOf {p : Party} {m : Move} {o : Operation} (ho : s.task? p = some o) :
    (actionOf p m).tiding? s = if Operation.restores m o then some .restored else none := by
  cases m with
  | resume =>
    simp only [actionOf, Action.tiding?, ho]
    cases o <;> rfl
  | answer | timeOut | retry => rfl

theorem listen_cases (ho : s.client.closed = false) (h : act .listen s = some t) :
    s.listener.task? = none ∧
      ((Action.tiding? s .listen = none ∧ t.client.connected = s.client.connected ∧
          t.listener.task? = none) ∨
        ∃ e, Action.tiding? s .listen = some (.begun e) ∧
          t.client = (Session.start e s.client).2 ∧
          t.listener.task? = some (.session (Session.start e s.client).1)) := by
  cases listened ho h with
  | lagged idle lagging =>
    exact ⟨by rw [idle]; rfl, .inl ⟨by simp [Action.tiding?, Nat.ne_of_gt lagging], rfl, by rw [idle]; rfl⟩⟩
  | heard e es idle lossless unread =>
    refine ⟨by rw [idle]; rfl, .inr ⟨e, by simp [Action.tiding?, lossless, unread], rfl, ?_⟩⟩
    cases e <;> rfl
  | deafened idle lossless unread =>
    exact ⟨by rw [idle]; rfl, .inl ⟨by simp [Action.tiding?, lossless, unread], rfl, rfl⟩⟩

theorem connected_act (ho : s.client.closed = false) (h : act a s = some t) :
    t.client.connected = (a.tiding? s).toList.foldr Tiding.verdict s.client.connected := by
  cases act_change ho h with
  | begun o =>
    rw [(Operation.idles_start o s.client).connected]
    cases o with
    | session e => simp [Operation.verdict, ho, Action.tiding?, Tiding.verdict]
    | arm | remove | enrol | notify => rfl
  | moved p m o o' c action task move =>
    rw [client_put, (Operation.mails_move move).connected, action, tiding?_actionOf task]
    cases Operation.restores m o <;> rfl
  | concluded b r worker =>
    have hnone : Action.tiding? s (.resume .remover) = none := by
      simp [Action.tiding?, task?, worker, Worker.task?]
    rw [hnone]
    exact (Client.Idles.of_remarked (Worker.remarked_conclude b r s.client)).connected
  | reported f e sent c worker send =>
    have hnone : Action.tiding? s (.resume .remover) = none := by
      simp [Action.tiding?, task?, worker, Worker.task?]
    have hc : c = (s.client.send .remover (.completion f e)).2 := by rw [send]
    rw [hnone]
    exact (Client.Mails.sent (p := .remover) (.completion f e) [] hc rfl).connected
  | dispatched conduct d q => exact Client.connected_deliver conduct _ d
  | undertook b => exact (Removal.idles_start b.request s.client).connected
  | lagged | heard | deafened =>
    rcases (listen_cases ho h).2 with ⟨hnone, hc, _⟩ | ⟨e, hsome, hc, _⟩
    · rw [hnone]
      exact hc
    · rw [hsome]
      exact (congrArg Client.connected hc).trans (Session.idles_start e s.client).connected
  | stirred w action => rcases action with rfl | rfl <;> rfl
  | performed d => cases d <;> rfl
  | silenced | took | retired | fed | feedEnded | released | abandoned | collected => rfl

theorem recovers_of_expired (hs : s.Orderly) (ho : s.client.closed = false)
    (h : act a s = some t) (ht : a.tiding? s = some (.begun .expired)) : t.Recovers := by
  cases a with
  | begin o =>
    cases o with
    | session e =>
      obtain rfl : e = .expired := by simpa [Action.tiding?] using ht
      obtain ⟨p, _, hafter, _⟩ := begin_turnover hs ho h
      refine ⟨p, .expiring, ?_, trivial⟩
      rw [hafter]
      simp [Operation.start, Session.startOpen, ho, Session.start, Prod.map]
    | arm | remove | enrol | notify => cases ht
  | listen =>
    rcases (listen_cases ho h).2 with ⟨hnone, _⟩ | ⟨e, hsome, _, htask⟩
    · rw [hnone] at ht
      cases ht
    · obtain rfl : e = .expired := by simpa [hsome] using ht
      exact ⟨.listener, .expiring, mem_tasks.mpr (.inr (.inr ⟨rfl, htask⟩)), trivial⟩
  | resume p =>
    simp only [Action.tiding?] at ht
    split at ht
    · split at ht <;> cases ht
    · cases ht
  | answer | timeOut | retry | dispatch | turn | sleep | feed | endFeed | perform | release
  | abandon | collect => cases ht

theorem recovers_of_move {st : Session.Stage} {m : Move} {p : Party} {o' : Operation}
    {c c' : Client} (hr : st.Recovers) (h : (Operation.session st).move m p c = some (o', c'))
    (hn : Operation.restores m (.session st) = false) :
    ∃ st', o' = .session st' ∧ st'.Recovers := by
  cases Operation.moves h with
  | handling st st' c' resume =>
    refine ⟨st', rfl, ?_⟩
    cases Session.resumed resume with
    | expiring => split <;> trivial
    | expired =>
      unfold Session.recover
      dsimp only
      split <;> trivial
    | started | gathered | telling | kept | dropped => trivial
    | restored => cases hn
    | reporting => cases hr
  | answered slot x st st' c' answer =>
    obtain ⟨ts, task, b, rfl, _, _, rfl⟩ := Session.update_eq_some answer
    exact ⟨_, rfl, trivial⟩
  | timedOut slot st st' c' timeOut =>
    obtain ⟨ts, task, b, rfl, _, _, rfl⟩ := Session.update_eq_some timeOut
    exact ⟨_, rfl, trivial⟩
  | retried slot st st' c' retry =>
    obtain ⟨ts, task, b, rfl, _, _, rfl⟩ := Session.update_eq_some retry
    exact ⟨_, rfl, trivial⟩

theorem Recovers.act (hr : s.Recovers) (hs : s.Orderly) (ho : s.client.closed = false)
    (hkept : ∀ id st, a = .abandon id → s.call? id = some (.session st) → st = .done)
    (h : act a s = some t) (ht : a.tiding? s ≠ some .restored) : t.Recovers := by
  obtain ⟨p, st, hmem, hst⟩ := hr
  cases act_turnover hs ho h with
  | started q o taken origin fresh after =>
    exact ⟨p, st, after ▸ Multiset.mem_cons_of_mem hmem, hst⟩
  | moved q m o o' rest action before move after =>
    rw [before, Multiset.mem_cons] at hmem
    rcases hmem with he | hmem
    · obtain ⟨rfl, rfl⟩ := Prod.mk.inj he
      have htask := task?_of_mem hs (before ▸ Multiset.mem_cons_self _ _)
      have hn : Operation.restores m (.session st) = false := by
        rw [action, tiding?_actionOf htask] at ht
        simpa using ht
      obtain ⟨st', rfl, hst'⟩ := recovers_of_move hst move hn
      refine ⟨p, st', ?_, hst'⟩
      rcases after with after | ⟨hdone, _⟩
      · rw [after]
        exact Multiset.mem_cons_self _ _
      · cases hdone
        cases hst'
    · refine ⟨p, st, ?_, hst⟩
      rcases after with after | ⟨_, after⟩
      · rw [after]
        exact Multiset.mem_cons_of_mem hmem
      · rwa [after]
  | ended q o rest inside before finished after =>
    rw [before, Multiset.mem_cons] at hmem
    refine ⟨p, st, after ▸ hmem.resolve_left fun he => ?_, hst⟩
    obtain ⟨rfl, rfl⟩ := Prod.mk.inj he
    cases st with
    | expiring | expired | resubmitting | dropping => cases finished
    | reporting | done => cases hst
  | abandoned id o rest action before after =>
    rw [before, Multiset.mem_cons] at hmem
    refine ⟨p, st, after ▸ hmem.resolve_left fun he => ?_, hst⟩
    obtain ⟨rfl, rfl⟩ := Prod.mk.inj he
    have htask := task?_of_mem hs (before ▸ Multiset.mem_cons_self _ _)
    rw [hkept id st action htask] at hst
    exact hst
  | beside inside after => exact ⟨p, st, after ▸ hmem, hst⟩
  | silenced inside silent after => exact ⟨p, st, after ▸ hmem, hst⟩

structure Informed (ts : List Tiding) (t : Engine) : Prop where
  orderly : t.Orderly
  connected : t.client.connected = Tiding.live ts
  /-- A connection that is lost was reported lost by the last event, or is about to be restored. -/
  lost : Tiding.live ts = false → ts.head? = some (.begun .disconnected) ∨ t.Recovers

theorem Informed.act {ts : List Tiding} (hi : Informed ts s) (ho : s.client.closed = false)
    (hkept : ∀ id st, a = .abandon id → s.call? id = some (.session st) → st = .done)
    (h : act a s = some t) : Informed ((a.tiding? s).toList ++ ts) t := by
  refine ⟨orderly_act hi.orderly h, ?_, fun hlive => ?_⟩
  · rw [connected_act ho h, hi.connected, Tiding.live, Tiding.live, List.foldr_append]
  · cases ht : a.tiding? s with
    | none =>
      rw [ht] at hlive
      rcases hi.lost hlive with hlast | hr
      · exact .inl hlast
      · exact .inr (hr.act hi.orderly ho hkept h (by simp [ht]))
    | some x =>
      rw [ht] at hlive
      cases x with
      | restored => cases hlive
      | begun e => cases e with
        | disconnected => exact .inl rfl
        | reconnected => cases hlive
        | expired => exact .inr (recovers_of_expired hi.orderly ho h ht)

theorem Told.informed {settings : Settings} {feed : Option Nat} {ts : List Tiding}
    (hb : build settings feed = .built s) (h : Told s ts t) : Informed ts t := by
  induction h with
  | start =>
    obtain ⟨d, r, _, _, rfl⟩ := build_eq hb
    exact ⟨orderly_initial settings d r feed, rfl, fun h => by cases h⟩
  | step a _ ho hkept hact ih => exact ih.act ho hkept hact

theorem Informed.connected_eq_false {ts : List Tiding} (h : Informed ts t)
    (hdone : ∀ p st, (p, .session st) ∈ t.tasks → st = .done) :
    t.client.connected = false ↔ ts.head? = some (.begun .disconnected) := by
  have hcalm : ¬t.Recovers := by
    rintro ⟨p, st, hmem, hst⟩
    rw [hdone p st hmem] at hst
    exact hst
  rw [h.connected]
  refine ⟨fun hlive => (h.lost hlive).resolve_right hcalm, fun hhead => ?_⟩
  obtain ⟨ts', rfl⟩ := List.head?_eq_some_iff.mp hhead
  rfl

/-- Once every session event is handled the connection counts as lost exactly if the start of a
`disconnected` is the last tiding of all. So the last event to begin decides, unless it is a
`disconnected` after whose start a recovery still came to its end. -/
theorem connected_eq_false_iff {settings : Settings} {feed : Option Nat} {ts : List Tiding}
    (hb : build settings feed = .built s) (h : Told s ts t)
    (hdone : ∀ p st, (p, .session st) ∈ t.tasks → st = .done) :
    (t.client.connected = false ↔ ts.head? = some (.begun .disconnected)) ∧
      ((t.client.connected = false ↔ Tiding.last? ts = some .disconnected) ↔
        ¬(Tiding.last? ts = some .disconnected ∧ ts.head? = some .restored)) := by
  have hiff := (h.informed hb).connected_eq_false hdone
  refine ⟨hiff, ?_⟩
  rw [hiff]
  cases ts with
  | nil => simp [Tiding.last?]
  | cons x ts => cases x <;> simp [Tiding.last?, List.findSome?_cons, Tiding.event?]

def listenIn : List Action → List Tiding × Engine → Option (List Tiding × Engine)
  | [], x => some x
  | a :: as, x =>
    if x.2.client.closed then none
    else (act a x.2).bind fun t => listenIn as ((a.tiding? x.2).toList ++ x.1, t)

theorem told_of_listenIn {as : List Action} {x y : List Tiding × Engine}
    (hk : ∀ id, .abandon id ∉ as) (hx : Told s x.1 x.2) (h : listenIn as x = some y) :
    Told s y.1 y.2 := by
  induction as generalizing x with
  | nil =>
    obtain rfl := Option.some.inj h
    exact hx
  | cons a as ih =>
    simp only [listenIn] at h
    split at h
    · cases h
    · rename_i ho
      obtain ⟨t, ht, h⟩ := Option.bind_eq_some_iff.mp h
      refine ih (fun id hm => hk id (.tail a hm))
        (.step a hx (by simpa using ho) (fun id st ha _ => ?_) ht) h
      exact absurd (ha ▸ List.mem_cons_self) (hk id)

theorem done_of_finished {st : Session.Stage} (h : (Operation.session st).Finished) :
    st = .done := by
  cases st with
  | done => rfl
  | expiring | expired | resubmitting | dropping | reporting => cases h

theorem exists_told (as : List Action) (p : List Tiding × Engine → Bool)
    (hk : ∀ id, .abandon id ∉ as)
    (h : (listenIn as ([], fresh)).any (fun y =>
      decide (∀ x ∈ y.2.tasks, x.2.Finished) && p y) = true) :
    ∃ s ts t, build {} none = .built s ∧ Told s ts t ∧
      (∀ p st, (p, .session st) ∈ t.tasks → st = .done) ∧ p (ts, t) = true := by
  obtain ⟨⟨ts, t⟩, hrun, hy⟩ := (Option.any_eq_true _ _).mp h
  rw [Bool.and_eq_true] at hy
  exact ⟨_, ts, t, build_fresh, told_of_listenIn hk .start hrun,
    fun q st hmem => done_of_finished (of_decide_eq_true hy.1 _ hmem), hy.2⟩

/-- A session expires and is recovered, and afterwards the connection is lost. -/
theorem connection_lost_after_recovery :
    ∃ s ts t, build {} none = .built s ∧ Told s ts t ∧
      ts.head? = some (.begun .disconnected) ∧ t.client.connected = false := by
  obtain ⟨s, ts, t, hb, hrun, hdone, hhead⟩ := exists_told
    [.begin (.session .expired), .resume (.caller 0), .resume (.caller 0), .resume (.caller 0),
      .resume (.caller 0), .resume (.caller 0), .begin (.session .disconnected),
      .resume (.caller 1)]
    (fun y => y.1.head? = some (.begun .disconnected)) (by simp) (by decide +kernel)
  have hlast := of_decide_eq_true hhead
  exact ⟨s, ts, t, hb, hrun, hlast, (connected_eq_false_iff hb hrun hdone).1.mpr hlast⟩

/-- The connection is lost while an expired session is recovered, and when the recovery is over the
connection counts as live. -/
theorem lost_connection_restored :
    ¬∀ (settings : Settings) (feed : Option Nat) (s t : Engine) (ts : List Tiding),
      build settings feed = .built s → Told s ts t →
      (∀ p st, (p, .session st) ∈ t.tasks → st = .done) →
      (t.client.connected = false ↔ Tiding.last? ts = some .disconnected) := by
  obtain ⟨s, ts, t, hb, hrun, hdone, hc⟩ := exists_told
    [.begin (.session .expired), .resume (.caller 0), .resume (.caller 0),
      .begin (.session .disconnected), .resume (.caller 1), .resume (.caller 0),
      .resume (.caller 0), .resume (.caller 0)]
    (fun y => y.2.client.connected && Tiding.last? y.1 = some .disconnected) (by simp)
    (by decide +kernel)
  simp only [Bool.and_eq_true, decide_eq_true_eq] at hc
  intro h
  have hlost := (h {} none s t ts hb hrun hdone).mpr hc.2
  rw [hc.1] at hlost
  cases hlost

end Engine

end NodeWatch
