import Mathlib.Algebra.GroupWithZero.Nat
import Mathlib.Data.Prod.Lex
import Mathlib.Order.WellFounded
import NodeWatch.Proofs.ExpiryStages

/-! An expiry is handled to the end, whatever the server answers and when, and whatever user code
does short of closing the client. -/

namespace NodeWatch

open Session (Spot Task)

namespace Engine

/-- The client is open, its deliveries are carried out, and nobody waits to queue one. -/
structure Still (s : Engine) : Prop where
  orderly : s.Orderly
  opened : s.client.closed = false
  dispatching : s.dispatching = true
  isOpen : s.client.deliveries.isOpen = true
  capacity : 0 < s.client.deliveries.capacity
  line : s.client.deliveries.line = []
  admitted : s.client.deliveries.admitted = []

/-- The dispatch worker of an open client carries out what is first in the queue. -/
theorem dispatch_of_cons {s : Engine} (hd : s.dispatching = true) (ho : s.client.closed = false)
    {d : Delivery} {ds : List Delivery} (hi : s.client.deliveries.items = d :: ds)
    (conduct : Client → Call → Conduct) :
    ∃ q, s.client.deliveries.take? = some (d, q) ∧ act (.dispatch conduct) s =
      some { s with client := { s.client with deliveries := q }.deliver conduct d } := by
  have htake : s.client.deliveries.take? =
      some (d, { s.client.deliveries with items := ds }.grant) := by
    simp [Queue.take?, hi]
  exact ⟨_, htake, by simp [act, dispatch, hd, ho, htake]⟩

theorem dispatch_of_items {s : Engine} (hd : s.dispatching = true) (ho : s.client.closed = false)
    (hi : s.client.deliveries.items ≠ []) :
    ∃ t d q, act (.dispatch fun _ _ => {}) s = some t ∧ s.client.deliveries.take? = some (d, q) ∧
      t = { s with client := { s.client with deliveries := q }.deliver (fun _ _ => {}) d } ∧
      t.client.deliveries = q ∧ t.client.removals = s.client.removals := by
  obtain ⟨d, ds, hds⟩ := List.exists_cons_of_ne_nil hi
  obtain ⟨q, htake, hact⟩ := dispatch_of_cons hd ho hds fun _ _ => {}
  have hidle : ∀ c x, .close ∉ ((fun _ _ => {} : Client → Call → Conduct) c x).deeds := by simp
  have hstays := Client.Stays.deliver hidle { s.client with deliveries := q } d
  exact ⟨_, d, q, hact, htake, rfl, hstays.deliveries, hstays.removals⟩

/-- An expiry is taken up: by a call, or by the listener, from the feed. -/
inductive TakesUp (s : Engine) : Party → Engine → Prop
  | called (t : Engine) (act : act (.begin (.session .expired)) s = some t) :
    TakesUp s (.caller s.nextCall) t
  | heard (t : Engine) (es : List SessionEvent) (lossless : s.feed.lost = 0)
    (unread : s.feed.unread = .expired :: es) (act : act .listen s = some t) :
    TakesUp s .listener t

theorem TakesUp.taken {s t : Engine} {p : Party} (hs : s.Still) (ht : s.TakesUp p t) :
    t.client = (Session.startOpen .expired s.client).2 ∧ t.Handles p .expiring ∧
      t.dispatching = true := by
  cases ht with
  | called t act =>
    simp only [Engine.act, Engine.begin] at act
    split at act
    · obtain rfl := Option.some.inj act
      refine ⟨rfl, .inl ?_, hs.dispatching⟩
      rw [task?_begun hs.orderly, if_pos rfl]
      simp [Operation.start, Session.startOpen, Session.start, hs.opened]
    · cases act
  | heard t es lossless unread act =>
    obtain ⟨⟨l, f, c⟩, hl, rfl⟩ := Option.map_eq_some_iff.mp act
    cases hlistener : s.listener with
    | idle =>
      simp only [hlistener, Listener.listen, hs.opened, lossless, unread, lt_irrefl, if_false,
        Bool.false_eq_true, Option.some.injEq, Prod.mk.injEq] at hl
      obtain ⟨rfl, rfl, rfl⟩ := hl
      exact ⟨by simp [Session.startOpen, hs.opened], .inl rfl, hs.dispatching⟩
    | handling | stopped => simp [hlistener, Listener.listen] at hl

end Engine

namespace Session

variable {p : Party} {c : Client} {st : Stage}

/-- What a task may still do. -/
def Task.rank (policy : BackoffPolicy) (t : Task) : Nat :=
  match t.stage with
  | .unstarted => 2 * Backoff.attempts policy + 2
  | .trying n _ => 2 * (Backoff.attempts policy + 1 - n) + 1
  | .pausing n _ => 2 * (Backoff.attempts policy - n) + 2
  | .ended _ => 0

/-- What the handling of an expiry has before it. -/
def Stage.rank (policy : BackoffPolicy) : Stage → Nat ×ₗ Nat ×ₗ Nat
  | .expiring => toLex (5, toLex (0, 0))
  | .expired => toLex (4, toLex (0, 0))
  | .resubmitting ts => toLex (3, toLex ((ts.map (Task.rank policy)).sum, 0))
  | .dropping rs rest => toLex (2, toLex (rs.length, rest.length))
  | .reporting _ => toLex (1, toLex (0, 0))
  | .done => toLex (0, toLex (0, 0))

theorem rank_set_lt {policy : BackoffPolicy} {ts : List Task} {i : Nat} {t : Task}
    (ht : ts[i]? = some t) {b : Backoff.Stage}
    (hb : Task.rank policy { t with stage := b } < Task.rank policy t) :
    Stage.rank policy (.resubmitting (ts.set i { t with stage := b })) <
      Stage.rank policy (.resubmitting ts) := by
  obtain ⟨hlt, rfl⟩ := List.getElem?_eq_some_iff.mp ht
  obtain ⟨before, after, hts, hset⟩ : ∃ before after, ts = before ++ ts[i] :: after ∧
      ts.set i { ts[i] with stage := b } = before ++ { ts[i] with stage := b } :: after := by
    obtain ⟨before, after, hts, _, hset⟩ := List.exists_of_set hlt
    exact ⟨before, after, hts, hset⟩
  have hsum : ((ts.set i { ts[i] with stage := b }).map (Task.rank policy)).sum <
      (ts.map (Task.rank policy)).sum := by
    rw [hset]
    conv_rhs => rw [hts]
    simpa using hb
  simpa [Stage.rank, Prod.Lex.toLex_lt_toLex] using hsum

theorem rank_failed_lt {policy : BackoffPolicy} {n d : Nat} {f : Fault} {spot : Spot} :
    Task.rank policy ⟨spot, (Backoff.failed policy n d f c).1⟩ <
      Task.rank policy ⟨spot, .trying n d⟩ := by
  simp only [Backoff.failed]
  split
  · simp only [Task.rank]
    omega
  · simp [Task.rank]

theorem rank_started_lt (policy : BackoffPolicy) {t : Task} (h : Backoff.isUnstarted t.stage = true)
    (d : Nat) : Task.rank policy { t with stage := .trying 1 d } < Task.rank policy t := by
  have hstage : t.stage = .unstarted := by
    cases hs : t.stage <;> simp_all [Backoff.isUnstarted]
  simp only [Task.rank, hstage]
  omega

theorem update_of_getElem? {ts : List Task} {i : Nat} {t : Task} (ht : ts[i]? = some t)
    {f : Task → Client → Option (Backoff.Stage × Client)} {b : Backoff.Stage} {c' : Client}
    (hf : f t c = some (b, c')) : update i f (.resubmitting ts) c =
      some (.resubmitting (ts.set i { t with stage := b }), c') := by
  simp [update, ht, hf]

theorem resume_of_offers (policy : BackoffPolicy) (hc : c.Calm p) (ho : offers st = true)
    (hline : c.deliveries.line = []) :
    ∃ st' c', resume p st c = some (st', c') ∧ (Stage.rank policy st' < Stage.rank policy st ∨
      st' = st ∧ c.deliveries.admitted = [] ∧ c'.deliveries.line = [p]) := by
  have hstalls : c.deliveries.stalls p = false := by
    rw [Bool.eq_false_iff, ne_eq, hc.free.stalls hc.isOpen, hline]
    simp
  have hsend : ∀ d, (∃ c', c.send p d = (true, c')) ∨
      ∃ c', c.send p d = (false, c') ∧ c.deliveries.admitted = [] ∧ c'.deliveries.line = [p] := by
    intro d
    rcases hc.send d with ⟨_, q, hs, _⟩ | ⟨hwait, q, hs, _, hq⟩
    · exact .inl ⟨_, hs⟩
    · refine .inr ⟨_, hs, ?_, hq ▸ rfl⟩
      rcases hwait with hwait | hwait
      · rw [hline] at hwait
        cases hwait
      · exact hwait.2
  cases st with
  | expiring =>
    rcases hsend (.state (.linkChange .expired)) with ⟨c', hs⟩ | ⟨c', hs, ha, hq⟩
    · refine ⟨.expired, c', by simp [resume, expire, hstalls, hs], .inl ?_⟩
      simp [Stage.rank, Prod.Lex.toLex_lt_toLex]
    · exact ⟨.expiring, c', by simp [resume, expire, hstalls, hs], .inr ⟨rfl, ha, hq⟩⟩
  | dropping rs rest =>
    cases rest with
    | nil => cases ho
    | cons e es =>
      rcases hsend (.removed e .expired) with ⟨c', hs⟩ | ⟨c', hs, ha, hq⟩
      · refine ⟨.dropping rs es, c', by simp [resume, hstalls, hs], .inl ?_⟩
        simp [Stage.rank, Prod.Lex.toLex_lt_toLex]
      · exact ⟨.dropping rs (e :: es), c', by simp [resume, hstalls, hs], .inr ⟨rfl, ha, hq⟩⟩
  | reporting state =>
    rcases hsend (.state (.linkChange state)) with ⟨c', hs⟩ | ⟨c', hs, ha, hq⟩
    · refine ⟨.done, c', by simp [resume, report, hstalls, hs], .inl ?_⟩
      simp [Stage.rank, Prod.Lex.toLex_lt_toLex]
    · exact ⟨.reporting state, c', by simp [resume, report, hstalls, hs], .inr ⟨rfl, ha, hq⟩⟩
  | expired | resubmitting | done => cases ho

theorem resume_of_startNext {ts ts' : List Task} {c' : Client}
    (h : startNext c.settings.resubmit ts c = some (ts', c')) :
    resume p (.resubmitting ts) c = some (.resubmitting ts', c') := by
  rw [resume, h]

theorem results?_ended (rs : List (Spot × Answer)) :
    results? (rs.map fun x => ⟨x.1, .ended x.2⟩) = some rs := by
  induction rs with
  | nil => rfl
  | cons x rs ih =>
    simp only [results?, List.map_cons, List.mapM_cons, Backoff.result?, Option.map_some] at ih ⊢
    simp [ih]

theorem startNext_ended (policy : BackoffPolicy) (rs : List (Spot × Answer))
    (c : Client) : startNext policy (rs.map fun x => ⟨x.1, .ended x.2⟩) c = none := by
  induction rs with
  | nil => rfl
  | cons x rs ih => simp [startNext, Backoff.isUnstarted, ih]

/-- Tasks that have begun have to be waited for, as long as one of them has not ended. -/
theorem resume_none_of_waiting {ts : List Task} {u : Task}
    (hs : ∀ t ∈ ts, Backoff.isUnstarted t.stage = false) (hu : u ∈ ts)
    (hended : ¬∃ r, u.stage = .ended r) : resume p (.resubmitting ts) c = none := by
  have hstart : startNext c.settings.resubmit ts c = none := by
    refine Option.eq_none_iff_forall_ne_some.mpr fun ⟨ts', c'⟩ hn => ?_
    obtain ⟨before, t, after, rfl, ht, _⟩ := startNext_eq_some hn
    rw [hs t (by simp)] at ht
    cases ht
  have hresults : results? ts = none := by
    refine Option.eq_none_iff_forall_ne_some.mpr fun rs hrs => hended ?_
    obtain rfl := results?_eq_some hrs
    obtain ⟨x, _, rfl⟩ := List.mem_map.mp hu
    exact ⟨x.2, rfl⟩
  rw [resume, hstart, hresults]
  rfl

theorem exists_results {ts : List Task} (h : ∀ t ∈ ts, ∃ r, t.stage = .ended r) :
    ∃ rs : List (Spot × Answer), ts = rs.map fun x => ⟨x.1, .ended x.2⟩ := by
  induction ts with
  | nil => exact ⟨[], rfl⟩
  | cons t ts ih =>
    obtain ⟨r, hr⟩ := h t (.head _)
    obtain ⟨rs, rfl⟩ := ih fun u hu => h u (.tail _ hu)
    obtain ⟨spot, stage⟩ := t
    obtain rfl : stage = .ended r := hr
    exact ⟨(spot, r) :: rs, rfl⟩

theorem resume_of_not_offers (policy : BackoffPolicy) (c : Client) (ho : offers st = false)
    (hd : st ≠ .done) (ht : ∀ ts, st = .resubmitting ts → ∀ t ∈ ts, ∃ r, t.stage = .ended r) :
    ∃ st' c', resume p st c = some (st', c') ∧ Stage.rank policy st' < Stage.rank policy st := by
  cases st with
  | expired =>
    refine ⟨(recover c).1, (recover c).2, rfl, ?_⟩
    cases hp : c.settings.recovery with
    | dropAll => simp [recover_dropAll hp, Stage.rank, Prod.Lex.toLex_lt_toLex]
    | resubmitAll => simp [recover_resubmitAll hp, Stage.rank, Prod.Lex.toLex_lt_toLex]
  | resubmitting ts =>
    obtain ⟨rs, rfl⟩ := exists_results (ht ts rfl)
    refine ⟨.dropping rs [], c, ?_, ?_⟩
    · simp only [resume, startNext_ended, results?_ended, Option.map_some]
    · simp [Stage.rank, Prod.Lex.toLex_lt_toLex]
  | dropping rs rest =>
    cases rest with
    | cons e es => cases ho
    | nil =>
      cases rs with
      | nil =>
        refine ⟨_, _, rfl, ?_⟩
        simp [Stage.rank, Prod.Lex.toLex_lt_toLex]
      | cons x rs =>
        obtain ⟨s, result⟩ := x
        cases result with
        | ok u =>
          refine ⟨_, _, rfl, ?_⟩
          simp [Stage.rank, Prod.Lex.toLex_lt_toLex]
        | error f =>
          refine ⟨_, _, rfl, ?_⟩
          simp [Stage.rank, Prod.Lex.toLex_lt_toLex]
  | expiring | reporting => cases ho
  | done => exact absurd rfl hd

end Session

namespace ExpiryRun

open Client (queuings askings)

variable {c₀ : Client} {p : Party} {w w' : ExpiryRun} {st : Session.Stage}

/-- How far a party is from a place in the queue. -/
def queueRank (c : Client) : Nat :=
  if c.deliveries.line = [] then if c.deliveries.admitted = [] then 2 else 0 else 1

/-- A party gets nearer to its place when a delivery is carried out. -/
theorem queueRank_take {c c' : Client} {d : Delivery} {q : Queue Delivery}
    (ht : c.deliveries.take? = some (d, q)) (hc : c'.deliveries = q) :
    queueRank c' ≤ queueRank c ∧ ∀ p, c.deliveries.line = [p] → queueRank c' < queueRank c := by
  rcases hd : c.deliveries with ⟨capacity, items, line, admitted, isOpen⟩
  rw [hd] at ht
  cases items with
  | nil => cases ht
  | cons x xs =>
    obtain ⟨_, rfl⟩ := Prod.mk.inj (Option.some.inj ht)
    cases line with
    | nil => simp [queueRank, hc, hd, Queue.grant]
    | cons p ps =>
      constructor
      · simp only [queueRank, hc, hd, Queue.grant]
        split <;> simp
      · rintro p' hp
        obtain ⟨rfl, rfl⟩ := List.cons.inj hp
        simp [queueRank, hc, hd, Queue.grant]

def rank (policy : BackoffPolicy) (w : ExpiryRun) (st : Session.Stage) :
    (Nat ×ₗ Nat ×ₗ Nat) ×ₗ Nat :=
  toLex (st.rank policy, queueRank w.engine.client)

/-- The handling gets nearer to its end by some steps. -/
def Descends (c₀ : Client) (p : Party) (w : ExpiryRun) (st : Session.Stage) : Prop :=
  ∃ w' st', Relation.ReflTransGen (Step p) w w' ∧ Stands c₀ p w' st' ∧
    rank c₀.settings.resubmit w' st' < rank c₀.settings.resubmit w st

theorem next?_of_not_resubmitting (h : w.engine.task? p = some (.session st))
    (hst : ∀ ts, st ≠ .resubmitting ts) : w.next? p = none := by
  rw [next?_of_task h]
  cases st <;> first | rfl | exact absurd rfl (hst _)

theorem act_resume {st' : Session.Stage} {c : Client}
    (htask : w.engine.task? p = some (.session st))
    (hm : Session.resume p st w.engine.client = some (st', c)) :
    Engine.act (.resume p) w.engine = some (w.engine.put p (.session st') c) :=
  Engine.act_of_move (m := .resume) htask (by simp [Operation.move, Operation.resume, hm])

theorem Stands.descends_of_resume (h : Stands c₀ p w st)
    (htask : w.engine.task? p = some (.session st)) (hn : w.next? p = none) {st' : Session.Stage}
    {c : Client} (hm : Session.resume p st w.engine.client = some (st', c))
    (hlt : st'.rank c₀.settings.resubmit < st.rank c₀.settings.resubmit) : Descends c₀ p w st := by
  refine ⟨_, st', .single (.worked _ hn (act_resume htask hm)), h.worked htask hn hm, ?_⟩
  exact Prod.Lex.toLex_lt_toLex.mpr (.inl hlt)

theorem Stands.descends_of_offers (h : Stands c₀ p w st)
    (htask : w.engine.task? p = some (.session st)) (ho : Session.offers st = true) :
    Descends c₀ p w st := by
  have hn : w.next? p = none := next?_of_not_resubmitting htask fun ts hts => by
    subst hts
    cases ho
  rcases h.calm.free with ⟨hline, _⟩ | ⟨hline, hadmitted, hitems⟩
  · obtain ⟨st', c, hm, hlt | ⟨rfl, hadmitted, hin⟩⟩ :=
      Session.resume_of_offers c₀.settings.resubmit h.calm ho hline
    · exact h.descends_of_resume htask hn hm hlt
    · refine ⟨_, _, .single (.worked _ hn (act_resume htask hm)), h.worked htask hn hm, ?_⟩
      refine Prod.Lex.toLex_lt_toLex.mpr (.inr ⟨rfl, ?_⟩)
      simp [queueRank, Engine.client_put, hin, hline, hadmitted]
  · -- The queue is full: the dispatch worker makes room.
    obtain ⟨t, d, q, hact, htake, rfl, hq, _⟩ :=
      Engine.dispatch_of_items h.dispatching h.calm.opened hitems
    have hidle : ∀ c x, .close ∉ ((fun _ _ => {} : Client → Call → Conduct) c x).deeds := by simp
    refine ⟨_, st, .single (.dispatched _ _ hidle hact), h.dispatched hidle htake, ?_⟩
    exact Prod.Lex.toLex_lt_toLex.mpr (.inr ⟨rfl, (queueRank_take htake hq).2 p hline⟩)

theorem Stands.act_resume_none (h : Stands c₀ p w st)
    (hm : Session.resume p st w.engine.client = none) :
    Engine.act (.resume p) w.engine = none := by
  cases ha : Engine.act (.resume p) w.engine with
  | none => rfl
  | some t =>
    obtain ⟨st', hmove, _⟩ := h.handles.moved (m := .resume) h.calm.opened ha
    obtain ⟨_, _, hr⟩ := Operation.of_part (f := .session) hmove
    rw [hm] at hr
    cases hr

theorem Stands.exists_due {ts : List Task} (h : Stands c₀ p w (.resubmitting ts))
    (hidle : Engine.act (.resume p) w.engine = none) {i l : Nat} {x : Wait}
    (hx : (w.engine.waits p)[i]? = some (some x)) (hl : x.limit? = some l) :
    ∃ w', Relation.ReflTransGen (Step p) w w' ∧ Stands c₀ p w' (.resubmitting ts) ∧
      w'.engine = w.engine ∧ ∃ j y k, (w.engine.waits p)[j]? = some (some y) ∧
        y.limit? = some k ∧ w'.now = w'.changed j + k := by
  induction hgap : w.changed i + l - w.now using Nat.strong_induction_on generalizing w with
  | _ gap ih =>
    have htask : w.engine.task? p = some (.session (.resubmitting ts)) :=
      h.handles.task (by simp)
    have hinTime : ∀ j y k, (w.engine.waits p)[j]? = some (some y) → y.limit? = some k →
        w.now ≤ w.changed j + k := by
      intro j y k hy hk
      obtain ⟨_, _, start, os, _, _, htrying⟩ := h.resubmitting
      rw [Engine.waits_of_task htask, Session.waits, List.getElem?_map, h.settings] at hy
      obtain ⟨u, hu, hy⟩ := Option.map_eq_some_iff.mp hy
      exact htrying.inTime j u hu k (Option.bind_eq_some_iff.mpr ⟨y, hy, hk⟩)
    by_cases hdue : ∃ j y k, (w.engine.waits p)[j]? = some (some y) ∧ y.limit? = some k ∧
        w.now = w.changed j + k
    · exact ⟨w, .refl, h, rfl, hdue⟩
    · have hearly : ∀ j y k, (w.engine.waits p)[j]? = some (some y) → y.limit? = some k →
          w.now < w.changed j + k := fun j y k hy hk =>
        lt_of_le_of_ne (hinTime j y k hy hk) fun he => hdue ⟨j, y, k, hy, hk, he⟩
      have hbefore := hearly i x l hx hl
      obtain ⟨w', hrun, hstands, hengine, hlate⟩ :=
        ih _ (by dsimp only; omega) (h.ticked hidle hearly) hidle hx rfl
      exact ⟨w', .head (.ticked hidle hearly) hrun, hstands, hengine, hlate⟩

theorem Stands.descends_of_due {ts : List Task} (h : Stands c₀ p w (.resubmitting ts)) {j k : Nat}
    {y : Wait} (hy : (w.engine.waits p)[j]? = some (some y)) (hk : y.limit? = some k)
    (hlate : w.now = w.changed j + k) : Descends c₀ p w (.resubmitting ts) := by
  have htask : w.engine.task? p = some (.session (.resubmitting ts)) :=
    h.handles.task (by simp)
  have hwaits := hy
  rw [Engine.waits_of_task htask, Session.waits, List.getElem?_map, h.settings] at hy
  obtain ⟨u, hu, hy⟩ := Option.map_eq_some_iff.mp hy
  obtain ⟨spot, stage⟩ := u
  cases stage with
  | unstarted | ended => cases hy
  | trying n d =>
    obtain rfl := Option.some.inj hy
    obtain rfl := Option.some.inj hk
    have hm : Session.timeOut j (.resubmitting ts) w.engine.client = some (_, _) :=
      Session.update_of_getElem? hu rfl
    have hact := Engine.act_of_move (m := .timeOut j) htask (by
      rw [Operation.move, Operation.timeOut, hm]
      rfl)
    rw [← h.settings] at hlate
    refine ⟨_, _, .single (.timedOut j _ hlate hact), h.timedOut htask hlate hm, ?_⟩
    refine Prod.Lex.toLex_lt_toLex.mpr (.inl (Session.rank_set_lt hu ?_))
    rw [h.settings]
    exact Session.rank_failed_lt
  | pausing n d =>
    obtain rfl := Option.some.inj hy
    obtain rfl := Option.some.inj hk
    have hm : Session.retry j (.resubmitting ts) w.engine.client = some (_, _) :=
      Session.update_of_getElem? hu rfl
    have hact := Engine.act_of_move (m := .retry j) htask (by
      rw [Operation.move, Operation.retry, hm]
      rfl)
    refine ⟨_, _, .single (.retried j d _ hwaits hlate hact), h.retried htask hwaits hlate hm, ?_⟩
    refine Prod.Lex.toLex_lt_toLex.mpr (.inl (Session.rank_set_lt hu ?_))
    simp only [Session.Task.rank]
    omega

theorem Stands.descends_of_tasks {ts : List Task} (h : Stands c₀ p w (.resubmitting ts)) :
    Descends c₀ p w (.resubmitting ts) := by
  have htask : w.engine.task? p = some (.session (.resubmitting ts)) :=
    h.handles.task (by simp)
  have hnext := next?_of_task htask
  cases hi : ts.findIdx? (Backoff.isUnstarted ·.stage) with
  | some i =>
    -- A task is to be started.
    obtain ⟨u, hu, hun, _, hstart⟩ :=
      Session.startNext_at w.engine.client.settings.resubmit w.engine.client hi
    have hm := Session.resume_of_startNext (p := p) hstart
    refine ⟨_, _, .single (.began i _ (hnext.trans hi) (act_resume htask hm)),
      h.began htask (hnext.trans hi) hm, ?_⟩
    exact Prod.Lex.toLex_lt_toLex.mpr
      (.inl (Session.rank_set_lt hu (Session.rank_started_lt _ hun _)))
  | none =>
    by_cases hall : ∀ u ∈ ts, ∃ r, u.stage = .ended r
    · obtain ⟨st', c, hm, hlt⟩ := Session.resume_of_not_offers (p := p) c₀.settings.resubmit
        w.engine.client (show Session.offers (.resubmitting ts) = false from rfl) (by simp)
        fun ts' hts => Session.Stage.resubmitting.inj hts ▸ hall
      exact h.descends_of_resume htask (hnext.trans hi) hm hlt
    · -- Nothing is to be done but to wait.
      rw [List.findIdx?_eq_none_iff] at hi
      obtain ⟨u, hu, hended⟩ : ∃ u ∈ ts, ¬∃ r, u.stage = .ended r := by simpa using hall
      obtain ⟨i, hget⟩ := List.mem_iff_getElem?.mp hu
      have hidle : Engine.act (.resume p) w.engine = none :=
        h.act_resume_none (Session.resume_none_of_waiting hi hu hended)
      obtain ⟨x, l, hx, hl⟩ : ∃ x l, Backoff.wait? c₀.settings.resubmit u.spot.request u.stage =
          some x ∧ x.limit? = some l := by
        have hstarted := hi u hu
        cases hs : u.stage with
        | unstarted => simp [hs, Backoff.isUnstarted] at hstarted
        | trying n d => exact ⟨_, _, rfl, rfl⟩
        | pausing n d => exact ⟨_, _, rfl, rfl⟩
        | ended r => exact absurd ⟨r, hs⟩ hended
      have hwait : (w.engine.waits p)[i]? = some (some x) := by
        rw [Engine.waits_of_task htask, Session.waits, List.getElem?_map, hget, h.settings]
        exact congrArg some hx
      obtain ⟨w', hrun, hstands, hengine, j, y, k, hy, hk, hlate⟩ := h.exists_due hidle hwait hl
      obtain ⟨v, st', hrun', hstands', hlt⟩ := hstands.descends_of_due (hengine ▸ hy) hk hlate
      have hrank : rank c₀.settings.resubmit w' (.resubmitting ts) =
          rank c₀.settings.resubmit w (.resubmitting ts) := by simp only [rank, hengine]
      exact ⟨v, st', hrun.trans hrun', hstands', hrank ▸ hlt⟩

theorem Stands.descends (h : Stands c₀ p w st) (hst : st ≠ .done) : Descends c₀ p w st := by
  have htask : w.engine.task? p = some (.session st) :=
    h.handles.resolve_right fun h => hst h.2.2
  cases ho : Session.offers st with
  | true => exact h.descends_of_offers htask ho
  | false =>
    by_cases hts : ∀ ts, st ≠ .resubmitting ts
    · obtain ⟨st', c, hm, hlt⟩ := Session.resume_of_not_offers (p := p) c₀.settings.resubmit
        w.engine.client ho hst fun ts hts' => absurd hts' (hts ts)
      exact h.descends_of_resume htask (next?_of_not_resubmitting htask hts) hm hlt
    · obtain ⟨ts, rfl⟩ : ∃ ts, st = .resubmitting ts := by simpa using hts
      exact h.descends_of_tasks

theorem Stands.completes (h : Stands c₀ p w st) :
    ∃ v, Relation.ReflTransGen (Step p) w v ∧ Stands c₀ p v .done := by
  induction hr : rank c₀.settings.resubmit w st using WellFoundedLT.induction
    generalizing w st with
  | _ r ih =>
    by_cases hst : st = .done
    · exact ⟨w, .refl, hst ▸ h⟩
    · obtain ⟨w', st', hrun, hstands, hlt⟩ := h.descends hst
      obtain ⟨v, hrun', hdone⟩ := ih _ (hr ▸ hlt) hstands rfl
      exact ⟨v, hrun.trans hrun', hdone⟩

theorem Stands.run (h : Stands c₀ p w st) (hs : Relation.ReflTransGen (Step p) w w') :
    ∃ st', Stands c₀ p w' st' := by
  induction hs with
  | refl => exact ⟨st, h⟩
  | tail _ hstep ih =>
    obtain ⟨st', hst'⟩ := ih
    exact hst'.step hstep

theorem stands_opening {s t : Engine} (hs : s.Still) (ht : s.TakesUp p t) (now : Nat) :
    Stands s.client p (opening t now) .expiring := by
  have hfree : s.client.deliveries.FreeFor p := .inl ⟨hs.line, .inl hs.admitted⟩
  have hstart : (Session.startOpen .expired s.client).2 =
      (s.client.note (.handling .expired)).remark
        (.sessionExpired s.client.settings.recovery) := by
    simp [Session.startOpen, Session.start, hs.opened]
    rfl
  obtain ⟨hclient, hhandles, hdispatching⟩ := ht.taken hs
  rw [hstart] at hclient
  refine ⟨hhandles, hdispatching, ?_, ?_, fun _ => le_rfl,
    [.remarked (.sessionExpired s.client.settings.recovery), .handling .expired], ?_, ?_⟩
  · change t.client.Calm p
    rw [hclient]
    exact ⟨hs.opened, hs.isOpen, hs.capacity, hfree⟩
  · change t.client.settings = _
    rw [hclient]
    rfl
  · change t.client.journal = _
    rw [hclient]
    rfl
  · refine .expiring ?_ rfl rfl rfl fun _ => rfl
    change t.client.registry = _
    rw [hclient]
    rfl

theorem supplied_opening {s t : Engine} (hs : s.Still) (ht : s.TakesUp p t) (now : Nat) :
    Supplied s.client (opening t now) := by
  have hinitial : Supplied s.client (opening s now) := ⟨[], rfl, (List.append_nil _).symm⟩
  refine hinitial.grown ?_ rfl
  have hgrows := (Operation.idles_start (.session .expired) s.client).grows
  rw [Operation.start, Prod.map_snd, id_eq, ← (ht.taken hs).1] at hgrows
  exact hgrows

/-- In a run of the handling nothing is lost of what was queued. -/
theorem supplied_run {s t : Engine} (hs : s.Still) (ht : s.TakesUp p t) {now : Nat}
    (h : Relation.ReflTransGen (Step p) (opening t now) w) : Supplied s.client w := by
  induction h with
  | refl => exact supplied_opening hs ht now
  | tail hrun hstep ih =>
    obtain ⟨_, hst⟩ := (stands_opening hs ht now).run hrun
    exact ih.step hst hstep

/-- What the tasks of a recovery did and what came of them. Every path and kind that is registered
has one; the tasks begin at one moment, in the order of their paths and kinds; what a task does,
when, and how and when it ends, is foretold by the replies to its own requests; and the entries of
those that failed are gone. -/
structure Resubmitted (c₀ : Client) (w : ExpiryRun) (asked : List Request) (gone : List Entry)
    (start : Nat) (results : List (Spot × Answer)) : Prop where
  each : ∀ κ, κ ∈ results.map Prod.fst ↔ κ ∈ c₀.registry.spots
  ordered : (results.map Prod.fst).Pairwise Spot.Before
  asked : asked.map some = w.attempts.map fun x =>
    results[x.slot]?.map fun y => .register y.1.path (.rearming y.1.kind)
  firsts : w.attempts.filter (·.number = 1) = (List.range results.length).map (⟨·, 1, start⟩)
  foretold : ∀ i κ result, results[i]? = some (κ, result) →
    Backoff.forecast c₀.settings.resubmit start (w.replies i) =
      ⟨w.times i, some (w.changed i, result)⟩
  registry : ∀ path k, w.engine.client.registry.holders path k =
    if Session.failed results ⟨path, k⟩ then [] else c₀.registry.holders path k
  gone : ∀ κ, gone.filter (·.spot = κ) =
    if Session.failed results κ then c₀.registry.entriesAt κ else []

theorem Dropped.ordered {asked : List Request} {gone : List Entry}
    (h : Dropped c₀ w asked gone []) :
    gone.Pairwise fun e f => e.spot = f.spot ∨ e.spot.Before f.spot := by
  cases h with
  | drained => exact c₀.registry.pairwise_snapshot
  | failed start before rs policy tried registry =>
    rw [List.append_nil] at tried
    rw [Session.casualties_eq_filter _ tried.spots]
    exact c₀.registry.pairwise_snapshot.filter _

theorem Dropped.resubmitted {asked : List Request} {gone : List Entry}
    (h : Dropped c₀ w asked gone []) (hp : c₀.settings.recovery = .resubmitAll) :
    ∃ start results, Resubmitted c₀ w asked gone start results := by
  cases h with
  | drained policy => cases hp.symm.trans policy
  | failed start results _ policy tried registry =>
    rw [List.append_nil] at tried
    have hlength : results.length = (Session.spots (c₀.registry.snapshot none)).length := by
      rw [← tried.spots, List.length_map]
    refine ⟨start, results, fun κ => ?_, ?_, ?_, hlength ▸ tried.firsts, tried.foretold, registry,
      fun κ => ?_⟩
    · rw [tried.spots, Registry.mem_spots_snapshot]
    · rw [tried.spots]
      exact Session.pairwise_spots c₀.registry.pairwise_snapshot
    · rw [tried.asked, ← tried.spots]
      refine List.map_congr_left fun x _ => ?_
      rw [List.getElem?_map, Option.map_map]
      rfl
    · rw [Session.casualties_eq_filter _ tried.spots, List.filter_filter,
        ← Registry.filter_snapshot]
      cases hf : Session.failed results κ with
      | true =>
        rw [if_pos rfl]
        refine List.filter_congr fun e _ => ?_
        by_cases he : e.spot = κ
        · simp [he, hf]
        · simp [he]
      | false =>
        rw [if_neg Bool.false_ne_true]
        refine List.filter_eq_nil_iff.mpr fun e _ he => ?_
        simp only [Bool.and_eq_true, decide_eq_true_eq] at he
        rw [he.1, hf] at he
        cases he.2

theorem Dropped.drained_of_dropAll {asked : List Request} {gone : List Entry}
    (h : Dropped c₀ w asked gone []) (hp : c₀.settings.recovery = .dropAll) :
    asked = [] ∧ w.engine.client.registry = .empty ∧
      ∀ κ, gone.filter (·.spot = κ) = c₀.registry.entriesAt κ := by
  cases h with
  | drained policy registry unasked => exact ⟨unasked, registry, c₀.registry.filter_snapshot⟩
  | failed start before rs policy => cases hp.symm.trans policy

/-- The handling of an expiry can always come to its end, and when it does three things were put on the
queue of deliveries behind what was there, and are there still or were carried out, in this order: the
expiry, the notices for every entry that is gone, in the order of the snapshot, and the new session,
which counts as connected. If everything is dropped nothing was asked and nothing is left. If the
watches are armed again what is gone is what their tasks failed to arm, and no task's fate depends on
another's. -/
theorem expiry_handled {s t : Engine} (hs : s.Still) (ht : s.TakesUp p t) {now : Nat}
    (h : Relation.ReflTransGen (Step p) (opening t now) w) :
    (∃ v, Relation.ReflTransGen (Step p) w v ∧ v.engine.Handles p .done) ∧
    (w.engine.Handles p .done → ∃ os gone, w.engine.client.journal = os ++ s.client.journal ∧
      w.engine.client.connected = true ∧
      queuings os = .state (.linkChange .expired) ::
        gone.map (Delivery.removed · .expired) ++ [.state (.linkChange .syncConnected)] ∧
      w.carried ++ w.engine.client.deliveries.items = s.client.deliveries.items ++
        (.state (.linkChange .expired) ::
          gone.map (Delivery.removed · .expired) ++ [.state (.linkChange .syncConnected)]) ∧
      gone.Pairwise (fun e f => e.spot = f.spot ∨ e.spot.Before f.spot) ∧
      (s.client.settings.recovery = .dropAll → askings os = [] ∧
        w.engine.client.registry = .empty ∧
        ∀ κ, gone.filter (·.spot = κ) = s.client.registry.entriesAt κ) ∧
      (s.client.settings.recovery = .resubmitAll →
        ∃ start results, Resubmitted s.client w (askings os) gone start results)) := by
  obtain ⟨st, hst⟩ := (stands_opening hs ht now).run h
  refine ⟨?_, fun hdone => ?_⟩
  · obtain ⟨v, hrun, hv⟩ := hst.completes
    exact ⟨v, hrun, hv.handles⟩
  · obtain rfl : st = .done := Engine.Handles.unique hst.handles hdone
    obtain ⟨os, hj, htells⟩ := hst.tells
    obtain ⟨os', hj', hitems⟩ := supplied_run hs ht h
    obtain rfl : os = os' := List.append_cancel_right (hj.symm.trans hj')
    cases htells with
    | done gone dropped queued connected =>
      exact ⟨os, gone, hj, connected, queued, queued ▸ hitems, dropped.ordered,
        dropped.drained_of_dropAll, dropped.resubmitted⟩

/-! ### Two expiries played out -/

/-- What the handling does next while the clock stands still. -/
inductive Prompt where
  | resume
  | answer (slot : Nat) (x : Answer)
  | dispatch

def play (p : Party) (w : ExpiryRun) : Prompt → Option ExpiryRun
  | .resume => (Engine.act (.resume p) w.engine).map fun t =>
    match w.next? p with
    | some i => w.submit i t
    | none => { w with engine := t }
  | .answer i x =>
    if w.now ≤ w.changed i + w.engine.client.settings.resubmit.timeoutMs then
      (Engine.act (.answer p i x) w.engine).map (w.hear i (.heard (w.now - w.changed i) x))
    else none
  | .dispatch => (Engine.act (.dispatch fun _ _ => {}) w.engine).map w.carry

theorem step_of_play {m : Prompt} (h : w.play p m = some w') : Step p w w' := by
  cases m with
  | resume =>
    obtain ⟨t, ht, rfl⟩ := Option.map_eq_some_iff.mp h
    cases hn : w.next? p with
    | none => exact .worked t hn ht
    | some i => exact .began i t hn ht
  | answer i x =>
    simp only [play] at h
    split at h
    · rename_i hinTime
      obtain ⟨t, ht, rfl⟩ := Option.map_eq_some_iff.mp h
      exact .answered i x t hinTime ht
    · cases h
  | dispatch =>
    obtain ⟨t, ht, rfl⟩ := Option.map_eq_some_iff.mp h
    exact .dispatched _ t (by simp) ht

/-- On a client with these settings two watchers share a watch, one of them has another, and the
session expires. The handling comes to its end in this way, and then the check holds. -/
def playsOut (settings : Settings) (ms : List Prompt) (check : Engine → ExpiryRun → Bool) : Bool :=
  match Engine.build settings none with
  | .built s =>
    (Chronicle.follow [.begin (.arm ⟨.presence, "/a", .watcher (.named "v")⟩),
      .answer (.caller 0) 0 (.ok (.presence true)), .collect 0,
      .begin (.arm ⟨.presence, "/a", .watcher (.named "w")⟩),
      .answer (.caller 1) 0 (.ok (.presence true)), .collect 1,
      .begin (.arm ⟨.listing, "/a", .watcher (.named "w")⟩),
      .answer (.caller 2) 0 (.ok (.listing [])), .collect 2] (Chronicle.opening s)).any fun u =>
        decide ((u.engine.calls.map Prod.fst).Nodup ∧ (∀ x ∈ u.engine.calls, x.1 < u.engine.nextCall) ∧
          u.engine.client.closed = false ∧ u.engine.dispatching = true ∧
          u.engine.client.deliveries.isOpen = true ∧ 0 < u.engine.client.deliveries.capacity ∧
          u.engine.client.deliveries.line = [] ∧ u.engine.client.deliveries.admitted = []) &&
        (Engine.act (.begin (.session .expired)) u.engine).any fun t =>
          (ms.foldlM (play (.caller u.engine.nextCall)) (opening t 0)).any fun w =>
            (match w.engine.task? (.caller u.engine.nextCall) with
              | some (.session .done) => true
              | _ => false) && check u.engine w
  | _ => false

theorem run_of_playsOut {settings : Settings} {ms : List Prompt} {check : Engine → ExpiryRun → Bool}
    (h : playsOut settings ms check = true) :
    ∃ (s t : Engine) (w : ExpiryRun), s.Still ∧ s.TakesUp (.caller s.nextCall) t ∧
      Relation.ReflTransGen (Step (.caller s.nextCall)) (opening t 0) w ∧
      w.engine.Handles (.caller s.nextCall) .done ∧ check s w = true := by
  simp only [playsOut] at h
  split at h
  · obtain ⟨⟨s, _, _, _⟩, _, hs⟩ := (Option.any_eq_true _ _).mp h
    obtain ⟨hstill, ht⟩ := (Bool.and_eq_true _ _).mp hs
    obtain ⟨t, hact, hw⟩ := (Option.any_eq_true _ _).mp ht
    obtain ⟨w, hrun, hend⟩ := (Option.any_eq_true _ _).mp hw
    obtain ⟨hdone, hcheck⟩ := (Bool.and_eq_true _ _).mp hend
    obtain ⟨hnodup, hlt, hopened, hdispatching, hisOpen, hcapacity, hline, hadmitted⟩ :=
      of_decide_eq_true hstill
    refine ⟨s, t, w, ⟨⟨hnodup, hlt⟩, hopened, hdispatching, hisOpen, hcapacity, hline, hadmitted⟩,
      .called t hact, run_of_foldlM (fun _ _ _ _ => step_of_play) hrun, .inl ?_, hcheck⟩
    split at hdone
    · assumption
    · cases hdone
  · cases h

/-- Dropping everything, the handling tells all three entries and arms nothing. Arming again, it makes
one attempt for the two watchers that share a watch, and one for the other watch, which fails; then
it tells the one entry that is gone. -/
theorem expiry_handled_both_ways :
    (∃ (s t : Engine) (w : ExpiryRun), s.Still ∧ s.TakesUp (.caller s.nextCall) t ∧
      s.client.settings.recovery = .dropAll ∧
      Relation.ReflTransGen (Step (.caller s.nextCall)) (opening t 0) w ∧
      w.engine.Handles (.caller s.nextCall) .done ∧
      w.carried = [.state (.linkChange .expired)] ∧
      w.engine.client.deliveries.items = [.removed ⟨"/a", .data, .watcher (.named "v")⟩ .expired,
        .removed ⟨"/a", .data, .watcher (.named "w")⟩ .expired,
        .removed ⟨"/a", .children, .watcher (.named "w")⟩ .expired,
        .state (.linkChange .syncConnected)] ∧
      w.attempts = [] ∧ w.engine.client.registry = .empty) ∧
    ∃ (s t : Engine) (w : ExpiryRun) (asked : List Request) (gone : List Entry) (start : Nat)
      (results : List (Spot × Answer)), s.Still ∧ s.TakesUp (.caller s.nextCall) t ∧
      s.client.settings.recovery = .resubmitAll ∧
      Relation.ReflTransGen (Step (.caller s.nextCall)) (opening t 0) w ∧
      w.engine.Handles (.caller s.nextCall) .done ∧
      w.carried = [.state (.linkChange .expired)] ∧
      w.engine.client.deliveries.items = [.removed ⟨"/a", .children, .watcher (.named "w")⟩ .expired,
        .state (.linkChange .syncConnected)] ∧
      w.attempts = [⟨0, 1, 0⟩, ⟨1, 1, 0⟩] ∧ Resubmitted s.client w asked gone start results ∧
      Session.failed results ⟨"/a", .data⟩ = false ∧
      Session.failed results ⟨"/a", .children⟩ = true ∧
      w.engine.client.registry.holders "/a" .data =
        [.watcher (.named "v"), .watcher (.named "w")] ∧
      gone.filter (·.spot = ⟨"/a", .children⟩) = [⟨"/a", .children, .watcher (.named "w")⟩] := by
  constructor
  · have hplays : playsOut { recovery := .dropAll }
        [.resume, .resume, .dispatch, .resume, .resume, .resume, .resume, .resume]
        (fun s w => decide (s.client.settings.recovery = .dropAll ∧
          w.carried = [.state (.linkChange .expired)] ∧
          w.engine.client.deliveries.items = [.removed ⟨"/a", .data, .watcher (.named "v")⟩ .expired,
            .removed ⟨"/a", .data, .watcher (.named "w")⟩ .expired,
            .removed ⟨"/a", .children, .watcher (.named "w")⟩ .expired,
            .state (.linkChange .syncConnected)] ∧
          w.attempts = [])) = true := by decide +kernel
    obtain ⟨s, t, w, hs, ht, hw, hdone, hcheck⟩ := run_of_playsOut hplays
    obtain ⟨hpolicy, hcarried, hitems, hattempts⟩ := of_decide_eq_true hcheck
    obtain ⟨os, gone, _, _, _, _, _, hdrained, _⟩ := (expiry_handled hs ht hw).2 hdone
    exact ⟨s, t, w, hs, ht, hpolicy, hw, hdone, hcarried, hitems, hattempts, (hdrained hpolicy).2.1⟩
  · have hplays : playsOut { resubmit := { maxRetries := 1 } }
        [.resume, .resume, .resume, .resume, .dispatch, .answer 1 (.error .connectionLoss),
          .answer 0 (.ok (.presence true)), .resume, .resume, .resume, .resume, .resume, .resume]
        (fun s w => decide (s.client.settings.recovery = .resubmitAll ∧
          s.client.registry.holders "/a" .children = [.watcher (.named "w")] ∧
          w.carried = [.state (.linkChange .expired)] ∧
          w.engine.client.deliveries.items =
            [.removed ⟨"/a", .children, .watcher (.named "w")⟩ .expired,
              .state (.linkChange .syncConnected)] ∧
          w.attempts = [⟨0, 1, 0⟩, ⟨1, 1, 0⟩] ∧
          w.engine.client.registry.holders "/a" .data =
            [.watcher (.named "v"), .watcher (.named "w")] ∧
          w.engine.client.registry.holders "/a" .children = [])) = true := by decide +kernel
    obtain ⟨s, t, w, hs, ht, hw, hdone, hcheck⟩ := run_of_playsOut hplays
    obtain ⟨hpolicy, hbefore, hcarried, hitems, hattempts, hdata, hchildren⟩ :=
      of_decide_eq_true hcheck
    obtain ⟨os, gone, _, _, _, _, _, _, hagain⟩ := (expiry_handled hs ht hw).2 hdone
    obtain ⟨start, results, hresubmitted⟩ := hagain hpolicy
    have hfailed : Session.failed results ⟨"/a", .children⟩ = true := by
      have hholders := hresubmitted.registry "/a" .children
      rw [hchildren, hbefore] at hholders
      by_contra hf
      rw [if_neg hf] at hholders
      cases hholders
    have hkept : Session.failed results ⟨"/a", .data⟩ = false := by
      have hholders := hresubmitted.registry "/a" .data
      rw [hdata] at hholders
      by_contra hf
      rw [if_pos (by simpa using hf)] at hholders
      cases hholders
    refine ⟨s, t, w, _, gone, start, results, hs, ht, hpolicy, hw, hdone, hcarried, hitems, hattempts,
      hresubmitted, hkept, hfailed, hdata, ?_⟩
    rw [hresubmitted.gone, if_pos hfailed, Registry.entriesAt, hbefore]
    rfl

end ExpiryRun

end NodeWatch
